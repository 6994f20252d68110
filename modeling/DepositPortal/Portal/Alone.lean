import DepositPortal.Portal.Serial

/-!
# A call that has the portal to itself

The functions of `Portal.Serial` are what the calls of the machine do when nobody steps in between: from
a world without an open transaction, a call whose steps do not fail ends with the function's answer, leaves
the function's database committed, and no transaction open.

The updates of a statement are followed row by row (`updating_alone`); on such a table none of them waits,
and together they are one map over the committed links.
-/
namespace DepositPortal.Portal
open Interleave ReadCommitted
open Requests (Plan Database)
open PublicLinks (DepositRequest PublicLink Tx TOKEN_BYTES isActive keys rowOf)
open Deposits (Bytes RequestId StorageKey)

variable {cfg : Config} {plan : Plan} {env : Env} {w : World State Call} {i : Nat}
  {lawyerId : LawyerId} {requestId : RequestId}

/-- No step fails, and the draws have their length. -/
structure Env.Usable (env : Env) : Prop where
  draw : env.draw.fault = none
  hash : env.hash.fault = none
  write : env.write.fault = none
  token : env.draw.random.length = TOKEN_BYTES

/-- The steps of call `i`, each under one of the choices of `env`. -/
def Solo (env : Env) (i : Nat) (_ : World State Call) (a : Act Call Choice) : Prop :=
  ∃ k, a = .run i k ∧ (k = env.draw ∨ k = env.hash ∨ k = env.write)

/-- Call `i` alone comes to `f`, with `db` committed and no transaction open. -/
def Ends (cfg : Config) (plan : Plan) (env : Env) (i : Nat) (w : World State Call) (f : Call)
    (db : Database) : Prop :=
  ∃ s, (machine cfg plan).Reaches (Solo env i) w ⟨s, w.calls.set i f⟩ ∧ s.database = db ∧
    Quiet s.links.publicLink

/-! ## A transaction on the links -/

section
variable (cfg : PublicLinks.Config) (k kd kh : PublicLinks.Choice) {t : PublicLinks.State} {x : Tx}

/-- After `BEGIN`. -/
def begun (t : PublicLinks.State) : PublicLinks.State := { t with xid := t.xid + 1 }

/-- The rows that the statement of a transaction leaves. -/
def afterUpdate (x : Tx) (t : PublicLinks.State) : PublicLinks.State :=
  { t with publicLink :=
      t.publicLink.map (Cell.update (isActive x.ownedId) (PublicLink.revoke x.now) x.xid) }

theorem updating_alone {todo : List Nat} {T : Table PublicLinks.Xid PublicLink} (hk : k.fault = none)
    (ha : Alone x.xid t.publicLink) (hnodup : todo.Nodup)
    (htodo : ∀ row ∈ todo, row ∈ candidates (isActive x.ownedId) x.xid t.publicLink)
    (hT : Updated (isActive x.ownedId) (PublicLink.revoke x.now) x.xid todo t.publicLink T) :
    (PublicLinks.machine cfg).alone (List.replicate todo.length k) { t with publicLink := T }
      (.updating x todo) = some (afterUpdate x t, .updating x []) := by
  induction todo generalizing T with
  | nil => rw [hT.all]; rfl
  | cons row todo ih =>
    obtain ⟨hrow, hnodup⟩ := List.nodup_cons.1 hnodup
    obtain ⟨T', hT', hrest⟩ := hT.next ha (htodo row List.mem_cons_self) hrow
    have hstep : PublicLinks.exec cfg k { t with publicLink := T } (.updating x (row :: todo)) =
        some ({ t with publicLink := T' }, .updating x todo) := by
      simp [PublicLinks.exec, PublicLinks.statement, hk, hT']
    exact alone_cons hstep (ih hnodup (fun r hr => htodo r (List.mem_cons_of_mem _ hr)) hrest)

/-- `updateMany`, from its start to its last row. -/
theorem update_alone (hk : k.fault = none) (ha : Alone x.xid t.publicLink) :
    ∃ n, (PublicLinks.machine cfg).alone (List.replicate n k) t (.update x) =
      some (afterUpdate x t, .updating x []) := by
  have hstep : PublicLinks.exec cfg k t (.update x) =
      some (t, .updating x (candidates (isActive x.ownedId) x.xid t.publicLink)) := by
    simp [PublicLinks.exec, PublicLinks.statement, hk]
  have hrest := updating_alone cfg k hk ha (List.nodup_range.filter _) (fun _ h => h)
    updated_candidates
  exact ⟨_ + 1, alone_cons hstep hrest⟩

/-- A revocation, once its request is found. -/
theorem revoking_alone {ownedId : RequestId} (hd : kd.fault = none)
    (hk : k.fault = none) (hq : Quiet t.publicLink)
    (howned : t.ownedRequestId requestId lawyerId = some ownedId)
    (hx : x = ⟨.revoke requestId lawyerId, ownedId, kd.now, t.xid, none⟩) :
    ∃ n, (PublicLinks.machine cfg).alone (kd :: (List.replicate n k ++ [k, k])) t
      (.start (.revoke requestId lawyerId)) =
        some ({ begun t with publicLink := commit x.xid (afterUpdate x (begun t)).publicLink },
          .done (.revoke requestId lawyerId) (.ok none)) := by
  have hstart : PublicLinks.exec cfg kd t (.start (.revoke requestId lawyerId)) =
      some (begun t, .update x) := by
    subst hx
    simp [PublicLinks.exec, hd, PublicLinks.Args.requestId, PublicLinks.Args.lawyerId, howned,
      PublicLinks.afterOwned, PublicLinks.State.begin, begun]
  have halone : Alone x.xid (begun t).publicLink := hq.alone x.xid
  obtain ⟨n, hn⟩ := update_alone cfg k hk halone
  refine ⟨n, alone_cons hstart (alone_append hn ?_)⟩
  subst hx
  simp [Machine.alone, PublicLinks.machine, PublicLinks.exec, PublicLinks.statement, hk,
    PublicLinks.answerOf, afterUpdate]

/-- A regeneration, once its request is found, up to its insert. -/
theorem regenerating_alone {ownedId : RequestId} {days : Int} {link : PublicLinks.NewLink}
    (hd : kd.fault = none) (hh : kh.fault = none) (hk : k.fault = none)
    (hlen : kd.random.length = TOKEN_BYTES) (hq : Quiet t.publicLink)
    (howned : t.ownedRequestId requestId lawyerId = some ownedId)
    (hlink : link = ⟨PublicLinks.generatePublicToken kd.random, PublicLinks.generatePin kd.pin,
      cfg.hashSecret (PublicLinks.generatePin kd.pin) kh.salt,
      kh.now + days * PublicLinks.MILLISECONDS_PER_DAY⟩)
    (hx : x = ⟨.regenerate requestId lawyerId days, ownedId, kh.now, t.xid, some link⟩) :
    ∃ n, (PublicLinks.machine cfg).alone (kd :: kh :: (List.replicate n k ++ [k])) t
      (.start (.regenerate requestId lawyerId days)) =
        some (afterUpdate x (begun t), .create x link) := by
  have hstart : PublicLinks.exec cfg kd t (.start (.regenerate requestId lawyerId days)) =
      some (t, .hash (.regenerate requestId lawyerId days) ownedId days
        (PublicLinks.generatePublicToken kd.random) (PublicLinks.generatePin kd.pin)) := by
    simp [PublicLinks.exec, hd, PublicLinks.Args.requestId, PublicLinks.Args.lawyerId, howned,
      PublicLinks.afterOwned, hlen]
  have hhash : PublicLinks.exec cfg kh t (.hash (.regenerate requestId lawyerId days) ownedId days
      (PublicLinks.generatePublicToken kd.random) (PublicLinks.generatePin kd.pin)) =
      some (begun t, .update x) := by
    subst hx hlink
    simp [PublicLinks.exec, hh, PublicLinks.State.begin, begun]
  have halone : Alone x.xid (begun t).publicLink := hq.alone x.xid
  obtain ⟨n, hn⟩ := update_alone cfg k hk halone
  refine ⟨n, alone_cons hstart (alone_cons hhash (alone_append hn ?_))⟩
  subst hx
  simp [Machine.alone, PublicLinks.machine, PublicLinks.exec, PublicLinks.statement, hk]

/-- What its insert meets: the committed links, the active ones of the request revoked. -/
theorem sees_afterUpdate (hq : Quiet t.publicLink) :
    (afterUpdate x t).publicLink.filterMap (Cell.sees x.xid) =
      t.links.map fun link => if isActive x.ownedId link then link.revoke x.now else link :=
  hq.sees_update

theorem alone_afterUpdate (hq : Quiet t.publicLink) : Alone x.xid (afterUpdate x t).publicLink :=
  (hq.alone x.xid).update

/-- It collides, and the transaction is rolled back. -/
theorem inserting_collides {link : PublicLinks.NewLink} (hk : k.fault = none) (hq : Quiet t.publicLink)
    (hany : (t.links.map fun old => if isActive x.ownedId old then old.revoke x.now else old).any
      (clash keys (rowOf cfg k x link)) = true) :
    PublicLinks.exec cfg k (afterUpdate x t) (.create x link) =
      some ((afterUpdate x t).abort x .uniqueViolation) := by
  have hi : insert keys x.xid (rowOf cfg k x link) (afterUpdate x t).publicLink = .violation := by
    rw [insert_alone (alone_afterUpdate hq), sees_afterUpdate hq, if_pos hany]
  simp [PublicLinks.exec, PublicLinks.statement, hk, hi]

/-- It does not, and the transaction commits. -/
theorem inserting_alone {link : PublicLinks.NewLink} (hk : k.fault = none) (hq : Quiet t.publicLink)
    (hany : (t.links.map fun old => if isActive x.ownedId old then old.revoke x.now else old).any
      (clash keys (rowOf cfg k x link)) = false) :
    (PublicLinks.machine cfg).alone [k, k] (afterUpdate x t) (.create x link) =
      some ({ t with
          publicLink := commit x.xid
            ((afterUpdate x t).publicLink ++ [⟨none, some (x.xid, rowOf cfg k x link)⟩]) },
        .done x.args (PublicLinks.answerOf cfg x)) := by
  have hi : insert keys x.xid (rowOf cfg k x link) (afterUpdate x t).publicLink =
      .ok ((afterUpdate x t).publicLink ++ [⟨none, some (x.xid, rowOf cfg k x link)⟩]) := by
    rw [insert_alone (alone_afterUpdate hq), sees_afterUpdate hq, hany, if_neg Bool.false_ne_true]
  have hcreate : PublicLinks.exec cfg k (afterUpdate x t) (.create x link) =
      some ({ t with
          publicLink := (afterUpdate x t).publicLink ++ [⟨none, some (x.xid, rowOf cfg k x link)⟩] },
        .commit x) := by
    simp [PublicLinks.exec, PublicLinks.statement, hk, hi]
    exact ⟨rfl, rfl⟩
  refine alone_cons hcreate (alone_cons ?_ (alone_nil _ _))
  simp [PublicLinks.machine, PublicLinks.exec, PublicLinks.statement, hk]

end

/-! ## The calls -/

theorem alone_links {ks : List Choice} {s : State} {t : PublicLinks.State} {f f' : PublicLinks.Call}
    (h : (PublicLinks.machine cfg.toConfig).alone (ks.map Choice.links) s.links f = some (t, f')) :
    (machine cfg plan).alone ks s (.links f) = some ({ s with links := t }, .links f') := by
  induction ks generalizing s f with
  | nil => cases h; rfl
  | cons k ks ih =>
    obtain ⟨⟨t₁, f₁⟩, he, h⟩ := Option.bind_eq_some_iff.1 h
    have hstep : exec cfg plan k s (.links f) = some ({ s with links := t₁ }, .links f₁) :=
      Option.map_eq_some_iff.2 ⟨_, he, rfl⟩
    exact alone_cons hstep (ih (s := { s with links := t₁ }) h)

theorem ends_of_alone {ks : List Choice} {f f' : Call} {s : State} {db : Database}
    (hf : w.calls[i]? = some f) (h : (machine cfg plan).alone ks w.shared f = some (s, f'))
    (hks : ∀ k ∈ ks, k = env.draw ∨ k = env.hash ∨ k = env.write) (hdb : s.database = db)
    (hq : Quiet s.links.publicLink) : Ends cfg plan env i w f' db :=
  ⟨s, (reaches_of_alone hf h).weaken fun _ _ ⟨k, hk, e⟩ => ⟨k, e, hks k hk⟩, hdb, hq⟩

theorem choices_of_links {ks : List PublicLinks.Choice}
    (h : ∀ k ∈ ks, k = env.draw.links ∨ k = env.hash.links ∨ k = env.write.links) :
    ∃ ks' : List Choice, ks'.map Choice.links = ks ∧ ∀ k ∈ ks', k = env.draw ∨ k = env.hash ∨ k = env.write := by
  induction ks with
  | nil => exact ⟨[], rfl, by simp⟩
  | cons k ks ih =>
    obtain ⟨ks', hmap, hks'⟩ := ih fun k hk => h k (List.mem_cons_of_mem _ hk)
    obtain ⟨k', hk', hfrom⟩ : ∃ k', k'.links = k ∧ (k' = env.draw ∨ k' = env.hash ∨ k' = env.write) := by
      rcases h k List.mem_cons_self with e | e | e
      · exact ⟨env.draw, e.symm, .inl rfl⟩
      · exact ⟨env.hash, e.symm, .inr (.inl rfl)⟩
      · exact ⟨env.write, e.symm, .inr (.inr rfl)⟩
    exact ⟨k' :: ks', by rw [List.map_cons, hk', hmap], List.forall_mem_cons.2 ⟨hfrom, hks'⟩⟩

theorem database_links {s : State} {t : PublicLinks.State} {links : List PublicLink}
    (hr : t.depositRequest = s.links.depositRequest) (hl : rows t.publicLink = links) :
    State.database { s with links := t } = { s.database with publicLink := links } := by
  simp only [State.database, PublicLinks.State.links, hr, hl]

/-- A call of `PublicLinksService` that comes to its end alone. -/
theorem ends_of_links {ks : List PublicLinks.Choice} {f f' : PublicLinks.Call} {t : PublicLinks.State}
    {links : List PublicLink} (hf : w.calls[i]? = some (.links f))
    (h : (PublicLinks.machine cfg.toConfig).alone ks w.shared.links f = some (t, f'))
    (hks : ∀ k ∈ ks, k = env.draw.links ∨ k = env.hash.links ∨ k = env.write.links)
    (hr : t.depositRequest = w.shared.links.depositRequest) (hl : rows t.publicLink = links)
    (hq : Quiet t.publicLink) :
    Ends cfg plan env i w (.links f') { w.shared.database with publicLink := links } := by
  obtain ⟨ks, rfl, hfrom⟩ := choices_of_links hks
  exact ends_of_alone hf (alone_links h) hfrom (database_links hr hl) hq

theorem links_refused {args : PublicLinks.Args} (hd : env.draw.fault = none)
    (hq : Quiet w.shared.links.publicLink) (hf : w.calls[i]? = some (.links (.start args)))
    (howned : ownedRequestId w.shared.database args.requestId args.lawyerId = none) :
    Ends cfg plan env i w (.links (.done args (.error PublicLinks.requestNotFound)))
      w.shared.database := by
  have howned : w.shared.links.ownedRequestId args.requestId args.lawyerId = none := howned
  have hstart : PublicLinks.exec cfg.toConfig env.draw.links w.shared.links (.start args) =
      some (w.shared.links, .done args (.error PublicLinks.requestNotFound)) := by
    simp [PublicLinks.exec, Choice.links, hd, howned]
  exact ends_of_links hf (alone_cons hstart (alone_nil _ _)) (by simp) rfl rfl hq

/-- `revoke`. -/
theorem revoke_alone (henv : env.Usable) (hq : Quiet w.shared.links.publicLink)
    (hf : w.calls[i]? = some (.links (.start (.revoke requestId lawyerId)))) :
    Ends cfg plan env i w (.links (.done (.revoke requestId lawyerId)
        ((revoke env w.shared.database requestId lawyerId).1.map fun _ => none)))
      (revoke env w.shared.database requestId lawyerId).2 := by
  unfold revoke
  cases howned : ownedRequestId w.shared.database requestId lawyerId with
  | none => exact links_refused henv.draw hq hf howned
  | some ownedId =>
    obtain ⟨n, hn⟩ := revoking_alone cfg.toConfig env.write.links env.draw.links henv.draw henv.write hq
      howned rfl
    refine ends_of_links hf hn ?_ rfl ((rows_commit _ _).trans (sees_afterUpdate hq))
      (quiet_commit (alone_afterUpdate hq))
    intro k hk
    simp only [List.mem_cons, List.mem_append, List.mem_replicate, List.not_mem_nil, or_false] at hk
    tauto

/-- What a regeneration has computed before its transaction, and the transaction. -/
def computed (cfg : PublicLinks.Config) (env : Env) (days : Int) : PublicLinks.NewLink where
  token := PublicLinks.generatePublicToken env.draw.random
  pin := PublicLinks.generatePin env.draw.pin
  pinHash := cfg.hashSecret (PublicLinks.generatePin env.draw.pin) env.hash.salt
  expiresAt := env.hash.now + days * PublicLinks.MILLISECONDS_PER_DAY

def regeneration (cfg : PublicLinks.Config) (env : Env) (t : PublicLinks.State) (requestId : RequestId)
    (lawyerId : LawyerId) (ownedId : RequestId) (days : Int) : Tx :=
  ⟨.regenerate requestId lawyerId days, ownedId, env.hash.now, t.xid, some (computed cfg env days)⟩

theorem answerOf_regeneration (cfg : PublicLinks.Config) (env : Env) (t : PublicLinks.State)
    (requestId : RequestId) (lawyerId : LawyerId) (ownedId : RequestId) (days : Int) :
    PublicLinks.answerOf cfg (regeneration cfg env t requestId lawyerId ownedId days) =
      (issue cfg env days).map some := by
  simp only [PublicLinks.answerOf, regeneration, computed, issue]
  cases PublicLinks.buildDepositUrl cfg.PUBLIC_BASE_URL
    (PublicLinks.generatePublicToken env.draw.random) with
  | none => rfl
  | some url => rfl

/-- `regenerate`. -/
theorem regenerate_alone {days : Int} (henv : env.Usable) (hq : Quiet w.shared.links.publicLink)
    (hf : w.calls[i]? = some (.links (.start (.regenerate requestId lawyerId days)))) :
    Ends cfg plan env i w (.links (.done (.regenerate requestId lawyerId days)
        ((regenerate cfg.toConfig env w.shared.database requestId lawyerId days).1.map some)))
      (regenerate cfg.toConfig env w.shared.database requestId lawyerId days).2 := by
  unfold regenerate
  cases howned : ownedRequestId w.shared.database requestId lawyerId with
  | none => exact links_refused henv.draw hq hf howned
  | some ownedId =>
    dsimp only
    obtain ⟨x, hx⟩ : ∃ x, x = regeneration cfg.toConfig env w.shared.links requestId lawyerId ownedId
      days := ⟨_, rfl⟩
    obtain ⟨n, hn⟩ := regenerating_alone cfg.toConfig env.write.links env.draw.links env.hash.links
      henv.draw henv.hash henv.write henv.token hq howned rfl hx
    have hbegun : Quiet (begun w.shared.links).publicLink := hq
    have hanswer := answerOf_regeneration cfg.toConfig env w.shared.links requestId lawyerId ownedId days
    have hrow : (w.shared.links.links.map fun old =>
        if isActive x.ownedId old then old.revoke x.now else old).any
          (clash keys (rowOf cfg.toConfig env.write.links x (computed cfg.toConfig env days))) =
        (revokeLinks w.shared.database ownedId env.hash.now).publicLink.any
          (clash keys (newLink cfg.toConfig env ownedId days)) := by
      rw [hx]; rfl
    cases hnew : createLink (revokeLinks w.shared.database ownedId env.hash.now)
      (newLink cfg.toConfig env ownedId days) with
    | none =>
      -- the insert collides, and the revocation is rolled back with it
      have hany : (revokeLinks w.shared.database ownedId env.hash.now).publicLink.any
          (clash keys (newLink cfg.toConfig env ownedId days)) = true := by
        by_contra hno
        rw [createLink, if_neg hno] at hnew
        cases hnew
      have hcreate := inserting_collides cfg.toConfig env.write.links henv.write hbegun (hrow.trans hany)
      have hrun := alone_append hn (alone_cons hcreate (alone_nil _ _))
      subst hx
      refine ends_of_links hf hrun ?_ rfl ((rows_rollback _ _).trans rows_update)
        (quiet_rollback (alone_afterUpdate hq))
      intro k hk
      simp only [List.mem_cons, List.mem_append, List.mem_replicate, List.not_mem_nil, or_false] at hk
      tauto
    | some db' =>
      obtain ⟨hany, hdb⟩ := Option.ite_none_left_eq_some.1 hnew
      obtain rfl := Option.some.inj hdb
      rw [Bool.not_eq_true] at hany
      have hcreate := inserting_alone cfg.toConfig env.write.links henv.write hbegun (hrow.trans hany)
      have hrun := alone_append hn hcreate
      rw [hx, hanswer] at hrun
      refine ends_of_links hf hrun ?_ rfl ?_ (quiet_commit ((alone_afterUpdate hbegun).append _))
      · intro k hk
        simp only [List.mem_cons, List.mem_append, List.mem_replicate, List.not_mem_nil, or_false] at hk
        tauto
      · rw [rows_commit, sees_append, sees_afterUpdate hbegun]
        rfl

section
variable {k : Choice} {s : State} {x : Creation}

/-- After the inserts of a nested write. -/
def inserted (cfg : Config) (k : Choice) (s : State) (x : Creation) : State :=
  { s with links := { s.links with
      publicLink := s.links.publicLink ++ [⟨none, some (s.links.xid, x.link cfg k)⟩]
      xid := s.links.xid + 1 } }

theorem creating_collides (plan : Plan) (hk : k.fault = none) (hlen : k.itemIds.length = x.input.items.length)
    (hq : Quiet s.links.publicLink) (hany : s.links.links.any (clash keys (x.link cfg k)) = true) :
    (machine cfg plan).exec k s (.create (.insert x)) =
      some (s, .create (thrown x.lawyerId .uniqueViolation)) := by
  have hinsert : insert keys s.links.xid (x.link cfg k) s.links.publicLink = .violation := by
    rw [hq.insert]; exact if_pos hany
  simp [machine, exec, Create.exec, hk, hlen, hinsert]

theorem creating_inserts (plan : Plan) (hk : k.fault = none) (hlen : k.itemIds.length = x.input.items.length)
    (hq : Quiet s.links.publicLink) (hany : ¬ s.links.links.any (clash keys (x.link cfg k)) = true) :
    (machine cfg plan).exec k s (.create (.insert x)) = some (inserted cfg k s x,
      .create (.commit x s.links.xid (x.request k) (x.items k))) := by
  have hinsert : insert keys s.links.xid (x.link cfg k) s.links.publicLink =
      .ok (s.links.publicLink ++ [⟨none, some (s.links.xid, x.link cfg k)⟩]) := by
    rw [hq.insert]; exact if_neg hany
  simp [machine, exec, Create.exec, hk, hlen, hinsert, inserted]

theorem alone_inserted (hq : Quiet s.links.publicLink) :
    Alone s.links.xid (inserted cfg k s x).links.publicLink :=
  (hq.alone s.links.xid).append _

theorem database_rolledBack :
    ((inserted cfg k s x).rollback s.links.xid).database = s.database := by
  refine database_links rfl ?_
  rw [rows_rollback]
  simp [inserted, rows, PublicLinks.State.links]

theorem database_published (hq : Quiet s.links.publicLink) (request : DepositRequest)
    (items : List Requests.RequestedItem) :
    ((inserted cfg k s x).publish s.links.xid request items).database =
      ⟨s.links.depositRequest ++ [request], s.links.links ++ [x.link cfg k],
        s.requestedItem ++ items, s.uploadedFile⟩ := by
  simp only [State.database, State.publish, PublicLinks.State.links, rows_commit]
  rw [show (inserted cfg k s x).links.publicLink =
    s.links.publicLink ++ [⟨none, some (s.links.xid, x.link cfg k)⟩] from rfl, sees_append, hq.sees]
  rfl

end

/-- `create`. -/
theorem create_alone {input : CreateRequestDto} (henv : env.Usable)
    (hitems : env.write.itemIds.length = input.items.length) (hq : Quiet w.shared.links.publicLink)
    (hf : w.calls[i]? = some (.create (.start lawyerId input))) :
    Ends cfg plan env i w (.create (.done lawyerId (create cfg env w.shared.database lawyerId input).1))
      (create cfg env w.shared.database lawyerId input).2 := by
  obtain ⟨x, hx⟩ : ∃ x, x = creationOf cfg env lawyerId input := ⟨_, rfl⟩
  have hstart : (machine cfg plan).exec env.draw w.shared (.create (.start lawyerId input)) =
      some (w.shared, .create (.insert x)) := by
    simp [machine, exec, Create.exec, henv.draw, henv.token, hx, creationOf]
  have hlen : env.write.itemIds.length = x.input.items.length := by rw [hx]; exact hitems
  have hlawyer : x.lawyerId = lawyerId := by rw [hx]; rfl
  have hfrom : ∀ k ∈ [env.draw, env.write, env.write], k = env.draw ∨ k = env.hash ∨ k = env.write := by
    simp
  simp only [create, ← hx, createRequest]
  by_cases hany : w.shared.database.publicLink.any (clash keys (x.link cfg env.write)) = true
  · have hrun := alone_cons hstart (alone_cons (creating_collides plan henv.write hlen hq hany)
      (alone_nil _ _))
    rw [if_pos hany]
    rw [hlawyer] at hrun
    exact ends_of_alone hf hrun (by simp) rfl hq
  have hinsert := creating_inserts plan henv.write hlen hq hany
  rw [if_neg hany]
  by_cases hkeys : ((w.shared.database.depositRequest ++ [x.request env.write]).map DepositRequest.id).Nodup ∧
      ((w.shared.database.requestedItem ++ x.items env.write).map Requests.RequestedItem.id).Nodup
  · have hcommit : (machine cfg plan).exec env.write (inserted cfg env.write w.shared x)
        (.create (.commit x w.shared.links.xid (x.request env.write) (x.items env.write))) =
          some ((inserted cfg env.write w.shared x).publish w.shared.links.xid (x.request env.write)
            (x.items env.write), .create (.done x.lawyerId
              (x.answer cfg (x.request env.write) (x.items env.write)))) := by
      have hkeys : PrimaryKeys (inserted cfg env.write w.shared x) [x.request env.write]
        (x.items env.write) := hkeys
      simp [machine, exec, Create.exec, henv.write, hkeys]
    have hrun := alone_cons hstart
      (alone_cons hinsert (alone_cons hcommit (alone_nil _ _)))
    rw [if_pos hkeys]
    rw [hlawyer] at hrun
    exact ends_of_alone hf hrun hfrom (database_published hq _ _) (quiet_commit (alone_inserted hq))
  · have hcommit : (machine cfg plan).exec env.write (inserted cfg env.write w.shared x)
        (.create (.commit x w.shared.links.xid (x.request env.write) (x.items env.write))) =
          some ((inserted cfg env.write w.shared x).rollback w.shared.links.xid,
            .create (thrown x.lawyerId .uniqueViolation)) := by
      have hkeys : ¬ PrimaryKeys (inserted cfg env.write w.shared x) [x.request env.write]
        (x.items env.write) := hkeys
      simp [machine, exec, Create.exec, henv.write, hkeys]
    have hrun := alone_cons hstart
      (alone_cons hinsert (alone_cons hcommit (alone_nil _ _)))
    rw [if_neg hkeys]
    rw [hlawyer] at hrun
    exact ends_of_alone hf hrun hfrom database_rolledBack (quiet_rollback (alone_inserted hq))

/-! ## A sequence of calls -/

def Op.Usable (env : Env) : Op → Prop
  | .create input => env.Usable ∧ env.write.itemIds.length = input.items.length
  | _ => env.Usable

/-- The call as it is left in the pool; a read is a function of a state and no call. -/
def Op.ended (lawyerId : LawyerId) : Op → Answer → Option Call
  | .create _, .created answer => some (.create (.done lawyerId answer))
  | .regenerate requestId days, .issued answer =>
    some (.links (.done (.regenerate requestId lawyerId days) (answer.map some)))
  | .revoke requestId, .revoked answer =>
    some (.links (.done (.revoke requestId lawyerId) (answer.map fun _ => none)))
  | _, _ => none

/-- The pool after the calls of a sequence. -/
def ended (lawyerId : LawyerId) (calls : List (Env × Op)) (answers : List Answer) : List Call :=
  (calls.zip answers).filterMap fun (call, answer) => call.2.ended lawyerId answer

theorem call_alone (f : Call) {f' : Call} {db : Database} (henter : enters f = true)
    (h : Ends cfg plan env w.calls.length ⟨w.shared, w.calls ++ [f]⟩ f' db) :
    ∃ w', (machine cfg plan).Reaches (fun _ _ => True) w w' ∧ w'.calls = w.calls ++ [f'] ∧
      w'.shared.database = db ∧ Quiet w'.shared.links.publicLink := by
  obtain ⟨s, hr, hdb, hq⟩ := h
  have hcall : (machine cfg plan).next w (.call f) = some ⟨w.shared, w.calls ++ [f]⟩ := by
    simp [Machine.next, machine, henter]
  have hfirst := (Machine.Reaches.refl w).step (G := fun _ _ => True) trivial hcall
  exact ⟨_, hfirst.trans (hr.weaken fun _ _ _ => trivial), by simp, hdb, hq⟩

/-- **One operation.** The machine, left to the operation alone, gives the answer of `perform` and leaves
its database. -/
theorem perform_alone (cfg : Config) (plan : Plan)
    (getObjectStream : StorageKey → Except Requests.Failure Bytes) (lawyerId : LawyerId) (op : Op)
    (henv : op.Usable env) (hq : Quiet w.shared.links.publicLink) :
    ∃ w', (machine cfg plan).Reaches (fun _ _ => True) w w' ∧
      w'.calls = w.calls ++
        (op.ended lawyerId (perform cfg getObjectStream lawyerId env w.shared.database op).1).toList ∧
      w'.shared.database = (perform cfg getObjectStream lawyerId env w.shared.database op).2 ∧
      Quiet w'.shared.links.publicLink := by
  cases op with
  | create input =>
    exact call_alone (.create (.start lawyerId input)) rfl
      (create_alone henv.1 henv.2 hq List.getElem?_concat_length)
  | regenerate requestId days =>
    exact call_alone (.links (.start (.regenerate requestId lawyerId days))) rfl
      (regenerate_alone henv hq List.getElem?_concat_length)
  | revoke requestId =>
    exact call_alone (.links (.start (.revoke requestId lawyerId))) rfl
      (revoke_alone henv hq List.getElem?_concat_length)
  | list _ | findOne _ | streamFile _ _ => exact ⟨w, .refl w, (List.append_nil _).symm, rfl, hq⟩

/-- **A sequence of calls.** What `performs` computes is a run of the machine: its answers are in the pool,
its database is committed. -/
theorem performs_alone (cfg : Config) (plan : Plan)
    (getObjectStream : StorageKey → Except Requests.Failure Bytes) (lawyerId : LawyerId)
    (calls : List (Env × Op)) (henv : ∀ call ∈ calls, call.2.Usable call.1) (w : World State Call)
    (hq : Quiet w.shared.links.publicLink) :
    ∃ w', (machine cfg plan).Reaches (fun _ _ => True) w w' ∧
      w'.calls = w.calls ++ ended lawyerId calls
        (performs cfg getObjectStream lawyerId calls w.shared.database).1 ∧
      w'.shared.database = (performs cfg getObjectStream lawyerId calls w.shared.database).2 := by
  induction calls generalizing w with
  | nil => exact ⟨w, .refl w, (List.append_nil _).symm, rfl⟩
  | cons call calls ih =>
    obtain ⟨env, op⟩ := call
    obtain ⟨w₁, hr₁, hcalls₁, hdb₁, hq₁⟩ :=
      perform_alone cfg plan getObjectStream lawyerId op (henv _ List.mem_cons_self) hq
    obtain ⟨w', hr, hcalls, hdb⟩ := ih (fun call hc => henv call (List.mem_cons_of_mem _ hc)) w₁ hq₁
    refine ⟨w', hr₁.trans hr, ?_, ?_⟩
    · rw [hcalls, hcalls₁, hdb₁, List.append_assoc]
      congr 1
      simp only [ended, performs, Prod.map, List.zip_cons_cons, List.filterMap_cons, id_eq]
      cases op.ended lawyerId (perform cfg getObjectStream lawyerId env w.shared.database op).1 with
      | none => rfl
      | some f => rfl
    · rw [hdb, hdb₁]; rfl

end DepositPortal.Portal
