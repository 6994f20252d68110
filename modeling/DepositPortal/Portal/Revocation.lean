import DepositPortal.Portal.Linked

/-!
# What a committed revocation leaves

A regeneration that commits leaves every other link of its request revoked, whatever else is under
way: it has an active link of its own in the table (`commit_revokes`). `revoke` has none. Its
`updateMany` takes its rows from what is committed when it starts (requests/public-links.service.ts:188),
so a link that a regeneration commits between its start and its end is not among them and stays active.
As long as that does not happen (`Undisturbed`), an active link of the request is always one that the
statement has yet to reach or has already written (`Covered`), and none is left when it commits.
-/
namespace DepositPortal.Portal
open Interleave ReadCommitted
open Requests (RequestedItem Plan)
open PublicLinks (DepositRequest PublicLink Xid Kept Tx isActive Args Fault)
open Deposits (RequestId)

variable {cfg : Config} {plan : Plan} {k : Choice} {s s' : State} {f f' e : Call} {link : PublicLink}
  {requestId : RequestId} {w w' : World State Call}

/-! ## The commit of a transaction -/

/-- The last call of a transaction commits it, or fails and rolls it back. -/
theorem commit_exec {cfg : PublicLinks.Config} {k : PublicLinks.Choice} {t t' : PublicLinks.State}
    {g' : PublicLinks.Call} {x : Tx} (he : PublicLinks.exec cfg k t (.commit x) = some (t', g')) :
    (k.fault = none ∧ t' = { t with publicLink := ReadCommitted.commit x.xid t.publicLink } ∧
      g' = .done x.args (PublicLinks.answerOf cfg x)) ∨
    ∃ fault, k.fault = some fault ∧ t' = (t.abort x fault).1 ∧ g' = (t.abort x fault).2 := by
  simp only [PublicLinks.exec, PublicLinks.statement] at he
  split at he
  · next fault hf => cases he; exact .inr ⟨fault, hf, rfl, rfl⟩
  · next hf => cases he; exact .inl ⟨hf, rfl, rfl⟩

/-- What follows a commit is no failure of the transaction. -/
theorem answerOf_ne (cfg : PublicLinks.Config) (x : Tx) (args : Args) (fault : Fault) :
    PublicLinks.answerOf cfg x ≠ .error (PublicLinks.failureOf args fault) := by
  intro e
  unfold PublicLinks.answerOf at e
  split at e
  · cases e
  · split at e
    · cases args with
      | regenerate _ _ _ =>
        simp only [PublicLinks.failureOf] at e
        split at e <;> cases e
      | revoke _ _ => cases e
    · cases e

/-- What a step does to the committed rows, seen from another open transaction: it leaves them alone,
or it is a commit. -/
theorem Step.committed (h : Step cfg k s f s' f') {t : Xid} (ht : ∀ u, f.xid = some u → t ≠ u)
    (hnew : t < s.links.xid) {i : Nat} {c' : Cell Xid PublicLink}
    (hc' : s'.links.publicLink[i]? = some c') (hl : c'.committed = some link) :
    (∃ c, s.links.publicLink[i]? = some c ∧ c.committed = some link ∧
      ∀ q, c.pending = some (t, q) → c'.pending = some (t, q)) ∨
    ∃ c u, s.links.publicLink[i]? = some c ∧ f.xid = some u ∧ c.pending = some (u, link) ∧
      ((∃ x, f = .links (.commit x) ∧ k.fault = none) ∨
        ∃ x request items, f = .create (.commit x u request items) ∧
          PrimaryKeys s [request] items) := by
  have hsteady : ∀ u T, Steady u s.links.publicLink T → T[i]? = some c' → t ≠ u →
      ∃ c, s.links.publicLink[i]? = some c ∧ c.committed = some link ∧
        ∀ q, c.pending = some (t, q) → c'.pending = some (t, q) := by
    intro u T hT hi htu
    obtain ⟨c, hc, hcl, hp⟩ := hT i c' hi link hl
    exact ⟨c, hc, hcl, fun q => hp t q htu⟩
  have hcommit : ∀ u, (ReadCommitted.commit u s.links.publicLink)[i]? = some c' →
      (∃ c, s.links.publicLink[i]? = some c ∧ c.committed = some link ∧
        ∀ q, c.pending = some (t, q) → c'.pending = some (t, q)) ∨
      ∃ c, s.links.publicLink[i]? = some c ∧ c.pending = some (u, link) := by
    intro u hi
    obtain ⟨c, hc, ⟨rfl, -⟩ | ⟨q, hq, rfl⟩⟩ := getElem?_commit hi
    · exact .inl ⟨c', hc, hl, fun q h => h⟩
    · cases hl; exact .inr ⟨c, hc, hq⟩
  have hsame : s'.links.publicLink = s.links.publicLink → ∃ c, s.links.publicLink[i]? = some c ∧
      c.committed = some link ∧ ∀ q, c.pending = some (t, q) → c'.pending = some (t, q) := by
    intro e
    rw [e] at hc'
    exact ⟨c', hc', hl, fun q h => h⟩
  cases h with
  | create g g' s' h =>
    cases h with
    | failed _ _ _ _ | drawn _ _ _ _ => exact .inl (hsame rfl)
    | inserted x T hT => exact .inl (hsteady _ T (steady_insert hT) hc' hnew.ne)
    | aborted x xid _ _ _ => exact .inl (hsteady xid _ (steady_rollback _ _) hc' (ht xid rfl))
    | created x xid request items hkeys =>
      refine (hcommit xid hc').imp id ?_
      rintro ⟨c, hc, hp⟩
      exact ⟨c, xid, hc, rfl, hp, .inr ⟨x, request, items, rfl, hkeys⟩⟩
  | links g g' t' h =>
    have hx : ∀ x, g.tx = some x → t ≠ x.xid := fun x hx => ht x.xid (by rw [Call.xid, hx]; rfl)
    have hstep := PublicLinks.step_of_exec h
    cases hstep with
    | aborted _ x _ hg => exact .inl (hsteady x.xid _ (steady_rollback _ _) hc' (hx x hg))
    | wrote x row todo T hT => exact .inl (hsteady x.xid T (steady_updateRow hT) hc' (hx x rfl))
    | inserted x new T hT => exact .inl (hsteady x.xid T (steady_insert hT) hc' (hx x rfl))
    | committed x =>
      refine (hcommit x.xid hc').imp id ?_
      rintro ⟨c, hc, hp⟩
      refine ⟨c, x.xid, hc, rfl, hp, .inl ⟨x, rfl, ?_⟩⟩
      rcases commit_exec h with ⟨hf, -, -⟩ | ⟨fault, -, -, hd⟩
      · exact hf
      · exact absurd (PublicLinks.Call.done.inj hd).2 (answerOf_ne _ x x.args fault)
    | _ => exact .inl (hsame rfl)
  | client g g' s' h => cases h <;> exact .inl (hsame rfl)
  | seed g g' s' h => cases h <;> exact .inl (hsame rfl)
  | reissued owner requestId => exact .inl (hsame rfl)

/-- The move is the one by which a call answers, and what it answered is for the request. -/
def answersFor (P : Call → Option RequestId) (requestId : RequestId) (m : Move State Call Choice) :
    Bool :=
  match m.act with
  | .call _ => false
  | .run i _ => m.after.calls[i]?.bind P == some requestId

theorem answersFor_iff {P : Call → Option RequestId} {m : Move State Call Choice} :
    answersFor P requestId m = true ↔ ∃ i k f, m.act = .run i k ∧ m.after.calls[i]? = some f ∧
      P f = some requestId := by
  unfold answersFor
  cases hact : m.act with
  | call f => simp
  | run i k =>
    simp only [beq_iff_eq, Option.bind_eq_some_iff]
    constructor
    · rintro ⟨f, hf, hP⟩
      exact ⟨i, k, f, rfl, hf, hP⟩
    · rintro ⟨_, _, f, ⟨⟩, hf, hP⟩
      exact ⟨f, hf, hP⟩

/-! ## The rows of a revocation -/

/-- A revocation of the request whose `updateMany` has started and is not committed. -/
def Revoking (requestId : RequestId) : Call → Prop
  | .links (.updating y _) | .links (.commit y) => y.link = none ∧ y.ownedId = requestId
  | _ => False

/-- No regeneration of a request commits while a revocation of it is under way. -/
def Undisturbed (w : World State Call) (k : Choice) : Call → Prop
  | .links (.commit x) =>
    k.fault = none → x.link ≠ none → ∀ e ∈ w.calls, ¬ Revoking x.ownedId e
  | _ => True

/-- Each active link of the request is one the statement has yet to reach, or has written. -/
def Covered (t : PublicLinks.State) (y : Tx) (todo : List Nat) : Prop :=
  ∀ (i : Nat) (c : Cell Xid PublicLink), t.publicLink[i]? = some c → ∀ link, c.committed = some link →
    isActive y.ownedId link = true → i ∈ todo ∨ ∃ new, c.pending = some (y.xid, new)

/-- `Covered`, for a revocation whose statement has started. -/
def Covering (s : State) : Call → Prop
  | .links (.updating y todo) => y.link = none → Covered s.links y todo
  | .links (.commit y) => y.link = none → Covered s.links y []
  | _ => True

/-- The statement starts with every row that is active. -/
theorem covered_candidates (t : PublicLinks.State) (y : Tx) :
    Covered t y (candidates (isActive y.ownedId) y.xid t.publicLink) := by
  intro i c hc link hl hact
  by_cases hp : ∃ new, c.pending = some (y.xid, new)
  · exact .inr hp
  · have hs : c.sees y.xid = some link := sees_eq_some.2 (.inr ⟨fun q hq => hp ⟨q, hq⟩, hl⟩)
    refine .inl (List.mem_filter.2 ⟨List.mem_range.2 (lt_of_getElem?_eq_some hc), ?_⟩)
    simp [hc, hs, hact]

/-- A row it has reached is written, or no longer active. -/
theorem covered_wrote {t : PublicLinks.State} {y : Tx} {row : Nat} {todo : List Nat}
    {T : Table Xid PublicLink} (h : Covered t y (row :: todo))
    (hT : updateRow (isActive y.ownedId) (PublicLinks.PublicLink.revoke y.now) y.xid t.publicLink row =
      some T) : Covered { t with publicLink := T } y todo := by
  intro i c' hc' link hl hact
  by_cases hp : ∃ new, c'.pending = some (y.xid, new)
  · exact .inr hp
  obtain rfl | ⟨c, r, hc, -, -, -, rfl⟩ := updateRow_cases hT
  · rcases h i c' hc' link hl hact with hi | hp'
    · rcases List.mem_cons.1 hi with rfl | hi
      · -- the row matched, so it was written
        have hs : c'.sees y.xid = some link := sees_eq_some.2 (.inr ⟨fun q hq => hp ⟨q, hq⟩, hl⟩)
        have hw := updateRow_at hT hc' hs hact
        rw [show t.publicLink[i]? = some c' from hc', Option.some.injEq] at hw
        exact .inr ⟨_, congrArg Cell.pending hw⟩
      · exact .inl hi
    · exact .inr hp'
  · rcases getElem?_set_cases hc' with ⟨rfl, rfl⟩ | ⟨hne, hc'⟩
    · exact absurd ⟨_, rfl⟩ hp
    · rcases h i c' hc' link hl hact with hi | hp'
      · exact .inl ((List.mem_cons.1 hi).resolve_left hne)
      · exact .inr hp'

/-! ## Along a run -/

theorem not_has_new {request : DepositRequest} {items : List RequestedItem}
    (hkeys : PrimaryKeys s [request] items) : ¬ s.Has request.id := by
  rintro ⟨r, hr, e⟩
  exact Requests.ne_of_nodup_append hkeys.1 hr List.mem_cons_self e

/-- The steps of the revocation itself. -/
theorem covering_own (he : exec cfg plan k s f = some (s', f')) (ha : Asserts cfg s f)
    (h : Covering s f) : Covering s' f' := by
  cases step_of_exec he with
  | create _ _ _ _ | client _ _ _ _ | seed _ _ _ _ | reissued _ _ => trivial
  | links g g' t hexec =>
    have hstep := PublicLinks.step_of_exec hexec
    cases hstep with
    | matched x todo =>
      rcases PublicLinks.statement_cases hexec with ⟨fault, e⟩ | e
      · exact absurd (Prod.mk.inj e).2 PublicLinks.Call.noConfusion
      · cases e; exact fun _ => covered_candidates _ x
    | wrote x row todo T hT => exact fun hl => covered_wrote (h hl) hT
    | revoked x hl => exact fun _ => h hl
    | inserted x link T hT =>
      intro hl
      rw [ha.1.2] at hl
      cases hl
    | _ => trivial

/-- What another step leaves of it. -/
theorem covered_other (h : Step cfg k s f s' f') (hI : Sound s) (hf : Asserts cfg s f) {y : Tx}
    {todo : List Nat} (hy : y.xid < s.links.xid) (hapart : ∀ u, f.xid = some u → y.xid ≠ u)
    (hhas : s.Has y.ownedId)
    (hno : ∀ x, f = .links (.commit x) → k.fault = none → x.link ≠ none → x.ownedId ≠ y.ownedId)
    (hcov : Covered s.links y todo) : Covered s'.links y todo := by
  intro i c' hc' link hl hact
  simp only [isActive, Bool.and_eq_true, beq_iff_eq, Option.isNone_iff_eq_none] at hact
  obtain ⟨c, hc, hcl, hkeep⟩ | ⟨c, u, hc, hu, hp, ⟨x, rfl, hfault⟩ | ⟨x, request, items, rfl, hkeys⟩⟩ :=
    h.committed hapart hy hc' hl
  · refine (hcov i c hc link hcl (by simp [isActive, hact])).imp id ?_
    rintro ⟨new, hnew⟩
    exact ⟨new, hkeep new hnew⟩
  · -- a commit on the request: it is no regeneration, and whatever else it publishes is revoked
    cases hu
    have hm := List.mem_of_getElem? hc
    have hreq := hf.1.1.own c hm link hp
    cases hcom : c.committed with
    | some old =>
      obtain ⟨-, now, rfl⟩ := hI.links.change c hm _ link hp old hcom
      exact absurd hact.2 (by simp [PublicLinks.PublicLink.revoke])
    | none =>
      obtain ⟨new, k', hnew, -⟩ := hf.2.1 c hm link hp hcom
      exact absurd (hreq.symm.trans hact.1) (hno x rfl hfault (by simp [hnew]))
  · -- a request that is being created is not yet in the table
    cases hu
    obtain ⟨-, -, ⟨k', hk', -, hown⟩, -⟩ := hf
    obtain rfl := hown c (List.mem_of_getElem? hc) link hp
    cases hp
    refine absurd hhas (hact.1 ▸ ?_)
    rw [show (x.link cfg k').requestId = request.id from hk']
    exact not_has_new hkeys

theorem covering_other (h : Step cfg k s f s' f') (hI : Sound s) (hf : Asserts cfg s f)
    (he : Asserts cfg s e) (hK : Apart f e)
    (hno : ∀ x, f = .links (.commit x) → k.fault = none → x.link ≠ none → ¬ Revoking x.ownedId e)
    (hcov : Covering s e) : Covering s' e := by
  have hcase : ∀ (y : Tx) (todo : List Nat) (g : PublicLinks.Call), e = .links g → g.tx = some y →
      (∀ x, f = .links (.commit x) → k.fault = none → x.link ≠ none → x.ownedId ≠ y.ownedId) →
      Covered s.links y todo → Covered s'.links y todo := by
    rintro y todo g rfl hy hno hc
    have hxid : Call.xid (.links g) = some y.xid := by rw [Call.xid, hy]; rfl
    refine covered_other h hI hf (he.begun hxid) (fun u hu => (hK u _ hu hxid).symm) ?_ hno hc
    refine he.2.2 y.ownedId ?_
    cases g with
    | update _ | updating _ _ | create _ _ | commit _ => cases hy; rfl
    | start _ | hash _ _ _ _ _ | done _ _ => cases hy
  cases e with
  | links g =>
    cases g with
    | updating y todo =>
      exact fun hl => hcase y todo _ rfl rfl (fun x hx hfault hxl hreq =>
        hno x hx hfault hxl ⟨hl, hreq.symm⟩) (hcov hl)
    | commit y =>
      exact fun hl => hcase y [] _ rfl rfl (fun x hx hfault hxl hreq =>
        hno x hx hfault hxl ⟨hl, hreq.symm⟩) (hcov hl)
    | _ => trivial
  | _ => trivial

/-- No revocation misses an active link in an undisturbed run. -/
theorem covering_of_reaches {G : World State Call → Act Call Choice → Prop}
    (hG : ∀ w a, G w a → OnRun Undisturbed w a)
    (h : (machine cfg plan).Reaches G ⟨State.empty, []⟩ w) :
    ∀ e ∈ w.calls, Covering w.shared e := by
  refine h.induct (I := fun w => ∀ e ∈ w.calls, Covering w.shared e) (by simp) ?_
  intro w a w' hw ih hg hn e he
  have hH := holds hw
  obtain ⟨g, rfl, hen, rfl⟩ | ⟨i, k, g, s', g', rfl, hcall, hexec, rfl⟩ := next_cases hn
  · rcases List.mem_append.1 he with he | he
    · exact ih e he
    · obtain rfl := List.mem_singleton.1 he
      cases e with
      | links g =>
        have hen : (PublicLinks.machine cfg.toConfig).enters g = true := hen
        obtain ⟨args, rfl⟩ := PublicLinks.start_of_enters hen
        trivial
      | _ => trivial
  · obtain ⟨j, hj⟩ := List.mem_iff_getElem?.1 he
    have hgm := List.mem_of_getElem? hcall
    rcases getElem?_set_cases hj with ⟨-, rfl⟩ | ⟨hji, hj⟩
    · exact covering_own hexec (hH.call hcall) (ih g hgm)
    · have hem := List.mem_of_getElem? hj
      refine covering_other (step_of_exec hexec) hH.1 (hH.call hcall) (hH.call hj)
        (apart hw i j g e (Ne.symm hji) hcall hj) ?_ (ih e hem)
      rintro x rfl hfault hxl
      exact hG _ _ hg _ hcall hfault hxl e hem

/-! ## What a commit leaves -/

/-- After the commit of a regeneration, or of a revocation that missed none, every link the request
had is revoked. -/
theorem commit_cuts {x : Tx} (hI : Sound s) (ha : Asserts cfg s (.links (.commit x)))
    (hcov : Covering s (.links (.commit x))) (hl : link ∈ s.links.links)
    (hr : link.requestId = x.ownedId) :
    ∃ link' ∈ rows (ReadCommitted.commit x.xid s.links.publicLink),
      Kept link link' ∧ link'.revokedAt ≠ none := by
  cases hx : x.link with
  | some new => exact PublicLinks.commit_revokes hI.links ha.1 hx hl hr
  | none =>
    obtain ⟨c, hc, hcl⟩ := List.mem_filterMap.1 hl
    by_cases hact : link.revokedAt = none
    · obtain ⟨i, hi⟩ := List.mem_iff_getElem?.1 hc
      have hactive : isActive x.ownedId link = true := by simp [isActive, hr, hact]
      obtain ⟨new, hnew⟩ := (hcov hx i c hi link hcl hactive).resolve_left (by simp)
      obtain ⟨-, now, rfl⟩ := hI.links.change c hc _ new hnew link hcl
      refine ⟨link.revoke now, ?_, .inr ⟨hact, now, rfl⟩, by simp [PublicLinks.PublicLink.revoke]⟩
      rw [rows_commit]
      exact List.mem_filterMap.2 ⟨c, hc, sees_eq_some.2 (.inl hnew)⟩
    · obtain ⟨link', hl', hk⟩ := kept_commit hI.links x.xid hl
      exact ⟨link', hl', hk, by rwa [hk.of_revoked hact]⟩

end DepositPortal.Portal
