import DepositPortal.Requests.PublicLinks

/-!
# Regenerating a link really replaces it

Any number of `regenerate` and `revoke` calls, on any requests, interleaved statement by statement
under READ COMMITTED.

The `updateMany` of a regeneration can miss a link: one that another transaction commits while the
statement waits for a row is not in its snapshot. What makes the outcome right is the partial unique
index. A regeneration that is about to commit has an unrevoked link of its own in the table
(`Asserts`), so no transaction can see another one (`Wf`), and the commit leaves every other link of
the request revoked (`commit_revokes`); one that missed a link collides and is rolled back.

A transaction only ever revokes links that are active (`Sound.change`), so a link that is committed
as revoked is never written again.
-/
namespace DepositPortal.PublicLinks
open Interleave ReadCommitted
open Deposits (Bytes RequestId)

variable {cfg : Config} {k : Choice} {s s' : State} {f f' e : Call} {x : Tx} {link : PublicLink}

/-- A version that a transaction has written of a committed link revokes it, and it was active. -/
def Revokes (c : Cell Xid PublicLink) (new : PublicLink) : Prop :=
  ∀ link, c.committed = some link → link.revokedAt = none ∧ ∃ now, new = link.revoke now

structure Sound (s : State) : Prop where
  wf : Wf keys s.publicLink
  fresh : ∀ c ∈ s.publicLink, ∀ t new, c.pending = some (t, new) → t < s.xid
  change : ∀ c ∈ s.publicLink, ∀ t new, c.pending = some (t, new) → Revokes c new

/-- Which call the transaction belongs to, and what it is to create. -/
def Purpose (cfg : Config) (x : Tx) : Prop :=
  match x.link with
  | none => ∃ lawyerId, x.args = .revoke x.ownedId lawyerId
  | some link => (∃ lawyerId days, x.args = .regenerate x.ownedId lawyerId days) ∧
      (∃ random, link.token = generatePublicToken random) ∧
      ∃ salt, link.pinHash = cfg.hashSecret link.pin salt

structure TxOk (cfg : Config) (s : State) (x : Tx) : Prop where
  begun : x.xid < s.xid
  purpose : Purpose cfg x
  own : ∀ c ∈ s.publicLink, ∀ new, c.pending = some (x.xid, new) → new.requestId = x.ownedId

/-- What is known of a call at each point. -/
def Asserts (cfg : Config) (s : State) : Call → Prop
  | .start _ | .done _ _ => True
  | .hash args ownedId days token _ =>
    (∃ lawyerId, args = .regenerate ownedId lawyerId days) ∧
      ∃ random, token = generatePublicToken random
  | .update x | .updating x _ => TxOk cfg s x
  | .create x link => TxOk cfg s x ∧ x.link = some link
  | .commit x => TxOk cfg s x ∧ ∀ link, x.link = some link →
      ∃ k, ⟨none, some (x.xid, rowOf cfg k x link)⟩ ∈ s.publicLink

/-- Two calls never share a transaction. -/
def OtherTx (f e : Call) : Prop := ∀ x y, f.tx = some x → e.tx = some y → x.xid ≠ y.xid

/-! ## What another call leaves alone -/

theorem TxOk.frame (h : TxOk cfg s x) (hx : s.xid ≤ s'.xid)
    (hf : Frame x.xid s.publicLink s'.publicLink) : TxOk cfg s' x where
  begun := Nat.lt_of_lt_of_le h.begun hx
  purpose := h.purpose
  own c hc new hp := h.own c ((hf c new hp).1 hc) new hp

theorem Asserts.frame (h : Asserts cfg s e) (hx : s.xid ≤ s'.xid)
    (hf : ∀ y, e.tx = some y → Frame y.xid s.publicLink s'.publicLink) : Asserts cfg s' e := by
  cases e with
  | start _ => trivial
  | hash _ _ _ _ _ => exact h
  | update x => exact TxOk.frame h hx (hf x rfl)
  | updating x _ => exact TxOk.frame h hx (hf x rfl)
  | create x _ => exact ⟨h.1.frame hx (hf x rfl), h.2⟩
  | commit x =>
    refine ⟨h.1.frame hx (hf x rfl), fun link hl => ?_⟩
    obtain ⟨k, hk⟩ := h.2 link hl
    exact ⟨k, (hf x rfl _ _ rfl).2 hk⟩
  | done _ _ => trivial

theorem Step.xid_le (h : Step cfg k s f s' f') : s.xid ≤ s'.xid := by
  cases h with
  | beganRevoke _ _ _ _ | began _ _ _ _ _ _ _ => exact Nat.le_succ _
  | _ => exact le_rfl

/-- A step touches nothing that another transaction has written. -/
theorem Step.frame (h : Step cfg k s f s' f') {t : Xid} (ht : ∀ x, f.tx = some x → t ≠ x.xid) :
    Frame t s.publicLink s'.publicLink := by
  cases h with
  | aborted _ x _ hx => exact frame_rollback (ht x hx)
  | wrote x _ _ T hT => exact frame_updateRow hT (ht x rfl)
  | inserted x _ T hT => exact frame_insert hT (ht x rfl)
  | committed x => exact frame_commit (ht x rfl)
  | _ => exact fun _ _ _ => Iff.rfl

/-! ## One step -/

theorem Sound.begin (h : Sound s) (args : Args) (ownedId : RequestId) (now : Int)
    (link : Option NewLink) : Sound (s.begin args ownedId now link).1 where
  wf := h.wf
  fresh c hc t new hp := Nat.lt_succ_of_lt (h.fresh c hc t new hp)
  change := h.change

theorem TxOk.begin (h : Sound s) (args : Args) (ownedId : RequestId) (now : Int)
    (link : Option NewLink) (hp : Purpose cfg ⟨args, ownedId, now, s.xid, link⟩) :
    Asserts cfg (s.begin args ownedId now link).1 (s.begin args ownedId now link).2 where
  begun := Nat.lt_succ_self _
  purpose := hp
  own c hc new hn := absurd (h.fresh c hc _ new hn) (lt_irrefl _)

/-- A transaction that ends leaves every row as it was, or free. -/
theorem Sound.ended {T : Table Xid PublicLink} (h : Sound s) (hwf : Wf keys T)
    (hT : ∀ c ∈ T, c ∈ s.publicLink ∨ c.pending = none) : Sound { s with publicLink := T } := by
  refine ⟨hwf, fun c hc t new hp => ?_, fun c hc t new hp => ?_⟩
  · rcases hT c hc with hc | hn
    · exact h.fresh c hc t new hp
    · rw [hn] at hp; cases hp
  · rcases hT c hc with hc | hn
    · exact h.change c hc t new hp
    · rw [hn] at hp; cases hp

theorem Sound.abort (h : Sound s) (x : Tx) (fault : Fault) : Sound (s.abort x fault).1 :=
  h.ended (h.wf.rollback x.xid) fun _ => mem_rollback

theorem Sound.committed (h : Sound s) (x : Tx) :
    Sound { s with publicLink := commit x.xid s.publicLink } :=
  h.ended (h.wf.commit x.xid) fun _ => mem_commit

theorem keys_revoke (now : Int) (link : PublicLink) : keys (link.revoke now) ⊆ keys link := by
  simp [keys, PublicLink.revoke]

/-- What a transaction adds to the table, as long as it keeps to its request. -/
theorem Sound.written {T : Table Xid PublicLink} (h : Sound s) (hx : TxOk cfg s x)
    (hwf : Wf keys T) (hT : ∀ c ∈ T, c ∈ s.publicLink ∨
      ∃ new, c.pending = some (x.xid, new) ∧ Revokes c new ∧ new.requestId = x.ownedId) :
    Sound { s with publicLink := T } ∧ TxOk cfg { s with publicLink := T } x := by
  refine ⟨⟨hwf, fun c hc t new hp => ?_, fun c hc t new hp => ?_⟩,
    ⟨hx.begun, hx.purpose, fun c hc new hp => ?_⟩⟩
  · rcases hT c hc with hc | ⟨new', hp', -, -⟩
    · exact h.fresh c hc t new hp
    · rw [hp'] at hp; cases hp; exact hx.begun
  · rcases hT c hc with hc | ⟨new', hp', hr, -⟩
    · exact h.change c hc t new hp
    · rw [hp'] at hp; cases hp; exact hr
  · rcases hT c hc with hc | ⟨new', hp', -, hr⟩
    · exact hx.own c hc new hp
    · rw [hp'] at hp; cases hp; exact hr

theorem Sound.wrote {T : Table Xid PublicLink} {row : Nat} (h : Sound s) (hx : TxOk cfg s x)
    (hT : updateRow (isActive x.ownedId) (PublicLink.revoke x.now) x.xid s.publicLink row =
      some T) : Sound { s with publicLink := T } ∧ TxOk cfg { s with publicLink := T } x := by
  refine h.written hx (h.wf.updateRow (keys_revoke _) hT) fun c hc => ?_
  rcases mem_updateRow hT hc with hc | ⟨d, hd, link, -, hs, hact, rfl⟩
  · exact .inl hc
  · simp only [isActive, Bool.and_eq_true, beq_iff_eq, Option.isNone_iff_eq_none] at hact
    refine .inr ⟨_, rfl, fun old hold => ?_, hact.1⟩
    rcases sees_eq_some.1 hs with hp | ⟨-, hcom⟩
    · -- its own version of a committed link is revoked already
      obtain ⟨-, now, rfl⟩ := h.change d hd _ _ hp old hold
      cases hact.2
    · rw [hcom] at hold; cases hold
      exact ⟨hact.2, x.now, rfl⟩

theorem Sound.inserted {T : Table Xid PublicLink} {link : NewLink} (h : Sound s)
    (hx : TxOk cfg s x) (hT : insert keys x.xid (rowOf cfg k x link) s.publicLink = .ok T) :
    Sound { s with publicLink := T } ∧ TxOk cfg { s with publicLink := T } x := by
  refine h.written hx (h.wf.insert hT) fun c hc => ?_
  rcases (mem_insert hT).1 hc with hc | rfl
  · exact .inl hc
  · exact .inr ⟨_, rfl, fun old hold => (by cases hold), rfl⟩

theorem ownedRequestId_eq {requestId ownedId : RequestId} {lawyerId : LawyerId}
    (h : s.ownedRequestId requestId lawyerId = some ownedId) : ownedId = requestId := by
  obtain ⟨r, hr, rfl⟩ := Option.map_eq_some_iff.1 h
  have := List.find?_some hr
  simp only [Bool.and_eq_true, beq_iff_eq] at this
  exact this.1

theorem Step.keeps (h : Step cfg k s f s' f') (hI : Sound s) (hf : Asserts cfg s f) :
    Sound s' ∧ Asserts cfg s' f' := by
  cases h with
  | refused _ _ | hashFailed _ _ _ _ _ _ => exact ⟨hI, trivial⟩
  | drawn ownedId requestId lawyerId days howned =>
    obtain rfl := ownedRequestId_eq howned
    exact ⟨hI, ⟨lawyerId, rfl⟩, k.random, rfl⟩
  | beganRevoke ownedId requestId lawyerId howned =>
    obtain rfl := ownedRequestId_eq howned
    exact ⟨hI.begin _ _ _ _, TxOk.begin hI _ _ _ _ ⟨lawyerId, rfl⟩⟩
  | began args ownedId days token pin link hlink =>
    subst hlink
    obtain ⟨⟨lawyerId, hargs⟩, hrandom⟩ := hf
    exact ⟨hI.begin _ _ _ _, TxOk.begin hI _ _ _ _ ⟨⟨lawyerId, days, hargs⟩, hrandom, k.salt, rfl⟩⟩
  | aborted _ x fault _ => exact ⟨hI.abort x fault, trivial⟩
  | matched x todo => exact ⟨hI, hf⟩
  | wrote x row todo T hT => exact hI.wrote hf hT
  | revoked x hl => exact ⟨hI, hf, by simp [hl]⟩
  | replaced x link hl => exact ⟨hI, hf, hl⟩
  | inserted x link T hT =>
    obtain ⟨hI', hx'⟩ := hI.inserted hf.1 hT
    refine ⟨hI', hx', fun link' hl' => ⟨k, ?_⟩⟩
    rw [hf.2] at hl'; cases hl'
    exact (mem_insert hT).2 (.inr rfl)
  | committed x => exact ⟨hI.committed x, trivial⟩

/-- The transaction of a step is the one the call had, or a new one. -/
theorem Step.tx (h : Step cfg k s f s' f') {y : Tx} (hy : f'.tx = some y) :
    f.tx = some y ∨ y.xid = s.xid := by
  cases h with
  | refused _ _ | drawn _ _ _ _ _ | hashFailed _ _ _ _ _ _ | aborted _ _ _ _ | committed _ =>
    cases hy
  | beganRevoke _ _ _ _ | began _ _ _ _ _ _ _ => cases hy; exact .inr rfl
  | matched _ _ | wrote _ _ _ _ _ | revoked _ _ | replaced _ _ _ | inserted _ _ _ _ =>
    exact .inl hy

theorem Asserts.begun (h : Asserts cfg s e) {y : Tx} (hy : e.tx = some y) : y.xid < s.xid := by
  cases e with
  | update x | updating x _ => cases hy; exact TxOk.begun h
  | create x _ | commit x => cases hy; exact h.1.begun
  | start _ | hash _ _ _ _ _ | done _ _ => cases hy

theorem start_of_enters (h : (machine cfg).enters f = true) : ∃ args, f = .start args := by
  cases f with
  | start args => exact ⟨args, rfl⟩
  | _ => cases h

theorem outline (cfg : Config) :
    PairOutline (machine cfg) (fun _ _ _ => True) Sound (Asserts cfg) OtherTx where
  symm f e h x y hx hy := (h y x hy hx).symm
  enter s f _ hf := by
    obtain ⟨args, rfl⟩ := start_of_enters hf
    trivial
  meet s f e _ hf _ x y hx := by
    obtain ⟨args, rfl⟩ := start_of_enters hf
    cases hx
  keeps k s f s' f' hI hf _ he := (step_of_exec he).keeps hI hf
  stable k s f s' f' e hI _ he hK _ h := by
    have hstep := step_of_exec h
    exact he.frame hstep.xid_le fun y hy => hstep.frame fun x hx => (hK x y hx hy).symm
  apart k s f s' f' e _ _ he hK _ h x y hx hy := by
    rcases (step_of_exec h).tx hx with hx | hx
    · exact hK x y hx hy
    · rw [hx]; exact (he.begun hy).ne'

/-! ## What a step does to the links -/

/-- What may become of a committed link: it stays as it is, or it was active and is revoked. -/
def Kept (link link' : PublicLink) : Prop :=
  link' = link ∨ link.revokedAt = none ∧ ∃ now, link' = link.revoke now

theorem Kept.trans {link₁ link₂ : PublicLink} (h : Kept link link₁) (h' : Kept link₁ link₂) :
    Kept link link₂ := by
  obtain rfl | ⟨hn, now, rfl⟩ := h
  · exact h'
  · obtain rfl | ⟨hn', -⟩ := h'
    · exact .inr ⟨hn, now, rfl⟩
    · cases hn'

theorem Kept.same {link' : PublicLink} (h : Kept link link') : link'.id = link.id ∧
    link'.tokenHash = link.tokenHash ∧ link'.requestId = link.requestId := by
  obtain rfl | ⟨-, now, rfl⟩ := h <;> exact ⟨rfl, rfl, rfl⟩

theorem Kept.of_revoked {link' : PublicLink} (h : Kept link link') (hr : link.revokedAt ≠ none) :
    link' = link :=
  h.resolve_right fun hn => hr hn.1

theorem sees_kept (hI : Sound s) {c : Cell Xid PublicLink} (hc : c ∈ s.publicLink)
    (hl : c.committed = some link) (t : Xid) :
    ∃ link', c.sees t = some link' ∧ Kept link link' := by
  by_cases hp : ∃ new, c.pending = some (t, new)
  · obtain ⟨new, hp⟩ := hp
    exact ⟨new, sees_eq_some.2 (.inl hp), .inr (hI.change c hc t new hp link hl)⟩
  · exact ⟨link, sees_eq_some.2 (.inr ⟨fun q hq => hp ⟨q, hq⟩, hl⟩), .inl rfl⟩

/-- The links after a commit. -/
theorem mem_links_commit {x : Tx} :
    link ∈ State.links { s with publicLink := commit x.xid s.publicLink } ↔
      ∃ c ∈ s.publicLink, c.sees x.xid = some link := by
  simp [State.links, rows_commit, List.mem_filterMap]

/-- Only a commit changes the links. -/
theorem Step.links (h : Step cfg k s f s' f') : s'.links = s.links ∨
    ∃ x, f = .commit x ∧ s' = { s with publicLink := commit x.xid s.publicLink } ∧
      f' = .done x.args (answerOf cfg x) := by
  cases h with
  | committed x => exact .inr ⟨x, rfl, rfl, rfl⟩
  | aborted _ x _ _ => exact .inl (rows_rollback _ _)
  | wrote x _ _ T hT => exact .inl (rows_updateRow hT)
  | inserted x _ T hT => exact .inl (rows_insert hT)
  | _ => exact .inl rfl

theorem Step.kept (h : Step cfg k s f s' f') (hI : Sound s) (hl : link ∈ s.links) :
    ∃ link' ∈ s'.links, Kept link link' := by
  obtain e | ⟨x, rfl, rfl, -⟩ := h.links
  · exact ⟨link, e ▸ hl, .inl rfl⟩
  · obtain ⟨c, hc, hcl⟩ := List.mem_filterMap.1 hl
    obtain ⟨link', hs, hk⟩ := sees_kept hI hc hcl x.xid
    exact ⟨link', mem_links_commit.2 ⟨c, hc, hs⟩, hk⟩

/-- A transaction on another request keeps every link of this one. -/
theorem commit_other {x : Tx} (hI : Sound s) (hx : TxOk cfg s x) (hl : link ∈ s.links)
    (hr : link.requestId ≠ x.ownedId) :
    link ∈ State.links { s with publicLink := commit x.xid s.publicLink } := by
  obtain ⟨c, hc, hcl⟩ := List.mem_filterMap.1 hl
  refine mem_links_commit.2 ⟨c, hc, sees_eq_some.2 (.inr ⟨fun new hn => hr ?_, hcl⟩)⟩
  obtain ⟨-, now, rfl⟩ := hI.change c hc _ new hn link hcl
  exact hx.own c hc (link.revoke now) hn

/-- A regeneration that commits has its own link in the table, active; so every other link of the
request is revoked by then. -/
theorem commit_revokes {x : Tx} {new : NewLink} (hI : Sound s) (hx : Asserts cfg s (.commit x))
    (hnew : x.link = some new) (hl : link ∈ s.links) (hr : link.requestId = x.ownedId) :
    ∃ link' ∈ State.links { s with publicLink := commit x.xid s.publicLink },
      Kept link link' ∧ link'.revokedAt ≠ none := by
  obtain ⟨k, hown⟩ := hx.2 new hnew
  obtain ⟨c, hc, hcl⟩ := List.mem_filterMap.1 hl
  obtain ⟨link', hs, hk⟩ := sees_kept hI hc hcl x.xid
  refine ⟨link', mem_links_commit.2 ⟨c, hc, hs⟩, hk, fun hact => ?_⟩
  have hne : c ≠ ⟨none, some (x.xid, rowOf cfg k x new)⟩ := by rintro rfl; cases hcl
  have : Std.Symm fun c d : Cell Xid PublicLink => Compatible keys c d :=
    ⟨fun _ _ => Compatible.symm⟩
  have hsee : Cell.sees x.xid ⟨none, some (x.xid, rowOf cfg k x new)⟩ = some (rowOf cfg k x new) :=
    sees_eq_some.2 (.inl rfl)
  have hclash := (hI.wf.forall hc hown hne).sees hs hsee
  refine clash_eq_false.1 hclash (.active x.ownedId) ?_ ?_
  · simp [keys, hact, hk.same.2.2, hr]
  · simp [keys, rowOf]

end DepositPortal.PublicLinks
