import DepositPortal.Portal.LastLink

/-!
# Revocations that lose no time

`Timely` compares what a revocation has written with the table it commits into. Here it follows from the
order of the steps. `revoke` reads its clock and then sends its `updateMany`
(requests/public-links.service.ts:188); as long as no regeneration of the request commits in between
(`Prompt`), a link that the statement finds active was there when the clock was read, and the others of
the request had been revoked by then (`Behind`). From the statement on nothing can come between: while
that link is active, the unique index lets no other link of the request in, and once it is not, the
statement leaves it alone.
-/
namespace DepositPortal.Portal
open Interleave ReadCommitted
open Requests (Plan)
open PublicLinks (PublicLink Xid Kept Tx isActive)
open Deposits (RequestId)

variable {cfg : Config} {plan : Plan} {k : Choice} {s s' : State} {f f' e : Call}
  {link : PublicLink} {requestId : RequestId} {now : Int} {w w' : World State Call}
  {a : Act Call Choice} {tr : List (Move State Call Choice)} {times : List Int} {y : Tx}

/-- A revocation of the request that has read its clock and not sent its statement. -/
def Awaiting (requestId : RequestId) : Call → Prop
  | .links (.update y) => y.link = none ∧ y.ownedId = requestId
  | _ => False

/-- No regeneration of a request commits between the clock reading of a revocation of it and its
statement. -/
def Prompt (w : World State Call) (k : Choice) : Call → Prop
  | .links (.commit x) =>
    k.fault = none → x.link ≠ none → ∀ e ∈ w.calls, ¬ Awaiting x.ownedId e
  | _ => True

/-! ## What the clock has shown -/

/-- The times in the table, and those that the open transactions are about to write, were read. -/
structure Recorded (times : List Int) (s : State) (calls : List Call) : Prop where
  rows : ∀ c ∈ s.links.publicLink, ∀ link, c.Has link → ∀ t ∈ link.revokedAt, t ∈ times
  calls : ∀ g x, .links g ∈ calls → g.tx = some x → x.now ∈ times

/-- A version of a row that a step leaves: it was there, it is a new link, or it is revoked at the time
that the transaction has read. -/
theorem has_step (h : Step cfg k s f s' f') {c : Cell Xid PublicLink}
    (hc : c ∈ s'.links.publicLink) (hl : c.Has link) :
    (∃ d ∈ s.links.publicLink, d.Has link) ∨ link.revokedAt = none ∨
      ∃ g x, f = .links g ∧ g.tx = some x ∧ link.revokedAt = some x.now := by
  have hinsert : ∀ {t : Xid} {new : PublicLink} {T : Table Xid PublicLink}, new.revokedAt = none →
      insert PublicLinks.keys t new s.links.publicLink = .ok T → c ∈ T →
      (∃ d ∈ s.links.publicLink, d.Has link) ∨ link.revokedAt = none := by
    intro t new T hnew hi hc
    rcases (mem_insert hi).1 hc with hc | rfl
    · exact .inl ⟨c, hc, hl⟩
    · rcases hl with hl | ⟨u, hl⟩
      · cases hl
      · cases hl; exact .inr hnew
  have hrollback : ∀ t, c ∈ rollback t s.links.publicLink →
      ∃ d ∈ s.links.publicLink, d.Has link := by
    intro t hc
    obtain ⟨d, hd, rfl⟩ := List.mem_map.1 hc
    exact ⟨d, hd, has_rollback hl⟩
  have hcommit : ∀ t, c ∈ ReadCommitted.commit t s.links.publicLink →
      ∃ d ∈ s.links.publicLink, d.Has link := by
    intro t hc
    obtain ⟨d, hd, rfl⟩ := List.mem_map.1 hc
    exact ⟨d, hd, has_commit hl⟩
  cases h with
  | create g g' s' h =>
    cases h with
    | inserted x T hi => exact (hinsert rfl hi hc).imp id .inl
    | aborted x xid _ _ _ => exact .inl (hrollback xid hc)
    | created x xid request items _ => exact .inl (hcommit xid hc)
    | _ => exact .inl ⟨c, hc, hl⟩
  | links g g' t h =>
    have hstep := PublicLinks.step_of_exec h
    cases hstep with
    | aborted _ x _ _ => exact .inl (hrollback x.xid hc)
    | wrote x row todo T hu =>
      rcases mem_updateRow hu hc with hc | ⟨d, hd, r, -, -, -, rfl⟩
      · exact .inl ⟨c, hc, hl⟩
      · rcases has_write hl with hcom | rfl
        · exact .inl ⟨d, hd, .inl hcom⟩
        · exact .inr (.inr ⟨_, x, rfl, rfl, rfl⟩)
    | inserted x new T hi => exact (hinsert rfl hi hc).imp id .inl
    | committed x => exact .inl (hcommit x.xid hc)
    | _ => exact .inl ⟨c, hc, hl⟩
  | client g g' s' h => cases h <;> exact .inl ⟨c, hc, hl⟩
  | seed g g' s' h => cases h <;> exact .inl ⟨c, hc, hl⟩
  | reissued owner requestId => exact .inl ⟨c, hc, hl⟩

/-- A transaction reads the clock when it begins. -/
theorem now_step {g' : PublicLinks.Call} (h : Step cfg k s f s' (.links g')) {x : Tx}
    (hx : g'.tx = some x) : (∃ g, f = .links g ∧ g.tx = some x) ∨ x.now = k.now := by
  cases h with
  | links g g' t h =>
    cases PublicLinks.step_of_exec h with
    | beganRevoke _ _ _ _ | began _ _ _ _ _ _ _ => cases hx; exact .inr rfl
    | matched _ _ | wrote _ _ _ _ _ | revoked _ _ | replaced _ _ _ | inserted _ _ _ _ =>
      exact .inl ⟨_, rfl, hx⟩
    | _ => cases hx
  | reissued owner requestId => cases hx

theorem Recorded.step {calls : List Call} {i : Nat} (h : Recorded times s calls)
    (hf : calls[i]? = some f) (hs : Step cfg k s f s' f') :
    Recorded (k.now :: times) s' (calls.set i f') where
  rows c hc link hl t ht := by
    obtain ⟨d, hd, hl⟩ | hnone | ⟨g, x, rfl, hx, hr⟩ := has_step hs hc hl
    · exact List.mem_cons_of_mem _ (h.rows d hd link hl t ht)
    · rw [hnone] at ht; cases ht
    · rw [hr] at ht
      obtain rfl : x.now = t := Option.some.inj ht
      exact List.mem_cons_of_mem _ (h.calls g x (List.mem_of_getElem? hf) hx)
  calls g x hg hx := by
    rcases List.mem_or_eq_of_mem_set hg with hg | rfl
    · exact List.mem_cons_of_mem _ (h.calls g x hg hx)
    · obtain ⟨g', rfl, hx⟩ | hnow := now_step hs hx
      · exact List.mem_cons_of_mem _ (h.calls g' x (List.mem_of_getElem? hf) hx)
      · rw [hnow]; exact List.mem_cons_self

theorem recorded_of_run (hr : (machine cfg plan).Run ⟨State.empty, []⟩ tr w) :
    Recorded (clock (tr.map Move.act)) w.shared w.calls := by
  induction hr with
  | start => exact ⟨fun c hc => (by cases hc), fun g x hg => by cases hg⟩
  | @step tr w w' a hr hn ih =>
    obtain ⟨g, rfl, hen, rfl⟩ | ⟨i, k, g, s', g', rfl, hg, he, rfl⟩ := next_cases hn
    · refine ⟨ih.rows, fun e x he hx => ?_⟩
      rcases List.mem_append.1 he with he | he
      · exact ih.calls e x he hx
      · obtain rfl := List.mem_singleton.1 he
        have hen : (PublicLinks.machine cfg.toConfig).enters e = true := hen
        obtain ⟨args, rfl⟩ := PublicLinks.start_of_enters hen
        cases hx
    · exact ih.step hg (step_of_exec he)

/-! ## What a step brings to the links -/

/-- A committed row stays where it is, up to its revocation. -/
theorem Step.kept_at (h : Step cfg k s f s' f') (hI : PublicLinks.Sound s.links) {i : Nat}
    {c : Cell Xid PublicLink} (hc : s.links.publicLink[i]? = some c) (hl : c.committed = some link) :
    ∃ c' link', s'.links.publicLink[i]? = some c' ∧ c'.committed = some link' ∧ Kept link link' := by
  have hcommit : ∀ t, ∃ c' link', (ReadCommitted.commit t s.links.publicLink)[i]? = some c' ∧
      c'.committed = some link' ∧ Kept link link' := by
    intro t
    have hat : (ReadCommitted.commit t s.links.publicLink)[i]? = some (c.commit t) := by
      rw [ReadCommitted.commit, List.getElem?_map, hc]; rfl
    rcases commit_cell t c with ⟨e, -⟩ | ⟨new, hp, e⟩ <;> rw [e] at hat
    · exact ⟨c, link, hat, hl, .inl rfl⟩
    · exact ⟨_, new, hat, rfl, .inr (hI.change c (List.mem_of_getElem? hc) t new hp link hl)⟩
  have hcell : ∀ {T : Table Xid PublicLink}, (∃ c', T[i]? = some c' ∧ c'.committed = c.committed) →
      ∃ c' link', T[i]? = some c' ∧ c'.committed = some link' ∧ Kept link link' := by
    rintro T ⟨c', hc', e⟩
    exact ⟨c', link, hc', e.trans hl, .inl rfl⟩
  cases h with
  | create g g' s' h =>
    cases h with
    | inserted x T hi => exact ⟨c, link, getElem?_insert hi hc, hl, .inl rfl⟩
    | aborted x xid _ _ _ => exact hcell (committed_rollback xid hc)
    | created x xid request items _ => exact hcommit xid
    | _ => exact ⟨c, link, hc, hl, .inl rfl⟩
  | links g g' t h =>
    cases PublicLinks.step_of_exec h with
    | aborted _ x _ _ => exact hcell (committed_rollback x.xid hc)
    | wrote x row todo T hu => exact hcell (committed_updateRow hu hc)
    | inserted x new T hi => exact ⟨c, link, getElem?_insert hi hc, hl, .inl rfl⟩
    | committed x => exact hcommit x.xid
    | _ => exact ⟨c, link, hc, hl, .inl rfl⟩
  | client g g' s' h => cases h <;> exact ⟨c, link, hc, hl, .inl rfl⟩
  | seed g g' s' h => cases h <;> exact ⟨c, link, hc, hl, .inl rfl⟩
  | reissued owner requestId => exact ⟨c, link, hc, hl, .inl rfl⟩

/-- A link after a step was there before it, or is active and new: of a regeneration that commits, or of a
request that was not there. -/
theorem Step.incoming (h : Step cfg k s f s' f') (hI : Sound s) (ha : Asserts cfg s f)
    (hl : link ∈ s'.links.links) : (∃ old ∈ s.links.links, Kept old link) ∨
      link.revokedAt = none ∧ ((∃ x, f = .links (.commit x) ∧ k.fault = none ∧ x.link ≠ none ∧
        x.ownedId = link.requestId) ∨ ¬ s.Has link.requestId) := by
  refine (h.brings hI ha hl).imp id fun hb => ?_
  cases hb with
  | regenerated x new k' hfault hx e =>
    subst e
    exact ⟨rfl, .inl ⟨x, rfl, hfault, by simp [hx], rfl⟩⟩
  | created x xid request items k' hkeys hreq e =>
    refine ⟨by rw [e]; rfl, .inr ?_⟩
    rw [hreq]
    exact not_has_new hkeys

/-! ## What a revocation finds -/

/-- The links of the request that are revoked were revoked before. -/
def Past (s : State) (requestId : RequestId) (now : Int) : Prop :=
  ∀ old ∈ s.links.links, old.requestId = requestId → ∀ before ∈ old.revokedAt, before < now

/-- The row is committed, and if it is active the other links were revoked before the transaction read
the clock. -/
def BehindAt (s : State) (y : Tx) (i : Nat) : Prop :=
  ∃ c link, s.links.publicLink[i]? = some c ∧ c.committed = some link ∧
    (isActive y.ownedId link = true → Past s y.ownedId y.now)

/-- What the transaction has written is revoked at the time it has read, after the other links. -/
def Written (s : State) (y : Tx) : Prop :=
  ∀ c ∈ s.links.publicLink, ∀ new, c.pending = some (y.xid, new) →
    new.revokedAt = some y.now ∧ Past s y.ownedId y.now

/-- The other links of the request are behind the one that a revocation may write. -/
def Behind (s : State) : Call → Prop
  | .links (.update y) => y.link = none → Written s y ∧
    ((∃ link ∈ s.links.links, isActive y.ownedId link = true) → Past s y.ownedId y.now)
  | .links (.updating y todo) => y.link = none → Written s y ∧ ∀ i ∈ todo, BehindAt s y i
  | .links (.commit y) => y.link = none → Written s y
  | _ => True

theorem isActive_iff : isActive requestId link = true ↔
    link.requestId = requestId ∧ link.revokedAt = none := by
  simp [isActive]

theorem mem_links {c : Cell Xid PublicLink} (hc : c ∈ s.links.publicLink)
    (hl : c.committed = some link) : link ∈ s.links.links :=
  List.mem_filterMap.2 ⟨c, hc, hl⟩

/-- As long as an active link stays so, no other of the request is revoked. -/
theorem Past.step (h : Past s requestId now) (hs : Step cfg k s f s' f') (hI : Sound s)
    (ha : Asserts cfg s f) (hl : link ∈ s.links.links) (hl' : link ∈ s'.links.links)
    (hact : isActive requestId link = true) : Past s' requestId now := by
  intro old ho hreq before hb
  obtain ⟨hown, hact⟩ := isActive_iff.1 hact
  obtain ⟨was, hwas, rfl | ⟨hopen, t, rfl⟩⟩ | ⟨hnone, -⟩ := hs.incoming hI ha ho
  · exact h _ hwas hreq before hb
  · -- it was the active one, which is still active
    obtain rfl : link = was := active_unique hI hwas hl (hown.trans hreq.symm) hopen hact
    have hsame : link.revoke t = link :=
      PublicLinks.eq_of_same_id (hs.keeps hI ha).1.links hl' ho rfl
    rw [← hsame] at hact
    cases hact
  · rw [hnone] at hb; cases hb

/-! ## The steps of the others -/

section
variable {g : PublicLinks.Call}

theorem xid_of_tx (hy : g.tx = some y) : Call.xid (.links g) = some y.xid := by
  rw [Call.xid, hy]; rfl

/-- A revocation writes only what is committed and active. -/
theorem active_of_pending (hI : Sound s) (ha : Asserts cfg s (.links g)) (hy : g.tx = some y)
    (hnone : y.link = none) {c : Cell Xid PublicLink} (hc : c ∈ s.links.publicLink)
    {new : PublicLink} (hp : c.pending = some (y.xid, new)) :
    ∃ link, c.committed = some link ∧ isActive y.ownedId link = true := by
  obtain ⟨hown, hcom⟩ : new.requestId = y.ownedId ∧ c.committed ≠ none := by
    cases g with
    | update x | updating x _ => cases hy; exact ⟨ha.1.own c hc new hp, ha.2.1 c hc new hp⟩
    | create x _ => cases hy; exact ⟨ha.1.1.own c hc new hp, ha.2.1 c hc new hp⟩
    | commit x =>
      cases hy
      refine ⟨ha.1.1.own c hc new hp, fun hno => ?_⟩
      obtain ⟨_, _, hx, -⟩ := ha.2.1 c hc new hp hno
      rw [hnone] at hx; cases hx
    | start _ | hash _ _ _ _ _ | done _ _ => cases hy
  obtain ⟨link, hl⟩ := Option.ne_none_iff_exists'.1 hcom
  obtain ⟨hact, t, rfl⟩ := hI.links.change c hc _ new hp link hl
  exact ⟨link, hl, isActive_iff.2 ⟨hown, hact⟩⟩

theorem Written.other (hw : Written s y) (h : Step cfg k s f s' f') (hI : Sound s)
    (hf : Asserts cfg s f) (ha : Asserts cfg s (.links g)) (hy : g.tx = some y)
    (hnone : y.link = none) (hK : Apart f (.links g)) : Written s' y := by
  intro c hc new hp
  have hxid := xid_of_tx hy
  have hframe := h.frame (fun u hu => (hK u _ hu hxid).symm) (ha.begun hxid)
  have hcs := (hframe c new hp).1 hc
  obtain ⟨hrev, hpast⟩ := hw c hcs new hp
  obtain ⟨link, hl, hact⟩ := active_of_pending hI ha hy hnone hcs hp
  exact ⟨hrev, hpast.step h hI hf (mem_links hcs hl) (mem_links hc hl) hact⟩

theorem BehindAt.other {i : Nat} (hb : BehindAt s y i) (h : Step cfg k s f s' f') (hI : Sound s)
    (hf : Asserts cfg s f) : BehindAt s' y i := by
  obtain ⟨c, link, hc, hl, hpast⟩ := hb
  obtain ⟨c', link', hc', hl', hk⟩ := h.kept_at hI.links hc hl
  refine ⟨c', link', hc', hl', fun hact => ?_⟩
  obtain rfl | ⟨-, t, rfl⟩ := hk
  · exact (hpast hact).step h hI hf (mem_links (List.mem_of_getElem? hc) hl)
      (mem_links (List.mem_of_getElem? hc') hl') hact
  · cases (isActive_iff.1 hact).2

theorem behind_other (h : Step cfg k s f s' f') (hI : Sound s) (hf : Asserts cfg s f)
    (ha : Asserts cfg s e) (hK : Apart f e)
    (hno : ∀ x, f = .links (.commit x) → k.fault = none → x.link ≠ none → ¬ Awaiting x.ownedId e)
    (hb : Behind s e) : Behind s' e := by
  cases e with
  | links g =>
    cases g with
    | update y =>
      intro hnone
      obtain ⟨hw, hpast⟩ := hb hnone
      refine ⟨hw.other h hI hf ha rfl hnone hK, ?_⟩
      rintro ⟨link, hl, hact⟩
      obtain ⟨hown, hopen⟩ := isActive_iff.1 hact
      obtain ⟨old, ho, rfl | ⟨-, t, rfl⟩⟩ | ⟨-, ⟨x, rfl, hfault, hx, hreq⟩ | hhas⟩ :=
        h.incoming hI hf hl
      · exact (hpast ⟨link, ho, hact⟩).step h hI hf ho hl hact
      · cases hopen
      · exact absurd ⟨hnone, hown.symm.trans hreq.symm⟩ (hno x rfl hfault hx)
      · exact absurd (ha.2.2 y.ownedId rfl) (hown ▸ hhas)
    | updating y todo =>
      intro hnone
      obtain ⟨hw, htodo⟩ := hb hnone
      exact ⟨hw.other h hI hf ha rfl hnone hK, fun i hi => (htodo i hi).other h hI hf⟩
    | commit y => exact fun hnone => (hb hnone).other h hI hf ha rfl hnone hK
    | _ => trivial
  | _ => trivial

end

/-! ## Its own steps -/

theorem past_congr (e : s'.links.links = s.links.links) (h : Past s requestId now) :
    Past s' requestId now :=
  fun old ho => h old (e ▸ ho)

/-- A row that its statement matched is written. -/
theorem Written.wrote {row : Nat} {T : Table Xid PublicLink} (hw : Written s y) (hrow : BehindAt s y row)
    (hu : updateRow (isActive y.ownedId) (PublicLink.revoke y.now) y.xid s.links.publicLink row = some T) :
    Written { s with links := { s.links with publicLink := T } } y := by
  intro c hc new hp
  suffices h : new.revokedAt = some y.now ∧ Past s y.ownedId y.now from
    h.imp id (past_congr (rows_updateRow hu))
  obtain rfl | ⟨d, r, hd, -, hs, hact, rfl⟩ := updateRow_cases hu
  · exact hw c hc new hp
  rcases List.mem_or_eq_of_mem_set hc with hc | rfl
  · exact hw c hc new hp
  cases hp
  refine ⟨rfl, ?_⟩
  obtain ⟨d', link, hd', hl, hpast⟩ := hrow
  obtain rfl : d = d' := Option.some.inj (hd.symm.trans hd')
  rcases sees_eq_some.1 hs with hp | ⟨-, hcom⟩
  · exact (hw d (List.mem_of_getElem? hd) r hp).2
  · obtain rfl : r = link := Option.some.inj (hcom.symm.trans hl)
    exact hpast hact

theorem behind_own (he : exec cfg plan k s f = some (s', f')) (hI : Sound s) (ha : Asserts cfg s f)
    {calls : List Call} (hrec : Recorded times s calls) (hclock : ∀ t ∈ times, t < k.now)
    (hb : Behind s f) : Behind s' f' := by
  cases step_of_exec he with
  | create _ _ _ _ | client _ _ _ _ | seed _ _ _ _ | reissued _ _ => trivial
  | links g g' t hexec =>
    have hstep := PublicLinks.step_of_exec hexec
    cases hstep with
    | beganRevoke ownedId requestId lawyerId _ =>
      intro _
      refine ⟨fun c hc new hp => absurd (hI.links.fresh c hc _ new hp) (lt_irrefl _), fun _ => ?_⟩
      intro old ho _ before hbefore
      obtain ⟨c, hc, hl⟩ := List.mem_filterMap.1 ho
      exact hclock before (hrec.rows c hc old (.inl hl) before hbefore)
    | began args ownedId days token pin link hlink => intro hnone; cases hnone
    | matched x todo =>
      intro hnone
      obtain ⟨hw, hpast⟩ := hb hnone
      refine ⟨hw, fun i hi => ?_⟩
      rcases PublicLinks.statement_cases hexec with ⟨fault, e⟩ | e
      · exact absurd (Prod.mk.inj e).2 PublicLinks.Call.noConfusion
      · cases e
        obtain ⟨c, link, hc, hs, hact⟩ := sees_of_mem_candidates hi
        have hm := List.mem_of_getElem? hc
        rcases sees_eq_some.1 hs with hp | ⟨-, hl⟩
        · obtain ⟨hrev, -⟩ := hw c hm link hp
          rw [(isActive_iff.1 hact).2] at hrev
          cases hrev
        · exact ⟨c, link, hc, hl, fun _ => hpast ⟨link, mem_links hm hl, hact⟩⟩
    | wrote x row todo T hu =>
      intro hnone
      obtain ⟨hw, htodo⟩ := hb hnone
      refine ⟨hw.wrote (htodo row List.mem_cons_self) hu, fun i hi => ?_⟩
      exact (htodo i (List.mem_cons_of_mem _ hi)).other (step_of_exec he) hI ha
    | revoked x hl => exact fun hnone => (hb hnone).1
    | inserted x link T hi =>
      intro hnone
      rw [ha.1.2] at hnone
      cases hnone
    | _ => trivial

/-! ## Along a run -/

theorem behind_of_run (hr : (machine cfg plan).Run ⟨State.empty, []⟩ tr w)
    (hG : All (OnRun Prompt) tr) (hclock : (clock (tr.map Move.act)).Pairwise (· > ·)) :
    ∀ e ∈ w.calls, Behind w.shared e := by
  induction hr with
  | start => simp
  | @step tr w w' a hr hn ih =>
    obtain ⟨hg, hGtr⟩ := all_cons.1 hG
    have hreach := hr.reaches hGtr
    have hH := holds hreach
    intro e he
    obtain ⟨g, rfl, hen, rfl⟩ | ⟨i, k, g, s', g', rfl, hcall, hexec, rfl⟩ := next_cases hn
    · rcases List.mem_append.1 he with he | he
      · exact ih hGtr hclock e he
      · obtain rfl := List.mem_singleton.1 he
        cases e with
        | links g =>
          have hen : (PublicLinks.machine cfg.toConfig).enters g = true := hen
          obtain ⟨args, rfl⟩ := PublicLinks.start_of_enters hen
          trivial
        | _ => trivial
    · obtain ⟨hnow, hclock⟩ := List.pairwise_cons.1
        (show (k.now :: clock (tr.map Move.act)).Pairwise (· > ·) from hclock)
      have hbehind := ih hGtr hclock
      obtain ⟨j, hj⟩ := List.mem_iff_getElem?.1 he
      have hgm := List.mem_of_getElem? hcall
      rcases getElem?_set_cases hj with ⟨-, rfl⟩ | ⟨hji, hj⟩
      · exact behind_own hexec hH.1 (hH.call hcall) (recorded_of_run hr) hnow (hbehind g hgm)
      · have hem := List.mem_of_getElem? hj
        refine behind_other (step_of_exec hexec) hH.1 (hH.call hcall) (hH.call hj)
          (apart hreach i j g e (Ne.symm hji) hcall hj) ?_ (hbehind e hem)
        rintro x rfl hfault hx
        exact hg _ hcall hfault hx e hem

/-- A revocation that lost no time closes the link it revokes. -/
theorem timely_of_behind (hI : Sound w.shared) (ha : Asserts cfg w.shared f)
    (hb : Behind w.shared f) : Timely w k f := by
  cases f with
  | links g =>
    cases g with
    | commit x =>
      intro _ hnone c hc link hl p hp hx
      obtain ⟨xid, new⟩ := p
      obtain rfl : xid = x.xid := hx
      obtain ⟨hrev, hpast⟩ := hb hnone c hc new hp
      obtain ⟨link', hl', hact⟩ := active_of_pending hI ha rfl hnone hc hp
      obtain rfl : link = link' := Option.some.inj (hl.symm.trans hl')
      intro old ho hreq now hnow before hbefore
      rw [hrev] at hnow
      obtain rfl : x.now = now := Option.some.inj hnow
      exact .inl (hpast old ho (hreq.trans (isActive_iff.1 hact).1) before hbefore)
    | _ => trivial
  | _ => trivial

/-- **Whoever revokes without delay closes the last link.** In every run under a clock that shows no time
twice and never goes back, in which no regeneration of a request commits between the clock reading of a
revocation of it and its statement, every revocation that commits is timely. -/
theorem timely_of_prompt (hr : (machine cfg plan).Run ⟨State.empty, []⟩ tr w)
    (hG : All (OnRun Prompt) tr) (hclock : (clock (tr.map Move.act)).Pairwise (· > ·)) :
    All (OnRun Timely) tr := by
  induction hr with
  | start => exact all_nil
  | @step tr w w' a hr hn ih =>
    obtain ⟨hg, hGtr⟩ := all_cons.1 hG
    have hclock' : (clock (tr.map Move.act)).Pairwise (· > ·) := by
      cases a with
      | call f => exact hclock
      | run i k => exact (List.pairwise_cons.1 hclock).2
    refine all_cons.2 ⟨?_, ih hGtr hclock'⟩
    have hH := holds (hr.reaches hGtr)
    cases a with
    | call f => trivial
    | run i k =>
      intro f hf
      exact timely_of_behind hH.1 (hH.call hf)
        (behind_of_run hr hGtr hclock' f (List.mem_of_getElem? hf))

/-- So the link that is shown is the last one that was issued. -/
theorem first_last_of_prompt (hr : (machine cfg plan).Run ⟨State.empty, []⟩ tr w)
    (hG : All (OnRun Prompt) tr) (hclock : (clock (tr.map Move.act)).Pairwise (· > ·))
    {first last : PublicLink} (hf : first ∈ w.shared.links.links) (hreq : first.requestId = requestId)
    (hle : ∀ other ∈ w.shared.links.links, other.requestId = requestId →
      (Requests.LAST_LINK first other).isLE = true)
    (hlast : (issuedLinks w.shared.links.links requestId).getLast? = some last) : first = last := by
  have h := hr.reaches (timely_of_prompt hr hG hclock)
  exact (history_of_reaches h).first_last (holds h).1 hf hreq hle hlast

/-! ### A clock that is never the same twice -/

instance (requestId : RequestId) (f : Call) : Decidable (Awaiting requestId f) :=
  match f with
  | .links (.update _) => inferInstanceAs (Decidable (_ ∧ _))
  | .links (.start _) | .links (.hash _ _ _ _ _) | .links (.updating _ _) | .links (.create _ _)
  | .links (.commit _) | .links (.done _ _) | .create _ | .client _ | .seed _ => isFalse id

instance (w : World State Call) (k : Choice) (f : Call) : Decidable (Prompt w k f) :=
  match f with
  | .links (.commit x) => inferInstanceAs (Decidable (k.fault = none → x.link ≠ none →
      ∀ e ∈ w.calls, ¬ Awaiting x.ownedId e))
  | .links (.start _) | .links (.hash _ _ _ _ _) | .links (.update _) | .links (.updating _ _)
  | .links (.create _ _) | .links (.done _ _) | .create _ | .client _ | .seed _ => isTrue trivial

/-- The same steps, each one later than the one before. -/
def spaced (acts : List (Act Call Choice)) : List (Act Call Choice) :=
  acts.zipIdx.map fun
    | (.call f, _) => .call f
    | (.run i k, n) => .run i { k with now := n }

example : (moved Prompt (spaced inOrder)).1.length = inOrder.length ∧
    (clock ((moved Prompt (spaced inOrder)).1.map Move.act)).Pairwise (· > ·) := by
  decide +kernel

end DepositPortal.Portal
