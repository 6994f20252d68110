import DepositPortal.Portal.Dashboard

/-!
# The last link of a request

`LAST_LINK` (requests/requests.service.ts:36) does not order the links of a request by when they came: it
takes the active one, or else the one that was revoked last, by the times that were written in
`revokedAt`. Links come one after the other (`InTurn`: the partial unique index lets no regeneration
insert while another has), each revokes the ones before it, and only the last is ever active. So the order
goes wrong in one way only: a revocation closes the last link with a time that is not after those of the
links before it. `revoke` reads its clock first and takes its rows afterwards (`:188`), so a regeneration
that commits in between is the one it revokes, at a time before the regeneration's own (`older_link_is_shown`).
When none commits in between, no revocation goes wrong (`timely_of_prompt`, in `Portal.Prompt`).
-/
namespace DepositPortal.Portal
open Interleave ReadCommitted
open Query
open Requests (Plan LAST_LINK RequestSummaryView deriveStatus)
open PublicLinks (DepositRequest PublicLink Xid Kept Tx isActive keys)
open Deposits (RequestId)

variable {cfg : Config} {plan : Plan} {k : Choice} {s s' : State} {f f' : Call} {link old : PublicLink}
  {requestId : RequestId} {w w' : World State Call} {T T' : Table Xid PublicLink} {xid : Xid}

/-- The links of a request, in the order in which they were inserted. -/
def issuedLinks (links : List PublicLink) (requestId : RequestId) : List PublicLink :=
  links.filter fun link => link.requestId == requestId

/-- The time at which `new` revokes the link is after those of the links of the request that were revoked
before, or the same and the link is younger. -/
def Closes (links : List PublicLink) (link new : PublicLink) : Prop :=
  ∀ old ∈ links, old.requestId = link.requestId →
    ∀ now ∈ new.revokedAt, ∀ before ∈ old.revokedAt,
      before < now ∨ before = now ∧ old.createdAt < link.createdAt

/-- A revocation that commits closes the link it revokes. -/
def Timely (w : World State Call) (k : Choice) : Call → Prop
  | .links (.commit x) => k.fault = none → x.link = none →
    ∀ c ∈ w.shared.links.publicLink, ∀ link ∈ c.committed, ∀ p ∈ c.pending, p.1 = x.xid →
      Closes w.shared.links.links link p.2
  | _ => True

/-! ## The history of the links -/

/-- The links as they follow each other in the table. -/
structure History (T : Table Xid PublicLink) : Prop where
  inTurn : InTurn PublicLink.requestId T
  /-- A link comes in active. -/
  fresh : ∀ c ∈ T, c.committed = none → ∀ new, c.Has new → new.revokedAt = none
  /-- Only the last one of a request is active, -/
  older : (rows T).Pairwise fun old new => old.requestId = new.requestId → old.revokedAt ≠ none
  /-- and when it is not, it was revoked after the others. -/
  last : ∀ pre link post, rows T = pre ++ link :: post → link.revokedAt ≠ none →
    (∀ later ∈ post, later.requestId ≠ link.requestId) →
    ∀ old ∈ pre, old.requestId = link.requestId → LAST_LINK link old = .lt

theorem history_nil : History [] where
  inTurn := List.Pairwise.nil
  fresh _ h := by cases h
  older := List.Pairwise.nil
  last pre link post h := by simp [rows] at h

theorem clash_of_active {new : PublicLink} (h : old.revokedAt = none) (h' : new.revokedAt = none)
    (hr : new.requestId = old.requestId) : clash keys old new = true :=
  clash_eq_true.2 ⟨.active old.requestId, by simp [keys, h], by simp [keys, h', hr]⟩

/-- A link that was revoked at a later time comes before. -/
theorem lastLink_lt {now before : Int} (ho : old.revokedAt = some before)
    (h : before < now ∨ before = now ∧ old.createdAt < link.createdAt) :
    LAST_LINK (link.revoke now) old = .lt := by
  have hcmp : ∀ a b : Int, a < b → compare a b = .lt := fun a b => compare_lt_iff_lt.2
  simp only [LAST_LINK, compareLex, PublicLinks.PublicLink.revoke, ho, Requests.revokedAtDesc]
  rcases h with h | ⟨rfl, h⟩
  · rw [hcmp _ _ h]; rfl
  · rw [compare_eq_iff_eq.2 rfl, hcmp _ _ h]; rfl

/-! ## What a step does to it -/

theorem History.insert {t : Xid} (h : History T) (hnew : link.revokedAt = none)
    (hi : insert keys t link T = .ok T') : History T' := by
  refine ⟨h.inTurn.insert hi fun c hc hnone q hq e => ?_, fun c hc hnone new hn => ?_, ?_, ?_⟩
  · exact clash_of_active (h.fresh c hc hnone q hq) hnew e
  · rcases (mem_insert hi).1 hc with hc | rfl
    · exact h.fresh c hc hnone new hn
    · rcases hn with hn | ⟨u, hn⟩
      · cases hn
      · cases hn; exact hnew
  · rw [rows_insert hi]; exact h.older
  · rw [rows_insert hi]; exact h.last

theorem History.rollback (h : History T) (t : Xid) : History (rollback t T) := by
  refine ⟨h.inTurn.rollback t, fun c hc hnone new hn => ?_, ?_, ?_⟩
  · obtain ⟨d, hd, rfl⟩ := List.mem_map.1 hc
    exact h.fresh d hd (committed_of_rollback hnone) new (has_rollback hn)
  · rw [rows_rollback]; exact h.older
  · rw [rows_rollback]; exact h.last

/-- A transaction that updates has inserted nothing. -/
theorem History.updateRow {t : Xid} {p : PublicLink → Bool} {now : Int} {i : Nat} (h : History T)
    (hown : ∀ c ∈ T, ∀ new, c.pending = some (t, new) → c.committed ≠ none)
    (hu : updateRow p (PublicLinks.PublicLink.revoke now) t T i = some T') : History T' := by
  have hset : ∀ l : PublicLink, (l.revoke now).requestId = l.requestId := fun _ => rfl
  refine ⟨h.inTurn.updateRow hset hu, fun c hc hnone new hn => ?_, ?_, ?_⟩
  · rcases mem_updateRow hu hc with hc | ⟨d, hd, r, -, hs, -, rfl⟩
    · exact h.fresh c hc hnone new hn
    · rcases sees_eq_some.1 hs with hp | ⟨-, hcom⟩
      · exact absurd hnone (hown d hd r hp)
      · rw [show d.committed = none from hnone] at hcom; cases hcom
  · rw [rows_updateRow hu]; exact h.older
  · rw [rows_updateRow hu]; exact h.last

/-- The links after a commit, each with the cell it is in. -/
theorem older_commit {t : PublicLinks.State} (hI : PublicLinks.Sound t) (h : History t.publicLink)
    (xid : Xid) : (rows (commit xid t.publicLink)).Pairwise fun old new =>
      old.requestId = new.requestId → old.revokedAt ≠ none := by
  rw [rows_commit, List.pairwise_filterMap]
  have hall := (h.inTurn.and (List.pairwise_filterMap.1 h.older)).and hI.wf
  refine hall.imp_of_mem fun {c d} hc hd hcd old ho new hn hreq => ?_
  obtain ⟨⟨hturn, holder⟩, hcompat⟩ := hcd
  cases hcom : c.committed with
  | none => exact absurd hreq.symm (hturn hcom old (has_of_sees ho) new (has_of_sees hn))
  | some was =>
    obtain ⟨_, hs, hk⟩ := PublicLinks.sees_kept hI hc hcom xid
    obtain rfl := Option.some.inj (hs.symm.trans ho)
    cases hdcom : d.committed with
    | none =>
      -- the new link is active, and the unique index leaves no other
      have hnew := h.fresh d hd hdcom new (has_of_sees hn)
      intro hact
      have hclash := hcompat.sees ho hn
      rw [clash_of_active hact hnew hreq.symm] at hclash
      cases hclash
    | some was' =>
      obtain ⟨_, hs', hk'⟩ := PublicLinks.sees_kept hI hd hdcom xid
      obtain rfl := Option.some.inj (hs'.symm.trans hn)
      have hrev := holder was hcom was' hdcom (hk.same.2.2.symm.trans (hreq.trans hk'.same.2.2))
      rwa [hk.of_revoked hrev]

/-- What a transaction has written when it commits: next to a link it revokes there is one it has
inserted, or the time it has written is the last one. -/
def Writes (xid : Xid) (T : Table Xid PublicLink) : Prop :=
  ∀ c ∈ T, ∀ link new, c.committed = some link → c.pending = some (xid, new) →
    (∃ e ∈ T, e.committed = none ∧ ∃ r, e.pending = some (xid, r) ∧ r.requestId = new.requestId) ∨
    ∀ old ∈ rows T, old.requestId = new.requestId → old.revokedAt ≠ none → LAST_LINK new old = .lt

theorem filterMap_split {α β : Type} {f : α → Option β} {l : List α} {b : β} {pre post : List β}
    (e : l.filterMap f = pre ++ b :: post) : ∃ P a Q, l = P ++ a :: Q ∧ P.filterMap f = pre ∧
      f a = some b ∧ Q.filterMap f = post := by
  obtain ⟨P, R, rfl, hP, hR⟩ := List.filterMap_eq_append_iff.1 e
  obtain ⟨N, a, Q, rfl, hN, ha, hQ⟩ := List.filterMap_eq_cons_iff.1 hR
  refine ⟨P ++ N, a, Q, by simp, ?_, ha, hQ⟩
  rw [List.filterMap_append, hP, List.filterMap_eq_nil_iff.2 hN, List.append_nil]

theorem last_commit {t : PublicLinks.State} (hI : PublicLinks.Sound t) (h : History t.publicLink)
    (hw : Writes xid t.publicLink) {pre post : List PublicLink}
    (e : rows (commit xid t.publicLink) = pre ++ link :: post) (hrev : link.revokedAt ≠ none)
    (hlast : ∀ later ∈ post, later.requestId ≠ link.requestId) :
    ∀ old ∈ pre, old.requestId = link.requestId → LAST_LINK link old = .lt := by
  rw [rows_commit] at e
  obtain ⟨P, d, Q, hT, rfl, hd, rfl⟩ := filterMap_split e
  have hP : ∀ c ∈ P, c ∈ t.publicLink := by intro c hc; rw [hT]; simp [hc]
  have hQ : ∀ c ∈ Q, c ∈ t.publicLink := by intro c hc; rw [hT]; simp [hc]
  have hdm : d ∈ t.publicLink := by rw [hT]; simp
  cases hdcom : d.committed with
  | none => exact absurd (h.fresh d hdm hdcom link (has_of_sees hd)) hrev
  | some was =>
    obtain ⟨_, hs, hk⟩ := PublicLinks.sees_kept hI hdm hdcom xid
    obtain rfl := Option.some.inj (hs.symm.trans hd)
    have hrows : rows t.publicLink = P.filterMap Cell.committed ++ was :: Q.filterMap Cell.committed := by
      rw [rows, hT]; simp [hdcom]
    intro old ho hreq
    obtain ⟨c, hc, hsc⟩ := List.mem_filterMap.1 ho
    -- the link before it was revoked already, so it is as it was
    have hold : c.committed = some old ∧ old.revokedAt ≠ none := by
      cases hcom : c.committed with
      | none =>
        have hturn := h.inTurn
        rw [hT, InTurn] at hturn
        have := (List.pairwise_append.1 hturn).2.2 c hc d List.mem_cons_self hcom old
          (has_of_sees hsc) _ (has_of_sees hd)
        exact absurd hreq.symm this
      | some was' =>
        obtain ⟨_, hs', hk'⟩ := PublicLinks.sees_kept hI (hP c hc) hcom xid
        obtain rfl := Option.some.inj (hs'.symm.trans hsc)
        have holder := h.older
        rw [hrows] at holder
        have hrev' := (List.pairwise_append.1 holder).2.2 was' (List.mem_filterMap.2 ⟨c, hc, hcom⟩) was
          List.mem_cons_self (hk'.same.2.2.symm.trans (hreq.trans hk.same.2.2))
        obtain rfl := hk'.of_revoked hrev'
        exact ⟨rfl, hrev'⟩
    have hmem : old ∈ P.filterMap Cell.committed := List.mem_filterMap.2 ⟨c, hc, hold.1⟩
    rcases sees_eq_some.1 hd with hp | ⟨-, hcom⟩
    · rcases hw d hdm was _ hdcom hp with ⟨e', he', hnone, r, hp', hreq'⟩ | hlt
      · -- a regeneration: the link it has inserted comes after this one
        exfalso
        have hse : e'.sees xid = some r := sees_eq_some.2 (.inl hp')
        have hturn := h.inTurn
        rw [hT, InTurn] at hturn
        rw [hT] at he'
        rcases List.mem_append.1 he' with he' | he'
        · exact (List.pairwise_append.1 hturn).2.2 e' he' d List.mem_cons_self hnone r
            (has_of_sees hse) _ (has_of_sees hd) hreq'.symm
        · rcases List.mem_cons.1 he' with rfl | he'
          · rw [hdcom] at hnone; cases hnone
          · exact hlast r (List.mem_filterMap.2 ⟨e', he', hse⟩) hreq'
      · refine hlt old ?_ hreq hold.2
        rw [hrows]; exact List.mem_append_left _ hmem
    · obtain rfl : was = _ := Option.some.inj (hdcom.symm.trans hcom)
      refine h.last _ _ _ hrows hrev (fun later hl => ?_) old hmem hreq
      obtain ⟨c', hc', hcom'⟩ := List.mem_filterMap.1 hl
      obtain ⟨later', hs', hk'⟩ := PublicLinks.sees_kept hI (hQ c' hc') hcom' xid
      rw [← hk'.same.2.2]
      exact hlast later' (List.mem_filterMap.2 ⟨c', hc', hs'⟩)

theorem History.commit {t : PublicLinks.State} (hI : PublicLinks.Sound t) (h : History t.publicLink)
    (hw : Writes xid t.publicLink) : History (commit xid t.publicLink) where
  inTurn := h.inTurn.commit xid
  fresh c hc hnone new hn := by
    obtain ⟨d, hd, rfl⟩ := List.mem_map.1 hc
    exact h.fresh d hd (committed_of_commit hnone) new (has_commit hn)
  older := older_commit hI h xid
  last _ _ _ e hrev hlast := last_commit hI h hw e hrev hlast

/-- One step of the portal. -/
theorem history_step (hI : Sound s) (ha : Asserts cfg s f) (h : Step cfg k s f s' f')
    (hw : ∀ x, f = .links (.commit x) → k.fault = none → x.link = none →
      Writes x.xid s.links.publicLink)
    (hT : History s.links.publicLink) : History s'.links.publicLink := by
  cases h with
  | create g g' s' h =>
    cases h with
    | inserted x T hi => exact hT.insert rfl hi
    | aborted x xid _ _ _ => exact hT.rollback xid
    | created x xid request items _ =>
      refine hT.commit hI.links fun c hc link new hcom hp => ?_
      -- the creation has only inserted
      obtain ⟨-, -, ⟨_, -, -, hown⟩, -⟩ := ha
      obtain rfl := hown c hc new hp
      cases hcom
    | _ => exact hT
  | links g g' t h =>
    have hstep := PublicLinks.step_of_exec h
    cases hstep with
    | aborted _ x _ _ => exact hT.rollback x.xid
    | wrote x row todo T hu => exact hT.updateRow (ha.2.1 · · · ·) hu
    | inserted x new T hi => exact hT.insert rfl hi
    | committed x =>
      refine hT.commit hI.links ?_
      cases hx : x.link with
      | some new =>
        intro c hc link new' hcom hp
        obtain ⟨k', hm⟩ := ha.1.2 new hx
        exact .inl ⟨_, hm, rfl, _, rfl, (ha.1.1.own c hc new' hp).symm⟩
      | none =>
        rcases commit_exec h with ⟨hfault, -, -⟩ | ⟨fault, -, -, hd⟩
        · exact hw x rfl hfault hx
        · exact absurd (PublicLinks.Call.done.inj hd).2 (answerOf_ne _ x x.args fault)
    | _ => exact hT
  | client g g' s' h => cases h <;> exact hT
  | seed g g' s' h => cases h <;> exact hT
  | reissued owner requestId => exact hT

/-- A revocation that is timely writes the last time. -/
theorem writes_of_timely {x : Tx} (hI : Sound w.shared) (h : Timely w k (.links (.commit x)))
    (hfault : k.fault = none) (hx : x.link = none) : Writes x.xid w.shared.links.publicLink := by
  intro c hc link new hcom hp
  right
  intro old ho hreq hrev
  obtain ⟨-, now, rfl⟩ := hI.links.change c hc _ new hp link hcom
  obtain ⟨before, hbefore⟩ := Option.ne_none_iff_exists'.1 hrev
  exact lastLink_lt hbefore (h hfault hx c hc link hcom _ hp rfl old ho hreq now rfl before hbefore)

theorem history_of_reaches (h : (machine cfg plan).Reaches (OnRun Timely) ⟨State.empty, []⟩ w) :
    History w.shared.links.publicLink := by
  refine h.induct (I := fun w => History w.shared.links.publicLink) history_nil ?_
  intro w a w' hw ih hG hn
  have hH := holds hw
  obtain ⟨g, -, -, rfl⟩ | ⟨i, k, g, s', g', rfl, hg, he, rfl⟩ := next_cases hn
  · exact ih
  · refine history_step hH.1 (hH.call hg) (step_of_exec he) (fun x hx hfault hnone => ?_) ih
    subst hx
    exact writes_of_timely hH.1 (hG _ hg) hfault hnone

/-! ## The link that is shown -/

theorem issuedLinks_split {links : List PublicLink} {last : PublicLink}
    (h : (issuedLinks links requestId).getLast? = some last) : last.requestId = requestId ∧
      ∃ pre post, links = pre ++ last :: post ∧ ∀ later ∈ post, later.requestId ≠ requestId := by
  rw [issuedLinks, List.getLast?_filter, List.find?_eq_some_iff_append] at h
  obtain ⟨hp, as, bs, e, hno⟩ := h
  refine ⟨by simpa using hp, bs.reverse, as.reverse, ?_, fun later hl => ?_⟩
  · have := congrArg List.reverse e
    simpa using this
  · simpa using hno later (List.mem_reverse.1 hl)

/-- The active link is the last one. -/
theorem History.active_last (h : History T) (hl : link ∈ rows T) (hact : link.revokedAt = none) :
    (issuedLinks (rows T) link.requestId).getLast? = some link := by
  have hmem : link ∈ issuedLinks (rows T) link.requestId := List.mem_filter.2 ⟨hl, by simp⟩
  obtain ⟨last, hlast⟩ := Option.isSome_iff_exists.1
    (List.getLast?_isSome.2 (List.ne_nil_of_mem hmem))
  obtain ⟨hreq, pre, post, e, hpost⟩ := issuedLinks_split hlast
  have holder := h.older
  rw [e] at hl holder
  rcases List.mem_append.1 hl with hl | hl
  · exact absurd hact
      ((List.pairwise_append.1 holder).2.2 link hl last List.mem_cons_self hreq.symm)
  · rcases List.mem_cons.1 hl with rfl | hl
    · exact hlast
    · exact absurd rfl (hpost link hl)

/-- So the link that comes first is the last one that was issued. -/
theorem History.first_last (hI : Sound s) (h : History s.links.publicLink) {first last : PublicLink}
    (hf : first ∈ s.links.links) (hreq : first.requestId = requestId)
    (hle : ∀ other ∈ s.links.links, other.requestId = requestId →
      (LAST_LINK first other).isLE = true)
    (hlast : (issuedLinks s.links.links requestId).getLast? = some last) : first = last := by
  obtain ⟨hlreq, pre, post, e, hpost⟩ := issuedLinks_split hlast
  have hl : last ∈ s.links.links := by rw [e]; simp
  by_cases hact : last.revokedAt = none
  · exact active_unique hI hl hf (hreq.trans hlreq.symm) hact
      (active_of_isLE (hle last hl hlreq) hact)
  · rw [e] at hf
    rcases List.mem_append.1 hf with hf | hf
    · have hlt := h.last pre last post e hact (by rw [hlreq]; exact hpost) first hf
        (hreq.trans hlreq.symm)
      have hgt : LAST_LINK first last = .gt := by
        have hswap : LAST_LINK first last = (LAST_LINK last first).swap := Std.OrientedCmp.eq_swap
        rw [hswap, hlt]; rfl
      have := hle last hl hlreq
      rw [hgt] at this
      cases this
    · rcases List.mem_cons.1 hf with rfl | hf
      · rfl
      · exact absurd hreq (hpost first hf)

/-- **The link that is shown is the last one issued.** In every world reached by any interleaving of
creations, regenerations, revocations, deposits and seeds, with any failures and any clock, in which each
revocation that commits revokes its link later than the others of the request were (`Closes`): `LAST_LINK`
selects the link of a request that was inserted last, in whatever order the rows come; an active link is
that one; and in `list` and `findOne` the state, the deadline and the status are those of that link. -/
theorem last_issued_is_shown (cfg : Config) (plan : Plan) (w : World State Call)
    (h : (machine cfg plan).Reaches (OnRun Timely) ⟨State.empty, []⟩ w) :
    (∀ plan' : Plan, ∀ requestId,
      (sorted plan'.links (fun link => link.requestId == requestId) LAST_LINK
        w.shared.links.links).head? = (issuedLinks w.shared.links.links requestId).getLast?) ∧
    (∀ link ∈ w.shared.links.links, link.revokedAt = none →
      (issuedLinks w.shared.links.links link.requestId).getLast? = some link) ∧
    ∀ now summary, Shows w.shared.database now summary →
      ∃ last, (issuedLinks w.shared.links.links summary.id).getLast? = some last ∧
        summary.link.state = (if last.revokedAt.isNone then .active else .revoked) ∧
        summary.link.expiresAt = last.expiresAt ∧ summary.status =
          deriveStatus ⟨last.expiresAt, summary.expectedCount, summary.receivedCount⟩ now := by
  have hI := (holds h).1
  have hT := history_of_reaches h
  refine ⟨fun plan' requestId => ?_, fun link hl hact => hT.active_last hl hact,
    fun now summary hs => ?_⟩
  · cases hlast : (issuedLinks w.shared.links.links requestId).getLast? with
    | none =>
      have hnone := List.getLast?_eq_none_iff.1 hlast
      rw [List.head?_eq_none_iff, List.eq_nil_iff_forall_not_mem]
      intro link hl
      have : link ∈ issuedLinks w.shared.links.links requestId := List.mem_filter.2 (mem_sorted.1 hl)
      rw [hnone] at this
      cases this
    | some last =>
      obtain ⟨hreq, pre, post, e, -⟩ := issuedLinks_split hlast
      have hl : last ∈ w.shared.links.links := by rw [e]; simp
      obtain ⟨first, hfirst, hf, hp⟩ := exists_first LAST_LINK
        (p := fun l : PublicLink => l.requestId == requestId) plan'.links hl (by simpa using hreq)
      rw [hfirst, hT.first_last hI hf (by simpa using hp) (fun other ho hr =>
        first_isLE hfirst ho (by simpa using hr)) hlast]
  · obtain ⟨first, hsel⟩ := hs.selects
    have hmem : first ∈ issuedLinks w.shared.links.links summary.id :=
      List.mem_filter.2 ⟨hsel.mem, by simpa using hsel.own⟩
    obtain ⟨last, hlast⟩ := Option.isSome_iff_exists.1
      (List.getLast?_isSome.2 (List.ne_nil_of_mem hmem))
    obtain rfl := hT.first_last hI hsel.mem hsel.own hsel.first hlast
    exact ⟨first, hlast, hsel.state, hsel.expiresAt, hsel.status⟩

/-! ### Two links, revoked in turn and not -/

instance (links : List PublicLink) (link new : PublicLink) : Decidable (Closes links link new) :=
  inferInstanceAs (Decidable (∀ old ∈ links, old.requestId = link.requestId →
    ∀ now ∈ new.revokedAt, ∀ before ∈ old.revokedAt,
      before < now ∨ before = now ∧ old.createdAt < link.createdAt))

instance (w : World State Call) (k : Choice) (f : Call) : Decidable (Timely w k f) :=
  match f with
  | .links (.commit x) => inferInstanceAs (Decidable (k.fault = none → x.link = none →
      ∀ c ∈ w.shared.links.publicLink, ∀ link ∈ c.committed, ∀ p ∈ c.pending, p.1 = x.xid →
        Closes w.shared.links.links link p.2))
  | .links (.start _) | .links (.hash _ _ _ _ _) | .links (.update _) | .links (.updating _ _)
  | .links (.create _ _) | .links (.done _ _) | .create _ | .client _ | .seed _ => isTrue trivial

/-- The first link is replaced at 10 and the second one revoked at 20. -/
def inOrder : List (Act Call Choice) :=
  creation ++ regenerating :: List.replicate 7 (.run 1 (tick 10 2)) ++
    revoking :: List.replicate 5 (.run 2 (tick 20 0))

theorem last_issued_is_shown_inOrder :
    (sorted Requests.heapPlan.links (fun link => link.requestId == js "dossier") LAST_LINK
      (played Timely inOrder).shared.links.links).head? = some ((linkOf 2 10).revoke 20) := by
  have h := reaches_played (P := Timely) inOrder (by decide +kernel)
  rw [(last_issued_is_shown portal Requests.heapPlan _ h).1 Requests.heapPlan (js "dossier")]
  decide +kernel

/-- The revocation reads its clock at 5; the first link is replaced at 10; the second one is revoked
at 11, as of 5. -/
def overtaken : List (Act Call Choice) :=
  creation ++ [revoking, .run 1 (tick 5 0), regenerating] ++ List.replicate 7 (.run 2 (tick 10 2)) ++
    List.replicate 4 (.run 1 (tick 11 0))

/-- What the clock shows, step after step. -/
def clock (acts : List (Act Call Choice)) : List Int :=
  acts.filterMap fun
    | .call _ => none
    | .run _ k => some k.now

/-- The clock never goes back, and the first link is shown after the second was issued. -/
theorem older_link_is_shown : (clock overtaken).Pairwise (· ≤ ·) ∧ ∃ w,
    (machine portal Requests.heapPlan).Reaches (fun _ _ => True) ⟨State.empty, []⟩ w ∧
    (∀ link ∈ w.shared.links.links, link.revokedAt ≠ none) ∧
    (sorted Requests.heapPlan.links (fun link => link.requestId == js "dossier") LAST_LINK
      w.shared.links.links).head? = some ((linkOf 1 0).revoke 10) ∧
    (issuedLinks w.shared.links.links (js "dossier")).getLast? = some ((linkOf 2 10).revoke 5) := by
  refine ⟨by decide +kernel, played (fun _ _ _ => True) overtaken,
    (reaches_played _ (by decide +kernel)).weaken fun _ _ _ => trivial, ?_, ?_, ?_⟩ <;> decide +kernel

end DepositPortal.Portal
