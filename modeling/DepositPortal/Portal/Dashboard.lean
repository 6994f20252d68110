import DepositPortal.Portal.Issued
import DepositPortal.Portal.Lasting

/-!
# The dashboard and the links

A summary picks one link out of the history of its request (`LAST_LINK`, requests/requests.service.ts:36)
and works its status out of it; `resolve` looks each token up by itself. Among the links of a request at
most one is active, and the order puts it first, so the link that is shown is the one that can open, if
there is one; and both test the deadline by the same strict comparison.
-/
namespace DepositPortal.Portal
open Interleave ReadCommitted
open Query
open Requests (Plan Database RequestStatus LinkState SummaryRow RequestSummaryView ListRequestsDto
  LAST_LINK deriveStatus toRequestSummary toLinkView list findOne heapPlan)
open PublicLinks (DepositRequest PublicLink Token isExpired resolve isActive)
open Deposits (RequestId)

variable {cfg : Config} {plan : Plan} {s : State} {link : PublicLink} {token : Token} {now : Int}
  {requestId : RequestId} {w : World State Call} {db : Database} {summary : RequestSummaryView}

/-- A page of `list`, or `findOne`, shows the summary at `now`. -/
def Shows (db : Database) (now : Int) (summary : RequestSummaryView) : Prop :=
  (∃ plan lawyerId query page, list plan db lawyerId query now = .ok page ∧ summary ∈ page.items) ∨
  ∃ plan requestId lawyerId detail, findOne plan db requestId lawyerId now = .ok detail ∧
    detail.toRequestSummaryView = summary

/-- The link of a summary is the first of its request's, and its status that of the link. -/
structure Selects (db : Database) (now : Int) (summary : RequestSummaryView) (last : PublicLink) :
    Prop where
  mem : last ∈ db.publicLink
  own : last.requestId = summary.id
  first : ∀ other ∈ db.publicLink, other.requestId = summary.id → (LAST_LINK last other).isLE = true
  state : summary.link.state = if last.revokedAt.isNone then .active else .revoked
  expiresAt : summary.link.expiresAt = last.expiresAt
  status : summary.status =
    deriveStatus ⟨last.expiresAt, summary.expectedCount, summary.receivedCount⟩ now

theorem selects_of_row {row : SummaryRow} (hlinks : row.links = db.lastLink plan row.id)
    (h : toRequestSummary row now = .ok summary) : ∃ last, Selects db now summary last ∧
      (sorted plan.links (fun link => link.requestId == row.id) LAST_LINK db.publicLink).head? =
        some last := by
  rw [Requests.toRequestSummary_eq] at h
  cases hv : toLinkView row.links row.id with
  | error e => rw [hv] at h; cases h
  | ok view =>
    rw [hv] at h
    cases h
    obtain ⟨latest, hhead, rfl⟩ := Requests.toLinkView_ok hv
    rw [hlinks, Database.lastLink, List.head?_map, List.head?_take, if_neg Nat.one_ne_zero] at hhead
    obtain ⟨last, hfirst, rfl⟩ := Option.map_eq_some_iff.1 hhead
    have hm := List.mem_of_head? hfirst
    obtain ⟨hm, hown⟩ := mem_sorted.1 hm
    refine ⟨last, ⟨hm, by simpa using hown, fun other ho hr => ?_, rfl, rfl, rfl⟩, hfirst⟩
    exact first_isLE hfirst ho (by simpa using hr)

theorem Shows.selects (h : Shows db now summary) : ∃ last, Selects db now summary last := by
  obtain ⟨plan, lawyerId, query, page, hpage, hs⟩ | ⟨plan, id, lawyerId, detail, hd, rfl⟩ := h
  · obtain ⟨r, -, -, hrow⟩ := Requests.mem_list hpage hs
    have hlinks : (db.summaryRow plan r).links = db.lastLink plan r.id := rfl
    obtain ⟨last, hsel, -⟩ := selects_of_row hlinks hrow
    exact ⟨last, hsel⟩
  · obtain ⟨r, -, -, -, hrow⟩ := request_of_findOne hd
    rw [Requests.toRequestDetail_eq] at hrow
    cases hsum : toRequestSummary (db.detailRow plan r).summary now with
    | error e => rw [hsum] at hrow; cases hrow
    | ok summary =>
      rw [hsum] at hrow
      cases hrow
      have hlinks : (db.detailRow plan r).summary.links = db.lastLink plan r.id := rfl
      obtain ⟨last, hsel, -⟩ := selects_of_row hlinks hsum
      exact ⟨last, hsel⟩

/-- `LAST_LINK` puts no revoked link before an active one. -/
theorem active_of_isLE {last other : PublicLink} (h : (LAST_LINK last other).isLE = true)
    (ho : other.revokedAt = none) : last.revokedAt = none := by
  cases hl : last.revokedAt with
  | none => rfl
  | some at' =>
    have hgt : LAST_LINK last other = .gt := by
      simp [LAST_LINK, compareLex, hl, ho, Requests.revokedAtDesc]
    rw [hgt] at h
    cases h

/-- Two active links of a request are one. -/
theorem active_unique (hI : Sound s) {link' : PublicLink} (hl : link ∈ s.links.links)
    (hl' : link' ∈ s.links.links) (hr : link'.requestId = link.requestId) (ha : link.revokedAt = none)
    (ha' : link'.revokedAt = none) : link' = link :=
  hI.links.wf.eq_of_common (k := .active link.requestId) hl' hl (by simp [PublicLinks.keys, hr, ha'])
    (by simp [PublicLinks.keys, ha])

/-- A link that opens is the one that is shown. -/
theorem Selects.eq_of_opens {last : PublicLink} (hI : Sound s)
    (h : Selects s.database now summary last) (hl : link ∈ s.links.links)
    (hr : link.requestId = summary.id) (ho : Opens link now) : last = link :=
  active_unique hI hl h.mem (h.own.trans hr.symm) ho.1 (active_of_isLE (h.first link hl hr) ho.1)

/-- The token opens a link of the request. -/
theorem opens_of_issued (now : Int) (hI : Sound w.shared) (hB : Books cfg w) {f : Call} (hf : f ∈ w.calls)
    (hi : Issued cfg requestId token f) : ∃ link ∈ w.shared.links.links, link.requestId = requestId ∧
      link.tokenHash = cfg.hashPublicToken token ∧
      ((∃ l request, resolve cfg.toConfig w.shared.links token now = some (.ok l request)) ↔
        Opens link now) := by
  obtain ⟨link, hl, hreq, ht⟩ := hB.row f hf requestId token hi
  exact ⟨link, hl, hreq, ht, resolve_own hI hl ht.symm⟩

/-- **The dashboard never contradicts the link.** In every world reached by any interleaving of
creations, regenerations, revocations, deposits and seeds, with any failures, and at every instant: if
the summary of a request is expired, or shows its link revoked, no token that was ever issued for the
request resolves; if it is pending and shows its link active, exactly one does, and with the deadline
that is shown. -/
theorem dashboard_agrees_with_links (cfg : Config) (plan : Plan) (w : World State Call)
    (h : (machine cfg plan).Reaches (fun _ _ => True) ⟨State.empty, []⟩ w) (now : Int)
    (summary : RequestSummaryView) (hs : Shows w.shared.database now summary) :
    (summary.status = .Expired ∨ summary.link.state = .revoked →
      ∀ f ∈ w.calls, ∀ token, Issued cfg summary.id token f →
        ∀ l request, resolve cfg.toConfig w.shared.links token now ≠ some (.ok l request)) ∧
    (summary.status = .Pending ∧ summary.link.state = .active →
      ∃ token, (∃ f ∈ w.calls, Issued cfg summary.id token f) ∧
        (∃ l request, resolve cfg.toConfig w.shared.links token now = some (.ok l request) ∧
          l.expiresAt = summary.link.expiresAt ∧ request.id = summary.id) ∧
        ∀ f ∈ w.calls, ∀ token', Issued cfg summary.id token' f →
          (∃ l request, resolve cfg.toConfig w.shared.links token' now = some (.ok l request)) →
          token' = token) := by
  have hI := (holds h).1
  have hB := books_of_reaches h
  obtain ⟨last, hsel⟩ := hs.selects
  refine ⟨fun hover f hf token hi l request hok => ?_, fun ⟨hpending, hactive⟩ => ?_⟩
  · obtain ⟨link, hl, hreq, -, hiff⟩ := opens_of_issued now hI hB hf hi
    have hopen := hiff.1 ⟨l, request, hok⟩
    obtain rfl := hsel.eq_of_opens hI hl hreq hopen
    rcases hover with hexpired | hrevoked
    · rw [hsel.status] at hexpired
      have := Requests.deriveStatus_expired hexpired
      rw [hopen.2] at this
      cases this
    · rw [hsel.state, hopen.1] at hrevoked
      cases hrevoked
  · have hopen : Opens last now := by
      rw [hsel.status] at hpending
      refine ⟨?_, Requests.deriveStatus_pending hpending⟩
      by_contra hrev
      rw [hsel.state, if_neg (by simpa using hrev)] at hactive
      cases hactive
    obtain ⟨f, hf, token, hi, ht⟩ := hB.issuer last hsel.mem
    rw [hsel.own] at hi
    obtain ⟨l, request, hok⟩ := (resolve_own hI hsel.mem ht.symm).2 hopen
    obtain ⟨-, rfl, hreq⟩ := resolve_own_ok hI hsel.mem ht.symm hok
    refine ⟨token, ⟨f, hf, hi⟩, ⟨_, request, hok, hsel.expiresAt.symm, hreq.trans hsel.own⟩,
      fun e he token' hi' hok' => ?_⟩
    -- both tokens open the link that is shown, and one call issued it
    obtain ⟨link, hl, hreq', ht', hiff⟩ := opens_of_issued now hI hB he hi'
    obtain rfl := hsel.eq_of_opens hI hl hreq' (hiff.1 hok')
    obtain ⟨i, hi₀⟩ := List.mem_iff_getElem?.1 hf
    obtain ⟨j, hj₀⟩ := List.mem_iff_getElem?.1 he
    by_cases hij : i = j
    · subst hij
      rw [hi₀] at hj₀
      cases hj₀
      exact (hi'.unique hi).2
    · exact absurd (ht.symm.trans ht') (hB.apart i j f e _ _ _ _ hij hi₀ hj₀ hi hi')

/-! ### The dashboard of a request that was just created -/

def justCreated : RequestSummaryView :=
  ⟨js "dossier", js "Achat", 0, .Pending, 1, 0, ⟨.active, 7 * PublicLinks.MILLISECONDS_PER_DAY⟩⟩

theorem dashboard_agrees_with_links_creation : ∃ token l request,
    resolve portal.toConfig (played (fun _ _ _ => True) creation).shared.links token 1 =
      some (.ok l request) ∧ l.expiresAt = 7 * PublicLinks.MILLISECONDS_PER_DAY := by
  have h := reaches_played (P := fun _ _ _ => True) creation (by decide +kernel)
  obtain ⟨token, -, ⟨l, request, hok, hexp, -⟩, -⟩ := (dashboard_agrees_with_links portal heapPlan _
    (h.weaken fun _ _ _ => trivial) 1 justCreated (.inl ⟨heapPlan, js "alice", ⟨1, 20⟩,
      ⟨[justCreated], 1, 20, 1, 1⟩, by decide +kernel, List.mem_singleton_self _⟩)).2 ⟨rfl, rfl⟩
  exact ⟨token, l, request, hok, hexp⟩

end DepositPortal.Portal
