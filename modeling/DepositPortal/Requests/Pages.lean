import DepositPortal.Pages
import DepositPortal.Requests.Readings

/-!
# Paging through the dashboard: `list` (requests/requests.service.ts:134)

Each page is a query of its own and `createdAt` is its only key. Requests created in the same millisecond
may come out in another order each time, so one that stands where a page ends can be shown twice while
its neighbour is not shown at all.

Far behind the last page, a query whose `skip` is too long throws. No page with a request on it is that
far, in a table that is no longer than the longest `skip`.
-/
namespace DepositPortal.Requests
open Query
open PublicLinks (DepositRequest)
open Deposits (RequestId)

variable {db : Database} {plan : Plan} {lawyerId : LawyerId} {pageSize : Nat} {now : Int}

/-- The requests of the lawyer. -/
def Database.requestsOf (db : Database) (lawyerId : LawyerId) : List DepositRequest :=
  db.depositRequest.filter fun r => r.lawyerId == lawyerId

/-- The answers to `?page=1`, `?page=2`, … (`pages m` is that to `m + 1`, for the pages in `answered`)
show the requests `ids` once each. -/
structure Partitioned (ids : List RequestId) (pageSize totalPages : Nat) (answered : Nat → Prop)
    (pages : Nat → RequestPageView) : Prop where
  reached : ∀ m, m < totalPages → answered m
  totals : ∀ m, answered m → (pages m).total = ids.length ∧ (pages m).totalPages = totalPages
  once : ((List.range totalPages).flatMap fun m => (pages m).items.map RequestSummaryView.id).Perm ids
  full : ∀ m, m + 1 < totalPages → (pages m).items.length = pageSize
  after : ∀ m, answered m → totalPages ≤ m → (pages m).items = []

/-- In whatever order each query comes out, and whenever it is made: every page whose `skip` the query
takes is answered, and these partition the list. -/
def PagesPartition (db : Database) (lawyerId : LawyerId) (pageSize : Nat) : Prop :=
  ∀ (plan : Nat → Plan) (now : Nat → Int),
    (∀ m, (db.requestsOf lawyerId).length ≤ (plan m).maxSkip) → ∃ pages : Nat → RequestPageView,
      (∀ m, m * pageSize ≤ (plan m).maxSkip →
        list (plan m) db lawyerId ⟨m + 1, pageSize⟩ (now m) = .ok (pages m)) ∧
      Partitioned ((db.requestsOf lawyerId).map DepositRequest.id) pageSize (pages 0).totalPages
        (fun m => m * pageSize ≤ (plan m).maxSkip) pages

/-! ## One page -/

instance : Std.TransCmp createdAtDesc :=
  transCmp_on (fun x y : Int => compare y x) DepositRequest.createdAt

theorem pageRows_eq {m : Nat} : db.pageRows plan lawyerId ⟨m + 1, pageSize⟩ =
    page pageSize m (sorted plan.requests (fun r => r.lawyerId == lawyerId) createdAtDesc
      db.depositRequest) := by
  rw [Database.pageRows, page, ListRequestsDto.skip, Nat.add_sub_cancel]

theorem length_pageRows {m : Nat} : (db.pageRows plan lawyerId ⟨m + 1, pageSize⟩).length =
    min pageSize ((db.requestsOf lawyerId).length - m * pageSize) := by
  rw [pageRows_eq, length_page, perm_sorted.length_eq]
  rfl

theorem id_of_summary {r : DepositRequest} {summary : RequestSummaryView}
    (h : toRequestSummary (db.summaryRow plan r) now = .ok summary) : summary.id = r.id := by
  rw [toRequestSummary_eq] at h
  cases hl : toLinkView (db.summaryRow plan r).links (db.summaryRow plan r).id with
  | error e => rw [hl] at h; cases h
  | ok link => rw [hl] at h; cases h; rfl

/-- A request is shown only if it has a link. -/
theorem link_of_summary {r : DepositRequest} {summary : RequestSummaryView}
    (h : toRequestSummary (db.summaryRow plan r) now = .ok summary) :
    ∃ link ∈ db.publicLink, link.requestId = r.id := by
  rw [toRequestSummary_eq] at h
  cases hl : toLinkView (db.summaryRow plan r).links (db.summaryRow plan r).id with
  | error e => rw [hl] at h; cases h
  | ok link =>
    obtain ⟨latest, hhead, -⟩ := toLinkView_ok hl
    have hmem := List.mem_of_mem_head? (Option.mem_def.2 hhead)
    obtain ⟨l, hl, -⟩ := List.mem_map.1 hmem
    obtain ⟨hl, hr⟩ := mem_sorted.1 (List.mem_of_mem_take hl)
    exact ⟨l, hl, by simpa using hr⟩

/-- What a page that is answered holds. -/
structure Answers (db : Database) (plan : Plan) (lawyerId : LawyerId) (pageSize m : Nat)
    (page : RequestPageView) : Prop where
  ids : page.items.map RequestSummaryView.id =
    (db.pageRows plan lawyerId ⟨m + 1, pageSize⟩).map DepositRequest.id
  length : page.items.length = min pageSize ((db.requestsOf lawyerId).length - m * pageSize)
  total : page.total = (db.requestsOf lawyerId).length
  totalPages : page.totalPages = ((db.requestsOf lawyerId).length + pageSize - 1) / pageSize
  linked : ∀ r ∈ db.pageRows plan lawyerId ⟨m + 1, pageSize⟩,
    ∃ link ∈ db.publicLink, link.requestId = r.id

theorem answers_of_list {m : Nat} {page : RequestPageView}
    (h : list plan db lawyerId ⟨m + 1, pageSize⟩ now = .ok page) :
    Answers db plan lawyerId pageSize m page := by
  rw [list_eq (skip_le_of_list h)] at h
  cases hm : (db.pageRows plan lawyerId ⟨m + 1, pageSize⟩).mapM
      fun r => toRequestSummary (db.summaryRow plan r) now with
  | error e => rw [hm] at h; cases h
  | ok items =>
    rw [hm] at h
    cases h
    have hrows := forall₂_of_mapM_ok hm
    have hids : List.Forall₂ (fun a b => a = b)
        ((db.pageRows plan lawyerId ⟨m + 1, pageSize⟩).map DepositRequest.id)
        (items.map RequestSummaryView.id) := by
      rw [List.forall₂_map_left_iff, List.forall₂_map_right_iff]
      exact hrows.imp fun r summary hs => (id_of_summary hs).symm
    have hlinked := (List.forall₂_and_left _ _).1
      (hrows.imp fun r summary hs => ⟨link_of_summary hs, hs⟩)
    exact {
      ids := (List.forall₂_eq_eq_eq ▸ hids).symm
      length := by rw [← hrows.length_eq, length_pageRows]
      total := List.countP_eq_length_filter
      totalPages := by simp only [List.countP_eq_length_filter]; rfl
      linked := hlinked.1 }

/-- A page of requests that have links is answered, if the query takes its `skip`. -/
theorem list_answered {plan : Plan} (now : Int)
    (h : ∀ r ∈ db.requestsOf lawyerId, ∃ link ∈ db.publicLink, link.requestId = r.id)
    {m : Nat} (hskip : m * pageSize ≤ plan.maxSkip) :
    ∃ page, list plan db lawyerId ⟨m + 1, pageSize⟩ now = .ok page := by
  rw [list_eq (by simpa [ListRequestsDto.skip] using hskip)]
  obtain ⟨items, e⟩ := exists_mapM_ok (l := db.pageRows plan lawyerId ⟨m + 1, pageSize⟩)
    (f := fun r => toRequestSummary (db.summaryRow plan r) now) fun r hr => by
      obtain ⟨hr, howned⟩ := mem_pageRows hr
      obtain ⟨link, hl, hreq⟩ := h r (List.mem_filter.2 ⟨hr, by simpa using howned⟩)
      obtain ⟨last, -, e, -⟩ := lastLink_eq plan hl
      rw [hreq] at e
      rw [toRequestSummary_eq, show (db.summaryRow plan r).links = db.lastLink plan r.id from rfl, e]
      exact ⟨_, rfl⟩
  rw [e]
  exact ⟨_, rfl⟩

/-! ## All pages -/

/-- The pages up to the last begin within the list. -/
theorem mul_le_length (hk : 0 < pageSize) {n m : Nat} (hm : m < (n + pageSize - 1) / pageSize) :
    m * pageSize ≤ n := by
  have hmul := (Nat.le_div_iff_mul_le hk).1 hm
  rw [Nat.succ_mul] at hmul
  omega

/-- Every page up to the count, and none after it. -/
theorem partitioned_of_answers {plans : Nat → Plan} {pages : Nat → RequestPageView} (hk : 0 < pageSize)
    (hlong : ∀ m, (db.requestsOf lawyerId).length ≤ (plans m).maxSkip)
    (ha : ∀ m, m * pageSize ≤ (plans m).maxSkip → Answers db (plans m) lawyerId pageSize m (pages m))
    (hc : Cut createdAtDesc pageSize (db.requestsOf lawyerId)) :
    Partitioned ((db.requestsOf lawyerId).map DepositRequest.id) pageSize (pages 0).totalPages
      (fun m => m * pageSize ≤ (plans m).maxSkip) pages := by
  have hceil := Nat.lt_div_mul_add (a := (db.requestsOf lawyerId).length + pageSize - 1) hk
  have hfits : ∀ m, m < ((db.requestsOf lawyerId).length + pageSize - 1) / pageSize →
      m * pageSize ≤ (plans m).maxSkip := fun m hm => (mul_le_length hk hm).trans (hlong m)
  rw [(ha 0 (by simp)).totalPages]
  exact {
    reached := hfits
    totals := fun m hm => ⟨by rw [(ha m hm).total, List.length_map], (ha m hm).totalPages⟩
    once := by
      have hperm := pages_perm hk hc (fun m => (plans m).requests)
        (n := ((db.requestsOf lawyerId).length + pageSize - 1) / pageSize) (by
          rw [show db.depositRequest.filter (fun r => r.lawyerId == lawyerId) =
            db.requestsOf lawyerId from rfl]
          omega)
      refine .trans (.of_eq ?_) (hperm.map DepositRequest.id)
      rw [List.map_flatMap]
      refine List.flatMap_congr fun m hm => ?_
      rw [(ha m (hfits m (List.mem_range.1 hm))).ids, pageRows_eq]
    full := fun m hm => by
      have hmul := (Nat.le_div_iff_mul_le hk).1 hm
      rw [Nat.succ_mul, Nat.succ_mul] at hmul
      rw [(ha m (hfits m (Nat.lt_of_succ_lt hm))).length]
      omega
    after := fun m hfit hm => by
      have hle : (db.requestsOf lawyerId).length ≤ m * pageSize := by
        have hmul := Nat.mul_le_mul_right pageSize hm
        omega
      exact List.eq_nil_of_length_eq_zero (by rw [(ha m hfit).length]; omega) }

/-- Pages that share a request are not apart. -/
theorem not_nodup_flatMap {f : Nat → List RequestId} {n m m' : Nat} {id : RequestId} (hlt : m < m')
    (hm' : m' < n) (h : id ∈ f m) (h' : id ∈ f m') : ¬ ((List.range n).flatMap f).Nodup := by
  intro hnodup
  have hdisjoint := (List.nodup_flatMap.1 hnodup).2
  have hpair := List.pairwise_iff_getElem.1 hdisjoint m m' (by simp; omega) (by simpa using hm') hlt
  simp only [Function.onFun, List.getElem_range] at hpair
  exact hpair h h'

theorem nodup_requestsOf (hids : (db.depositRequest.map DepositRequest.id).Nodup) :
    ((db.requestsOf lawyerId).map DepositRequest.id).Nodup :=
  hids.sublist (List.filter_sublist.map _)

theorem linked_of_partition (h : PagesPartition db lawyerId pageSize) :
    ∀ r ∈ db.requestsOf lawyerId, ∃ link ∈ db.publicLink, link.requestId = r.id := by
  intro r hr
  obtain ⟨pages, hlist, hpart⟩ := h
    (fun _ => ⟨.heap, .heap, .heap, (db.requestsOf lawyerId).length⟩) (fun _ => 0) fun _ => le_rfl
  obtain ⟨m, hm, hshown⟩ := List.mem_flatMap.1 (hpart.once.mem_iff.2 (List.mem_map_of_mem hr))
  have ha := answers_of_list (hlist m (hpart.reached m (List.mem_range.1 hm)))
  rw [ha.ids] at hshown
  obtain ⟨r', hr', hid⟩ := List.mem_map.1 hshown
  rw [← hid]
  exact ha.linked r' hr'

theorem cut_of_partition (hids : (db.depositRequest.map DepositRequest.id).Nodup) (hk : 0 < pageSize)
    (h : PagesPartition db lawyerId pageSize) : Cut createdAtDesc pageSize (db.requestsOf lawyerId) := by
  by_contra hc
  obtain ⟨r, hr, first, last, m, m', hlt, hfirst, hlast⟩ := exists_torn hk hc
  -- page `m` is read in one order and page `m'` in the other; both have a `skip` that is no error
  have hfits : m * pageSize ≤ m' * pageSize := Nat.mul_le_mul_right pageSize hlt.le
  obtain ⟨pages, hlist, hpart⟩ := h (fun j => ⟨if j = m then first else last, .heap, .heap,
    (db.requestsOf lawyerId).length + m' * pageSize⟩) (fun _ => 0) fun _ => Nat.le_add_right _ _
  have hm : r.id ∈ (pages m).items.map RequestSummaryView.id := by
    rw [(answers_of_list (hlist m (by dsimp only; omega))).ids, pageRows_eq]
    exact List.mem_map_of_mem (by simpa using hfirst)
  have hm' : r.id ∈ (pages m').items.map RequestSummaryView.id := by
    rw [(answers_of_list (hlist m' (Nat.le_add_left _ _))).ids, pageRows_eq]
    exact List.mem_map_of_mem (by simpa [hlt.ne'] using hlast)
  have hcount : m' < (pages 0).totalPages := by
    by_contra hge
    rw [hpart.after m' (Nat.le_add_left _ _) (by omega)] at hm'
    cases hm'
  exact not_nodup_flatMap hlt hcount hm hm' (hpart.once.nodup_iff.2 (nodup_requestsOf hids))

/-- **Pages partition the list exactly when no page ends between requests of one instant**, provided that
each request has a link to show: the pages whose `skip` the query takes, of a list that is no longer than
the longest `skip`. -/
theorem pages_partition_iff (db : Database) (lawyerId : LawyerId) (pageSize : Nat)
    (hids : (db.depositRequest.map DepositRequest.id).Nodup) (hk : 1 ≤ pageSize) :
    PagesPartition db lawyerId pageSize ↔
      (∀ r ∈ db.requestsOf lawyerId, ∃ link ∈ db.publicLink, link.requestId = r.id) ∧
      Cut createdAtDesc pageSize (db.requestsOf lawyerId) := by
  constructor
  · exact fun h => ⟨linked_of_partition h, cut_of_partition hids hk h⟩
  · rintro ⟨hlinks, hc⟩ plan now hlong
    have hanswer : ∀ m, ∃ page, m * pageSize ≤ (plan m).maxSkip →
        list (plan m) db lawyerId ⟨m + 1, pageSize⟩ (now m) = .ok page := by
      intro m
      by_cases hskip : m * pageSize ≤ (plan m).maxSkip
      · obtain ⟨page, hpage⟩ := list_answered (now m) hlinks hskip
        exact ⟨page, fun _ => hpage⟩
      · exact ⟨⟨[], 0, 0, 0, 0⟩, fun h => absurd h hskip⟩
    choose pages hpages using hanswer
    exact ⟨pages, hpages,
      partitioned_of_answers hk hlong (fun m hm => answers_of_list (hpages m hm)) hc⟩

/-! ### Two requests of one instant -/

/-- They stand on either side of the end of a page of one. -/
def twins : Database where
  depositRequest := [⟨js "a", js "Achat", 0, js "alice"⟩, ⟨js "b", js "Bail", 0, js "alice"⟩]
  publicLink := [⟨js "l0", js "sha256:a", js "argon2:a", 10, 0, none, js "a"⟩,
    ⟨js "l1", js "sha256:b", js "argon2:b", 10, 0, none, js "b"⟩]
  requestedItem := []
  uploadedFile := []

theorem pages_partition_iff_twins : PagesPartition twins (js "alice") 2 :=
  (pages_partition_iff twins (js "alice") 2 (by decide) (by decide)).2 ⟨by decide, by decide⟩

/-- The second query comes out the other way round. -/
def backwards : Scan DepositRequest := ⟨List.reverse, List.reverse_perm⟩

/-- One request is on both pages and the other on none. -/
theorem shown_twice :
    (list heapPlan twins (js "alice") ⟨1, 1⟩ 1).map (fun page => page.items.map RequestSummaryView.id) =
      .ok [js "a"] ∧
    (list { heapPlan with requests := backwards } twins (js "alice") ⟨2, 1⟩ 1).map
      (fun page => (page.items.map RequestSummaryView.id, page.totalPages)) = .ok ([js "a"], 2) ∧
    ¬ PagesPartition twins (js "alice") 1 := by
  refine ⟨by decide +kernel, by decide +kernel, fun h => ?_⟩
  exact absurd (cut_of_partition (by decide) (by decide) h) (by decide)

end DepositPortal.Requests
