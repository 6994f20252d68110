import DepositPortal.Public.Completion
import DepositPortal.Public.Session
import Mathlib.Tactic.TFAE

/-!
# Every reading of "received" and "complete"

A piece is counted by `list` and `findOne`, shown by `findOne` and by the client's view, counted as
missing after a deposit, and served or not by `streamFile`. Each reads the tables in its own way, in
an order of its own; all come down to the items of the request (`Database.itemsOf`) and the status of
the file of each (`Database.receives`).
-/
namespace DepositPortal.Requests
open Query
open PublicLinks (DepositRequest)
open Deposits (RequestId ItemId StorageKey UploadedFile Bytes)

variable {db : Database} {plan : Plan} {request : DepositRequest} {requestId : RequestId}
  {item : RequestedItem} {now : Int} {summary : RequestSummaryView}

def Database.itemsOf (db : Database) (requestId : RequestId) : List RequestedItem :=
  db.requestedItem.filter fun item => item.requestId == requestId

def Database.receives (db : Database) (item : RequestedItem) : Bool :=
  isReceived (db.statusOf item.id)

/-- What a deposit sees of the tables. -/
def Database.deposits (db : Database) : Deposits.State :=
  ⟨db.requestedItem.map RequestedItem.ids, db.uploadedFile, ∅, [], [], []⟩

theorem mem_itemsOf : item ∈ db.itemsOf requestId ↔
    item ∈ db.requestedItem ∧ item.requestId = requestId := by
  simp [Database.itemsOf]

/-! ## The file of an item -/

theorem fileOf_eq_some (h : Intact db) {itemId : ItemId} {file : UploadedFile} :
    db.fileOf itemId = some file ↔ file ∈ db.uploadedFile ∧ file.requestedItemId = itemId := by
  constructor
  · intro hf
    exact ⟨List.mem_of_find?_eq_some hf, by simpa using List.find?_some hf⟩
  · rintro ⟨hm, rfl⟩
    exact find?_eq_of_key hm (by simp) fun other ho he =>
      eq_of_nodup_map h.oneFile ho hm (by simpa using he)

theorem receives_iff (h : Intact db) : db.receives item = true ↔
    ∃ file ∈ db.uploadedFile, file.requestedItemId = item.id ∧ file.status = .complete := by
  unfold Database.receives Database.statusOf isReceived
  cases hf : db.fileOf item.id with
  | none =>
    have hnone : ∀ file ∈ db.uploadedFile, file.requestedItemId ≠ item.id := by
      simpa [Database.fileOf] using hf
    simp only [Option.map_none, reduceBEq, Bool.false_eq_true, false_iff]
    rintro ⟨file, hm, hid, -⟩
    exact hnone file hm hid
  | some file =>
    obtain ⟨hm, hid⟩ := (fileOf_eq_some h).1 hf
    simp only [Option.map_some, Option.some_beq_some, beq_iff_eq]
    constructor
    · exact fun hs => ⟨file, hm, hid, hs⟩
    · rintro ⟨other, ho, hoid, hs⟩
      rw [eq_of_nodup_map h.oneFile ho hm (hoid.trans hid.symm)] at hs
      exact hs

/-! ## The readings -/

theorem countReceived_eq {items : List RequestedItem} (hp : items.Perm (db.itemsOf requestId)) :
    countReceived (items.map fun item => db.statusOf item.id) =
      (db.itemsOf requestId).countP db.receives := by
  rw [countReceived, ← List.countP_eq_length_filter, List.countP_map, ← hp.countP_eq]
  rfl

/-- What a summary counts, and when it is complete. -/
structure Counts (db : Database) (requestId : RequestId) (summary : RequestSummaryView) : Prop where
  id : summary.id = requestId
  expected : summary.expectedCount = (db.itemsOf requestId).length
  received : summary.receivedCount = (db.itemsOf requestId).countP db.receives
  complete : summary.status = .Complete ↔
    0 < summary.expectedCount ∧ summary.expectedCount ≤ summary.receivedCount

theorem counts_of_row (row : SummaryRow) {items : List RequestedItem}
    (hp : items.Perm (db.itemsOf row.id))
    (hrow : row.items = items.map fun item => db.statusOf item.id)
    (h : toRequestSummary row now = .ok summary) : Counts db row.id summary := by
  rw [toRequestSummary_eq, hrow, countReceived_eq hp] at h
  cases hl : toLinkView row.links row.id with
  | error e => rw [hl] at h; cases h
  | ok link =>
    rw [hl] at h
    cases h
    exact ⟨rfl, by simp [hp.length_eq], rfl, deriveStatus_complete⟩

theorem counts_summaryRow
    (h : toRequestSummary (db.summaryRow plan request) now = .ok summary) :
    Counts db request.id summary :=
  counts_of_row (db.summaryRow plan request) perm_matching rfl h

theorem mem_pageRows {lawyerId : LawyerId} {query : ListRequestsDto}
    (h : request ∈ db.pageRows plan lawyerId query) :
    request ∈ db.depositRequest ∧ request.lawyerId = lawyerId := by
  have := mem_sorted.1 (List.mem_of_mem_drop (List.mem_of_mem_take h))
  simpa using this

/-- A page that is answered has a `skip` the query takes. -/
theorem skip_le_of_list {lawyerId : LawyerId} {query : ListRequestsDto} {page : RequestPageView}
    (h : list plan db lawyerId query now = .ok page) : query.skip ≤ plan.maxSkip := by
  by_contra hgt
  simp only [list, Nat.not_le.1 hgt, if_true] at h
  cases h

theorem list_eq {plan : Plan} {query : ListRequestsDto} (h : query.skip ≤ plan.maxSkip) (db : Database)
    (lawyerId : LawyerId) (now : Int) : list plan db lawyerId query now =
      ((db.pageRows plan lawyerId query).mapM fun r =>
        toRequestSummary (db.summaryRow plan r) now).map fun items =>
          ⟨items, query.page, query.pageSize,
            db.depositRequest.countP fun r => r.lawyerId == lawyerId,
            (db.depositRequest.countP (fun r => r.lawyerId == lawyerId) + query.pageSize - 1) /
              query.pageSize⟩ := by
  simp only [list, Nat.not_lt.2 h, if_false]
  cases (db.pageRows plan lawyerId query).mapM fun r =>
    toRequestSummary (db.summaryRow plan r) now <;> rfl

/-- A line of a page is the summary of one of the lawyer's requests. -/
theorem mem_list {lawyerId : LawyerId} {query : ListRequestsDto} {page : RequestPageView}
    (h : list plan db lawyerId query now = .ok page)
    (hs : summary ∈ page.items) : ∃ r ∈ db.depositRequest, r.lawyerId = lawyerId ∧
      toRequestSummary (db.summaryRow plan r) now = .ok summary := by
  rw [list_eq (skip_le_of_list h)] at h
  cases hm : (db.pageRows plan lawyerId query).mapM
      fun r => toRequestSummary (db.summaryRow plan r) now with
  | error e => rw [hm] at h; cases h
  | ok items =>
    rw [hm] at h
    cases h
    obtain ⟨r, hr, hsum⟩ := mem_of_mapM_ok hm hs
    obtain ⟨hr, howned⟩ := mem_pageRows hr
    exact ⟨r, hr, howned, hsum⟩

theorem Intact.find_request (h : Intact db) (hr : request ∈ db.depositRequest) {p : DepositRequest → Bool}
    (hp : p request = true) (hid : ∀ r, p r = true → r.id = request.id) :
    db.depositRequest.find? p = some request :=
  find?_eq_of_key hr hp fun r hm he => eq_of_nodup_map h.requestIds hm hr (hid r he)

theorem findOne_eq (h : Intact db) (hr : request ∈ db.depositRequest) :
    findOne plan db request.id request.lawyerId now =
      toRequestDetail (db.detailRow plan request) now := by
  have hf := h.find_request hr (p := fun r => r.id == request.id && r.lawyerId == request.lawyerId)
    (by simp) fun r he => by simp at he; exact he.1
  rw [findOne, hf]

/-- The lines of a detailed view. -/
def detailLine (db : Database) (item : RequestedItem) : DetailedItemView :=
  ⟨item.id, item.label, db.receives item,
    (db.fileOf item.id).map fun file => toReceivedFile (fileRow file)⟩

theorem status_detailLine (db : Database) (item : RequestedItem) :
    DetailItemRow.status ⟨item.id, item.label, (db.fileOf item.id).map fileRow⟩ =
      db.statusOf item.id := by
  rw [DetailItemRow.status, Option.map_map]
  rfl

theorem detail_eq {detail : RequestDetailView}
    (h : toRequestDetail (db.detailRow plan request) now = .ok detail) :
    Counts db request.id detail.toRequestSummaryView ∧
      ∃ items : List RequestedItem, items.Perm (db.itemsOf request.id) ∧
        detail.items = items.map (detailLine db) := by
  have hp : (sorted plan.items (fun item => item.requestId == request.id) positionAsc
      db.requestedItem).Perm (db.itemsOf request.id) := perm_sorted
  rw [toRequestDetail_eq] at h
  cases hs : toRequestSummary (db.detailRow plan request).summary now with
  | error e => rw [hs] at h; cases h
  | ok summary =>
    rw [hs] at h
    cases h
    refine ⟨counts_of_row (db.detailRow plan request).summary hp ?_ hs, _, hp, ?_⟩
    · simp only [DetailRow.summary, Database.detailRow, List.map_map]
      exact List.map_congr_left fun item _ => status_detailLine db item
    · simp only [Database.detailRow, List.map_map]
      refine List.map_congr_left fun item _ => ?_
      simp only [Function.comp_apply, status_detailLine, Option.map_map]
      rfl

/-- The lines of the client's view. -/
def clientLine (db : Database) (item : RequestedItem) : Public.PublicItemView :=
  ⟨item.id, item.label, db.receives item⟩

theorem view_eq (h : Intact db) (hr : request ∈ db.depositRequest) {expiresAt : Int}
    {view : Public.PublicRequestView}
    (hv : Public.viewOf plan db false request.id expiresAt = .ok view) :
    ∃ items : List RequestedItem, items.Perm (db.itemsOf request.id) ∧
      view.items = items.map (clientLine db) := by
  have hf := h.find_request hr (p := fun r => r.id == request.id) (by simp) fun r he => by
    simpa using he
  simp only [Public.viewOf, hf, Bool.false_eq_true, if_false] at hv
  cases hv
  exact ⟨_, perm_sorted, rfl⟩

theorem stillMissing_iff (h : Intact db) :
    db.deposits.stillMissing requestId = 0 ↔ ∀ item ∈ db.itemsOf requestId,
      db.receives item = true := by
  rw [Deposits.stillMissing_eq_zero]
  simp only [Deposits.Complete, Database.deposits, List.forall_mem_map, mem_itemsOf]
  refine ⟨fun hc item hi => (receives_iff h).2 (hc item hi.1 hi.2), fun hc item hi hr => ?_⟩
  exact (receives_iff h).1 (hc item ⟨hi, hr⟩)

theorem ownedItem_eq (h : Intact db) (hr : request ∈ db.depositRequest)
    (hi : item ∈ db.itemsOf request.id) :
    db.ownedItem request.id item.id request.lawyerId = some item := by
  obtain ⟨hm, hreq⟩ := mem_itemsOf.1 hi
  refine find?_eq_of_key hm ?_ fun other ho he => ?_
  · simp only [beq_self_eq_true, hreq, Bool.and_self, Bool.true_and, List.any_eq_true]
    exact ⟨request, hr, by simp⟩
  · simp only [Bool.and_eq_true, beq_iff_eq] at he
    exact eq_of_nodup_map h.itemIds ho hm he.1.1

/-- A file is served exactly for an item that is received; what the storage answers is its own. -/
theorem streamFile_eq (h : Intact db) (hr : request ∈ db.depositRequest)
    (hi : item ∈ db.itemsOf request.id) (getObjectStream : StorageKey → Except Failure Bytes) :
    (db.receives item = true ∧ ∃ file, db.fileOf item.id = some file ∧
      streamFile getObjectStream db request.id item.id request.lawyerId =
        (getObjectStream file.storageKey).map fun stream =>
          ⟨stream, file.mimeType, file.originalName⟩) ∨
    (db.receives item = false ∧
      streamFile getObjectStream db request.id item.id request.lawyerId =
        .error fileNotAvailable) := by
  simp only [streamFile, ownedItem_eq h hr hi, Database.receives, Database.statusOf, isReceived]
  cases hf : db.fileOf item.id with
  | none => exact .inr ⟨rfl, rfl⟩
  | some file =>
    by_cases hs : file.status = .complete
    · exact .inl ⟨by simp [hs], file, rfl, by simp [hs]⟩
    · exact .inr ⟨by simpa using hs, by simp [hs]⟩

/-! ## They agree -/

theorem Counts.full (h : Counts db requestId summary) :
    summary.receivedCount = summary.expectedCount ↔
      ∀ item ∈ db.itemsOf requestId, db.receives item = true := by
  rw [h.received, h.expected, List.countP_eq_length]

theorem Counts.complete_iff (h : Counts db requestId summary)
    (hne : db.itemsOf requestId ≠ []) :
    summary.status = .Complete ↔ summary.receivedCount = summary.expectedCount := by
  have hle : summary.receivedCount ≤ summary.expectedCount := by
    rw [h.received, h.expected]; exact List.countP_le_length
  have hpos : 0 < summary.expectedCount := by
    rw [h.expected]; exact List.length_pos_iff.2 hne
  rw [h.complete]
  omega

theorem countP_lines {line : Type} {items : List RequestedItem} {f : RequestedItem → line}
    {received : line → Bool} (hp : items.Perm (db.itemsOf requestId))
    (hf : ∀ item, received (f item) = db.receives item) :
    (items.map f).countP received = (db.itemsOf requestId).countP db.receives := by
  rw [List.countP_map, ← hp.countP_eq]
  exact List.countP_congr fun item _ => by simp [hf]

theorem forall_lines {line : Type} {items : List RequestedItem} {f : RequestedItem → line}
    {received : line → Bool} (hp : items.Perm (db.itemsOf requestId))
    (hf : ∀ item, received (f item) = db.receives item) :
    (∀ l ∈ items.map f, received l = true) ↔
      ∀ item ∈ db.itemsOf requestId, db.receives item = true := by
  simp only [List.forall_mem_map, hf, hp.mem_iff]

/-- **All readings of "received" and "complete" agree.** Of a request with at least one item: its
status in `list` and in `findOne` is complete, the counts of either are equal, every line of the
client's view or of the detailed view is received and the completion query counts 0, all or none of
these. Both counts of received pieces are the number of received lines of both views, and an item is
served by `streamFile`, as the storage answers, exactly when it is shown received. -/
theorem readings_agree (db : Database) (h : Intact db) (request : DepositRequest)
    (hr : request ∈ db.depositRequest) (hne : db.itemsOf request.id ≠ []) (plan plan' plan'' : Plan)
    (query : ListRequestsDto) (now now' expiresAt : Int) (page : RequestPageView)
    (summary : RequestSummaryView) (detail : RequestDetailView) (view : Public.PublicRequestView)
    (hpage : list plan db request.lawyerId query now = .ok page) (hs : summary ∈ page.items)
    (hid : summary.id = request.id)
    (hdetail : findOne plan' db request.id request.lawyerId now' = .ok detail)
    (hview : Public.viewOf plan'' db false request.id expiresAt = .ok view) :
    [summary.status = .Complete, detail.status = .Complete,
      summary.receivedCount = summary.expectedCount, detail.receivedCount = detail.expectedCount,
      ∀ line ∈ view.items, line.received = true, ∀ line ∈ detail.items, line.received = true,
      db.deposits.stillMissing request.id = 0].TFAE ∧
    (∀ count ∈ [summary.receivedCount, detail.receivedCount],
      count = view.items.countP Public.PublicItemView.received ∧
      count = detail.items.countP DetailedItemView.received) ∧
    ∀ item ∈ db.itemsOf request.id,
      (∃ line ∈ view.items, line.id = item.id ∧ line.received = db.receives item) ∧
      (∃ line ∈ detail.items, line.id = item.id ∧ line.received = db.receives item) ∧
      ∀ getObjectStream : StorageKey → Except Failure Bytes,
        if db.receives item then ∃ file, db.fileOf item.id = some file ∧
          streamFile getObjectStream db request.id item.id request.lawyerId =
            (getObjectStream file.storageKey).map fun stream =>
              ⟨stream, file.mimeType, file.originalName⟩
        else streamFile getObjectStream db request.id item.id request.lawyerId =
          .error fileNotAvailable := by
  obtain ⟨r, hrm, -, hsum⟩ := mem_list hpage hs
  have hcs : Counts db request.id summary := by
    have hc := counts_summaryRow hsum
    rwa [← hc.id, hid] at hc
  rw [findOne_eq h hr] at hdetail
  obtain ⟨hcd, items, hp, hlines⟩ := detail_eq hdetail
  obtain ⟨shown, hp', hlines'⟩ := view_eq h hr hview
  rw [hlines, hlines']
  have hclient := fun item => (rfl : (clientLine db item).received = db.receives item)
  have hlawyer := fun item => (rfl : (detailLine db item).received = db.receives item)
  refine ⟨?_, ?_, fun item hi => ⟨?_, ?_, fun get => ?_⟩⟩
  · tfae_have 1 ↔ 3 := hcs.complete_iff hne
    tfae_have 2 ↔ 4 := hcd.complete_iff hne
    tfae_have 3 ↔ 7 := hcs.full.trans (stillMissing_iff h).symm
    tfae_have 4 ↔ 7 := hcd.full.trans (stillMissing_iff h).symm
    tfae_have 5 ↔ 7 := (forall_lines hp' hclient).trans (stillMissing_iff h).symm
    tfae_have 6 ↔ 7 := (forall_lines hp hlawyer).trans (stillMissing_iff h).symm
    tfae_finish
  · intro count hc
    rw [countP_lines hp' hclient, countP_lines hp hlawyer]
    rcases List.mem_cons.1 hc with rfl | hc
    · exact ⟨hcs.received, hcs.received⟩
    · obtain rfl := List.mem_singleton.1 hc
      exact ⟨hcd.received, hcd.received⟩
  · exact ⟨_, List.mem_map_of_mem (hp'.mem_iff.2 hi), rfl, rfl⟩
  · exact ⟨_, List.mem_map_of_mem (hp.mem_iff.2 hi), rfl, rfl⟩
  · rcases streamFile_eq h hr hi get with ⟨hrec, hserved⟩ | ⟨hrec, hrefused⟩
    · rwa [hrec, if_pos rfl]
    · rwa [hrec, if_neg Bool.false_ne_true]

/-! ### A request with one complete and one failed file -/

def halfDone : Database where
  depositRequest := [⟨js "dossier", js "Achat", 0, js "alice"⟩]
  publicLink := [⟨js "l0", js "sha256:abc", js "argon2:1234", 10, 0, none, js "dossier"⟩]
  requestedItem := [⟨js "passport", js "Passeport", 1, js "dossier"⟩,
    ⟨js "contract", js "Contrat", 0, js "dossier"⟩]
  uploadedFile :=
    [⟨js "requests/dossier/items/contract/00-a.pdf", js "a.pdf", js "application/pdf", 6, .complete, 3,
      js "contract"⟩,
     ⟨js "requests/dossier/items/passport/00-b.pdf", js "b.pdf", js "application/pdf", 6, .failed, 4,
      js "passport"⟩]

theorem intact_halfDone : Intact halfDone where
  requestIds := by decide
  itemIds := by decide
  oneFile := by decide
  linkRequest := by decide
  itemRequest := by decide
  fileItem := by decide

/-- Rows come back as they were inserted, and an `OFFSET` has 64 bits. -/
def heapPlan : Plan := ⟨Scan.heap, Scan.heap, Scan.heap, 2 ^ 63 - 1⟩

def halfSummary : RequestSummaryView :=
  ⟨js "dossier", js "Achat", 0, .Pending, 2, 1, ⟨.active, 10⟩⟩

theorem readings_agree_halfDone : ∃ detail view,
    findOne heapPlan halfDone (js "dossier") (js "alice") 5 = .ok detail ∧
    Public.viewOf heapPlan halfDone false (js "dossier") 10 = .ok view ∧
    halfSummary.receivedCount = view.items.countP Public.PublicItemView.received ∧
    halfSummary.receivedCount = detail.items.countP DetailedItemView.received := by
  have hr : ⟨js "dossier", js "Achat", 0, js "alice"⟩ ∈ halfDone.depositRequest :=
    List.mem_singleton_self _
  obtain ⟨-, hcount, -⟩ := readings_agree halfDone intact_halfDone _ hr (by decide) heapPlan heapPlan
    heapPlan ⟨1, 20⟩ 5 5 10 ⟨[halfSummary], 1, 20, 1, 1⟩ halfSummary
    ⟨halfSummary, [⟨js "contract", js "Contrat", true, some ⟨js "a.pdf", js "application/pdf", 6, 3⟩⟩,
      ⟨js "passport", js "Passeport", false, some ⟨js "b.pdf", js "application/pdf", 6, 4⟩⟩]⟩
    ⟨js "dossier", js "Achat", 10, [⟨js "contract", js "Contrat", true⟩,
      ⟨js "passport", js "Passeport", false⟩]⟩
    rfl (List.mem_singleton_self _) rfl rfl rfl
  exact ⟨_, _, rfl, rfl, (hcount _ List.mem_cons_self).1, (hcount _ List.mem_cons_self).2⟩

end DepositPortal.Requests
