import DepositPortal.Portal.Serial

/-!
# One practice cannot see another

Every query of the lawyer carries the owner in its `where`, in one of three shapes: the request itself
(`lawyerId`), the request by its id and its owner, the item through its request. So a call of a lawyer
computes the same on the whole database as on his own rows alone (`perform_ofLawyer`), where a foreign id
is an id that exists nowhere; and it leaves all other rows as they are.
-/
namespace DepositPortal.Portal
open ReadCommitted
open Query
open Requests (RequestedItem Plan Database Intact positionAsc LAST_LINK)
open PublicLinks (DepositRequest PublicLink keys isActive)
open Deposits (Bytes RequestId ItemId StorageKey UploadedFile)

variable {cfg : Config} {getObjectStream : StorageKey → Except Requests.Failure Bytes}
  {lawyerId : LawyerId} {env : Env} {db : Database} {plan : Plan} {requestId : RequestId}
  {itemId : ItemId} {op : Op}

/-! ## The rows of a lawyer -/

def owns (db : Database) (lawyerId : LawyerId) (requestId : RequestId) : Bool :=
  db.depositRequest.any fun r => r.id == requestId && r.lawyerId == lawyerId

def ownsItem (db : Database) (lawyerId : LawyerId) (itemId : ItemId) : Bool :=
  db.requestedItem.any fun item => item.id == itemId && owns db lawyerId item.requestId

/-- His requests, and the links, the items and the files hanging off them. -/
def ofLawyer (lawyerId : LawyerId) (db : Database) : Database where
  depositRequest := db.depositRequest.filter fun r => r.lawyerId == lawyerId
  publicLink := db.publicLink.filter fun link => owns db lawyerId link.requestId
  requestedItem := db.requestedItem.filter fun item => owns db lawyerId item.requestId
  uploadedFile := db.uploadedFile.filter fun file => ownsItem db lawyerId file.requestedItemId

/-- All other rows. -/
def others (lawyerId : LawyerId) (db : Database) : Database where
  depositRequest := db.depositRequest.filter fun r => r.lawyerId != lawyerId
  publicLink := db.publicLink.filter fun link => !owns db lawyerId link.requestId
  requestedItem := db.requestedItem.filter fun item => !owns db lawyerId item.requestId
  uploadedFile := db.uploadedFile.filter fun file => !ownsItem db lawyerId file.requestedItemId

theorem owns_iff : owns db lawyerId requestId = true ↔
    ∃ r ∈ db.depositRequest, r.id = requestId ∧ r.lawyerId = lawyerId := by
  simp [owns]

theorem ownsItem_iff : ownsItem db lawyerId itemId = true ↔
    ∃ item ∈ db.requestedItem, item.id = itemId ∧ owns db lawyerId item.requestId = true := by
  simp [ownsItem]

theorem owns_of_mem {r : DepositRequest} (hr : r ∈ db.depositRequest) (h : r.lawyerId = lawyerId) :
    owns db lawyerId r.id = true :=
  owns_iff.2 ⟨r, hr, rfl, h⟩

/-! ## A query with the owner in its `where` -/

theorem owns_ofLawyer : owns (ofLawyer lawyerId db) lawyerId requestId = owns db lawyerId requestId := by
  rw [Bool.eq_iff_iff, owns_iff, owns_iff]
  simp only [ofLawyer, List.mem_filter, beq_iff_eq]
  constructor
  · rintro ⟨r, ⟨hr, -⟩, h⟩; exact ⟨r, hr, h⟩
  · rintro ⟨r, hr, hid, ho⟩; exact ⟨r, ⟨hr, ho⟩, hid, ho⟩

/-- The items of a request of his. -/
theorem matching_items (h : owns db lawyerId requestId = true) :
    matching plan.items (fun item => item.requestId == requestId) (ofLawyer lawyerId db).requestedItem =
      matching plan.items (fun item => item.requestId == requestId) db.requestedItem :=
  matching_congr _ (filter_filter_of_imp fun item _ he => by rw [beq_iff_eq.1 he]; exact h)

theorem lastLink_ofLawyer (h : owns db lawyerId requestId = true) :
    (ofLawyer lawyerId db).lastLink plan requestId = db.lastLink plan requestId := by
  rw [Database.lastLink, Database.lastLink]
  refine congrArg (fun links => (links.take 1).map Requests.linkRow) (sorted_congr _ ?_)
  exact filter_filter_of_imp fun link _ he => by rw [beq_iff_eq.1 he]; exact h

theorem fileOf_ofLawyer (h : ownsItem db lawyerId itemId = true) :
    (ofLawyer lawyerId db).fileOf itemId = db.fileOf itemId :=
  find?_filter_of_imp fun file _ he => by rw [beq_iff_eq.1 he]; exact h

theorem ownsItem_of_matching {item : RequestedItem} (h : owns db lawyerId requestId = true)
    (hi : item ∈ matching plan.items (fun item => item.requestId == requestId) db.requestedItem) :
    ownsItem db lawyerId item.id = true := by
  obtain ⟨hi, he⟩ := mem_matching.1 hi
  exact ownsItem_iff.2 ⟨item, hi, rfl, by rw [beq_iff_eq.1 he]; exact h⟩

theorem summaryRow_ofLawyer {r : DepositRequest} (hr : owns db lawyerId r.id = true) :
    (ofLawyer lawyerId db).summaryRow plan r = db.summaryRow plan r := by
  simp only [Database.summaryRow, lastLink_ofLawyer hr, matching_items hr]
  congr 1
  refine List.map_congr_left fun item hi => ?_
  rw [Database.statusOf, Database.statusOf, fileOf_ofLawyer (ownsItem_of_matching hr hi)]

theorem detailRow_ofLawyer {r : DepositRequest} (hr : owns db lawyerId r.id = true) :
    (ofLawyer lawyerId db).detailRow plan r = db.detailRow plan r := by
  have hitems : sorted plan.items (fun item => item.requestId == r.id) positionAsc
      (ofLawyer lawyerId db).requestedItem =
      sorted plan.items (fun item => item.requestId == r.id) positionAsc db.requestedItem := by
    rw [sorted, sorted, matching_items hr]
  simp only [Database.detailRow, lastLink_ofLawyer hr, hitems]
  congr 1
  refine List.map_congr_left fun item hi => ?_
  rw [fileOf_ofLawyer (ownsItem_of_matching hr (mem_orderBy.1 hi))]

/-! ## The reads -/

theorem list_ofLawyer (query : Requests.ListRequestsDto) (now : Int) :
    Requests.list plan (ofLawyer lawyerId db) lawyerId query now =
      Requests.list plan db lawyerId query now := by
  have himp : ∀ r ∈ db.depositRequest, (r.lawyerId == lawyerId) = true →
      (r.lawyerId == lawyerId) = true := fun _ _ h => h
  have hpage : (ofLawyer lawyerId db).pageRows plan lawyerId query =
      db.pageRows plan lawyerId query := by
    have hsorted : sorted plan.requests (fun r => r.lawyerId == lawyerId) Requests.createdAtDesc
        (ofLawyer lawyerId db).depositRequest =
        sorted plan.requests (fun r => r.lawyerId == lawyerId) Requests.createdAtDesc
          db.depositRequest := sorted_congr _ (filter_filter_of_imp himp)
    rw [Database.pageRows, Database.pageRows]
    exact congrArg (fun rows => (rows.drop query.skip).take query.pageSize)
      hsorted
  have hrows : ∀ r ∈ db.pageRows plan lawyerId query,
      Requests.toRequestSummary ((ofLawyer lawyerId db).summaryRow plan r) now =
        Requests.toRequestSummary (db.summaryRow plan r) now := by
    intro r hr
    obtain ⟨hr, ho⟩ := mem_sorted.1 (List.mem_of_mem_drop (List.mem_of_mem_take hr))
    rw [summaryRow_ofLawyer (owns_of_mem hr (by simpa using ho))]
  have htotal : (ofLawyer lawyerId db).depositRequest.countP (fun r => r.lawyerId == lawyerId) =
      db.depositRequest.countP fun r => r.lawyerId == lawyerId := countP_filter_of_imp himp
  simp only [Requests.list, hpage, htotal, mapM_congr hrows]

/-- The request by its id and its owner. -/
theorem findRequest_ofLawyer : (ofLawyer lawyerId db).depositRequest.find?
      (fun r => r.id == requestId && r.lawyerId == lawyerId) =
    db.depositRequest.find? fun r => r.id == requestId && r.lawyerId == lawyerId :=
  find?_filter_of_imp fun _ _ h => (Bool.and_eq_true _ _ ▸ h).2

theorem findOne_ofLawyer (now : Int) :
    Requests.findOne plan (ofLawyer lawyerId db) requestId lawyerId now =
      Requests.findOne plan db requestId lawyerId now := by
  rw [Requests.findOne, Requests.findOne, findRequest_ofLawyer]
  split
  · rfl
  · next r hr =>
    have ho := List.find?_some hr
    simp only [Bool.and_eq_true, beq_iff_eq] at ho
    rw [detailRow_ofLawyer (owns_of_mem (List.mem_of_find?_eq_some hr) ho.2)]

theorem ownedItem_iff {item : RequestedItem} (h : db.ownedItem requestId itemId lawyerId = some item) :
    item ∈ db.requestedItem ∧ item.id = itemId ∧ owns db lawyerId item.requestId = true := by
  have hp := List.find?_some h
  simp only [Bool.and_eq_true, beq_iff_eq] at hp
  exact ⟨List.mem_of_find?_eq_some h, hp.1.1, hp.2⟩

theorem streamFile_ofLawyer :
    Requests.streamFile getObjectStream (ofLawyer lawyerId db) requestId itemId lawyerId =
      Requests.streamFile getObjectStream db requestId itemId lawyerId := by
  have hitem : (ofLawyer lawyerId db).ownedItem requestId itemId lawyerId =
      db.ownedItem requestId itemId lawyerId := by
    have howns : ∀ id, (ofLawyer lawyerId db).depositRequest.any (fun r => r.id == id &&
        r.lawyerId == lawyerId) = owns db lawyerId id := fun _ => owns_ofLawyer
    simp only [Database.ownedItem, howns]
    exact find?_filter_of_imp fun item _ h => (Bool.and_eq_true _ _ ▸ h).2
  rw [Requests.streamFile, Requests.streamFile, hitem]
  split
  · rfl
  · next item hi =>
    obtain ⟨hm, -, ho⟩ := ownedItem_iff hi
    rw [fileOf_ofLawyer (ownsItem_iff.2 ⟨item, hm, rfl, ho⟩)]

theorem ownedRequestId_ofLawyer :
    ownedRequestId (ofLawyer lawyerId db) requestId lawyerId = ownedRequestId db requestId lawyerId := by
  rw [ownedRequestId, ownedRequestId, findRequest_ofLawyer]

/-! ## The links -/

theorem ownedRequestId_some {ownedId : RequestId}
    (h : ownedRequestId db requestId lawyerId = some ownedId) :
    ownedId = requestId ∧ owns db lawyerId ownedId = true := by
  obtain ⟨r, hr, rfl⟩ := Option.map_eq_some_iff.1 h
  have hp := List.find?_some hr
  simp only [Bool.and_eq_true, beq_iff_eq] at hp
  exact ⟨hp.1, owns_of_mem (List.mem_of_find?_eq_some hr) hp.2⟩

/-- A filter by request, after the links of one were revoked. -/
theorem filter_revoked (p : RequestId → Bool) (ownedId : RequestId) (now : Int)
    (links : List PublicLink) :
    (links.map fun link => if isActive ownedId link then link.revoke now else link).filter
      (fun link => p link.requestId) =
    (links.filter fun link => p link.requestId).map fun link =>
      if isActive ownedId link then link.revoke now else link := by
  rw [List.filter_map]
  congr 1
  refine List.filter_congr fun link _ => ?_
  simp only [Function.comp_apply]
  split <;> rfl

theorem ofLawyer_revokeLinks (ownedId : RequestId) (now : Int) :
    ofLawyer lawyerId (revokeLinks db ownedId now) = revokeLinks (ofLawyer lawyerId db) ownedId now := by
  have h := filter_revoked (owns db lawyerId) ownedId now db.publicLink
  simp only [ofLawyer, revokeLinks, Database.mk.injEq, true_and]
  exact ⟨h, rfl, rfl⟩

theorem others_revokeLinks {ownedId : RequestId} (h : owns db lawyerId ownedId = true) (now : Int) :
    others lawyerId (revokeLinks db ownedId now) = others lawyerId db := by
  have hf := filter_revoked (fun id => !owns db lawyerId id) ownedId now db.publicLink
  have hsame : ((db.publicLink.filter fun link => !owns db lawyerId link.requestId).map fun link =>
      if isActive ownedId link then link.revoke now else link) =
      db.publicLink.filter fun link => !owns db lawyerId link.requestId := by
    conv_rhs => rw [← List.map_id (db.publicLink.filter fun link => !owns db lawyerId link.requestId)]
    refine List.map_congr_left fun link hl => if_neg ?_
    intro hact
    have hreq : link.requestId = ownedId := by simp [isActive] at hact; exact hact.1
    have hno := (List.mem_filter.1 hl).2
    rw [hreq, h] at hno
    cases hno
  simp only [others, revokeLinks, Database.mk.injEq, true_and]
  exact ⟨hf.trans hsame, rfl, rfl⟩

/-- An active link collides with no row that has another id, another token and another request, or is
revoked. -/
theorem clash_fresh {link old : PublicLink} (hid : old.id ≠ link.id)
    (ht : old.tokenHash ≠ link.tokenHash)
    (hact : old.revokedAt = none → old.requestId ≠ link.requestId) : clash keys link old = false := by
  rw [clash_eq_false]
  intro key hk hk'
  cases key with
  | id i =>
    simp only [keys, List.mem_append, List.mem_cons] at hk hk'
    grind
  | tokenHash h =>
    simp only [keys, List.mem_append, List.mem_cons] at hk hk'
    grind
  | active r =>
    simp only [keys, List.mem_append, List.mem_cons, Option.isNone_iff_eq_none] at hk hk'
    grind

def appendLink (db : Database) (link : PublicLink) : Database :=
  { db with publicLink := db.publicLink ++ [link] }

theorem ofLawyer_appendLink {link : PublicLink} (h : owns db lawyerId link.requestId = true) :
    ofLawyer lawyerId (appendLink db link) = appendLink (ofLawyer lawyerId db) link := by
  have hl : (db.publicLink ++ [link]).filter (fun l => owns db lawyerId l.requestId) =
      (db.publicLink.filter fun l => owns db lawyerId l.requestId) ++ [link] := by
    rw [List.filter_append, List.filter_singleton, h]; rfl
  simp only [ofLawyer, appendLink, Database.mk.injEq, true_and]
  exact ⟨hl, rfl, rfl⟩

theorem others_appendLink {link : PublicLink} (h : owns db lawyerId link.requestId = true) :
    others lawyerId (appendLink db link) = others lawyerId db := by
  have hl : (db.publicLink ++ [link]).filter (fun l => !owns db lawyerId l.requestId) =
      db.publicLink.filter fun l => !owns db lawyerId l.requestId := by
    rw [List.filter_append, List.filter_singleton, h]; exact List.append_nil _
  simp only [others, appendLink, Database.mk.injEq, true_and]
  exact ⟨hl, rfl, rfl⟩

/-- A link whose draws are fresh collides with no link that is left. -/
theorem createLink_fresh (hF : FreshLink cfg env db) (ownedId : RequestId) (now days : Int) :
    createLink (revokeLinks db ownedId now) (newLink cfg.toConfig env ownedId days) =
      some (appendLink (revokeLinks db ownedId now) (newLink cfg.toConfig env ownedId days)) := by
  refine if_neg ?_
  rw [Bool.not_eq_true, List.any_eq_false]
  intro link hl
  obtain ⟨old, ho, rfl⟩ := List.mem_map.1 hl
  obtain ⟨hid, ht⟩ := hF old ho
  rw [Bool.not_eq_true]
  by_cases hact : isActive ownedId old = true
  · rw [if_pos hact]
    exact clash_fresh hid ht fun h => by cases h
  · rw [if_neg hact]
    refine clash_fresh hid ht fun h e => hact ?_
    simp only [isActive, h, Option.isNone_none, Bool.and_true, beq_iff_eq]
    exact e

theorem regenerate_fresh (hF : FreshLink cfg env db) {ownedId : RequestId} (days : Int)
    (h : ownedRequestId db requestId lawyerId = some ownedId) :
    regenerate cfg.toConfig env db requestId lawyerId days = (issue cfg.toConfig env days,
      appendLink (revokeLinks db ownedId env.hash.now) (newLink cfg.toConfig env ownedId days)) := by
  simp only [regenerate, h, createLink_fresh hF]

theorem FreshLink.ofLawyer (hF : FreshLink cfg env db) (lawyerId : LawyerId) :
    FreshLink cfg env (ofLawyer lawyerId db) :=
  fun link hl => hF link (List.mem_filter.1 hl).1

/-! ## A new request -/

section
variable {request : DepositRequest} {items : List RequestedItem} {link : PublicLink}

/-- The rows of a request collide with none that is there. -/
structure Accepts (db : Database) (request : DepositRequest) (items : List RequestedItem)
    (link : PublicLink) : Prop where
  link : ∀ old ∈ db.publicLink, clash keys link old = false
  request : ((db.depositRequest ++ [request]).map DepositRequest.id).Nodup
  items : ((db.requestedItem ++ items).map RequestedItem.id).Nodup

/-- What the new rows do to the table. -/
def withRequest (db : Database) (request : DepositRequest) (items : List RequestedItem)
    (link : PublicLink) : Database :=
  ⟨db.depositRequest ++ [request], db.publicLink ++ [link], db.requestedItem ++ items, db.uploadedFile⟩

theorem createRequest_accepts (h : Accepts db request items link) :
    createRequest db request items link = some (withRequest db request items link) := by
  have hno : ¬ (db.publicLink.any (clash keys link)) = true := by
    rw [Bool.not_eq_true, List.any_eq_false]
    intro old ho
    rw [h.link old ho]
    exact Bool.false_ne_true
  rw [createRequest, if_neg hno, if_pos ⟨h.request, h.items⟩]
  rfl

theorem Accepts.ofLawyer (h : Accepts db request items link) (lawyerId : LawyerId) :
    Accepts (ofLawyer lawyerId db) request items link where
  link old ho := h.link old (List.mem_filter.1 ho).1
  request := h.request.sublist ((List.filter_sublist.append (List.Sublist.refl _)).map _)
  items := h.items.sublist ((List.filter_sublist.append (List.Sublist.refl _)).map _)

/-- Nothing hangs off a request that is not there yet, and no file off an item. -/
structure Unused (db : Database) (request : DepositRequest) (items : List RequestedItem) : Prop where
  noLink : ∀ link ∈ db.publicLink, link.requestId ≠ request.id
  noItem : ∀ item ∈ db.requestedItem, item.requestId ≠ request.id
  noFile : ∀ file ∈ db.uploadedFile, ∀ item ∈ items, item.id ≠ file.requestedItemId

theorem Accepts.unused (h : Accepts db request items link) (hI : Intact db) :
    Unused db request items := by
  have hnew : ∀ r ∈ db.depositRequest, r.id ≠ request.id :=
    fun r hr => Requests.ne_of_nodup_append h.request hr List.mem_cons_self
  refine ⟨fun link hl => ?_, fun item hi => ?_, fun file hf item hi e => ?_⟩
  · obtain ⟨r, hr, e⟩ := hI.linkRequest link hl
    rw [← e]; exact hnew r hr
  · obtain ⟨r, hr, e⟩ := hI.itemRequest item hi
    rw [← e]; exact hnew r hr
  · obtain ⟨old, ho, e'⟩ := hI.fileItem file hf
    exact Requests.ne_of_nodup_append h.items ho hi (e'.trans e.symm)

theorem owns_withRequest_old {id : RequestId} (h : id ≠ request.id) :
    owns (withRequest db request items link) lawyerId id = owns db lawyerId id := by
  simp [owns, withRequest, Ne.symm h]

theorem owns_withRequest_new (db : Database) (items : List RequestedItem) (link : PublicLink)
    (ho : request.lawyerId = lawyerId) :
    owns (withRequest db request items link) lawyerId request.id = true := by
  simp [owns, withRequest, ho]

/-- The files of a lawyer are those of before. -/
theorem ownsItem_withRequest (lawyerId : LawyerId) (link : PublicLink) (hU : Unused db request items)
    {file : UploadedFile} (hf : file ∈ db.uploadedFile) :
    ownsItem (withRequest db request items link) lawyerId file.requestedItemId =
      ownsItem db lawyerId file.requestedItemId := by
  rw [Bool.eq_iff_iff, ownsItem_iff, ownsItem_iff]
  constructor
  · rintro ⟨item, hi, hid, ho⟩
    rcases List.mem_append.1 hi with hi | hi
    · rw [owns_withRequest_old (hU.noItem item hi)] at ho
      exact ⟨item, hi, hid, ho⟩
    · exact absurd hid (hU.noFile file hf item hi)
  · rintro ⟨item, hi, hid, ho⟩
    refine ⟨item, List.mem_append_left _ hi, hid, ?_⟩
    rwa [owns_withRequest_old (hU.noItem item hi)]

theorem ofLawyer_withRequest (hU : Unused db request items) (ho : request.lawyerId = lawyerId)
    (hl : link.requestId = request.id) (hi : ∀ item ∈ items, item.requestId = request.id) :
    ofLawyer lawyerId (withRequest db request items link) =
      withRequest (ofLawyer lawyerId db) request items link := by
  have hnew := owns_withRequest_new db items link ho
  have hlinks : (db.publicLink ++ [link]).filter (fun l =>
      owns (withRequest db request items link) lawyerId l.requestId) =
      (db.publicLink.filter fun l => owns db lawyerId l.requestId) ++ [link] := by
    rw [List.filter_append, List.filter_singleton, hl, hnew, List.filter_congr fun l hl =>
      owns_withRequest_old (hU.noLink l hl)]
    rfl
  have hitems : (db.requestedItem ++ items).filter (fun item =>
      owns (withRequest db request items link) lawyerId item.requestId) =
      (db.requestedItem.filter fun item => owns db lawyerId item.requestId) ++ items := by
    rw [List.filter_append, List.filter_congr fun item hi => owns_withRequest_old (hU.noItem item hi)]
    refine congrArg _ (List.filter_eq_self.2 fun item hm => ?_)
    rw [hi item hm]; exact hnew
  have hfiles := List.filter_congr fun file hf =>
    ownsItem_withRequest lawyerId link hU hf
  simp only [ofLawyer, withRequest, Database.mk.injEq]
  refine ⟨?_, hlinks, hitems, hfiles⟩
  rw [List.filter_append, List.filter_singleton]
  simp [ho]

theorem others_withRequest (hU : Unused db request items) (ho : request.lawyerId = lawyerId)
    (hl : link.requestId = request.id) (hi : ∀ item ∈ items, item.requestId = request.id) :
    others lawyerId (withRequest db request items link) = others lawyerId db := by
  have hnew := owns_withRequest_new db items link ho
  have hlinks : (db.publicLink ++ [link]).filter (fun l =>
      !owns (withRequest db request items link) lawyerId l.requestId) =
      db.publicLink.filter fun l => !owns db lawyerId l.requestId := by
    rw [List.filter_append, List.filter_singleton, hl, hnew, List.filter_congr fun l hl =>
      congrArg _ (owns_withRequest_old (hU.noLink l hl))]
    exact List.append_nil _
  have hitems : (db.requestedItem ++ items).filter (fun item =>
      !owns (withRequest db request items link) lawyerId item.requestId) =
      db.requestedItem.filter fun item => !owns db lawyerId item.requestId := by
    have hnone : items.filter (fun item =>
        !owns (withRequest db request items link) lawyerId item.requestId) = [] := by
      rw [List.filter_eq_nil_iff]
      intro item hm
      rw [hi item hm, hnew]
      exact Bool.false_ne_true
    rw [List.filter_append, hnone, List.append_nil]
    exact List.filter_congr fun item hm => congrArg _ (owns_withRequest_old (hU.noItem item hm))
  have hfiles := List.filter_congr fun file hf => congrArg (fun b => !b)
    (ownsItem_withRequest lawyerId link hU hf)
  simp only [others, withRequest, Database.mk.injEq]
  refine ⟨?_, hlinks, hitems, hfiles⟩
  rw [List.filter_append, List.filter_singleton]
  simp [ho]

theorem intact_withRequest (hI : Intact db) (h : Accepts db request items link)
    (hl : link.requestId = request.id) (hi : ∀ item ∈ items, item.requestId = request.id) :
    Intact (withRequest db request items link) where
  requestIds := h.request
  itemIds := h.items
  oneFile := hI.oneFile
  linkRequest l hm := by
    rcases List.mem_append.1 hm with hm | hm
    · obtain ⟨r, hr, e⟩ := hI.linkRequest l hm
      exact ⟨r, List.mem_append_left _ hr, e⟩
    · obtain rfl := List.mem_singleton.1 hm
      exact ⟨request, List.mem_append_right _ List.mem_cons_self, hl.symm⟩
  itemRequest item hm := by
    rcases List.mem_append.1 hm with hm | hm
    · obtain ⟨r, hr, e⟩ := hI.itemRequest item hm
      exact ⟨r, List.mem_append_left _ hr, e⟩
    · exact ⟨request, List.mem_append_right _ List.mem_cons_self, (hi item hm).symm⟩
  fileItem file hf := by
    obtain ⟨item, hm, e⟩ := hI.fileItem file hf
    exact ⟨item, List.mem_append_left _ hm, e⟩

end

/-- The rows of `create`, their draws fresh. -/
theorem accepts_of_fresh (hI : Intact db) (hF : FreshLink cfg env db) (hR : FreshRequest env db)
    (x : Creation) (ht : x.token = PublicLinks.generatePublicToken env.draw.random) :
    Accepts db (x.request env.write) (x.items env.write) (x.link cfg env.write) := by
  obtain ⟨hid, hnodup, hitem⟩ := hR
  have hids := ids_itemRows env.write.requestId env.write.itemIds x.input.items.zipIdx
  refine ⟨fun old ho => ?_, ?_, ?_⟩
  · obtain ⟨hold, htoken⟩ := hF old ho
    refine clash_fresh hold ?_ fun _ => ?_
    · simpa [Creation.link, ht] using htoken
    · obtain ⟨r, hr, e⟩ := hI.linkRequest old ho
      rw [← e]; exact hid r hr
  · rw [List.map_append, List.nodup_append]
    refine ⟨hI.requestIds, List.nodup_singleton _, ?_⟩
    intro a ha b hb
    obtain ⟨r, hr, rfl⟩ := List.mem_map.1 ha
    obtain rfl := List.mem_singleton.1 hb
    exact hid r hr
  · rw [List.map_append, List.nodup_append]
    refine ⟨hI.itemIds, hnodup.sublist hids, ?_⟩
    intro a ha b hb
    obtain ⟨item, hm, rfl⟩ := List.mem_map.1 ha
    rintro rfl
    exact hitem item hm (hids.subset hb)

/-! ## One call -/

/-- What a call of the lawyer computes, it computes on his own rows. -/
theorem perform_ofLawyer (hI : Intact db) (hF : Fresh cfg env db op) :
    perform cfg getObjectStream lawyerId env (ofLawyer lawyerId db) op =
      ((perform cfg getObjectStream lawyerId env db op).1,
        ofLawyer lawyerId (perform cfg getObjectStream lawyerId env db op).2) := by
  cases op with
  | list query => simp only [perform, list_ofLawyer]
  | findOne requestId => simp only [perform, findOne_ofLawyer]
  | streamFile requestId itemId => simp only [perform, streamFile_ofLawyer]
  | create input =>
    have hacc := accepts_of_fresh hI hF.1 hF.2 (creationOf cfg env lawyerId input) rfl
    simp only [perform, create, createRequest_accepts hacc,
      createRequest_accepts (hacc.ofLawyer lawyerId), Prod.map, id_eq, Prod.mk.injEq, true_and]
    exact (ofLawyer_withRequest (hacc.unused hI) rfl rfl fun _ => requestId_of_mem_itemRows).symm
  | regenerate requestId days =>
    cases ho : ownedRequestId db requestId lawyerId with
    | none =>
      have ho' := ownedRequestId_ofLawyer.trans ho
      simp only [perform, regenerate, ho, ho', Prod.map, id_eq]
    | some ownedId =>
      have ho' := ownedRequestId_ofLawyer.trans ho
      simp only [perform, regenerate_fresh hF days ho, regenerate_fresh (hF.ofLawyer lawyerId) days ho',
        Prod.map, id_eq, Prod.mk.injEq, true_and]
      have howns : owns (revokeLinks db ownedId env.hash.now) lawyerId ownedId = true :=
        (ownedRequestId_some ho).2
      rw [← ofLawyer_revokeLinks, ofLawyer_appendLink howns]
  | revoke requestId =>
    cases ho : ownedRequestId db requestId lawyerId with
    | none =>
      have ho' := ownedRequestId_ofLawyer.trans ho
      simp only [perform, revoke, ho, ho', Prod.map, id_eq]
    | some ownedId =>
      have ho' := ownedRequestId_ofLawyer.trans ho
      simp only [perform, revoke, ho, ho', Prod.map, id_eq, ofLawyer_revokeLinks]

/-- What a call of the lawyer leaves. -/
inductive Leaves (lawyerId : LawyerId) (db : Database) : Database → Prop
  | same : Leaves lawyerId db db
  | revoked (ownedId : RequestId) (now : Int) : owns db lawyerId ownedId = true →
      Leaves lawyerId db (revokeLinks db ownedId now)
  | regenerated (ownedId : RequestId) (now : Int) (link : PublicLink) :
      owns db lawyerId ownedId = true → link.requestId = ownedId →
      Leaves lawyerId db (appendLink (revokeLinks db ownedId now) link)
  | created (request : DepositRequest) (items : List RequestedItem) (link : PublicLink) :
      Accepts db request items link → request.lawyerId = lawyerId → link.requestId = request.id →
      (∀ item ∈ items, item.requestId = request.id) →
      Leaves lawyerId db (withRequest db request items link)

theorem perform_leaves (hI : Intact db) (hF : Fresh cfg env db op) :
    Leaves lawyerId db (perform cfg getObjectStream lawyerId env db op).2 := by
  cases op with
  | list query | findOne requestId | streamFile requestId itemId => exact .same
  | create input =>
    have hacc := accepts_of_fresh hI hF.1 hF.2 (creationOf cfg env lawyerId input) rfl
    simp only [perform, create, createRequest_accepts hacc]
    exact .created _ _ _ hacc rfl rfl fun _ => requestId_of_mem_itemRows
  | regenerate requestId days =>
    cases ho : ownedRequestId db requestId lawyerId with
    | none => simp only [perform, regenerate, ho]; exact .same
    | some ownedId =>
      simp only [perform, regenerate_fresh hF days ho]
      exact .regenerated ownedId _ _ (ownedRequestId_some ho).2 rfl
  | revoke requestId =>
    cases ho : ownedRequestId db requestId lawyerId with
    | none => simp only [perform, revoke, ho]; exact .same
    | some ownedId =>
      simp only [perform, revoke, ho]
      exact .revoked ownedId _ (ownedRequestId_some ho).2

theorem Leaves.others {db' : Database} (h : Leaves lawyerId db db') (hI : Intact db) :
    others lawyerId db' = others lawyerId db := by
  cases h with
  | same => rfl
  | revoked ownedId now ho => exact others_revokeLinks ho now
  | regenerated ownedId now link ho hl =>
    subst hl
    have ho' : owns (revokeLinks db link.requestId now) lawyerId link.requestId = true := ho
    rw [others_appendLink ho', others_revokeLinks ho]
  | created request items link hacc ho hl hi =>
    exact others_withRequest (hacc.unused hI) ho hl hi

theorem intact_revokeLinks (hI : Intact db) (ownedId : RequestId) (now : Int) :
    Intact (revokeLinks db ownedId now) := by
  refine ⟨hI.requestIds, hI.itemIds, hI.oneFile, fun link hl => ?_, hI.itemRequest, hI.fileItem⟩
  obtain ⟨old, ho, rfl⟩ := List.mem_map.1 hl
  obtain ⟨r, hr, e⟩ := hI.linkRequest old ho
  refine ⟨r, hr, e.trans ?_⟩
  split <;> rfl

theorem intact_appendLink {link : PublicLink} (hI : Intact db)
    (h : owns db lawyerId link.requestId = true) : Intact (appendLink db link) := by
  refine ⟨hI.requestIds, hI.itemIds, hI.oneFile, fun l hl => ?_, hI.itemRequest, hI.fileItem⟩
  rcases List.mem_append.1 hl with hl | hl
  · exact hI.linkRequest l hl
  · obtain rfl := List.mem_singleton.1 hl
    obtain ⟨r, hr, e, -⟩ := owns_iff.1 h
    exact ⟨r, hr, e⟩

theorem Leaves.intact {db' : Database} (h : Leaves lawyerId db db') (hI : Intact db) : Intact db' := by
  cases h with
  | same => exact hI
  | revoked ownedId now ho => exact intact_revokeLinks hI ownedId now
  | regenerated ownedId now link ho hl =>
    subst hl
    have ho' : owns (revokeLinks db link.requestId now) lawyerId link.requestId = true := ho
    exact intact_appendLink (intact_revokeLinks hI link.requestId now) ho'
  | created request items link hacc ho hl hi => exact intact_withRequest hI hacc hl hi

/-! ## A sequence of calls -/

variable {calls : List (Env × Op)}

theorem performs_ofLawyer (hI : Intact db) (hF : AllFresh cfg getObjectStream lawyerId calls db) :
    performs cfg getObjectStream lawyerId calls (ofLawyer lawyerId db) =
      ((performs cfg getObjectStream lawyerId calls db).1,
        ofLawyer lawyerId (performs cfg getObjectStream lawyerId calls db).2) := by
  induction calls generalizing db with
  | nil => rfl
  | cons call calls ih =>
    obtain ⟨env, op⟩ := call
    obtain ⟨hfresh, hrest⟩ := hF
    have hnext := ih ((perform_leaves hI hfresh).intact hI) hrest
    simp only [performs, perform_ofLawyer hI hfresh, hnext, Prod.map, id_eq]

theorem performs_others (hI : Intact db) (hF : AllFresh cfg getObjectStream lawyerId calls db) :
    others lawyerId (performs cfg getObjectStream lawyerId calls db).2 = others lawyerId db := by
  induction calls generalizing db with
  | nil => rfl
  | cons call calls ih =>
    obtain ⟨env, op⟩ := call
    obtain ⟨hfresh, hrest⟩ := hF
    have hl : Leaves lawyerId db (perform cfg getObjectStream lawyerId env db op).2 :=
      perform_leaves hI hfresh
    exact (ih (hl.intact hI) hrest).trans (hl.others hI)

/-! ## The bucket -/

theorem perform_files (op : Op) :
    (perform cfg getObjectStream lawyerId env db op).2.uploadedFile = db.uploadedFile := by
  cases op with
  | list query | findOne requestId | streamFile requestId itemId => rfl
  | create input =>
    simp only [perform, create, Prod.map, id_eq]
    split
    · rfl
    · next db' h =>
      simp only [createRequest, Option.ite_none_left_eq_some, Option.ite_none_right_eq_some,
        Option.some.injEq] at h
      rw [← h.2.2]
  | regenerate requestId days =>
    simp only [perform, regenerate, Prod.map, id_eq]
    split
    · rfl
    · split
      · rfl
      · next db' h =>
        simp only [createLink, Option.ite_none_left_eq_some, Option.some.injEq] at h
        rw [← h.2]; rfl
  | revoke requestId =>
    simp only [perform, revoke, Prod.map, id_eq]
    split <;> rfl

/-- Only the objects of the files that are there are ever opened. -/
theorem performs_bucket {getObjectStream' : StorageKey → Except Requests.Failure Bytes}
    (h : ∀ file ∈ db.uploadedFile, getObjectStream file.storageKey = getObjectStream' file.storageKey) :
    performs cfg getObjectStream lawyerId calls db = performs cfg getObjectStream' lawyerId calls db := by
  induction calls generalizing db with
  | nil => rfl
  | cons call calls ih =>
    obtain ⟨env, op⟩ := call
    have hop : perform cfg getObjectStream lawyerId env db op =
        perform cfg getObjectStream' lawyerId env db op := by
      cases op with
      | streamFile requestId itemId =>
        simp only [perform, Requests.streamFile]
        split
        · rfl
        · split
          · rfl
          · next file hf => rw [h file (List.mem_of_find?_eq_some hf)]
      | _ => rfl
    simp only [performs, hop]
    rw [ih fun file hf => h file (by rwa [perform_files] at hf)]

/-! ## Foreign ids -/

/-- The request a call names. -/
def Op.names : Op → Option RequestId
  | .findOne requestId | .streamFile requestId _ | .regenerate requestId _ | .revoke requestId =>
    some requestId
  | .create _ | .list _ => none

/-- The 404 of a call that names a request. -/
def Op.notFound : Op → Answer
  | .streamFile _ _ => .file (.error Requests.requestNotFound)
  | .regenerate _ _ => .issued (.error PublicLinks.requestNotFound)
  | .revoke _ => .revoked (.error PublicLinks.requestNotFound)
  | _ => .detail (.error Requests.requestNotFound)

theorem find?_foreign (h : owns db lawyerId requestId = false) :
    db.depositRequest.find? (fun r => r.id == requestId && r.lawyerId == lawyerId) = none := by
  rw [List.find?_eq_none]
  exact List.any_eq_false.1 h

theorem perform_foreign (hop : op.names = some requestId) (h : owns db lawyerId requestId = false) :
    perform cfg getObjectStream lawyerId env db op = (op.notFound, db) := by
  have hfind := find?_foreign h
  cases op with
  | create input | list query => cases hop
  | findOne id =>
    cases hop
    simp only [perform, Requests.findOne, hfind, Op.notFound]
  | streamFile id itemId =>
    cases hop
    have hitem : db.ownedItem requestId itemId lawyerId = none := by
      refine List.find?_eq_none.2 fun item _ hp => ?_
      simp only [Bool.and_eq_true, beq_iff_eq] at hp
      have howns : owns db lawyerId item.requestId = true := hp.2
      rw [hp.1.2, h] at howns
      cases howns
    simp only [perform, Requests.streamFile, hitem, Op.notFound]
  | regenerate id days =>
    cases hop
    simp only [perform, regenerate, ownedRequestId, hfind, Option.map_none, Op.notFound, Prod.map, id_eq]
  | revoke id =>
    cases hop
    simp only [perform, revoke, ownedRequestId, hfind, Option.map_none, Op.notFound, Prod.map, id_eq]

/-- An item of another request, his own or not. -/
theorem perform_mixed (h : ∀ item ∈ db.requestedItem, item.id = itemId → item.requestId ≠ requestId) :
    perform cfg getObjectStream lawyerId env db (.streamFile requestId itemId) =
      ((Op.streamFile requestId itemId).notFound, db) := by
  have hitem : db.ownedItem requestId itemId lawyerId = none := by
    refine List.find?_eq_none.2 fun item hm hp => ?_
    simp only [Bool.and_eq_true, beq_iff_eq] at hp
    exact h item hm hp.1.1 hp.1.2
  simp only [perform, Requests.streamFile, hitem, Op.notFound]

/-- **One practice cannot see or touch another.** On any two databases that agree on the rows of a lawyer
(and on the objects of his files), and for every sequence of his calls, with any arguments, the draws being
fresh in both and the database breaking ties alike: all answers are equal, his rows end equal, and no other
row of either database has changed. A request that is not his and an item that is not of the request get
the one 404, whether they exist or not, and nothing changes. -/
theorem practices_apart (cfg : Config) (lawyerId : LawyerId) (calls : List (Env × Op))
    (getObjectStream₁ getObjectStream₂ : StorageKey → Except Requests.Failure Bytes) (db₁ db₂ : Database)
    (hI₁ : Intact db₁) (hI₂ : Intact db₂) (hF₁ : AllFresh cfg getObjectStream₁ lawyerId calls db₁)
    (hF₂ : AllFresh cfg getObjectStream₂ lawyerId calls db₂)
    (hrows : ofLawyer lawyerId db₁ = ofLawyer lawyerId db₂)
    (hfiles : ∀ file ∈ (ofLawyer lawyerId db₁).uploadedFile,
      getObjectStream₁ file.storageKey = getObjectStream₂ file.storageKey) :
    (performs cfg getObjectStream₁ lawyerId calls db₁).1 =
      (performs cfg getObjectStream₂ lawyerId calls db₂).1 ∧
    ofLawyer lawyerId (performs cfg getObjectStream₁ lawyerId calls db₁).2 =
      ofLawyer lawyerId (performs cfg getObjectStream₂ lawyerId calls db₂).2 ∧
    others lawyerId (performs cfg getObjectStream₁ lawyerId calls db₁).2 = others lawyerId db₁ ∧
    others lawyerId (performs cfg getObjectStream₂ lawyerId calls db₂).2 = others lawyerId db₂ ∧
    (∀ env op requestId, op.names = some requestId →
      (∀ r ∈ db₁.depositRequest, r.id = requestId → r.lawyerId ≠ lawyerId) →
      perform cfg getObjectStream₁ lawyerId env db₁ op = (op.notFound, db₁)) ∧
    ∀ env requestId itemId,
      (∀ item ∈ db₁.requestedItem, item.id = itemId → item.requestId ≠ requestId) →
      perform cfg getObjectStream₁ lawyerId env db₁ (.streamFile requestId itemId) =
        ((Op.streamFile requestId itemId).notFound, db₁) := by
  have h₁ := performs_ofLawyer hI₁ hF₁
  have h₂ := performs_ofLawyer hI₂ hF₂
  rw [performs_bucket hfiles, hrows, h₂] at h₁
  obtain ⟨hanswers, hdb⟩ := Prod.mk.inj h₁
  refine ⟨hanswers.symm, hdb.symm, performs_others hI₁ hF₁, performs_others hI₂ hF₂,
    fun env op requestId hop hno => perform_foreign hop ?_, fun env requestId itemId h => perform_mixed h⟩
  rw [Bool.eq_false_iff]
  intro ho
  obtain ⟨r, hr, hid, hl⟩ := owns_iff.1 ho
  exact hno r hr hid hl

/-! ### Two practices, and one alone -/

/-- alice's rows among bob's. -/
def twoPractices : Database where
  depositRequest := ⟨js "secret", js "Divorce", 0, js "bob"⟩ :: Requests.halfDone.depositRequest
  publicLink := Requests.halfDone.publicLink ++
    [⟨js "l1", js "sha256:def", js "argon2:5678", 10, 0, none, js "secret"⟩]
  requestedItem := ⟨js "deed", js "Acte", 0, js "secret"⟩ :: Requests.halfDone.requestedItem
  uploadedFile := Requests.halfDone.uploadedFile ++
    [⟨js "requests/secret/items/deed/00-c.pdf", js "c.pdf", js "application/pdf", 6, .complete, 5,
      js "deed"⟩]

theorem intact_twoPractices : Intact twoPractices where
  requestIds := by decide
  itemIds := by decide
  oneFile := by decide
  linkRequest := by decide
  itemRequest := by decide
  fileItem := by decide

/-- At 7. -/
def now7 : Env := ⟨Requests.heapPlan, tick 7 3, tick 7 3, tick 7 3⟩

/-- alice tries bob's request and his item, regenerates her own link and looks at her list. -/
def prying : List (Env × Op) :=
  [(now7, .findOne (js "secret")), (now7, .streamFile (js "dossier") (js "deed")),
    (now7, .regenerate (js "dossier") 7), (now7, .list ⟨1, 20⟩)]

theorem practices_apart_prying :
    (performs portal (fun _ => .ok []) (js "alice") prying twoPractices).1 =
      (performs portal (fun _ => .ok []) (js "alice") prying Requests.halfDone).1 ∧
    others (js "alice") (performs portal (fun _ => .ok []) (js "alice") prying twoPractices).2 =
      others (js "alice") twoPractices := by
  have h := practices_apart portal (js "alice") prying (fun _ => .ok []) (fun _ => .ok []) twoPractices
    Requests.halfDone intact_twoPractices Requests.intact_halfDone (by decide +kernel)
    (by decide +kernel) rfl fun _ _ => rfl
  exact ⟨h.1, h.2.2.1⟩

end DepositPortal.Portal
