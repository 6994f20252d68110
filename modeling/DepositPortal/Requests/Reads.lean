import DepositPortal.Query
import DepositPortal.Requests.Views

/-!
# What the lawyer reads: `RequestsService` (requests/requests.service.ts)

| here | there |
| --- | --- |
| `LAST_LINK`        | `LAST_LINK` (`:36`) |
| `list`             | `list` (`:134`); `query` is what `ListRequestsDto` lets through |
| `findOne`          | `findOne` (`:181`) |
| `streamFile`       | `streamFile` (`:228`); the storage is passed in |

A `Database` is what is committed at one instant, and a `Plan` what each query leaves to the database:
the orders in which it hands back what matches, and the `skip`s it takes. `ListRequestsDto` bounds
`pageSize` and not `page` (`requests/dto/list-requests.dto.ts:40`), so `?page=1e300` is let through, and
its `skip` is no 64-bit `OFFSET`: `list` throws. `Intact` is what the keys of the schema guarantee
(`prisma/schema.prisma:86-192`).
-/
namespace DepositPortal.Requests
open Query
open PublicLinks (DepositRequest PublicLink)
open Deposits (RequestId ItemId StorageKey UploadStatus UploadedFile Bytes)

structure Database where
  depositRequest : List DepositRequest
  publicLink : List PublicLink
  requestedItem : List RequestedItem
  uploadedFile : List UploadedFile

structure Plan where
  requests : Scan DepositRequest
  items : Scan RequestedItem
  links : Scan PublicLink
  /-- The longest `skip` that is no error. -/
  maxSkip : Nat

/-! ## The keys -/

structure Intact (db : Database) : Prop where
  requestIds : (db.depositRequest.map DepositRequest.id).Nodup
  itemIds : (db.requestedItem.map RequestedItem.id).Nodup
  /-- The unique index of `requestedItemId`. -/
  oneFile : (db.uploadedFile.map UploadedFile.requestedItemId).Nodup
  linkRequest : ∀ link ∈ db.publicLink, ∃ r ∈ db.depositRequest, r.id = link.requestId
  itemRequest : ∀ item ∈ db.requestedItem, ∃ r ∈ db.depositRequest, r.id = item.requestId
  fileItem : ∀ file ∈ db.uploadedFile, ∃ item ∈ db.requestedItem, item.id = file.requestedItemId

variable {db : Database} {request : DepositRequest} {item : RequestedItem} {file : UploadedFile}

/-- Two rows with one key are one row. -/
theorem eq_of_nodup_map {α β : Type} {key : α → β} {l : List α} {a b : α} (h : (l.map key).Nodup)
    (ha : a ∈ l) (hb : b ∈ l) (e : key a = key b) : a = b :=
  List.inj_on_of_nodup_map h ha hb e

/-- A row that was added has a key of its own. -/
theorem ne_of_nodup_append {α β : Type} {key : α → β} {l l' : List α} {a b : α}
    (h : ((l ++ l').map key).Nodup) (ha : a ∈ l) (hb : b ∈ l') : key a ≠ key b := by
  rw [List.map_append, List.nodup_append] at h
  exact h.2.2 (key a) (List.mem_map_of_mem ha) (key b) (List.mem_map_of_mem hb)

/-- The row a lookup by key finds. -/
theorem find?_eq_of_key {α : Type} {p : α → Bool} {l : List α} {a : α} (ha : a ∈ l) (hp : p a = true)
    (h : ∀ b ∈ l, p b = true → b = a) : l.find? p = some a := by
  cases hf : l.find? p with
  | none => exact absurd hp (by simpa using List.find?_eq_none.1 hf a ha)
  | some b => rw [h b (List.mem_of_find?_eq_some hf) (List.find?_some hf)]

/-! ## The queries -/

/-- `revokedAt: { sort: 'desc', nulls: 'first' }`. -/
def revokedAtDesc (a b : Option Int) : Ordering :=
  match a, b with
  | none, none => .eq
  | none, some _ => .lt
  | some _, none => .gt
  | some x, some y => compare y x

/-- The `orderBy` of `LAST_LINK`. -/
def LAST_LINK : PublicLink → PublicLink → Ordering :=
  compareLex (fun a b => revokedAtDesc a.revokedAt b.revokedAt)
    fun a b => compare b.createdAt a.createdAt

/-- `orderBy: { createdAt: 'desc' }`. -/
def createdAtDesc (a b : DepositRequest) : Ordering := compare b.createdAt a.createdAt

/-- `orderBy: { position: 'asc' }`. -/
def positionAsc (a b : RequestedItem) : Ordering := compare a.position b.position

/-- The `file` of an item. -/
def Database.fileOf (db : Database) (itemId : ItemId) : Option UploadedFile :=
  db.uploadedFile.find? fun file => file.requestedItemId == itemId

def Database.statusOf (db : Database) (itemId : ItemId) : Option UploadStatus :=
  (db.fileOf itemId).map UploadedFile.status

def linkRow (link : PublicLink) : LinkRow := ⟨link.expiresAt, link.revokedAt⟩

def fileRow (file : UploadedFile) : FileRow :=
  ⟨file.originalName, file.mimeType, file.sizeBytes, file.status, file.createdAt⟩

/-- `links: LAST_LINK`. -/
def Database.lastLink (db : Database) (plan : Plan) (requestId : RequestId) : List LinkRow :=
  ((sorted plan.links (fun link => link.requestId == requestId) LAST_LINK db.publicLink).take 1).map
    linkRow

/-- What `list` selects of a request. -/
def Database.summaryRow (db : Database) (plan : Plan) (r : DepositRequest) : SummaryRow where
  id := r.id
  title := r.title
  createdAt := r.createdAt
  items := (matching plan.items (fun item => item.requestId == r.id) db.requestedItem).map
    fun item => db.statusOf item.id
  links := db.lastLink plan r.id

/-- What `findOne` selects. -/
def Database.detailRow (db : Database) (plan : Plan) (r : DepositRequest) : DetailRow where
  id := r.id
  title := r.title
  createdAt := r.createdAt
  items := (sorted plan.items (fun item => item.requestId == r.id) positionAsc
    db.requestedItem).map fun item => ⟨item.id, item.label, (db.fileOf item.id).map fileRow⟩
  links := db.lastLink plan r.id

structure ListRequestsDto where
  page : Nat
  pageSize : Nat
  deriving DecidableEq, Repr

/-- `skip: (query.page - 1) * query.pageSize`, which is exact up to 2^53; no table has more rows. -/
def ListRequestsDto.skip (query : ListRequestsDto) : Nat := (query.page - 1) * query.pageSize

structure RequestPageView where
  items : List RequestSummaryView
  page : Nat
  pageSize : Nat
  total : Nat
  totalPages : Nat
  deriving DecidableEq, Repr

/-- The rows of the page. -/
def Database.pageRows (db : Database) (plan : Plan) (lawyerId : LawyerId)
    (query : ListRequestsDto) : List DepositRequest :=
  ((sorted plan.requests (fun r => r.lawyerId == lawyerId) createdAtDesc db.depositRequest).drop
    query.skip).take query.pageSize

def list (plan : Plan) (db : Database) (lawyerId : LawyerId) (query : ListRequestsDto)
    (now : Int) : Except Failure RequestPageView := do
  if plan.maxSkip < query.skip then throw (.of (.thrown .other))
  let rows := db.pageRows plan lawyerId query
  let total := db.depositRequest.countP fun r => r.lawyerId == lawyerId
  let items ← rows.mapM fun r => toRequestSummary (db.summaryRow plan r) now
  -- `Math.ceil(total / pageSize)`
  return ⟨items, query.page, query.pageSize, total, (total + query.pageSize - 1) / query.pageSize⟩

/-- The id holds no U+0000, which PostgreSQL refuses in a text. -/
def findOne (plan : Plan) (db : Database) (requestId : RequestId) (lawyerId : LawyerId)
    (now : Int) : Except Failure RequestDetailView :=
  match db.depositRequest.find? fun r => r.id == requestId && r.lawyerId == lawyerId with
  | none => .error requestNotFound
  | some r => toRequestDetail (db.detailRow plan r) now

structure DownloadableFile where
  stream : Bytes
  mimeType : JsString
  originalName : JsString
  deriving DecidableEq, Repr

/-- The item of `where: { id: itemId, requestId, request: { lawyerId } }`. -/
def Database.ownedItem (db : Database) (requestId : RequestId) (itemId : ItemId)
    (lawyerId : LawyerId) : Option RequestedItem :=
  db.requestedItem.find? fun item => item.id == itemId && item.requestId == requestId &&
    db.depositRequest.any fun r => r.id == item.requestId && r.lawyerId == lawyerId

def streamFile (getObjectStream : StorageKey → Except Failure Bytes) (db : Database)
    (requestId : RequestId) (itemId : ItemId) (lawyerId : LawyerId) :
    Except Failure DownloadableFile :=
  match db.ownedItem requestId itemId lawyerId with
  | none => .error requestNotFound
  | some item =>
    match db.fileOf item.id with
    | none => .error fileNotAvailable
    | some file =>
      if file.status ≠ .complete then .error fileNotAvailable
      else (getObjectStream file.storageKey).map fun stream =>
        ⟨stream, file.mimeType, file.originalName⟩

/-! ## `LAST_LINK` -/

instance : Std.TransCmp revokedAtDesc where
  eq_swap {a b} := by
    cases a with
    | none => cases b <;> rfl
    | some x => cases b with
      | none => rfl
      | some y => exact Std.OrientedOrd.eq_swap
  isLE_trans {a b c} hab hbc := by
    cases a with
    | none => cases c <;> rfl
    | some x => cases b with
      | none => cases hab
      | some y => cases c with
        | none => cases hbc
        | some z => exact Std.TransOrd.isLE_trans hbc hab

instance : Std.TransCmp LAST_LINK :=
  have : Std.TransCmp fun a b : PublicLink => revokedAtDesc a.revokedAt b.revokedAt :=
    transCmp_on revokedAtDesc PublicLink.revokedAt
  have : Std.TransCmp fun a b : PublicLink => compare b.createdAt a.createdAt :=
    transCmp_on (fun x y : Int => compare y x) PublicLink.createdAt
  inferInstanceAs (Std.TransCmp (compareLex _ _))

/-- The link `LAST_LINK` selects comes before the other links of the request. -/
theorem lastLink_eq (plan : Plan) {link : PublicLink} (hl : link ∈ db.publicLink) :
    ∃ last ∈ db.publicLink, db.lastLink plan link.requestId = [linkRow last] ∧
      last.requestId = link.requestId ∧ ∀ other ∈ db.publicLink,
        other.requestId = link.requestId → (LAST_LINK last other).isLE = true := by
  obtain ⟨last, hh, hm, hp⟩ := exists_first LAST_LINK
    (p := fun l : PublicLink => l.requestId == link.requestId) plan.links hl (by simp)
  refine ⟨last, hm, ?_, by simpa using hp, fun other ho hr => first_isLE hh ho (by simpa using hr)⟩
  obtain ⟨rest, e⟩ := List.head?_eq_some_iff.1 hh
  rw [Database.lastLink, e]
  rfl

end DepositPortal.Requests
