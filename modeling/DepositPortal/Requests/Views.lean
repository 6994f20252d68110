import DepositPortal.Public.Deposits
import DepositPortal.Requests.PublicLinks

/-!
# A request as the lawyer sees it

| here | there |
| --- | --- |
| `RequestStatus`, `deriveStatus`     | `requests/request-status.ts:7`, `:35` |
| `isReceived`, `countReceived`       | `requests/request.types.ts:28`, `:193` |
| `toCreatedRequest`                  | `:71` |
| `toLinkView`                        | `:180`, which throws on a request without a link |
| `toRequestSummary`                  | `:197` |
| `toRequestDetail`                   | `:229` |

A `…Row` holds the columns a query selects, a `…View` what is answered. `RequestedItem` is the whole
row; a deposit only reads its ids (`RequestedItem.ids`).
-/
namespace DepositPortal.Requests
open PublicLinks (DepositRequest IssuedLink isExpired)
open Deposits (RequestId ItemId UploadStatus)

structure RequestedItem where
  id : ItemId
  label : JsString
  position : Nat
  requestId : RequestId
  deriving DecidableEq, Repr

/-- The columns `DepositsService` reads. -/
def RequestedItem.ids (item : RequestedItem) : Deposits.RequestedItem := ⟨item.id, item.requestId⟩

inductive Failure where
  | of (failure : PublicLinks.Failure)
  | Error (message : JsString)
  deriving DecidableEq, Repr

/-- `requestNotFound` (`requests/request-ownership.ts:11`). -/
def requestNotFound : Failure := .of PublicLinks.requestNotFound

/-- `fileNotAvailable` (`requests/requests.service.ts:54`). -/
def fileNotAvailable : Failure :=
  .of (.NotFoundException (js "Aucun fichier n'est disponible pour cette pièce."))

/-! ## The status -/

inductive RequestStatus where
  | Pending | Complete | Expired
  deriving DecidableEq, Repr

structure StatusInput where
  expiresAt : Int
  expectedCount : Nat
  receivedCount : Nat

def deriveStatus (input : StatusInput) (now : Int) : RequestStatus :=
  if input.expectedCount > 0 && input.receivedCount ≥ input.expectedCount then .Complete
  else if isExpired input.expiresAt now then .Expired
  else .Pending

theorem deriveStatus_complete {input : StatusInput} {now : Int} :
    deriveStatus input now = .Complete ↔
      0 < input.expectedCount ∧ input.expectedCount ≤ input.receivedCount := by
  unfold deriveStatus
  split
  · next h => simpa using h
  · next h => split <;> simpa using h

theorem deriveStatus_expired {input : StatusInput} {now : Int}
    (h : deriveStatus input now = .Expired) : isExpired input.expiresAt now = true := by
  unfold deriveStatus at h
  split at h
  · cases h
  · split at h
    · assumption
    · cases h

theorem deriveStatus_pending {input : StatusInput} {now : Int}
    (h : deriveStatus input now = .Pending) : isExpired input.expiresAt now = false := by
  unfold deriveStatus at h
  split at h
  · cases h
  · split at h
    · cases h
    · next hx => simpa using hx

/-- The rule of "received": the status of the file, if there is one. -/
def isReceived (file : Option UploadStatus) : Bool := file == some .complete

/-! ## The rows -/

/-- `{ expiresAt, revokedAt }` of `LAST_LINK`. -/
structure LinkRow where
  expiresAt : Int
  revokedAt : Option Int
  deriving DecidableEq, Repr

structure FileRow where
  originalName : JsString
  mimeType : JsString
  sizeBytes : Nat
  status : UploadStatus
  createdAt : Int
  deriving DecidableEq, Repr

structure SummaryRow where
  id : RequestId
  title : JsString
  createdAt : Int
  items : List (Option UploadStatus)
  links : List LinkRow

structure DetailItemRow where
  id : ItemId
  label : JsString
  file : Option FileRow

structure DetailRow where
  id : RequestId
  title : JsString
  createdAt : Int
  items : List DetailItemRow
  links : List LinkRow

/-- The status of the file of a line. -/
def DetailItemRow.status (item : DetailItemRow) : Option UploadStatus := item.file.map FileRow.status

/-- A `DetailRow` taken as a `SummaryRow`. -/
def DetailRow.summary (row : DetailRow) : SummaryRow :=
  ⟨row.id, row.title, row.createdAt, row.items.map DetailItemRow.status, row.links⟩

/-! ## The views -/

structure RequestedItemView where
  id : ItemId
  label : JsString
  received : Bool
  deriving DecidableEq, Repr

structure CreatedRequestView where
  id : RequestId
  title : JsString
  createdAt : Int
  status : RequestStatus
  items : List RequestedItemView
  link : IssuedLink
  deriving DecidableEq, Repr

inductive LinkState where
  | active | revoked
  deriving DecidableEq, Repr

structure LinkView where
  state : LinkState
  expiresAt : Int
  deriving DecidableEq, Repr

structure ReceivedFileView where
  originalName : JsString
  mimeType : JsString
  sizeBytes : Nat
  receivedAt : Int
  deriving DecidableEq, Repr

structure DetailedItemView where
  id : ItemId
  label : JsString
  received : Bool
  file : Option ReceivedFileView
  deriving DecidableEq, Repr

structure RequestSummaryView where
  id : RequestId
  title : JsString
  createdAt : Int
  status : RequestStatus
  expectedCount : Nat
  receivedCount : Nat
  link : LinkView
  deriving DecidableEq, Repr

structure RequestDetailView extends RequestSummaryView where
  items : List DetailedItemView
  deriving DecidableEq, Repr

/-! ## The projections -/

/-- No file is joined at a creation. -/
def toItemView (item : RequestedItem) : RequestedItemView := ⟨item.id, item.label, isReceived none⟩

def toCreatedRequest (request : DepositRequest) (items : List RequestedItem) (link : IssuedLink)
    (now : Int) : CreatedRequestView where
  id := request.id
  title := request.title
  createdAt := request.createdAt
  status := deriveStatus ⟨link.expiresAt, items.length,
    (items.filter fun _ => isReceived none).length⟩ now
  items := items.map toItemView
  link := link

def toLinkView (links : List LinkRow) (requestId : RequestId) : Except Failure LinkView :=
  match links.head? with
  | none => .error (.Error (js "Request " ++ requestId ++ js " has no public link."))
  | some latest =>
    .ok ⟨if latest.revokedAt.isNone then .active else .revoked, latest.expiresAt⟩

def countReceived (items : List (Option UploadStatus)) : Nat := (items.filter isReceived).length

def toRequestSummary (row : SummaryRow) (now : Int) : Except Failure RequestSummaryView := do
  let link ← toLinkView row.links row.id
  let expectedCount := row.items.length
  let receivedCount := countReceived row.items
  return ⟨row.id, row.title, row.createdAt,
    deriveStatus ⟨link.expiresAt, expectedCount, receivedCount⟩ now, expectedCount, receivedCount,
    link⟩

def toReceivedFile (file : FileRow) : ReceivedFileView :=
  ⟨file.originalName, file.mimeType, file.sizeBytes, file.createdAt⟩

def toRequestDetail (row : DetailRow) (now : Int) : Except Failure RequestDetailView := do
  let summary ← toRequestSummary row.summary now
  return ⟨summary, row.items.map fun item =>
    ⟨item.id, item.label, isReceived item.status, item.file.map toReceivedFile⟩⟩

/-! ## What the projections keep -/

/-- A summary shows the first link of its row, and throws only without one. -/
theorem toRequestSummary_eq (row : SummaryRow) (now : Int) :
    toRequestSummary row now = (toLinkView row.links row.id).map fun link =>
      ⟨row.id, row.title, row.createdAt,
        deriveStatus ⟨link.expiresAt, row.items.length, countReceived row.items⟩ now,
        row.items.length, countReceived row.items, link⟩ := by
  unfold toRequestSummary
  cases toLinkView row.links row.id <;> rfl

theorem toRequestDetail_eq (row : DetailRow) (now : Int) :
    toRequestDetail row now = (toRequestSummary row.summary now).map fun summary =>
      ⟨summary, row.items.map fun item =>
        ⟨item.id, item.label, isReceived item.status, item.file.map toReceivedFile⟩⟩ := by
  unfold toRequestDetail
  cases toRequestSummary row.summary now <;> rfl

theorem toLinkView_ok {links : List LinkRow} {requestId : RequestId} {link : LinkView}
    (h : toLinkView links requestId = .ok link) : ∃ latest, links.head? = some latest ∧
      link = ⟨if latest.revokedAt.isNone then .active else .revoked, latest.expiresAt⟩ := by
  unfold toLinkView at h
  split at h
  · cases h
  · next latest hl => exact ⟨latest, hl, (Except.ok.inj h).symm⟩

end DepositPortal.Requests
