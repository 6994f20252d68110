import DepositPortal.Auth.Renewal
import DepositPortal.Public.Session

/-!
# The tables of the portal

The state the services share, and what a step of one of them draws from its environment. A service
that was modelled alone keeps its own state: `State.deposits` is what `DepositsService` works on,
`State.links` what `PublicLinksService` works on, and `State.database` what the reads see.
-/
namespace DepositPortal.Portal
open ReadCommitted
open Requests (RequestedItem Database)
open RefreshToken (Lawyer)
open PublicLinks (DepositRequest PublicLink)
open Deposits (Bytes RequestId ItemId StorageKey UploadedFile Bucket Metric Deposit)

structure State where
  lawyer : List Lawyer
  /-- `DepositRequest` and `PublicLink`. -/
  links : PublicLinks.State
  requestedItem : List RequestedItem
  uploadedFile : List UploadedFile
  bucket : Bucket
  metrics : List Metric
  /-- As in `Deposits.State`. -/
  written : List (StorageKey × Deposit)
  drawn : List StorageKey

/-- What `DepositsService` works on. -/
def State.deposits (s : State) : Deposits.State :=
  ⟨s.requestedItem.map RequestedItem.ids, s.uploadedFile, s.bucket, s.metrics, s.written, s.drawn⟩

/-- The state after a deposit made one of its calls: it never writes to `RequestedItem`. -/
def State.withDeposits (s : State) (d : Deposits.State) : State :=
  { s with
    uploadedFile := d.uploadedFile, bucket := d.bucket, metrics := d.metrics,
    written := d.written, drawn := d.drawn }

/-- What is committed. -/
def State.database (s : State) : Database :=
  ⟨s.links.depositRequest, s.links.links, s.requestedItem, s.uploadedFile⟩

/-- Nothing created yet. -/
def State.empty : State := ⟨[], ⟨[], [], 0⟩, [], [], ∅, [], [], []⟩

/-- What one step is given: the clock, the random draws, the fresh ids, the row an unordered query
picks and whether the awaited call fails. -/
structure Choice where
  now : Int
  random : Bytes
  pin : Fin (10 ^ PublicLinks.PIN_DIGITS)
  salt : Bytes
  uuid : JsString
  requestId : RequestId
  itemIds : List ItemId
  pick : Nat
  fault : Option PublicLinks.Fault

def Choice.links (k : Choice) : PublicLinks.Choice :=
  ⟨k.now, k.random, k.pin, k.salt, k.uuid, k.fault⟩

def Choice.deposits (k : Choice) : Deposits.Choice :=
  ⟨k.now, k.random, k.fault.map fun
    | .uniqueViolation => .uniqueViolation
    | .other => .other []⟩

/-- What the services are built from: `normalize('NFKD')` and class-validator's `IsUUID` besides. -/
structure Config extends Public.Service where
  jwt : Public.Jwt
  normalizeNFKD : JsString → JsString
  isUUID : JsString → Bool

/-- The primary keys after rows were added. -/
def PrimaryKeys (s : State) (request : List DepositRequest) (items : List RequestedItem) : Prop :=
  ((s.links.depositRequest ++ request).map DepositRequest.id).Nodup ∧
    ((s.requestedItem ++ items).map RequestedItem.id).Nodup

instance (s : State) (request : List DepositRequest) (items : List RequestedItem) :
    Decidable (PrimaryKeys s request items) :=
  inferInstanceAs (Decidable (_ ∧ _))

/-- The rows a nested write adds besides the link. -/
def State.add (s : State) (request : List DepositRequest) (items : List RequestedItem) : State :=
  { s with
    links := { s.links with depositRequest := s.links.depositRequest ++ request }
    requestedItem := s.requestedItem ++ items }

/-- The rows of `items: { create: labels.map((label, position) => …) }`. -/
def itemRows (requestId : RequestId) (ids : List ItemId) (labels : List (JsString × Nat)) :
    List RequestedItem :=
  (ids.zip labels).map fun (id, label, position) => ⟨id, label, position, requestId⟩

@[simp] theorem withDeposits_links (s : State) (d : Deposits.State) :
    (s.withDeposits d).links = s.links := rfl

@[simp] theorem withDeposits_requestedItem (s : State) (d : Deposits.State) :
    (s.withDeposits d).requestedItem = s.requestedItem := rfl

@[simp] theorem withDeposits_uploadedFile (s : State) (d : Deposits.State) :
    (s.withDeposits d).uploadedFile = d.uploadedFile := rfl

theorem requestId_of_mem_itemRows {requestId : RequestId} {ids : List ItemId}
    {labels : List (JsString × Nat)} {item : RequestedItem}
    (h : item ∈ itemRows requestId ids labels) : item.requestId = requestId := by
  obtain ⟨⟨id, label, position⟩, -, rfl⟩ := List.mem_map.1 h
  rfl

theorem ids_itemRows (requestId : RequestId) (ids : List ItemId) (labels : List (JsString × Nat)) :
    ((itemRows requestId ids labels).map RequestedItem.id).Sublist ids := by
  induction ids generalizing labels with
  | nil => simp [itemRows]
  | cons id ids ih =>
    cases labels with
    | nil => simp [itemRows]
    | cons label labels => exact (ih labels).cons_cons id

end DepositPortal.Portal
