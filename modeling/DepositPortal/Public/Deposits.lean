import DepositPortal.Interleave
import DepositPortal.Public.Upload
import Mathlib.Data.List.AList

/-!
# Deposits: `DepositsService` (public/deposits.service.ts)

Each deposit runs a chain of awaited calls on the database and the bucket, any of which may fail:

| here | there |
| --- | --- |
| `Call.deposit`        | `findFirst` (`:92`), the checks and the key drawn after it (`:96-108`) |
| `Call.put`            | `putObject` (`:111`) |
| `Call.upsert`         | `record` (`:168`), the upsert as one statement |
| `Call.forgetOwn`      | `forget(storageKey)` of a failed upsert (`:203`) |
| `Call.count`          | `countIfCompleted` (`:147`) |
| `Call.forgetPrevious` | `forget(previousKey)` (`:126`) |
| `Call.done`           | the answer, counted by `deposit` (`:58`) |

A failed `putObject` stores nothing and a failed upsert writes nothing. `written` and `drawn` are not
in the database: they record which deposit wrote which key, and the keys drawn so far.
-/
namespace DepositPortal.Deposits
open Interleave

structure RequestedItem where
  id : ItemId
  requestId : RequestId
  deriving DecidableEq, Repr

inductive UploadStatus where
  | pending | complete | failed
  deriving DecidableEq, Repr

structure UploadedFile where
  storageKey : StorageKey
  originalName : JsString
  mimeType : JsString
  sizeBytes : Nat
  status : UploadStatus
  createdAt : Int
  requestedItemId : ItemId
  deriving DecidableEq, Repr

structure Object where
  bytes : Bytes
  contentType : JsString
  deriving DecidableEq, Repr

abbrev Bucket := AList fun _ : StorageKey => Object

structure IncomingFile where
  originalName : JsString
  buffer : Bytes
  deriving DecidableEq, Repr

/-- The arguments of `deposit`. -/
structure Deposit where
  requestId : RequestId
  itemId : ItemId
  file : IncomingFile
  deriving DecidableEq, Repr

structure DepositedFileView where
  itemId : ItemId
  originalName : JsString
  mimeType : JsString
  sizeBytes : Nat
  receivedAt : Int
  deriving DecidableEq, Repr

/-- How a database or storage call fails. -/
inductive Fault where
  /-- Prisma's P2002 (`isUniqueViolation`). -/
  | uniqueViolation
  | other (error : JsString)
  deriving DecidableEq, Repr

/-- What `deposit` throws. -/
inductive Failure where
  | NotFoundException (message : JsString)
  | UnsupportedMediaTypeException (message : JsString)
  | ConflictException (message : JsString)
  /-- The error of a database or storage call, as it came. -/
  | other (fault : Fault)
  deriving DecidableEq, Repr

/-- `MetricsService.recordDeposit` and `recordRequestCompleted`. -/
inductive Metric where
  | success
  | rejected_type
  | error
  /-- `recordRequestCompleted`, made by a deposit on that request. -/
  | requestCompleted (requestId : RequestId)
  deriving DecidableEq, Repr

structure State where
  requestedItem : List RequestedItem
  uploadedFile : List UploadedFile
  bucket : Bucket
  metrics : List Metric
  /-- The keys upserted so far, each with its deposit. -/
  written : List (StorageKey × Deposit)
  /-- The keys drawn so far. -/
  drawn : List StorageKey

structure Choice where
  now : Int
  random : Bytes
  fault : Option Fault
  deriving DecidableEq, Repr

/-! ## The database and the bucket -/

/-- The `file` of an item. -/
def State.fileOf (s : State) (itemId : ItemId) : Option UploadedFile :=
  s.uploadedFile.find? fun row => row.requestedItemId == itemId

/-- `findFirst({ where: { id: itemId, requestId } })`. -/
def State.findItem (s : State) (itemId : ItemId) (requestId : RequestId) : Option RequestedItem :=
  s.requestedItem.find? fun item => item.id == itemId && item.requestId == requestId

/-- The upsert on `requestedItemId`: both branches write the same columns. -/
def State.upsert (s : State) (row : UploadedFile) : State :=
  if s.uploadedFile.any fun r => r.requestedItemId == row.requestedItemId then
    { s with uploadedFile := s.uploadedFile.map fun r =>
        if r.requestedItemId = row.requestedItemId then row else r }
  else { s with uploadedFile := s.uploadedFile ++ [row] }

def State.putObject (s : State) (key : StorageKey) (object : Object) : State :=
  { s with bucket := s.bucket.insert key object }

/-- `forget` (`:223`): `deleteObject` refuses an empty key, and a failure is swallowed. -/
def State.forget (s : State) (key : StorageKey) (fault : Option Fault) : State :=
  if key.isEmpty || fault.isSome then s else { s with bucket := s.bucket.erase key }

/-- The item has a file, and it is complete. -/
def State.received (s : State) (itemId : ItemId) : Bool :=
  s.uploadedFile.any fun row => row.requestedItemId == itemId && row.status == .complete

/-- `count({ where: { requestId, NOT: { file: { is: { status: 'complete' } } } } })`. -/
def State.stillMissing (s : State) (requestId : RequestId) : Nat :=
  s.requestedItem.countP fun item => item.requestId == requestId && !s.received item.id

def State.record (s : State) (metric : Metric) : State :=
  { s with metrics := s.metrics ++ [metric] }

def State.countIfCompleted (s : State) (requestId : RequestId) (fault : Option Fault) : State :=
  if fault.isNone && s.stillMissing requestId == 0 then s.record (.requestCompleted requestId)
  else s

/-! ## A deposit, step by step -/

inductive Call where
  | deposit (d : Deposit)
  | put (d : Deposit) (storageKey : StorageKey) (previousKey : Option StorageKey)
      (mimeType : JsString)
  | upsert (d : Deposit) (storageKey : StorageKey) (previousKey : Option StorageKey)
      (mimeType : JsString)
  | forgetOwn (d : Deposit) (storageKey : StorageKey) (error : Failure)
  | count (d : Deposit) (view : DepositedFileView)
  | forgetPrevious (d : Deposit) (previousKey : StorageKey) (view : DepositedFileView)
  | done (d : Deposit) (answer : Except Failure DepositedFileView)

/-- The metric of an answer (`:58-73`). -/
def metricOf : Except Failure DepositedFileView → Metric
  | .ok _ => .success
  | .error (.UnsupportedMediaTypeException _) => .rejected_type
  | .error _ => .error

def finish (s : State) (d : Deposit) (answer : Except Failure DepositedFileView) : State × Call :=
  (s.record (metricOf answer), .done d answer)

/-- The row `record` writes. -/
def rowOf (d : Deposit) (storageKey : StorageKey) (mimeType : JsString) (now : Int) :
    UploadedFile where
  storageKey := storageKey
  originalName := d.file.originalName
  mimeType := mimeType
  sizeBytes := d.file.buffer.length
  status := .complete
  createdAt := now
  requestedItemId := d.itemId

/-- What a successful upsert leaves. -/
def State.wrote (s : State) (d : Deposit) (storageKey : StorageKey) (mimeType : JsString)
    (now : Int) : State :=
  { s.upsert (rowOf d storageKey mimeType now) with written := (storageKey, d) :: s.written }

/-- What `store` returns, read back from the row. -/
def viewOf (d : Deposit) (row : UploadedFile) : DepositedFileView :=
  ⟨d.itemId, row.originalName, row.mimeType, row.sizeBytes, row.createdAt⟩

/-- The error of a failed upsert (`:206-213`). -/
def upsertFailure : Fault → Failure
  | .uniqueViolation => .ConflictException DEPOSIT_RACED
  | .other error => .other (.other error)

/-- After the item was found: the checks, and the key of the upload (`:96-109`). -/
def accept (normalizeNFKD : JsString → JsString) (k : Choice) (s : State) (d : Deposit) :
    Option (State × Call) :=
  match detectFileType d.file.buffer with
  | none => some (finish s d (.error (.UnsupportedMediaTypeException FILE_TYPE_REJECTED)))
  | some detected =>
    if isAllowedMimeType detected then
      let storageKey := buildStorageKey normalizeNFKD k.random d.requestId d.itemId
        d.file.originalName
      let previousKey := (s.fileOf d.itemId).map UploadedFile.storageKey
      -- `randomBytes` never repeats
      if s.drawn.contains storageKey then none
      else some ({ s with drawn := storageKey :: s.drawn }, .put d storageKey previousKey detected)
    else some (finish s d (.error (.UnsupportedMediaTypeException FILE_TYPE_REJECTED)))

/-- What follows a row that was written (`:118-136`). -/
def afterRecord (s : State) (d : Deposit) (storageKey : StorageKey)
    (previousKey : Option StorageKey) (view : DepositedFileView) : State × Call :=
  match previousKey with
  | none => (s, .count d view)
  | some previousKey =>
    if previousKey = storageKey then finish s d (.ok view) else (s, .forgetPrevious d previousKey view)

def exec (normalizeNFKD : JsString → JsString) (k : Choice) (s : State) :
    Call → Option (State × Call)
  | .deposit d =>
    match k.fault, s.findItem d.itemId d.requestId with
    | some fault, _ => some (finish s d (.error (.other fault)))
    | none, none => some (finish s d (.error (.NotFoundException ITEM_NOT_FOUND)))
    | none, some _ => accept normalizeNFKD k s d
  | .put d storageKey previousKey mimeType =>
    match k.fault with
    | some fault => some (finish s d (.error (.other fault)))
    | none => some (s.putObject storageKey ⟨d.file.buffer, mimeType⟩,
        .upsert d storageKey previousKey mimeType)
  | .upsert d storageKey previousKey mimeType =>
    match k.fault with
    | some fault => some (s, .forgetOwn d storageKey (upsertFailure fault))
    | none => some (afterRecord (s.wrote d storageKey mimeType k.now) d storageKey previousKey
        (viewOf d (rowOf d storageKey mimeType k.now)))
  | .forgetOwn d storageKey error => some (finish (s.forget storageKey k.fault) d (.error error))
  | .count d view => some (finish (s.countIfCompleted d.requestId k.fault) d (.ok view))
  | .forgetPrevious d previousKey view =>
    some (finish (s.forget previousKey k.fault) d (.ok view))
  | .done _ _ => none

def enters : Call → Bool
  | .deposit _ => true
  | _ => false

/-- Any number of deposits, interleaved call by call. -/
def machine (normalizeNFKD : JsString → JsString) : Machine State Call Choice :=
  ⟨enters, exec normalizeNFKD⟩

/-! ## What one step does -/

variable {n : JsString → JsString} {k : Choice} {s s' : State} {f f' : Call}

/-- Every step a call can make, with what it read. -/
inductive Step (n : JsString → JsString) (k : Choice) (s : State) : Call → State → Call → Prop
  | refused (d : Deposit) (error : Failure) :
      Step n k s (.deposit d) (s.record (metricOf (.error error))) (.done d (.error error))
  | accepted (d : Deposit) (storageKey : StorageKey) (mimeType : JsString) :
      s.findItem d.itemId d.requestId ≠ none → detectFileType d.file.buffer = some mimeType →
      storageKey = buildStorageKey n k.random d.requestId d.itemId d.file.originalName →
      storageKey ∉ s.drawn →
      Step n k s (.deposit d) { s with drawn := storageKey :: s.drawn }
        (.put d storageKey ((s.fileOf d.itemId).map UploadedFile.storageKey) mimeType)
  | putFailed (d : Deposit) (storageKey : StorageKey) (previousKey : Option StorageKey)
      (mimeType : JsString) (fault : Fault) : k.fault = some fault →
      Step n k s (.put d storageKey previousKey mimeType) (s.record .error)
        (.done d (.error (.other fault)))
  | stored (d : Deposit) (storageKey : StorageKey) (previousKey : Option StorageKey)
      (mimeType : JsString) :
      Step n k s (.put d storageKey previousKey mimeType)
        (s.putObject storageKey ⟨d.file.buffer, mimeType⟩) (.upsert d storageKey previousKey mimeType)
  | upsertFailed (d : Deposit) (storageKey : StorageKey) (previousKey : Option StorageKey)
      (mimeType : JsString) (fault : Fault) : k.fault = some fault →
      Step n k s (.upsert d storageKey previousKey mimeType) s
        (.forgetOwn d storageKey (upsertFailure fault))
  | upserted (d : Deposit) (storageKey : StorageKey) (previousKey : Option StorageKey)
      (mimeType : JsString) : k.fault = none →
      Step n k s (.upsert d storageKey previousKey mimeType)
        (afterRecord (s.wrote d storageKey mimeType k.now) d storageKey previousKey
          (viewOf d (rowOf d storageKey mimeType k.now))).1
        (afterRecord (s.wrote d storageKey mimeType k.now) d storageKey previousKey
          (viewOf d (rowOf d storageKey mimeType k.now))).2
  | forgotOwn (d : Deposit) (storageKey : StorageKey) (error : Failure) :
      Step n k s (.forgetOwn d storageKey error)
        ((s.forget storageKey k.fault).record (metricOf (.error error))) (.done d (.error error))
  | counted (d : Deposit) (view : DepositedFileView) :
      Step n k s (.count d view) ((s.countIfCompleted d.requestId k.fault).record .success)
        (.done d (.ok view))
  | forgotPrevious (d : Deposit) (previousKey : StorageKey) (view : DepositedFileView) :
      Step n k s (.forgetPrevious d previousKey view)
        ((s.forget previousKey k.fault).record .success) (.done d (.ok view))

/-- `exec`, inverted. -/
theorem step_of_exec (he : exec n k s f = some (s', f')) : Step n k s f s' f' := by
  cases f with
  | deposit d =>
    simp only [exec] at he
    split at he
    · cases he; exact .refused d _
    · cases he; exact .refused d _
    · next item _ hitem =>
      unfold accept at he
      split at he
      · cases he; exact .refused d _
      · next m hm =>
        simp only [allowed_of_detect hm, if_true, Option.ite_none_left_eq_some,
          List.contains_iff_mem, Option.some.injEq, Prod.mk.injEq] at he
        obtain ⟨hfresh, rfl, rfl⟩ := he
        exact .accepted d _ m (by simp [hitem]) hm rfl hfresh
  | put d key prev m =>
    simp only [exec] at he
    split at he
    · next fault hf => cases he; exact .putFailed d key prev m fault hf
    · cases he; exact .stored d key prev m
  | upsert d key prev m =>
    simp only [exec] at he
    split at he
    · next fault hf => cases he; exact .upsertFailed d key prev m fault hf
    · next hf =>
      simp only [Option.some.injEq] at he
      have hs := Step.upserted (n := n) (s := s) d key prev m hf
      rw [he] at hs
      exact hs
  | forgetOwn d key error => cases he; exact .forgotOwn d key error
  | count d view => cases he; exact .counted d view
  | forgetPrevious d prev view => cases he; exact .forgotPrevious d prev view
  | done d answer => cases he

end DepositPortal.Deposits
