import DepositPortal.Public.Completion

/-!
# What one step of a deposit writes

A deposit writes at most one row, the row of its item, and one object at a time: it stores the key it
drew, and erases that key or the one the row named before. Every other row and every other object is
as it was.
-/
namespace DepositPortal.Deposits
open Interleave

variable {n : JsString → JsString} {k : Choice} {s s' : State} {f f' : Call}

theorem forget_requestedItem (key : StorageKey) (fault : Option Fault) :
    (s.forget key fault).requestedItem = s.requestedItem := by
  rcases forget_cases s key fault with h | h <;> rw [h]

theorem countIfCompleted_requestedItem (r : RequestId) (fault : Option Fault) :
    (s.countIfCompleted r fault).requestedItem = s.requestedItem := by
  unfold State.countIfCompleted
  split <;> rfl

/-- After its upsert a deposit has only counted what it did. -/
theorem afterRecord_state (d : Deposit) (key : StorageKey) (prev : Option StorageKey)
    (view : DepositedFileView) : ∃ metrics, (afterRecord s d key prev view).1 =
      { s with metrics := metrics } := by
  unfold afterRecord
  split
  · exact ⟨s.metrics, rfl⟩
  · split
    · exact ⟨_, rfl⟩
    · exact ⟨s.metrics, rfl⟩

theorem Step.items (hs : Step n k s f s' f') : s'.requestedItem = s.requestedItem := by
  cases hs with
  | upserted d key prev m =>
    obtain ⟨metrics, e⟩ := afterRecord_state (s := s.wrote d key m k.now) d key prev
      (viewOf d (rowOf d key m k.now))
    rw [e]
    exact upsert_requestedItem
  | forgotOwn d key error => exact forget_requestedItem key k.fault
  | counted d view => exact countIfCompleted_requestedItem d.requestId k.fault
  | forgotPrevious d prev view => exact forget_requestedItem prev k.fault
  | _ => rfl

/-- Only the upsert of a deposit changes the rows, -/
theorem Step.files (hs : Step n k s f s' f') : s'.uploadedFile = s.uploadedFile ∨
    ∃ d key prev m, f = .upsert d key prev m ∧ k.fault = none ∧
      s'.uploadedFile = (s.upsert (rowOf d key m k.now)).uploadedFile := by
  cases hs with
  | upserted d key prev m hf =>
    obtain ⟨metrics, e⟩ := afterRecord_state (s := s.wrote d key m k.now) d key prev
      (viewOf d (rowOf d key m k.now))
    exact .inr ⟨d, key, prev, m, rfl, hf, by rw [e]; rfl⟩
  | forgotOwn d key error => exact .inl (forget_uploadedFile key k.fault)
  | counted d view => exact .inl (countIfCompleted_uploadedFile d.requestId k.fault)
  | forgotPrevious d prev view => exact .inl (forget_uploadedFile prev k.fault)
  | _ => exact .inl rfl

/-- The key of the object the next step of the call may store or erase. -/
def touches : Call → Option StorageKey
  | .put _ key _ _ | .forgetOwn _ key _ | .forgetPrevious _ key _ => some key
  | _ => none

/-- and no step stores or erases an object but that of the key it touches. -/
theorem Step.objects (hs : Step n k s f s' f') : s'.bucket = s.bucket ∨
    ∃ key, touches f = some key ∧
      ((∃ object, s'.bucket = s.bucket.insert key object) ∨ s'.bucket = s.bucket.erase key) := by
  cases hs with
  | stored d key prev m => exact .inr ⟨key, rfl, .inl ⟨_, rfl⟩⟩
  | upserted d key prev m =>
    obtain ⟨metrics, e⟩ := afterRecord_state (s := s.wrote d key m k.now) d key prev
      (viewOf d (rowOf d key m k.now))
    exact .inl (by rw [e]; exact upsert_bucket)
  | forgotOwn d key error =>
    rcases forget_cases s key k.fault with h | h
    · exact .inl (by rw [h]; rfl)
    · exact .inr ⟨key, rfl, .inr (by rw [h]; rfl)⟩
  | counted d view => exact .inl (countIfCompleted_bucket d.requestId k.fault)
  | forgotPrevious d prev view =>
    rcases forget_cases s prev k.fault with h | h
    · exact .inl (by rw [h]; rfl)
    · exact .inr ⟨prev, rfl, .inr (by rw [h]; rfl)⟩
  | _ => exact .inl rfl

end DepositPortal.Deposits
