import DepositPortal.Public.NoLoss

/-!
# A deposit that fails

Alone, a deposit makes at most four calls before it throws: `findFirst`, `putObject`, the upsert, and the
`deleteObject` that takes back what was stored when the upsert failed. A failed `putObject` stores nothing,
so whatever fails, the only thing that can be left is the object of the new key, and only if that last call
fails too.
-/
namespace DepositPortal.Deposits
open Interleave

variable {n : JsString → JsString} {k : Choice} {ks : List Choice} {s s' : State} {d : Deposit}
  {error : Failure}

/-- How the `i`-th call of a deposit failed: 0 is `findFirst`, 1 `putObject`, 2 the upsert, 3 the
clean-up. -/
def faultAt (ks : List Choice) (i : Nat) : Option Fault := ks[i]?.bind Choice.fault

/-- The item is there, and the bytes are of no type that is taken. -/
def Refused (s : State) (d : Deposit) (ks : List Choice) : Prop :=
  faultAt ks 0 = none ∧ s.findItem d.itemId d.requestId ≠ none ∧ detectFileType d.file.buffer = none

instance : Decidable (Refused s d ks) := inferInstanceAs (Decidable (_ ∧ _ ∧ _))

/-- The error of the call that failed, or of the check; that of the clean-up is never seen. -/
def errorOf (s : State) (d : Deposit) (ks : List Choice) : Option Failure :=
  match faultAt ks 0, s.findItem d.itemId d.requestId, detectFileType d.file.buffer, faultAt ks 1 with
  | some fault, _, _, _ => some (.other fault)
  | none, none, _, _ => some (.NotFoundException ITEM_NOT_FOUND)
  | none, some _, none, _ => some (.UnsupportedMediaTypeException FILE_TYPE_REJECTED)
  | none, some _, some _, some fault => some (.other fault)
  | none, some _, some _, none => (faultAt ks 2).map upsertFailure

/-- The key the deposit draws. -/
def newKey (n : JsString → JsString) (d : Deposit) (ks : List Choice) : StorageKey :=
  buildStorageKey n (ks.head?.elim [] Choice.random) d.requestId d.itemId d.file.originalName

/-- What a deposit that failed leaves behind. -/
structure NoTrace (n : JsString → JsString) (d : Deposit) (ks : List Choice) (error : Failure)
    (s s' : State) : Prop where
  items : s'.requestedItem = s.requestedItem
  files : s'.uploadedFile = s.uploadedFile
  objects : ∀ key object, s.bucket.lookup key = some object → s'.bucket.lookup key = some object
  cleaned : faultAt ks 3 = none → s'.bucket = s.bucket
  left : s'.bucket = s.bucket ∨
    newKey n d ks ∉ s.bucket ∧ ∃ object, s'.bucket = s.bucket.insert (newKey n d ks) object
  thrown : errorOf s d ks = some error
  raced : (∃ message, error = .ConflictException message) ↔ faultAt ks 2 = some .uniqueViolation
  counted : s'.metrics = s.metrics ++ [if Refused s d ks then .rejected_type else .error]

/-! ## The calls, one by one -/

theorem alone_done {answer : Except Failure DepositedFileView} {f' : Call}
    (h : (machine n).alone ks s (.done d answer) = some (s', f')) :
    ks = [] ∧ s' = s ∧ f' = .done d answer := by
  cases ks with
  | nil => cases h; exact ⟨rfl, rfl, rfl⟩
  | cons k ks => cases h

/-- Nothing fails after the row is written. -/
theorem alone_written {key : StorageKey} {prev : Option StorageKey} {view : DepositedFileView} :
    (machine n).alone ks (afterRecord s d key prev view).1 (afterRecord s d key prev view).2 ≠
      some (s', .done d (.error error)) := by
  intro h
  unfold afterRecord at h
  split at h
  · cases ks with
    | nil => cases h
    | cons k ks => cases (alone_done h).2.2
  · split at h
    · cases (alone_done h).2.2
    · cases ks with
      | nil => cases h
      | cons k ks => cases (alone_done h).2.2

theorem alone_upsert {key : StorageKey} {prev : Option StorageKey} {m : JsString}
    (h : (machine n).alone ks s (.upsert d key prev m) = some (s', .done d (.error error))) :
    ∃ k k' fault, ks = [k, k'] ∧ k.fault = some fault ∧ error = upsertFailure fault ∧
      s' = (s.forget key k'.fault).record .error := by
  cases ks with
  | nil => cases h
  | cons k ks =>
    simp only [Machine.alone, machine, exec] at h
    cases hf : k.fault with
    | none => rw [hf] at h; exact absurd h alone_written
    | some fault =>
      rw [hf] at h
      cases ks with
      | nil => cases h
      | cons k' ks =>
        obtain ⟨rfl, rfl, e⟩ := alone_done h
        cases e
        refine ⟨k, k', fault, rfl, hf, rfl, ?_⟩
        cases fault <;> rfl

theorem alone_put {key : StorageKey} {prev : Option StorageKey} {m : JsString}
    (h : (machine n).alone ks s (.put d key prev m) = some (s', .done d (.error error))) :
    (∃ k fault, ks = [k] ∧ k.fault = some fault ∧ error = .other fault ∧ s' = s.record .error) ∨
    ∃ k k' k'' fault object, ks = [k, k', k''] ∧ k.fault = none ∧ k'.fault = some fault ∧
      error = upsertFailure fault ∧
      s' = ((s.putObject key object).forget key k''.fault).record .error := by
  cases ks with
  | nil => cases h
  | cons k ks =>
    simp only [Machine.alone, machine, exec] at h
    cases hf : k.fault with
    | some fault =>
      rw [hf] at h
      obtain ⟨rfl, rfl, e⟩ := alone_done h
      cases e
      exact .inl ⟨k, fault, rfl, hf, rfl, rfl⟩
    | none =>
      rw [hf] at h
      obtain ⟨k', k'', fault, rfl, hf', he, hs⟩ := alone_upsert h
      exact .inr ⟨k, k', k'', fault, _, rfl, hf, hf', he, hs⟩

/-! ## What is left -/

theorem erase_insert {bucket : Bucket} {key : StorageKey} {object : Object} (h : key ∉ bucket) :
    (bucket.insert key object).erase key = bucket := by
  refine AList.ext ?_
  change (bucket.insert key object).entries.kerase key = bucket.entries
  rw [AList.entries_insert_of_notMem h]
  exact List.kerase_cons_eq rfl

/-- Before anything was stored, only the counter has moved. -/
theorem NoTrace.unstored {t : State} {metric : Metric} (hitems : t.requestedItem = s.requestedItem)
    (hfiles : t.uploadedFile = s.uploadedFile) (hbucket : t.bucket = s.bucket)
    (hmetrics : t.metrics = s.metrics) (hthrown : errorOf s d ks = some error)
    (hraced : (∃ message, error = .ConflictException message) ↔
      faultAt ks 2 = some .uniqueViolation)
    (hmetric : metric = if Refused s d ks then .rejected_type else .error) :
    NoTrace n d ks error s (t.record metric) where
  items := hitems
  files := hfiles
  objects key object h := by rw [State.record, hbucket]; exact h
  cleaned _ := hbucket
  left := .inl hbucket
  thrown := hthrown
  raced := hraced
  counted := by rw [State.record, hmetrics, hmetric]

/-- After the object was stored, the clean-up takes it back or fails. -/
theorem NoTrace.stored {drawn : List StorageKey} {object : Object} {fault : Option Fault}
    (hnew : newKey n d ks ∉ s.bucket) (hfault : faultAt ks 3 = fault)
    (hthrown : errorOf s d ks = some error)
    (hraced : (∃ message, error = .ConflictException message) ↔
      faultAt ks 2 = some .uniqueViolation)
    (hmetric : ¬ Refused s d ks) :
    NoTrace n d ks error s
      (((State.putObject { s with drawn := drawn } (newKey n d ks) object).forget (newKey n d ks)
        fault).record .error) := by
  have hkey : (newKey n d ks).isEmpty = false := by
    simp [newKey, buildStorageKey, itemPrefix, js]
  cases fault with
  | none =>
    have hbucket : ((State.putObject { s with drawn := drawn } (newKey n d ks) object).forget
        (newKey n d ks) none).bucket = s.bucket := by
      simp [State.forget, hkey, State.putObject, erase_insert hnew]
    refine .unstored ?_ ?_ hbucket ?_ hthrown hraced (if_neg hmetric).symm
    all_goals simp [State.forget, hkey, State.putObject]
  | some fault =>
    have hforget : (State.putObject { s with drawn := drawn } (newKey n d ks) object).forget
        (newKey n d ks) (some fault) =
          State.putObject { s with drawn := drawn } (newKey n d ks) object := by
      simp [State.forget]
    rw [hforget]
    refine ⟨rfl, rfl, fun key object' hl => ?_, fun hnone => ?_, .inr ⟨hnew, object, rfl⟩, hthrown,
      hraced, by rw [if_neg hmetric]; rfl⟩
    · have hne : key ≠ newKey n d ks := by
        rintro rfl
        exact hnew (AList.lookup_isSome.1 (by rw [hl]; rfl))
      show (s.bucket.insert (newKey n d ks) object).lookup key = some object'
      rw [AList.lookup_insert_ne hne, hl]
    · rw [hfault] at hnone; cases hnone

/-- **A failed deposit leaves no trace.** For every database and bucket (whose keys were drawn before),
every item and every file: when a deposit that runs alone throws, all rows and all objects are as they
were, and so is the bucket unless the clean-up failed too, which leaves the one new key; the error is that
of the call that failed, a unique violation apart, which is a conflict; and one failure is counted. -/
theorem failed_deposit_leaves_no_trace (n : JsString → JsString) (ks : List Choice) (s s' : State)
    (d : Deposit) (error : Failure) (hdrawn : ∀ key ∈ s.bucket, key ∈ s.drawn)
    (h : (machine n).alone ks s (.deposit d) = some (s', .done d (.error error))) :
    NoTrace n d ks error s s' := by
  cases ks with
  | nil => cases h
  | cons k ks =>
    simp only [Machine.alone, machine, exec] at h
    cases hf : k.fault with
    | some fault =>
      rw [hf] at h
      obtain ⟨rfl, rfl, e⟩ := alone_done h
      cases e
      refine .unstored rfl rfl rfl rfl ?_ ?_ ?_
      · simp [errorOf, faultAt, hf]
      · simp [faultAt]
      · simp [Refused, faultAt, hf, metricOf]
    | none =>
      cases hi : s.findItem d.itemId d.requestId with
      | none =>
        rw [hf, hi] at h
        obtain ⟨rfl, rfl, e⟩ := alone_done h
        cases e
        refine .unstored rfl rfl rfl rfl ?_ ?_ ?_
        · simp [errorOf, faultAt, hf, hi]
        · simp [faultAt]
        · simp [Refused, hi, metricOf]
      | some item =>
        rw [hf, hi] at h
        cases hm : detectFileType d.file.buffer with
        | none =>
          simp only [accept, hm] at h
          obtain ⟨rfl, rfl, e⟩ := alone_done h
          cases e
          refine .unstored rfl rfl rfl rfl ?_ ?_ ?_
          · simp [errorOf, faultAt, hf, hi, hm]
          · simp [faultAt]
          · simp [Refused, faultAt, hf, hi, hm, metricOf]
        | some m =>
          simp only [accept, hm, allowed_of_detect hm, if_true] at h
          obtain ⟨⟨s₁, f₁⟩, he, h⟩ := Option.bind_eq_some_iff.1 h
          simp only [Option.ite_none_left_eq_some, List.contains_iff_mem, Option.some.injEq,
            Prod.mk.injEq] at he
          obtain ⟨hfresh, rfl, rfl⟩ := he
          obtain ⟨k₁, fault, rfl, hf₁, rfl, rfl⟩ | ⟨k₁, k₂, k₃, fault, object, rfl, hf₁, hf₂, rfl, rfl⟩ :=
            alone_put h
          · refine .unstored rfl rfl rfl rfl ?_ ?_ ?_
            · simp [errorOf, faultAt, hf, hi, hm, hf₁]
            · simp [faultAt]
            · simp [Refused, hm]
          · refine .stored (fun hb => hfresh (hdrawn _ hb)) rfl ?_ ?_ ?_
            · cases fault <;> simp [errorOf, faultAt, hf, hi, hm, hf₁, hf₂, upsertFailure]
            · cases fault <;> simp [faultAt, hf₂, upsertFailure]
            · simp [Refused, hm]

/-! ### A replacement that lost a race -/

/-- The passport has a file already. -/
def onePassport : State :=
  { empty with
    uploadedFile := [rowOf (pdfFor "passport" 1) (newKey id (pdfFor "passport" 1) [⟨0, [1], none⟩])
      (js "application/pdf") 0]
    bucket := (∅ : Bucket).insert (newKey id (pdfFor "passport" 1) [⟨0, [1], none⟩])
      ⟨[0x25, 0x50, 0x44, 0x46, 0x2d, 1], js "application/pdf"⟩
    drawn := [newKey id (pdfFor "passport" 1) [⟨0, [1], none⟩]] }

/-- The upsert meets a unique violation and the clean-up is cut off. -/
def raced : List Choice :=
  [⟨1, [2], none⟩, ⟨2, [], none⟩, ⟨3, [], some .uniqueViolation⟩,
    ⟨4, [], some (.other (js "socket hang up"))⟩]

theorem onePassport_drawn : ∀ key ∈ onePassport.bucket, key ∈ onePassport.drawn := by
  intro key hk
  rcases (AList.mem_insert _).1 hk with rfl | hk
  · exact List.mem_singleton_self _
  · exact absurd hk (AList.notMem_empty _)

theorem failed_deposit_leaves_no_trace_raced :
    ∃ s', (machine id).alone raced onePassport (.deposit (pdfFor "passport" 2)) =
        some (s', .done (pdfFor "passport" 2) (.error (.ConflictException DEPOSIT_RACED))) ∧
      NoTrace id (pdfFor "passport" 2) raced (.ConflictException DEPOSIT_RACED) onePassport s' := by
  have hrun : (machine id).alone raced onePassport (.deposit (pdfFor "passport" 2)) = some
      ((State.putObject { onePassport with drawn := newKey id (pdfFor "passport" 2) raced :: onePassport.drawn }
        (newKey id (pdfFor "passport" 2) raced)
        ⟨(pdfFor "passport" 2).file.buffer, js "application/pdf"⟩).record .error,
        .done (pdfFor "passport" 2) (.error (.ConflictException DEPOSIT_RACED))) := by
    rfl
  exact ⟨_, hrun, failed_deposit_leaves_no_trace id raced onePassport _ _ _
    onePassport_drawn hrun⟩

end DepositPortal.Deposits
