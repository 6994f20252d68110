import DepositPortal.Public.Deposits

/-!
# No deposit loses a file

A deposit deletes a key it read before others replaced the row, or its own key when its upsert
failed. Neither can be the key of a row, then or later: a key is written by the one deposit that
drew it, at most once, and a deposit that reaches `forgetPrevious` has itself put another key in
the row its previous key came from (`Asserts`). Hence the row of an item always names an object
that is there, with the bytes of the deposit that wrote it (`deposits_keep_files`).
-/
namespace DepositPortal.Deposits
open Interleave

variable {n : JsString → JsString} {k : Choice} {s s' : State} {f f' e : Call}

/-! ## The upsert -/

section
variable {row r : UploadedFile}

@[simp] theorem upsert_bucket : (s.upsert row).bucket = s.bucket := by
  unfold State.upsert; split <;> rfl

@[simp] theorem upsert_drawn : (s.upsert row).drawn = s.drawn := by
  unfold State.upsert; split <;> rfl

@[simp] theorem upsert_requestedItem : (s.upsert row).requestedItem = s.requestedItem := by
  unfold State.upsert; split <;> rfl

@[simp] theorem upsert_metrics : (s.upsert row).metrics = s.metrics := by
  unfold State.upsert; split <;> rfl

/-- After an upsert the item has the new row, the others theirs. -/
theorem mem_upsert : r ∈ (s.upsert row).uploadedFile ↔
    r = row ∨ (r ∈ s.uploadedFile ∧ r.requestedItemId ≠ row.requestedItemId) := by
  unfold State.upsert
  split
  · next h =>
    obtain ⟨q, hq, hqi⟩ := List.any_eq_true.1 h
    rw [beq_iff_eq] at hqi
    simp only [List.mem_map]
    constructor
    · rintro ⟨x, hx, rfl⟩
      by_cases hi : x.requestedItemId = row.requestedItemId
      · simp [hi]
      · simp [hi, hx]
    · rintro (rfl | ⟨hr, hi⟩)
      · exact ⟨q, hq, if_pos hqi⟩
      · exact ⟨r, hr, if_neg hi⟩
  · next h =>
    have hno : ∀ x ∈ s.uploadedFile, x.requestedItemId ≠ row.requestedItemId := by
      intro x hx hi
      exact h (List.any_eq_true.2 ⟨x, hx, by simpa using hi⟩)
    simp only [List.mem_append, List.mem_singleton]
    constructor
    · rintro (hr | rfl)
      · exact Or.inr ⟨hr, hno r hr⟩
      · exact Or.inl rfl
    · rintro (rfl | ⟨hr, -⟩)
      · exact Or.inr rfl
      · exact Or.inl hr

/-- The unique index on `requestedItemId` holds. -/
theorem nodup_upsert (h : (s.uploadedFile.map UploadedFile.requestedItemId).Nodup) :
    ((s.upsert row).uploadedFile.map UploadedFile.requestedItemId).Nodup := by
  unfold State.upsert
  split
  · have hmap : (s.uploadedFile.map fun r =>
        if r.requestedItemId = row.requestedItemId then row else r).map
          UploadedFile.requestedItemId = s.uploadedFile.map UploadedFile.requestedItemId := by
      rw [List.map_map]
      refine List.map_congr_left fun r _ => ?_
      by_cases hi : r.requestedItemId = row.requestedItemId <;> simp [hi]
    rw [hmap]
    exact h
  · next hno =>
    rw [List.map_append, List.nodup_append]
    refine ⟨h, by simp, ?_⟩
    rintro a ha b hb rfl
    obtain ⟨r, hr, rfl⟩ := List.mem_map.1 ha
    have hi : r.requestedItemId = row.requestedItemId := by simpa using hb
    exact hno (List.any_eq_true.2 ⟨r, hr, by simpa using hi⟩)

end

/-! ## The invariant -/

/-- The key was never upserted. -/
def Unwritten (s : State) (key : StorageKey) : Prop := ∀ d, (key, d) ∉ s.written

/-- The key was upserted by a deposit on the item. -/
def WrittenFor (s : State) (itemId : ItemId) (key : StorageKey) : Prop :=
  ∃ d, (key, d) ∈ s.written ∧ d.itemId = itemId

/-- The row names an object of the bucket, and both are the work of one deposit. -/
structure Present (s : State) (row : UploadedFile) (d : Deposit) (object : Object) : Prop where
  written : (row.storageKey, d) ∈ s.written
  item : d.itemId = row.requestedItemId
  lookup : s.bucket.lookup row.storageKey = some object
  bytes : object.bytes = d.file.buffer
  size : row.sizeBytes = d.file.buffer.length
  type : detectFileType d.file.buffer = some row.mimeType

structure Kept (s : State) : Prop where
  one : (s.uploadedFile.map UploadedFile.requestedItemId).Nodup
  present : ∀ row ∈ s.uploadedFile, ∃ d object, Present s row d object
  once : ∀ key d d', (key, d) ∈ s.written → (key, d') ∈ s.written → d = d'
  drawn : ∀ key d, (key, d) ∈ s.written → key ∈ s.drawn

/-- What a deposit relies on between two of its calls. -/
def Asserts (s : State) : Call → Prop
  | .put d key previousKey mimeType => key ∈ s.drawn ∧ Unwritten s key ∧
      detectFileType d.file.buffer = some mimeType ∧ ∀ p ∈ previousKey, WrittenFor s d.itemId p
  | .upsert d key previousKey mimeType => key ∈ s.drawn ∧ Unwritten s key ∧
      detectFileType d.file.buffer = some mimeType ∧ (∀ p ∈ previousKey, WrittenFor s d.itemId p) ∧
      s.bucket.lookup key = some ⟨d.file.buffer, mimeType⟩
  | .forgetOwn _ key _ => key ∈ s.drawn ∧ Unwritten s key
  | .forgetPrevious d key _ => WrittenFor s d.itemId key ∧
      ∀ row ∈ s.uploadedFile, row.storageKey ≠ key
  | _ => True

/-- The key a deposit drew, while no row names it. -/
def ownKey : Call → Option StorageKey
  | .put _ key _ _ | .upsert _ key _ _ | .forgetOwn _ key _ => some key
  | _ => none

/-- Two deposits never hold the same key. -/
def OwnApart (f e : Call) : Prop := ∀ key, ownKey f = some key → ownKey e ≠ some key

theorem Kept.row_unique (h : Kept s) {a b : UploadedFile} (ha : a ∈ s.uploadedFile)
    (hb : b ∈ s.uploadedFile) (hi : a.requestedItemId = b.requestedItemId) : a = b :=
  List.inj_on_of_nodup_map h.one ha hb hi

theorem Kept.key_ne (h : Kept s) {key : StorageKey} (hk : Unwritten s key) {row : UploadedFile}
    (hr : row ∈ s.uploadedFile) : row.storageKey ≠ key := by
  obtain ⟨d, object, hp⟩ := h.present row hr
  rintro rfl
  exact hk d hp.written

theorem Asserts.own (h : Asserts s f) {key : StorageKey} (ho : ownKey f = some key) :
    key ∈ s.drawn ∧ Unwritten s key := by
  cases f <;> cases ho
  · exact ⟨h.1, h.2.1⟩
  · exact ⟨h.1, h.2.1⟩
  · exact h

/-! ## What each effect keeps -/

theorem Present.mono {row : UploadedFile} {d : Deposit} {object : Object}
    (h : Present s row d object) (hw : ∀ p ∈ s.written, p ∈ s'.written)
    (hl : s'.bucket.lookup row.storageKey = s.bucket.lookup row.storageKey) :
    Present s' row d object :=
  ⟨hw _ h.written, h.item, hl.trans h.lookup, h.bytes, h.size, h.type⟩

theorem Kept.record (h : Kept s) (m : Metric) : Kept (s.record m) where
  one := h.one
  present row hr := by
    obtain ⟨d, object, hp⟩ := h.present row hr
    exact ⟨d, object, hp.mono (fun _ hp => hp) rfl⟩
  once := h.once
  drawn := h.drawn

theorem Asserts.record (h : Asserts s f) (m : Metric) : Asserts (s.record m) f := by
  cases f <;> exact h

theorem Kept.draw (h : Kept s) (key : StorageKey) : Kept { s with drawn := key :: s.drawn } where
  one := h.one
  present row hr := by
    obtain ⟨d, object, hp⟩ := h.present row hr
    exact ⟨d, object, hp.mono (fun _ hp => hp) rfl⟩
  once := h.once
  drawn key d hw := List.mem_cons_of_mem _ (h.drawn key d hw)

theorem Asserts.draw (h : Asserts s f) (key : StorageKey) :
    Asserts { s with drawn := key :: s.drawn } f := by
  cases f with
  | put d own prev m => exact ⟨List.mem_cons_of_mem _ h.1, h.2⟩
  | upsert d own prev m => exact ⟨List.mem_cons_of_mem _ h.1, h.2⟩
  | forgetOwn d own error => exact ⟨List.mem_cons_of_mem _ h.1, h.2⟩
  | _ => exact h

/-- Storing an object under a key no row names. -/
theorem Kept.put (h : Kept s) {key : StorageKey} (hk : Unwritten s key) (object : Object) :
    Kept (s.putObject key object) where
  one := h.one
  present row hr := by
    obtain ⟨d, o, hp⟩ := h.present row hr
    exact ⟨d, o, hp.mono (fun _ hp => hp) (AList.lookup_insert_ne (h.key_ne hk hr))⟩
  once := h.once
  drawn := h.drawn

theorem Asserts.put (h : Asserts s e) {key : StorageKey} (hne : ownKey e ≠ some key)
    (object : Object) : Asserts (s.putObject key object) e := by
  cases e with
  | upsert d own prev m =>
    obtain ⟨h1, h2, h3, h4, h5⟩ := h
    have hkey : own ≠ key := by rintro rfl; exact hne rfl
    exact ⟨h1, h2, h3, h4, (AList.lookup_insert_ne hkey).trans h5⟩
  | _ => exact h

theorem forget_cases (s : State) (key : StorageKey) (fault : Option Fault) :
    s.forget key fault = s ∨ s.forget key fault = { s with bucket := s.bucket.erase key } := by
  unfold State.forget
  split
  · exact Or.inl rfl
  · exact Or.inr rfl

/-- Deleting a key no row names. -/
theorem Kept.forget (h : Kept s) {key : StorageKey}
    (hk : ∀ row ∈ s.uploadedFile, row.storageKey ≠ key) (fault : Option Fault) :
    Kept (s.forget key fault) := by
  rcases forget_cases s key fault with hs | hs <;> rw [hs]
  · exact h
  · refine ⟨h.one, fun row hr => ?_, h.once, h.drawn⟩
    obtain ⟨d, o, hp⟩ := h.present row hr
    exact ⟨d, o, hp.mono (fun _ hp => hp) (AList.lookup_erase_ne (hk row hr))⟩

theorem Asserts.forget (h : Asserts s e) {key : StorageKey} (hne : ownKey e ≠ some key)
    (fault : Option Fault) : Asserts (s.forget key fault) e := by
  rcases forget_cases s key fault with hs | hs <;> rw [hs]
  · exact h
  · cases e with
    | upsert d own prev m =>
      obtain ⟨h1, h2, h3, h4, h5⟩ := h
      have hkey : own ≠ key := by rintro rfl; exact hne rfl
      exact ⟨h1, h2, h3, h4, (AList.lookup_erase_ne hkey).trans h5⟩
    | _ => exact h

/-- An upsert of a key that was never written, whose object is there. -/
theorem Kept.wrote (h : Kept s) {d : Deposit} {key : StorageKey} {m : JsString}
    (hd : key ∈ s.drawn) (hk : Unwritten s key) (hm : detectFileType d.file.buffer = some m)
    (hl : s.bucket.lookup key = some ⟨d.file.buffer, m⟩) (now : Int) :
    Kept (s.wrote d key m now) where
  one := nodup_upsert h.one
  present row hr := by
    rcases mem_upsert.1 hr with rfl | ⟨hr, -⟩
    · refine ⟨d, ⟨d.file.buffer, m⟩, List.mem_cons_self, rfl, ?_, rfl, rfl, hm⟩
      rw [State.wrote, upsert_bucket]
      exact hl
    · obtain ⟨d', o, hp⟩ := h.present row hr
      exact ⟨d', o, hp.mono (fun _ hp => List.mem_cons_of_mem _ hp) (by simp [State.wrote])⟩
  once key' a b ha hb := by
    simp only [State.wrote, List.mem_cons, Prod.mk.injEq] at ha hb
    rcases ha with ⟨rfl, rfl⟩ | ha
    · rcases hb with ⟨-, rfl⟩ | hb
      · rfl
      · exact absurd hb (hk b)
    · rcases hb with ⟨rfl, rfl⟩ | hb
      · exact absurd ha (hk a)
      · exact h.once key' a b ha hb
  drawn key' d' hw := by
    simp only [State.wrote, List.mem_cons, Prod.mk.injEq] at hw
    simp only [State.wrote, upsert_drawn]
    rcases hw with ⟨rfl, rfl⟩ | hw
    · exact hd
    · exact h.drawn key' d' hw

theorem WrittenFor.wrote {itemId : ItemId} {p : StorageKey} (h : WrittenFor s itemId p)
    (d : Deposit) (key : StorageKey) (m : JsString) (now : Int) :
    WrittenFor (s.wrote d key m now) itemId p := by
  obtain ⟨d', hd, hi⟩ := h
  exact ⟨d', List.mem_cons_of_mem _ hd, hi⟩

theorem Unwritten.wrote {own key : StorageKey} (h : Unwritten s own) (hne : own ≠ key)
    (d : Deposit) (m : JsString) (now : Int) : Unwritten (s.wrote d key m now) own := by
  intro d' hd
  simp only [State.wrote, List.mem_cons, Prod.mk.injEq] at hd
  rcases hd with ⟨he, -⟩ | hd
  · exact hne he
  · exact h d' hd

/-- Another deposit's upsert: no key it relies on becomes a row's. -/
theorem Asserts.wrote (h : Asserts s e) {d : Deposit} {key : StorageKey} {m : JsString} {now : Int}
    (hk : Unwritten s key) (hne : ownKey e ≠ some key) : Asserts (s.wrote d key m now) e := by
  have hown : ∀ own, ownKey e = some own → own ∈ (s.wrote d key m now).drawn ∧
      Unwritten (s.wrote d key m now) own := by
    intro own ho
    obtain ⟨h1, h2⟩ := h.own ho
    have hkey : own ≠ key := by rintro rfl; exact hne ho
    exact ⟨by simpa [State.wrote] using h1, h2.wrote hkey d m now⟩
  cases e with
  | put d' own prev m' =>
    obtain ⟨h1, h2⟩ := hown own rfl
    exact ⟨h1, h2, h.2.2.1, fun p hp => (h.2.2.2 p hp).wrote d key m now⟩
  | upsert d' own prev m' =>
    obtain ⟨h1, h2⟩ := hown own rfl
    refine ⟨h1, h2, h.2.2.1, fun p hp => (h.2.2.2.1 p hp).wrote d key m now, ?_⟩
    rw [State.wrote, upsert_bucket]
    exact h.2.2.2.2
  | forgetOwn d' own error => exact hown own rfl
  | forgetPrevious d' prev view =>
    obtain ⟨hp, hrows⟩ := h
    refine ⟨hp.wrote d key m now, fun row hr => ?_⟩
    rcases mem_upsert.1 hr with rfl | ⟨hr, -⟩
    · obtain ⟨a, ha, -⟩ := hp
      rintro rfl
      exact hk a ha
    · exact hrows row hr
  | _ => trivial

/-! ## The outline -/

/-- The previous key of a deposit that has just upserted is no row's key any more. -/
theorem previous_dead (h : Kept s) {d : Deposit} {key p : StorageKey} {m : JsString} {now : Int}
    (hk : Unwritten s key) (hp : WrittenFor s d.itemId p) :
    ∀ row ∈ (s.wrote d key m now).uploadedFile, row.storageKey ≠ p := by
  obtain ⟨a, ha, hai⟩ := hp
  intro row hr
  rcases mem_upsert.1 hr with rfl | ⟨hr, hi⟩
  · rintro rfl
    exact hk a ha
  · obtain ⟨b, object, hb⟩ := h.present row hr
    rintro rfl
    have hab := h.once _ a b ha hb.written
    subst hab
    exact hi (hb.item.symm.trans hai)

theorem previous_ne {d : Deposit} {key p : StorageKey} (hk : Unwritten s key)
    (hp : WrittenFor s d.itemId p) : p ≠ key := by
  obtain ⟨a, ha, -⟩ := hp
  rintro rfl
  exact hk a ha

/-- Every step keeps the invariant, and its deposit's own assertion. -/
theorem step_keeps (h : Kept s) (ha : Asserts s f) (hs : Step n k s f s' f') :
    Kept s' ∧ Asserts s' f' := by
  cases hs with
  | refused d error => exact ⟨h.record _, trivial⟩
  | accepted d key m hitem hm hkey hfresh =>
    refine ⟨h.draw key, List.mem_cons_self, fun d' hw => hfresh (h.drawn key d' hw), hm, ?_⟩
    intro p hp
    obtain ⟨row, hrow, rfl⟩ := Option.map_eq_some_iff.1 hp
    obtain ⟨d', object, hpr⟩ := h.present row (List.mem_of_find?_eq_some hrow)
    have hi : row.requestedItemId = d.itemId := by simpa using List.find?_some hrow
    exact ⟨d', hpr.written, hpr.item.trans hi⟩
  | putFailed d key prev m fault => exact ⟨h.record _, trivial⟩
  | stored d key prev m =>
    refine ⟨h.put ha.2.1 _, ha.1, ha.2.1, ha.2.2.1, ha.2.2.2, ?_⟩
    exact AList.lookup_insert _
  | upsertFailed d key prev m fault => exact ⟨h, ha.1, ha.2.1⟩
  | upserted d key prev m =>
    obtain ⟨hd, hk, hm, hp, hl⟩ := ha
    have hw := h.wrote hd hk hm hl k.now
    cases prev with
    | none => exact ⟨hw, trivial⟩
    | some p =>
      simp only [afterRecord, if_neg (previous_ne hk (hp p rfl))]
      exact ⟨hw, (hp p rfl).wrote d key m k.now, previous_dead h hk (hp p rfl)⟩
  | forgotOwn d key error =>
    exact ⟨(h.forget (fun row hr => h.key_ne ha.2 hr) k.fault).record _, trivial⟩
  | counted d view =>
    refine ⟨Kept.record ?_ _, trivial⟩
    unfold State.countIfCompleted
    split
    · exact h.record _
    · exact h
  | forgotPrevious d prev view => exact ⟨(h.forget ha.2 k.fault).record _, trivial⟩

theorem own_ne_written {key : StorageKey} (he : Asserts s e) {itemId : ItemId}
    (hp : WrittenFor s itemId key) : ownKey e ≠ some key := by
  intro ho
  obtain ⟨a, ha, -⟩ := hp
  exact (he.own ho).2 a ha

/-- No step disturbs another deposit. -/
theorem step_stable (ha : Asserts s f) (he : Asserts s e) (hK : OwnApart f e)
    (hs : Step n k s f s' f') : Asserts s' e := by
  cases hs with
  | refused d error => exact he.record _
  | accepted d key m => exact he.draw key
  | putFailed d key prev m fault => exact he.record _
  | stored d key prev m => exact he.put (hK key rfl) _
  | upsertFailed d key prev m fault => exact he
  | upserted d key prev m =>
    obtain ⟨hd, hk, hm, hp, hl⟩ := ha
    have hw : Asserts (s.wrote d key m k.now) e := he.wrote hk (hK key rfl)
    cases prev with
    | none => exact hw
    | some p =>
      simp only [afterRecord]
      split
      · exact hw.record _
      · exact hw
  | forgotOwn d key error => exact (he.forget (hK key rfl) k.fault).record _
  | counted d view =>
    refine Asserts.record ?_ _
    unfold State.countIfCompleted
    split
    · exact he.record _
    · exact he
  | forgotPrevious d prev view => exact (he.forget (own_ne_written he ha.1) k.fault).record _

/-- A deposit keeps its key to itself until a row names it. -/
theorem step_apart (he : Asserts s e) (hK : OwnApart f e)
    (hs : Step n k s f s' f') : OwnApart f' e := by
  cases hs with
  | accepted d key m hitem hm hkey hfresh =>
    rintro key' ⟨⟩ ho
    exact hfresh (he.own ho).1
  | stored d key prev m => exact hK
  | upsertFailed d key prev m fault => exact hK
  | upserted d key prev m =>
    intro key' ho
    unfold afterRecord at ho
    split at ho
    · cases ho
    · split at ho <;> cases ho
  | _ => exact fun key' ho => by cases ho

theorem outline (n : JsString → JsString) :
    PairOutline (machine n) (fun _ _ _ => True) Kept Asserts OwnApart where
  symm _ _ hK key he hf := hK key hf he
  enter _ f _ hf := by
    cases f with
    | deposit d => trivial
    | _ => cases hf
  meet _ f _ _ hf _ := by
    cases f with
    | deposit d => exact fun _ ho => by cases ho
    | _ => cases hf
  keeps _ _ _ _ _ h ha _ he := step_keeps h ha (step_of_exec he)
  stable _ _ _ _ _ _ _ ha he hK _ hx := step_stable ha he hK (step_of_exec hx)
  apart _ _ _ _ _ _ _ _ he hK _ hx := step_apart he hK (step_of_exec hx)

/-- The outline along a run of deposits. -/
theorem kept_of_reaches {G : World State Call → Act Call Choice → Prop} {s₀ : State} (h₀ : Kept s₀)
    {w : World State Call} (h : (machine n).Reaches G ⟨s₀, []⟩ w) :
    Holds Kept Asserts w ∧ Apart OwnApart w :=
  (outline n).run h (fun _ _ _ _ _ _ => trivial) ⟨h₀, by simp⟩ (by simp [Apart])

/-- **No deposit loses a file.** In every world reached by any interleaving of deposits, with any
failures, from a state where every row names its object: an item has at most one row; the object
the row names is in the bucket, holds exactly the bytes of the deposit that wrote the row, is as
long as `sizeBytes` says, and starts with the signature of `mimeType`, which is an allowed type. -/
theorem deposits_keep_files (n : JsString → JsString) (s₀ : State) (h₀ : Kept s₀)
    (w : World State Call) (h : (machine n).Reaches (fun _ _ => True) ⟨s₀, []⟩ w) :
    (∀ itemId, (w.shared.uploadedFile.filter fun r => r.requestedItemId == itemId).length ≤ 1) ∧
    (∀ row ∈ w.shared.uploadedFile, ∃ d object, (row.storageKey, d) ∈ w.shared.written ∧
      (∀ d', (row.storageKey, d') ∈ w.shared.written → d' = d) ∧ d.itemId = row.requestedItemId ∧
      w.shared.bucket.lookup row.storageKey = some object ∧ object.bytes = d.file.buffer ∧
      object.bytes.length = row.sizeBytes ∧ HasSignature object.bytes row.mimeType ∧
      row.mimeType ∈ ALLOWED_MIME_TYPES) := by
  have hk := (kept_of_reaches h₀ h).1.1
  refine ⟨fun itemId => ?_, fun row hr => ?_⟩
  · refine length_le_one_of_eq ((hk.one.of_map _).filter _) fun a ha b hb => ?_
    obtain ⟨ha, hai⟩ := List.mem_filter.1 ha
    obtain ⟨hb, hbi⟩ := List.mem_filter.1 hb
    exact hk.row_unique ha hb ((beq_iff_eq.1 hai).trans (beq_iff_eq.1 hbi).symm)
  · obtain ⟨d, object, hp⟩ := hk.present row hr
    refine ⟨d, object, hp.written, fun d' hd' => hk.once _ _ _ hd' hp.written, hp.item, hp.lookup,
      hp.bytes, by rw [hp.bytes, hp.size], by rw [hp.bytes]; exact hasSignature_of_detect hp.type, ?_⟩
    have hall := allowed_of_detect hp.type
    unfold isAllowedMimeType at hall
    exact List.contains_iff_mem.1 hall

/-! ### Concrete runs -/

/-- A request of two items, nothing deposited yet. -/
def empty : State :=
  ⟨[⟨js "contract", js "dossier"⟩, ⟨js "passport", js "dossier"⟩], [], ∅, [], [], []⟩

theorem kept_empty : Kept empty where
  one := by decide
  present _ hr := by cases hr
  once _ _ _ ha := by cases ha
  drawn _ _ ha := by cases ha

/-- A PDF of six bytes; `last` tells two of them apart. -/
def pdfFor (item : String) (last : UInt8) : Deposit :=
  ⟨js "dossier", js item, js "scan.pdf", [0x25, 0x50, 0x44, 0x46, 0x2d, last]⟩

/-- One step of deposit `i`; `random` is drawn where a key is. -/
def at' (i : Nat) (random : UInt8) : Act Call Choice := .run i ⟨0, [random], none⟩

def played (acts : List (Act Call Choice)) : World State Call :=
  ((machine id).play (fun _ _ => true) ⟨empty, []⟩ acts).getD ⟨empty, []⟩

theorem reaches_played {acts : List (Act Call Choice)}
    (h : ((machine id).play (fun _ _ => true) ⟨empty, []⟩ acts).isSome = true) :
    (machine id).Reaches (fun _ _ => True) ⟨empty, []⟩ (played acts) :=
  (reaches_getD h _).weaken fun _ _ _ => trivial

def oneDeposit : List (Act Call Choice) :=
  [.call (.deposit (pdfFor "contract" 1)), at' 0 1, at' 0 1, at' 0 1, at' 0 1]

theorem deposits_keep_files_oneDeposit :
    (played oneDeposit).shared.uploadedFile.length = 1 ∧
    ∀ row ∈ (played oneDeposit).shared.uploadedFile, ∃ object,
      (played oneDeposit).shared.bucket.lookup row.storageKey = some object := by
  refine ⟨by decide +kernel, fun row hr => ?_⟩
  obtain ⟨d, object, -, -, -, hl, -⟩ := (deposits_keep_files id empty kept_empty (played oneDeposit)
    (reaches_played (by decide +kernel))).2 row hr
  exact ⟨object, hl⟩

end DepositPortal.Deposits
