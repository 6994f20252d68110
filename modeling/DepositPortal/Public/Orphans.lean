import DepositPortal.Public.NoLoss

/-!
# Orphaned objects

When no call fails, a deposit leaves in the bucket the object its row names and erases the one it
replaced. It erases the key it read before its upload, not the one its upsert replaced: as long as
every upsert finds the row as its deposit had read it, each stored key is a row's or is about to be
erased by one deposit (`Accounted`), and nothing is left over (`no_orphan_when_up_to_date`). Two
first deposits on one item leave two objects: the second upsert updates the row, and its deposit
had read no key to erase (`two_first_deposits_orphan`).
-/
namespace DepositPortal.Deposits
open Interleave

variable {n : JsString → JsString} {k : Choice} {s s' : State} {f f' : Call}
  {w w' : World State Call} {requestId : RequestId} {itemId : ItemId}

/-- The keys of the bucket under `requests/<requestId>/items/<itemId>/`. -/
def underPrefix (s : State) (requestId : RequestId) (itemId : ItemId) : List StorageKey :=
  s.bucket.keys.filter fun key => (itemPrefix requestId itemId).isPrefixOf key

/-- The only failure of the run: the upsert of a deposit that had read no file, while the item has
one by now. -/
def losesRace (s : State) (fault : Fault) : Call → Bool
  | .upsert d _ none _ => fault == .uniqueViolation && (s.fileOf d.itemId).isSome
  | _ => false

/-- No call fails, except for the unique violation of a losing first deposit. -/
def NoFailure (s : State) (k : Choice) (f : Call) : Prop :=
  ∀ fault ∈ k.fault, losesRace s fault f = true

/-- A successful upsert finds the row, or its absence, that its deposit had read. -/
def UpToDate (s : State) (k : Choice) : Call → Prop
  | .upsert d _ previousKey _ =>
      k.fault = none → (s.fileOf d.itemId).map UploadedFile.storageKey = previousKey
  | _ => True

theorem NoFailure.none (h : NoFailure s k f) (hl : ∀ fault, losesRace s fault f = false) :
    k.fault = none := by
  cases hc : k.fault with
  | none => rfl
  | some fault =>
    have hlose := h fault hc
    rw [hl fault] at hlose
    cases hlose

def depositOf : Call → Deposit
  | .deposit d | .put d _ _ _ | .upsert d _ _ _ | .forgetOwn d _ _ | .count d _
  | .forgetPrevious d _ _ | .done d _ => d

/-- Runs of deposits on one item. -/
def OnItem (requestId : RequestId) (itemId : ItemId) (P : State → Choice → Call → Prop)
    (w : World State Call) : Act Call Choice → Prop
  | .call f => (depositOf f).requestId = requestId ∧ (depositOf f).itemId = itemId
  | .run i k => ∀ f ∈ w.calls[i]?, P w.shared k f

/-! ## The row of an item -/

theorem fileOf_some {row : UploadedFile} (h : s.fileOf itemId = some row) :
    row ∈ s.uploadedFile ∧ row.requestedItemId = itemId := by
  unfold State.fileOf at h
  exact ⟨List.mem_of_find?_eq_some h, by simpa using List.find?_some h⟩

theorem fileOf_congr (h : s'.uploadedFile = s.uploadedFile) : s'.fileOf itemId = s.fileOf itemId := by
  unfold State.fileOf; rw [h]

theorem fileOf_wrote (d : Deposit) (key : StorageKey) (m : JsString) (now : Int) :
    (s.wrote d key m now).fileOf d.itemId = some (rowOf d key m now) := by
  have hmem : rowOf d key m now ∈ (s.wrote d key m now).uploadedFile := mem_upsert.2 (Or.inl rfl)
  cases hf : (s.wrote d key m now).fileOf d.itemId with
  | none =>
    unfold State.fileOf at hf
    exact absurd (beq_self_eq_true d.itemId) (List.find?_eq_none.1 hf _ hmem)
  | some row =>
    obtain ⟨hr, hi⟩ := fileOf_some hf
    rcases mem_upsert.1 hr with rfl | ⟨-, hne⟩
    · rfl
    · exact absurd hi hne

/-! ## Every stored key has someone who knows it -/

/-- The stored key a deposit will put in a row or erase. -/
def holdsKey : Call → Option StorageKey
  | .upsert _ key _ _ | .forgetOwn _ key _ | .forgetPrevious _ key _ => some key
  | _ => none

/-- The key is the row's, or some deposit holds it. -/
def Accounted (itemId : ItemId) (w : World State Call) (key : StorageKey) : Prop :=
  (∃ row, w.shared.fileOf itemId = some row ∧ row.storageKey = key) ∨
  ∃ (i : Nat) (f : Call), w.calls[i]? = some f ∧ holdsKey f = some key

/-- A deposit on the item: its key is under the item's prefix, and once it has upserted there is a
row. -/
def Belongs (requestId : RequestId) (itemId : ItemId) (s : State) (f : Call) : Prop :=
  (depositOf f).requestId = requestId ∧ (depositOf f).itemId = itemId ∧
  match f with
  | .put _ key _ _ | .upsert _ key _ _ => itemPrefix requestId itemId <+: key
  | .count _ _ | .forgetPrevious _ _ _ | .done _ (.ok _) => (s.fileOf itemId).isSome = true
  | _ => True

structure Tidy (requestId : RequestId) (itemId : ItemId) (w : World State Call) : Prop where
  belongs : ∀ f ∈ w.calls, Belongs requestId itemId w.shared f
  row : ∀ row, w.shared.fileOf itemId = some row → itemPrefix requestId itemId <+: row.storageKey
  accounted : ∀ key ∈ w.shared.bucket, itemPrefix requestId itemId <+: key →
    Accounted itemId w key

theorem Belongs.mono (h : Belongs requestId itemId s f)
    (hrow : (s.fileOf itemId).isSome = true → (s'.fileOf itemId).isSome = true) :
    Belongs requestId itemId s' f := by
  obtain ⟨h1, h2, h3⟩ := h
  refine ⟨h1, h2, ?_⟩
  cases f with
  | count d view => exact hrow h3
  | forgetPrevious d key view => exact hrow h3
  | done d answer =>
    cases answer with
    | ok view => exact hrow h3
    | error failure => trivial
  | _ => exact h3

theorem forget_uploadedFile (key : StorageKey) (fault : Option Fault) :
    (s.forget key fault).uploadedFile = s.uploadedFile := by
  rcases forget_cases s key fault with h | h <;> rw [h]

/-- Erasing without a failure: the key is gone, unless it is empty. -/
theorem mem_forget {key x : StorageKey} {fault : Option Fault} (hf : fault = none) (hx : x ≠ [])
    (h : x ∈ (s.forget key fault).bucket) : x ≠ key ∧ x ∈ s.bucket := by
  unfold State.forget at h
  split at h
  · next he =>
    rw [hf] at he
    have hkey : key = [] := by simpa using he
    exact ⟨by rw [hkey]; exact hx, h⟩
  · exact AList.mem_erase.1 h

theorem countIfCompleted_uploadedFile (r : RequestId) (fault : Option Fault) :
    (s.countIfCompleted r fault).uploadedFile = s.uploadedFile := by
  unfold State.countIfCompleted
  split <;> rfl

theorem countIfCompleted_bucket (r : RequestId) (fault : Option Fault) :
    (s.countIfCompleted r fault).bucket = s.bucket := by
  unfold State.countIfCompleted
  split <;> rfl

/-- A step keeps the run tidy when every key it leaves in the bucket is the row's, is held by the
stepping deposit, or is held by another one as before. -/
theorem Tidy.of_step {i : Nat} (h : Tidy requestId itemId w) (hf : w.calls[i]? = some f)
    (hbel : Belongs requestId itemId s' f')
    (hmono : (w.shared.fileOf itemId).isSome = true → (s'.fileOf itemId).isSome = true)
    (hrow : ∀ row, s'.fileOf itemId = some row → itemPrefix requestId itemId <+: row.storageKey)
    (hacc : ∀ key ∈ s'.bucket, itemPrefix requestId itemId <+: key →
      (∃ row, s'.fileOf itemId = some row ∧ row.storageKey = key) ∨ holdsKey f' = some key ∨
      (key ∈ w.shared.bucket ∧ holdsKey f ≠ some key ∧
        ∀ row, w.shared.fileOf itemId = some row → row.storageKey ≠ key)) :
    Tidy requestId itemId ⟨s', w.calls.set i f'⟩ where
  belongs e he := by
    rcases List.mem_or_eq_of_mem_set he with he | rfl
    · exact (h.belongs e he).mono hmono
    · exact hbel
  row := hrow
  accounted key hk hp := by
    rcases hacc key hk hp with hr | hown | ⟨hk', hne, hold⟩
    · exact Or.inl hr
    · exact Or.inr ⟨i, f', by simp [lt_of_getElem?_eq_some hf], hown⟩
    · rcases h.accounted key hk' hp with ⟨row, hrow', hr⟩ | ⟨j, g, hg, hh⟩
      · exact absurd hr (hold row hrow')
      · have hij : i ≠ j := by
          rintro rfl
          rw [hf] at hg
          cases hg
          exact hne hh
        exact Or.inr ⟨j, g, by simpa [List.getElem?_set_ne hij] using hg, hh⟩

/-- The same for a step that leaves the rows alone. -/
theorem Tidy.of_same {i : Nat} (h : Tidy requestId itemId w) (hf : w.calls[i]? = some f)
    (hbel : Belongs requestId itemId s' f') (hrows : s'.uploadedFile = w.shared.uploadedFile)
    (hb : ∀ key ∈ s'.bucket, itemPrefix requestId itemId <+: key →
      holdsKey f' = some key ∨ (key ∈ w.shared.bucket ∧ holdsKey f ≠ some key)) :
    Tidy requestId itemId ⟨s', w.calls.set i f'⟩ := by
  have hfile : s'.fileOf itemId = w.shared.fileOf itemId := fileOf_congr hrows
  refine h.of_step hf hbel (by rw [hfile]; exact id) (by rw [hfile]; exact h.row) ?_
  intro key hk hp
  rcases hb key hk hp with hown | ⟨hk', hne⟩
  · exact Or.inr (Or.inl hown)
  · by_cases hr : ∃ row, s'.fileOf itemId = some row ∧ row.storageKey = key
    · exact Or.inl hr
    · rw [hfile] at hr
      exact Or.inr (Or.inr ⟨hk', hne, fun row hrow e => hr ⟨row, hrow, e⟩⟩)

theorem key_ne_nil {key : StorageKey} (h : itemPrefix requestId itemId <+: key) :
    key ≠ [] := by
  rintro rfl
  exact itemPrefix_ne_nil (List.prefix_nil.1 h)

/-- An upsert that finds what its deposit had read: the key it replaces is the one its deposit goes
on to erase. -/
theorem Tidy.upserted {i : Nat} {d : Deposit} {key : StorageKey} {prev : Option StorageKey}
    {m : JsString} {now : Int} {view : DepositedFileView} (h : Tidy requestId itemId w)
    (hf : w.calls[i]? = some (.upsert d key prev m)) (hk : Unwritten w.shared key)
    (hp : ∀ p ∈ prev, WrittenFor w.shared d.itemId p)
    (hmatch : (w.shared.fileOf d.itemId).map UploadedFile.storageKey = prev) :
    Tidy requestId itemId ⟨(afterRecord (w.shared.wrote d key m now) d key prev view).1,
      w.calls.set i (afterRecord (w.shared.wrote d key m now) d key prev view).2⟩ := by
  obtain ⟨hr, rfl, hpre⟩ := h.belongs _ (List.mem_of_getElem? hf)
  replace hpre : itemPrefix requestId d.itemId <+: key := hpre
  have hrow : (w.shared.wrote d key m now).fileOf d.itemId = some (rowOf d key m now) :=
    fileOf_wrote d key m now
  have hsome : ((w.shared.wrote d key m now).fileOf d.itemId).isSome = true := by rw [hrow]; rfl
  have hbucket : (w.shared.wrote d key m now).bucket = w.shared.bucket := upsert_bucket
  have hrow' : ∀ row, (w.shared.wrote d key m now).fileOf d.itemId = some row →
      itemPrefix requestId d.itemId <+: row.storageKey := by
    intro row e
    rw [hrow] at e
    cases e
    exact hpre
  cases prev with
  | none =>
    refine h.of_step hf ⟨hr, rfl, hsome⟩ (fun _ => hsome) hrow' fun x hx hxp => ?_
    replace hx : x ∈ (w.shared.wrote d key m now).bucket := hx
    rw [hbucket] at hx
    by_cases e : x = key
    · exact Or.inl ⟨_, hrow, e.symm⟩
    · refine Or.inr (Or.inr ⟨hx, fun e' => e (Option.some.inj e').symm, fun row hrow => ?_⟩)
      replace hrow : w.shared.fileOf d.itemId = some row := hrow
      rw [hrow] at hmatch
      cases hmatch
  | some p =>
    simp only [afterRecord, if_neg (previous_ne hk (hp p rfl))]
    refine h.of_step hf ⟨hr, rfl, hsome⟩ (fun _ => hsome) hrow' fun x hx hxp => ?_
    rw [hbucket] at hx
    by_cases e : x = key
    · exact Or.inl ⟨_, hrow, e.symm⟩
    · by_cases e' : x = p
      · exact Or.inr (Or.inl (by rw [e']; rfl))
      · refine Or.inr (Or.inr ⟨hx, fun h' => e (Option.some.inj h').symm, fun row hrow h' => ?_⟩)
        replace hrow : w.shared.fileOf d.itemId = some row := hrow
        rw [hrow] at hmatch
        exact e' (h'.symm.trans (Option.some.inj hmatch))

/-- A new deposit on the item holds no key yet. -/
theorem Tidy.enter (h : Tidy requestId itemId w) (hen : enters f = true)
    (hr : (depositOf f).requestId = requestId) (hi : (depositOf f).itemId = itemId) :
    Tidy requestId itemId ⟨w.shared, w.calls ++ [f]⟩ := by
  refine ⟨fun e he => ?_, h.row, fun key hk hp => ?_⟩
  · rcases List.mem_append.1 he with he | he
    · exact h.belongs e he
    · rw [List.mem_singleton.1 he]
      refine ⟨hr, hi, ?_⟩
      cases f with
      | deposit d => trivial
      | _ => cases hen
  · rcases h.accounted key hk hp with hrow | ⟨j, g, hj, hh⟩
    · exact Or.inl hrow
    · refine Or.inr ⟨j, g, ?_, hh⟩
      rw [List.getElem?_append_left (lt_of_getElem?_eq_some hj)]
      exact hj

/-- **One step keeps the run tidy**, when nothing fails and upserts are up to date. -/
theorem Tidy.next {a : Act Call Choice} (hk : Holds Kept Asserts w)
    (h : Tidy requestId itemId w)
    (hg : OnItem requestId itemId (fun s k f => NoFailure s k f ∧ UpToDate s k f) w a)
    (hn : (machine n).next w a = some w') : Tidy requestId itemId w' := by
  obtain ⟨f, rfl, hen, rfl⟩ | ⟨i, k, f, s', f', rfl, hf, he, rfl⟩ := next_cases hn
  · exact h.enter hen hg.1 hg.2
  · obtain ⟨hfail, hup⟩ := hg f hf
    have hb := h.belongs f (List.mem_of_getElem? hf)
    have ha := hk.call hf
    cases step_of_exec he with
    | refused d error =>
      exact h.of_same hf ⟨hb.1, hb.2.1, trivial⟩ rfl fun x hx _ => Or.inr ⟨hx, by simp [holdsKey]⟩
    | accepted d key m hitem hm hkey hfresh =>
      refine h.of_same hf ⟨hb.1, hb.2.1, ?_⟩ rfl fun x hx _ => Or.inr ⟨hx, by simp [holdsKey]⟩
      obtain ⟨rfl, rfl, -⟩ := hb
      rw [hkey]
      exact prefix_buildStorageKey
    | putFailed d key prev m fault =>
      exact h.of_same hf ⟨hb.1, hb.2.1, trivial⟩ rfl fun x hx _ => Or.inr ⟨hx, by simp [holdsKey]⟩
    | stored d key prev m =>
      refine h.of_same hf hb rfl fun x hx _ => ?_
      rcases (AList.mem_insert _).1 hx with rfl | hx
      · exact Or.inl rfl
      · exact Or.inr ⟨hx, by simp [holdsKey]⟩
    | upsertFailed d key prev m fault =>
      refine h.of_same hf ⟨hb.1, hb.2.1, trivial⟩ rfl fun x hx _ => ?_
      by_cases e : x = key
      · exact Or.inl (by rw [e]; rfl)
      · exact Or.inr ⟨hx, fun e' => e (Option.some.inj e').symm⟩
    | upserted d key prev m hfault =>
      exact h.upserted hf ha.2.1 ha.2.2.2.1 (hup hfault)
    | forgotOwn d key error =>
      have hnone : k.fault = none := hfail.none fun _ => rfl
      refine h.of_same hf ⟨hb.1, hb.2.1, trivial⟩ (forget_uploadedFile key _) fun x hx hxp => ?_
      obtain ⟨hne, hx⟩ := mem_forget hnone (key_ne_nil hxp) hx
      exact Or.inr ⟨hx, fun e' => hne (Option.some.inj e').symm⟩
    | counted d view =>
      have hrows : ((w.shared.countIfCompleted d.requestId k.fault).record
          .success).uploadedFile = w.shared.uploadedFile := countIfCompleted_uploadedFile _ _
      refine h.of_same hf ⟨hb.1, hb.2.1, ?_⟩ hrows fun x hx _ => Or.inr ⟨?_, by simp [holdsKey]⟩
      · simpa only [fileOf_congr hrows] using hb.2.2
      · rw [← countIfCompleted_bucket d.requestId k.fault]
        exact hx
    | forgotPrevious d prev view =>
      have hnone : k.fault = none := hfail.none fun _ => rfl
      have hrows : ((w.shared.forget prev k.fault).record .success).uploadedFile =
          w.shared.uploadedFile := forget_uploadedFile _ _
      refine h.of_same hf ⟨hb.1, hb.2.1, ?_⟩ hrows fun x hx hxp => ?_
      · simpa only [fileOf_congr hrows] using hb.2.2
      · obtain ⟨hne, hx⟩ := mem_forget hnone (key_ne_nil hxp) hx
        exact Or.inr ⟨hx, fun e' => hne (Option.some.inj e').symm⟩

/-! ## When every deposit is over -/

def isDone : Call → Bool
  | .done _ _ => true
  | _ => false

def succeeded : Call → Bool
  | .done _ (.ok _) => true
  | _ => false

/-- Every deposit has answered. -/
def Finished (w : World State Call) : Prop := ∀ f ∈ w.calls, isDone f = true

/-- The item's prefix holds what its row names, and nothing else. -/
def Clean (s : State) (requestId : RequestId) (itemId : ItemId) : Prop :=
  underPrefix s requestId itemId = ((s.fileOf itemId).map UploadedFile.storageKey).toList

theorem mem_underPrefix {key : StorageKey} : key ∈ underPrefix s requestId itemId ↔
    key ∈ s.bucket ∧ itemPrefix requestId itemId <+: key := by
  simp only [underPrefix, List.mem_filter, AList.mem_keys, List.isPrefixOf_iff_prefix]

theorem Tidy.start (hc : Clean s requestId itemId) : Tidy requestId itemId ⟨s, []⟩ where
  belongs := by simp
  row row hrow := by
    replace hrow : s.fileOf itemId = some row := hrow
    have hm : row.storageKey ∈ underPrefix s requestId itemId := by rw [hc, hrow]; simp
    exact (mem_underPrefix.1 hm).2
  accounted key hk hp := by
    have hm := mem_underPrefix.2 ⟨hk, hp⟩
    rw [hc, Option.mem_toList, Option.map_eq_some_iff] at hm
    exact Or.inl hm

/-- **Up-to-date upserts leave no orphan.** Deposits on one item whose prefix holds what its row
names; nothing fails but the upserts of losing first deposits, and every upsert that succeeds finds
the row, or its absence, that its deposit had read. When all have answered and one succeeded, the
prefix holds exactly one object, and the item's row names it. -/
theorem no_orphan_when_up_to_date (n : JsString → JsString) (requestId : RequestId)
    (itemId : ItemId) (s₀ : State) (h₀ : Kept s₀) (hc : Clean s₀ requestId itemId)
    (w : World State Call)
    (h : (machine n).Reaches
      (OnItem requestId itemId fun s k f => NoFailure s k f ∧ UpToDate s k f) ⟨s₀, []⟩ w)
    (hdone : Finished w) (hok : ∃ f ∈ w.calls, succeeded f = true) :
    ∃ row, w.shared.fileOf itemId = some row ∧
      underPrefix w.shared requestId itemId = [row.storageKey] := by
  have hk := (kept_of_reaches h₀ h).1
  have ht : Tidy requestId itemId w :=
    h.induct (Tidy.start hc) fun v a v' hr ih hg hn => ih.next (kept_of_reaches h₀ hr).1 hg hn
  obtain ⟨f, hf, hs⟩ := hok
  have hsome : (w.shared.fileOf itemId).isSome = true := by
    have hb := (ht.belongs f hf).2.2
    unfold succeeded at hs
    split at hs
    · exact hb
    · cases hs
  obtain ⟨row, hrow⟩ := Option.isSome_iff_exists.1 hsome
  refine ⟨row, hrow, eq_singleton_of_forall_eq (w.shared.bucket.keys_nodup.filter _) ?_ ?_⟩
  · obtain ⟨d', object, hp⟩ := hk.1.present row (fileOf_some hrow).1
    refine mem_underPrefix.2 ⟨?_, ht.row row hrow⟩
    exact AList.lookup_isSome.1 (by rw [hp.lookup]; rfl)
  · intro key hm
    obtain ⟨hkey, hp⟩ := mem_underPrefix.1 hm
    rcases ht.accounted key hkey hp with ⟨row', hrow', rfl⟩ | ⟨i, f, hf, hh⟩
    · rw [hrow] at hrow'
      cases hrow'
      rfl
    · have hd := hdone f (List.mem_of_getElem? hf)
      cases f with
      | done d answer => cases hh
      | _ => cases hd

/-! ### One after the other, and both at once -/

instance (requestId : RequestId) (itemId : ItemId) (s : State) :
    Decidable (Clean s requestId itemId) :=
  inferInstanceAs (Decidable (_ = _))

instance (s : State) (k : Choice) (f : Call) : Decidable (NoFailure s k f) :=
  inferInstanceAs (Decidable (∀ fault ∈ k.fault, losesRace s fault f = true))

instance (s : State) (k : Choice) (f : Call) : Decidable (UpToDate s k f) :=
  match f with
  | .upsert d _ previousKey _ => inferInstanceAs (Decidable (k.fault = none →
      (s.fileOf d.itemId).map UploadedFile.storageKey = previousKey))
  | .deposit _ | .put _ _ _ _ | .forgetOwn _ _ _ | .count _ _ | .forgetPrevious _ _ _ | .done _ _ =>
    isTrue trivial

instance (P : State → Choice → Call → Prop) [∀ s k f, Decidable (P s k f)] (requestId : RequestId)
    (itemId : ItemId) (w : World State Call) (a : Act Call Choice) :
    Decidable (OnItem requestId itemId P w a) :=
  match a with
  | .call _ => inferInstanceAs (Decidable (_ ∧ _))
  | .run i k => inferInstanceAs (Decidable (∀ f ∈ w.calls[i]?, P w.shared k f))

theorem clean_empty : Clean empty (js "dossier") (js "contract") := by decide +kernel

/-- Runs from `empty`, under a guard. -/
def playedFrom (P : State → Choice → Call → Prop) [∀ s k f, Decidable (P s k f)]
    (acts : List (Act Call Choice)) : World State Call :=
  ((machine id).play (fun w a => decide (OnItem (js "dossier") (js "contract") P w a))
    ⟨empty, []⟩ acts).getD ⟨empty, []⟩

theorem reaches_playedFrom {P : State → Choice → Call → Prop} [∀ s k f, Decidable (P s k f)]
    {acts : List (Act Call Choice)}
    (h : ((machine id).play (fun w a => decide (OnItem (js "dossier") (js "contract") P w a))
      ⟨empty, []⟩ acts).isSome = true) :
    (machine id).Reaches (OnItem (js "dossier") (js "contract") P) ⟨empty, []⟩
      (playedFrom P acts) :=
  reaches_decide h _

/-- A first deposit, and one that replaces it. -/
def replaced : List (Act Call Choice) :=
  oneDeposit ++ [.call (.deposit (pdfFor "contract" 2)), at' 1 2, at' 1 2, at' 1 2, at' 1 2]

theorem no_orphan_when_up_to_date_replaced :
    ∃ row, (playedFrom (fun s k f => NoFailure s k f ∧ UpToDate s k f) replaced).shared.fileOf
        (js "contract") = some row ∧
      underPrefix (playedFrom (fun s k f => NoFailure s k f ∧ UpToDate s k f) replaced).shared
        (js "dossier") (js "contract") = [row.storageKey] := by
  refine no_orphan_when_up_to_date id (js "dossier") (js "contract") empty kept_empty clean_empty _
    (reaches_playedFrom (by decide +kernel)) ?_ ?_
  · unfold Finished
    decide +kernel
  · decide +kernel

/-- Two first deposits: both read no file, the second upsert updates the row of the first. -/
def bothFirst : List (Act Call Choice) :=
  [.call (.deposit (pdfFor "contract" 1)), .call (.deposit (pdfFor "contract" 2)),
    at' 0 1, at' 1 2, at' 0 1, at' 1 2, at' 0 1, at' 1 2, at' 0 1, at' 1 2]

theorem two_first_deposits_orphan :
    Kept empty ∧ Clean empty (js "dossier") (js "contract") ∧
    (machine id).Reaches (OnItem (js "dossier") (js "contract") NoFailure) ⟨empty, []⟩
      (playedFrom NoFailure bothFirst) ∧
    Finished (playedFrom NoFailure bothFirst) ∧
    (∃ f ∈ (playedFrom NoFailure bothFirst).calls, succeeded f = true) ∧
    (underPrefix (playedFrom NoFailure bothFirst).shared (js "dossier") (js "contract")).length = 2 :=
  ⟨kept_empty, clean_empty, reaches_playedFrom (by decide +kernel),
    by unfold Finished; decide +kernel, by decide +kernel, by decide +kernel⟩

end DepositPortal.Deposits
