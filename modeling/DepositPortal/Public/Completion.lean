import DepositPortal.Public.Orphans

/-!
# The counter of completed requests

`recordRequestCompleted` is called by a deposit that had read no file and, after its upsert, counts
no missing piece. Between the upsert and the count other deposits may land, so the calls match the
passes of a request to complete only when each pass leaves one single deposit to count
(`CountsOnce`). Two deposits on the last two items each see the request complete
(`last_two_counted_twice`); a deposit that replaces a failed file counts nothing.
-/
namespace DepositPortal.Deposits
open Interleave

variable {n : JsString → JsString} {k : Choice} {s s' : State} {f f' : Call}
  {w w' : World State Call} {requestId : RequestId}

/-- Every item of the request has a complete file. -/
def Complete (requestId : RequestId) (s : State) : Prop :=
  ∀ item ∈ s.requestedItem, item.requestId = requestId →
    ∃ row ∈ s.uploadedFile, row.requestedItemId = item.id ∧ row.status = .complete

instance (requestId : RequestId) (s : State) : Decidable (Complete requestId s) :=
  inferInstanceAs (Decidable (∀ item ∈ s.requestedItem, item.requestId = requestId →
    ∃ row ∈ s.uploadedFile, row.requestedItemId = item.id ∧ row.status = .complete))

/-- The calls of `recordRequestCompleted` for the request. -/
def recorded (requestId : RequestId) (s : State) : Nat :=
  s.metrics.count (.requestCompleted requestId)

/-- The deposit has upserted and is about to count the missing pieces. -/
def waiting : Call → Bool
  | .count _ _ => true
  | _ => false

/-- Each pass to complete leaves one deposit to count, and no deposit counts for a request that was
complete before its upsert; the completion query does not fail. -/
def CountsOnce (requestId : RequestId) (w : World State Call) (k : Choice) : Call → Prop
  | .upsert d key previousKey mimeType => k.fault = none →
      (Complete requestId w.shared → previousKey ≠ none) ∧
      (¬ Complete requestId w.shared →
        Complete requestId (w.shared.wrote d key mimeType k.now) →
        w.calls.countP waiting + (if previousKey = none then 1 else 0) = 1)
  | .count _ _ => k.fault = none
  | _ => True

/-- Runs of deposits on the items of a request. -/
def OnRequest (requestId : RequestId) (P : World State Call → Choice → Call → Prop)
    (w : World State Call) : Act Call Choice → Prop
  | .call f => (depositOf f).requestId = requestId
  | .run i k => ∀ f ∈ w.calls[i]?, P w k f

/-! ## The query and the counter -/

theorem received_iff {itemId : ItemId} : s.received itemId = true ↔
    ∃ row ∈ s.uploadedFile, row.requestedItemId = itemId ∧ row.status = .complete := by
  simp [State.received, List.any_eq_true]

/-- The query answers 0 exactly for a complete request. -/
theorem stillMissing_eq_zero : s.stillMissing requestId = 0 ↔ Complete requestId s := by
  unfold State.stillMissing Complete
  rw [List.countP_eq_zero]
  constructor
  · intro h item hi hr
    have := h item hi
    rw [← received_iff]
    simpa [hr] using this
  · intro h item hi hm
    rw [Bool.and_eq_true, beq_iff_eq] at hm
    have := received_iff.2 (h item hi hm.1)
    rw [this] at hm
    cases hm.2

theorem complete_congr (h1 : s'.requestedItem = s.requestedItem)
    (h2 : s'.uploadedFile = s.uploadedFile) : Complete requestId s' ↔ Complete requestId s := by
  unfold Complete
  rw [h1, h2]

/-- A written row is complete, so an upsert never undoes completeness. -/
theorem complete_wrote (d : Deposit) (key : StorageKey) (m : JsString) (now : Int)
    (h : Complete requestId s) : Complete requestId (s.wrote d key m now) := by
  intro item hi hr
  replace hi : item ∈ s.requestedItem := by simpa [State.wrote] using hi
  obtain ⟨row, hrow, hid, hst⟩ := h item hi hr
  by_cases e : row.requestedItemId = d.itemId
  · exact ⟨rowOf d key m now, mem_upsert.2 (Or.inl rfl), e.symm.trans hid, rfl⟩
  · exact ⟨row, mem_upsert.2 (Or.inr ⟨hrow, e⟩), hid, hst⟩

theorem recorded_record {m : Metric} (h : m ≠ .requestCompleted requestId) :
    recorded requestId (s.record m) = recorded requestId s := by
  simp [recorded, State.record, List.count_append, h]

theorem metricOf_ne (answer : Except Failure DepositedFileView) :
    metricOf answer ≠ .requestCompleted requestId := by
  unfold metricOf
  split <;> simp

theorem recorded_wrote (d : Deposit) (key : StorageKey) (m : JsString) (now : Int) :
    recorded requestId (s.wrote d key m now) = recorded requestId s := by
  simp [recorded, State.wrote]

theorem recorded_forget (key : StorageKey) (fault : Option Fault) :
    recorded requestId (s.forget key fault) = recorded requestId s := by
  rcases forget_cases s key fault with h | h <;> rw [h]
  rfl

/-- A count that does not fail is one call of `recordRequestCompleted` when the request is
complete, and none when it is not. -/
theorem recorded_count :
    recorded requestId ((s.countIfCompleted requestId none).record .success) =
      recorded requestId s + if Complete requestId s then 1 else 0 := by
  rw [recorded_record (by simp)]
  unfold State.countIfCompleted
  by_cases h : Complete requestId s
  · have h0 := stillMissing_eq_zero.2 h
    simp [h, h0, recorded, State.record, List.count_append]
  · have h0 : s.stillMissing requestId ≠ 0 := fun e => h (stillMissing_eq_zero.1 e)
    simp [h, h0]

/-! ## Calls and passes -/

/-- How often the run takes the request from incomplete to complete. -/
def passes (requestId : RequestId) (tr : List (Move State Call Choice)) : Nat :=
  rises (fun s => decide (Complete requestId s)) tr

/-- While the request is incomplete nothing was counted; once it is complete, the calls made and
those still to come are the passes. -/
structure Metered (requestId : RequestId) (s₀ : State) (tr : List (Move State Call Choice))
    (w : World State Call) : Prop where
  own : ∀ f ∈ w.calls, (depositOf f).requestId = requestId
  before : ¬ Complete requestId w.shared →
    recorded requestId w.shared = recorded requestId s₀ ∧ passes requestId tr = 0
  after : Complete requestId w.shared → recorded requestId w.shared + w.calls.countP waiting =
    recorded requestId s₀ + passes requestId tr

theorem passes_cons {tr : List (Move State Call Choice)} (a : Act Call Choice) :
    passes requestId (⟨w, a, w'⟩ :: tr) = passes requestId tr +
      if ¬ Complete requestId w.shared ∧ Complete requestId w'.shared then 1 else 0 := by
  rw [passes, rises_cons]
  simp only [decide_eq_false_iff_not, decide_eq_true_eq]
  rfl

theorem depositOf_step (hs : Step n k s f s' f') : depositOf f' = depositOf f := by
  cases hs with
  | upserted d key prev m =>
    unfold afterRecord
    split
    · rfl
    · split <;> rfl
  | _ => rfl

theorem Metered.own_set {s₀ : State} {tr : List (Move State Call Choice)} {i : Nat}
    (h : Metered requestId s₀ tr w) (hf : w.calls[i]? = some f)
    (hd : depositOf f' = depositOf f) :
    ∀ e ∈ w.calls.set i f', (depositOf e).requestId = requestId := by
  intro e he
  rcases List.mem_or_eq_of_mem_set he with he | rfl
  · exact h.own e he
  · rw [hd]; exact h.own f (List.mem_of_getElem? hf)

/-- A step that neither counts nor is about to leaves the account as it is. -/
theorem Metered.same {s₀ : State} {tr : List (Move State Call Choice)} {i : Nat}
    {a : Act Call Choice} (h : Metered requestId s₀ tr w) (hf : w.calls[i]? = some f)
    (hd : depositOf f' = depositOf f) (h1 : s'.requestedItem = w.shared.requestedItem)
    (h2 : s'.uploadedFile = w.shared.uploadedFile)
    (h3 : recorded requestId s' = recorded requestId w.shared) (hw : waiting f = false)
    (hw' : waiting f' = false) :
    Metered requestId s₀ (⟨w, a, ⟨s', w.calls.set i f'⟩⟩ :: tr) ⟨s', w.calls.set i f'⟩ := by
  have hc : Complete requestId s' ↔ Complete requestId w.shared := complete_congr h1 h2
  have hp : passes requestId (⟨w, a, ⟨s', w.calls.set i f'⟩⟩ :: tr) = passes requestId tr := by
    rw [passes_cons, if_neg fun hn => hn.1 (hc.1 hn.2)]
    rfl
  have hcount := countP_set_add hf f' waiting
  simp only [hw, hw', Bool.false_eq_true, if_false, Nat.add_zero] at hcount
  refine ⟨h.own_set hf hd, fun hn => ?_, fun hy => ?_⟩
  · rw [hp, h3]
    exact h.before fun hy => hn (hc.2 hy)
  · rw [hp, h3, hcount]
    exact h.after (hc.1 hy)

/-- An upsert: a pass leaves exactly one deposit to count. -/
theorem Metered.upserted {s₀ : State} {tr : List (Move State Call Choice)} {i : Nat} {d : Deposit}
    {key : StorageKey} {prev : Option StorageKey} {m : JsString} {view : DepositedFileView}
    {a : Act Call Choice} (h : Metered requestId s₀ tr w)
    (hf : w.calls[i]? = some (.upsert d key prev m))
    (hg : (Complete requestId w.shared → prev ≠ none) ∧
      (¬ Complete requestId w.shared → Complete requestId (w.shared.wrote d key m k.now) →
        w.calls.countP waiting + (if prev = none then 1 else 0) = 1))
    (hs : (s', f') = afterRecord (w.shared.wrote d key m k.now) d key prev view) :
    Metered requestId s₀ (⟨w, a, ⟨s', w.calls.set i f'⟩⟩ :: tr) ⟨s', w.calls.set i f'⟩ := by
  have hcount := countP_set_add hf f' waiting
  -- what follows the upsert keeps the rows, counts nothing, and counts later if it had read no file
  obtain ⟨hd, hr, hrows, hrec, hw⟩ : depositOf f' = d ∧
      s'.requestedItem = (w.shared.wrote d key m k.now).requestedItem ∧
      s'.uploadedFile = (w.shared.wrote d key m k.now).uploadedFile ∧
      recorded requestId s' = recorded requestId w.shared ∧
      (if waiting f' = true then 1 else 0) = (if prev = none then 1 else 0) := by
    have hwrote : recorded requestId (w.shared.wrote d key m k.now) = recorded requestId w.shared :=
      recorded_wrote d key m k.now
    cases prev with
    | none => cases hs; exact ⟨rfl, rfl, rfl, hwrote, rfl⟩
    | some p =>
      simp only [afterRecord] at hs
      split at hs
      · cases hs
        exact ⟨rfl, rfl, rfl, (recorded_record (metricOf_ne _)).trans hwrote, rfl⟩
      · cases hs
        exact ⟨rfl, rfl, rfl, hwrote, rfl⟩
  have hc : Complete requestId s' ↔ Complete requestId (w.shared.wrote d key m k.now) :=
    complete_congr hr hrows
  have hp : passes requestId (⟨w, a, ⟨s', w.calls.set i f'⟩⟩ :: tr) = _ := passes_cons a
  rw [hw] at hcount
  simp only [waiting, Bool.false_eq_true, if_false, Nat.add_zero] at hcount
  refine ⟨h.own_set hf hd, fun hn => ?_, fun hy => ?_⟩
  · have hn' : ¬ Complete requestId w.shared :=
      fun hy => hn (hc.2 (complete_wrote d key m k.now hy))
    rw [hp, if_neg fun hpass => hn hpass.2, hrec]
    exact h.before hn'
  · by_cases hy' : Complete requestId w.shared
    · have hprev := hg.1 hy'
      rw [hp, if_neg fun hpass => hpass.1 hy', hrec, hcount, if_neg hprev]
      exact h.after hy'
    · have hone := hg.2 hy' (hc.1 hy)
      obtain ⟨h1, h2⟩ := h.before hy'
      rw [hp, if_pos ⟨hy', hy⟩, hrec, hcount, hone, h1, h2]

/-- A count that does not fail turns a deposit still to count into a call, if the request is
complete. -/
theorem Metered.counted {s₀ : State} {tr : List (Move State Call Choice)} {i : Nat} {d : Deposit}
    {view : DepositedFileView} {a : Act Call Choice} (h : Metered requestId s₀ tr w)
    (hf : w.calls[i]? = some (.count d view)) :
    Metered requestId s₀
      (⟨w, a, ⟨(w.shared.countIfCompleted requestId none).record .success,
        w.calls.set i (.done d (.ok view))⟩⟩ :: tr)
      ⟨(w.shared.countIfCompleted requestId none).record .success,
        w.calls.set i (.done d (.ok view))⟩ := by
  have hc : Complete requestId ((w.shared.countIfCompleted requestId none).record .success) ↔
      Complete requestId w.shared := by
    refine complete_congr ?_ (countIfCompleted_uploadedFile _ _)
    unfold State.countIfCompleted State.record
    split <;> rfl
  have hcount := countP_set_add hf (.done d (.ok view)) waiting
  simp only [waiting, if_true, Bool.false_eq_true, if_false, Nat.add_zero] at hcount
  have hp : passes requestId (⟨w, a, ⟨(w.shared.countIfCompleted requestId none).record .success,
      w.calls.set i (.done d (.ok view))⟩⟩ :: tr) = _ := passes_cons a
  refine ⟨h.own_set hf rfl, fun hn => ?_, fun hy => ?_⟩
  · have hn' := fun hy => hn (hc.2 hy)
    rw [hp, if_neg fun hpass => hn hpass.2, recorded_count, if_neg hn']
    exact h.before hn'
  · have hy' := hc.1 hy
    have ha := h.after hy'
    rw [hp, if_neg fun hpass => hpass.1 hy', recorded_count, if_pos hy']
    simp only at hcount ha ⊢
    omega

/-- A new deposit is not to be counted yet. -/
theorem Metered.enter {s₀ : State} {tr : List (Move State Call Choice)}
    (h : Metered requestId s₀ tr w) (hen : enters f = true)
    (hr : (depositOf f).requestId = requestId) :
    Metered requestId s₀ (⟨w, .call f, ⟨w.shared, w.calls ++ [f]⟩⟩ :: tr)
      ⟨w.shared, w.calls ++ [f]⟩ := by
  have hp : passes requestId (⟨w, .call f, ⟨w.shared, w.calls ++ [f]⟩⟩ :: tr) =
      passes requestId tr := by
    rw [passes_cons, if_neg fun hpass => hpass.1 hpass.2]
    rfl
  have hw : waiting f = false := by
    cases f with
    | deposit d => rfl
    | _ => cases hen
  refine ⟨fun e he => ?_, fun hno => ?_, fun hy => ?_⟩
  · rcases List.mem_append.1 he with he | he
    · exact h.own e he
    · rw [List.mem_singleton.1 he]; exact hr
  · rw [hp]; exact h.before hno
  · rw [hp, List.countP_append]
    simpa [hw] using h.after hy

/-- **One step keeps the account**, when it counts once. -/
theorem Metered.next {s₀ : State} {tr : List (Move State Call Choice)} {a : Act Call Choice}
    (h : Metered requestId s₀ tr w) (hg : OnRequest requestId (CountsOnce requestId) w a)
    (hn : (machine n).next w a = some w') : Metered requestId s₀ (⟨w, a, w'⟩ :: tr) w' := by
  obtain ⟨f, rfl, hen, rfl⟩ | ⟨i, k, f, s', f', rfl, hf, he, rfl⟩ := next_cases hn
  · exact h.enter hen hg
  · have hd := h.own f (List.mem_of_getElem? hf)
    have hturn := hg f hf
    have hs := step_of_exec he
    have hdep := depositOf_step hs
    cases hs with
    | refused d error =>
      exact h.same hf hdep rfl rfl (recorded_record (metricOf_ne _)) rfl rfl
    | accepted d key m => exact h.same hf hdep rfl rfl rfl rfl rfl
    | putFailed d key prev m fault => exact h.same hf hdep rfl rfl (recorded_record (by simp)) rfl rfl
    | stored d key prev m => exact h.same hf hdep rfl rfl rfl rfl rfl
    | upsertFailed d key prev m fault => exact h.same hf hdep rfl rfl rfl rfl rfl
    | upserted d key prev m hfault => exact h.upserted hf (hturn hfault) rfl
    | forgotOwn d key error =>
      refine h.same hf hdep ?_ (forget_uploadedFile key k.fault) ?_ rfl rfl
      · rcases forget_cases w.shared key k.fault with hx | hx <;> rw [hx] <;> rfl
      · rw [recorded_record (metricOf_ne _), recorded_forget]
    | counted d view =>
      replace hturn : k.fault = none := hturn
      replace hd : d.requestId = requestId := hd
      subst hd
      rw [hturn]
      exact h.counted hf
    | forgotPrevious d prev view =>
      refine h.same hf hdep ?_ (forget_uploadedFile prev k.fault) ?_ rfl rfl
      · rcases forget_cases w.shared prev k.fault with hx | hx <;> rw [hx] <;> rfl
      · rw [recorded_record (by simp), recorded_forget]

/-- **A completed request is counted once per pass**, along every run of deposits on its items
whose passes each leave one deposit to count: when all have answered, `recordRequestCompleted` was
called exactly as often as the request went from incomplete to complete, whatever the files of its
items were at first. -/
theorem counted_once_per_pass (n : JsString → JsString) (requestId : RequestId) (s₀ : State)
    (tr : List (Move State Call Choice)) (w : World State Call)
    (h : (machine n).Run ⟨s₀, []⟩ tr w) (hg : All (OnRequest requestId (CountsOnce requestId)) tr)
    (hdone : Finished w) :
    recorded requestId w.shared = recorded requestId s₀ + passes requestId tr := by
  have hm : Metered requestId s₀ tr w := by
    clear hdone
    induction h with
    | start =>
      exact ⟨by simp, fun _ => ⟨rfl, rfl⟩, fun _ => rfl⟩
    | step hr hn ih =>
      obtain ⟨hg1, hg2⟩ := all_cons.1 hg
      exact (ih hg2).next hg1 hn
  have hnone : w.calls.countP waiting = 0 := by
    rw [List.countP_eq_zero]
    intro f hf hw
    have hd := hdone f hf
    cases f with
    | done d answer => cases hw
    | _ => cases hd
  by_cases hc : Complete requestId w.shared
  · have := hm.after hc
    omega
  · obtain ⟨h1, h2⟩ := hm.before hc
    omega

/-! ### The last two items -/

instance (requestId : RequestId) (w : World State Call) (k : Choice) (f : Call) :
    Decidable (CountsOnce requestId w k f) :=
  match f with
  | .upsert d key previousKey m => inferInstanceAs (Decidable (k.fault = none →
      (Complete requestId w.shared → previousKey ≠ none) ∧
      (¬ Complete requestId w.shared → Complete requestId (w.shared.wrote d key m k.now) →
        w.calls.countP waiting + (if previousKey = none then 1 else 0) = 1)))
  | .count _ _ => inferInstanceAs (Decidable (k.fault = none))
  | .deposit _ | .put _ _ _ _ | .forgetOwn _ _ _ | .forgetPrevious _ _ _ | .done _ _ =>
    isTrue trivial

instance (P : World State Call → Choice → Call → Prop) [∀ w k f, Decidable (P w k f)]
    (requestId : RequestId) (w : World State Call) (a : Act Call Choice) :
    Decidable (OnRequest requestId P w a) :=
  match a with
  | .call _ => inferInstanceAs (Decidable (_ = _))
  | .run i k => inferInstanceAs (Decidable (∀ f ∈ w.calls[i]?, P w k f))

/-- The completion query does not fail. -/
def QueryAnswers (_ : World State Call) (k : Choice) : Call → Prop
  | .count _ _ => k.fault = none
  | _ => True

instance (w : World State Call) (k : Choice) (f : Call) : Decidable (QueryAnswers w k f) :=
  match f with
  | .count _ _ => inferInstanceAs (Decidable (k.fault = none))
  | .deposit _ | .put _ _ _ _ | .upsert _ _ _ _ | .forgetOwn _ _ _ | .forgetPrevious _ _ _
  | .done _ _ => isTrue trivial

/-- Runs on the two items of `empty`, under a guard: the moves and the world reached. -/
def followed (P : World State Call → Choice → Call → Prop) [∀ w k f, Decidable (P w k f)]
    (acts : List (Act Call Choice)) : List (Move State Call Choice) × World State Call :=
  ((machine id).follow (fun w a => decide (OnRequest (js "dossier") P w a)) [] ⟨empty, []⟩
    acts).getD ([], ⟨empty, []⟩)

theorem run_followed (P : World State Call → Choice → Call → Prop) [∀ w k f, Decidable (P w k f)]
    (acts : List (Act Call Choice))
    (h : ((machine id).follow (fun w a => decide (OnRequest (js "dossier") P w a)) [] ⟨empty, []⟩
      acts).isSome = true) :
    (machine id).Run ⟨empty, []⟩ (followed P acts).1 (followed P acts).2 ∧
      All (OnRequest (js "dossier") P) (followed P acts).1 := by
  obtain ⟨⟨tr, w⟩, hw⟩ := Option.isSome_iff_exists.1 h
  have hp : followed P acts = (tr, w) := by rw [followed, hw]; rfl
  obtain ⟨hr, hG⟩ := run_of_follow .start all_nil hw
  rw [hp]
  exact ⟨hr, Machine.Run.weaken hG fun _ _ hg => of_decide_eq_true hg⟩

/-- The contract, then the passport. -/
def inTurn : List (Act Call Choice) :=
  oneDeposit ++ [.call (.deposit (pdfFor "passport" 2)), at' 1 2, at' 1 2, at' 1 2, at' 1 2]

theorem counted_once_per_pass_inTurn :
    recorded (js "dossier") (followed (CountsOnce (js "dossier")) inTurn).2.shared =
      recorded (js "dossier") empty +
        passes (js "dossier") (followed (CountsOnce (js "dossier")) inTurn).1 := by
  obtain ⟨hr, hG⟩ := run_followed (CountsOnce (js "dossier")) inTurn (by decide +kernel)
  exact counted_once_per_pass id (js "dossier") empty _ _ hr hG (by unfold Finished; decide +kernel)

/-- Both deposits upsert before either counts. -/
def lastTwo : List (Act Call Choice) :=
  [.call (.deposit (pdfFor "contract" 1)), .call (.deposit (pdfFor "passport" 2)),
    at' 0 1, at' 1 2, at' 0 1, at' 1 2, at' 0 1, at' 1 2, at' 0 1, at' 1 2]

theorem last_two_counted_twice :
    ((machine id).Run ⟨empty, []⟩ (followed QueryAnswers lastTwo).1 (followed QueryAnswers lastTwo).2 ∧
      All (OnRequest (js "dossier") QueryAnswers) (followed QueryAnswers lastTwo).1) ∧
    Finished (followed QueryAnswers lastTwo).2 ∧
    recorded (js "dossier") empty = 0 ∧
    passes (js "dossier") (followed QueryAnswers lastTwo).1 = 1 ∧
    recorded (js "dossier") (followed QueryAnswers lastTwo).2.shared = 2 :=
  ⟨run_followed QueryAnswers lastTwo (by decide +kernel), by unfold Finished; decide +kernel, by decide,
    by decide +kernel, by decide +kernel⟩

end DepositPortal.Deposits
