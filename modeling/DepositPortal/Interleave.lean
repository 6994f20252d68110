import Mathlib.Data.List.Basic

/-!
# Calls that interleave over a shared state

A *machine* is a set of calls that run against one shared state. A call is a frame: the point it
has reached and its local variables. One step of the machine either lets a new call in or runs
one atomic step of a call that is already there; nothing orders the steps of different calls, so
the runs are all the interleavings. What the environment decides for a step (a clock reading, a
random draw, a failure) is its *choice*.

A finished call stays in the pool with its answer, so the pool is also the history of the answers
given so far, and the position of a call in the pool is its name for the whole run.

One rule is proved here and used for every service: `PairOutline.run`, an invariant of the shared
state together with an assertion about each call and a relation between any two calls, which the
steps of the other calls do not disturb. `Outline.run` is the case without a relation.
-/

namespace Interleave

variable {σ φ κ : Type}

/-- `enters` says which frames a new call may start from, `exec` runs one atomic step of a call
under a choice. `exec` is `none` when the call is over, when it has to wait, or when the choice is
not one the environment can make. -/
structure Machine (σ φ κ : Type) where
  enters : φ → Bool
  exec : κ → σ → φ → Option (σ × φ)

structure World (σ φ : Type) where
  shared : σ
  calls : List φ

inductive Act (φ κ : Type) where
  | call (f : φ)
  | run (i : Nat) (k : κ)

/-- One step of the machine. -/
def Machine.next (M : Machine σ φ κ) (w : World σ φ) : Act φ κ → Option (World σ φ)
  | .call f => if M.enters f then some ⟨w.shared, w.calls ++ [f]⟩ else none
  | .run i k =>
    match w.calls[i]? with
    | none => none
    | some f => (M.exec k w.shared f).map fun r => ⟨r.1, w.calls.set i r.2⟩

/-- One step of a run, with the worlds around it. -/
structure Move (σ φ κ : Type) where
  before : World σ φ
  act : Act φ κ
  after : World σ φ

/-- The runs from `w₀`: the moves made so far (the last one first) and the world reached. -/
inductive Machine.Run (M : Machine σ φ κ) (w₀ : World σ φ) :
    List (Move σ φ κ) → World σ φ → Prop where
  | start : Run M w₀ [] w₀
  | step {tr : List (Move σ φ κ)} {w w' : World σ φ} {a : Act φ κ} :
      Run M w₀ tr w → M.next w a = some w' → Run M w₀ (⟨w, a, w'⟩ :: tr) w'

/-- Every move of the run meets `G`. -/
def All (G : World σ φ → Act φ κ → Prop) (tr : List (Move σ φ κ)) : Prop :=
  ∀ m ∈ tr, G m.before m.act

/-- `w` is reached from `w₀` by moves that all meet `G`. -/
def Machine.Reaches (M : Machine σ φ κ) (G : World σ φ → Act φ κ → Prop)
    (w₀ w : World σ φ) : Prop :=
  ∃ tr, M.Run w₀ tr w ∧ All G tr

/-- A condition on the steps of the calls; a new call is free to enter. -/
def OnRun (P : World σ φ → κ → φ → Prop) (w : World σ φ) : Act φ κ → Prop
  | .call _ => True
  | .run i k => ∀ f ∈ w.calls[i]?, P w k f

instance (P : World σ φ → κ → φ → Prop) [∀ w k f, Decidable (P w k f)] (w : World σ φ)
    (a : Act φ κ) : Decidable (OnRun P w a) :=
  match a with
  | .call _ => isTrue trivial
  | .run i k => inferInstanceAs (Decidable (∀ f ∈ w.calls[i]?, P w k f))

/-- How many moves of the run take the world from outside `P` into `P`. -/
def rises (P : σ → Bool) (tr : List (Move σ φ κ)) : Nat :=
  tr.countP fun m => !P m.before.shared && P m.after.shared

variable {M : Machine σ φ κ} {G : World σ φ → Act φ κ → Prop} {w₀ w w' : World σ φ}
  {tr : List (Move σ φ κ)} {a : Act φ κ}

theorem rises_cons (P : σ → Bool) (m : Move σ φ κ) : rises P (m :: tr) =
    rises P tr + if P m.before.shared = false ∧ P m.after.shared = true then 1 else 0 := by
  simp [rises, List.countP_cons]

/-! ## What one step does -/

theorem next_cases (h : M.next w a = some w') :
    (∃ f, a = .call f ∧ M.enters f = true ∧ w' = ⟨w.shared, w.calls ++ [f]⟩) ∨
    (∃ i k f s f', a = .run i k ∧ w.calls[i]? = some f ∧ M.exec k w.shared f = some (s, f') ∧
      w' = ⟨s, w.calls.set i f'⟩) := by
  cases a with
  | call f =>
    simp only [Machine.next, Option.ite_none_right_eq_some, Option.some.injEq] at h
    exact Or.inl ⟨f, rfl, h.1, h.2.symm⟩
  | run i k =>
    cases hf : w.calls[i]? with
    | none => simp [Machine.next, hf] at h
    | some f =>
      simp only [Machine.next, hf, Option.map_eq_some_iff] at h
      obtain ⟨⟨s, f'⟩, he, rfl⟩ := h
      exact Or.inr ⟨i, k, f, s, f', rfl, hf, he, rfl⟩

theorem next_run {i : Nat} {k : κ} {f f' : φ} {s : σ} (hf : w.calls[i]? = some f)
    (he : M.exec k w.shared f = some (s, f')) :
    M.next w (.run i k) = some ⟨s, w.calls.set i f'⟩ := by
  simp [Machine.next, hf, he]

theorem lt_of_getElem?_eq_some {l : List φ} {i : Nat} {f : φ} (h : l[i]? = some f) :
    i < l.length :=
  (List.getElem?_eq_some_iff.1 h).1

/-- A step of call `i`, by what the call is after it. -/
theorem next_run_cases {i : Nat} {k : κ} {f' : φ} (hn : M.next w (.run i k) = some w')
    (hf' : w'.calls[i]? = some f') : ∃ f s, w.calls[i]? = some f ∧
      M.exec k w.shared f = some (s, f') ∧ w' = ⟨s, w.calls.set i f'⟩ := by
  obtain ⟨_, e, -⟩ | ⟨j, k', f, s, g', e, hf, he, rfl⟩ := next_cases hn
  · cases e
  cases e
  obtain rfl : g' = f' := by simpa [lt_of_getElem?_eq_some hf] using hf'
  exact ⟨f, s, hf, he, rfl⟩

/-- The calls after a step: the one that ran, and the others as they were. -/
theorem getElem?_set_cases {l : List φ} {i j : Nat} {f' g : φ} (h : (l.set i f')[j]? = some g) :
    (j = i ∧ g = f') ∨ (j ≠ i ∧ l[j]? = some g) := by
  by_cases e : j = i
  · subst e
    have hj : j < l.length := by simpa using lt_of_getElem?_eq_some h
    rw [List.getElem?_set_self hj] at h
    exact Or.inl ⟨rfl, (Option.some.inj h).symm⟩
  · rw [List.getElem?_set_ne (Ne.symm e)] at h
    exact Or.inr ⟨e, h⟩

theorem getElem?_append_cases {l : List φ} {f g : φ} {j : Nat} (h : (l ++ [f])[j]? = some g) :
    (j = l.length ∧ g = f) ∨ (j < l.length ∧ l[j]? = some g) := by
  have hj : j < l.length + 1 := by simpa using lt_of_getElem?_eq_some h
  by_cases e : j < l.length
  · rw [List.getElem?_append_left e] at h
    exact Or.inr ⟨e, h⟩
  · have e' : j = l.length := by omega
    subst e'
    simp at h
    exact Or.inl ⟨rfl, h.symm⟩

/-- Counting the calls that satisfy `p`, before and after one of them stepped. -/
theorem countP_set_add {l : List φ} {i : Nat} {f : φ} (h : l[i]? = some f) (f' : φ) (p : φ → Bool) :
    (l.set i f').countP p + (if p f = true then 1 else 0) =
      l.countP p + (if p f' = true then 1 else 0) := by
  obtain ⟨hi, rfl⟩ := List.getElem?_eq_some_iff.1 h
  have hle := List.boole_getElem_le_countP (p := p) hi
  rw [List.countP_set hi]
  omega

/-! ## Runs -/

@[simp] theorem all_nil : All G ([] : List (Move σ φ κ)) := by simp [All]

@[simp] theorem all_cons {m : Move σ φ κ} : All G (m :: tr) ↔ G m.before m.act ∧ All G tr := by
  simp [All]

theorem Machine.Run.reaches (h : M.Run w₀ tr w) (hG : All G tr) : M.Reaches G w₀ w := ⟨tr, h, hG⟩

theorem Machine.Reaches.refl (w : World σ φ) : M.Reaches G w w := ⟨[], .start, all_nil⟩

theorem Machine.Reaches.step (h : M.Reaches G w₀ w) (hg : G w a) (hn : M.next w a = some w') :
    M.Reaches G w₀ w' := by
  obtain ⟨tr, hr, hG⟩ := h
  exact ⟨_, hr.step hn, all_cons.2 ⟨hg, hG⟩⟩

/-- Induction along a guarded run. -/
theorem Machine.Reaches.induct {I : World σ φ → Prop} (h : M.Reaches G w₀ w) (h0 : I w₀)
    (hs : ∀ w a w', M.Reaches G w₀ w → I w → G w a → M.next w a = some w' → I w') : I w := by
  obtain ⟨tr, hr, hG⟩ := h
  induction hr with
  | start => exact h0
  | step hr hn ih =>
    obtain ⟨hg, hG⟩ := all_cons.1 hG
    exact hs _ _ _ (hr.reaches hG) (ih hG) hg hn

theorem Machine.Reaches.trans {w₁ : World σ φ} (h : M.Reaches G w₀ w₁) (h' : M.Reaches G w₁ w) :
    M.Reaches G w₀ w :=
  h'.induct h fun _ _ _ _ ih hg hn => ih.step hg hn

theorem Machine.Reaches.weaken {G' : World σ φ → Act φ κ → Prop} (h : M.Reaches G w₀ w)
    (hG : ∀ w a, G w a → G' w a) : M.Reaches G' w₀ w :=
  h.induct (.refl _) fun _ _ _ _ ih hg hn => ih.step (hG _ _ hg) hn

theorem Machine.Run.weaken {G' : World σ φ → Act φ κ → Prop} (h : All G tr)
    (hG : ∀ w a, G w a → G' w a) : All G' tr :=
  fun m hm => hG _ _ (h m hm)

theorem OnRun.weaken {P Q : World σ φ → κ → φ → Prop} (h : OnRun P w a)
    (hPQ : ∀ w k f, P w k f → Q w k f) : OnRun Q w a := by
  cases a with
  | call f => trivial
  | run i k => exact fun f hf => hPQ _ _ _ (h f hf)

/-- A guarded run, cut at one of its moves. -/
theorem Machine.Run.of_mem_all {m : Move σ φ κ} (h : M.Run w₀ tr w) (hG : All G tr) (hm : m ∈ tr) :
    M.Reaches G w₀ m.before ∧ M.next m.before m.act = some m.after ∧ M.Reaches G m.after w := by
  induction h with
  | start => cases hm
  | step hr hn ih =>
    obtain ⟨hg, hG⟩ := all_cons.1 hG
    rcases List.mem_cons.1 hm with rfl | hm
    · exact ⟨hr.reaches hG, hn, .refl _⟩
    · obtain ⟨hb, hnx, ha⟩ := ih hG hm
      exact ⟨hb, hnx, ha.step hg hn⟩

/-- A run, cut at one of its moves. -/
theorem Machine.Run.of_mem {m : Move σ φ κ} (h : M.Run w₀ tr w) (hm : m ∈ tr) :
    M.Reaches (fun _ _ => True) w₀ m.before ∧ M.next m.before m.act = some m.after ∧
      M.Reaches (fun _ _ => True) m.after w :=
  h.of_mem_all (fun _ _ => trivial) hm

/-- The part of a run up to one of its moves. -/
theorem Machine.Run.upto {post : List (Move σ φ κ)} {m : Move σ φ κ}
    (h : M.Run w₀ (post ++ m :: tr) w) :
    M.Run w₀ tr m.before ∧ M.next m.before m.act = some m.after := by
  induction post generalizing w with
  | nil => cases h with | step hr hn => exact ⟨hr, hn⟩
  | cons _ post ih => cases h with | step hr _ => exact ih hr

/-- A property of the shared state that every step keeps. -/
theorem Machine.Reaches.shared {I : σ → Prop} (h : M.Reaches G w₀ w) (h0 : I w₀.shared)
    (hs : ∀ k s f s' f', I s → M.exec k s f = some (s', f') → I s') : I w.shared := by
  refine h.induct (I := fun w => I w.shared) h0 ?_
  intro w a w' _ ih _ hn
  obtain ⟨f, -, -, rfl⟩ | ⟨i, k, f, s, f', -, -, he, rfl⟩ := next_cases hn
  · exact ih
  · exact hs _ _ _ _ _ ih he

/-- Following one call along a run: its own steps and those of the others keep `P`. -/
theorem Machine.Reaches.track {P : World σ φ → φ → Prop} {i : Nat} {f : φ} (h : M.Reaches G w₀ w)
    (hf : w₀.calls[i]? = some f) (h0 : P w₀ f)
    (own : ∀ v k f s f', M.Reaches G w₀ v → G v (.run i k) → v.calls[i]? = some f → P v f →
      M.exec k v.shared f = some (s, f') → P ⟨s, v.calls.set i f'⟩ f')
    (other : ∀ v a v' f, M.Reaches G w₀ v → G v a → (∀ k, a ≠ .run i k) → v.calls[i]? = some f →
      P v f → M.next v a = some v' → P v' f) :
    ∃ f', w.calls[i]? = some f' ∧ P w f' := by
  refine h.induct (I := fun w => ∃ f', w.calls[i]? = some f' ∧ P w f') ⟨f, hf, h0⟩ ?_
  rintro v a v' hr ⟨x, hx, hp⟩ hG hn
  have hv' := hn
  obtain ⟨g, rfl, -, rfl⟩ | ⟨j, k, g, s, g', rfl, hg, he, rfl⟩ := next_cases hn
  · refine ⟨x, ?_, other v _ _ x hr hG (by simp) hx hp hv'⟩
    simpa [List.getElem?_append_left (lt_of_getElem?_eq_some hx)] using hx
  · by_cases hij : j = i
    · subst hij
      rw [hx] at hg
      cases hg
      exact ⟨g', by simp [lt_of_getElem?_eq_some hx], own v k x s g' hr hG hx hp he⟩
    · refine ⟨x, by simpa [List.getElem?_set_ne hij] using hx, ?_⟩
      exact other v _ _ x hr hG (fun k' e => hij (by cases e; rfl)) hx hp hv'

/-! ## Proof outlines -/

/-- The assertions of an outline, for a whole world. -/
def Holds (I : σ → Prop) (J : σ → φ → Prop) (w : World σ φ) : Prop :=
  I w.shared ∧ ∀ f ∈ w.calls, J w.shared f

/-- Two different calls of the pool are always related by `K`. -/
def Apart (K : φ → φ → Prop) (w : World σ φ) : Prop :=
  ∀ (i j : Nat) (f e : φ), i ≠ j → w.calls[i]? = some f → w.calls[j]? = some e → K f e

/-- An invariant `I` of the shared state, an assertion `J` about each call and a relation `K` between
any two calls: new calls satisfy theirs, a step keeps `I` and what it asserts itself, and no step
disturbs the assertion of a call it is related to. `g` is what is known about the choices of the
run. -/
structure PairOutline (M : Machine σ φ κ) (g : κ → σ → φ → Prop) (I : σ → Prop)
    (J : σ → φ → Prop) (K : φ → φ → Prop) : Prop where
  symm : ∀ f e, K f e → K e f
  enter : ∀ s f, I s → M.enters f = true → J s f
  meet : ∀ s f e, I s → M.enters f = true → J s e → K f e
  keeps : ∀ k s f s' f', I s → J s f → g k s f → M.exec k s f = some (s', f') → I s' ∧ J s' f'
  stable : ∀ k s f s' f' e, I s → J s f → J s e → K f e → g k s f →
    M.exec k s f = some (s', f') → J s' e
  apart : ∀ k s f s' f' e, I s → J s f → J s e → K f e → g k s f →
    M.exec k s f = some (s', f') → K f' e

/-- An outline whose calls need to know nothing of each other. -/
structure Outline (M : Machine σ φ κ) (g : κ → σ → φ → Prop) (I : σ → Prop)
    (J : σ → φ → Prop) : Prop where
  enter : ∀ s f, I s → M.enters f = true → J s f
  keeps : ∀ k s f s' f', I s → J s f → g k s f → M.exec k s f = some (s', f') → I s' ∧ J s' f'
  stable : ∀ k s f s' f' e, I s → J s f → J s e → g k s f → M.exec k s f = some (s', f') → J s' e

section
variable {g : κ → σ → φ → Prop} {I : σ → Prop} {J : σ → φ → Prop} {K : φ → φ → Prop}

theorem Holds.call (h : Holds I J w) {i : Nat} {f : φ} (hf : w.calls[i]? = some f) :
    J w.shared f :=
  h.2 f (List.mem_of_getElem? hf)

theorem PairOutline.next (o : PairOutline M g I J K) (h : Holds I J w) (hK : Apart K w)
    (hg : ∀ i k f, a = .run i k → w.calls[i]? = some f → g k w.shared f)
    (hn : M.next w a = some w') : Holds I J w' ∧ Apart K w' := by
  obtain ⟨f, -, hf, rfl⟩ | ⟨i, k, f, s, f', ha, hf, he, rfl⟩ := next_cases hn
  · refine ⟨⟨h.1, fun e he => ?_⟩, fun i j x y hij hx hy => ?_⟩
    · rcases List.mem_append.1 he with he | he
      · exact h.2 e he
      · rw [List.mem_singleton.1 he]; exact o.enter _ _ h.1 hf
    · rcases getElem?_append_cases hx with ⟨rfl, rfl⟩ | ⟨_, hx'⟩
      · rcases getElem?_append_cases hy with ⟨rfl, rfl⟩ | ⟨_, hy'⟩
        · exact absurd rfl hij
        · exact o.meet _ _ _ h.1 hf (h.call hy')
      · rcases getElem?_append_cases hy with ⟨rfl, rfl⟩ | ⟨_, hy'⟩
        · exact o.symm _ _ (o.meet _ _ _ h.1 hf (h.call hx'))
        · exact hK i j x y hij hx' hy'
  · have hk := hg i k f ha hf
    have hown := o.keeps k _ f s f' h.1 (h.call hf) hk he
    refine ⟨⟨hown.1, fun e hm => ?_⟩, fun p q x y hpq hx hy => ?_⟩
    · obtain ⟨j, hj⟩ := List.mem_iff_getElem?.1 hm
      rcases getElem?_set_cases hj with ⟨-, rfl⟩ | ⟨hji, hj'⟩
      · exact hown.2
      · exact o.stable k _ f s f' e h.1 (h.call hf) (h.call hj') (hK i j f e (Ne.symm hji) hf hj')
          hk he
    · rcases getElem?_set_cases hx with ⟨rfl, rfl⟩ | ⟨hpi, hx'⟩
      · rcases getElem?_set_cases hy with ⟨rfl, rfl⟩ | ⟨hqi, hy'⟩
        · exact absurd rfl hpq
        · exact o.apart k _ f s _ y h.1 (h.call hf) (h.call hy') (hK p q f y hpq hf hy') hk he
      · rcases getElem?_set_cases hy with ⟨rfl, rfl⟩ | ⟨hqi, hy'⟩
        · exact o.symm _ _ (o.apart k _ f s _ x h.1 (h.call hf) (h.call hx')
            (hK q p f x (Ne.symm hpq) hf hx') hk he)
        · exact hK p q x y hpq hx' hy'

/-- A pair outline holds in every world of every run whose choices meet `g`. -/
theorem PairOutline.run (o : PairOutline M g I J K) (h : M.Reaches G w₀ w)
    (hg : ∀ w i k f, G w (.run i k) → w.calls[i]? = some f → g k w.shared f)
    (h0 : Holds I J w₀) (hK0 : Apart K w₀) : Holds I J w ∧ Apart K w :=
  h.induct ⟨h0, hK0⟩ fun w _ _ _ ih hG hn =>
    o.next ih.1 ih.2 (fun i k f ha hf => hg w i k f (ha ▸ hG) hf) hn

/-- Over an outline, a symmetric relation that a new call has to every other call, and that a
stepping call keeps, makes a pair outline. -/
theorem Outline.pair (o : Outline M g I J) (symm : ∀ f e, K f e → K e f)
    (enter : ∀ s f e, I s → M.enters f = true → J s e → K f e)
    (step : ∀ k s f s' f' e, I s → J s f → J s e → K f e → g k s f →
      M.exec k s f = some (s', f') → K f' e) : PairOutline M g I J K where
  symm := symm
  enter := o.enter
  meet := enter
  keeps := o.keeps
  stable k s f s' f' e hI hf he _ := o.stable k s f s' f' e hI hf he
  apart := step

theorem Outline.alone (o : Outline M g I J) : PairOutline M g I J fun _ _ => True :=
  o.pair (fun _ _ h => h) (fun _ _ _ _ _ _ => trivial) (fun _ _ _ _ _ _ _ _ _ _ _ _ => trivial)

theorem Outline.next (o : Outline M g I J) (h : Holds I J w)
    (hg : ∀ i k f, a = .run i k → w.calls[i]? = some f → g k w.shared f)
    (hn : M.next w a = some w') : Holds I J w' :=
  (o.alone.next h (fun _ _ _ _ _ _ _ => trivial) hg hn).1

/-- An outline holds in every world of every run whose choices meet `g`. -/
theorem Outline.run (o : Outline M g I J) (h : M.Reaches G w₀ w)
    (hg : ∀ w i k f, G w (.run i k) → w.calls[i]? = some f → g k w.shared f)
    (h0 : Holds I J w₀) : Holds I J w :=
  (o.alone.run h hg h0 fun _ _ _ _ _ _ _ => trivial).1

end

/-! ## A call on its own -/

/-- A call runs under these choices with nobody stepping in between. -/
def Machine.alone (M : Machine σ φ κ) : List κ → σ → φ → Option (σ × φ)
  | [], s, f => some (s, f)
  | k :: ks, s, f => (M.exec k s f).bind fun r => M.alone ks r.1 r.2

section
variable {k : κ} {ks ks' : List κ} {s s' s₁ : σ} {f f' f₁ : φ}

theorem alone_nil (s : σ) (f : φ) : M.alone [] s f = some (s, f) := rfl

theorem alone_cons (he : M.exec k s f = some (s₁, f₁)) (h : M.alone ks s₁ f₁ = some (s', f')) :
    M.alone (k :: ks) s f = some (s', f') := by
  simp only [Machine.alone, he, Option.bind_some, h]

theorem alone_append (h : M.alone ks s f = some (s₁, f₁)) (h' : M.alone ks' s₁ f₁ = some (s', f')) :
    M.alone (ks ++ ks') s f = some (s', f') := by
  induction ks generalizing s f with
  | nil => cases h; exact h'
  | cons k ks ih =>
    obtain ⟨⟨s₂, f₂⟩, he, h⟩ := Option.bind_eq_some_iff.1 h
    exact alone_cons he (ih h)

/-- It is a run like any other, of this one call. -/
theorem reaches_of_alone {i : Nat} (hf : w.calls[i]? = some f)
    (h : M.alone ks w.shared f = some (s', f')) :
    M.Reaches (fun _ a => ∃ k ∈ ks, a = .run i k) w ⟨s', w.calls.set i f'⟩ := by
  induction ks generalizing w f with
  | nil =>
    cases h
    obtain ⟨hi, rfl⟩ := List.getElem?_eq_some_iff.1 hf
    rw [List.set_getElem_self hi]
    exact .refl w
  | cons k ks ih =>
    obtain ⟨⟨s₁, f₁⟩, he, h⟩ := Option.bind_eq_some_iff.1 h
    have hfirst := (Machine.Reaches.refl w).step (G := fun _ a => ∃ k' ∈ k :: ks, a = Act.run i k')
      ⟨k, List.mem_cons_self, rfl⟩ (next_run hf he)
    have hrest := ih (w := ⟨s₁, w.calls.set i f₁⟩) (by simp [lt_of_getElem?_eq_some hf]) h
    simp only [List.set_set] at hrest
    exact hfirst.trans (hrest.weaken fun _ a ⟨k', hk', e⟩ => ⟨k', List.mem_cons_of_mem _ hk', e⟩)

end

/-! ## Two runs -/

/-- The steps call `i` has made in a run, the last one first: the choice of each and the state it met. -/
def stepsOf (i : Nat) (tr : List (Move σ φ κ)) : List (κ × σ) :=
  tr.filterMap fun m => match m.act with
    | .run j k => if j = i then some (k, m.before.shared) else none
    | .call _ => none

/-- Where these steps take a call. -/
def Machine.frameAfter (M : Machine σ φ κ) (f : φ) : List (κ × σ) → Option φ
  | [] => some f
  | (k, s) :: steps => (M.frameAfter f steps).bind fun g => (M.exec k s g).map Prod.snd

/-- What a call is depends on its own steps only, and on the states they met. -/
theorem Machine.Run.frameAfter {i : Nat} {f : φ} (h : M.Run w₀ tr w) (hf : w₀.calls[i]? = some f) :
    ∃ f', w.calls[i]? = some f' ∧ M.frameAfter f (stepsOf i tr) = some f' := by
  induction h with
  | start => exact ⟨f, hf, rfl⟩
  | step hr hn ih =>
    obtain ⟨g, hg, hframe⟩ := ih
    obtain ⟨e, rfl, -, rfl⟩ | ⟨j, k, e, s, e', rfl, he, hexec, rfl⟩ := next_cases hn
    · refine ⟨g, ?_, hframe⟩
      rwa [List.getElem?_append_left (lt_of_getElem?_eq_some hg)]
    · by_cases hij : j = i
      · subst hij
        obtain rfl : e = g := Option.some.inj (he.symm.trans hg)
        refine ⟨e', List.getElem?_set_self (lt_of_getElem?_eq_some hg), ?_⟩
        simp only [stepsOf, List.filterMap_cons, if_true, Machine.frameAfter] at hframe ⊢
        rw [hframe, Option.bind_some, hexec, Option.map_some]
      · refine ⟨g, by rwa [List.getElem?_set_ne hij], ?_⟩
        simpa only [stepsOf, List.filterMap_cons, if_neg hij] using hframe

/-- **Lockstep.** A call in each of two runs, whose frames are alike at first and whose steps are taken
under the same choices in states that agree: their frames are alike to the end, if one step keeps them so. -/
theorem lockstep {M' : Machine σ φ κ} {R : σ → σ → Prop} {F : φ → φ → Prop} {v v' : World σ φ}
    {tr' : List (Move σ φ κ)} {i j : Nat} {f g : φ}
    (hstep : ∀ k s t s' t' f g f' g', R s t → F f g → M.exec k s f = some (s', f') →
      M'.exec k t g = some (t', g') → F f' g')
    (h : M.Run w₀ tr w) (h' : M'.Run v tr' v') (hf : w₀.calls[i]? = some f) (hg : v.calls[j]? = some g)
    (hF : F f g)
    (hR : List.Forall₂ (fun a b => a.1 = b.1 ∧ R a.2 b.2) (stepsOf i tr) (stepsOf j tr')) :
    ∃ f' g', w.calls[i]? = some f' ∧ v'.calls[j]? = some g' ∧ F f' g' := by
  obtain ⟨f', hf', hafter⟩ := h.frameAfter hf
  obtain ⟨g', hg', hafter'⟩ := h'.frameAfter hg
  refine ⟨f', g', hf', hg', ?_⟩
  clear hf' hg'
  generalize stepsOf i tr = steps, stepsOf j tr' = steps' at hR hafter hafter'
  induction hR generalizing f' g' with
  | nil => cases hafter; cases hafter'; exact hF
  | @cons a b steps steps' hab _ ih =>
    obtain ⟨k, s⟩ := a
    obtain ⟨k', t⟩ := b
    obtain ⟨rfl, hst⟩ := hab
    obtain ⟨f₁, hf₁, he⟩ := Option.bind_eq_some_iff.1 hafter
    obtain ⟨g₁, hg₁, he'⟩ := Option.bind_eq_some_iff.1 hafter'
    obtain ⟨⟨s', f₂⟩, hexec, rfl⟩ := Option.map_eq_some_iff.1 he
    obtain ⟨⟨t', g₂⟩, hexec', rfl⟩ := Option.map_eq_some_iff.1 he'
    exact hstep k s t s' t' f₁ g₁ f₂ g₂ hst (ih f₁ g₁ hf₁ hg₁) hexec hexec'

/-! ## Playing a list of steps -/

/-- Runs the steps in order, as long as each is possible and meets `g`, on top of the moves `tr`
already made. -/
def Machine.follow (M : Machine σ φ κ) (g : World σ φ → Act φ κ → Bool) (tr : List (Move σ φ κ))
    (w : World σ φ) : List (Act φ κ) → Option (List (Move σ φ κ) × World σ φ)
  | [] => some (tr, w)
  | a :: as =>
    if g w a then (M.next w a).bind fun w' => M.follow g (⟨w, a, w'⟩ :: tr) w' as else none

/-- The world reached by the steps. -/
def Machine.play (M : Machine σ φ κ) (g : World σ φ → Act φ κ → Bool) (w : World σ φ)
    (acts : List (Act φ κ)) : Option (World σ φ) :=
  (M.follow g [] w acts).map Prod.snd

theorem run_of_follow {g : World σ φ → Act φ κ → Bool} {acts : List (Act φ κ)}
    {tr' : List (Move σ φ κ)} (hr : M.Run w₀ tr w) (hG : All (fun w a => g w a = true) tr)
    (h : M.follow g tr w acts = some (tr', w')) :
    M.Run w₀ tr' w' ∧ All (fun w a => g w a = true) tr' := by
  induction acts generalizing tr w with
  | nil => cases h; exact ⟨hr, hG⟩
  | cons a as ih =>
    simp only [Machine.follow, Option.ite_none_right_eq_some, Option.bind_eq_some_iff] at h
    obtain ⟨hg, w₁, hn, h⟩ := h
    exact ih (hr.step hn) (all_cons.2 ⟨hg, hG⟩) h

theorem reaches_of_play {g : World σ φ → Act φ κ → Bool} {acts : List (Act φ κ)}
    (h : M.play g w acts = some w') : M.Reaches (fun w a => g w a = true) w w' := by
  obtain ⟨⟨tr, w₁⟩, hf, rfl⟩ := Option.map_eq_some_iff.1 h
  exact ⟨tr, run_of_follow .start all_nil hf⟩

/-- When every step is possible, the default of a played world does not matter. -/
theorem reaches_getD {g : World σ φ → Act φ κ → Bool} {acts : List (Act φ κ)}
    (h : (M.play g w acts).isSome = true) (w' : World σ φ) :
    M.Reaches (fun w a => g w a = true) w ((M.play g w acts).getD w') := by
  obtain ⟨w₁, hw⟩ := Option.isSome_iff_exists.1 h
  rw [hw]
  exact reaches_of_play hw

/-- Under a guard that can be decided. -/
theorem reaches_decide {G : World σ φ → Act φ κ → Prop} [∀ w a, Decidable (G w a)] {acts : List (Act φ κ)}
    (h : (M.play (fun w a => decide (G w a)) w acts).isSome = true) (w' : World σ φ) :
    M.Reaches G w ((M.play (fun w a => decide (G w a)) w acts).getD w') :=
  (reaches_getD h w').weaken fun _ _ hg => of_decide_eq_true hg

/-- The moves and the world, when every step is possible. -/
theorem run_getD {g : World σ φ → Act φ κ → Bool} {acts : List (Act φ κ)}
    (h : (M.follow g [] w acts).isSome = true) (d : List (Move σ φ κ) × World σ φ) :
    M.Run w ((M.follow g [] w acts).getD d).1 ((M.follow g [] w acts).getD d).2 ∧
      All (fun w a => g w a = true) ((M.follow g [] w acts).getD d).1 := by
  obtain ⟨⟨tr, w₁⟩, hw⟩ := Option.isSome_iff_exists.1 h
  rw [hw]
  exact run_of_follow .start all_nil hw

end Interleave
