import DepositPortal.Basic
import Mathlib.Data.List.Basic

/-!
# `useResource` (frontend/src/hooks/use-resource.ts)

Any number of loads may be in flight, and `generation` is how an answer finds out that nobody waits
for it any more: every `run` and every clean-up moves it on, and a load remembers where it was.

| here | there |
| --- | --- |
| `Hook.run`      | `run` (`:32`), up to its `await` |
| `Hook.settled`  | the rest of `run`: `try`, `catch` and `finally` (`:36-45`) |
| `Hook.cleanUp`  | the clean-up of the effect (`:57`) |

`V` is the values of the language, with its `null`. One hook is followed: after the unmount its cells
are still written by a `reload`, as the code writes them, though React shows them no more.
-/
namespace DepositPortal.Resource

structure Hook (V : Type) where
  data : V
  error : V
  loading : Bool
  generation : Nat
  /-- `mine` of each load, in the order they were started; `none` once it has settled. -/
  loads : List (Option Nat)
  deriving DecidableEq

inductive Outcome (V : Type) where
  | resolved (result : V)
  | rejected (caught : V)
  deriving DecidableEq

inductive Event (V : Type) where
  | mount
  | change
  | reload
  | unmount
  | settle (i : Nat) (outcome : Outcome V)
  deriving DecidableEq

variable {V : Type} {null : V} {h h' h₁ : Hook V} {e : Event V} {evs mid post : List (Event V)}
  {i m : Nat} {o : Outcome V} {x : Option Nat}

def Hook.initial (null : V) : Hook V := ⟨null, null, true, 0, []⟩

def Hook.run (h : Hook V) : Hook V :=
  let mine := h.generation + 1
  { h with generation := mine, loading := true, loads := h.loads ++ [some mine] }

def Hook.cleanUp (h : Hook V) : Hook V := { h with generation := h.generation + 1 }

def Hook.settled (null : V) (h : Hook V) (mine : Nat) (outcome : Outcome V) : Hook V :=
  let h := match outcome with
    | .resolved result =>
      if h.generation ≠ mine then h else { h with data := result, error := null }
    | .rejected caught => if h.generation ≠ mine then h else { h with error := caught }
  -- `finally` runs after the early `return`s too
  if h.generation = mine then { h with loading := false } else h

/-- One event; nothing when the load that is said to settle is not in flight. -/
def step (null : V) (h : Hook V) : Event V → Option (Hook V)
  | .mount => some h.run
  | .change => some h.cleanUp.run
  | .reload => some h.run
  | .unmount => some h.cleanUp
  | .settle i outcome =>
    match h.loads[i]? with
    | some (some mine) =>
      some ({ h with loads := h.loads.set i none }.settled null mine outcome)
    | _ => none

def play (null : V) (h : Hook V) (evs : List (Event V)) : Option (Hook V) :=
  evs.foldlM (step null) h

def Event.starts : Event V → Bool
  | .mount | .change | .reload => true
  | .unmount | .settle _ _ => false

/-- A start or a clean-up. -/
def Event.bumps : Event V → Bool
  | .settle _ _ => false
  | _ => true

/-- What the screen reads. -/
def Hook.cells (h : Hook V) : V × V × Bool := (h.data, h.error, h.loading)

/-! ## One event -/

@[simp] theorem play_nil : play null h [] = some h := rfl

@[simp] theorem play_cons : play null h (e :: evs) = (step null h e).bind fun h' => play null h' evs :=
  rfl

theorem play_append : play null h (evs ++ mid) = (play null h evs).bind fun h' => play null h' mid := by
  simp only [play, List.foldlM_append]
  rfl

@[simp] theorem settled_loads : (h.settled null m o).loads = h.loads := by
  by_cases hm : h.generation = m <;> cases o <;> simp [Hook.settled, hm]

@[simp] theorem settled_generation : (h.settled null m o).generation = h.generation := by
  by_cases hm : h.generation = m <;> cases o <;> simp [Hook.settled, hm]

theorem settled_stale (hm : m ≠ h.generation) : (h.settled null m o).cells = h.cells := by
  cases o <;> simp [Hook.settled, hm.symm]

/-- What the screen reads after the answer of the load it waited for. -/
def Outcome.cells (null data : V) : Outcome V → V × V × Bool
  | .resolved result => (result, null, false)
  | .rejected caught => (data, caught, false)

theorem settled_current (hm : m = h.generation) :
    (h.settled null m o).cells = o.cells null h.data := by
  cases o <;> simp [Hook.settled, Hook.cells, Outcome.cells, hm]

/-- What a load that settles does. -/
theorem settle_cases (hs : step null h (.settle i o) = some h') :
    ∃ mine, h.loads[i]? = some (some mine) ∧ h'.loads = h.loads.set i none ∧
      h'.generation = h.generation ∧ h' = ({ h with loads := h.loads.set i none }.settled null mine o) := by
  simp only [step] at hs
  split at hs
  · next mine hi =>
    obtain rfl := Option.some.inj hs
    exact ⟨mine, hi, settled_loads, settled_generation, rfl⟩
  · cases hs

/-- What a start does. -/
theorem start_cases (he : e.starts = true) (hs : step null h e = some h') :
    h.generation < h'.generation ∧ h'.loads = h.loads ++ [some h'.generation] ∧
      h'.data = h.data := by
  cases e with
  | mount | change | reload =>
    obtain rfl := Option.some.inj hs
    exact ⟨by simp only [Hook.run, Hook.cleanUp]; omega, rfl, rfl⟩
  | unmount | settle => cases he

/-- A load in flight stays as it is until it settles, and is then over. -/
theorem step_load (hs : step null h e = some h') (hi : h.loads[i]? = some x) :
    h'.loads[i]? = some x ∨ h'.loads[i]? = some none := by
  have hlt := (List.getElem?_eq_some_iff.1 hi).1
  cases e with
  | mount | change | reload =>
    obtain ⟨-, hl, -⟩ := start_cases rfl hs
    rw [hl, List.getElem?_append_left hlt]
    exact .inl hi
  | unmount =>
    obtain rfl := Option.some.inj hs
    exact .inl hi
  | settle k o =>
    obtain ⟨-, -, hl, -⟩ := settle_cases hs
    rw [hl]
    by_cases hk : k = i
    · subst hk
      simp [hlt]
    · rw [List.getElem?_set_ne hk]
      exact .inl hi

theorem step_generation (hs : step null h e = some h') :
    h.generation ≤ h'.generation ∧ (e.bumps = true → h.generation < h'.generation) ∧
      (e.bumps = false → h'.generation = h.generation) := by
  cases e with
  | mount | change | reload =>
    obtain ⟨hlt, -, -⟩ := start_cases rfl hs
    exact ⟨hlt.le, fun _ => hlt, by simp [Event.bumps]⟩
  | unmount =>
    obtain rfl := Option.some.inj hs
    simp [Hook.cleanUp, Event.bumps]
  | settle k o =>
    obtain ⟨-, -, -, hg, -⟩ := settle_cases hs
    simp [hg, Event.bumps]

/-! ## Runs -/

theorem play_load (hp : play null h evs = some h') (hi : h.loads[i]? = some x) :
    h'.loads[i]? = some x ∨ h'.loads[i]? = some none := by
  induction evs generalizing h x with
  | nil =>
    obtain rfl := Option.some.inj hp
    exact .inl hi
  | cons e evs ih =>
    obtain ⟨h₁, hs, hp⟩ := Option.bind_eq_some_iff.1 hp
    rcases step_load hs hi with h | h
    · exact ih hp h
    · exact .inr ((ih hp h).elim id id)

theorem play_generation (hp : play null h evs = some h') :
    h.generation ≤ h'.generation ∧
      ((∃ b ∈ evs, b.bumps = true) → h.generation < h'.generation) ∧
      ((∀ b ∈ evs, b.bumps = false) → h'.generation = h.generation) := by
  induction evs generalizing h with
  | nil =>
    obtain rfl := Option.some.inj hp
    simp
  | cons e evs ih =>
    obtain ⟨h₁, hs, hp⟩ := Option.bind_eq_some_iff.1 hp
    obtain ⟨hle, hlt, heq⟩ := step_generation hs
    obtain ⟨hle', hlt', heq'⟩ := ih hp
    refine ⟨hle.trans hle', ?_, ?_⟩
    · rintro ⟨b, hb, hbump⟩
      rcases List.mem_cons.1 hb with rfl | hb
      · exact (hlt hbump).trans_le hle'
      · exact hle.trans_lt (hlt' ⟨b, hb, hbump⟩)
    · intro hall
      rw [heq' fun b hb => hall b (List.mem_cons_of_mem _ hb), heq (hall e List.mem_cons_self)]

/-- A load that has settled does not settle again. -/
theorem not_settle_again (hi : h.loads[i]? = some none) (hp : play null h evs = some h') :
    .settle i o ∉ evs := by
  intro hmem
  obtain ⟨a, b, rfl⟩ := List.append_of_mem hmem
  rw [play_append] at hp
  obtain ⟨h₁, ha, hp⟩ := Option.bind_eq_some_iff.1 hp
  obtain ⟨h₂, hs, -⟩ := Option.bind_eq_some_iff.1 hp
  obtain ⟨mine, hmine, -⟩ := settle_cases hs
  rcases play_load ha hi with h | h <;> rw [hmine] at h <;> cases h

/-- A load that is still in flight has not settled. -/
theorem not_settled_yet (hp : play null h evs = some h') (hi : h'.loads[i]? = some (some m)) :
    .settle i o ∉ evs := by
  intro hmem
  obtain ⟨a, b, rfl⟩ := List.append_of_mem hmem
  rw [play_append] at hp
  obtain ⟨h₁, ha, hp⟩ := Option.bind_eq_some_iff.1 hp
  obtain ⟨h₂, hs, hb⟩ := Option.bind_eq_some_iff.1 hp
  obtain ⟨mine, hmine, hl, -⟩ := settle_cases hs
  have hnone : h₂.loads[i]? = some none := by
    rw [hl, List.getElem?_set_self (List.getElem?_eq_some_iff.1 hmine).1]
  rcases play_load hb hnone with h | h <;> rw [hi] at h <;> cases h

/-- No load has a number that `generation` has not reached. -/
def Bounded (h : Hook V) : Prop := ∀ k m : Nat, h.loads[k]? = some (some m) → m ≤ h.generation

/-- Of the loads in flight, only number `i` may still be the one waited for. -/
def Only (i : Nat) (h : Hook V) : Prop :=
  ∀ k m : Nat, h.loads[k]? = some (some m) → k ≠ i → m ≠ h.generation

theorem Bounded.step (hb : Bounded h) (hs : step null h e = some h') : Bounded h' := by
  intro k m hk
  have hle := (step_generation hs).1
  by_cases hlt : k < h.loads.length
  · rcases step_load hs (List.getElem?_eq_getElem hlt) with h | h
    · rw [hk] at h
      exact (hb k m (List.getElem?_eq_getElem hlt ▸ h.symm)).trans hle
    · rw [hk] at h
      cases h
  · cases e with
    | mount | change | reload =>
      obtain ⟨-, hl, -⟩ := start_cases rfl hs
      rw [hl, List.getElem?_append_right (Nat.le_of_not_lt hlt), List.getElem?_singleton] at hk
      split at hk
      · cases hk
        exact le_rfl
      · cases hk
    | unmount =>
      obtain rfl := Option.some.inj hs
      exact absurd (List.getElem?_eq_some_iff.1 hk).1 hlt
    | settle i o =>
      obtain ⟨-, -, hl, -⟩ := settle_cases hs
      rw [hl] at hk
      exact absurd (List.getElem?_eq_some_iff.1 hk).1 (by simpa using hlt)

theorem Bounded.play (hb : Bounded h) (hp : play null h evs = some h') : Bounded h' := by
  induction evs generalizing h with
  | nil =>
    obtain rfl := Option.some.inj hp
    exact hb
  | cons e evs ih =>
    obtain ⟨h₁, hs, hp⟩ := Option.bind_eq_some_iff.1 hp
    exact ih (hb.step hs) hp

theorem bounded_initial : Bounded (Hook.initial null) := fun k m hk => by simp [Hook.initial] at hk

/-- After a start, the load that was started is the one waited for. -/
theorem only_of_start (hb : Bounded h) (he : e.starts = true) (hs : step null h e = some h') :
    Only h.loads.length h' := by
  obtain ⟨hlt, hl, -⟩ := start_cases he hs
  intro k m hk hne
  rw [hl] at hk
  have hklt : k < h.loads.length := by
    have := (List.getElem?_eq_some_iff.1 hk).1
    simp only [List.length_append, List.length_singleton] at this
    omega
  rw [List.getElem?_append_left hklt] at hk
  exact ((hb k m hk).trans_lt hlt).ne

/-- Without a start, the other loads change nothing. -/
theorem Only.step (ho : Only i h) (hb : Bounded h) (hstart : e.starts = false)
    (hne : ∀ o, e ≠ .settle i o) (hs : step null h e = some h') : Only i h' ∧ h'.cells = h.cells := by
  cases e with
  | mount | change | reload => cases hstart
  | unmount =>
    obtain rfl := Option.some.inj hs
    refine ⟨fun k m hk _ => ?_, rfl⟩
    have := hb k m hk
    simp only [Hook.cleanUp]
    omega
  | settle k o =>
    obtain ⟨mine, hk, hl, hg, rfl⟩ := settle_cases hs
    have hki : k ≠ i := fun he => hne o (he ▸ rfl)
    refine ⟨fun k' m hk' hne' => ?_, settled_stale (ho k mine hk hki)⟩
    rw [hl] at hk'
    rw [hg]
    by_cases hkk : k = k'
    · subst hkk
      simp [(List.getElem?_eq_some_iff.1 hk).1] at hk'
    · rw [List.getElem?_set_ne hkk] at hk'
      exact ho k' m hk' hne'

theorem Only.play (ho : Only i h) (hb : Bounded h) (hstart : ∀ b ∈ evs, b.starts = false)
    (hne : ∀ o, .settle i o ∉ evs) (hp : play null h evs = some h') :
    Only i h' ∧ h'.cells = h.cells := by
  induction evs generalizing h with
  | nil =>
    obtain rfl := Option.some.inj hp
    exact ⟨ho, rfl⟩
  | cons e evs ih =>
    obtain ⟨h₁, hs, hp⟩ := Option.bind_eq_some_iff.1 hp
    obtain ⟨ho₁, hc₁⟩ := ho.step hb (hstart e List.mem_cons_self)
      (fun o he => hne o (he ▸ List.mem_cons_self)) hs
    obtain ⟨ho', hc⟩ := ih ho₁ (hb.step hs) (fun b hb => hstart b (List.mem_cons_of_mem _ hb))
      (fun o hm => hne o (List.mem_cons_of_mem _ hm)) hp
    exact ⟨ho', hc.trans hc₁⟩

theorem starts_of_bumps (hb : e.bumps = false) : e.starts = false := by
  cases e <;> first | rfl | cases hb

/-! ## What is shown -/

/-- A load that settles after a later start or clean-up changes nothing on the screen. -/
theorem superseded_load {h₂ : Hook V} (he : e.starts = true) (hp : play null h₁ (e :: mid) = some h)
    (hbump : ∃ b ∈ mid, b.bumps = true) (hs : step null h (.settle h₁.loads.length o) = some h₂) :
    h₂.cells = h.cells := by
  obtain ⟨hₑ, hse, hp⟩ := Option.bind_eq_some_iff.1 hp
  obtain ⟨-, hl, -⟩ := start_cases he hse
  obtain ⟨mine, hmine, -, -, rfl⟩ := settle_cases hs
  have hi : hₑ.loads[h₁.loads.length]? = some (some hₑ.generation) := by simp [hl]
  have heq : mine = hₑ.generation := by
    rcases play_load hp hi with h | h <;> rw [hmine] at h <;> cases h
    rfl
  have hlt := (play_generation hp).2.1 hbump
  exact settled_stale (by simp only [heq]; exact hlt.ne)

/-- A load that settles while it is the one waited for is what is shown, until another is started. -/
theorem latest_load (hb : Bounded h₁) (he : e.starts = true)
    (hp : play null h₁ (e :: mid ++ .settle h₁.loads.length o :: post) = some h)
    (hmid : ∀ b ∈ mid, b.bumps = false) (hpost : ∀ b ∈ post, b.starts = false) :
    h.cells = o.cells null h₁.data := by
  rw [play_append] at hp
  obtain ⟨h₃, hp₃, hp⟩ := Option.bind_eq_some_iff.1 hp
  obtain ⟨h₂, hs₂, hp₂⟩ := Option.bind_eq_some_iff.1 hp₃
  obtain ⟨h₄, hs₄, hp₄⟩ := Option.bind_eq_some_iff.1 hp
  obtain ⟨-, hl₂, hdata⟩ := start_cases he hs₂
  have hi : h₂.loads[h₁.loads.length]? = some (some h₂.generation) := by simp [hl₂]
  obtain ⟨mine, hmine, hl₄, -, hh₄⟩ := settle_cases hs₄
  have heq : mine = h₂.generation := by
    rcases play_load hp₂ hi with h | h <;> rw [hmine] at h <;> cases h
    rfl
  have hgen : h₃.generation = h₂.generation := (play_generation hp₂).2.2 hmid
  -- up to its answer nothing else is written
  obtain ⟨ho₃, hc₃⟩ := (only_of_start hb he hs₂).play (hb.step hs₂)
    (fun b hb => starts_of_bumps (hmid b hb)) (fun o => not_settled_yet hp₂ hmine) hp₂
  have hb₄ : Bounded h₄ := ((hb.step hs₂).play hp₂).step hs₄
  have hnone : h₄.loads[h₁.loads.length]? = some none := by
    rw [hl₄, List.getElem?_set_self (List.getElem?_eq_some_iff.1 hmine).1]
  have ho₄ : Only h₁.loads.length h₄ := by
    intro k m hk hne
    rw [hl₄, List.getElem?_set_ne hne.symm] at hk
    rw [hh₄, settled_generation]
    exact ho₃ k m hk hne
  -- and nothing after it
  obtain ⟨-, hc⟩ := ho₄.play hb₄ hpost (fun o => not_settle_again hnone hp₄) hp₄
  have hd₃ : h₃.data = h₁.data := (congrArg Prod.fst hc₃).trans hdata
  have hm : mine = ({ h₃ with loads := h₃.loads.set h₁.loads.length none } : Hook V).generation :=
    heq.trans hgen.symm
  rw [hc, hh₄, settled_current hm, hd₃]

/-- `useResource` never shows a superseded answer, for every sequence of events: an answer that comes
after a later start or clean-up changes no cell, and the answer of the load started last is what is
shown as soon as it is there. -/
theorem never_superseded (null : V) {pre : List (Event V)} (hpre : play null (.initial null) pre = some h₁)
    (he : e.starts = true) :
    (∀ mid h h' o, play null h₁ (e :: mid) = some h → (∃ b ∈ mid, b.bumps = true) →
      step null h (.settle h₁.loads.length o) = some h' →
      h'.data = h.data ∧ h'.error = h.error ∧ h'.loading = h.loading) ∧
    (∀ mid o post h, play null h₁ (e :: mid ++ .settle h₁.loads.length o :: post) = some h →
      (∀ b ∈ mid, b.bumps = false) → (∀ b ∈ post, b.starts = false) →
      h.loading = false ∧ match o with
        | .resolved result => h.data = result ∧ h.error = null
        | .rejected caught => h.error = caught ∧ h.data = h₁.data) := by
  refine ⟨?_, ?_⟩
  · intro mid h h' o hp hbump hs
    have hc := superseded_load he hp hbump hs
    simpa only [Hook.cells, Prod.mk.injEq] using hc
  · intro mid o post h hp hmid hpost
    have hc := latest_load (bounded_initial.play hpre) he hp hmid hpost
    cases o <;> simp only [Hook.cells, Outcome.cells, Prod.mk.injEq] at hc
    · exact ⟨hc.2.2, hc.1, hc.2.1⟩
    · exact ⟨hc.2.2, hc.2.1, hc.1⟩

/-- The first page answers last. -/
theorem never_superseded_pages :
    ∃ h h', play 0 (.initial 0) [.mount, .change, .settle 1 (.resolved 2)] = some h ∧
      step 0 h (.settle 0 (.resolved 1)) = some h' ∧
      h'.data = h.data ∧ h'.error = h.error ∧ h'.loading = h.loading := by
  have hstart : play 0 (.initial 0) [] = some (Hook.initial 0) := rfl
  exact ⟨_, _, rfl, rfl, (never_superseded 0 hstart (e := .mount) rfl).1
    [.change, .settle 1 (.resolved 2)] _ _ _ rfl ⟨.change, by simp, rfl⟩ rfl⟩

end DepositPortal.Resource
