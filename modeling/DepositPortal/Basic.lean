import Mathlib.Data.Bool.AllAny
import Mathlib.Data.List.Forall2
import Mathlib.Data.List.Infix

/-!
# Strings and identifiers

The back end and the front end are TypeScript: a string is a sequence of UTF-16 code units, which
need not be well formed. Identifiers, tokens and hashes are such strings. Instants and durations are
`Int`s, in milliseconds (`Date.now()`, `Date.getTime()`).
-/
namespace DepositPortal

/-- A JavaScript string, as its UTF-16 code units. -/
abbrev JsString := List UInt16

/-- A literal of the source (none leaves the Basic Multilingual Plane). -/
def js (s : String) : JsString := s.toList.map fun c => c.toNat.toUInt16

abbrev LawyerId := JsString

/-! ## Runs of one unit -/

/-- Every run of `c` as one `c`. -/
def squeeze (c : UInt16) : JsString → JsString
  | [] => []
  | d :: rest => if d = c ∧ rest.head? = some c then squeeze c rest else d :: squeeze c rest

section
variable {c : UInt16}

theorem head?_squeeze (c : UInt16) (s : JsString) : (squeeze c s).head? = s.head? := by
  induction s with
  | nil => rfl
  | cons d s ih =>
    rw [squeeze]
    split
    · next h => rw [ih, h.2, h.1]; rfl
    · rfl

theorem pair_prefix_iff {d : UInt16} : [c, c] <+: d :: s ↔ d = c ∧ s.head? = some c := by
  cases s with
  | nil => simp
  | cons e s => simp [eq_comm]

/-- Of a run, one is left. -/
theorem squeeze_single (c : UInt16) (s : JsString) : ¬ [c, c] <:+: squeeze c s := by
  induction s with
  | nil => simp [squeeze]
  | cons d s ih =>
    rw [squeeze]
    split
    · exact ih
    · next h =>
      rw [List.infix_cons_iff, not_or, pair_prefix_iff, head?_squeeze]
      exact ⟨h, ih⟩

end

/-! ## Lists -/

/-- A list without duplicates whose members are all equal. -/
theorem length_le_one_of_eq {α : Type} {l : List α} (hl : l.Nodup)
    (h : ∀ a ∈ l, ∀ b ∈ l, a = b) : l.length ≤ 1 := by
  match l, hl, h with
  | [], _, _ => simp
  | [_], _, _ => simp
  | a :: b :: _, hl, h =>
    have := h a (by simp) b (by simp)
    subst this
    simp at hl

theorem eq_singleton_of_forall_eq {α : Type} {l : List α} {a : α} (hl : l.Nodup) (ha : a ∈ l)
    (h : ∀ b ∈ l, b = a) : l = [a] := by
  match l, hl, ha, h with
  | [b], _, _, h => rw [h b (by simp)]
  | b :: c :: l, hl, _, h =>
    have hbc : b = c := (h b (by simp)).trans (h c (by simp)).symm
    subst hbc
    simp at hl

/-- Mapping a function that may throw: each result comes from an element, -/
theorem mem_of_mapM_ok {ε α β : Type} {f : α → Except ε β} {l : List α} {l' : List β} {b : β}
    (h : l.mapM f = .ok l') (hb : b ∈ l') : ∃ a ∈ l, f a = .ok b := by
  induction l generalizing l' with
  | nil => cases h; cases hb
  | cons a l ih =>
    rw [List.mapM_cons] at h
    cases hfa : f a with
    | error e => rw [hfa] at h; cases h
    | ok c =>
      cases hl : l.mapM f with
      | error e => rw [hfa, hl] at h; cases h
      | ok cs =>
        rw [hfa, hl] at h
        cases h
        rcases List.mem_cons.1 hb with rfl | hb
        · exact ⟨a, List.mem_cons_self, hfa⟩
        · obtain ⟨a', ha', hf⟩ := ih hl hb
          exact ⟨a', List.mem_cons_of_mem _ ha', hf⟩

/-- and it throws on no element if it throws on none of the list. -/
theorem exists_mapM_ok {ε α β : Type} {f : α → Except ε β} {l : List α}
    (h : ∀ a ∈ l, ∃ b, f a = .ok b) : ∃ l', l.mapM f = .ok l' := by
  induction l with
  | nil => exact ⟨[], rfl⟩
  | cons a l ih =>
    obtain ⟨b, hb⟩ := h a List.mem_cons_self
    obtain ⟨bs, hbs⟩ := ih fun a ha => h a (List.mem_cons_of_mem _ ha)
    exact ⟨b :: bs, by rw [List.mapM_cons, hb, hbs]; rfl⟩

/-- The results and what they come from, side by side. -/
theorem forall₂_of_mapM_ok {ε α β : Type} {f : α → Except ε β} {l : List α} {l' : List β}
    (h : l.mapM f = .ok l') : List.Forall₂ (fun a b => f a = .ok b) l l' := by
  induction l generalizing l' with
  | nil => cases h; exact .nil
  | cons a l ih =>
    rw [List.mapM_cons] at h
    cases hfa : f a with
    | error e => rw [hfa] at h; cases h
    | ok b =>
      cases hl : l.mapM f with
      | error e => rw [hfa, hl] at h; cases h
      | ok bs =>
        rw [hfa, hl] at h
        cases h
        exact .cons hfa (ih hl)

theorem exists_of_map_ok {ε α β : Type} {f : α → β} {x : Except ε α} {b : β} (h : x.map f = .ok b) :
    ∃ a, x = .ok a ∧ f a = b := by
  cases x with
  | error e => cases h
  | ok a => exact ⟨a, rfl, Except.ok.inj h⟩

theorem mapM_congr {ε α β : Type} {f g : α → Except ε β} {l : List α} (h : ∀ a ∈ l, f a = g a) :
    l.mapM f = l.mapM g := by
  induction l with
  | nil => rfl
  | cons a l ih =>
    rw [List.mapM_cons, List.mapM_cons, h a List.mem_cons_self,
      ih fun b hb => h b (List.mem_cons_of_mem a hb)]

end DepositPortal
