import Mathlib.Data.List.Basic

/-!
# A text as its lines

`lines nl` cuts a text after each `nl`, and what follows the last one is a line too if there is anything;
`unlines nl` ends every line. A text that is written by lines and read by lines is what was written
(`lines_unlines`). Adding after a text that may lack its last `nl` starts with one, and leaves an empty line
where it was not missing (`lines_append`).
-/
namespace Lines

variable {α : Type} {nl : α} {l s t : List α} {ls : List (List α)}

def unlines (nl : α) (ls : List (List α)) : List α := ls.flatMap (· ++ [nl])

@[simp] theorem unlines_nil : unlines nl [] = [] := rfl

@[simp] theorem unlines_cons (l : List α) (ls : List (List α)) :
    unlines nl (l :: ls) = l ++ nl :: unlines nl ls := by
  simp [unlines]

theorem unlines_append (ls ls' : List (List α)) : unlines nl (ls ++ ls') = unlines nl ls ++ unlines nl ls' :=
  List.flatMap_append

variable [DecidableEq α]

def lines (nl : α) : List α → List (List α)
  | [] => []
  | c :: rest =>
    if c = nl then [] :: lines nl rest
    else match lines nl rest with
      | [] => [[c]]
      | l :: ls => (c :: l) :: ls

@[simp] theorem lines_nil : lines nl [] = [] := rfl

@[simp] theorem lines_nl (rest : List α) : lines nl (nl :: rest) = [] :: lines nl rest := by
  rw [lines, if_pos rfl]

/-- A character that ends no line starts one, or goes before the first. -/
theorem lines_cons {c : α} (hc : c ≠ nl) (s : List α) :
    (s = [] ∧ lines nl (c :: s) = [[c]]) ∨
    ∃ l ls, lines nl s = l :: ls ∧ lines nl (c :: s) = (c :: l) :: ls := by
  cases hs : lines nl s with
  | nil =>
    cases s with
    | nil => exact .inl ⟨rfl, by rw [lines, if_neg hc, hs]⟩
    | cons d s =>
      rw [lines] at hs
      split at hs
      · cases hs
      · split at hs <;> cases hs
  | cons l ls => exact .inr ⟨l, ls, rfl, by rw [lines, if_neg hc, hs]⟩

theorem lines_line (hl : nl ∉ l) (t : List α) : lines nl (l ++ nl :: t) = l :: lines nl t := by
  induction l with
  | nil => exact lines_nl t
  | cons c l ih =>
    obtain ⟨hc, hl⟩ := not_or.1 (mt List.mem_cons.2 hl)
    rw [List.cons_append, lines, if_neg (Ne.symm hc), ih hl]

/-- No line has the end of one. -/
theorem nl_not_mem (h : l ∈ lines nl s) : nl ∉ l := by
  induction s generalizing l with
  | nil => cases h
  | cons c s ih =>
    by_cases hc : c = nl
    · subst hc
      rw [lines_nl] at h
      rcases List.mem_cons.1 h with rfl | h
      · exact List.not_mem_nil
      · exact ih h
    · obtain ⟨-, hone⟩ | ⟨l', ls, hs, hcons⟩ := lines_cons hc s
      · rw [hone, List.mem_singleton] at h
        subst h
        simpa using Ne.symm hc
      · rw [hcons] at h
        rcases List.mem_cons.1 h with rfl | h
        · exact mt List.mem_cons.1 (not_or.2 ⟨Ne.symm hc, ih (by rw [hs]; exact List.mem_cons_self)⟩)
        · exact ih (by rw [hs]; exact List.mem_cons_of_mem _ h)

theorem lines_unlines_append (h : ∀ l ∈ ls, nl ∉ l) (t : List α) :
    lines nl (unlines nl ls ++ t) = ls ++ lines nl t := by
  induction ls with
  | nil => rfl
  | cons l ls ih =>
    rw [unlines_cons, List.append_assoc, List.cons_append, lines_line (h l List.mem_cons_self),
      ih fun l hl => h l (List.mem_cons_of_mem _ hl)]
    rfl

/-- What is written by lines is read by lines. -/
theorem lines_unlines (h : ∀ l ∈ ls, nl ∉ l) : lines nl (unlines nl ls) = ls := by
  have happend := lines_unlines_append h []
  rwa [List.append_nil, lines_nil, List.append_nil] at happend

/-- A text that has its last `nl`. -/
theorem lines_ended (s t : List α) : lines nl (s ++ nl :: t) = lines nl (s ++ [nl]) ++ lines nl t := by
  induction s with
  | nil => simp
  | cons c s ih =>
    by_cases hc : c = nl
    · subst hc
      rw [List.cons_append, List.cons_append, lines_nl, lines_nl, ih]
      rfl
    · have hne : lines nl (s ++ [nl]) ≠ [] := by
        cases s with
        | nil => simp
        | cons d s =>
          rw [List.cons_append, lines]
          split
          · exact List.cons_ne_nil _ _
          · split <;> exact List.cons_ne_nil _ _
      obtain ⟨l, ls, hs⟩ := List.exists_cons_of_ne_nil hne
      rw [List.cons_append, List.cons_append, lines, if_neg hc, ih, lines, if_neg hc, hs]
      rfl

/-- Of a text that may lack it. -/
theorem lines_append (nl : α) (s t : List α) :
    ∃ gap, (gap = [] ∨ gap = [[]]) ∧ lines nl (s ++ nl :: t) = lines nl s ++ gap ++ lines nl t := by
  induction s with
  | nil => exact ⟨[[]], .inr rfl, by simp⟩
  | cons c s ih =>
    obtain ⟨gap, hgap, ih⟩ := ih
    by_cases hc : c = nl
    · subst hc
      exact ⟨gap, hgap, by rw [List.cons_append, lines_nl, lines_nl, ih]; rfl⟩
    · obtain ⟨rfl, hone⟩ | ⟨l, ls, hs, hcons⟩ := lines_cons hc s
      · refine ⟨[], .inl rfl, ?_⟩
        rw [hone, List.singleton_append, lines, if_neg hc, lines_nl]
        rfl
      · refine ⟨gap, hgap, ?_⟩
        rw [hcons, List.cons_append, lines, if_neg hc, ih, hs]
        rfl

/-- What comes before the first `nl` starts the first line. -/
theorem lines_prefix (hl : nl ∉ l) (hne : l ≠ []) (s : List α) :
    ∃ rest ls, lines nl (l ++ s) = (l ++ rest) :: ls := by
  induction l with
  | nil => exact absurd rfl hne
  | cons c l ih =>
    obtain ⟨hc, hl⟩ := not_or.1 (mt List.mem_cons.2 hl)
    by_cases hnil : l = []
    · subst hnil
      obtain ⟨rfl, hone⟩ | ⟨l, ls, -, hcons⟩ := lines_cons (Ne.symm hc) s
      · exact ⟨[], [], hone⟩
      · exact ⟨l, ls, hcons⟩
    · obtain ⟨rest, ls, ih⟩ := ih hl hnil
      refine ⟨rest, ls, ?_⟩
      rw [List.cons_append, lines, if_neg (Ne.symm hc), ih]
      rfl

end Lines
