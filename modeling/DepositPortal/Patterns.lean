import Mathlib.Data.List.TakeWhile
import Mathlib.Data.List.Range

/-!
# Patterns matched by backtracking

A pattern is tried at the start of a text. `run` is every way it can match, in the order a backtracking
matcher tries them: a repetition is greedy, so the longest comes first. What the matcher returns is the
first of them (`exec`).

A proof does not follow the search. A repetition that is followed by something else takes all it can
(`exec_many`), and a sequence matches by the first matches of its parts (`exec_seq`): no alternative is
tried as long as the rest of the pattern accepts what is left.
-/
namespace Patterns

inductive Pattern (α : Type) where
  | text (s : List α)
  /-- At least so many of a class: `[…]*` from 0 on, `[…]+` from 1 on. -/
  | many (least : Nat) (p : α → Bool)
  /-- `(?<name>…)` -/
  | group (name : String) (r : Pattern α)
  | seq (r r' : Pattern α)
  /-- `$`: at the end, or before the line feed that ends the text. -/
  | eol (lf : α)

structure Match (α : Type) where
  matched : List α
  groups : List (String × List α)
  rest : List α
  deriving DecidableEq, Repr

variable {α : Type}

/-- The text of a group, empty if it took no part. -/
def Match.group (m : Match α) (name : String) : List α := (m.groups.lookup name).getD []

/-- A match, and one of what it left. -/
def Match.andThen (m m' : Match α) : Match α :=
  ⟨m.matched ++ m'.matched, m.groups ++ m'.groups, m'.rest⟩

/-- The lengths a repetition may have, the greatest first. -/
def lengths (least most : Nat) : List Nat := (List.range (most + 1)).reverse.filter (least ≤ ·)

theorem head?_lengths {least most : Nat} (h : least ≤ most) :
    (lengths least most).head? = some most := by
  simp [lengths, List.range_succ, h]

variable [DecidableEq α]

namespace Pattern

def run : Pattern α → List α → List (Match α)
  | text w, s => if w <+: s then [⟨w, [], s.drop w.length⟩] else []
  | many least p, s =>
    (lengths least (s.takeWhile p).length).map fun k => ⟨s.take k, [], s.drop k⟩
  | group name r, s => (r.run s).map fun m => { m with groups := (name, m.matched) :: m.groups }
  | seq r r', s => (r.run s).flatMap fun m => (r'.run m.rest).map m.andThen
  | eol lf, s => if s = [] ∨ s = [lf] then [⟨[], [], s⟩] else []

def exec (r : Pattern α) (s : List α) : Option (Match α) := (r.run s).head?

section
variable {r r' : Pattern α} {s t u w : List α} {m m' : Match α} {p : α → Bool} {least : Nat}

theorem exec_text (w t : List α) : (text w).exec (w ++ t) = some ⟨w, [], t⟩ := by
  simp [exec, run]

theorem exec_text_none (h : ¬ w <+: s) : (text w).exec s = none := by
  simp [exec, run, h]

theorem exec_eol (lf : α) : (eol lf).exec [] = some ⟨[], [], []⟩ := by
  simp [exec, run]

/-- Greedy: all of `u`, where the class ends. -/
theorem exec_many (hu : ∀ a ∈ u, p a = true) (ht : ∀ a, t.head? = some a → p a = false)
    (hleast : least ≤ u.length) : (many least p).exec (u ++ t) = some ⟨u, [], t⟩ := by
  have htake : t.takeWhile p = [] := by
    cases t with
    | nil => rfl
    | cons a t => rw [List.takeWhile_cons, ht a rfl]; rfl
  have hlen : ((u ++ t).takeWhile p).length = u.length := by
    rw [List.takeWhile_append_of_pos hu, htake, List.append_nil]
  rw [exec, run, hlen, List.head?_map, head?_lengths hleast]
  simp

theorem exec_group (name : String) (h : r.exec s = some m) :
    (group name r).exec s = some { m with groups := (name, m.matched) :: m.groups } := by
  rw [exec] at h
  rw [exec, run, List.head?_map, h]
  rfl

theorem exec_seq (h : r.exec s = some m) (h' : r'.exec m.rest = some m') :
    (seq r r').exec s = some (m.andThen m') := by
  obtain ⟨ms, hms⟩ := List.head?_eq_some_iff.1 h
  obtain ⟨ms', hms'⟩ := List.head?_eq_some_iff.1 h'
  simp [exec, run, hms, hms']

theorem exec_seq_none (h : r.exec s = none) : (seq r r').exec s = none := by
  simp [exec, run, List.head?_eq_none_iff.1 h]

end

end Pattern

/-- `a+b$` on `aab`: the group has both. -/
example : ((Pattern.seq (.group "as" (.many 1 (· == 'a'))) (.seq (.text ['b']) (.eol '\n'))).exec
    ['a', 'a', 'b']).map (·.group "as") = some ['a', 'a'] := by decide +kernel

end Patterns
