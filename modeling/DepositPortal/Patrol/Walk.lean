import DepositPortal.Walks
import Mathlib.Data.Finset.Prod
import Mathlib.Data.Set.Card
import Mathlib.Tactic.Ring

/-!
# The guard's walk (advent of code)

What the puzzle asks for, apart from the program: the guard starts on the `^` of the map, facing up;
she turns right before a `#`, and otherwise steps forward, until she leaves the map.
-/
namespace DepositPortal.Patrol

abbrev Grid := List (List Char)

/-- The character in row `p.1` and column `p.2`, if there is one. -/
def cellAt (map : Grid) (p : Int × Int) : Option Char :=
  if 0 ≤ p.1 ∧ 0 ≤ p.2 then map[p.1.toNat]?.bind (·[p.2.toNat]?) else none

@[simp] theorem cellAt_nat {map : Grid} {i j : Nat} :
    cellAt map ((i : Int), (j : Int)) = map[i]?.bind (·[j]?) := by
  simp [cellAt]

inductive Dir where
  | up
  | right
  | down
  | left
  deriving DecidableEq

def Dir.turn : Dir → Dir
  | .up => .right
  | .right => .down
  | .down => .left
  | .left => .up

/-- The character that stands for a guard facing that way. -/
def Dir.mark : Dir → Char
  | .up => '^'
  | .right => '>'
  | .down => 'v'
  | .left => '<'

structure Guard where
  pos : Int × Int
  dir : Dir
  deriving DecidableEq

/-- The position in front of the guard. -/
def Guard.ahead (g : Guard) : Int × Int :=
  match g.dir with
  | .up => (g.pos.1 - 1, g.pos.2)
  | .right => (g.pos.1, g.pos.2 + 1)
  | .down => (g.pos.1 + 1, g.pos.2)
  | .left => (g.pos.1, g.pos.2 - 1)

theorem Guard.ahead_ne (g : Guard) : g.ahead ≠ g.pos := by
  obtain ⟨⟨i, j⟩, d⟩ := g
  cases d <;> simp [Guard.ahead]

/-- A rectangular map of `.` and `#` with exactly one `^`, which stands at `start`. -/
structure Lab where
  rows : Grid
  width : Nat
  start : Nat × Nat
  rect : ∀ row ∈ rows, row.length = width
  cells : ∀ row ∈ rows, ∀ c ∈ row, c = '.' ∨ c = '#' ∨ c = '^'
  start_in : start.1 < rows.length ∧ start.2 < width
  one : ∀ i < rows.length, ∀ j < width, rows[i]?.bind (·[j]?) = some '^' ↔ (i, j) = start

namespace Lab

variable {lab : Lab} {p : Int × Int} {g g' : Guard} {d n : Nat}

def Inside (lab : Lab) (p : Int × Int) : Prop :=
  (0 ≤ p.1 ∧ p.1 < lab.rows.length) ∧ 0 ≤ p.2 ∧ p.2 < lab.width

instance (lab : Lab) (p : Int × Int) : Decidable (lab.Inside p) :=
  inferInstanceAs (Decidable ((_ ∧ _) ∧ _ ∧ _))

/-- One move of the guard; nothing when it takes her out of the map. -/
def next (lab : Lab) (g : Guard) : Option Guard :=
  if lab.Inside g.ahead then
    if cellAt lab.rows g.ahead = some '#' then some ⟨g.pos, g.dir.turn⟩ else some ⟨g.ahead, g.dir⟩
  else none

def first (lab : Lab) : Guard := ⟨(lab.start.1, lab.start.2), .up⟩

/-- The guard after `n` moves, while she is on the map. -/
def walk (lab : Lab) (n : Nat) : Option Guard := Walks.walk lab.next lab.first n

/-- The walk leaves the map, and `g` is the guard's last place and direction on it. -/
def LeavesFrom (lab : Lab) (g : Guard) : Prop :=
  ∃ n, lab.walk n = some g ∧ lab.next g = none

/-- The cells the guard stands on during the walk, the first and the last included. -/
def occupied (lab : Lab) : Set (Int × Int) :=
  {p | ∃ n g, lab.walk n = some g ∧ g.pos = p}

/-- The cells the guard steps off, in her first `n` moves, onto another cell of the map. -/
def leftBy (lab : Lab) (n : Nat) : Set (Int × Int) :=
  {p | ∃ k < n, ∃ g g', lab.walk k = some g ∧ lab.next g = some g' ∧ g.pos = p ∧ g'.pos ≠ p}

/-- The cells the guard steps off at some time onto another cell of the map. -/
def left (lab : Lab) : Set (Int × Int) :=
  {p | ∃ n, p ∈ lab.leftBy n}

theorem next_cases (h : lab.next g = some g') :
    lab.Inside g.ahead ∧
      (cellAt lab.rows g.ahead = some '#' ∧ g' = ⟨g.pos, g.dir.turn⟩ ∨
        cellAt lab.rows g.ahead ≠ some '#' ∧ g' = ⟨g.ahead, g.dir⟩) := by
  simp only [next] at h
  split at h
  · next hin =>
    split at h
    · next hwall => exact ⟨hin, .inl ⟨hwall, (Option.some.inj h).symm⟩⟩
    · next hwall => exact ⟨hin, .inr ⟨hwall, (Option.some.inj h).symm⟩⟩
  · cases h

theorem next_eq_none : lab.next g = none ↔ ¬ lab.Inside g.ahead := by
  simp only [next]
  split
  · split <;> simp_all
  · simp_all

theorem start_inside : lab.Inside (lab.start.1, lab.start.2) := by
  have h := lab.start_in
  simp only [Inside]
  omega

theorem row_of_lt (lab : Lab) {i : Nat} (hi : i < lab.rows.length) :
    ∃ line, lab.rows[i]? = some line ∧ line.length = lab.width :=
  ⟨lab.rows[i], List.getElem?_eq_getElem hi, lab.rect _ (List.getElem_mem hi)⟩

theorem cell_isSome : (cellAt lab.rows p).isSome ↔ lab.Inside p := by
  obtain ⟨i, j⟩ := p
  by_cases hpos : 0 ≤ i ∧ 0 ≤ j
  · obtain ⟨a, rfl⟩ := Int.eq_ofNat_of_zero_le hpos.1
    obtain ⟨b, rfl⟩ := Int.eq_ofNat_of_zero_le hpos.2
    rw [cellAt_nat]
    by_cases ha : a < lab.rows.length
    · obtain ⟨line, hline, hlen⟩ := lab.row_of_lt ha
      rw [hline, Option.bind_some]
      simp [Inside, hlen, ha]
    · simp [Inside, ha]
  · simp only [cellAt, hpos, if_false, Option.isSome_none, Bool.false_eq_true, false_iff, Inside]
    omega

theorem walk_inside (h : lab.walk n = some g) : lab.Inside g.pos := by
  induction n generalizing g with
  | zero =>
    obtain rfl : _ = g := Option.some.inj h
    exact start_inside
  | succ n ih =>
    obtain ⟨g₀, h₀, hn⟩ := Option.bind_eq_some_iff.1 h
    obtain ⟨hin, ⟨-, rfl⟩ | ⟨-, rfl⟩⟩ := next_cases hn
    · exact ih (g := g₀) h₀
    · exact hin

/-! ## How long a walk that leaves can be -/

/-- Every place and direction on the map. -/
def guards (lab : Lab) : Finset Guard :=
  ((Finset.range lab.rows.length ×ˢ Finset.range lab.width) ×ˢ
    ({.up, .right, .down, .left} : Finset Dir)).image fun x => ⟨(x.1.1, x.1.2), x.2⟩

theorem mem_guards (h : lab.Inside g.pos) : g ∈ lab.guards := by
  obtain ⟨⟨i, j⟩, d⟩ := g
  obtain ⟨⟨hi, hi'⟩, hj, hj'⟩ : (0 ≤ i ∧ i < lab.rows.length) ∧ 0 ≤ j ∧ j < lab.width := h
  refine Finset.mem_image.2 ⟨((i.toNat, j.toNat), d), ?_, ?_⟩
  · have hdir : d ∈ ({.up, .right, .down, .left} : Finset Dir) := by cases d <;> decide
    simp only [Finset.mem_product, Finset.mem_range]
    exact ⟨⟨by omega, by omega⟩, hdir⟩
  · simp only [Int.toNat_of_nonneg hi, Int.toNat_of_nonneg hj]

theorem card_guards_le : lab.guards.card ≤ 4 * lab.rows.length * lab.width := by
  refine Finset.card_image_le.trans (le_of_eq ?_)
  have hdir : ({.up, .right, .down, .left} : Finset Dir).card = 4 := by decide
  rw [Finset.card_product, Finset.card_product, hdir, Finset.card_range, Finset.card_range]
  ring

theorem walk_ended (h : lab.LeavesFrom g) : lab.walk (4 * lab.rows.length * lab.width) = none := by
  obtain ⟨n, hn, hg⟩ := h
  have hend : lab.walk (n + 1) = none := (Walks.walk_next hn).trans hg
  exact Walks.ended_mono (Walks.ends_within hend lab.guards fun n g h => mem_guards (walk_inside h))
    card_guards_le

theorem leavesFrom_of_ended (h : lab.walk n = none) : ∃ g, lab.LeavesFrom g := by
  induction n with
  | zero => cases h
  | succ n ih =>
    cases hn : lab.walk n with
    | none => exact ih hn
    | some g => exact ⟨g, n, hn, (Walks.walk_next hn).symm.trans h⟩

/-! ## The cells of the walk -/

theorem mem_leftBy_succ : p ∈ lab.leftBy (n + 1) ↔ p ∈ lab.leftBy n ∨
    ∃ g g', lab.walk n = some g ∧ lab.next g = some g' ∧ g.pos = p ∧ g'.pos ≠ p := by
  constructor
  · rintro ⟨k, hk, h⟩
    rcases Nat.lt_succ_iff_lt_or_eq.1 hk with hk | rfl
    · exact .inl ⟨k, hk, h⟩
    · exact .inr h
  · rintro (⟨k, hk, h⟩ | h)
    · exact ⟨k, hk.trans n.lt_succ_self, h⟩
    · exact ⟨n, n.lt_succ_self, h⟩

/-- A cell the guard stands on with `d` moves to go is the last one, or she leaves it by then. -/
theorem last_or_left (hN : lab.walk (n + d) = some g) (hn : lab.walk n = some g') :
    g'.pos = g.pos ∨ g'.pos ∈ lab.left := by
  induction d generalizing n g' with
  | zero =>
    obtain rfl : g = g' := Option.some.inj (hN.symm.trans hn)
    exact .inl rfl
  | succ d ih =>
    obtain ⟨b, hb⟩ := Walks.some_mono hN (by omega : n + 1 ≤ n + (d + 1))
    have hnext : lab.next g' = some b := (Walks.walk_next hn).symm.trans hb
    by_cases hpos : b.pos = g'.pos
    · rw [← hpos]
      exact ih (by rwa [Nat.add_right_comm]) hb
    · exact .inr ⟨n + 1, n, n.lt_succ_self, g', b, hn, hnext, rfl, hpos⟩

theorem occupied_eq (h : lab.LeavesFrom g) : lab.occupied = insert g.pos lab.left := by
  obtain ⟨N, hN, hg⟩ := h
  ext p
  constructor
  · rintro ⟨n, a, hn, rfl⟩
    have hle : n ≤ N := by
      by_contra hlt
      have hend := Walks.ended_mono ((Walks.walk_next hN).trans hg) (by omega : N + 1 ≤ n)
      rw [walk, hend] at hn
      cases hn
    obtain ⟨d, rfl⟩ := Nat.exists_eq_add_of_le hle
    exact last_or_left hN hn
  · rintro (rfl | ⟨_, k, _, a, _, ha, -, rfl, -⟩)
    · exact ⟨N, g, hN, rfl⟩
    · exact ⟨k, a, ha, rfl⟩

theorem left_finite (lab : Lab) : lab.left.Finite := by
  refine (lab.guards.image Guard.pos).finite_toSet.subset ?_
  rintro p ⟨_, k, _, a, _, ha, -, rfl, -⟩
  exact Finset.mem_coe.2 (Finset.mem_image_of_mem _ (mem_guards (walk_inside ha)))

end Lab

end DepositPortal.Patrol
