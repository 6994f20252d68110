import Mathlib.Algebra.Order.Floor.Ring
import Mathlib.Data.Int.Log
import Mathlib.Data.Rat.Floor
import Mathlib.Tactic.Linarith

/-!
# IEEE 754 double precision

A finite double is the rational it stands for (the two zeros are one). A result is the exact value rounded
to 53 significant bits, ties to even, with the subnormal range below `2 ^ -1022`, and overflows from
`2 ^ 1024` on once it is rounded.

* `Double.of_int`: the integers up to `2 ^ 53` are doubles.
* `Double.of_large`: a value from `2 ^ 53` on is not rounded below it.
-/
namespace Binary64

/-- The nearest integer, a tie going to the even one. -/
def roundEven (q : ℚ) : ℤ :=
  if q - ⌊q⌋ < 1 / 2 then ⌊q⌋
  else if 1 / 2 < q - ⌊q⌋ then ⌊q⌋ + 1
  else if ⌊q⌋ % 2 = 0 then ⌊q⌋ else ⌊q⌋ + 1

def exponent (q : ℚ) : ℤ := max (Int.log 2 |q|) (-1022)

/-- The distance between the doubles next to `q`. -/
def ulp (q : ℚ) : ℚ := 2 ^ (exponent q - 52)

def nearest (q : ℚ) : ℚ := roundEven (q / ulp q) * ulp q

inductive Double where
  | nan
  | infinity (negative : Bool)
  | finite (q : ℚ)
  deriving DecidableEq, Repr

namespace Double

def of (q : ℚ) : Double :=
  if |nearest q| < 2 ^ 1024 then .finite (nearest q) else .infinity (q < 0)

def neg : Double → Double
  | .nan => .nan
  | .infinity negative => .infinity !negative
  | .finite q => .finite (-q)

def add : Double → Double → Double
  | .finite a, .finite b => .of (a + b)
  | .infinity a, .infinity b => if a = b then .infinity a else .nan
  | .infinity a, .finite _ => .infinity a
  | .finite _, .infinity b => .infinity b
  | _, _ => .nan

def mul : Double → Double → Double
  | .finite a, .finite b => .of (a * b)
  | .infinity a, .infinity b => .infinity (a != b)
  | .infinity a, .finite b => if b = 0 then .nan else .infinity (a != decide (b < 0))
  | .finite a, .infinity b => if a = 0 then .nan else .infinity (decide (a < 0) != b)
  | _, _ => .nan

/-- `a ≥ b`, which is false of a NaN. -/
def ge : Double → Double → Bool
  | .finite a, .finite b => b ≤ a
  | .infinity a, .infinity b => !a || b
  | .infinity a, .finite _ => !a
  | .finite _, .infinity b => b
  | _, _ => false

end Double

/-! ## Rounding -/

variable {q : ℚ} {n : ℤ}

theorem roundEven_int (n : ℤ) : roundEven n = n := by
  simp [roundEven]

theorem le_roundEven (h : (n : ℚ) ≤ q) : n ≤ roundEven q := by
  have hfloor : n ≤ ⌊q⌋ := Int.le_floor.2 h
  unfold roundEven
  split
  · exact hfloor
  · split
    · omega
    · split <;> omega

theorem roundEven_le (h : q ≤ n) : roundEven q ≤ n := by
  have hfloor : ⌊q⌋ ≤ n := by
    have hle := (Int.floor_le q).trans h
    exact_mod_cast hle
  unfold roundEven
  split
  · exact hfloor
  · next hhalf =>
    -- `q` is above its floor, so its floor is below `n`
    have hlt : (⌊q⌋ : ℚ) < n := by linarith
    have hsucc : ⌊q⌋ < n := by exact_mod_cast hlt
    split
    · omega
    · split <;> omega

theorem ulp_pos (q : ℚ) : 0 < ulp q := zpow_pos (by norm_num) _

/-- What is a whole number of units stays. -/
theorem nearest_of_multiple (h : q / ulp q = n) : nearest q = q := by
  rw [nearest, h, roundEven_int, ← h, div_mul_cancel₀ q (ulp_pos q).ne']

theorem abs_intCast (n : ℤ) : |(n : ℚ)| = (n.natAbs : ℕ) := by
  rw [← Int.cast_abs, Int.abs_eq_natAbs, Int.cast_natCast]

theorem exponent_of_int (n : ℤ) : exponent n = Nat.log 2 n.natAbs := by
  rw [exponent, abs_intCast, Int.log_natCast]
  omega

theorem nearest_int (h : n.natAbs ≤ 2 ^ 53) : nearest n = n := by
  by_cases hn : n = 0
  · subst hn
    simp [nearest, roundEven]
  · rcases Nat.lt_or_eq_of_le h with hlt | heq
    · have hlog : Nat.log 2 n.natAbs ≤ 52 :=
        Nat.lt_succ_iff.1 (Nat.log_lt_of_lt_pow (by omega) hlt)
      obtain ⟨k, hk⟩ := Nat.exists_eq_add_of_le hlog
      refine nearest_of_multiple (n := n * 2 ^ k) ?_
      rw [ulp, exponent_of_int, show (Nat.log 2 n.natAbs : ℤ) - 52 = -(k : ℤ) by omega, zpow_neg,
        zpow_natCast, div_inv_eq_mul]
      push_cast
      rfl
    · have hlog : Nat.log 2 n.natAbs = 53 := by rw [heq]; exact Nat.log_pow (by omega) 53
      have htwo : (2 : ℤ) ∣ n := by
        rw [← Int.natAbs_dvd_natAbs, heq]
        exact ⟨2 ^ 52, by norm_num⟩
      obtain ⟨m, hm⟩ := htwo
      refine nearest_of_multiple (n := m) ?_
      rw [ulp, exponent_of_int, hlog, hm]
      push_cast
      norm_num

/-- A value from `2 ^ j` on is at least `2 ^ 52` units, which are at least `2 ^ j`. -/
theorem units_of_pow_le {j : ℕ} (h : 2 ^ j ≤ |q|) :
    (2 : ℚ) ^ 52 ≤ |q| / ulp q ∧ (2 : ℚ) ^ j ≤ 2 ^ 52 * ulp q := by
  have hpos : 0 < |q| := lt_of_lt_of_le (by positivity) h
  have hlog : (j : ℤ) ≤ Int.log 2 |q| :=
    (Int.zpow_le_iff_le_log (by norm_num) hpos).1 (by exact_mod_cast h)
  have hexp : exponent q = Int.log 2 |q| := by
    rw [exponent]
    omega
  have hunits : (2 : ℚ) ^ 52 * ulp q = 2 ^ Int.log 2 |q| := by
    rw [ulp, hexp, zpow_sub₀ (by norm_num)]
    norm_num
    ring
  constructor
  · rw [le_div_iff₀ (ulp_pos q), hunits]
    exact_mod_cast Int.zpow_log_le_self (b := 2) (by norm_num) hpos
  · rw [hunits, ← zpow_natCast]
    exact zpow_le_zpow_right₀ (by norm_num) hlog

theorem pow_le_nearest {j : ℕ} (hq : 0 ≤ q) (h : 2 ^ j ≤ q) : 2 ^ j ≤ nearest q := by
  obtain ⟨hunits, hpow⟩ := units_of_pow_le (q := q) (j := j) (by rwa [abs_of_nonneg hq])
  rw [abs_of_nonneg hq] at hunits
  have hround : 2 ^ 52 ≤ roundEven (q / ulp q) := le_roundEven (by exact_mod_cast hunits)
  calc (2 : ℚ) ^ j ≤ 2 ^ 52 * ulp q := hpow
    _ ≤ roundEven (q / ulp q) * ulp q :=
        mul_le_mul_of_nonneg_right (by exact_mod_cast hround) (ulp_pos q).le

theorem nearest_le_neg_pow {j : ℕ} (hq : q ≤ 0) (h : q ≤ -2 ^ j) : nearest q ≤ -2 ^ j := by
  obtain ⟨hunits, hpow⟩ := units_of_pow_le (q := q) (j := j) (by rw [abs_of_nonpos hq]; linarith)
  rw [abs_of_nonpos hq, neg_div] at hunits
  have hround : roundEven (q / ulp q) ≤ -2 ^ 52 := by
    refine roundEven_le ?_
    push_cast
    linarith
  calc (roundEven (q / ulp q) : ℚ) * ulp q ≤ (-2 ^ 52 : ℤ) * ulp q :=
        mul_le_mul_of_nonneg_right (by exact_mod_cast hround) (ulp_pos q).le
    _ ≤ -2 ^ j := by
        push_cast
        linarith

theorem le_nearest (h : 2 ^ 53 ≤ q) : 2 ^ 53 ≤ nearest q :=
  pow_le_nearest (le_trans (by norm_num) h) h

/-- Rounding does not bring a value below a power of two. -/
theorem pow_le_abs_nearest {j : ℕ} (h : 2 ^ j ≤ |q|) : 2 ^ j ≤ |nearest q| := by
  rcases le_total 0 q with hq | hq
  · rw [abs_of_nonneg hq] at h
    exact (pow_le_nearest hq h).trans (le_abs_self _)
  · rw [abs_of_nonpos hq] at h
    have hle := nearest_le_neg_pow hq (by linarith : q ≤ -2 ^ j)
    have hneg := neg_le_abs (nearest q)
    linarith

/-- Twice an integer is rounded as the integer is. -/
theorem nearest_two_mul (n : ℤ) : nearest ((2 * n : ℤ) : ℚ) = 2 * nearest n := by
  by_cases hn : n = 0
  · subst hn
    simp [nearest, roundEven]
  · have hlog : Nat.log 2 (2 * n).natAbs = Nat.log 2 n.natAbs + 1 := by
      rw [Int.natAbs_mul, mul_comm]
      exact Nat.log_mul_base (by norm_num) (Int.natAbs_ne_zero.2 hn)
    have hulp : ulp ((2 * n : ℤ) : ℚ) = 2 * ulp n := by
      rw [ulp, ulp, exponent_of_int, exponent_of_int, hlog, ← zpow_one_add₀ (by norm_num)]
      congr 1
      push_cast
      ring
    have hunits : ((2 * n : ℤ) : ℚ) / ulp ((2 * n : ℤ) : ℚ) = n / ulp n := by
      rw [hulp]
      push_cast
      rw [mul_div_mul_left _ _ (by norm_num)]
    rw [nearest, hunits, hulp, nearest]
    ring

namespace Double

theorem of_int (h : n.natAbs ≤ 2 ^ 53) : of n = .finite n := by
  have hlt : |(n : ℚ)| < 2 ^ 1024 := by
    rw [abs_intCast]
    calc ((n.natAbs : ℕ) : ℚ) ≤ 2 ^ 53 := by exact_mod_cast h
      _ < 2 ^ 1024 := pow_lt_pow_right₀ (by norm_num) (by norm_num)
  rw [of, nearest_int h, if_pos hlt]

/-- The even integers up to `2 ^ 54` are doubles. -/
theorem of_two_mul (h : n.natAbs ≤ 2 ^ 53) : of ((2 * n : ℤ) : ℚ) = .finite ((2 * n : ℤ) : ℚ) := by
  have hlt : |((2 * n : ℤ) : ℚ)| < 2 ^ 1024 := by
    rw [abs_intCast]
    calc (((2 * n).natAbs : ℕ) : ℚ) ≤ 2 ^ 54 := by
          have hle : (2 * n).natAbs ≤ 2 ^ 54 := by omega
          exact_mod_cast hle
      _ < 2 ^ 1024 := pow_lt_pow_right₀ (by norm_num) (by norm_num)
  have hnearest : nearest ((2 * n : ℤ) : ℚ) = ((2 * n : ℤ) : ℚ) := by
    rw [nearest_two_mul, nearest_int h]
    push_cast
    rfl
  rw [of, hnearest, if_pos hlt]

/-- Larger than every integer that is exact, or infinite. -/
def Large (d : Double) : Prop := d = .infinity false ∨ ∃ q, d = .finite q ∧ 2 ^ 53 ≤ q

theorem of_large (h : 2 ^ 53 ≤ q) : (of q).Large := by
  unfold of
  split
  · exact .inr ⟨nearest q, rfl, le_nearest h⟩
  · refine .inl ?_
    rw [decide_eq_false (not_lt.2 (le_trans (by norm_num) h))]

theorem Large.mul {d : Double} (hd : d.Large) (h : 1 ≤ q) : (d.mul (.finite q)).Large := by
  obtain rfl | ⟨r, rfl, hr⟩ := hd
  · have hpos : 0 < q := lt_of_lt_of_le one_pos h
    exact .inl (by simp [Double.mul, hpos.ne', not_lt.2 hpos.le])
  · exact of_large (le_trans hr (le_mul_of_one_le_right (le_trans (by norm_num) hr) h))

theorem Large.add {d : Double} (hd : d.Large) (h : 0 ≤ q) : (Double.add (.finite q) d).Large := by
  obtain rfl | ⟨r, rfl, hr⟩ := hd
  · exact .inl rfl
  · exact of_large (le_trans hr (le_add_of_nonneg_left h))

/-- No nearer to 0 than `b`, or no number. -/
def Far (b : ℚ) : Double → Prop
  | .finite q => b ≤ |q|
  | _ => True

theorem far_of {j : ℕ} (h : 2 ^ j ≤ |q|) : (of q).Far (2 ^ j) := by
  unfold of
  split
  · exact pow_le_abs_nearest h
  · trivial

theorem Far.mul {j : ℕ} {d : Double} (hd : d.Far (2 ^ j)) (h : 1 ≤ q) : (d.mul (.finite q)).Far (2 ^ j) := by
  cases d with
  | nan => trivial
  | infinity negative =>
    have hpos : 0 < q := lt_of_lt_of_le one_pos h
    simp only [Double.mul, if_neg hpos.ne']
    trivial
  | finite r =>
    refine far_of ?_
    rw [abs_mul, abs_of_nonneg (le_trans zero_le_one h)]
    exact le_trans hd (le_mul_of_one_le_right (abs_nonneg r) h)

theorem Far.add {j : ℕ} {d : Double} (hd : d.Far (2 ^ (j + 1))) (h : |q| ≤ 2 ^ j) :
    (Double.add (.finite q) d).Far (2 ^ j) := by
  cases d with
  | nan | infinity => trivial
  | finite r =>
    refine far_of ?_
    have hr : 2 ^ (j + 1) ≤ |r| := hd
    have htriangle := abs_sub_abs_le_abs_sub r (-q)
    rw [abs_neg, sub_neg_eq_add, add_comm r q] at htriangle
    rw [pow_succ] at hr
    linarith

/-- `d` is the integer `x`, or both are `2 ^ 54` or more from 0. -/
def Follows (d : Double) (x : ℤ) : Prop :=
  d = .finite x ∨ 2 ^ 54 ≤ x.natAbs ∧ d.Far (2 ^ 54)

theorem far_of_int {j : ℕ} (h : 2 ^ j ≤ n.natAbs) : (of n).Far (2 ^ j) := by
  refine far_of ?_
  rw [abs_intCast]
  exact_mod_cast h

/-- Multiplying by an even number keeps it so. -/
theorem Follows.mul_even {d : Double} {x c : ℤ} (h : d.Follows x) (hc : 1 ≤ c) :
    (d.mul (.finite ((2 * c : ℤ) : ℚ))).Follows (x * (2 * c)) := by
  have hcomm : x * (2 * c) = 2 * (x * c) := by ring
  rw [hcomm]
  rcases h with rfl | ⟨hx, hd⟩
  · have hprod : (Double.finite x).mul (.finite ((2 * c : ℤ) : ℚ)) = of ((2 * (x * c) : ℤ) : ℚ) := by
      simp only [Double.mul]
      congr 1
      push_cast
      ring
    rw [hprod]
    by_cases hle : (x * c).natAbs ≤ 2 ^ 53
    · exact .inl (of_two_mul hle)
    · have hbig : 2 ^ 54 ≤ (2 * (x * c)).natAbs := by omega
      exact .inr ⟨hbig, far_of_int hbig⟩
  · have hone : 1 ≤ 2 * c := by omega
    refine .inr ⟨?_, hd.mul (by exact_mod_cast hone)⟩
    rw [← hcomm, Int.natAbs_mul]
    exact le_trans hx (Nat.le_mul_of_pos_right _ (by omega))

/-- Added to what is smaller, it gives the exact sum as long as this is an exact integer. -/
theorem Follows.add {d : Double} {x a : ℤ} (h : d.Follows x) (ha : a.natAbs < 2 ^ 53) :
    if (a + x).natAbs ≤ 2 ^ 53 then Double.add (.finite a) d = .finite ((a + x : ℤ) : ℚ)
    else (Double.add (.finite a) d).Far (2 ^ 53) := by
  rcases h with rfl | ⟨hx, hd⟩
  · have hsum : Double.add (.finite a) (.finite x) = of ((a + x : ℤ) : ℚ) := by
      push_cast
      rfl
    rw [hsum]
    split
    · next hle => exact of_int hle
    · next hgt => exact far_of_int (Nat.le_of_not_le hgt)
  · have hbig : ¬ (a + x).natAbs ≤ 2 ^ 53 := by omega
    rw [if_neg hbig]
    refine hd.add ?_
    rw [abs_intCast]
    exact_mod_cast ha.le

end Double

end Binary64
