import Mathlib.Data.Finset.Card
import Mathlib.Order.Interval.Finset.Nat

/-!
# Walks of a partial step

`walk next s n` is where `n` steps lead from `s`, and nothing once the walk has ended. The step is
deterministic, so a walk that ends meets no state twice (`walk_inj`): it would go round for ever. It
is then no longer than any finite set it stays in (`ends_within`).
-/
namespace Walks

variable {σ : Type} {next : σ → Option σ} {s x : σ} {a b m n N : Nat}

def walk (next : σ → Option σ) (s : σ) : Nat → Option σ
  | 0 => some s
  | n + 1 => (walk next s n).bind next

theorem walk_succ : walk next s (n + 1) = (walk next s n).bind next := rfl

/-- A step after `x` is met. -/
theorem walk_next (h : walk next s n = some x) : walk next s (n + 1) = next x := by
  rw [walk_succ, h, Option.bind_some]

theorem ended_mono (h : walk next s m = none) (hmn : m ≤ n) : walk next s n = none := by
  induction hmn with
  | refl => exact h
  | step _ ih => rw [walk_succ, ih, Option.bind_none]

theorem some_mono (h : walk next s n = some x) (hmn : m ≤ n) : ∃ y, walk next s m = some y := by
  cases hm : walk next s m with
  | none => rw [ended_mono hm hmn] at h; cases h
  | some y => exact ⟨y, rfl⟩

/-- From one state on, a walk does the same whenever it got there. -/
theorem walk_congr (h : walk next s a = walk next s b) (k : Nat) :
    walk next s (a + k) = walk next s (b + k) := by
  induction k with
  | zero => exact h
  | succ k ih => rw [← Nat.add_assoc, ← Nat.add_assoc, walk_succ, walk_succ, ih]

theorem walk_inj_lt (hend : walk next s N = none) (hlast : ∀ n < N, walk next s n ≠ none)
    (hab : a < b) (ha : walk next s a = some x) (hb : walk next s b = some x) : False := by
  have hbN : b < N := by
    by_contra h
    rw [ended_mono hend (Nat.le_of_not_lt h)] at hb
    cases hb
  -- what is left of the walk after `b` would already have ended it after `a`
  have h := walk_congr (ha.trans hb.symm) (N - b)
  rw [Nat.add_sub_cancel' hbN.le, hend] at h
  exact hlast _ (by omega) h

/-- No state is met twice on a walk that ends. -/
theorem walk_inj (hend : walk next s N = none) (ha : walk next s a = some x)
    (hb : walk next s b = some x) : a = b := by
  classical
  have hex : ∃ n, walk next s n = none := ⟨N, hend⟩
  have hspec := Nat.find_spec hex
  have hmin : ∀ n < Nat.find hex, walk next s n ≠ none := fun n hn => Nat.find_min hex hn
  rcases Nat.lt_trichotomy a b with hab | hab | hab
  · exact (walk_inj_lt hspec hmin hab ha hb).elim
  · exact hab
  · exact (walk_inj_lt hspec hmin hab hb ha).elim

/-- A walk that ends is over after as many steps as there are states it may meet. -/
theorem ends_within (hend : walk next s N = none) (t : Finset σ)
    (h : ∀ n x, walk next s n = some x → x ∈ t) : walk next s t.card = none := by
  by_contra hne
  obtain ⟨y, hy⟩ := Option.ne_none_iff_exists'.1 hne
  have hmet : ∀ n : Nat, n ∈ Finset.range (t.card + 1) → ∃ x, walk next s n = some x := fun n hn =>
    some_mono hy (Nat.le_of_lt_succ (Finset.mem_range.1 hn))
  have hcard : (Finset.range (t.card + 1)).card ≤ t.card := by
    refine Finset.card_le_card_of_injOn (fun n => (walk next s n).getD s) ?_ ?_
    · intro n hn
      obtain ⟨x, hx⟩ := hmet n hn
      simpa [hx] using h n x hx
    · intro a ha b hb hab
      obtain ⟨x, hx⟩ := hmet a ha
      obtain ⟨x', hx'⟩ := hmet b hb
      obtain rfl : x = x' := by simpa [hx, hx'] using hab
      exact walk_inj hend hx hx'
  rw [Finset.card_range] at hcard
  omega

end Walks
