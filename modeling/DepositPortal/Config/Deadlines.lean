import DepositPortal.Config.Env
import Mathlib.Data.List.TakeWhile

/-!
# The deadlines of the sessions

A duration is added to the clock (`RefreshTokenService.deadline`, auth/refresh-token.service.ts:147; the
cookies of `auth.controller.ts:143` are given a `maxAge`, which is added to it the same way) and made a
`Date`, which is valid up to `8.64e15`. The pattern accepts any number of digits. Below `2 ^ 53` the sums
are exact, and above it a rounded one is still too large for a `Date`.
-/
namespace DepositPortal.Config
open Binary64

/-- `TimeClip`: `none` is an invalid date. -/
def timeClip : Double → Option Int
  | .finite q => if |q| ≤ 8640000000000000 then some (q.num.tdiv q.den) else none
  | _ => none

/-- `new Date(Date.now() + durationToMilliseconds(duration))` -/
def deadline (now : Int) (duration : JsString) : Except Thrown (Option Int) :=
  (durationToMilliseconds duration).map fun ms => timeClip (Double.add (.finite now) ms)

/-- The duration can be used at `now`, and gives the deadline `t`. -/
structure Usable (now : Int) (duration : JsString) (t : Int) : Prop where
  milliseconds : ∃ ms, durationToMilliseconds duration = .ok (.finite ms) ∧ 0 < ms
  valid : deadline now duration = .ok (some t)
  future : now < t

/-- The deadlines of an accepted environment are what they should be. -/
def DeadlinesUsable (auth : Auth) (now : Int) : Prop :=
  ∃ access ceiling idle, Usable now auth.JWT_EXPIRES access ∧ Usable now auth.SESSION_EXPIRES ceiling ∧
    Usable now auth.SESSION_IDLE_EXPIRES idle ∧ idle < ceiling

variable {s digits duration : JsString} {unit : UInt16} {now : Int}

/-! ## The text of a duration -/

theorem isWhiteSpace_digit {c : UInt16} (h : isDigit c = true) : isWhiteSpace c = false := by
  obtain ⟨hlow, hhigh⟩ := isDigit_iff.1 h
  have hall : ∀ n < 0x3a, 0x30 ≤ n → isWhiteSpace (UInt16.ofNat n) = false := by decide
  simpa using hall c.toNat (by omega) hlow

/-- Nothing to trim. -/
theorem trim_eq_self (h : ∀ c ∈ s, isWhiteSpace c = false) : trim s = s := by
  have hdrop : ∀ l : JsString, (∀ c ∈ l, isWhiteSpace c = false) → l.dropWhile isWhiteSpace = l := by
    intro l hl
    cases l with
    | nil => rfl
    | cons c l => rw [List.dropWhile_cons_of_neg (by simp [hl c List.mem_cons_self])]
  rw [trim, hdrop s h, hdrop s.reverse fun c hc => h c (List.mem_reverse.1 hc), List.reverse_reverse]

/-- A text that matches is digits, the first of them no zero, and a unit. -/
structure Matched (s digits : JsString) (unit : UInt16) : Prop where
  text : s = digits ++ [unit]
  first : ∃ c rest, digits = c :: rest ∧ c ≠ 0x30
  allDigits : ∀ c ∈ digits, isDigit c = true
  isUnit : unit ∈ js "smhd"

theorem matched_of_match (h : matchDuration s = some (digits, unit)) : Matched s digits unit := by
  unfold matchDuration at h
  split at h
  · cases h
  · next last hlast =>
    rw [Option.ite_none_right_eq_some] at h
    obtain ⟨hcond, e⟩ := h
    cases e
    simp only [Bool.and_eq_true, List.all_eq_true, List.contains_iff_mem] at hcond
    obtain ⟨⟨hunit, hdigits⟩, hfirst⟩ := hcond
    refine ⟨?_, ?_, hdigits, hunit⟩
    · obtain ⟨init, rfl⟩ := List.getLast?_eq_some_iff.1 hlast
      simp
    · cases hd : s.dropLast with
      | nil => rw [hd] at hfirst; cases hfirst
      | cons c rest =>
        rw [hd] at hfirst
        exact ⟨c, rest, rfl, by simpa using hfirst⟩

theorem Matched.trim (h : Matched s digits unit) : trim s = s := by
  refine trim_eq_self fun c hc => ?_
  rw [h.text, List.mem_append, List.mem_singleton] at hc
  rcases hc with hc | rfl
  · exact isWhiteSpace_digit (h.allDigits c hc)
  · have hunits : ∀ unit ∈ js "smhd", isWhiteSpace unit = false :=
      List.all_iff_forall_prop.1 (by decide)
    exact hunits c h.isUnit

theorem Number_digits (h : Matched s digits unit) : Number digits = .of (digitsValue digits : ℚ) := by
  obtain ⟨c, rest, rfl, hc⟩ := h.first
  have htrim : DepositPortal.trim (c :: rest) = c :: rest :=
    trim_eq_self fun d hd => isWhiteSpace_digit (h.allDigits d hd)
  have hdigit := h.allDigits c List.mem_cons_self
  have hsign : c ≠ 0x2d ∧ c ≠ 0x2b := by
    constructor <;> rintro rfl <;> exact absurd hdigit (by decide)
  have hinfinity : c :: rest ≠ js "Infinity" := by
    intro e
    rw [(List.cons.inj e).1] at hdigit
    exact absurd hdigit (by decide)
  have hwhole : (c :: rest).takeWhile isDigit = c :: rest := List.takeWhile_eq_self_iff.2 h.allDigits
  have hrest : (c :: rest).dropWhile isDigit = [] := List.dropWhile_eq_nil_iff.2 h.allDigits
  simp only [Number, htrim, hc, hsign.1, hsign.2, decide_false, Bool.false_and, if_false]
  simp [unsignedDecimal, hinfinity, hwhole, hrest, exponentPart]

/-! ## Its value -/

theorem milliseconds_pos (unit : UInt16) : 1 ≤ MILLISECONDS unit ∧ MILLISECONDS unit ≤ 2 ^ 53 := by
  unfold MILLISECONDS
  split_ifs <;> omega

theorem Matched.digitsValue_pos (h : Matched s digits unit) : 1 ≤ digitsValue digits := by
  obtain ⟨c, rest, rfl, hc⟩ := h.first
  have hdigit := isDigit_iff.1 (h.allDigits c List.mem_cons_self)
  have hne : c.toNat ≠ 0x30 := fun e => hc (UInt16.toNat_inj.1 e)
  -- the value only grows from that of the first digit
  have hgrow : ∀ (rest : JsString) (n : Nat), 1 ≤ n →
      1 ≤ rest.foldl (fun value c => value * 10 + (c.toNat - 0x30)) n := by
    intro rest
    induction rest with
    | nil => exact fun n hn => hn
    | cons d rest ih => exact fun n hn => ih _ (show 1 ≤ n * 10 + (d.toNat - 0x30) by omega)
  exact hgrow rest _ (show 1 ≤ 0 * 10 + (c.toNat - 0x30) by omega)

/-- The milliseconds that are computed: exact below `2 ^ 53`, too many above. -/
theorem durationToMilliseconds_eq (h : isDuration duration = true) :
    1 ≤ value duration ∧ ∃ ms, durationToMilliseconds duration = .ok ms ∧
      if value duration ≤ 2 ^ 53 then ms = .finite (value duration) else ms.Large := by
  obtain ⟨⟨digits, unit⟩, hm⟩ := Option.isSome_iff_exists.1 h
  have hmatched := matched_of_match hm
  have hdigits := hmatched.digitsValue_pos
  obtain ⟨hpos, hbound⟩ := milliseconds_pos unit
  have hvalue : value duration = digitsValue digits * MILLISECONDS unit := by rw [value, hm]
  have hof : ∀ n : Nat, n ≤ 2 ^ 53 → Double.of (n : ℚ) = .finite n := fun n hn => by
    have := Double.of_int (n := n) (by simpa using hn)
    simpa using this
  refine ⟨by rw [hvalue]; exact Nat.mul_pos hdigits hpos, _,
    by rw [durationToMilliseconds, hmatched.trim, hm], ?_⟩
  rw [Number_digits hmatched, hvalue]
  split
  · next hle =>
    have hn : digitsValue digits ≤ 2 ^ 53 := le_trans (Nat.le_mul_of_pos_right _ hpos) hle
    have hprod := hof _ hle
    push_cast at hprod
    rw [hof _ hn, Double.mul, hprod]
    push_cast
    rfl
  · next hgt =>
    by_cases hn : digitsValue digits ≤ 2 ^ 53
    · rw [hof _ hn]
      refine Double.of_large ?_
      have hle : (2 ^ 53 : ℚ) ≤ (digitsValue digits * MILLISECONDS unit : ℕ) := by exact_mod_cast (by omega)
      exact_mod_cast hle
    · exact (Double.of_large (by exact_mod_cast (by omega))).mul (by exact_mod_cast hpos)

/-- A deadline is valid as long as the exact sum is. -/
theorem deadline_eq (h : isDuration duration = true) (hnow : 0 ≤ now ∧ now ≤ 4102444800000) :
    deadline now duration = .ok
      (if now + value duration ≤ 8640000000000000 then some (now + value duration) else none) := by
  obtain ⟨hpos, ms, hms, hvalue⟩ := durationToMilliseconds_eq h
  have hnone : ∀ d : Double, d.Large → timeClip d = none := by
    rintro d (rfl | ⟨q, rfl, hq⟩)
    · rfl
    · have habs : ¬ |q| ≤ 8640000000000000 := by
        rw [abs_of_nonneg (le_trans (by norm_num) hq), not_le]
        exact lt_of_lt_of_le (by norm_num) hq
      exact if_neg habs
  rw [deadline, hms]
  refine congrArg Except.ok ?_
  show timeClip (Double.add (.finite now) ms) = _
  split at hvalue
  · next hle =>
    subst hvalue
    have hsum : Double.add (.finite now) (.finite (value duration)) =
        .of ((now + value duration : ℤ) : ℚ) := by
      push_cast
      rfl
    rw [hsum]
    by_cases hexact : now + value duration ≤ 2 ^ 53
    · rw [Double.of_int (by omega), timeClip, abs_of_nonneg (by exact_mod_cast (by omega))]
      have hcast : ((now + value duration : ℤ) : ℚ) ≤ 8640000000000000 ↔
          now + value duration ≤ 8640000000000000 := by exact_mod_cast Iff.rfl
      simp only [hcast, Rat.num_intCast, Rat.den_intCast, Nat.cast_one, Int.tdiv_one]
    · rw [hnone _ (Double.of_large (by exact_mod_cast (by omega))), if_neg (by omega)]
  · next hgt =>
    rw [hnone _ (hvalue.add (by exact_mod_cast hnow.1)), if_neg (by omega)]

/-! ## The three durations -/

theorem usable_of_le (h : isDuration duration = true) (hnow : 0 ≤ now ∧ now ≤ 4102444800000)
    (hle : now + value duration ≤ 8640000000000000) : Usable now duration (now + value duration) := by
  obtain ⟨hpos, ms, hms, hvalue⟩ := durationToMilliseconds_eq h
  rw [if_pos (by omega)] at hvalue
  subst hvalue
  exact {
    milliseconds := ⟨value duration, hms, by exact_mod_cast hpos⟩
    valid := by rw [deadline_eq h hnow, if_pos hle]
    future := by omega }

theorem le_of_usable {t : Int} (h : isDuration duration = true) (hnow : 0 ≤ now ∧ now ≤ 4102444800000)
    (hu : Usable now duration t) : now + value duration ≤ 8640000000000000 := by
  by_contra hgt
  have hvalid := hu.valid
  rw [deadline_eq h hnow, if_neg hgt] at hvalid
  cases hvalid

/-- The check that the idle deadline applies compares the exact values, where they are. -/
theorem value_lt_of_applies {session idle : JsString} (hs : isDuration session = true)
    (hi : isDuration idle = true) (hshort : neverApplies session idle = .ok false)
    (hsle : value session ≤ 2 ^ 53) (hile : value idle ≤ 2 ^ 53) : value idle < value session := by
  obtain ⟨-, ms, hms, hvs⟩ := durationToMilliseconds_eq hs
  obtain ⟨-, mi, hmi, hvi⟩ := durationToMilliseconds_eq hi
  rw [if_pos hsle] at hvs
  rw [if_pos hile] at hvi
  subst hvs hvi
  simp only [neverApplies, hs, hi, Bool.and_self, if_true, hms, hmi, bind, Except.bind, pure, Except.pure,
    Except.ok.injEq, Double.ge, decide_eq_false_iff_not, not_le] at hshort
  exact_mod_cast hshort

/-- **Accepted durations give usable deadlines exactly as long as no deadline is past the last date.** -/
theorem deadlines_usable_iff (special : JsString → Option Url) (raw : Raw) (env : Env) (now : Int)
    (h : validateEnv special raw = .ok env) (hnow : 0 ≤ now ∧ now ≤ 4102444800000) :
    DeadlinesUsable env.auth now ↔
      now + value env.auth.JWT_EXPIRES ≤ 8640000000000000 ∧
      now + value env.auth.SESSION_EXPIRES ≤ 8640000000000000 ∧
      now + value env.auth.SESSION_IDLE_EXPIRES ≤ 8640000000000000 := by
  have hd := (accepted_of_validateEnv h).durations
  constructor
  · rintro ⟨access, ceiling, idle, ha, hc, hi, -⟩
    exact ⟨le_of_usable hd.expires hnow ha, le_of_usable hd.session hnow hc, le_of_usable hd.idle hnow hi⟩
  · rintro ⟨ha, hc, hi⟩
    have hlt := value_lt_of_applies hd.session hd.idle hd.shorter (by omega) (by omega)
    exact ⟨_, _, _, usable_of_le hd.expires hnow ha, usable_of_le hd.session hnow hc,
      usable_of_le hd.idle hnow hi, by omega⟩

theorem deadlines_usable_iff_week : ∃ env, validateEnv sampleUrls (sample []) = .ok env ∧
    DeadlinesUsable env.auth 1700000000000 := by
  obtain ⟨env, hok, hvalues⟩ := exists_of_map_ok (f := fun env : Env => (value env.auth.JWT_EXPIRES,
      value env.auth.SESSION_EXPIRES, value env.auth.SESSION_IDLE_EXPIRES))
    (show (validateEnv sampleUrls (sample [])).map _ = .ok (900000, 604800000, 259200000) by decide +kernel)
  simp only [Prod.mk.injEq] at hvalues
  refine ⟨env, hok, (deadlines_usable_iff sampleUrls (sample []) env 1700000000000 hok (by decide)).2 ?_⟩
  rw [hvalues.1, hvalues.2.1, hvalues.2.2]
  decide

/-- A ceiling that is accepted and is no date, even counted from 1970. -/
theorem too_long_accepted : ∃ env,
    validateEnv sampleUrls (sample [(js "SESSION_EXPIRES", js "99999999999d")]) = .ok env ∧
    deadline 0 env.auth.SESSION_EXPIRES = .ok none ∧ ¬ DeadlinesUsable env.auth 0 := by
  obtain ⟨env, hok, hsession⟩ := exists_of_map_ok (f := fun env : Env => env.auth.SESSION_EXPIRES)
    (show (validateEnv sampleUrls (sample [(js "SESSION_EXPIRES", js "99999999999d")])).map _ =
      .ok (js "99999999999d") by decide +kernel)
  have hnone : deadline 0 env.auth.SESSION_EXPIRES = .ok none := by rw [hsession]; decide +kernel
  refine ⟨env, hok, hnone, ?_⟩
  rintro ⟨access, ceiling, idle, -, hceiling, -⟩
  have hvalid := hceiling.valid
  rw [hnone] at hvalid
  cases hvalid

end DepositPortal.Config
