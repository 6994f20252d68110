import DepositPortal.Config.Deadlines

/-!
# The date under the days field (frontend/src/pages/new-request-page.tsx)

At each keystroke the creation form shows the date the link would expire on.

| here | there |
| --- | --- |
| `parseDays`, `expiresOn`, `preview` | `:63`, `:36`, `:217` |
| `expiryDateFrom`, `formatDate`      | `format.ts:75`, `:38` |
| `toISOString`                       | `Date.prototype.toISOString` of the language |

`Date.parse` and the formatter of `Intl` are parameters. The days are any integer that a double holds and
the dates end at `8.64e15`, so the multiplication may leave the dates (`preview_iff`).
-/
namespace DepositPortal.ExpiryPreview
open Binary64
open Config (timeClip)

inductive Thrown where
  | RangeError
  deriving DecidableEq, Repr

def parseDays (raw : JsString) : Option Double :=
  let value := Number raw
  if trim raw ≠ [] ∧ isInteger value = true then some value else none

/-- The date of the days, counted from the time value `now`; `none` is an invalid date. -/
def expiryDateFrom (days : Double) (now : Int) : Option Int :=
  timeClip (Double.add (.finite now)
    ((((days.mul (.finite 24)).mul (.finite 60)).mul (.finite 60)).mul (.finite 1000)))

/-! ## `toISOString` -/

/-- With zeros in front, `width` digits. -/
def padded (width n : Nat) : JsString :=
  List.replicate (width - (decimal n).length) 0x30 ++ decimal n

/-- The year, month and day of a day counted from 1970-01-01, by the cycle of 400 years. -/
def civil (day : Int) : Int × Nat × Nat :=
  -- a year that starts in March has its leap day at the end
  let era := (day + 719468).fdiv 146097
  let dayOfEra := ((day + 719468).fmod 146097).toNat
  let yearOfEra := (dayOfEra - dayOfEra / 1460 + dayOfEra / 36524 - dayOfEra / 146096) / 365
  let dayOfYear := dayOfEra - (365 * yearOfEra + yearOfEra / 4 - yearOfEra / 100)
  let monthFromMarch := (5 * dayOfYear + 2) / 153
  let month := if monthFromMarch < 10 then monthFromMarch + 3 else monthFromMarch - 9
  (yearOfEra + era * 400 + if month ≤ 2 then 1 else 0, month,
    dayOfYear - (153 * monthFromMarch + 2) / 5 + 1)

def yearString (year : Int) : JsString :=
  if 0 ≤ year ∧ year ≤ 9999 then padded 4 year.toNat
  else (if year < 0 then js "-" else js "+") ++ padded 6 year.natAbs

def isoString (t : Int) : JsString :=
  let date := civil (t.fdiv 86400000)
  let ms := (t.fmod 86400000).toNat
  yearString date.1 ++ js "-" ++ padded 2 date.2.1 ++ js "-" ++ padded 2 date.2.2 ++ js "T" ++
    padded 2 (ms / 3600000) ++ js ":" ++ padded 2 (ms / 60000 % 60) ++ js ":" ++
    padded 2 (ms / 1000 % 60) ++ js "." ++ padded 3 (ms % 1000) ++ js "Z"

example : isoString 8640000000000000 = js "+275760-09-13T00:00:00.000Z" := by decide +kernel

def toISOString : Option Int → Except Thrown JsString
  | none => .error .RangeError
  | some t => .ok (isoString t)

/-! ## The preview -/

section
variable (dateParse : JsString → Option Int) (format : Int → JsString)

def formatDate (iso : JsString) : JsString :=
  match dateParse iso with
  | none => js "—"
  | some at' => format at'

def expiresOn (date : JsString) : JsString := js "expire le " ++ date

/-- What the form shows under the field, if anything. -/
def preview (now : Int) (raw : JsString) : Except Thrown (Option JsString) :=
  match parseDays raw with
  | none => .ok none
  | some days => do
    let iso ← toISOString (expiryDateFrom days now)
    return some (expiresOn (formatDate dateParse format iso))

variable {dateParse format} {now : Int} {n : ℤ} {raw : JsString}

/-- Twenty-four hours of sixty minutes and so on, in doubles: the exact product or out of reach. -/
theorem follows_milliseconds (n : ℤ) :
    (((((Double.finite n).mul (.finite 24)).mul (.finite 60)).mul (.finite 60)).mul
      (.finite 1000)).Follows (n * 86400000) := by
  have hstart : (Double.finite n).Follows n := .inl rfl
  have h := (((hstart.mul_even (c := 12) (by omega)).mul_even (c := 30) (by omega)).mul_even
    (c := 30) (by omega)).mul_even (c := 500) (by omega)
  have hprod : n * (2 * 12) * (2 * 30) * (2 * 30) * (2 * 500) = n * 86400000 := by ring
  rw [hprod] at h
  norm_num at h
  exact h

theorem timeClip_int (n : ℤ) :
    timeClip (.finite n) = if n.natAbs ≤ 8640000000000000 then some n else none := by
  have hcast : |(n : ℚ)| ≤ 8640000000000000 ↔ n.natAbs ≤ 8640000000000000 := by
    rw [abs_intCast]
    exact_mod_cast Iff.rfl
  simp only [timeClip, hcast, Rat.num_intCast, Rat.den_intCast, Nat.cast_one, Int.tdiv_one]

theorem timeClip_far {d : Double} (h : d.Far (2 ^ 53)) : timeClip d = none := by
  cases d with
  | nan | infinity => rfl
  | finite q =>
    refine if_neg (not_le.2 (lt_of_lt_of_le ?_ h))
    norm_num

/-- The date is the exact sum, as long as this is a date. -/
theorem expiryDateFrom_eq (hnow : now.natAbs ≤ 8640000000000000) :
    expiryDateFrom (.finite n) now =
      if (now + n * 86400000).natAbs ≤ 8640000000000000 then some (now + n * 86400000) else none := by
  have hsum := (follows_milliseconds n).add (a := now) (by omega)
  rw [expiryDateFrom]
  split at hsum
  · rw [hsum, timeClip_int]
  · rw [timeClip_far hsum, if_neg (by omega)]

theorem parseDays_eq_some {days : Double} :
    parseDays raw = some days ↔ trim raw ≠ [] ∧ ∃ n : ℤ, Number raw = .finite n ∧ days = .finite n := by
  have hinteger : isInteger (Number raw) = true ↔ ∃ n : ℤ, Number raw = .finite n := by
    cases Number raw with
    | nan | infinity => simp [isInteger]
    | finite q =>
      simp only [isInteger, decide_eq_true_eq, Double.finite.injEq]
      exact ⟨fun h => ⟨q.num, ((Rat.den_eq_one_iff q).1 h).symm⟩, fun ⟨n, h⟩ => h ▸ Rat.den_intCast n⟩
  simp only [parseDays, hinteger, Option.ite_none_right_eq_some, Option.some.injEq]
  constructor
  · rintro ⟨⟨htrim, n, hn⟩, rfl⟩
    exact ⟨htrim, n, hn, hn⟩
  · rintro ⟨htrim, n, hn, rfl⟩
    exact ⟨⟨htrim, n, hn⟩, hn⟩

/-- The text is refused, or a date or the dash is shown. -/
def Shows (dateParse : JsString → Option Int) (format : Int → JsString) (now : Int) (raw : JsString) :
    Prop :=
  (parseDays raw = none ∧ preview dateParse format now raw = .ok none) ∨
    ∃ t : Int, t.natAbs ≤ 8640000000000000 ∧
      preview dateParse format now raw = .ok (some (expiresOn (formatDate dateParse format (isoString t))))

/-- **The preview does not throw exactly when the text is no whole number of days or the days do not
leave the dates.** -/
theorem preview_iff (dateParse : JsString → Option Int) (format : Int → JsString) (now : Int)
    (hnow : now.natAbs ≤ 8640000000000000) (raw : JsString) :
    Shows dateParse format now raw ↔ ∀ n : ℤ, trim raw ≠ [] → Number raw = .finite n →
      (now + n * 86400000).natAbs ≤ 8640000000000000 := by
  constructor
  · rintro (⟨hnone, -⟩ | ⟨t, -, hok⟩) n htrim hn
    · rw [parseDays_eq_some.2 ⟨htrim, n, hn, rfl⟩] at hnone
      cases hnone
    · rw [preview, parseDays_eq_some.2 ⟨htrim, n, hn, rfl⟩] at hok
      by_contra hout
      simp only [expiryDateFrom_eq hnow, if_neg hout] at hok
      cases hok
  · intro h
    cases hp : parseDays raw with
    | none => exact .inl ⟨hp, by rw [preview, hp]⟩
    | some days =>
      obtain ⟨htrim, n, hn, rfl⟩ := parseDays_eq_some.1 hp
      refine .inr ⟨now + n * 86400000, h n htrim hn, ?_⟩
      rw [preview, hp]
      simp only [expiryDateFrom_eq hnow, if_pos (h n htrim hn)]
      rfl

end

/-- Fourteen days from the first of January 2026. -/
theorem preview_iff_default :
    Shows (fun _ => some 1768435200000) (fun _ => js "15 janvier 2026") 1767225600000 (js "14") := by
  refine (preview_iff _ _ 1767225600000 (by decide) (js "14")).2 fun n _ hn => ?_
  have h14 : Number (js "14") = .finite 14 := by decide +kernel
  rw [h14, Double.finite.injEq] at hn
  obtain rfl : n = 14 := by exact_mod_cast hn.symm
  decide

/-- A hundred million days from then. -/
theorem preview_throws :
    (∀ dateParse format, preview dateParse format 1767225600000 (js "100000000") = .error .RangeError) ∧
      ¬ ∀ dateParse format now, now.natAbs ≤ 8640000000000000 → ∀ raw, Shows dateParse format now raw := by
  have hthrows : ∀ dateParse format,
      preview dateParse format 1767225600000 (js "100000000") = .error .RangeError := by
    intro dateParse format
    have hdays : parseDays (js "100000000") = some (.finite (100000000 : ℤ)) := by decide +kernel
    have hnow : (1767225600000 : ℤ).natAbs ≤ 8640000000000000 := by decide
    rw [preview, hdays]
    simp only [expiryDateFrom_eq (n := 100000000) hnow]
    rfl
  refine ⟨hthrows, fun h => ?_⟩
  rcases h (fun _ => none) (fun _ => []) 1767225600000 (by decide) (js "100000000") with
    ⟨-, hok⟩ | ⟨t, -, hok⟩ <;> rw [hthrows] at hok <;> cases hok

end DepositPortal.ExpiryPreview
