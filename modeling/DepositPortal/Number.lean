import DepositPortal.Basic
import DepositPortal.Binary64
import Mathlib.Data.Nat.Digits.Defs

/-!
# Strings and numbers

`String.prototype.trim`, the conversion of a string to a number, and that of a natural number to a string,
as the language has them.
-/
namespace DepositPortal
open Binary64

/-- `WhiteSpace` and `LineTerminator`. -/
def isWhiteSpace (c : UInt16) : Bool :=
  [0x9, 0xa, 0xb, 0xc, 0xd, 0x20, 0xa0, 0x1680, 0x2028, 0x2029, 0x202f, 0x205f, 0x3000, 0xfeff].contains c ||
    (0x2000 ≤ c && c ≤ 0x200a)

def trim (s : JsString) : JsString :=
  ((s.dropWhile isWhiteSpace).reverse.dropWhile isWhiteSpace).reverse

def isDigit (c : UInt16) : Bool := 0x30 ≤ c && c ≤ 0x39

/-- The value of a run of digits. -/
def digitsValue (s : JsString) : Nat := s.foldl (fun value c => value * 10 + (c.toNat - 0x30)) 0

/-- `String(n)` -/
def decimal (n : Nat) : JsString :=
  if n = 0 then js "0" else (Nat.digits 10 n).reverse.map fun d => (0x30 + d).toUInt16

/-! ## `Number(text)` -/

/-- The value of a digit in bases up to 16. -/
def digitValue (c : UInt16) : Option Nat :=
  if isDigit c then some (c.toNat - 0x30)
  else if 0x41 ≤ c && c ≤ 0x46 then some (c.toNat - 0x37)
  else if 0x61 ≤ c && c ≤ 0x66 then some (c.toNat - 0x57)
  else none

def digitInBase (base : Nat) (c : UInt16) : Option Nat := (digitValue c).filter (· < base)

/-- The digits after `0x`, `0o` or `0b`. -/
def nonDecimal (base : Nat) (s : JsString) : Double :=
  match s, s.mapM (digitInBase base) with
  | _ :: _, some digits => .of (digits.foldl (fun value d => value * base + d) 0 : Nat)
  | _, _ => .nan

/-- `ExponentPart`, or nothing. -/
def exponentPart (s : JsString) : Option Int :=
  match s with
  | [] => some 0
  | e :: rest =>
    let negative := rest.head? = some 0x2d
    let digits := if rest.head? = some 0x2d || rest.head? = some 0x2b then rest.tail else rest
    if (e = 0x65 || e = 0x45) && !digits.isEmpty && digits.all isDigit then
      some (if negative then -(digitsValue digits : Int) else digitsValue digits)
    else none

/-- `StrUnsignedDecimalLiteral` -/
def unsignedDecimal (s : JsString) : Option Double :=
  if s = js "Infinity" then some (.infinity false)
  else
    let whole := s.takeWhile isDigit
    let rest := s.dropWhile isDigit
    let fraction := if rest.head? = some 0x2e then rest.tail.takeWhile isDigit else []
    let rest := if rest.head? = some 0x2e then rest.tail.dropWhile isDigit else rest
    if whole.isEmpty && fraction.isEmpty then none
    else (exponentPart rest).map fun e =>
      .of ((digitsValue (whole ++ fraction) : ℚ) * 10 ^ (e - (fraction.length : Int)))

/-- `Number(text)` -/
def Number (text : JsString) : Double :=
  match trim text with
  | [] => .finite 0
  | c :: rest =>
    if c = 0x30 && (rest.head? = some 0x78 || rest.head? = some 0x58) then nonDecimal 16 rest.tail
    else if c = 0x30 && (rest.head? = some 0x6f || rest.head? = some 0x4f) then nonDecimal 8 rest.tail
    else if c = 0x30 && (rest.head? = some 0x62 || rest.head? = some 0x42) then nonDecimal 2 rest.tail
    else if c = 0x2d then ((unsignedDecimal rest).map Double.neg).getD .nan
    else if c = 0x2b then (unsignedDecimal rest).getD .nan
    else (unsignedDecimal (c :: rest)).getD .nan

/-- `Number.isInteger` -/
def isInteger : Double → Bool
  | .finite q => q.den = 1
  | _ => false

/-! ## Digits -/

variable {s : JsString} {n : Nat} {c : UInt16}

theorem isDigit_iff : isDigit c = true ↔ 0x30 ≤ c.toNat ∧ c.toNat ≤ 0x39 := by
  simp [isDigit, UInt16.le_iff_toNat_le]

theorem toNat_digit {d : Nat} (h : d < 10) : (0x30 + d).toUInt16.toNat = 0x30 + d := by
  simp
  omega

theorem isDigit_decimal (h : c ∈ decimal n) : isDigit c = true := by
  unfold decimal at h
  split at h
  · have hzero : ∀ c ∈ js "0", isDigit c = true := List.all_iff_forall_prop.1 (by decide)
    exact hzero c h
  · obtain ⟨d, hd, rfl⟩ := List.mem_map.1 h
    have hlt := Nat.digits_lt_base (by omega) (List.mem_reverse.1 hd)
    rw [isDigit_iff, toNat_digit hlt]
    omega

theorem decimal_ne_nil (n : Nat) : decimal n ≠ [] := by
  unfold decimal
  split
  · decide
  · next h => simpa [Nat.digits_eq_nil_iff_eq_zero] using h

/-- The digits of a number are read back as the number. -/
theorem digitsValue_decimal (n : Nat) : digitsValue (decimal n) = n := by
  unfold decimal
  split
  · next h => rw [h]; decide
  · have hdigits : ∀ ds : List Nat, (∀ d ∈ ds, d < 10) →
        digitsValue (ds.reverse.map fun d => (0x30 + d).toUInt16) = Nat.ofDigits 10 ds := by
      intro ds hds
      induction ds with
      | nil => rfl
      | cons d ds ih =>
        have hd := toNat_digit (hds d List.mem_cons_self)
        have ih := ih fun d hd => hds d (List.mem_cons_of_mem _ hd)
        simp only [digitsValue, List.reverse_cons, List.map_append, List.map_cons, List.map_nil,
          List.foldl_append, List.foldl_cons, List.foldl_nil] at ih ⊢
        rw [ih, hd, Nat.ofDigits_cons]
        omega
    rw [hdigits _ fun d hd => Nat.digits_lt_base (by omega) hd, Nat.ofDigits_digits]

end DepositPortal
