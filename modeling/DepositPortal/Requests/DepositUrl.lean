import DepositPortal.Public.Upload
import DepositPortal.Uri
import Mathlib.Algebra.Ring.Nat
import Mathlib.Data.List.DropRight

/-!
# The link handed to the client

| here | there |
| --- | --- |
| `generatePublicToken`, `TOKEN_BYTES` | `crypto/secrets.ts:34`, `:25`; the random bytes are passed in |
| `generatePin`, `PIN_DIGITS`          | `crypto/secrets.ts:48`, `:28`; the draw of `randomInt` is passed in |
| `DEPOSIT_PATH`, `buildDepositUrl`    | `requests/public-url.ts:11`, `:19` |

`buildDepositUrl` throws on a token that is not well-formed UTF-16, and it runs after the link was
committed: `buildDepositUrl_generated` says that a generated token never gets there.
-/
namespace DepositPortal.PublicLinks
open Deposits (Bytes RequestId)

def TOKEN_BYTES : Nat := 32

def PIN_DIGITS : Nat := 4

/-- There is a code to draw. -/
instance : NeZero (10 ^ PIN_DIGITS) := ⟨by decide⟩

/-- A digit of base64url: `A-Z a-z 0-9 - _`. -/
def base64Digit (n : Nat) : UInt16 :=
  if n < 26 then (0x41 + n).toUInt16
  else if n < 52 then (0x61 + (n - 26)).toUInt16
  else if n < 62 then (0x30 + (n - 52)).toUInt16
  else if n = 62 then 0x2d
  else 0x5f

/-- `Buffer.toString('base64url')`: three bytes are four digits, and there is no padding. -/
def base64url : Bytes → JsString
  | [] => []
  | [a] => [base64Digit (a.toNat / 4), base64Digit (a.toNat % 4 * 16)]
  | [a, b] =>
    [base64Digit (a.toNat / 4), base64Digit (a.toNat % 4 * 16 + b.toNat / 16),
      base64Digit (b.toNat % 16 * 4)]
  | a :: b :: c :: rest =>
    base64Digit (a.toNat / 4) :: base64Digit (a.toNat % 4 * 16 + b.toNat / 16) ::
      base64Digit (b.toNat % 16 * 4 + c.toNat / 64) :: base64Digit (c.toNat % 64) :: base64url rest

def generatePublicToken (random : Bytes) : JsString := base64url random

/-- `String(n).padStart(PIN_DIGITS, '0')`. -/
def generatePin (n : Fin (10 ^ PIN_DIGITS)) : JsString :=
  let digits := js (toString n.val)
  List.replicate (PIN_DIGITS - digits.length) 0x30 ++ digits

def DEPOSIT_PATH : JsString := js "/deposit"

/-- `baseUrl.replace(/\/+$/, '')`. -/
def dropTrailingSlashes (baseUrl : JsString) : JsString := baseUrl.rdropWhile (· == 0x2f)

/-- `none`: `encodeURIComponent` threw. -/
def buildDepositUrl (baseUrl token : JsString) : Option JsString :=
  (encodeURIComponent token).map fun segment =>
    dropTrailingSlashes baseUrl ++ DEPOSIT_PATH ++ js "/" ++ segment

theorem isUnescaped_base64Digit (n : Nat) : isUnescaped (base64Digit n) = true := by
  by_cases h : n < 64
  · have hall : ∀ n < 64, isUnescaped (base64Digit n) = true := by decide
    exact hall n h
  · have hd : base64Digit n = 0x5f := by
      simp only [base64Digit]
      split_ifs <;> first | omega | rfl
    rw [hd]; rfl

theorem isUnescaped_base64url (bytes : Bytes) : ∀ c ∈ base64url bytes, isUnescaped c = true := by
  fun_induction base64url bytes with
  | case1 => simp
  | case2 a => simp [isUnescaped_base64Digit]
  | case3 a b => simp [isUnescaped_base64Digit]
  | case4 a b c rest ih => simpa [isUnescaped_base64Digit] using ih

/-- The address of a generated token carries the token as it is. -/
theorem buildDepositUrl_generated (baseUrl : JsString) (random : Bytes) :
    buildDepositUrl baseUrl (generatePublicToken random) =
      some (dropTrailingSlashes baseUrl ++ DEPOSIT_PATH ++ js "/" ++
        generatePublicToken random) := by
  simp [buildDepositUrl, generatePublicToken,
    encodeURIComponent_of_unescaped (isUnescaped_base64url random)]

example : generatePin 42 = js "0042" := by decide

end DepositPortal.PublicLinks
