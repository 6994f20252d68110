import DepositPortal.Basic
import Mathlib.Tactic.SplitIfs

/-!
# `encodeURIComponent` and `decodeURIComponent`

The functions of the language. To encode, the code units of `isUnescaped` stay, every other code point
becomes the `%XX` escapes of its UTF-8 bytes, and a surrogate without its other half is a `URIError`. To
decode, the escapes are read as bytes first (`pieces`), then as code points (`assemble`); an escape that
is cut short, and bytes that are not the UTF-8 of a code point, are a `URIError`.
-/
namespace DepositPortal

/-- `A-Z a-z 0-9 - _ . ! ~ * ' ( )`. -/
def isUnescaped (c : UInt16) : Bool :=
  (0x41 ≤ c && c ≤ 0x5a) || (0x61 ≤ c && c ≤ 0x7a) || (0x30 ≤ c && c ≤ 0x39) ||
    [0x2d, 0x5f, 0x2e, 0x21, 0x7e, 0x2a, 0x27, 0x28, 0x29].contains c

def isLeadingSurrogate (c : UInt16) : Bool := 0xd800 ≤ c && c ≤ 0xdbff

def isTrailingSurrogate (c : UInt16) : Bool := 0xdc00 ≤ c && c ≤ 0xdfff

/-- The code point of a surrogate pair. -/
def codePointOf (lead trail : UInt16) : Nat :=
  0x10000 + (lead.toNat - 0xd800) * 0x400 + (trail.toNat - 0xdc00)

/-- The UTF-8 bytes of a code point. -/
def utf8 (cp : Nat) : List Nat :=
  if cp < 0x80 then [cp]
  else if cp < 0x800 then [0xc0 + cp / 0x40, 0x80 + cp % 0x40]
  else if cp < 0x10000 then [0xe0 + cp / 0x1000, 0x80 + cp / 0x40 % 0x40, 0x80 + cp % 0x40]
  else [0xf0 + cp / 0x40000, 0x80 + cp / 0x1000 % 0x40, 0x80 + cp / 0x40 % 0x40, 0x80 + cp % 0x40]

def upperHexDigit (n : Nat) : UInt16 := (if n < 10 then 0x30 + n else 0x37 + n).toUInt16

/-- `%XX` for each byte. -/
def escape (bytes : List Nat) : JsString :=
  bytes.flatMap fun b => [0x25, upperHexDigit (b / 16), upperHexDigit (b % 16)]

/-- `none` is the `URIError`. -/
def encodeURIComponent : JsString → Option JsString
  | [] => some []
  | c :: rest =>
    if isUnescaped c then (encodeURIComponent rest).map (c :: ·)
    else if isTrailingSurrogate c then none
    else if isLeadingSurrogate c then
      match rest with
      | [] => none
      | d :: rest =>
        if isTrailingSurrogate d then
          (encodeURIComponent rest).map (escape (utf8 (codePointOf c d)) ++ ·)
        else none
    else (encodeURIComponent rest).map (escape (utf8 c.toNat) ++ ·)

/-- A string that needs no escape is its own encoding. -/
theorem encodeURIComponent_of_unescaped {s : JsString} (h : ∀ c ∈ s, isUnescaped c = true) :
    encodeURIComponent s = some s := by
  induction s with
  | nil => rfl
  | cons c s ih =>
    have hs := ih fun d hd => h d (List.mem_cons_of_mem _ hd)
    rw [encodeURIComponent.eq_def]
    simp [h c List.mem_cons_self, hs]

/-! ## Decoding -/

def isSurrogate (cp : Nat) : Bool := 0xd800 ≤ cp && cp ≤ 0xdfff

/-- The code units of a code point. -/
def utf16 (cp : Nat) : JsString :=
  if cp < 0x10000 then [cp.toUInt16]
  else [(0xd800 + (cp - 0x10000) / 0x400).toUInt16, (0xdc00 + (cp - 0x10000) % 0x400).toUInt16]

/-- A string of Unicode scalar values. -/
def ofChars (s : List Char) : JsString := s.flatMap fun c => utf16 c.toNat

def hexValue (c : UInt16) : Option Nat :=
  if 0x30 ≤ c && c ≤ 0x39 then some (c.toNat - 0x30)
  else if 0x41 ≤ c && c ≤ 0x46 then some (c.toNat - 0x37)
  else if 0x61 ≤ c && c ≤ 0x66 then some (c.toNat - 0x57)
  else none

/-- A code unit, or the byte of an escape. -/
inductive Piece where
  | unit (c : UInt16)
  | octet (b : Nat)
  deriving DecidableEq, Repr

def octetOf (high low : UInt16) : Option Piece := do
  return .octet ((← hexValue high) * 16 + (← hexValue low))

def pieces : JsString → Option (List Piece)
  | [] => some []
  | c :: rest =>
    if c = 0x25 then
      match rest with
      | high :: low :: rest => do return (← octetOf high low) :: (← pieces rest)
      | _ => none
    else (pieces rest).map (.unit c :: ·)

/-- The code point these bits make up, if these bytes are its UTF-8. -/
def codePoint (cp : Nat) (octets : List Nat) : Option Nat :=
  if utf8 cp = octets && !isSurrogate cp && cp ≤ 0x10ffff then some cp else none

def assemble : List Piece → Option JsString
  | [] => some []
  | .unit c :: rest => (assemble rest).map (c :: ·)
  | .octet a :: rest =>
    if a < 0x80 then (assemble rest).map (a.toUInt16 :: ·)
    else match rest with
      | .octet b :: rest =>
        if a < 0xe0 then do
          return utf16 (← codePoint (a % 0x20 * 0x40 + b % 0x40) [a, b]) ++ (← assemble rest)
        else match rest with
          | .octet c :: rest =>
            if a < 0xf0 then do
              return utf16 (← codePoint (a % 0x10 * 0x1000 + b % 0x40 * 0x40 + c % 0x40) [a, b, c]) ++
                (← assemble rest)
            else match rest with
              | .octet d :: rest => do
                return utf16 (← codePoint (a % 0x8 * 0x40000 + b % 0x40 * 0x1000 + c % 0x40 * 0x40 +
                  d % 0x40) [a, b, c, d]) ++ (← assemble rest)
              | _ => none
          | _ => none
      | _ => none

/-- `none` is the `URIError`. -/
def decodeURIComponent (s : JsString) : Option JsString := (pieces s).bind assemble

theorem hexValue_upperHexDigit {n : Nat} (h : n < 16) : hexValue (upperHexDigit n) = some n := by
  have hall : ∀ n < 16, hexValue (upperHexDigit n) = some n := by decide
  exact hall n h

theorem pieces_unit {c : UInt16} (hc : c ≠ 0x25) (s : JsString) :
    pieces (c :: s) = (pieces s).map (.unit c :: ·) := by
  rw [pieces.eq_def]
  simp [hc]

theorem pieces_escape {bytes : List Nat} (h : ∀ b ∈ bytes, b < 0x100) (s : JsString) :
    pieces (escape bytes ++ s) = (pieces s).map (bytes.map Piece.octet ++ ·) := by
  induction bytes with
  | nil => simp [escape]
  | cons b bytes ih =>
    have hb := h b List.mem_cons_self
    have ih := ih fun b hb => h b (List.mem_cons_of_mem _ hb)
    have hoctet : octetOf (upperHexDigit (b / 16)) (upperHexDigit (b % 16)) = some (.octet b) := by
      rw [octetOf, hexValue_upperHexDigit (by omega), hexValue_upperHexDigit (by omega)]
      simp only [Option.pure_def, Option.bind_eq_bind, Option.bind_some, Option.some.injEq,
        Piece.octet.injEq]
      omega
    have hsplit : escape (b :: bytes) ++ s =
        0x25 :: upperHexDigit (b / 16) :: upperHexDigit (b % 16) :: (escape bytes ++ s) := rfl
    rw [hsplit, pieces.eq_def]
    simp only [if_true, hoctet, ih]
    cases pieces s <;> rfl

theorem utf8_lt {cp b : Nat} (h : cp ≤ 0x10ffff) (hb : b ∈ utf8 cp) : b < 0x100 := by
  unfold utf8 at hb
  split_ifs at hb <;> simp only [List.mem_cons, List.not_mem_nil, or_false] at hb <;> omega

theorem codePoint_of_utf8 {cp : Nat} (hs : isSurrogate cp = false) (h : cp ≤ 0x10ffff)
    {n : Nat} (hn : n = cp) {octets : List Nat} (ho : utf8 cp = octets) :
    codePoint n octets = some cp := by
  subst hn
  simp [codePoint, ho, hs, h]

theorem assemble_utf8 {cp : Nat} (hs : isSurrogate cp = false) (h : cp ≤ 0x10ffff)
    (rest : List Piece) :
    assemble ((utf8 cp).map Piece.octet ++ rest) = (assemble rest).map (utf16 cp ++ ·) := by
  by_cases h1 : cp < 0x80
  · have hu : utf8 cp = [cp] := by simp [utf8, h1]
    have hv : utf16 cp = [cp.toUInt16] := by rw [utf16, if_pos (by omega)]
    rw [hu, hv, List.map_singleton, List.singleton_append, assemble.eq_def]
    simp [h1]
  by_cases h2 : cp < 0x800
  · have hu : utf8 cp = [0xc0 + cp / 0x40, 0x80 + cp % 0x40] := by simp [utf8, h1, h2]
    have hcp := codePoint_of_utf8 hs h (n := (0xc0 + cp / 0x40) % 0x20 * 0x40 +
      (0x80 + cp % 0x40) % 0x40) (by omega) hu
    rw [hu]
    simp only [List.map_cons, List.map_nil, List.cons_append, List.nil_append]
    rw [assemble.eq_def]
    simp only
    rw [if_neg (by omega)]
    simp only [show 0xc0 + cp / 0x40 < 0xe0 by omega, if_true, hcp]
    cases assemble rest <;> rfl
  by_cases h3 : cp < 0x10000
  · have hu : utf8 cp = [0xe0 + cp / 0x1000, 0x80 + cp / 0x40 % 0x40, 0x80 + cp % 0x40] := by
      simp [utf8, h1, h2, h3]
    have hcp := codePoint_of_utf8 hs h (n := (0xe0 + cp / 0x1000) % 0x10 * 0x1000 +
      (0x80 + cp / 0x40 % 0x40) % 0x40 * 0x40 + (0x80 + cp % 0x40) % 0x40) (by omega) hu
    rw [hu]
    simp only [List.map_cons, List.map_nil, List.cons_append, List.nil_append]
    rw [assemble.eq_def]
    simp only
    rw [if_neg (by omega)]
    simp only [show ¬ 0xe0 + cp / 0x1000 < 0xe0 by omega, show 0xe0 + cp / 0x1000 < 0xf0 by omega,
      if_true, if_false, hcp]
    cases assemble rest <;> rfl
  · have hu : utf8 cp = [0xf0 + cp / 0x40000, 0x80 + cp / 0x1000 % 0x40, 0x80 + cp / 0x40 % 0x40,
        0x80 + cp % 0x40] := by
      simp [utf8, h1, h2, h3]
    have hcp := codePoint_of_utf8 hs h (n := (0xf0 + cp / 0x40000) % 0x8 * 0x40000 +
      (0x80 + cp / 0x1000 % 0x40) % 0x40 * 0x1000 + (0x80 + cp / 0x40 % 0x40) % 0x40 * 0x40 +
      (0x80 + cp % 0x40) % 0x40) (by omega) hu
    rw [hu]
    simp only [List.map_cons, List.map_nil, List.cons_append, List.nil_append]
    rw [assemble.eq_def]
    simp only
    rw [if_neg (by omega)]
    simp only [show ¬ 0xf0 + cp / 0x40000 < 0xe0 by omega,
      show ¬ 0xf0 + cp / 0x40000 < 0xf0 by omega, if_false, hcp]
    cases assemble rest <;> rfl

theorem decode_unit {c : UInt16} (hc : c ≠ 0x25) (s : JsString) :
    decodeURIComponent (c :: s) = (decodeURIComponent s).map (c :: ·) := by
  rw [decodeURIComponent, decodeURIComponent, pieces_unit hc]
  cases pieces s <;> simp [assemble]

theorem decode_escape {cp : Nat} (hs : isSurrogate cp = false) (h : cp ≤ 0x10ffff) (s : JsString) :
    decodeURIComponent (escape (utf8 cp) ++ s) = (decodeURIComponent s).map (utf16 cp ++ ·) := by
  rw [decodeURIComponent, decodeURIComponent, pieces_escape (fun b hb => utf8_lt h hb)]
  cases pieces s with
  | none => rfl
  | some ps => exact assemble_utf8 hs h ps

/-- A surrogate pair is the code units of its code point. -/
theorem pair_codePointOf {c d : UInt16} (hc : isLeadingSurrogate c = true)
    (hd : isTrailingSurrogate d = true) : codePointOf c d ≤ 0x10ffff ∧
      isSurrogate (codePointOf c d) = false ∧ utf16 (codePointOf c d) = [c, d] := by
  simp only [isLeadingSurrogate, isTrailingSurrogate, Bool.and_eq_true, decide_eq_true_eq,
    UInt16.le_iff_toNat_le, UInt16.reduceToNat] at hc hd
  have hle : codePointOf c d ≤ 0x10ffff ∧ 0x10000 ≤ codePointOf c d := by
    unfold codePointOf; omega
  have hlead : 0xd800 + (codePointOf c d - 0x10000) / 0x400 = c.toNat := by
    unfold codePointOf; omega
  have htrail : 0xdc00 + (codePointOf c d - 0x10000) % 0x400 = d.toNat := by
    unfold codePointOf; omega
  refine ⟨hle.1, by simp [isSurrogate]; omega, ?_⟩
  rw [utf16, if_neg (by omega), hlead, htrail]
  simp

theorem utf16_toNat (c : UInt16) : utf16 c.toNat = [c] := by
  have := c.toNat_lt
  rw [utf16, if_pos (by omega)]
  simp

theorem isSurrogate_toNat (c : UInt16) :
    isSurrogate c.toNat = (isLeadingSurrogate c || isTrailingSurrogate c) := by
  simp only [isSurrogate, isLeadingSurrogate, isTrailingSurrogate, UInt16.le_iff_toNat_le,
    UInt16.reduceToNat]
  grind

theorem ne_percent_of_unescaped {c : UInt16} (h : isUnescaped c = true) : c ≠ 0x25 := by
  rintro rfl
  exact absurd h (by decide)

/-- How an encoded string is made: code point by code point, each of them as it is or escaped. -/
inductive Encoded : JsString → JsString → Prop
  | nil : Encoded [] []
  | unit (c : UInt16) (s e : JsString) : isUnescaped c = true → Encoded s e →
      Encoded (c :: s) (c :: e)
  | escaped (cp : Nat) (s e : JsString) : isSurrogate cp = false → cp ≤ 0x10ffff → Encoded s e →
      Encoded (utf16 cp ++ s) (escape (utf8 cp) ++ e)

theorem encoded_of_encode {s e : JsString} (h : encodeURIComponent s = some e) : Encoded s e := by
  induction s using encodeURIComponent.induct generalizing e with
  | case1 => cases h; exact .nil
  | case2 c rest hc ih =>
    rw [encodeURIComponent.eq_def] at h
    simp only [hc, if_true, Option.map_eq_some_iff] at h
    obtain ⟨e, he, rfl⟩ := h
    exact .unit c rest e hc (ih he)
  | case3 c rest hc ht =>
    rw [encodeURIComponent.eq_def] at h
    simp [hc, ht] at h
  | case4 c hc ht hl =>
    rw [encodeURIComponent.eq_def] at h
    simp [hc, ht, hl] at h
  | case5 c hc ht hl d rest hd ih =>
    rw [encodeURIComponent.eq_def] at h
    simp [hc, ht, hl, hd] at h
    obtain ⟨e, he, rfl⟩ := h
    obtain ⟨hle, hs, hu⟩ := pair_codePointOf hl hd
    have henc := Encoded.escaped _ rest e hs hle (ih he)
    rwa [hu] at henc
  | case6 c hc ht hl d rest hd =>
    rw [encodeURIComponent.eq_def] at h
    simp [hc, ht, hl, hd] at h
  | case7 c rest hc ht hl ih =>
    rw [encodeURIComponent.eq_def] at h
    simp [hc, ht, hl] at h
    obtain ⟨e, he, rfl⟩ := h
    have hlt := c.toNat_lt
    have henc := Encoded.escaped c.toNat rest e (by simp [isSurrogate_toNat, hl, ht]) (by omega)
      (ih he)
    rwa [utf16_toNat] at henc

/-- **A component survives the trip.** What `encodeURIComponent` makes of a string, `decodeURIComponent`
turns back into it. -/
theorem decode_encode {s e : JsString} (h : encodeURIComponent s = some e) :
    decodeURIComponent e = some s := by
  have henc := encoded_of_encode h
  clear h
  induction henc with
  | nil => rfl
  | unit c s e hc _ ih => rw [decode_unit (ne_percent_of_unescaped hc), ih]; rfl
  | escaped cp s e hs hle _ ih => rw [decode_escape hs hle, ih]; rfl

/-- `[A-Za-z0-9_.!~*'()%-]`: no delimiter, no blank, no control character. -/
def isUriUnit (c : UInt16) : Bool := isUnescaped c || c == 0x25

theorem isUriUnit_escape {cp : Nat} (h : cp ≤ 0x10ffff) {c : UInt16} (hc : c ∈ escape (utf8 cp)) :
    isUriUnit c = true := by
  have hdigit : ∀ n < 16, isUriUnit (upperHexDigit n) = true := by decide
  obtain ⟨b, hb, hc⟩ := List.mem_flatMap.1 hc
  have hlt := utf8_lt h hb
  simp only [List.mem_cons, List.not_mem_nil, or_false] at hc
  rcases hc with rfl | rfl | rfl
  · decide
  · exact hdigit _ (by omega)
  · exact hdigit _ (by omega)

theorem isUriUnit_encode {s e : JsString} (h : encodeURIComponent s = some e) :
    ∀ c ∈ e, isUriUnit c = true := by
  have henc := encoded_of_encode h
  clear h
  intro c hc
  induction henc with
  | nil => cases hc
  | unit d s e hd _ ih =>
    rcases List.mem_cons.1 hc with rfl | hc
    · simp [isUriUnit, hd]
    · exact ih hc
  | escaped cp s e _ hle _ ih =>
    rcases List.mem_append.1 hc with hc | hc
    · exact isUriUnit_escape hle hc
    · exact ih hc

/-! ## Strings of scalar values -/

theorem isSurrogate_char (c : Char) : isSurrogate c.toNat = false ∧ c.toNat ≤ 0x10ffff := by
  have h := c.valid
  simp only [UInt32.isValidChar, Nat.isValidChar] at h
  have e : c.val.toNat = c.toNat := rfl
  simp only [isSurrogate]
  rw [e] at h
  refine ⟨?_, by omega⟩
  simp only [Bool.and_eq_false_iff, decide_eq_false_iff_not]
  omega

theorem leadingSurrogate_only {c : UInt16} (h : isLeadingSurrogate c = true) :
    isUnescaped c = false ∧ isTrailingSurrogate c = false := by
  simp only [isLeadingSurrogate, Bool.and_eq_true, decide_eq_true_eq, UInt16.le_iff_toNat_le,
    UInt16.reduceToNat] at h
  constructor
  · simp [isUnescaped, UInt16.le_iff_toNat_le, ← UInt16.toNat_inj]
    omega
  · simp [isTrailingSurrogate, UInt16.le_iff_toNat_le]
    omega

/-- The code units of a scalar value: one that is no surrogate, or a pair. -/
theorem utf16_cases {cp : Nat} (hs : isSurrogate cp = false) (hle : cp ≤ 0x10ffff) :
    (∃ c, utf16 cp = [c] ∧ isLeadingSurrogate c = false ∧ isTrailingSurrogate c = false) ∨
    ∃ c d, utf16 cp = [c, d] ∧ isLeadingSurrogate c = true ∧ isTrailingSurrogate d = true := by
  by_cases h : cp < 0x10000
  · have hcp : cp.toUInt16.toNat = cp := by simp; omega
    have hs' := isSurrogate_toNat cp.toUInt16
    rw [hcp, hs] at hs'
    have hu : utf16 cp = [cp.toUInt16] := by rw [utf16, if_pos h]
    exact .inl ⟨cp.toUInt16, hu, by simp_all, by simp_all⟩
  · have hu : utf16 cp = [(0xd800 + (cp - 0x10000) / 0x400).toUInt16,
        (0xdc00 + (cp - 0x10000) % 0x400).toUInt16] := by rw [utf16, if_neg h]
    have hlead : (0xd800 + (cp - 0x10000) / 0x400) % 0x10000 =
        0xd800 + (cp - 0x10000) / 0x400 := by omega
    have htrail : (0xdc00 + (cp - 0x10000) % 0x400) % 0x10000 =
        0xdc00 + (cp - 0x10000) % 0x400 := by omega
    refine .inr ⟨_, _, hu, ?_, ?_⟩
    · simp only [isLeadingSurrogate, Bool.and_eq_true, decide_eq_true_eq, UInt16.le_iff_toNat_le,
        UInt16.reduceToNat, Nat.toUInt16, UInt16.toNat_ofNat', Nat.reducePow, hlead]
      omega
    · simp only [isTrailingSurrogate, Bool.and_eq_true, decide_eq_true_eq, UInt16.le_iff_toNat_le,
        UInt16.reduceToNat, Nat.toUInt16, UInt16.toNat_ofNat', Nat.reducePow, htrail]
      omega

/-- On such a string `encodeURIComponent` never throws. -/
theorem exists_encode (s : List Char) : ∃ e, encodeURIComponent (ofChars s) = some e := by
  induction s with
  | nil => exact ⟨[], rfl⟩
  | cons c s ih =>
    obtain ⟨e, he⟩ := ih
    obtain ⟨hs, hle⟩ := isSurrogate_char c
    have hsplit : ofChars (c :: s) = utf16 c.toNat ++ ofChars s := rfl
    obtain ⟨d, hu, hl, ht⟩ | ⟨d, d', hu, hl, ht⟩ := utf16_cases hs hle
    · rw [hsplit, hu, List.singleton_append, encodeURIComponent.eq_def]
      by_cases hd : isUnescaped d = true
      · exact ⟨d :: e, by simp [hd, he]⟩
      · exact ⟨escape (utf8 d.toNat) ++ e, by simp [hd, hl, ht, he]⟩
    · obtain ⟨hd, ht'⟩ := leadingSurrogate_only hl
      rw [hsplit, hu, encodeURIComponent.eq_def]
      exact ⟨escape (utf8 (codePointOf d d')) ++ e, by simp [hd, hl, ht, ht', he]⟩

example : encodeURIComponent (js "é€ ") = some (js "%C3%A9%E2%82%AC%20") := by decide

example : encodeURIComponent [0xd83d, 0xde00] = some (js "%F0%9F%98%80") := by decide

end DepositPortal
