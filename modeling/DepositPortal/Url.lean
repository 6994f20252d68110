import DepositPortal.Number
import DepositPortal.Uri
import Mathlib.Data.List.Flatten

/-!
# `new URL(text)`

The basic URL parser of the WHATWG standard, without a base, and what the getters of a `URL` give. The
text is read as code points (a surrogate without its other half is U+FFFD). A scheme that is not special
has no default port, its host is opaque (kept, with control and non-ASCII characters escaped) unless it is
an IPv6 address in brackets, and only a segment of dots is ever dropped from its path. The special schemes
and `blob` are left to a parameter.

| here | the standard |
| --- | --- |
| `strip`, `scheme`         | basic URL parser, up to the scheme state |
| `parseAuthority`          | authority, host and port states |
| `parseHost`               | host parsing of an opaque host |
| `parseIPv6`, `serializeIPv6` | IPv6 parser and serializer |
| `appendSegment`           | path state |
-/
namespace DepositPortal

/-- What the getters of a `URL` give. -/
structure Url where
  protocol : JsString
  username : JsString
  password : JsString
  hostname : JsString
  port : JsString
  pathname : JsString
  search : JsString
  hash : JsString
  origin : JsString
  deriving DecidableEq, Repr

/-- The string as scalar values. -/
def toScalars : JsString → List Nat
  | [] => []
  | c :: rest =>
    if isLeadingSurrogate c then
      match rest with
      | [] => [0xfffd]
      | d :: rest =>
        if isTrailingSurrogate d then codePointOf c d :: toScalars rest
        else 0xfffd :: toScalars (d :: rest)
    else if isTrailingSurrogate c then 0xfffd :: toScalars rest
    else c.toNat :: toScalars rest

def ofScalars (s : List Nat) : JsString := s.flatMap utf16

/-! ## Percent-encode sets -/

def c0ControlSet (cp : Nat) : Bool := cp ≤ 0x1f || 0x7e < cp

/-- Space, `"`, `<`, `>` and the grave accent. -/
def fragmentSet (cp : Nat) : Bool :=
  c0ControlSet cp || [0x20, 0x22, 0x3c, 0x3e, 0x60].contains cp

/-- Space, `"`, `#`, `<` and `>`. -/
def querySet (cp : Nat) : Bool :=
  c0ControlSet cp || [0x20, 0x22, 0x23, 0x3c, 0x3e].contains cp

/-- `?`, `^`, the grave accent, and the two braces besides. -/
def pathSet (cp : Nat) : Bool := querySet cp || [0x3f, 0x5e, 0x60, 0x7b, 0x7d].contains cp

/-- `/ : ; = @ [ \ ] |` besides. -/
def userinfoSet (cp : Nat) : Bool :=
  pathSet cp || [0x2f, 0x3a, 0x3b, 0x3d, 0x40, 0x5b, 0x5c, 0x5d, 0x7c].contains cp

def percentEncode (set : Nat → Bool) (s : List Nat) : JsString :=
  s.flatMap fun cp => if set cp then escape (utf8 cp) else [cp.toUInt16]

/-! ## Hosts -/

/-- NULL, TAB, LF, CR, space and `# / : < > ? @ [ \ ] ^ |`. -/
def isForbiddenHost (cp : Nat) : Bool :=
  [0x0, 0x9, 0xa, 0xd, 0x20, 0x23, 0x2f, 0x3a, 0x3c, 0x3e, 0x3f, 0x40, 0x5b, 0x5c, 0x5d, 0x5e, 0x7c].contains cp

def hexDigitValue (cp : Nat) : Option Nat :=
  if 0x30 ≤ cp ∧ cp ≤ 0x39 then some (cp - 0x30)
  else if 0x41 ≤ cp ∧ cp ≤ 0x46 then some (cp - 0x37)
  else if 0x61 ≤ cp ∧ cp ≤ 0x66 then some (cp - 0x57)
  else none

def isDecimalDigit (cp : Nat) : Bool := 0x30 ≤ cp && cp ≤ 0x39

def decimalValue (digits : List Nat) : Nat :=
  digits.foldl (fun value cp => value * 10 + (cp - 0x30)) 0

/-- A number of the dotted part: no leading zero, at most 255. -/
def ipv4Piece (s : List Nat) : Option Nat :=
  if !s.isEmpty && s.all isDecimalDigit && (s.length = 1 || s.head? != some 0x30) &&
      decimalValue s ≤ 255 then some (decimalValue s)
  else none

/-- The dotted part, as the two pieces it fills. -/
def ipv4Pieces (s : List Nat) : Option (List Nat) :=
  match (s.splitOn 0x2e).mapM ipv4Piece with
  | some [a, b, c, d] => some [a * 0x100 + b, c * 0x100 + d]
  | _ => none

/-- The pieces from here on, `slots` of them at most, and where `::` stands. -/
def ipv6Loop : Nat → List Nat → List Nat → Option Nat → Option (List Nat × Option Nat)
  | _, [], acc, compress => some (acc, compress)
  | 0, _ :: _, _, _ => none
  | slots + 1, c :: rest, acc, compress =>
    if c = 0x3a then
      if compress.isSome then none else ipv6Loop slots rest (acc ++ [0]) (some (acc.length + 1))
    else
      let digits := ((c :: rest).take 4).takeWhile fun cp => (hexDigitValue cp).isSome
      let value := (digits.filterMap hexDigitValue).foldl (fun value d => value * 0x10 + d) 0
      match (c :: rest).drop digits.length with
      | [] => some (acc ++ [value], compress)
      | d :: after =>
        if d = 0x2e then
          if digits.isEmpty || slots = 0 then none
          else (ipv4Pieces (c :: rest)).map fun pieces => (acc ++ pieces, compress)
        else if d = 0x3a then
          if after.isEmpty then none else ipv6Loop slots after (acc ++ [value]) compress
        else none

/-- The eight pieces of an address. -/
def parseIPv6 (s : List Nat) : Option (List Nat) :=
  let read := match s with
    | 0x3a :: 0x3a :: rest => ipv6Loop 7 rest [0] (some 1)
    | 0x3a :: _ => none
    | s => ipv6Loop 8 s [] none
  match read with
  | some (acc, some i) => some (acc.take i ++ List.replicate (8 - acc.length) 0 ++ acc.drop i)
  | some (acc, none) => if acc.length = 8 then some acc else none
  | none => none

def lowerHexDigit (n : Nat) : UInt16 := (if n < 10 then 0x30 + n else 0x57 + n).toUInt16

/-- A piece in lower-case hexadecimal. -/
def hexPiece (n : Nat) : JsString :=
  if n = 0 then js "0" else (Nat.digits 16 n).reverse.map lowerHexDigit

/-- How many pieces are zero from `i` on. -/
def zeroRun (pieces : List Nat) (i : Nat) : Nat := ((pieces.drop i).takeWhile (· == 0)).length

/-- The first of the longest runs of zeros, when it is longer than one. -/
def compressed (pieces : List Nat) : Option Nat :=
  let longest := ((List.range 8).map (zeroRun pieces)).foldl max 0
  if 1 < longest then (List.range 8).find? fun i => zeroRun pieces i == longest else none

def serializeIPv6 (pieces : List Nat) : JsString :=
  match compressed pieces with
  | none => (js ":").intercalate (pieces.map hexPiece)
  | some i => (js ":").intercalate ((pieces.take i).map hexPiece) ++ js "::" ++
      (js ":").intercalate ((pieces.drop (i + zeroRun pieces i)).map hexPiece)

/-- The host of a scheme that is not special. -/
def parseHost (s : List Nat) : Option JsString :=
  if s.head? = some 0x5b then
    if s.getLast? = some 0x5d then
      (parseIPv6 s.tail.dropLast).map fun pieces => js "[" ++ serializeIPv6 pieces ++ js "]"
    else none
  else if s.any isForbiddenHost then none
  else some (percentEncode c0ControlSet s)

/-! ## Authority and path -/

/-- The host, and the port after the first colon outside brackets. -/
def splitPort (insideBrackets : Bool) : List Nat → List Nat × Option (List Nat)
  | [] => ([], none)
  | c :: rest =>
    if c = 0x3a ∧ insideBrackets = false then ([], some rest)
    else
      let split := splitPort (if c = 0x5b then true else if c = 0x5d then false else insideBrackets) rest
      (c :: split.1, split.2)

def parsePort (s : List Nat) : Option JsString :=
  if s.isEmpty then some []
  else if s.all isDecimalDigit && decimalValue s ≤ 65535 then some (decimal (decimalValue s))
  else none

structure Authority where
  username : JsString
  password : JsString
  hostname : JsString
  port : JsString

/-- What follows the last `@`. -/
def hostPort (s : List Nat) : List Nat := (s.reverse.takeWhile (· != 0x40)).reverse

def parseAuthority (s : List Nat) : Option Authority :=
  let userinfo := s.take (s.length - (hostPort s).length - 1)
  let (host, port) := splitPort false (hostPort s)
  if (s.contains 0x40 && (hostPort s).isEmpty) || (port.isSome && host.isEmpty) then none
  else do
    let hostname ← parseHost host
    let port ← parsePort (port.getD [])
    return ⟨percentEncode userinfoSet (userinfo.takeWhile (· != 0x3a)),
      percentEncode userinfoSet ((userinfo.dropWhile (· != 0x3a)).drop 1), hostname, port⟩

def lowerUnit (c : UInt16) : UInt16 := if 0x41 ≤ c && c ≤ 0x5a then c + 0x20 else c

def isSingleDot (segment : JsString) : Bool := [js ".", js "%2e"].contains (segment.map lowerUnit)

def isDoubleDot (segment : JsString) : Bool :=
  [js "..", js ".%2e", js "%2e.", js "%2e%2e"].contains (segment.map lowerUnit)

/-- One segment; the last one has no `/` after it. -/
def appendSegment (path : List JsString) (segment : List Nat) (isLast : Bool) : List JsString :=
  let buffer := percentEncode pathSet segment
  if isDoubleDot buffer then if isLast then path.dropLast ++ [[]] else path.dropLast
  else if isSingleDot buffer then if isLast then path ++ [[]] else path
  else path ++ [buffer]

def appendSegments : List JsString → List (List Nat) → List JsString
  | path, [] => path
  | path, segment :: rest => appendSegments (appendSegment path segment rest.isEmpty) rest

/-- `pathname`, from what follows the first `/`. -/
def pathnameOf (s : List Nat) : JsString :=
  (appendSegments [] (s.splitOn 0x2f)).flatMap fun segment => js "/" ++ segment

/-! ## The parser -/

def isTabOrNewline (cp : Nat) : Bool := cp = 0x9 || cp = 0xa || cp = 0xd

/-- Leading and trailing control characters and spaces go, and then every tab and newline. -/
def strip (s : List Nat) : List Nat :=
  (((s.dropWhile (· ≤ 0x20)).reverse.dropWhile (· ≤ 0x20)).reverse).filter fun cp => !isTabOrNewline cp

def isAlpha (cp : Nat) : Bool := (0x41 ≤ cp && cp ≤ 0x5a) || (0x61 ≤ cp && cp ≤ 0x7a)

def isSchemeChar (cp : Nat) : Bool :=
  isAlpha cp || isDecimalDigit cp || [0x2b, 0x2d, 0x2e].contains cp

/-- The scheme in lower case, and what follows its colon. -/
def splitScheme (s : List Nat) : Option (JsString × List Nat) :=
  match s.takeWhile isSchemeChar, s.dropWhile isSchemeChar with
  | first :: scheme, 0x3a :: rest =>
    if isAlpha first then some ((first :: scheme).map fun cp => lowerUnit cp.toUInt16, rest) else none
  | _, _ => none

/-- The schemes the parameter is asked about. -/
def isSpecial (scheme : JsString) : Bool :=
  [js "ftp", js "file", js "http", js "https", js "ws", js "wss", js "blob"].contains scheme

/-- `search` or `hash`: empty without anything after the mark. -/
def marked (set : Nat → Bool) (s : List Nat) : JsString :=
  match s with
  | mark :: c :: rest => mark.toUInt16 :: percentEncode set (c :: rest)
  | _ => []

def parseNonSpecial (scheme : JsString) (s : List Nat) : Option Url :=
  let beforeHash := s.takeWhile (· != 0x23)
  let search := marked querySet (beforeHash.dropWhile (· != 0x3f))
  let hash := marked fragmentSet (s.dropWhile (· != 0x23))
  match beforeHash.takeWhile (· != 0x3f) with
  | 0x2f :: 0x2f :: rest => do
    let authority ← parseAuthority (rest.takeWhile (· != 0x2f))
    let pathname := match rest.dropWhile (· != 0x2f) with
      | [] => []
      | _ :: path => pathnameOf path
    return ⟨scheme ++ js ":", authority.username, authority.password, authority.hostname, authority.port,
      pathname, search, hash, js "null"⟩
  | 0x2f :: path => some ⟨scheme ++ js ":", [], [], [], [], pathnameOf path, search, hash, js "null"⟩
  | path => some ⟨scheme ++ js ":", [], [], [], [], percentEncode c0ControlSet path, search, hash, js "null"⟩

/-- `new URL(text)`; `none` is the `TypeError` it throws. -/
def parseUrl (special : JsString → Option Url) (text : JsString) : Option Url :=
  match splitScheme (strip (toScalars text)) with
  | none => none
  | some (scheme, rest) => if isSpecial scheme then special text else parseNonSpecial scheme rest

/-! ## Scalar values -/

variable {c d e : UInt16} {s t : JsString} {cp : Nat} {cps : List Nat} {set : Nat → Bool}

/-- A code unit that is a code point of its own. -/
def isSingle (c : UInt16) : Bool := !isLeadingSurrogate c && !isTrailingSurrogate c

theorem toScalars_single (h : isSingle c = true) : toScalars (c :: s) = c.toNat :: toScalars s := by
  simp only [isSingle, Bool.and_eq_true, Bool.not_eq_true'] at h
  rw [toScalars.eq_def]
  simp [h.1, h.2]

theorem toScalars_pair (hd : isLeadingSurrogate d = true) (he : isTrailingSurrogate e = true) :
    toScalars (d :: e :: s) = codePointOf d e :: toScalars s := by
  rw [toScalars.eq_def]
  simp [hd, he]

/-- A leading surrogate without its other half, at the end, -/
theorem toScalars_lastLead (hd : isLeadingSurrogate d = true) : toScalars [d] = [0xfffd] := by
  rw [toScalars.eq_def]
  simp [hd]

/-- or before something else. -/
theorem toScalars_lead (hd : isLeadingSurrogate d = true) (he : isTrailingSurrogate e = false) :
    toScalars (d :: e :: s) = 0xfffd :: toScalars (e :: s) := by
  rw [toScalars.eq_def]
  simp [hd, he]

theorem toScalars_trail (hl : isLeadingSurrogate d = false) (hd : isTrailingSurrogate d = true) :
    toScalars (d :: s) = 0xfffd :: toScalars s := by
  rw [toScalars.eq_def]
  simp [hl, hd]

/-- The string, read from the front. -/
theorem toScalars_induction {motive : JsString → Prop} (nil : motive [])
    (lastLead : ∀ d, isLeadingSurrogate d = true → motive [d])
    (pair : ∀ d e s, isLeadingSurrogate d = true → isTrailingSurrogate e = true → motive s →
      motive (d :: e :: s))
    (lead : ∀ d e s, isLeadingSurrogate d = true → isTrailingSurrogate e = false → motive (e :: s) →
      motive (d :: e :: s))
    (trail : ∀ d s, isLeadingSurrogate d = false → isTrailingSurrogate d = true → motive s →
      motive (d :: s))
    (single : ∀ d s, isSingle d = true → motive s → motive (d :: s)) (s : JsString) : motive s := by
  induction s using toScalars.induct with
  | case1 => exact nil
  | case2 d hd => exact lastLead d hd
  | case3 d hd e s he ih => exact pair d e s hd he ih
  | case4 d hd e s he ih => exact lead d e s hd (by simpa using he) ih
  | case5 d s hd he ih => exact trail d s (by simpa using hd) he ih
  | case6 d s hd he ih => exact single d s (by simp [isSingle, hd, he]) ih

theorem toScalars_singles (h : ∀ c ∈ s, isSingle c = true) :
    toScalars (s ++ t) = s.map UInt16.toNat ++ toScalars t := by
  induction s with
  | nil => rfl
  | cons c s ih =>
    rw [List.cons_append, toScalars_single (h c List.mem_cons_self),
      ih fun d hd => h d (List.mem_cons_of_mem _ hd)]
    rfl

theorem toScalars_map (h : ∀ c ∈ s, isSingle c = true) : toScalars s = s.map UInt16.toNat := by
  have happend := toScalars_singles (t := []) h
  rwa [List.append_nil, toScalars, List.append_nil] at happend

/-- A single unit keeps what stands before it apart from what stands after. -/
theorem toScalars_append (h : isSingle c = true) :
    toScalars (s ++ c :: t) = toScalars s ++ c.toNat :: toScalars t := by
  have htrail : isTrailingSurrogate c = false := by
    simp only [isSingle, Bool.and_eq_true, Bool.not_eq_true'] at h
    exact h.2
  induction s using toScalars_induction with
  | nil => exact toScalars_single h
  | lastLead d hd =>
    rw [List.singleton_append, toScalars_lead hd htrail, toScalars_single h, toScalars_lastLead hd]
    rfl
  | pair d e s hd he ih =>
    rw [List.cons_append, List.cons_append, toScalars_pair hd he, ih, toScalars_pair hd he]
    rfl
  | lead d e s hd he ih =>
    rw [List.cons_append, List.cons_append, toScalars_lead hd he, ← List.cons_append, ih,
      toScalars_lead hd he]
    rfl
  | trail d s hl hd ih =>
    rw [List.cons_append, toScalars_trail hl hd, ih, toScalars_trail hl hd]
    rfl
  | single d s hd ih =>
    rw [List.cons_append, toScalars_single hd, ih, toScalars_single hd]
    rfl

/-- A scalar value. -/
def IsScalar (cp : Nat) : Prop := isSurrogate cp = false ∧ cp ≤ 0x10ffff

theorem isScalar_single (h : isSingle c = true) : IsScalar c.toNat := by
  simp only [isSingle, Bool.and_eq_true, Bool.not_eq_true'] at h
  have hlt := c.toNat_lt
  refine ⟨?_, by omega⟩
  rw [isSurrogate_toNat, h.1, h.2]
  rfl

theorem isScalar_toScalars : ∀ cp ∈ toScalars s, IsScalar cp := by
  have hreplacement : IsScalar 0xfffd := ⟨by decide, by decide⟩
  induction s using toScalars_induction with
  | nil => exact fun cp h => by cases h
  | lastLead d hd =>
    rw [toScalars_lastLead hd, List.forall_mem_singleton]
    exact hreplacement
  | pair d e s hd he ih =>
    obtain ⟨hle, hs, -⟩ := pair_codePointOf hd he
    rw [toScalars_pair hd he, List.forall_mem_cons]
    exact ⟨⟨hs, hle⟩, ih⟩
  | lead d e s hd he ih =>
    rw [toScalars_lead hd he, List.forall_mem_cons]
    exact ⟨hreplacement, ih⟩
  | trail d s hl hd ih =>
    rw [toScalars_trail hl hd, List.forall_mem_cons]
    exact ⟨hreplacement, ih⟩
  | single d s hd ih =>
    rw [toScalars_single hd, List.forall_mem_cons]
    exact ⟨isScalar_single hd, ih⟩

theorem ofScalars_cons (cp : Nat) (cps : List Nat) : ofScalars (cp :: cps) = utf16 cp ++ ofScalars cps := rfl

theorem length_utf16_pos (cp : Nat) : 1 ≤ (utf16 cp).length := by
  unfold utf16
  split <;> simp

/-- Reading a string as scalar values keeps its length. -/
theorem length_ofScalars (s : JsString) : (ofScalars (toScalars s)).length = s.length := by
  have hreplacement : (utf16 0xfffd).length = 1 := by decide
  induction s using toScalars_induction with
  | nil => rfl
  | lastLead d hd => rw [toScalars_lastLead hd]; rfl
  | pair d e s hd he ih =>
    rw [toScalars_pair hd he, ofScalars_cons, (pair_codePointOf hd he).2.2, List.length_append, ih]
    simp only [List.length_cons, List.length_nil]
    omega
  | lead d e s hd he ih =>
    rw [toScalars_lead hd he, ofScalars_cons, List.length_append, hreplacement, ih]
    simp only [List.length_cons]
    omega
  | trail d s hl hd ih =>
    rw [toScalars_trail hl hd, ofScalars_cons, List.length_append, hreplacement, ih]
    simp only [List.length_cons]
    omega
  | single d s hd ih =>
    rw [toScalars_single hd, ofScalars_cons, List.length_append, utf16_toNat, ih]
    simp only [List.length_cons, List.length_nil]
    omega

/-! ## Percent-encoded parts, decoded -/

/-- All that is not ASCII is in the set. -/
def Covers (set : Nat → Bool) : Prop := ∀ cp, 0x7e < cp → set cp = true

theorem covers_c0Control : Covers c0ControlSet := fun cp h => by simp [c0ControlSet, h]

theorem percentEncode_cons (set : Nat → Bool) (cp : Nat) (cps : List Nat) : percentEncode set (cp :: cps) =
    (if set cp then escape (utf8 cp) else [cp.toUInt16]) ++ percentEncode set cps := rfl

theorem utf16_ascii (h : cp ≤ 0x7e) : utf16 cp = [cp.toUInt16] := by
  rw [utf16, if_pos (by omega)]

theorem decode_percentEncode (hset : Covers set) (hs : ∀ cp ∈ cps, IsScalar cp) (hp : 0x25 ∉ cps) :
    decodeURIComponent (percentEncode set cps) = some (ofScalars cps) := by
  induction cps with
  | nil => rfl
  | cons cp cps ih =>
    rw [List.forall_mem_cons] at hs
    rw [List.mem_cons, not_or] at hp
    have ih := ih hs.2 hp.2
    rw [percentEncode_cons, ofScalars_cons]
    split
    · rw [decode_escape hs.1.1 hs.1.2, ih]
      rfl
    · next hraw =>
      have hle : cp ≤ 0x7e := by
        by_contra hgt
        exact hraw (hset cp (by omega))
      have hne : cp.toUInt16 ≠ 0x25 := fun e => hp.1 (by
        have := congrArg UInt16.toNat e
        simp at this
        omega)
      rw [List.singleton_append, decode_unit hne, ih, utf16_ascii hle]
      rfl

/-- Text of units that the set leaves alone. -/
theorem percentEncode_units (h : ∀ c ∈ s, set c.toNat = false) :
    percentEncode set (s.map UInt16.toNat) = s := by
  induction s with
  | nil => rfl
  | cons c s ih =>
    rw [List.forall_mem_cons] at h
    rw [List.map_cons, percentEncode_cons, h.1, ih h.2]
    simp

/-! ### An escape that was there before makes the decoded text shorter -/

/-- How many code units a piece can add. -/
def Piece.weight : Piece → Nat
  | .unit _ => 1
  | .octet b => if b < 0x80 then 1 else if b < 0xc0 then 0 else if b < 0xf0 then 1 else 2

theorem Piece.weight_le (p : Piece) : p.weight ≤ 2 := by
  unfold Piece.weight
  split
  · omega
  · split_ifs <;> omega

theorem weight_utf8 (h : cp ≤ 0x10ffff) :
    (((utf8 cp).map Piece.octet).map Piece.weight).sum = (utf16 cp).length := by
  unfold utf8 utf16
  split_ifs <;> simp [Piece.weight] <;> split_ifs <;> omega

/-- The bytes of a code point weigh what it is long. -/
theorem weight_codePoint {n : Nat} {octets : List Nat} (h : codePoint n octets = some cp) :
    (octets.map fun b => (Piece.octet b).weight).sum = (utf16 cp).length := by
  unfold codePoint at h
  rw [Option.ite_none_right_eq_some] at h
  obtain ⟨hcond, e⟩ := h
  cases e
  simp only [Bool.and_eq_true, decide_eq_true_eq] at hcond
  rw [← hcond.1.1, ← weight_utf8 hcond.2, List.map_map]
  rfl

theorem length_assembled {n : Nat} {octets : List Nat} {rest : List Piece}
    (ih : ∀ s, assemble rest = some s → s.length ≤ (rest.map Piece.weight).sum)
    (h : (do return utf16 (← codePoint n octets) ++ (← assemble rest)) = some s) :
    s.length ≤ (octets.map fun b => (Piece.octet b).weight).sum + (rest.map Piece.weight).sum := by
  cases hcp : codePoint n octets with
  | none => rw [hcp] at h; cases h
  | some cp =>
    cases hrest : assemble rest with
    | none => rw [hcp, hrest] at h; cases h
    | some s' =>
      rw [hcp, hrest] at h
      cases h
      rw [List.length_append, weight_codePoint hcp]
      exact Nat.add_le_add_left (ih s' hrest) _

theorem length_assemble (ps : List Piece) :
    ∀ s, assemble ps = some s → s.length ≤ (ps.map Piece.weight).sum := by
  induction ps using assemble.induct with
  | case1 => rintro s ⟨⟩; simp
  | case2 c rest ih =>
    intro s h
    rw [assemble] at h
    obtain ⟨s', hs', rfl⟩ := Option.map_eq_some_iff.1 h
    have ih := ih s' hs'
    rw [List.map_cons, List.sum_cons, List.length_cons, Piece.weight]
    omega
  | case3 a rest ha ih =>
    intro s h
    rw [assemble.eq_def] at h
    simp only [ha, if_true] at h
    obtain ⟨s', hs', rfl⟩ := Option.map_eq_some_iff.1 h
    have ih := ih s' hs'
    rw [List.map_cons, List.sum_cons, List.length_cons, Piece.weight, if_pos ha]
    omega
  | case4 a ha b rest hb ih =>
    intro s h
    rw [assemble.eq_def] at h
    simp only [ha, hb, if_true, if_false] at h
    simpa [Nat.add_assoc] using length_assembled ih h
  | case5 a ha b hb c rest hc ih =>
    intro s h
    rw [assemble.eq_def] at h
    simp only [ha, hb, hc, if_true, if_false] at h
    simpa [Nat.add_assoc] using length_assembled ih h
  | case6 a ha b hb c hc d rest ih =>
    intro s h
    rw [assemble.eq_def] at h
    simp only [ha, hb, hc, if_false] at h
    simpa [Nat.add_assoc] using length_assembled ih h
  | case7 a ha b hb c rest hc hrest =>
    intro s h
    rw [assemble.eq_def] at h
    cases rest with
    | nil => simp [ha, hb, hc] at h
    | cons p rest =>
      cases p with
      | unit u => simp [ha, hb, hc] at h
      | octet o => exact (hrest o rest rfl).elim
  | case8 a ha b rest hb hrest =>
    intro s h
    rw [assemble.eq_def] at h
    cases rest with
    | nil => simp [ha, hb] at h
    | cons p rest =>
      cases p with
      | unit u => simp [ha, hb] at h
      | octet o => exact (hrest o rest rfl).elim
  | case9 a rest ha hrest =>
    intro s h
    rw [assemble.eq_def] at h
    cases rest with
    | nil => simp [ha] at h
    | cons p rest =>
      cases p with
      | unit u => simp [ha] at h
      | octet o => exact (hrest o rest rfl).elim

/-- The two digits of an escape stand there as they are. -/
theorem escape_of_pieces {ps : List Piece} (hset : Covers set)
    (h : pieces (0x25 :: percentEncode set cps) = some ps) :
    ∃ high low rest p ps', cps = high :: low :: rest ∧ high ≤ 0x7e ∧ low ≤ 0x7e ∧
      pieces (percentEncode set rest) = some ps' ∧ ps = p :: ps' := by
  have hescape : ∀ cp cps, set cp = true → ∃ tail, percentEncode set (cp :: cps) = 0x25 :: tail := by
    intro cp cps hcp
    rw [percentEncode_cons, if_pos hcp]
    have hne : utf8 cp ≠ [] := by unfold utf8; split_ifs <;> simp
    obtain ⟨b, bytes, hb⟩ := List.exists_cons_of_ne_nil hne
    rw [hb]
    exact ⟨_, rfl⟩
  have hraw : ∀ cp cps, set cp = false →
      percentEncode set (cp :: cps) = cp.toUInt16 :: percentEncode set cps ∧ cp ≤ 0x7e := by
    intro cp cps hcp
    refine ⟨by rw [percentEncode_cons, hcp]; rfl, ?_⟩
    by_contra hgt
    rw [hset cp (by omega)] at hcp
    cases hcp
  have hpercent : ∀ c, octetOf 0x25 c = none ∧ octetOf c 0x25 = none := by
    intro c
    have hno : hexValue 0x25 = none := by decide
    refine ⟨by simp [octetOf, hno], ?_⟩
    rw [octetOf]
    cases hexValue c <;> simp [hno]
  cases cps with
  | nil => simp [percentEncode, pieces] at h
  | cons high cps =>
    cases hh : set high with
    | true =>
      obtain ⟨tail, ht⟩ := hescape high cps hh
      rw [ht, pieces.eq_def] at h
      cases tail with
      | nil => simp at h
      | cons c tail => simp [hpercent] at h
    | false =>
      obtain ⟨he, hle⟩ := hraw high cps hh
      rw [he] at h
      cases cps with
      | nil => simp [percentEncode, pieces] at h
      | cons low rest =>
        cases hl : set low with
        | true =>
          obtain ⟨tail, ht⟩ := hescape low rest hl
          rw [ht, pieces.eq_def] at h
          simp [hpercent] at h
        | false =>
          obtain ⟨he', hle'⟩ := hraw low rest hl
          rw [he', pieces.eq_def] at h
          simp only [if_true] at h
          cases hp : octetOf high.toUInt16 low.toUInt16 with
          | none => rw [hp] at h; cases h
          | some p =>
            cases hps : pieces (percentEncode set rest) with
            | none => rw [hp, hps] at h; cases h
            | some ps' =>
              rw [hp, hps] at h
              cases h
              exact ⟨high, low, rest, p, ps', rfl, hle, hle', hps, rfl⟩

theorem length_ofScalars_ascii (h : cp ≤ 0x7e) : (ofScalars (cp :: cps)).length = (ofScalars cps).length + 1 := by
  rw [ofScalars_cons, utf16_ascii h, List.length_append, List.length_singleton, Nat.add_comm]

theorem weight_pieces (hset : Covers set) (hraw : set 0x25 = false) : ∀ (n : Nat) (cps : List Nat)
    (ps : List Piece), cps.length ≤ n → (∀ cp ∈ cps, IsScalar cp) →
      pieces (percentEncode set cps) = some ps →
      (ps.map Piece.weight).sum ≤ (ofScalars cps).length ∧
        (0x25 ∈ cps → (ps.map Piece.weight).sum < (ofScalars cps).length) := by
  intro n
  induction n with
  | zero =>
    intro cps ps hlen hs h
    obtain rfl := List.eq_nil_of_length_eq_zero (Nat.le_zero.1 hlen)
    cases h
    exact ⟨by simp [ofScalars], fun hp => by cases hp⟩
  | succ n ih =>
    intro cps ps hlen hs h
    cases cps with
    | nil => cases h; exact ⟨by simp [ofScalars], fun hp => by cases hp⟩
    | cons cp cps =>
      rw [List.forall_mem_cons] at hs
      rw [List.length_cons] at hlen
      by_cases hpercent : cp = 0x25
      · -- an escape that was there: three code units for one byte
        subst hpercent
        rw [percentEncode_cons, hraw] at h
        obtain ⟨high, low, rest, p, ps', rfl, hhigh, hlow, hps, rfl⟩ := escape_of_pieces hset h
        simp only [List.length_cons] at hlen
        have hrest := (ih rest ps' (by omega) (fun cp hcp => hs.2 cp (by simp [hcp])) hps).1
        have hweight := p.weight_le
        rw [length_ofScalars_ascii (by omega), length_ofScalars_ascii hhigh, length_ofScalars_ascii hlow,
          List.map_cons, List.sum_cons]
        exact ⟨by omega, fun _ => by omega⟩
      · have hmem : (0x25 ∈ cp :: cps) ↔ 0x25 ∈ cps := by simp [Ne.symm hpercent]
        rw [hmem, ofScalars_cons, List.length_append]
        rw [percentEncode_cons] at h
        cases hcp : set cp with
        | true =>
          rw [hcp, if_pos rfl, pieces_escape fun b hb => utf8_lt hs.1.2 hb] at h
          obtain ⟨ps', hps, rfl⟩ := Option.map_eq_some_iff.1 h
          obtain ⟨hle, hlt⟩ := ih cps ps' (by omega) hs.2 hps
          rw [List.map_append, List.sum_append, weight_utf8 hs.1.2]
          exact ⟨by omega, fun hp => by have := hlt hp; omega⟩
        | false =>
          have hle7 : cp ≤ 0x7e := by
            by_contra hgt
            rw [hset cp (by omega)] at hcp
            cases hcp
          have hne : cp.toUInt16 ≠ 0x25 := fun e => hpercent (by
            have := congrArg UInt16.toNat e
            simp at this
            omega)
          rw [hcp, if_neg (by simp), List.singleton_append, pieces_unit hne] at h
          obtain ⟨ps', hps, rfl⟩ := Option.map_eq_some_iff.1 h
          obtain ⟨hle, hlt⟩ := ih cps ps' (by omega) hs.2 hps
          rw [List.map_cons, List.sum_cons, utf16_ascii hle7, List.length_singleton, Piece.weight]
          exact ⟨by omega, fun hp => by have := hlt hp; omega⟩

/-- What a percent-encoded text is decoded to is no longer than the text, and shorter when the text had a
`%`. -/
theorem length_decode_le (hset : Covers set) (hraw : set 0x25 = false) (hs : ∀ cp ∈ cps, IsScalar cp)
    (h : decodeURIComponent (percentEncode set cps) = some s) :
    s.length ≤ (ofScalars cps).length ∧ (0x25 ∈ cps → s.length < (ofScalars cps).length) := by
  obtain ⟨ps, hps, hassemble⟩ := Option.bind_eq_some_iff.1 h
  obtain ⟨hle, hlt⟩ := weight_pieces hset hraw cps.length cps ps (Nat.le_refl _) hs hps
  have hlen := length_assemble ps s hassemble
  exact ⟨by omega, fun hp => by have := hlt hp; omega⟩

/-- A part as long as the whole is the whole. -/
theorem eq_of_sublist_length {l : List Nat} (h : l.Sublist cps)
    (hlen : (ofScalars cps).length ≤ (ofScalars l).length) : l = cps := by
  induction h with
  | slnil => rfl
  | @cons l cps cp hsub ih =>
    have hle : (ofScalars l).length ≤ (ofScalars cps).length :=
      (hsub.flatMap utf16).length_le
    have hpos := length_utf16_pos cp
    rw [ofScalars_cons, List.length_append] at hlen
    omega
  | @cons_cons l cps cp hsub ih =>
    rw [ofScalars_cons, ofScalars_cons, List.length_append, List.length_append] at hlen
    rw [ih (by omega)]

/-! ### Segments of dots -/

theorem eq_of_lowerUnit (h : lowerUnit c = d) (hd : isAlpha d.toNat = false) : c = d := by
  unfold lowerUnit at h
  split at h
  · next hupper =>
    have hall : ∀ n < 0x5b, 0x41 ≤ n → isAlpha (UInt16.ofNat n + 0x20).toNat = true := by decide
    simp only [Bool.and_eq_true, decide_eq_true_eq, UInt16.le_iff_toNat_le, UInt16.reduceToNat] at hupper
    have halpha := hall c.toNat (by omega) hupper.1
    rw [UInt16.ofNat_toNat, h, hd] at halpha
    cases halpha
  · exact h

theorem eq_of_lowerUnit_e (h : lowerUnit c = 0x65) : c = 0x65 ∨ c = 0x45 := by
  unfold lowerUnit at h
  split at h
  · exact .inr (by grind)
  · exact .inl h

/-- A dot, however it is written, is read as a dot. -/
theorem decode_dot (h : isSingleDot s = true) (t : JsString) :
    decodeURIComponent (s ++ t) = (decodeURIComponent t).map (0x2e :: ·) := by
  simp only [isSingleDot, List.contains_iff_mem, List.mem_cons, List.not_mem_nil, or_false] at h
  rcases h with h | h
  · obtain ⟨a, s, rfl, ha, hs⟩ := List.map_eq_cons_iff.1 h
    obtain rfl := List.map_eq_nil_iff.1 hs
    obtain rfl : a = 0x2e := eq_of_lowerUnit ha (by decide)
    exact decode_unit (by decide) t
  · obtain ⟨a, s, rfl, ha, hs⟩ := List.map_eq_cons_iff.1 h
    obtain ⟨b, s, rfl, hb, hs⟩ := List.map_eq_cons_iff.1 hs
    obtain ⟨e, s, rfl, he, hs⟩ := List.map_eq_cons_iff.1 hs
    obtain rfl := List.map_eq_nil_iff.1 hs
    obtain rfl : a = 0x25 := eq_of_lowerUnit ha (by decide)
    obtain rfl : b = 0x32 := eq_of_lowerUnit hb (by decide)
    have hescape : octetOf 0x32 e = some (.octet 0x2e) := by
      rcases eq_of_lowerUnit_e he with rfl | rfl <;> decide
    have hpieces : pieces (0x25 :: 0x32 :: e :: t) = (pieces t).map (.octet 0x2e :: ·) := by
      rw [pieces.eq_def]
      simp only [if_true, hescape]
      cases pieces t <;> rfl
    rw [decodeURIComponent, decodeURIComponent, List.cons_append, List.cons_append, List.cons_append,
      List.nil_append, hpieces]
    cases pieces t with
    | none => rfl
    | some ps =>
      rw [Option.map_some, Option.bind_some, assemble.eq_def]
      rfl

theorem decode_singleDot (h : isSingleDot s = true) : decodeURIComponent s = some (js ".") := by
  have hdot := decode_dot h []
  rwa [List.append_nil] at hdot

theorem decode_doubleDot (h : isDoubleDot s = true) : decodeURIComponent s = some (js "..") := by
  obtain ⟨first, second, rfl, hfirst, hsecond⟩ : ∃ first second, s = first ++ second ∧
      isSingleDot first = true ∧ isSingleDot second = true := by
    simp only [isDoubleDot, List.contains_iff_mem, List.mem_cons, List.not_mem_nil, or_false] at h
    have hsplit : ∃ a b, s.map lowerUnit = a ++ b ∧ a ∈ [js ".", js "%2e"] ∧ b ∈ [js ".", js "%2e"] := by
      rcases h with h | h | h | h
      · exact ⟨js ".", js ".", h, by decide, by decide⟩
      · exact ⟨js ".", js "%2e", h, by decide, by decide⟩
      · exact ⟨js "%2e", js ".", h, by decide, by decide⟩
      · exact ⟨js "%2e", js "%2e", h, by decide, by decide⟩
    obtain ⟨a, b, hab, ha, hb⟩ := hsplit
    obtain ⟨first, second, rfl, rfl, rfl⟩ := List.map_eq_append_iff.1 hab
    exact ⟨first, second, rfl, List.contains_iff_mem.2 ha, List.contains_iff_mem.2 hb⟩
  rw [decode_dot hfirst, decode_singleDot hsecond]
  rfl

/-! ### The text of an address -/

/-- A lower-case hexadecimal digit or a colon. -/
def isAddressUnit (c : UInt16) : Bool := (js "0123456789abcdef:").contains c

theorem isAddressUnit_hexPiece {n : Nat} (h : c ∈ hexPiece n) : isAddressUnit c = true := by
  unfold hexPiece at h
  split at h
  · have hzero : ∀ c ∈ js "0", isAddressUnit c = true := List.all_iff_forall_prop.1 (by decide)
    exact hzero c h
  · obtain ⟨d, hd, rfl⟩ := List.mem_map.1 h
    have hall : ∀ d < 16, isAddressUnit (lowerHexDigit d) = true := by decide
    exact hall d (Nat.digits_lt_base (by decide) (List.mem_reverse.1 hd))

theorem isAddressUnit_pieces {pieces : List Nat} (h : c ∈ (js ":").intercalate (pieces.map hexPiece)) :
    isAddressUnit c = true := by
  have hcolon : ∀ c ∈ js ":", isAddressUnit c = true := List.all_iff_forall_prop.1 (by decide)
  induction pieces with
  | nil => cases h
  | cons n pieces ih =>
    cases pieces with
    | nil =>
      have hc : c ∈ hexPiece n := by simpa using h
      exact isAddressUnit_hexPiece hc
    | cons m pieces =>
      rw [List.map_cons, List.map_cons, List.intercalate_cons_cons, List.mem_append, List.mem_append] at h
      rcases h with (h | h) | h
      · exact isAddressUnit_hexPiece h
      · exact hcolon c h
      · exact ih h

theorem isAddressUnit_serialize {pieces : List Nat} (h : c ∈ serializeIPv6 pieces) :
    isAddressUnit c = true := by
  have hcolons : ∀ c ∈ js "::", isAddressUnit c = true := List.all_iff_forall_prop.1 (by decide)
  unfold serializeIPv6 at h
  split at h
  · exact isAddressUnit_pieces h
  · rw [List.mem_append, List.mem_append] at h
    rcases h with (h | h) | h
    · exact isAddressUnit_pieces h
    · exact hcolons c h
    · exact isAddressUnit_pieces h

/-- It has no delimiter but the colon. -/
theorem addressUnit_facts (h : isAddressUnit c = true) : isSingle c = true ∧ c ≠ 0x25 ∧
    0x20 < c.toNat ∧ ∀ x ∈ [0x23, 0x2f, 0x3f, 0x40, 0x5b, 0x5d], c.toNat ≠ x := by
  have hall : ∀ c ∈ js "0123456789abcdef:", isSingle c = true ∧ c ≠ 0x25 ∧
      0x20 < c.toNat ∧ ∀ x ∈ [0x23, 0x2f, 0x3f, 0x40, 0x5b, 0x5d], c.toNat ≠ x :=
    List.all_iff_forall_prop.1 (by decide)
  exact hall c (List.contains_iff_mem.1 h)

end DepositPortal
