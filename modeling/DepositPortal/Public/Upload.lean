import DepositPortal.Basic
import Mathlib.Data.List.Infix

/-!
# What a deposit is checked and named by

| here | there |
| --- | --- |
| `SIGNATURES`, `detectFileType`               | `public/file-type.ts:19`, `:42` |
| `ALLOWED_MIME_TYPES`, `isAllowedMimeType`    | `public/upload.constants.ts:12`, `:20` |
| `FILE_TYPE_REJECTED`, `ITEM_NOT_FOUND`, …    | `public/upload.constants.ts:32-46` |
| `buildStorageKey`                            | `crypto/secrets.ts:83`; `normalize('NFKD')` and the random bytes are passed in |
-/
namespace DepositPortal.Deposits

abbrev Bytes := List UInt8
abbrev StorageKey := JsString
abbrev RequestId := JsString
abbrev ItemId := JsString

/-! ## The first bytes -/

structure Signature where
  mimeType : JsString
  bytes : Bytes
  deriving DecidableEq, Repr

def SIGNATURES : List Signature :=
  [⟨js "application/pdf", [0x25, 0x50, 0x44, 0x46, 0x2d]⟩,
   ⟨js "image/jpeg", [0xff, 0xd8, 0xff]⟩,
   ⟨js "image/png", [0x89, 0x50, 0x4e, 0x47, 0x0d, 0x0a, 0x1a, 0x0a]⟩]

def startsWith (payload bytes : Bytes) : Bool := bytes.isPrefixOf payload

def detectFileType (payload : Bytes) : Option JsString :=
  (SIGNATURES.find? fun signature => startsWith payload signature.bytes).map Signature.mimeType

def ALLOWED_MIME_TYPES : List JsString :=
  [js "application/pdf", js "image/jpeg", js "image/png"]

def isAllowedMimeType (mimeType : JsString) : Bool := ALLOWED_MIME_TYPES.contains mimeType

def FILE_TYPE_REJECTED : JsString := js "Format refusé. PDF, JPG ou PNG uniquement."

def ITEM_NOT_FOUND : JsString := js "Pièce introuvable."

def DEPOSIT_RACED : JsString := js "Un envoi est déjà en cours pour cette pièce. Réessayez."

/-- The payload starts with the signature of that type. -/
def HasSignature (payload : Bytes) (mimeType : JsString) : Prop :=
  ∃ signature ∈ SIGNATURES, signature.mimeType = mimeType ∧ signature.bytes <+: payload

theorem hasSignature_of_detect {payload : Bytes} {mimeType : JsString}
    (h : detectFileType payload = some mimeType) : HasSignature payload mimeType := by
  obtain ⟨signature, hf, hm⟩ := Option.map_eq_some_iff.1 h
  refine ⟨signature, List.mem_of_find?_eq_some hf, hm, ?_⟩
  have hp := List.find?_some hf
  exact List.isPrefixOf_iff_prefix.1 hp

/-- Every type the signatures can name is allowed, so the allowlist refuses none of them today. -/
theorem allowed_of_detect {payload : Bytes} {mimeType : JsString}
    (h : detectFileType payload = some mimeType) : isAllowedMimeType mimeType = true := by
  obtain ⟨signature, hs, rfl, -⟩ := hasSignature_of_detect h
  have hall : ∀ signature ∈ SIGNATURES, isAllowedMimeType signature.mimeType = true := by decide
  exact hall signature hs

/-! ## The storage key -/

/-- `[A-Za-z0-9._-]`. -/
def isSafeUnit (c : UInt16) : Bool :=
  (0x41 ≤ c && c ≤ 0x5a) || (0x61 ≤ c && c ≤ 0x7a) || (0x30 ≤ c && c ≤ 0x39) ||
    c == 0x2e || c == 0x5f || c == 0x2d

/-- `.replace(/\.{2,}/g, '.')`: a dot followed by a dot goes. -/
def collapseDots : JsString → JsString
  | [] => []
  | c :: rest =>
    if c = 0x2e ∧ rest.head? = some 0x2e then collapseDots rest else c :: collapseDots rest

/-- `.replace(/^[.-]+/, '')`. -/
def dropLeading (name : JsString) : JsString := name.dropWhile fun c => c == 0x2e || c == 0x2d

/-- The sanitised client file name (`secrets.ts:88-98`). -/
def safeName (normalizeNFKD : JsString → JsString) (originalName : JsString) : JsString :=
  let replaced := (normalizeNFKD originalName).map fun c => if isSafeUnit c then c else 0x2d
  let name := (dropLeading (collapseDots replaced)).take 100
  if name.isEmpty then js "file" else name

def hexDigit (n : UInt8) : UInt16 := if n < 10 then 0x30 + n.toUInt16 else 0x57 + n.toUInt16

/-- `Buffer.toString('hex')`. -/
def hex (bytes : Bytes) : JsString := bytes.flatMap fun b => [hexDigit (b / 16), hexDigit (b % 16)]

/-- `requests/<requestId>/items/<itemId>/`. -/
def itemPrefix (requestId : RequestId) (itemId : ItemId) : JsString :=
  js "requests/" ++ requestId ++ js "/items/" ++ itemId ++ js "/"

def buildStorageKey (normalizeNFKD : JsString → JsString) (random : Bytes) (requestId : RequestId)
    (itemId : ItemId) (originalName : JsString) : StorageKey :=
  itemPrefix requestId itemId ++ hex random ++ js "-" ++ safeName normalizeNFKD originalName

theorem prefix_buildStorageKey {n : JsString → JsString} {random : Bytes} {requestId : RequestId}
    {itemId : ItemId} {name : JsString} :
    itemPrefix requestId itemId <+: buildStorageKey n random requestId itemId name := by
  simp [buildStorageKey, List.append_assoc]

theorem itemPrefix_ne_nil {requestId : RequestId} {itemId : ItemId} :
    itemPrefix requestId itemId ≠ [] := by
  simp [itemPrefix, js]

/-! ## What the key is made of -/

/-- `[A-Za-z0-9_]`. -/
def isWordUnit (c : UInt16) : Bool := isSafeUnit c && c != 0x2e && c != 0x2d

def isLowerHex (c : UInt16) : Bool := (0x30 ≤ c && c ≤ 0x39) || (0x61 ≤ c && c ≤ 0x66)

/-- What is left of a client's file name. -/
structure SafeName (name : JsString) : Prop where
  nonempty : 1 ≤ name.length
  short : name.length ≤ 100
  units : ∀ c ∈ name, isSafeUnit c = true
  first : ∀ c ∈ name.head?, isWordUnit c = true
  oneDot : ¬ [0x2e, 0x2e] <:+: name

theorem mem_of_mem_collapseDots {c : UInt16} {s : JsString} (h : c ∈ collapseDots s) : c ∈ s := by
  induction s with
  | nil => exact h
  | cons d s ih =>
    rw [collapseDots] at h
    split at h
    · exact List.mem_cons_of_mem _ (ih h)
    · rcases List.mem_cons.1 h with rfl | h
      · exact List.mem_cons_self
      · exact List.mem_cons_of_mem _ (ih h)

theorem collapseDots_eq (s : JsString) : collapseDots s = squeeze 0x2e s := by
  induction s with
  | nil => rfl
  | cons c s ih => rw [collapseDots, squeeze, ih]

/-- No dot or dash is first, as the leading ones were dropped and a cut keeps the first unit. -/
theorem head?_dropLeading {c : UInt16} {s : JsString} (h : (dropLeading s).head? = some c) :
    c ≠ 0x2e ∧ c ≠ 0x2d := by
  have hd := List.head?_dropWhile_not (fun c : UInt16 => c == 0x2e || c == 0x2d) s
  rw [dropLeading] at h
  rw [h] at hd
  simpa using hd

theorem safeName_safe (normalizeNFKD : JsString → JsString) (originalName : JsString) :
    SafeName (safeName normalizeNFKD originalName) := by
  simp only [safeName]
  generalize hr : (normalizeNFKD originalName).map (fun c => if isSafeUnit c then c else 0x2d) = replaced
  have hunits : ∀ c ∈ replaced, isSafeUnit c = true := by
    subst hr
    intro c hc
    obtain ⟨d, -, rfl⟩ := List.mem_map.1 hc
    split
    · assumption
    · rfl
  have hsuffix : dropLeading (collapseDots replaced) <:+ collapseDots replaced :=
    List.dropWhile_suffix _
  have htake := List.take_prefix 100 (dropLeading (collapseDots replaced))
  split
  · exact ⟨by decide, by decide, List.all_iff_forall_prop.1 (by decide), fun c hc => (by cases hc; rfl),
      by decide⟩
  · next hne =>
    refine ⟨?_, List.length_take_le 100 _, fun c hc => ?_, fun c hc => ?_, fun hrun => ?_⟩
    · exact List.length_pos_iff.2 fun e => hne (by rw [e]; rfl)
    · exact hunits c (mem_of_mem_collapseDots (hsuffix.subset (htake.subset hc)))
    · have hmem := List.mem_of_mem_head? hc
      have hsafe := hunits c (mem_of_mem_collapseDots (hsuffix.subset (htake.subset hmem)))
      rw [List.head?_take, if_neg (by decide)] at hc
      obtain ⟨hdot, hdash⟩ := head?_dropLeading hc
      simp [isWordUnit, hsafe, hdot, hdash]
    · rw [collapseDots_eq] at hrun hsuffix htake
      exact squeeze_single 0x2e replaced (hrun.trans (htake.isInfix.trans hsuffix.isInfix))

theorem length_hex (bytes : Bytes) : (hex bytes).length = 2 * bytes.length := by
  induction bytes with
  | nil => rfl
  | cons b bytes ih => simp [hex] at ih ⊢; omega

theorem isLowerHex_hexDigit {n : UInt8} (h : n.toNat < 16) : isLowerHex (hexDigit n) = true := by
  have hall : ∀ m < 16, isLowerHex (hexDigit (UInt8.ofNat m)) = true := by decide
  simpa using hall n.toNat h

theorem isLowerHex_hex {bytes : Bytes} {c : UInt16} (h : c ∈ hex bytes) : isLowerHex c = true := by
  obtain ⟨b, -, hc⟩ := List.mem_flatMap.1 h
  have hb := b.toNat_lt
  simp only [List.mem_cons, List.not_mem_nil, or_false] at hc
  rcases hc with rfl | rfl
  · exact isLowerHex_hexDigit (by simp; omega)
  · exact isLowerHex_hexDigit (by simp; omega)

/-- **The key stays in its place.** Whatever the client calls the file, the key of a deposit has the
five segments `requests`, the request, `items`, the item and a last one: sixteen hexadecimal digits, a
dash, and a name that is short, has no separator and does not start with a dot. -/
theorem storage_key_contained (normalizeNFKD : JsString → JsString) (random : Bytes)
    (requestId : RequestId) (itemId : ItemId) (originalName : JsString) (hrandom : random.length = 8)
    (hrequest : 0x2f ∉ requestId) (hitem : 0x2f ∉ itemId) :
    ∃ digits name,
      (buildStorageKey normalizeNFKD random requestId itemId originalName).splitOn 0x2f =
        [js "requests", requestId, js "items", itemId, digits ++ js "-" ++ name] ∧
      digits.length = 16 ∧ (∀ c ∈ digits, isLowerHex c = true) ∧ SafeName name := by
  have hsafe := safeName_safe normalizeNFKD originalName
  refine ⟨hex random, _, ?_, by rw [length_hex, hrandom], fun c => isLowerHex_hex, hsafe⟩
  have hlast : (0x2f : UInt16) ∉ hex random ++ js "-" ++ safeName normalizeNFKD originalName := by
    simp only [List.mem_append, not_or]
    refine ⟨⟨fun h => ?_, by decide⟩, fun h => ?_⟩
    · exact absurd (isLowerHex_hex h) (by decide)
    · exact absurd (hsafe.units _ h) (by decide)
  have hkey : buildStorageKey normalizeNFKD random requestId itemId originalName =
      List.intercalate [0x2f] [js "requests", requestId, js "items", itemId,
        hex random ++ js "-" ++ safeName normalizeNFKD originalName] := by
    simp [buildStorageKey, itemPrefix, List.intercalate, js]
  rw [hkey]
  refine List.splitOn_intercalate _ (fun l hl => ?_) (by simp)
  simp only [List.mem_cons, List.not_mem_nil, or_false] at hl
  rcases hl with rfl | rfl | rfl | rfl | rfl
  · decide
  · exact hrequest
  · decide
  · exact hitem
  · exact hlast

theorem storage_key_contained_climbing : ∃ digits name,
    (buildStorageKey id [1, 2, 3, 4, 5, 6, 7, 8] (js "r1") (js "i1")
        (js "../../../etc/passwd")).splitOn 0x2f =
      [js "requests", js "r1", js "items", js "i1", digits ++ js "-" ++ name] ∧
    digits.length = 16 ∧ (∀ c ∈ digits, isLowerHex c = true) ∧ SafeName name :=
  storage_key_contained id [1, 2, 3, 4, 5, 6, 7, 8] (js "r1") (js "i1") (js "../../../etc/passwd")
    rfl (by decide) (by decide)

end DepositPortal.Deposits
