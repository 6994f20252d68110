import DepositPortal.Requests.Readings
import DepositPortal.Uri

/-!
# The name of a downloaded file

| here | there |
| --- | --- |
| `contentDisposition`, `download` | `RequestsController.download` (requests/requests.controller.ts:74) |
| `filenameFromDisposition`        | `filenameFromDisposition` (frontend/src/api/client.ts:166) |

`/filename\*=UTF-8''([^;]+)/i` is searched from left to right (`exec`). Without the `u` flag a letter of the
pattern matches its two ASCII cases and nothing else.

The name is the client's, and the header is written by one side and read by the other: what the encoder
leaves cannot close the value, and the first match is the one that was written.
-/
namespace DepositPortal.Download
open Requests (Database DownloadableFile Failure streamFile)
open Deposits (Bytes RequestId ItemId StorageKey)

/-! ## The header -/

def DISPOSITION : JsString := js "attachment; filename*=UTF-8''"

/-- `none`: `encodeURIComponent` threw. -/
def contentDisposition (originalName : JsString) : Option JsString :=
  (encodeURIComponent originalName).map (DISPOSITION ++ ·)

structure Response where
  contentType : JsString
  contentDisposition : JsString
  body : Bytes
  deriving DecidableEq, Repr

def download (getObjectStream : StorageKey → Except Failure Bytes) (db : Database)
    (requestId : RequestId) (itemId : ItemId) (lawyerId : LawyerId) : Except Failure Response := do
  let file ← streamFile getObjectStream db requestId itemId lawyerId
  match contentDisposition file.originalName with
  | none => .error (.of .URIError)
  | some disposition => .ok ⟨file.mimeType, disposition, file.stream⟩

/-! ## Reading it back -/

def FALLBACK_FILENAME : JsString := js "piece"

def FILENAME : JsString := js "filename*=UTF-8''"

def toUpperAscii (c : UInt16) : UInt16 := if 0x61 ≤ c && c ≤ 0x7a then c - 0x20 else c

/-- The pattern at the start of `s`, and its group. -/
def matchAt (s : JsString) : Option JsString :=
  if (s.take FILENAME.length).map toUpperAscii = FILENAME.map toUpperAscii then
    match (s.drop FILENAME.length).takeWhile (· != 0x3b) with
    | [] => none
    | group => some group
  else none

/-- The group of the leftmost match. -/
def exec (header : JsString) : Option JsString := header.tails.findSome? matchAt

def filenameFromDisposition (header : Option JsString) : JsString :=
  match exec (header.getD []) with
  | none => FALLBACK_FILENAME
  | some group =>
    match decodeURIComponent group with
    | none => FALLBACK_FILENAME
    | some decoded => if decoded = [] then FALLBACK_FILENAME else decoded

/-! ## The trip -/

/-- The pattern is found where it was written. -/
theorem exec_disposition {e : JsString} (hne : e ≠ []) (h : ∀ c ∈ e, isUriUnit c = true) :
    exec (DISPOSITION ++ e) = some e := by
  have hall : e.takeWhile (· != 0x3b) = e := by
    refine List.takeWhile_eq_self_iff.2 fun c hc => ?_
    simp only [bne_iff_ne, ne_eq]
    rintro rfl
    exact absurd (h _ hc) (by decide)
  have hmatch : matchAt (FILENAME ++ e) = some e := by
    rw [matchAt, List.take_left, List.drop_left, hall, if_pos rfl]
    cases e with
    | nil => exact absurd rfl hne
    | cons c e => rfl
  have hskip : exec (DISPOSITION ++ e) = ((FILENAME ++ e).tails.findSome? matchAt) := rfl
  rw [hskip]
  cases hs : FILENAME ++ e with
  | nil => rw [hs] at hmatch; cases hmatch
  | cons c s =>
    rw [hs] at hmatch
    rw [List.tails_cons, List.findSome?_cons, hmatch]

theorem ofChars_ne_nil {name : List Char} (h : name ≠ []) : ofChars name ≠ [] := by
  cases name with
  | nil => exact absurd rfl h
  | cons c name =>
    intro e
    have happend : utf16 c.toNat ++ ofChars name = [] := e
    have hu := (List.append_eq_nil_iff.1 happend).1
    unfold utf16 at hu
    split at hu <;> cases hu

/-- **The name survives the trip and cannot break the header.** When a file is served whose name is made
of scalar values, what the header carries after its prefix is made of the characters an encoded component
has, none of which ends a value or a line; and the browser reads the name back. -/
theorem download_name_survives (getObjectStream : StorageKey → Except Failure Bytes) (db : Database)
    (requestId : RequestId) (itemId : ItemId) (lawyerId : LawyerId) (file : DownloadableFile)
    (name : List Char)
    (hfile : streamFile getObjectStream db requestId itemId lawyerId = .ok file)
    (hname : file.originalName = ofChars name) (hne : name ≠ []) :
    ∃ encoded, encodeURIComponent (ofChars name) = some encoded ∧
      download getObjectStream db requestId itemId lawyerId =
        .ok ⟨file.mimeType, DISPOSITION ++ encoded, file.stream⟩ ∧
      (∀ c ∈ encoded, isUriUnit c = true ∧ c ∉ js "\r\n\" ;=") ∧
      filenameFromDisposition (some (DISPOSITION ++ encoded)) = ofChars name := by
  obtain ⟨encoded, henc⟩ := exists_encode name
  have hunits := isUriUnit_encode henc
  have hencne : encoded ≠ [] := by
    rintro rfl
    have hdecoded := decode_encode henc
    exact ofChars_ne_nil hne (Option.some.inj hdecoded).symm
  refine ⟨encoded, henc, ?_, fun c hc => ⟨hunits c hc, fun hbad => ?_⟩, ?_⟩
  · simp [download, hfile, bind, Except.bind, contentDisposition, hname, henc]
  · have hnone : ∀ c ∈ js "\r\n\" ;=", isUriUnit c = false :=
      List.all_iff_forall_prop.1 (by decide)
    have hunit := hunits c hc
    rw [hnone c hbad] at hunit
    cases hunit
  · rw [filenameFromDisposition, Option.getD_some, exec_disposition hencne hunits]
    simp only [decode_encode henc, if_neg (ofChars_ne_nil hne)]

/-- A name that looks like the end of the header. -/
def craftedName : List Char := "bail\".pdf\r\nX: é; filename*=UTF-8''b".toList

def crafted : Database :=
  { Requests.halfDone with
    uploadedFile := [⟨js "k", ofChars craftedName, js "application/pdf", 0, .complete, 3,
      js "contract"⟩] }

theorem download_name_survives_crafted : ∃ encoded,
    encodeURIComponent (ofChars craftedName) = some encoded ∧
    download (fun _ => .ok []) crafted (js "dossier") (js "contract") (js "alice") =
      .ok ⟨js "application/pdf", DISPOSITION ++ encoded, []⟩ ∧
    (∀ c ∈ encoded, isUriUnit c = true ∧ c ∉ js "\r\n\" ;=") ∧
    filenameFromDisposition (some (DISPOSITION ++ encoded)) = ofChars craftedName :=
  download_name_survives (fun _ => .ok []) crafted (js "dossier") (js "contract") (js "alice")
    ⟨[], js "application/pdf", ofChars craftedName⟩ craftedName (by decide +kernel) rfl (by decide)

end DepositPortal.Download
