import DepositPortal.Frontend.Download
import DepositPortal.Patterns
import DepositPortal.Requests.DepositUrl

/-!
# The access log (infra/nginx/log-redact.conf)

| here | there |
| --- | --- |
| `MAP`, `redactedUri`       | `map $request_uri $redacted_uri` (`:9`) |
| `API_PREFIX`, `unlockPath` | `API_PREFIX` (frontend/src/api/client.ts:6), `unlockDeposit` (frontend/src/api/public.ts:32) |
| `depositUri`, `unlockUri`  | the request URIs of `buildDepositUrl` (requests/public-url.ts:19) and of `unlockDeposit` |

The two expressions repeat `DEPOSIT_PATH` and `API_PREFIX` by hand, and they take the token to be what
stands before the next `/` or `?`. `encodeURIComponent` leaves neither of the two, nor a line feed, where
`.` would stop.
-/
namespace DepositPortal.RedactedUri
open Patterns Pattern PublicLinks

/-! ## The map -/

/-- An entry of the `map`: the value is a text and the variable of a named group. -/
structure Entry where
  pattern : Pattern UInt16
  text : JsString
  variableName : String

/-- `[^/?]` -/
def isSegment (c : UInt16) : Bool := c != 0x2f && c != 0x3f

/-- `.` -/
def isDot (c : UInt16) : Bool := c != 0x0a

/-- `^path[^/?]+(?<variableName>.*)$` -/
def redaction (path : JsString) (variableName : String) : Pattern UInt16 :=
  seq (text path) (seq (many 1 isSegment) (seq (group variableName (many 0 isDot)) (eol 0x0a)))

def DEPOSIT_ENTRY : Entry :=
  ⟨redaction (js "/deposit/") "deposit_rest", js "/deposit/[redacted]", "deposit_rest"⟩

def API_ENTRY : Entry :=
  ⟨redaction (js "/api/v1/public/") "api_rest", js "/api/v1/public/[redacted]", "api_rest"⟩

def MAP : List Entry := [DEPOSIT_ENTRY, API_ENTRY]

/-- `none`: the expression does not match. -/
def Entry.value (entry : Entry) (requestUri : JsString) : Option JsString :=
  (entry.pattern.exec requestUri).map fun m => entry.text ++ m.group entry.variableName

/-- The first expression that matches, and `default`. -/
def redactedUri (requestUri : JsString) : JsString :=
  (MAP.findSome? fun entry => entry.value requestUri).getD requestUri

/-! ## The requests -/

/-- What follows the path in a request line. -/
structure Query where
  text : JsString
  starts : ∀ c, text.head? = some c → c = 0x3f
  oneLine : ∀ c ∈ text, isDot c = true

/-- `PUBLIC_BASE_URL` is a bare origin, so the path is what the address adds to it. -/
def depositUri (baseUrl token : JsString) (query : Query) : Option JsString :=
  (buildDepositUrl baseUrl token).map fun url =>
    url.drop (dropTrailingSlashes baseUrl).length ++ query.text

def API_PREFIX : JsString := js "/api/v1"

def unlockPath (token : JsString) : Option JsString :=
  (encodeURIComponent token).map fun segment => js "/public/" ++ segment ++ js "/unlock"

def unlockUri (token : JsString) (query : Query) : Option JsString :=
  (unlockPath token).map fun path => API_PREFIX ++ path ++ query.text

/-! ## What is logged -/

section
variable {path segment rest : JsString} {variableName : String}

/-- The first expression of its kind: the segment goes, and the group has the rest. -/
theorem exec_redaction (path : JsString) (variableName : String) (hne : segment ≠ [])
    (hsegment : ∀ c ∈ segment, isSegment c = true)
    (hrest : ∀ c, rest.head? = some c → isSegment c = false) (hdot : ∀ c ∈ rest, isDot c = true) :
    ((redaction path variableName).exec (path ++ (segment ++ rest))).map (·.group variableName) =
      some rest := by
  have htoken : (many 1 isSegment).exec (segment ++ rest) = some ⟨segment, [], rest⟩ :=
    exec_many hsegment hrest (List.length_pos_of_ne_nil hne)
  have hall : (many 0 isDot).exec rest = some ⟨rest, [], []⟩ := by
    have h := exec_many (t := []) hdot (by simp) (Nat.zero_le _)
    rwa [List.append_nil] at h
  have h := exec_seq (exec_text path _)
    (exec_seq htoken (exec_seq (exec_group variableName hall) (exec_eol 0x0a)))
  rw [redaction, h]
  simp [Match.group, Match.andThen]

/-- The value is the text of the entry, with the rest. -/
theorem value_eq {entry : Entry} (hpattern : entry.pattern = redaction path entry.variableName)
    (hne : segment ≠ []) (hsegment : ∀ c ∈ segment, isSegment c = true)
    (hrest : ∀ c, rest.head? = some c → isSegment c = false) (hdot : ∀ c ∈ rest, isDot c = true) :
    entry.value (path ++ (segment ++ rest)) = some (entry.text ++ rest) := by
  have hexec := exec_redaction path entry.variableName hne hsegment hrest hdot
  obtain ⟨m, hm, hgroup⟩ := Option.map_eq_some_iff.1 hexec
  rw [Entry.value, hpattern, hm, Option.map_some, hgroup]

theorem value_eq_none {entry : Entry} {r : Pattern UInt16} {w s : JsString}
    (hpattern : entry.pattern = seq (text w) r) (h : ¬ w <+: s) : entry.value s = none := by
  rw [Entry.value, hpattern, exec_seq_none (exec_text_none h)]
  rfl

/-- The units of an encoded component stay in the segment. -/
theorem isSegment_of_isUriUnit {c : UInt16} (h : isUriUnit c = true) : isSegment c = true := by
  simp only [isSegment, Bool.and_eq_true, bne_iff_ne, ne_eq]
  constructor <;>
  · rintro rfl
    exact absurd h (by decide)

theorem Query.outside (query : Query) : ∀ c, query.text.head? = some c → isSegment c = false := by
  intro c hc
  rw [query.starts c hc]
  rfl

end

/-- A token of scalar values, encoded. -/
theorem exists_segment {token : List Char} (h : token ≠ []) :
    ∃ segment, encodeURIComponent (ofChars token) = some segment ∧ segment ≠ [] ∧
      ∀ c ∈ segment, isSegment c = true := by
  obtain ⟨segment, hsegment⟩ := exists_encode token
  refine ⟨segment, hsegment, ?_, fun c hc => isSegment_of_isUriUnit (isUriUnit_encode hsegment c hc)⟩
  rintro rfl
  exact Download.ofChars_ne_nil h (Option.some.inj (decode_encode hsegment)).symm

theorem logged_deposit (baseUrl : JsString) {token : List Char} (h : token ≠ []) (query : Query) :
    (depositUri baseUrl (ofChars token) query).map redactedUri =
      some (js "/deposit/[redacted]" ++ query.text) := by
  obtain ⟨segment, hencode, hne, hsegment⟩ := exists_segment h
  have huri : depositUri baseUrl (ofChars token) query =
      some (js "/deposit/" ++ (segment ++ query.text)) := by
    simp only [depositUri, buildDepositUrl, hencode, Option.map_some, List.append_assoc,
      List.drop_left]
    rfl
  have hentry : DEPOSIT_ENTRY.value (js "/deposit/" ++ (segment ++ query.text)) =
      some (js "/deposit/[redacted]" ++ query.text) :=
    value_eq rfl hne hsegment query.outside query.oneLine
  rw [huri, Option.map_some, redactedUri, MAP, List.findSome?_cons, hentry]
  rfl

theorem logged_unlock {token : List Char} (h : token ≠ []) (query : Query) :
    (unlockUri (ofChars token) query).map redactedUri =
      some (js "/api/v1/public/[redacted]" ++ (js "/unlock" ++ query.text)) := by
  obtain ⟨segment, hencode, hne, hsegment⟩ := exists_segment h
  have huri : unlockUri (ofChars token) query =
      some (js "/api/v1/public/" ++ (segment ++ (js "/unlock" ++ query.text))) := by
    simp only [unlockUri, unlockPath, hencode, Option.map_some, List.append_assoc]
    rfl
  have hdot : ∀ c ∈ js "/unlock" ++ query.text, isDot c = true := by
    intro c hc
    rcases List.mem_append.1 hc with hc | hc
    · exact List.all_eq_true.1 (by decide : (js "/unlock").all isDot = true) c hc
    · exact query.oneLine c hc
  have hentry : API_ENTRY.value (js "/api/v1/public/" ++ (segment ++ (js "/unlock" ++ query.text))) =
      some (js "/api/v1/public/[redacted]" ++ (js "/unlock" ++ query.text)) :=
    value_eq rfl hne hsegment (by rintro c ⟨⟩; rfl) hdot
  have hfirst : DEPOSIT_ENTRY.value
      (js "/api/v1/public/" ++ (segment ++ (js "/unlock" ++ query.text))) = none := by
    refine value_eq_none rfl fun ⟨rest, hrest⟩ => ?_
    have hsecond : some (0x64 : UInt16) = some 0x61 := congrArg (·[1]?) hrest
    exact absurd hsecond (by decide)
  rw [huri, Option.map_some, redactedUri, MAP, List.findSome?_cons, hfirst, List.findSome?_cons,
    hentry]
  rfl

/-- **The token is not in the access log.** The address of the deposit page and the request that unlocks
it are logged alike for any two tokens, whatever query follows. -/
theorem log_hides_token (baseUrl : JsString) (token token' : List Char) (h : token ≠ [])
    (h' : token' ≠ []) (query : Query) :
    (∃ logged, (depositUri baseUrl (ofChars token) query).map redactedUri = some logged ∧
      (depositUri baseUrl (ofChars token') query).map redactedUri = some logged) ∧
    ∃ logged, (unlockUri (ofChars token) query).map redactedUri = some logged ∧
      (unlockUri (ofChars token') query).map redactedUri = some logged :=
  ⟨⟨_, logged_deposit baseUrl h query, logged_deposit baseUrl h' query⟩,
    ⟨_, logged_unlock h query, logged_unlock h' query⟩⟩

def mailQuery : Query where
  text := js "?from=mail"
  starts := by rintro c ⟨⟩; rfl
  oneLine := List.all_eq_true.1 (by decide)

/-- A token that reads like a path and a query, and a plain one. -/
theorem log_hides_token_path :
    (∃ logged, (depositUri (js "https://depot.fr") (ofChars ['/', '?', 'é']) mailQuery).map
        redactedUri = some logged ∧
      (depositUri (js "https://depot.fr") (ofChars ['a']) mailQuery).map redactedUri =
        some logged) ∧
    ∃ logged, (unlockUri (ofChars ['/', '?', 'é']) mailQuery).map redactedUri = some logged ∧
      (unlockUri (ofChars ['a']) mailQuery).map redactedUri = some logged :=
  log_hides_token (js "https://depot.fr") ['/', '?', 'é'] ['a'] (by decide) (by decide) mailQuery

example : redactedUri (js "/deposit/abc/x?y") = js "/deposit/[redacted]/x?y" := by decide +kernel

end DepositPortal.RedactedUri
