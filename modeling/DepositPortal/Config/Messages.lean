import DepositPortal.Config.Deadlines

/-!
# What a refused environment says

`ABSOLUTE RULE: never copy a variable's value into an error message` (config/env.validation.ts:5). A check
fails or it does not (`Fails`), and two environments that fail the same checks are refused with the same
message, on whichever of the two database paths they are. So the message is a function of the failed checks.

Two functions that are called throw on their own: `durationToMilliseconds`, which is only reached with two
durations and then returns, and `encodeURIComponent`, whose `URIError` always reads the same.
-/
namespace DepositPortal.Config

/-- What is printed. V8 says the same of every malformed URI. -/
def Thrown.message : Thrown → JsString
  | .Error message => message
  | .URIError => js "URI malformed"

/-! ## The checks -/

inductive Check where
  | missing (key : JsString)
  | port (key : JsString)
  | mountable
  | short (key : JsString)
  | sameSecret
  | duration (key : JsString)
  | neverApplies
  | bucketName
  | unparseable (key : JsString)
  | protocol (key : JsString)
  | bareOrigin
  | host
  | database
  deriving DecidableEq, Repr

def SECRET_KEYS : List JsString := [js "JWT_SECRET", js "CLIENT_JWT_SECRET"]

def DURATION_KEYS : List JsString := [js "JWT_EXPIRES", js "SESSION_EXPIRES", js "SESSION_IDLE_EXPIRES"]

/-- The variables that are parsed as URLs. -/
def URL_KEYS : List JsString := [js "STORAGE_ENDPOINT", js "PUBLIC_BASE_URL", js "DATABASE_URL"]

def protocolsOf (key : JsString) : List JsString :=
  if key = js "DATABASE_URL" then URL_PROTOCOLS else HTTP_PROTOCOLS

/-- The keys that are required whatever the database path. -/
def COMMON_KEYS : List JsString :=
  REQUIRED_APP_KEYS ++ REQUIRED_AUTH_KEYS ++ REQUIRED_STORAGE_KEYS ++ [js "PUBLIC_BASE_URL"]

/-- The `DB_*` keys are only read when there is no `DATABASE_URL`. -/
def Assembled (raw : Raw) : Prop := readString raw (js "DATABASE_URL") = []

/-- The key has a value, of which `P` is true. -/
def Given (raw : Raw) (key : JsString) (P : JsString → Prop) : Prop :=
  readString raw key ≠ [] ∧ P (readString raw key)

/-- The value is a URL of which `P` is true. -/
def Parsed (special : JsString → Option Url) (raw : Raw) (key : JsString) (P : Url → Prop) : Prop :=
  Given raw key fun text => ∃ url, parseUrl special text = some url ∧ P url

/-- The database a URL names: `pathname.replace(/^\//, '')`. -/
def databaseOf (url : Url) : JsString :=
  if url.pathname.head? = some 0x2f then url.pathname.tail else url.pathname

/-- The check is made, and it fails. -/
def Fails (special : JsString → Option Url) (raw : Raw) : Check → Prop
  | .missing key =>
    (key ∈ COMMON_KEYS ∨ Assembled raw ∧ key ∈ REQUIRED_DB_KEYS) ∧ readString raw key = []
  | .port key =>
    (key = js "PORT" ∨ Assembled raw ∧ key = js "DB_PORT") ∧
      Given raw key fun text => portOf (Number text) = none
  | .mountable => Given raw (js "API_PREFIX") fun text => isMountable text = false
  | .short key => key ∈ SECRET_KEYS ∧ Given raw key fun text => text.length < JWT_SECRET_MIN_LENGTH
  | .sameSecret => Given raw (js "CLIENT_JWT_SECRET") fun text => text = readString raw (js "JWT_SECRET")
  | .duration key => key ∈ DURATION_KEYS ∧ Given raw key fun text => isDuration text = false
  | .neverApplies =>
    neverApplies (readString raw (js "SESSION_EXPIRES")) (readString raw (js "SESSION_IDLE_EXPIRES")) =
      .ok true
  | .bucketName => Given raw (js "STORAGE_BUCKET") fun text => isBucketName text = false
  | .unparseable key => key ∈ URL_KEYS ∧ Given raw key fun text => parseUrl special text = none
  | .protocol key =>
    key ∈ URL_KEYS ∧ Parsed special raw key fun url => url.protocol ∉ protocolsOf key
  | .bareOrigin =>
    Parsed special raw (js "PUBLIC_BASE_URL") fun url =>
      url.pathname ≠ js "/" ∨ url.search ≠ [] ∨ url.hash ≠ []
  | .host =>
    Parsed special raw (js "DATABASE_URL") fun url => url.protocol ∈ URL_PROTOCOLS ∧ url.hostname = []
  | .database =>
    Parsed special raw (js "DATABASE_URL") fun url =>
      url.protocol ∈ URL_PROTOCOLS ∧ url.hostname ≠ [] ∧ databaseOf url = []

/-- Two environments fail exactly the same checks. -/
def SameChecks (special : JsString → Option Url) (raw raw' : Raw) : Prop :=
  ∀ check, Fails special raw check ↔ Fails special raw' check

/-! ## What is thrown -/

section
variable {special : JsString → Option Url} {raw raw' : Raw} {e e' : Thrown}

/-- The idle deadline is compared with two durations in hand. -/
theorem neverApplies_ok (session idle : JsString) : ∃ tooLong, neverApplies session idle = .ok tooLong := by
  unfold neverApplies
  split
  · next h =>
    rw [Bool.and_eq_true] at h
    obtain ⟨-, session', hsession, -⟩ := durationToMilliseconds_eq h.1
    obtain ⟨-, idle', hidle, -⟩ := durationToMilliseconds_eq h.2
    exact ⟨_, by rw [hsession, hidle]; rfl⟩
  · exact ⟨false, rfl⟩

theorem inspectAuth_ok (raw : Raw) : ∃ result, inspectAuth raw = .ok result := by
  obtain ⟨tooLong, h⟩ :=
    neverApplies_ok (readString raw (js "SESSION_EXPIRES")) (readString raw (js "SESSION_IDLE_EXPIRES"))
  simp only [inspectAuth, h]
  exact ⟨_, rfl⟩

def authIssues (raw : Raw) : List JsString :=
  match inspectAuth raw with
  | .ok result => result.1
  | .error _ => []

/-- The issues of the path that is taken. -/
def databaseIssues (special : JsString → Option Url) (raw : Raw) : List JsString :=
  if (readString raw (js "DATABASE_URL")).length > 0 then
    (inspectUrl special (readString raw (js "DATABASE_URL"))).toList
  else (inspectDatabase raw).1

def allIssues (special : JsString → Option Url) (raw : Raw) : List JsString :=
  (inspectApp raw).1 ++ authIssues raw ++ (inspectStorage special raw).1 ++
    (inspectPublic special raw).1 ++ databaseIssues special raw

theorem encoded_error {s : JsString} (h : encoded s = .error e) : e = .URIError := by
  unfold encoded at h
  split at h <;> cases h
  rfl

theorem buildDatabaseUrl_error {env : DatabaseEnv} (h : buildDatabaseUrl env = .error e) :
    e = .URIError := by
  unfold buildDatabaseUrl at h
  cases huser : encoded env.DB_USER with
  | error e' => rw [huser] at h; cases h; exact encoded_error huser
  | ok user =>
    cases hpassword : encoded env.DB_PASSWORD with
    | error e' => rw [huser, hpassword] at h; cases h; exact encoded_error hpassword
    | ok password =>
      cases hname : encoded env.DB_NAME with
      | error e' => rw [huser, hpassword, hname] at h; cases h; exact encoded_error hname
      | ok name => rw [huser, hpassword, hname] at h; cases h

theorem refuse_error {issues : List JsString} (h : refuse issues = .error e) :
    issues ≠ [] ∧ e = .Error (formatError issues) := by
  unfold refuse at h
  split at h
  · cases h
  · next hne => cases h; exact ⟨fun hnil => hne (List.isEmpty_iff.2 hnil), rfl⟩

/-- What is thrown when these are the issues. -/
def thrownOf (issues : List JsString) : Thrown :=
  if issues = [] then .URIError else .Error (formatError issues)

/-- What is thrown has the issues, and nothing else. -/
theorem thrown_of_issues (h : validateEnv special raw = .error e) : e = thrownOf (allIssues special raw) := by
  obtain ⟨auth, hauth⟩ := inspectAuth_ok raw
  have hissues : authIssues raw = auth.1 := by rw [authIssues, hauth]
  unfold validateEnv at h
  simp only [hauth, bind, Except.bind] at h
  rw [allIssues, databaseIssues, hissues]
  split at h
  · next hurl =>
    rw [if_pos hurl]
    split at h
    · next hr =>
      cases h
      obtain ⟨hne, rfl⟩ := refuse_error hr
      rw [thrownOf, if_neg hne]
    · cases h
  · next hurl =>
    rw [if_neg hurl]
    split at h
    · next hr =>
      cases h
      obtain ⟨hne, rfl⟩ := refuse_error hr
      rw [thrownOf, if_neg hne]
    · next hr =>
      rw [thrownOf, if_pos (refuse_ok hr)]
      split at h
      · next hb => cases h; exact buildDatabaseUrl_error hb
      · cases h

end

/-! ## The same checks, the same issues -/

section
variable {special : JsString → Option Url} {raw raw' : Raw} {keys : List JsString} {key : JsString}

theorem SameChecks.symm (h : SameChecks special raw raw') : SameChecks special raw' raw :=
  fun check => (h check).symm

/-- Two checks that are both made. -/
theorem rule_congr {a b c d : Prop} (h : a ∧ b ↔ c ∧ d) (ha : a) (hc : c) : b ↔ d :=
  (and_iff_right ha).symm.trans (h.trans (and_iff_right hc))

theorem issue_congr {a b : Bool} {issue : List JsString} (h : a = true ↔ b = true) :
    (if a then issue else []) = if b then issue else [] := by
  rw [Bool.eq_iff_iff.2 h]

theorem contains_missing (hk : key ∈ keys) :
    (missingOf raw keys).contains key = (readString raw key).isEmpty := by
  rw [Bool.eq_iff_iff, List.contains_iff_mem, missingOf, List.mem_filter]
  exact and_iff_right hk

/-- The issue of a rule about one key. -/
theorem given_congr {f : JsString → Bool} {P : JsString → Prop} {issue : List JsString}
    (hk : key ∈ keys) (hf : ∀ text, f text = true ↔ P text) (h : Given raw key P ↔ Given raw' key P) :
    (if !(missingOf raw keys).contains key && f (readString raw key) then issue else []) =
      if !(missingOf raw' keys).contains key && f (readString raw' key) then issue else [] := by
  have hgiven : ∀ raw, (!(missingOf raw keys).contains key && f (readString raw key)) = true ↔
      Given raw key P := by
    intro raw
    rw [contains_missing hk, Given, ← hf]
    simp
  exact issue_congr ((hgiven raw).trans (h.trans (hgiven raw').symm))

theorem missing_congr (h : SameChecks special raw raw') (hk : key ∈ COMMON_KEYS) :
    readString raw key = [] ↔ readString raw' key = [] := by
  have hcheck := h (.missing key)
  simpa [Fails, hk] using hcheck

theorem missingOf_congr (h : ∀ key ∈ keys, (readString raw key = [] ↔ readString raw' key = [])) :
    missingOf raw keys = missingOf raw' keys := by
  refine List.filter_congr fun key hkey => ?_
  rw [Bool.eq_iff_iff, List.isEmpty_iff, List.isEmpty_iff]
  exact h key hkey

theorem port_iff (text : JsString) :
    (portOf (Number text)).isNone = true ↔ portOf (Number text) = none := Option.isNone_iff_eq_none

theorem not_iff_eq_false {f : JsString → Bool} (text : JsString) :
    (!f text) = true ↔ f text = false := by
  simp

theorem app_congr (h : SameChecks special raw raw') : (inspectApp raw).1 = (inspectApp raw').1 := by
  have hmissing : missingOf raw REQUIRED_APP_KEYS = missingOf raw' REQUIRED_APP_KEYS :=
    missingOf_congr fun key hk => missing_congr h (by simp [COMMON_KEYS, hk])
  have hport := rule_congr (h (.port (js "PORT"))) (.inl rfl) (.inl rfl)
  simp only [inspectApp]
  rw [given_congr (by decide) port_iff hport, given_congr (by decide) not_iff_eq_false (h .mountable),
    hmissing]

/-- The idle deadline is compared in the same way. -/
theorem neverApplies_congr (h : SameChecks special raw raw') :
    neverApplies (readString raw (js "SESSION_EXPIRES")) (readString raw (js "SESSION_IDLE_EXPIRES")) =
      neverApplies (readString raw' (js "SESSION_EXPIRES")) (readString raw' (js "SESSION_IDLE_EXPIRES")) := by
  have hcheck := h .neverApplies
  obtain ⟨tooLong, hok⟩ :=
    neverApplies_ok (readString raw (js "SESSION_EXPIRES")) (readString raw (js "SESSION_IDLE_EXPIRES"))
  obtain ⟨tooLong', hok'⟩ :=
    neverApplies_ok (readString raw' (js "SESSION_EXPIRES")) (readString raw' (js "SESSION_IDLE_EXPIRES"))
  simp only [Fails, hok, hok', Except.ok.injEq] at hcheck
  rw [hok, hok', Bool.eq_iff_iff.2 hcheck]

theorem auth_congr (h : SameChecks special raw raw') : authIssues raw = authIssues raw' := by
  have hmissing : missingOf raw REQUIRED_AUTH_KEYS = missingOf raw' REQUIRED_AUTH_KEYS :=
    missingOf_congr fun key hk => missing_congr h (by simp [COMMON_KEYS, hk])
  have hshort : ∀ key ∈ SECRET_KEYS, secretIssue (missingOf raw REQUIRED_AUTH_KEYS) key (readString raw key) =
      secretIssue (missingOf raw' REQUIRED_AUTH_KEYS) key (readString raw' key) := by
    intro key hk
    have hrequired : ∀ key ∈ SECRET_KEYS, key ∈ REQUIRED_AUTH_KEYS := by decide
    exact given_congr (hrequired key hk) (fun text => decide_eq_true_iff)
      (rule_congr (h (.short key)) hk hk)
  have hduration : ∀ key ∈ DURATION_KEYS,
      durationIssue (missingOf raw REQUIRED_AUTH_KEYS) key (readString raw key) =
        durationIssue (missingOf raw' REQUIRED_AUTH_KEYS) key (readString raw' key) := by
    intro key hk
    have hrequired : ∀ key ∈ DURATION_KEYS, key ∈ REQUIRED_AUTH_KEYS := by decide
    exact given_congr (hrequired key hk) not_iff_eq_false (rule_congr (h (.duration key)) hk hk)
  have hsame : ∀ issue : List JsString,
      (if (readString raw (js "CLIENT_JWT_SECRET")).length > 0 &&
          readString raw (js "CLIENT_JWT_SECRET") == readString raw (js "JWT_SECRET") then issue else []) =
        if (readString raw' (js "CLIENT_JWT_SECRET")).length > 0 &&
          readString raw' (js "CLIENT_JWT_SECRET") == readString raw' (js "JWT_SECRET") then issue else [] := by
    intro issue
    refine issue_congr ?_
    simpa [Fails, Given, List.length_pos_iff] using h .sameSecret
  obtain ⟨tooLong, hok⟩ :=
    neverApplies_ok (readString raw (js "SESSION_EXPIRES")) (readString raw (js "SESSION_IDLE_EXPIRES"))
  have hok' := (neverApplies_congr h).symm.trans hok
  simp only [authIssues, inspectAuth, hok, hok', bind, Except.bind, pure, Except.pure]
  rw [hshort (js "JWT_SECRET") (by decide), hshort (js "CLIENT_JWT_SECRET") (by decide), hsame,
    hduration (js "JWT_EXPIRES") (by decide), hduration (js "SESSION_EXPIRES") (by decide),
    hduration (js "SESSION_IDLE_EXPIRES") (by decide), hmissing]

/-- A URL that is given to both is parsed by both or by none, and the protocol is right in both or in
none. -/
theorem parse_congr (h : SameChecks special raw raw') (hk : key ∈ URL_KEYS)
    (hgiven : readString raw key ≠ []) (hgiven' : readString raw' key ≠ []) :
    (parseUrl special (readString raw key) = none ∧ parseUrl special (readString raw' key) = none) ∨
    ∃ url url', parseUrl special (readString raw key) = some url ∧
      parseUrl special (readString raw' key) = some url' ∧
      (url.protocol ∈ protocolsOf key ↔ url'.protocol ∈ protocolsOf key) := by
  have hparsed := rule_congr (rule_congr (h (.unparseable key)) hk hk) hgiven hgiven'
  have hprotocol := rule_congr (rule_congr (h (.protocol key)) hk hk) hgiven hgiven'
  cases hurl : parseUrl special (readString raw key) with
  | none => exact .inl ⟨rfl, hparsed.1 hurl⟩
  | some url =>
    cases hurl' : parseUrl special (readString raw' key) with
    | none => rw [hparsed.2 hurl'] at hurl; cases hurl
    | some url' =>
      simp only [hurl, hurl', Option.some.injEq, exists_eq_left'] at hprotocol
      exact .inr ⟨url, url', rfl, rfl, not_iff_not.1 hprotocol⟩

theorem endpoint_congr (h : SameChecks special raw raw') :
    (if (missingOf raw REQUIRED_STORAGE_KEYS).contains (js "STORAGE_ENDPOINT") then []
      else endpointIssue special (readString raw (js "STORAGE_ENDPOINT"))) =
    if (missingOf raw' REQUIRED_STORAGE_KEYS).contains (js "STORAGE_ENDPOINT") then []
      else endpointIssue special (readString raw' (js "STORAGE_ENDPOINT")) := by
  have hmissing := missing_congr h (show js "STORAGE_ENDPOINT" ∈ COMMON_KEYS by decide)
  rw [contains_missing (by decide), contains_missing (by decide)]
  by_cases hgiven : readString raw (js "STORAGE_ENDPOINT") = []
  · rw [hgiven, hmissing.1 hgiven]
  · have hgiven' := fun hnone => hgiven (hmissing.2 hnone)
    rw [if_neg (by simpa using hgiven), if_neg (by simpa using hgiven')]
    have hhttp : protocolsOf (js "STORAGE_ENDPOINT") = HTTP_PROTOCOLS := rfl
    obtain ⟨hurl, hurl'⟩ | ⟨url, url', hurl, hurl', hprotocol⟩ :=
      parse_congr h (show js "STORAGE_ENDPOINT" ∈ URL_KEYS by decide) hgiven hgiven'
    · rw [endpointIssue, endpointIssue, hurl, hurl']
    · rw [hhttp] at hprotocol
      simp only [endpointIssue, hurl, hurl']
      exact issue_congr (by simpa [not_iff_not] using hprotocol)

theorem storage_congr (h : SameChecks special raw raw') :
    (inspectStorage special raw).1 = (inspectStorage special raw').1 := by
  have hmissing : missingOf raw REQUIRED_STORAGE_KEYS = missingOf raw' REQUIRED_STORAGE_KEYS :=
    missingOf_congr fun key hk => missing_congr h (by simp [COMMON_KEYS, hk])
  simp only [inspectStorage]
  rw [endpoint_congr h, given_congr (by decide) not_iff_eq_false (h .bucketName), hmissing]

theorem public_congr (h : SameChecks special raw raw') :
    (inspectPublic special raw).1 = (inspectPublic special raw').1 := by
  have hmissing := missing_congr h (show js "PUBLIC_BASE_URL" ∈ COMMON_KEYS by decide)
  by_cases hgiven : readString raw (js "PUBLIC_BASE_URL") = []
  · simp only [inspectPublic, hgiven, hmissing.1 hgiven]
  · have hgiven' := fun hnone => hgiven (hmissing.2 hnone)
    have hlength := fun hzero => hgiven (List.length_eq_zero_iff.1 hzero)
    have hlength' := fun hzero => hgiven' (List.length_eq_zero_iff.1 hzero)
    have hhttp : protocolsOf (js "PUBLIC_BASE_URL") = HTTP_PROTOCOLS := rfl
    simp only [inspectPublic, if_neg hlength, if_neg hlength']
    obtain ⟨hurl, hurl'⟩ | ⟨url, url', hurl, hurl', hprotocol⟩ :=
      parse_congr h (show js "PUBLIC_BASE_URL" ∈ URL_KEYS by decide) hgiven hgiven'
    · rw [hurl, hurl']
    · have horigin := rule_congr (h .bareOrigin) hgiven hgiven'
      simp only [hurl, hurl', Option.some.injEq, exists_eq_left'] at horigin
      rw [hhttp] at hprotocol
      rw [hurl, hurl']
      refine congrArg₂ (· ++ ·) (issue_congr (by simpa [not_iff_not] using hprotocol)) (issue_congr ?_)
      simpa [or_assoc] using horigin

/-! ### The two database paths -/

/-- `inspectUrl`, check after check. -/
theorem inspectUrl_of_parse {text : JsString} {url : Url} (hurl : parseUrl special text = some url) :
    inspectUrl special text =
      if url.protocol ∉ URL_PROTOCOLS then
        some (js "DATABASE_URL does not use the PostgreSQL protocol (" ++ EXPECTED_URL ++ js ").")
      else if url.hostname = [] then some (js "DATABASE_URL names no host (" ++ EXPECTED_URL ++ js ").")
      else if databaseOf url = [] then
        some (js "DATABASE_URL names no database (" ++ EXPECTED_URL ++ js ").")
      else none := by
  simp [inspectUrl, hurl, databaseOf, List.length_eq_zero_iff]

theorem url_congr (h : SameChecks special raw raw') (hgiven : ¬ Assembled raw)
    (hgiven' : ¬ Assembled raw') :
    inspectUrl special (readString raw (js "DATABASE_URL")) =
      inspectUrl special (readString raw' (js "DATABASE_URL")) := by
  have hpostgres : protocolsOf (js "DATABASE_URL") = URL_PROTOCOLS := rfl
  obtain ⟨hurl, hurl'⟩ | ⟨url, url', hurl, hurl', hprotocol⟩ :=
    parse_congr h (show js "DATABASE_URL" ∈ URL_KEYS by decide) hgiven hgiven'
  · rw [inspectUrl, inspectUrl, hurl, hurl']
  · rw [hpostgres] at hprotocol
    have hhost := rule_congr (h .host) hgiven hgiven'
    have hdatabase := rule_congr (h .database) hgiven hgiven'
    simp only [hurl, hurl', Option.some.injEq, exists_eq_left'] at hhost hdatabase
    rw [inspectUrl_of_parse hurl, inspectUrl_of_parse hurl']
    by_cases hp : url.protocol ∈ URL_PROTOCOLS
    · have hp' := hprotocol.1 hp
      simp only [hp, hp', true_and, not_true, if_false] at hhost hdatabase ⊢
      by_cases hn : url.hostname = []
      · rw [if_pos hn, if_pos (hhost.1 hn)]
      · have hn' : ¬ url'.hostname = [] := fun hnil => hn (hhost.2 hnil)
        simp only [ne_eq, hn, hn', not_false_eq_true, true_and, if_false] at hdatabase ⊢
        simp only [hdatabase]
    · have hp' := fun hmem => hp (hprotocol.2 hmem)
      rw [if_pos hp, if_pos hp']

theorem assembled_congr (h : SameChecks special raw raw') (hgiven : Assembled raw)
    (hgiven' : Assembled raw') : (inspectDatabase raw).1 = (inspectDatabase raw').1 := by
  have hmissing : missingOf raw REQUIRED_DB_KEYS = missingOf raw' REQUIRED_DB_KEYS := by
    refine missingOf_congr fun key hk => ?_
    exact rule_congr (h (.missing key)) (.inr ⟨hgiven, hk⟩) (.inr ⟨hgiven', hk⟩)
  have hport := rule_congr (h (.port (js "DB_PORT"))) (.inr ⟨hgiven, rfl⟩) (.inr ⟨hgiven', rfl⟩)
  simp only [inspectDatabase]
  rw [given_congr (by decide) port_iff hport, hmissing]

/-- Of a URL that fails no check there is no issue. -/
theorem url_passes (hgiven : ¬ Assembled raw)
    (hparse : ¬ Fails special raw (.unparseable (js "DATABASE_URL")))
    (hprotocol : ¬ Fails special raw (.protocol (js "DATABASE_URL"))) (hhost : ¬ Fails special raw .host)
    (hdatabase : ¬ Fails special raw .database) :
    inspectUrl special (readString raw (js "DATABASE_URL")) = none := by
  have hk : js "DATABASE_URL" ∈ URL_KEYS := by decide
  have hpostgres : protocolsOf (js "DATABASE_URL") = URL_PROTOCOLS := rfl
  cases hurl : parseUrl special (readString raw (js "DATABASE_URL")) with
  | none => exact absurd ⟨hk, hgiven, hurl⟩ hparse
  | some url =>
    have hp : url.protocol ∈ URL_PROTOCOLS := by
      by_contra hno
      exact hprotocol ⟨hk, hgiven, url, hurl, by rwa [hpostgres]⟩
    have hn : url.hostname ≠ [] := fun hnil => hhost ⟨hgiven, url, hurl, hp, hnil⟩
    have hd : databaseOf url ≠ [] := fun hnil => hdatabase ⟨hgiven, url, hurl, hp, hn, hnil⟩
    rw [inspectUrl_of_parse hurl, if_neg (not_not.2 hp), if_neg hn, if_neg hd]

/-- Of `DB_*` keys that fail no check there is no issue. -/
theorem database_passes (hgiven : Assembled raw)
    (hmissing : ∀ key ∈ REQUIRED_DB_KEYS, ¬ Fails special raw (.missing key))
    (hport : ¬ Fails special raw (.port (js "DB_PORT"))) : (inspectDatabase raw).1 = [] := by
  have hread : ∀ key ∈ REQUIRED_DB_KEYS, readString raw key ≠ [] :=
    fun key hk hnil => hmissing key hk ⟨.inr ⟨hgiven, hk⟩, hnil⟩
  have hnone : missingOf raw REQUIRED_DB_KEYS = [] := by
    refine List.filter_eq_nil_iff.2 fun key hk => ?_
    simpa using hread key hk
  have hsome : portOf (Number (readString raw (js "DB_PORT"))) ≠ none :=
    fun hbad => hport ⟨.inr ⟨hgiven, rfl⟩, hread _ (by decide), hbad⟩
  simp [inspectDatabase, hnone, missingIssue, hsome]

/-- On two different paths neither fails a check of its own. -/
theorem paths_pass (h : SameChecks special raw raw') (hgiven : ¬ Assembled raw)
    (hgiven' : Assembled raw') :
    inspectUrl special (readString raw (js "DATABASE_URL")) = none ∧ (inspectDatabase raw').1 = [] := by
  constructor
  · refine url_passes hgiven (fun hf => ?_) (fun hf => ?_) (fun hf => ?_) fun hf => ?_
    · exact ((h _).1 hf).2.1 hgiven'
    · exact ((h _).1 hf).2.1 hgiven'
    · exact ((h _).1 hf).1 hgiven'
    · exact ((h _).1 hf).1 hgiven'
  · have hmissing : ∀ key ∈ REQUIRED_DB_KEYS, ¬ Fails special raw' (.missing key) := by
      intro key hk hf
      have hother : ∀ key ∈ REQUIRED_DB_KEYS, key ∉ COMMON_KEYS := by decide
      rcases ((h _).2 hf).1 with hmem | hno
      · exact hother key hk hmem
      · exact hgiven hno.1
    refine database_passes hgiven' hmissing fun hf => ?_
    rcases ((h _).2 hf).1 with hother | hno
    · exact absurd hother (by decide)
    · exact hgiven hno.1

theorem databaseIssues_of_url (hgiven : ¬ Assembled raw) : databaseIssues special raw =
    (inspectUrl special (readString raw (js "DATABASE_URL"))).toList :=
  if_pos (List.length_pos_iff.2 hgiven)

theorem databaseIssues_of_keys (hgiven : Assembled raw) :
    databaseIssues special raw = (inspectDatabase raw).1 :=
  if_neg fun hpos => List.length_pos_iff.1 hpos hgiven

theorem database_congr (h : SameChecks special raw raw') :
    databaseIssues special raw = databaseIssues special raw' := by
  by_cases hgiven : Assembled raw <;> by_cases hgiven' : Assembled raw'
  · rw [databaseIssues_of_keys hgiven, databaseIssues_of_keys hgiven', assembled_congr h hgiven hgiven']
  · obtain ⟨hurl, hkeys⟩ := paths_pass h.symm hgiven' hgiven
    rw [databaseIssues_of_keys hgiven, databaseIssues_of_url hgiven', hurl, hkeys]
    rfl
  · obtain ⟨hurl, hkeys⟩ := paths_pass h hgiven hgiven'
    rw [databaseIssues_of_url hgiven, databaseIssues_of_keys hgiven', hurl, hkeys]
    rfl
  · rw [databaseIssues_of_url hgiven, databaseIssues_of_url hgiven', url_congr h hgiven hgiven']

theorem issues_congr (h : SameChecks special raw raw') : allIssues special raw = allIssues special raw' := by
  rw [allIssues, allIssues, app_congr h, auth_congr h, storage_congr h, public_congr h, database_congr h]

theorem thrown_congr {e e' : Thrown} (h : validateEnv special raw = .error e)
    (h' : validateEnv special raw' = .error e') (hsame : SameChecks special raw raw') : e = e' := by
  rw [thrown_of_issues h, thrown_of_issues h', issues_congr hsame]

end

/-- **No value reaches the message.** Two environments that are refused and fail the same checks are refused
with the same message, so it is a function of the checks that failed. -/
theorem error_hides_values (special : JsString → Option Url) :
    (∀ (raw raw' : Raw) (e e' : Thrown), validateEnv special raw = .error e →
      validateEnv special raw' = .error e' → SameChecks special raw raw' → e.message = e'.message) ∧
    ∃ messageOf : (Check → Prop) → JsString, ∀ (raw : Raw) (e : Thrown),
      validateEnv special raw = .error e → e.message = messageOf (Fails special raw) := by
  have hpair : ∀ (raw raw' : Raw) (e e' : Thrown), validateEnv special raw = .error e →
      validateEnv special raw' = .error e' → SameChecks special raw raw' → e.message = e'.message :=
    fun raw raw' e e' h h' hsame => by rw [thrown_congr h h' hsame]
  have hfactors : Function.FactorsThrough
      (fun p : {p : Raw × Thrown // validateEnv special p.1 = .error p.2} => p.1.2.message)
      fun p => Fails special p.1.1 :=
    fun p q hfails => hpair _ _ _ _ p.2 q.2 fun check => iff_of_eq (congrFun hfails check)
  obtain ⟨messageOf, hmessage⟩ := (Function.factorsThrough_iff _).1 hfactors
  exact ⟨hpair, messageOf, fun raw e h => congrFun hmessage ⟨(raw, e), h⟩⟩

section
variable {special : JsString → Option Url} {raw raw' : Raw} {keys : List JsString} {key : JsString}

/-- A rule for some keys, of which the secret is none. -/
theorem keyed_congr {P : JsString → Prop}
    (hother : ∀ key ≠ js "JWT_SECRET", readString raw key = readString raw' key)
    (hkeys : js "JWT_SECRET" ∉ keys) : key ∈ keys ∧ Given raw key P ↔ key ∈ keys ∧ Given raw' key P := by
  refine and_congr_right fun hk => ?_
  have hne : key ≠ js "JWT_SECRET" := fun e => hkeys (e ▸ hk)
  rw [Given, Given, hother key hne]

/-- One short secret for another, with nothing else changed. -/
theorem sameChecks_of_short
    (hother : ∀ key ≠ js "JWT_SECRET", readString raw key = readString raw' key)
    (h : Fails special raw (.short (js "JWT_SECRET"))) (h' : Fails special raw' (.short (js "JWT_SECRET")))
    (hsame : ¬ Fails special raw .sameSecret) (hsame' : ¬ Fails special raw' .sameSecret) :
    SameChecks special raw raw' := by
  intro check
  cases check with
  | missing key =>
    by_cases hk : key = js "JWT_SECRET"
    · subst hk
      exact iff_of_false (fun hf => h.2.1 hf.2) fun hf => h'.2.1 hf.2
    · simp only [Fails, Assembled, hother key hk, hother (js "DATABASE_URL") (by decide)]
  | port key =>
    by_cases hk : key = js "JWT_SECRET"
    · subst hk
      have hport : ∀ raw, ¬ Fails special raw (.port (js "JWT_SECRET")) := by
        rintro raw ⟨hkey | hkey, -⟩
        · exact absurd hkey (by decide)
        · exact absurd hkey.2 (by decide)
      exact iff_of_false (hport raw) (hport raw')
    · simp only [Fails, Given, Assembled, hother key hk, hother (js "DATABASE_URL") (by decide)]
  | short key =>
    by_cases hk : key = js "JWT_SECRET"
    · subst hk
      exact iff_of_true h h'
    · simp only [Fails, Given, hother key hk]
  | sameSecret => exact iff_of_false hsame hsame'
  | duration key => exact keyed_congr hother (by decide)
  | unparseable key => exact keyed_congr hother (by decide)
  | protocol key => exact keyed_congr hother (by decide)
  | mountable => simp only [Fails, Given, hother (js "API_PREFIX") (by decide)]
  | neverApplies =>
    simp only [Fails, hother (js "SESSION_EXPIRES") (by decide),
      hother (js "SESSION_IDLE_EXPIRES") (by decide)]
  | bucketName => simp only [Fails, Given, hother (js "STORAGE_BUCKET") (by decide)]
  | bareOrigin => simp only [Fails, Parsed, Given, hother (js "PUBLIC_BASE_URL") (by decide)]
  | host => simp only [Fails, Parsed, Given, hother (js "DATABASE_URL") (by decide)]
  | database => simp only [Fails, Parsed, Given, hother (js "DATABASE_URL") (by decide)]

end

theorem exists_error {α : Type} {x : Except Thrown α} (h : x.toOption.isNone = true) :
    ∃ e, x = .error e := by
  cases x with
  | error e => exact ⟨e, rfl⟩
  | ok a => cases h

theorem readString_sample {value value' : JsString} (key : JsString) (hk : key ≠ js "JWT_SECRET") :
    readString (sample [(js "JWT_SECRET", value)]) key =
      readString (sample [(js "JWT_SECRET", value')]) key := by
  have hne : (key == js "JWT_SECRET") = false := beq_false_of_ne hk
  simp only [readString, sample, List.cons_append, List.nil_append, List.lookup_cons, hne]

/-- Two secrets that are too short. -/
theorem error_hides_values_short : ∃ e e',
    validateEnv sampleUrls (sample [(js "JWT_SECRET", js "hunter2")]) = .error e ∧
    validateEnv sampleUrls (sample [(js "JWT_SECRET", js "s3cr3t")]) = .error e' ∧
    e.message = e'.message := by
  obtain ⟨e, he⟩ := exists_error
    (x := validateEnv sampleUrls (sample [(js "JWT_SECRET", js "hunter2")])) (by decide +kernel)
  obtain ⟨e', he'⟩ := exists_error
    (x := validateEnv sampleUrls (sample [(js "JWT_SECRET", js "s3cr3t")])) (by decide +kernel)
  refine ⟨e, e', he, he', (error_hides_values sampleUrls).1 _ _ e e' he he' ?_⟩
  refine sameChecks_of_short readString_sample ⟨by decide, ?_⟩ ⟨by decide, ?_⟩ ?_ ?_
  · exact ⟨by decide +kernel, show (readString _ _).length < _ by decide +kernel⟩
  · exact ⟨by decide +kernel, show (readString _ _).length < _ by decide +kernel⟩
  · exact fun hsame => absurd hsame.2 (by decide +kernel)
  · exact fun hsame => absurd hsame.2 (by decide +kernel)

end DepositPortal.Config
