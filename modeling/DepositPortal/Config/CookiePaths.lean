import DepositPortal.Config.Env
import DepositPortal.UrlPath

/-!
# The paths of the scoped cookies

| here | there |
| --- | --- |
| `refreshCookiePath` | `auth/auth-cookie.ts:22` |
| `clientCookiePath`  | `public/client-session.ts:55` |

A browser sends a cookie to the requests whose path the `Path` of the cookie matches (`pathMatches`,
RFC 6265). The `Path` is written behind `API_PREFIX` as it stands. The path of a request is written by the
browser (`requestPath`), behind the prefix under which `setGlobalPrefix` (`app.setup.ts:21`) mounts the
routes: a parameter `mount`, which is `none` for a prefix that the router refuses, so that the server does
not start.
-/
namespace DepositPortal.Config

def refreshCookiePath (apiPrefix : JsString) : JsString := apiPrefix ++ js "/auth"

def clientCookiePath (apiPrefix : JsString) : JsString := apiPrefix ++ js "/public"

/-- The path-match of RFC 6265. -/
def pathMatches (cookiePath requestPath : JsString) : Bool :=
  cookiePath == requestPath ||
    (cookiePath.isPrefixOf requestPath &&
      (cookiePath.getLast? == some 0x2f || requestPath[cookiePath.length]? == some 0x2f))

/-- The `path-value` of RFC 6265: what a `Set-Cookie` header can carry. -/
def isPathValue (cookiePath : JsString) : Bool :=
  cookiePath.all fun c => 0x20 ≤ c && c ≤ 0x7e && c != 0x3b

/-- The paths match those of the routes that read the cookies, which are mounted under `base`. -/
structure ScopesMatch (apiPrefix base : JsString) : Prop where
  refresh : pathMatches (refreshCookiePath apiPrefix) (requestPath (base ++ js "/auth/refresh")) = true
  logout : pathMatches (refreshCookiePath apiPrefix) (requestPath (base ++ js "/auth/logout")) = true
  session : pathMatches (clientCookiePath apiPrefix) (requestPath (base ++ js "/public/session")) = true
  files : pathMatches (clientCookiePath apiPrefix) (requestPath (base ++ js "/public/files")) = true

def PathsMatch (mount : JsString → Option JsString) (apiPrefix : JsString) : Prop :=
  ∃ base, mount apiPrefix = some base ∧ ScopesMatch apiPrefix base

/-- The cookies come to the browser, and back to the routes. -/
structure CookiesReach (mount : JsString → Option JsString) (apiPrefix : JsString) : Prop where
  refreshSet : isPathValue (refreshCookiePath apiPrefix) = true
  clientSet : isPathValue (clientCookiePath apiPrefix) = true
  sent : PathsMatch mount apiPrefix

variable {apiPrefix base scope route path cookiePath : JsString} {mount : JsString → Option JsString}

theorem pathMatches_start (h : pathMatches cookiePath path = true) : cookiePath <+: path := by
  simp only [pathMatches, Bool.or_eq_true, beq_iff_eq, Bool.and_eq_true, List.isPrefixOf_iff_prefix] at h
  rcases h with rfl | ⟨h, -⟩
  · exact List.prefix_rfl
  · exact h

/-- A scope matches what is below it. -/
theorem pathMatches_below : pathMatches cookiePath (cookiePath ++ 0x2f :: route) = true := by
  simp only [pathMatches, Bool.or_eq_true, Bool.and_eq_true, List.isPrefixOf_iff_prefix, beq_iff_eq]
  exact .inr ⟨List.prefix_append _ _, .inr (by simp)⟩

/-- Only a plain prefix begins a path that a browser asks for. -/
theorem plain_of_pathMatches (h : pathMatches (apiPrefix ++ 0x2f :: scope) (requestPath path) = true) :
    PlainPath apiPrefix := by
  obtain ⟨rest, e⟩ := pathMatches_start h
  have hplain := plainPath_requestPath path
  rw [← e, List.append_assoc, List.cons_append] at hplain
  exact (plainPath_append.1 hplain).1

/-- A plain prefix is asked for as it is written. -/
theorem pathMatches_plain (hhead : apiPrefix.head? = some 0x2f) (hplain : PlainPath apiPrefix)
    (hscope : PlainPath (scope ++ 0x2f :: route)) :
    pathMatches (apiPrefix ++ 0x2f :: scope)
      (requestPath (apiPrefix ++ 0x2f :: (scope ++ 0x2f :: route))) = true := by
  have hpath := plainPath_append.2 ⟨hplain, hscope⟩
  obtain ⟨rest, rfl⟩ := List.head?_eq_some_iff.1 hhead
  rw [List.cons_append] at hpath ⊢
  rw [List.cons_append, requestPath_plain hpath, ← List.cons_append, ← List.cons_append, ← List.cons_append,
    ← List.append_assoc]
  exact pathMatches_below

theorem mountable_iff : isMountable apiPrefix = true ↔
    apiPrefix.head? = some 0x2f ∧ (apiPrefix.length ≤ 1 ∨ apiPrefix.getLast? ≠ some 0x2f) := by
  simp [isMountable]

/-- For `/` the `Path` has two slashes, and the request one. -/
theorem not_pathsMatch_root (hroot : mount (js "/") = some []) : ¬ PathsMatch mount (js "/") := by
  rintro ⟨base, hbase, hmatch⟩
  rw [hroot] at hbase
  cases hbase
  exact absurd hmatch.refresh (by decide +kernel)

theorem pathsMatch_iff (hroot : mount (js "/") = some [])
    (hmount : ∀ apiPrefix, isMountable apiPrefix = true → PlainPath apiPrefix → apiPrefix ≠ js "/" →
      mount apiPrefix = none ∨ mount apiPrefix = some apiPrefix) (h : isMountable apiPrefix = true) :
    PathsMatch mount apiPrefix ↔
      mount apiPrefix ≠ none ∧ apiPrefix ≠ js "/" ∧ PlainPath apiPrefix := by
  constructor
  · rintro ⟨base, hbase, hmatch⟩
    refine ⟨by simp [hbase], ?_, plain_of_pathMatches hmatch.refresh⟩
    rintro rfl
    exact not_pathsMatch_root hroot ⟨base, hbase, hmatch⟩
  · rintro ⟨hserved, hne, hplain⟩
    have hbase := (hmount apiPrefix h hplain hne).resolve_left hserved
    have hhead := (mountable_iff.1 h).1
    exact ⟨apiPrefix, hbase, {
      refresh := pathMatches_plain hhead hplain (by decide)
      logout := pathMatches_plain hhead hplain (by decide)
      session := pathMatches_plain hhead hplain (by decide)
      files := pathMatches_plain hhead hplain (by decide) }⟩

/-- A header can carry a plain path that holds no `;`. -/
theorem isPathValue_plain (h : PlainPath apiPrefix) (hscope : isPathValue scope = true) :
    isPathValue (apiPrefix ++ scope) = true ↔ 0x3b ∉ apiPrefix := by
  rw [isPathValue] at hscope ⊢
  rw [List.all_append, hscope, Bool.and_true, List.all_eq_true]
  constructor
  · intro hall hm
    exact absurd (hall _ hm) (by decide)
  · intro hno c hc
    obtain ⟨-, hset, -⟩ := isPathUnit_facts (h.units c hc)
    simp only [pathSet, querySet, c0ControlSet, Bool.or_eq_false_iff, decide_eq_false_iff_not] at hset
    have hne : c ≠ 0x3b := fun e => hno (e ▸ hc)
    simp only [Bool.and_eq_true, decide_eq_true_eq, bne_iff_ne, UInt16.le_iff_toNat_le]
    refine ⟨⟨?_, ?_⟩, hne⟩
    · simp
      omega
    · simp
      omega

/-- **The scoped cookies match the paths of their routes exactly when the browser writes the prefix as it
stands, and it is not `/`**: it is a path of plain segments (`PlainPath`), and the router takes it. They
come to the browser in the first place when there is no `;` in it either. Nest mounts the routes under no
prefix for `/`, and under a plain prefix as it is written, if it does not refuse it. -/
theorem cookies_reach_iff (special : JsString → Option Url) (raw : Raw) (env : Env)
    (h : validateEnv special raw = .ok env) (mount : JsString → Option JsString)
    (hroot : mount (js "/") = some [])
    (hmount : ∀ apiPrefix, isMountable apiPrefix = true → PlainPath apiPrefix → apiPrefix ≠ js "/" →
      mount apiPrefix = none ∨ mount apiPrefix = some apiPrefix) :
    (PathsMatch mount env.app.API_PREFIX ↔ mount env.app.API_PREFIX ≠ none ∧
      env.app.API_PREFIX ≠ js "/" ∧ PlainPath env.app.API_PREFIX) ∧
    (CookiesReach mount env.app.API_PREFIX ↔ mount env.app.API_PREFIX ≠ none ∧
      env.app.API_PREFIX ≠ js "/" ∧ PlainPath env.app.API_PREFIX ∧ 0x3b ∉ env.app.API_PREFIX) := by
  have hmountable := (accepted_of_validateEnv h).mountable
  generalize env.app.API_PREFIX = apiPrefix at hmountable
  have hiff := pathsMatch_iff hroot hmount hmountable
  refine ⟨hiff, fun hreach => ?_, fun hcond => ?_⟩
  · obtain ⟨hserved, hne, hplain⟩ := hiff.1 hreach.sent
    exact ⟨hserved, hne, hplain, (isPathValue_plain hplain (by decide)).1 hreach.refreshSet⟩
  · obtain ⟨hserved, hne, hplain, hsemi⟩ := hcond
    exact {
      refreshSet := (isPathValue_plain hplain (by decide)).2 hsemi
      clientSet := (isPathValue_plain hplain (by decide)).2 hsemi
      sent := hiff.2 ⟨hserved, hne, hplain⟩ }

theorem cookies_reach_iff_versioned :
    CookiesReach (fun apiPrefix => if apiPrefix = js "/" then some [] else some apiPrefix) (js "/api/v1") := by
  obtain ⟨env, hok, hpath⟩ := exists_of_map_ok (f := fun env : Env => env.app.API_PREFIX)
    (show (validateEnv sampleUrls (sample [])).map _ = .ok (js "/api/v1") by decide +kernel)
  rw [← hpath]
  refine (cookies_reach_iff sampleUrls (sample []) env hok _ rfl fun p _ _ hp =>
    .inr (if_neg hp)).2.2 ?_
  rw [hpath]
  decide

/-- With `/`, which is accepted, the cookie is for `//auth` and the route is `/auth/refresh`. -/
theorem no_prefix_out_of_reach : ∃ env,
    validateEnv sampleUrls (sample [(js "API_PREFIX", js "/")]) = .ok env ∧
    refreshCookiePath env.app.API_PREFIX = js "//auth" ∧
    ∀ mount : JsString → Option JsString, mount (js "/") = some [] →
      (mount env.app.API_PREFIX).map (fun base => requestPath (base ++ js "/auth/refresh")) =
        some (js "/auth/refresh") ∧
      ¬ PathsMatch mount env.app.API_PREFIX := by
  obtain ⟨env, hok, hpath⟩ := exists_of_map_ok (f := fun env : Env => env.app.API_PREFIX)
    (show (validateEnv sampleUrls (sample [(js "API_PREFIX", js "/")])).map _ = .ok (js "/") by
      decide +kernel)
  refine ⟨env, hok, ?_, fun mount hroot => ?_⟩
  all_goals rw [hpath]
  · decide
  · refine ⟨by rw [hroot]; decide +kernel, fun hmatch => ?_⟩
    exact not_pathsMatch_root hroot hmatch

end DepositPortal.Config
