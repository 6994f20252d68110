import DepositPortal.Basic
import Mathlib.Data.List.Infix

/-!
# The browser's API client (frontend/src/api/client.ts)

| here | there |
| --- | --- |
| `isNeverRenewed`  | `isNeverRenewed` (`:24`), with `NEVER_RENEWED` (`:14`) and `CLIENT_PREFIX` (`:19`) |
| `kindForStatus`, `messageForKind` | `:46`, `:53` |
| `quotedMessage`, `apiErrorFor`    | `:84`, `:107` |
| `sendWithRenewal`                 | `:146`, one `send` at a time |
| `parse`, `apiResult`              | `parse` (`:138`) and the rest of `apiRequest` (`:199`) |
-/
namespace DepositPortal.Client

def REFRESH_PATH : JsString := js "/auth/refresh"

def NEVER_RENEWED : List JsString := [REFRESH_PATH, js "/auth/login"]

def CLIENT_PREFIX : JsString := js "/public/"

def isNeverRenewed (path : JsString) : Bool :=
  NEVER_RENEWED.contains path || CLIENT_PREFIX.isPrefixOf path

inductive ApiErrorKind where
  | unauthorized | notFound | badRequest | server | network
  deriving DecidableEq, Repr

structure ApiError where
  kind : ApiErrorKind
  message : JsString
  deriving DecidableEq, Repr

def kindForStatus (status : Nat) : ApiErrorKind :=
  if status = 401 ∨ status = 403 then .unauthorized
  else if status = 404 then .notFound
  else if status < 500 then .badRequest
  else .server

def messageForKind : ApiErrorKind → JsString
  | .unauthorized => js "Identifiants refuses."
  | .notFound => js "API introuvable."
  | .network => js "Serveur injoignable."
  | _ => js "Une erreur est survenue."

/-- The `message` property of a JSON body: a string, an array (with `none` for an entry that is not
a string), or anything else. -/
inductive Message where
  | text (message : JsString)
  | entries (message : List (Option JsString))
  | other
  deriving DecidableEq, Repr

/-- The body of an answer, as `JSON.parse` reads it. -/
inductive Body where
  | notJson
  | json (message : Message)
  deriving DecidableEq, Repr

structure Response where
  status : Nat
  /-- The empty string when the header is absent. -/
  contentType : JsString
  body : Body
  deriving DecidableEq, Repr

def Response.ok (response : Response) : Bool :=
  decide (200 ≤ response.status ∧ response.status ≤ 299)

/-- `contentType.includes('json')`. -/
def includesJson (contentType : JsString) : Bool := decide (js "json" <:+: contentType)

def QUOTED_STATUSES : List Nat := [400, 409, 413, 415]

/-- What the API said about a refused body (`:84`). -/
def quotedMessage (contentType : JsString) (body : Body) : Option JsString :=
  if includesJson contentType then
    match body with
    | .json (.text message) => if message.isEmpty then none else some message
    | .json (.entries message) =>
      let lines := message.filterMap id
      if lines.isEmpty then none else some ((js " ").intercalate lines)
    | _ => none
  else none

def apiErrorFor (status : Nat) (contentType : JsString) (body : Body) : ApiError :=
  let kind := kindForStatus status
  let quoted := if QUOTED_STATUSES.contains status then quotedMessage contentType body else none
  ⟨kind, quoted.getD (messageForKind kind)⟩

/-- Which `send` a `sendWithRenewal` waits for: the first, the renewal, or the replay. -/
inductive Stage where
  | sent
  | renewing (response : Response)
  | replaying
  deriving DecidableEq, Repr

/-- What it does with the answer: it sends again, or it has its response. -/
def sendWithRenewal (path : JsString) : Stage → Response → Stage ⊕ Response
  | .sent, response =>
    if response.status ≠ 401 ∨ isNeverRenewed path = true then .inr response
    else .inl (.renewing response)
  | .renewing response, renewed => if renewed.ok then .inl .replaying else .inr response
  | .replaying, response => .inr response

/-- How `apiRequest` ends. -/
inductive ApiResult where
  | undefined
  | value (response : Response)
  | apiError (error : ApiError)
  /-- `response.json()` threw. -/
  | syntaxError
  deriving DecidableEq, Repr

/-- Its promise is fulfilled. -/
def ApiResult.fulfilled : ApiResult → Bool
  | .undefined | .value _ => true
  | .apiError _ | .syntaxError => false

def parse (response : Response) : ApiResult :=
  if response.status = 204 then .undefined
  else if includesJson response.contentType then
    match response.body with
    | .notJson => .syntaxError
    | .json _ => .value response
  else .apiError ⟨.notFound, messageForKind .notFound⟩

/-- What `apiRequest` makes of the response `sendWithRenewal` gave it (`:202-213`). -/
def apiResult (response : Response) : ApiResult :=
  if response.ok then parse response
  else .apiError (apiErrorFor response.status response.contentType response.body)

/-- The server refused the session: what ends in an 'unauthorized' error. -/
def Response.refused (response : Response) : Bool :=
  kindForStatus response.status == .unauthorized

def ApiResult.unauthorized : ApiResult → Bool
  | .apiError error => error.kind == .unauthorized
  | _ => false

theorem refused_iff {response : Response} :
    response.refused = true ↔ response.status = 401 ∨ response.status = 403 := by
  unfold Response.refused kindForStatus
  by_cases h : response.status = 401 ∨ response.status = 403
  · simp [h]
  · simp only [h, if_false, iff_false]
    split
    · simp
    · split <;> simp

/-- An 'unauthorized' error comes from a refusal of the server and from nothing else. -/
theorem apiResult_unauthorized (response : Response) :
    (apiResult response).unauthorized = response.refused := by
  unfold apiResult
  split
  · next hok =>
    -- a 2xx answer is no refusal, and `parse` throws nothing else than 'notFound'
    have hno : response.refused = false := by
      rw [Bool.eq_false_iff, Ne, refused_iff]
      simp only [Response.ok, decide_eq_true_eq] at hok
      omega
    rw [hno]
    unfold parse
    split
    · rfl
    · split
      · split <;> rfl
      · rfl
  · rfl

end DepositPortal.Client
