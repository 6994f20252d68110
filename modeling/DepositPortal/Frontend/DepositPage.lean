import DepositPortal.Frontend.Client
import DepositPortal.Number
import DepositPortal.Portal.Isolation

/-!
# The client's page: `DepositPage` (frontend/src/pages/deposit-page.tsx)

| here | there |
| --- | --- |
| `refusalFor`                  | `:123` |
| `Page.effect`                 | the `useEffect` (`:206`), up to its request |
| `Page.restored`               | what it does with the answer (`:216`) |
| `Page.submit`, `Page.unlocked` | `onSubmit` (`:236`), before and after `unlockDeposit` |
| `Page.deposited`              | the `catch` of `onPick` (`:292`) |

`apiRequest` never renews on these routes (`CLIENT_PREFIX`), so a call of the API ends with its answer or
with the kind of its error. The code being typed and the rows of the uploads are left out.
-/
namespace DepositPortal.DepositPage
open Client (ApiErrorKind kindForStatus)
open Public (PublicRequestView)
open PublicLinks (Token)
open Portal (Reply)

def PIN_LENGTH : Nat := 4

/-- `TEXT`, as far as it is a message. -/
def incomplete : JsString := js "Saisissez les " ++ decimal PIN_LENGTH ++ js " chiffres du code."

def refused : JsString :=
  js "Ce lien n'est pas accessible. Il a peut-etre expire ou ete revoque, ou le code saisi n'est pas le bon. Verifiez le code, puis demandez un nouveau lien a votre avocat."

def unreachable : JsString := js "Serveur injoignable. Reessayez dans un instant."

def unexpected : JsString := js "Une erreur est survenue."

/-- What a refused unlock says. -/
def refusalFor : ApiErrorKind → JsString
  | .network => unreachable
  | .server => unexpected
  | _ => refused

structure Page where
  view : Option PublicRequestView
  loading : Bool
  submitting : Bool
  message : Option JsString
  deriving DecidableEq, Repr

def Page.initial : Page := ⟨none, true, false, none⟩

/-- The page as it opens, and whether it asks for the session. -/
def Page.effect (rememberedToken : Option Token) (token : Token) : Page × Bool :=
  if rememberedToken ≠ some token then ({ Page.initial with loading := false }, false)
  else (.initial, true)

theorem Page.effect_asks {rememberedToken : Option Token} {token : Token} :
    (Page.effect rememberedToken token).2 = true ↔ rememberedToken = some token := by
  unfold Page.effect
  split
  · next hne => simp [hne]
  · next he => simpa using he

theorem Page.effect_view (rememberedToken : Option Token) (token : Token) :
    (Page.effect rememberedToken token).1.view = none := by
  unfold Page.effect
  split <;> rfl

def Page.restored (page : Page) : Except ApiErrorKind PublicRequestView → Page
  | .ok restored => { page with view := some restored, loading := false }
  | .error kind =>
    { page with
      message := if kind = .network then some unreachable else page.message
      loading := false }

/-- The form is there: no view, nothing loading, and the button not disabled. -/
def Page.showsForm (page : Page) : Bool := !page.loading && page.view.isNone && !page.submitting

/-- The page once the form is submitted, and whether it calls `unlockDeposit`. -/
def Page.submit (page : Page) (pin : JsString) : Page × Bool :=
  if pin.length < PIN_LENGTH then ({ page with message := some incomplete }, false)
  else ({ page with submitting := true, message := none }, true)

def Page.unlocked (page : Page) : Except ApiErrorKind PublicRequestView → Page
  | .ok unlocked => { page with view := some unlocked, submitting := false }
  | .error kind => { page with message := some (refusalFor kind), submitting := false }

/-- `none`: the file was deposited. -/
def Page.deposited (page : Page) : Option ApiErrorKind → Page
  | some .unauthorized => { page with view := none, message := some refused }
  | _ => page

/-! ## The answers of the API -/

/-- The error an answer of `PublicController` becomes. -/
def kindOf : Public.Failure → ApiErrorKind
  | .UnauthorizedException _ => kindForStatus 401
  | .thrown => kindForStatus 500

/-- That of a deposit. -/
def depositKind : Reply → Option ApiErrorKind
  | .refused (.access failure) => some (kindOf failure)
  | .refused (.PayloadTooLargeException _) => some (kindForStatus 413)
  | .refused (.BadRequestException _) => some (kindForStatus 400)
  | .refused .aborted => some .network
  | .deposited (.ok _) => none
  | .deposited (.error (.NotFoundException _)) => some (kindForStatus 404)
  | .deposited (.error (.UnsupportedMediaTypeException _)) => some (kindForStatus 415)
  | .deposited (.error (.ConflictException _)) => some (kindForStatus 409)
  | .deposited (.error (.other _)) => some (kindForStatus 500)

end DepositPortal.DepositPage
