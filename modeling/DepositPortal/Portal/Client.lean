import DepositPortal.Portal.State

/-!
# What the client calls: `PublicController` (public/public.controller.ts)

| here | there |
| --- | --- |
| `Client.unlock`  | `unlock` (`:70`); nothing it reads is written back, so it is one step |
| `Client.visit`   | `POST files`: the guard (`:123`), which runs before the body is read |
| `Client.body`    | the interceptor (`:125`), the checks of the body, `NO_FILE` (`:137`) |
| `Client.deposit` | `DepositsService.deposit` (`:143`), call by call |

`UploadLimitFilter` (`public/upload-limit.filter.ts:36`) turns a file that is too big into a 413. The
session the guard rebuilt goes along with the deposit.
-/
namespace DepositPortal.Portal
open Public (Cookies ClientSession PublicRequestView canActivate unlockRoute)
open PublicLinks (Token)
open Deposits (ItemId IncomingFile)

def MAX_FILE_BYTES : Nat := 20 * 1024 * 1024

def FILE_TOO_LARGE : JsString := js "Fichier trop volumineux (20 Mo maximum)."

def NO_FILE : JsString := js "Aucun fichier reçu."

/-- `DepositFileDto` (`public/dto/deposit-file.dto.ts:12`). -/
def ITEM_INVALID : JsString := js "La pièce visée est invalide."

/-- The multipart body. -/
structure Upload where
  itemId : ItemId
  file : Option IncomingFile
  deriving DecidableEq, Repr

/-- A `POST files` that never reached `DepositsService`. -/
inductive Refusal where
  | access (failure : Public.Failure)
  | PayloadTooLargeException (message : JsString)
  | BadRequestException (message : JsString)
  /-- The body could not be read. -/
  | aborted
  deriving DecidableEq, Repr

inductive Client where
  | unlock (token : Token) (pin : JsString)
  | unlocked (answer : Except Public.Failure PublicRequestView) (cookie : Option JsString)
  | visit (cookies : Cookies) (upload : Upload)
  | body (session : ClientSession) (upload : Upload)
  | deposit (session : ClientSession) (f : Deposits.Call)
  | refused (refusal : Refusal)

/-- The checks between the body and the service: the size, the item id, the presence of a file. -/
def checkUpload (isUUID : JsString → Bool) (upload : Upload) : Except Refusal IncomingFile :=
  match upload.file with
  | some file =>
    if file.buffer.length > MAX_FILE_BYTES then .error (.PayloadTooLargeException FILE_TOO_LARGE)
    else if isUUID upload.itemId then .ok file
    else .error (.BadRequestException ITEM_INVALID)
  | none => .error (.BadRequestException (if isUUID upload.itemId then NO_FILE else ITEM_INVALID))

def Client.exec (cfg : Config) (plan : Requests.Plan) (k : Choice) (s : State) :
    Client → Option (State × Client)
  | .unlock token pin =>
    let fails := k.fault.map fun _ => Public.Query.resolve
    let answer := (Public.unlock cfg.toService fails s.links plan s.database token pin k.now
      ⟨[], [], 0⟩).1
    let routed := unlockRoute cfg.jwt k.now answer
    some (s, .unlocked routed.1 routed.2)
  | .visit cookies upload =>
    match canActivate cfg.jwt k.fault.isSome s.links.links cookies k.now k.now with
    | .error failure => some (s, .refused (.access failure))
    | .ok session => some (s, .body session upload)
  | .body session upload =>
    match k.fault, checkUpload cfg.isUUID upload with
    | some _, _ => some (s, .refused .aborted)
    | none, .error refusal => some (s, .refused refusal)
    | none, .ok file => some (s, .deposit session (.deposit ⟨session.requestId, upload.itemId, file⟩))
  | .deposit session f =>
    (Deposits.exec cfg.normalizeNFKD k.deposits s.deposits f).map fun r =>
      (s.withDeposits r.1, .deposit session r.2)
  | .unlocked _ _ => none
  | .refused _ => none

/-! ## What one step does -/

inductive Client.Step (cfg : Config) (k : Choice) (s : State) : Client → State → Client → Prop
  | answered (f f' : Client) : (∀ session upload, f' ≠ .body session upload) →
      (∀ session g, f' ≠ .deposit session g) → Step cfg k s f s f'
  | admitted (cookies : Cookies) (upload : Upload) (session : ClientSession) :
      canActivate cfg.jwt k.fault.isSome s.links.links cookies k.now k.now = .ok session →
      Step cfg k s (.visit cookies upload) s (.body session upload)
  | began (session : ClientSession) (upload : Upload) (file : IncomingFile) :
      Step cfg k s (.body session upload) s
        (.deposit session (.deposit ⟨session.requestId, upload.itemId, file⟩))
  | deposit (session : ClientSession) (f f' : Deposits.Call) (d : Deposits.State) :
      Deposits.exec cfg.normalizeNFKD k.deposits s.deposits f = some (d, f') →
      Step cfg k s (.deposit session f) (s.withDeposits d) (.deposit session f')

theorem Client.Step.refused {cfg : Config} {k : Choice} {s : State} {f : Client} (refusal : Refusal) :
    Client.Step cfg k s f s (.refused refusal) :=
  .answered _ _ (fun _ _ => Client.noConfusion) fun _ _ => Client.noConfusion

theorem Client.step_of_exec {cfg : Config} {plan : Requests.Plan} {k : Choice} {s s' : State}
    {f f' : Client} (he : f.exec cfg plan k s = some (s', f')) : Client.Step cfg k s f s' f' := by
  cases f with
  | unlock token pin =>
    cases he
    exact .answered _ _ (fun _ _ => Client.noConfusion) fun _ _ => Client.noConfusion
  | visit cookies upload =>
    simp only [Client.exec] at he
    split at he
    · cases he
      exact .refused _
    · next session hs => cases he; exact .admitted cookies upload session hs
  | body session upload =>
    simp only [Client.exec] at he
    split at he
    · cases he
      exact .refused _
    · cases he
      exact .refused _
    · next file _ _ => cases he; exact .began session upload file
  | deposit session f =>
    obtain ⟨⟨d, f''⟩, hd, e⟩ := Option.map_eq_some_iff.1 he
    cases e
    exact .deposit session f f'' d hd
  | unlocked answer cookie => cases he
  | refused refusal => cases he

end DepositPortal.Portal
