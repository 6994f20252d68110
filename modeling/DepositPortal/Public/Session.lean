import DepositPortal.Requests.Reads

/-!
# The client's access: `PublicService` and `ClientSessionGuard`

| here | there |
| --- | --- |
| `REFUSED`, `refuseAccess`                  | `public/public.service.ts:20`, `:22` |
| `viewOf`                                   | `:102` |
| `verifySecret`                             | `crypto/secrets.ts:62`; `argon2.verify` is passed in |
| `decoyFor`, `unlock`                       | `public/public.service.ts:49`, `:59`; `Work` is what `unlock` does besides answering |
| `CLIENT_COOKIE_NAME`, `CLIENT_SESSION_TTL_MS` | `public/client-session.ts:12`, `:20` |
| `extractToken`, `canActivate`              | `public/client-session.guard.ts:78`, `:29` |
| `unlockRoute`, `sessionRoute`              | `public/public.controller.ts:70`, `:101` |

`Jwt` is `@nestjs/jwt`, at an instant. `verifyAsync<ClientSessionPayload>` is a cast: the payload of a
token that carries the right signature may have any shape. The two reads of `unlock` happen at two
moments, so it is given two states.
-/
namespace DepositPortal.Public
open Query
open Requests (Database Plan RequestedItem isReceived)
open PublicLinks (DepositRequest PublicLink LinkId Token ResolvedLink LinkResolution isExpired)
open Deposits (RequestId ItemId)

inductive Failure where
  | UnauthorizedException (message : JsString)
  /-- The error of an awaited call of the database, as it came. -/
  | thrown
  deriving DecidableEq, Repr

def REFUSED : JsString := js "Lien ou code invalide."

def refuseAccess : Failure := .UnauthorizedException REFUSED

/-! ## The view of the client -/

structure PublicItemView where
  id : ItemId
  label : JsString
  received : Bool
  deriving DecidableEq, Repr

structure PublicRequestView where
  requestId : RequestId
  title : JsString
  expiresAt : Int
  items : List PublicItemView
  deriving DecidableEq, Repr

/-- `fails`: the query fails. -/
def viewOf (plan : Plan) (db : Database) (fails : Bool) (requestId : RequestId) (expiresAt : Int) :
    Except Failure PublicRequestView :=
  if fails then .error .thrown
  else match db.depositRequest.find? fun r => r.id == requestId with
    | none => .error refuseAccess
    | some request => .ok ⟨request.id, request.title, expiresAt,
        (sorted plan.items (fun item => item.requestId == request.id) Requests.positionAsc
          db.requestedItem).map
          fun item => ⟨item.id, item.label, isReceived (db.statusOf item.id)⟩⟩

/-! ## `unlock` -/

inductive UnlockOutcome where
  | success | failure
  deriving DecidableEq, Repr

structure Work where
  /-- The argon2 verifications, each with the hash and the value. -/
  verified : List (JsString × JsString)
  /-- `recordUnlock`. -/
  unlocks : List UnlockOutcome
  expiredLinkHits : Nat
  deriving DecidableEq, Repr

def Work.recordUnlock (work : Work) (outcome : UnlockOutcome) : Work :=
  { work with unlocks := work.unlocks ++ [outcome] }

def Work.recordExpiredLinkHit (work : Work) : Work :=
  { work with expiredLinkHits := work.expiredLinkHits + 1 }

/-- A hash `hashSecret` made. -/
def Hashed (cfg : PublicLinks.Config) (hash : JsString) : Prop :=
  ∃ value salt, hash = cfg.hashSecret value salt

/-- The hash for a link that cannot be opened (`onModuleInit`). -/
def decoyFor (cfg : PublicLinks.Config) (random salt : Deposits.Bytes) : JsString :=
  cfg.hashSecret (Deposits.hex random) salt

/-- What `PublicService` is built from. `argon2Verify` is `none` where the library throws. Nest awaits
`onModuleInit` before the first request. -/
structure Service extends PublicLinks.Config where
  argon2Verify : JsString → JsString → Option Bool
  decoyHash : JsString
  decoyHash_made : ∃ random salt, random.length = 32 ∧ decoyHash = decoyFor toConfig random salt

def Service.verifySecret (svc : Service) (value storedHash : JsString) (work : Work) : Bool × Work :=
  ((svc.argon2Verify storedHash value).getD false,
    { work with verified := work.verified ++ [(storedHash, value)] })

structure UnlockResult where
  linkId : LinkId
  view : PublicRequestView
  deriving DecidableEq, Repr

/-- Which query of `unlock` fails. -/
inductive Query where
  | resolve | viewOf
  deriving DecidableEq, Repr

/-- The hash the PIN is checked against. -/
def Service.hashFor (svc : Service) : LinkResolution → JsString
  | .ok link _ => link.pinHash
  | _ => svc.decoyHash

/-- What follows the resolution (`:69-94`). -/
def unlockResolved (svc : Service) (fails : Option Query) (plan : Plan) (db : Database)
    (resolution : LinkResolution) (pin : JsString) (work : Work) :
    Except Failure UnlockResult × Work :=
  let (pinMatches, work) := svc.verifySecret pin (svc.hashFor resolution) work
  match resolution, pinMatches with
  | .ok link request, true =>
    match viewOf plan db (fails == some .viewOf) request.id link.expiresAt with
    | .ok view => (.ok ⟨link.id, view⟩, work.recordUnlock .success)
    | .error error => (.error error, work.recordUnlock .failure)
  | _, _ => (.error refuseAccess, work.recordUnlock .failure)

def unlock (svc : Service) (fails : Option Query) (links : PublicLinks.State) (plan : Plan)
    (db : Database) (token : Token) (pin : JsString) (now : Int) (work : Work) :
    Except Failure UnlockResult × Work :=
  match fails == some .resolve, PublicLinks.resolve svc.toConfig links token now with
  | true, _ => (.error .thrown, work)
  -- a link without its request makes the query itself fail
  | false, none => (.error .thrown, work)
  | false, some resolution => unlockResolved svc fails plan db resolution pin
    (if resolution = .expired then work.recordExpiredLinkHit else work)

/-! ## The session -/

def CLIENT_COOKIE_NAME : JsString := js "portail_client"

def CLIENT_SESSION_TTL_MS : Int := 30 * 60 * 1000

structure ClientSessionPayload where
  linkId : LinkId
  requestId : RequestId
  deriving DecidableEq, Repr

inductive JsValue where
  | string (value : JsString)
  /-- `undefined`, a number, an object… -/
  | other
  deriving DecidableEq, Repr

/-- What is read of a verified token. -/
structure Claims where
  typ : JsValue
  linkId : JsValue
  deriving DecidableEq, Repr

/-- `verifyAsync` is `none` where the library throws. -/
structure Jwt where
  signAsync : ClientSessionPayload → Int → JsString
  verifyAsync : JsString → Int → Option Claims

/-- The claims `unlock` signs. -/
def ClientSessionPayload.claims (payload : ClientSessionPayload) : Claims :=
  ⟨.string (js "client"), .string payload.linkId⟩

structure ClientSession where
  linkId : LinkId
  requestId : RequestId
  expiresAt : Int
  deriving DecidableEq, Repr

/-- `request.cookies`, when it is an object. -/
abbrev Cookies := Option (JsString → JsValue)

def extractToken (cookies : Cookies) : Option JsString :=
  match cookies with
  | none => none
  | some cookies =>
    match cookies CLIENT_COOKIE_NAME with
    | .string token => if token.length > 0 then some token else none
    | .other => none

/-- The link a session may use (`client-session.guard.ts:50-64`). -/
def acceptLink (links : List PublicLink) (linkId : LinkId) (now : Int) : Except Failure ClientSession :=
  match links.find? fun link => link.id == linkId with
  | none => .error refuseAccess
  | some link =>
    if link.revokedAt.isSome || isExpired link.expiresAt now then .error refuseAccess
    else .ok ⟨link.id, link.requestId, link.expiresAt⟩

/-- `verifiedAt` is the clock of the verification, `now` the reading at the end. -/
def canActivate (jwt : Jwt) (fails : Bool) (links : List PublicLink) (cookies : Cookies)
    (verifiedAt now : Int) : Except Failure ClientSession :=
  match extractToken cookies with
  | none => .error refuseAccess
  | some token =>
    match jwt.verifyAsync token verifiedAt with
    | none => .error refuseAccess
    | some payload =>
      match payload.typ == .string (js "client"), payload.linkId with
      | true, .string linkId => if fails then .error .thrown else acceptLink links linkId now
      | _, _ => .error refuseAccess

/-- What the application relies on in `@nestjs/jwt`: a session verifies until its time is over
(`public.module.ts:32`), which is counted in whole seconds. -/
structure Signs (jwt : Jwt) : Prop where
  nonempty : ∀ payload iat, jwt.signAsync payload iat ≠ []
  verifies : ∀ payload iat now, jwt.verifyAsync (jwt.signAsync payload iat) now =
    if now / 1000 < iat / 1000 + CLIENT_SESSION_TTL_MS / 1000 then some payload.claims else none

/-- The cookies carry the session that was signed. -/
def Carry (jwt : Jwt) (payload : ClientSessionPayload) (iat : Int) (cookies : JsString → JsValue) :
    Prop :=
  cookies CLIENT_COOKIE_NAME = .string (jwt.signAsync payload iat)

/-- Under a session that was signed, the guard looks at the link it names and at nothing else. -/
theorem canActivate_signed {jwt : Jwt} (hs : Signs jwt) {payload : ClientSessionPayload}
    {iat now verifiedAt : Int} {cookies : JsString → JsValue} (hc : Carry jwt payload iat cookies)
    (links : List PublicLink) : canActivate jwt false links (some cookies) verifiedAt now =
      if verifiedAt / 1000 < iat / 1000 + CLIENT_SESSION_TTL_MS / 1000 then
        acceptLink links payload.linkId now
      else .error refuseAccess := by
  have htoken : extractToken (some cookies) = some (jwt.signAsync payload iat) := by
    simp only [extractToken, show cookies CLIENT_COOKIE_NAME = _ from hc]
    exact if_pos (List.length_pos_iff.2 (hs.nonempty payload iat))
  simp only [canActivate, htoken, hs.verifies]
  by_cases h : verifiedAt / 1000 < iat / 1000 + CLIENT_SESSION_TTL_MS / 1000
  · rw [if_pos h, if_pos h]; rfl
  · rw [if_neg h, if_neg h]

/-! ## The routes -/

/-- The answer to an unlock, with the session cookie it sets. -/
def unlockRoute (jwt : Jwt) (signedAt : Int) :
    Except Failure UnlockResult → Except Failure PublicRequestView × Option JsString
  | .error error => (.error error, none)
  | .ok unlocked => (.ok unlocked.view,
      some (jwt.signAsync ⟨unlocked.linkId, unlocked.view.requestId⟩ signedAt))

def sessionRoute (plan : Plan) (db : Database) (fails : Bool)
    (access : Except Failure ClientSession) : Except Failure PublicRequestView :=
  match access with
  | .error error => .error error
  | .ok session => viewOf plan db fails session.requestId session.expiresAt

/-! ## Refusals -/

section
variable {svc : Service} {links : PublicLinks.State} {plan : Plan} {db : Database} {token : Token}
  {pin : JsString} {now : Int} {work work' : Work} {error : Failure}

theorem verified_unlockResolved (svc : Service) (fails : Option Query) (plan : Plan) (db : Database)
    (resolution : LinkResolution) (pin : JsString) (work : Work) :
    (unlockResolved svc fails plan db resolution pin work).2.verified =
      work.verified ++ [(svc.hashFor resolution, pin)] := by
  simp only [unlockResolved, Service.verifySecret]
  split
  · split <;> rfl
  · rfl

end

/-- One call of the unlock route, with what it finds. -/
structure Attempt where
  links : PublicLinks.State
  plan : Plan
  db : Database
  token : Token
  pin : JsString
  now : Int

/-- The attempt on an idle service: what it answers, and the work it took. -/
def Attempt.run (svc : Service) (a : Attempt) : Except Failure UnlockResult × Work :=
  unlock svc none a.links a.plan a.db a.token a.pin a.now ⟨[], [], 0⟩

theorem hashFor_hashed {svc : Service} {links : PublicLinks.State} {token : Token} {now : Int}
    {resolution : LinkResolution} (h : ∀ link ∈ links.links, Hashed svc.toConfig link.pinHash)
    (hres : PublicLinks.resolve svc.toConfig links token now = some resolution) :
    Hashed svc.toConfig (svc.hashFor resolution) := by
  obtain ⟨random, salt, -, hdecoy⟩ := svc.decoyHash_made
  have hdecoy : Hashed svc.toConfig svc.decoyHash := ⟨_, salt, hdecoy⟩
  unfold PublicLinks.resolve at hres
  split at hres
  · cases hres; exact hdecoy
  · next link hl =>
    split at hres
    · cases hres; exact hdecoy
    · split at hres
      · cases hres; exact hdecoy
      · obtain ⟨request, -, rfl⟩ := Option.map_eq_some_iff.1 hres
        exact h link (List.mem_of_find?_eq_some hl)

/-- Whatever the link, the code is checked against a hash `hashSecret` made. -/
theorem Attempt.verifies_hashed {svc : Service} {a : Attempt}
    (h : ∀ link ∈ a.links.links, Hashed svc.toConfig link.pinHash) {check : JsString × JsString}
    (hc : check ∈ (a.run svc).2.verified) : Hashed svc.toConfig check.1 := by
  unfold Attempt.run unlock at hc
  split at hc
  · cases hc
  · cases hc
  · next resolution _ hres =>
    have hhash := hashFor_hashed h hres
    rw [verified_unlockResolved] at hc
    obtain rfl : check = (svc.hashFor resolution, a.pin) := by
      split at hc <;> simpa [Work.recordExpiredLinkHit] using hc
    exact hhash

def desk : Service where
  hashPublicToken token := js "sha256:" ++ token
  hashSecret pin _ := js "argon2:" ++ pin
  PUBLIC_BASE_URL := js "https://portail.example/"
  argon2Verify hash value := some (hash == js "argon2:" ++ value)
  decoyHash := js "argon2:" ++ Deposits.hex (List.replicate 32 0xdc)
  decoyHash_made := ⟨List.replicate 32 0xdc, [], rfl, rfl⟩

/-- A session that shows when it was signed, in seconds, and for which link. -/
def dated : Jwt where
  signAsync payload iat :=
    (if 0 ≤ iat / 1000 then 1 else 2) :: List.replicate (iat / 1000).natAbs 1 ++ 0 :: payload.linkId
  verifyAsync token now :=
    let seconds : Nat := (token.tail.takeWhile (· == 1)).length
    let iat : Int := if token.head? = some 1 then seconds else -seconds
    if now / 1000 < iat + CLIENT_SESSION_TTL_MS / 1000 then
      some ⟨.string (js "client"), .string (token.tail.drop (seconds + 1))⟩
    else none

theorem signs_dated : Signs dated where
  nonempty _ _ := List.cons_ne_nil _ _
  verifies payload iat now := by
    have htake : ∀ n : Nat, (List.replicate n (1 : UInt16) ++ 0 :: payload.linkId).takeWhile (· == 1) =
        List.replicate n 1 := by
      intro n
      induction n with
      | zero => rfl
      | succ n ih => simp [List.replicate_succ, ih]
    have hdrop : ∀ n : Nat, (List.replicate n (1 : UInt16) ++ 0 :: payload.linkId).drop (n + 1) =
        payload.linkId := by
      intro n
      rw [List.drop_append]
      simp
    have hiat : (if (if 0 ≤ iat / 1000 then (1 : UInt16) else 2) = 1 then ((iat / 1000).natAbs : Int)
        else -(iat / 1000).natAbs) = iat / 1000 := by
      by_cases h : 0 ≤ iat / 1000
      · rw [if_pos h, if_pos rfl, Int.natAbs_of_nonneg h]
      · rw [if_neg h, if_neg (by decide)]
        omega
    simp only [dated, List.cons_append, List.tail_cons, htake, List.length_replicate, hdrop,
      List.head?_cons, Option.some.injEq, ClientSessionPayload.claims, hiat]

end DepositPortal.Public
