import DepositPortal.Portal.Outline

/-!
# The calls of a lawyer, one after the other

The six calls of the dashboard as functions of what is committed, nobody else writing in between.

| here | there |
| --- | --- |
| `createRequest`, `create` | the nested write (requests/requests.service.ts:95), `create` (`:72`) |
| `ownedRequestId`          | `ownedRequestId` (requests/public-links.service.ts:97) |
| `revokeLinks`             | `updateMany` (`:142`, `:188`) |
| `createLink`, `regenerate` | `create` (`:146`), `regenerate` (`:121`) |
| `revoke`                  | `revoke` (`:185`) |

`list`, `findOne` and `streamFile` only read (`Requests.Reads`). A write that meets a row with one of its
unique entries fails as a whole.
-/
namespace DepositPortal.Portal
open ReadCommitted
open Requests (RequestedItem Plan Database CreatedRequestView RequestPageView RequestDetailView
  DownloadableFile ListRequestsDto)
open PublicLinks (DepositRequest PublicLink IssuedLink Args MILLISECONDS_PER_DAY keys isActive failureOf
  generatePublicToken generatePin buildDepositUrl)
open Deposits (Bytes RequestId ItemId StorageKey)

/-- What a call is given: the orders of its queries, the draws and the clock before `hashSecret`, those
after it, and those of its write. -/
structure Env where
  plan : Plan
  draw : Choice
  hash : Choice
  write : Choice

/-! ## The tables -/

def ownedRequestId (db : Database) (requestId : RequestId) (lawyerId : LawyerId) : Option RequestId :=
  (db.depositRequest.find? fun r => r.id == requestId && r.lawyerId == lawyerId).map (·.id)

def revokeLinks (db : Database) (requestId : RequestId) (now : Int) : Database :=
  { db with publicLink := db.publicLink.map fun link =>
      if isActive requestId link then link.revoke now else link }

/-- `none`: the row collides in a unique index (P2002). -/
def createLink (db : Database) (link : PublicLink) : Option Database :=
  if db.publicLink.any (clash keys link) then none
  else some { db with publicLink := db.publicLink ++ [link] }

/-- The same for a request with its items and its link. -/
def createRequest (db : Database) (request : DepositRequest) (items : List RequestedItem)
    (link : PublicLink) : Option Database :=
  if db.publicLink.any (clash keys link) then none
  else if ((db.depositRequest ++ [request]).map DepositRequest.id).Nodup ∧
      ((db.requestedItem ++ items).map RequestedItem.id).Nodup then
    some ⟨db.depositRequest ++ [request], db.publicLink ++ [link], db.requestedItem ++ items,
      db.uploadedFile⟩
  else none

/-! ## The services -/

/-- What `create` has computed before its write. -/
def creationOf (cfg : Config) (env : Env) (lawyerId : LawyerId) (input : CreateRequestDto) : Creation where
  lawyerId := lawyerId
  input := input
  token := generatePublicToken env.draw.random
  pin := generatePin env.draw.pin
  pinHash := cfg.hashSecret (generatePin env.draw.pin) env.draw.salt
  now := env.draw.now
  expiresAt := env.draw.now + input.expiresInDays * MILLISECONDS_PER_DAY

def create (cfg : Config) (env : Env) (db : Database) (lawyerId : LawyerId) (input : CreateRequestDto) :
    Except Requests.Failure CreatedRequestView × Database :=
  let x := creationOf cfg env lawyerId input
  match createRequest db (x.request env.write) (x.items env.write) (x.link cfg env.write) with
  | none => (.error (.of (.thrown .uniqueViolation)), db)
  | some db' => (x.answer cfg (x.request env.write) (x.items env.write), db')

/-- The row of a regeneration. -/
def newLink (cfg : PublicLinks.Config) (env : Env) (ownedId : RequestId) (expiresInDays : Int) :
    PublicLink where
  id := env.write.uuid
  tokenHash := cfg.hashPublicToken (generatePublicToken env.draw.random)
  pinHash := cfg.hashSecret (generatePin env.draw.pin) env.hash.salt
  expiresAt := env.hash.now + expiresInDays * MILLISECONDS_PER_DAY
  createdAt := env.write.now
  revokedAt := none
  requestId := ownedId

/-- Its answer. -/
def issue (cfg : PublicLinks.Config) (env : Env) (expiresInDays : Int) :
    Except PublicLinks.Failure IssuedLink :=
  match buildDepositUrl cfg.PUBLIC_BASE_URL (generatePublicToken env.draw.random) with
  | none => .error .URIError
  | some url => .ok ⟨url, generatePin env.draw.pin,
      env.hash.now + expiresInDays * MILLISECONDS_PER_DAY⟩

def regenerate (cfg : PublicLinks.Config) (env : Env) (db : Database) (requestId : RequestId)
    (lawyerId : LawyerId) (expiresInDays : Int) : Except PublicLinks.Failure IssuedLink × Database :=
  match ownedRequestId db requestId lawyerId with
  | none => (.error PublicLinks.requestNotFound, db)
  | some ownedId =>
    match createLink (revokeLinks db ownedId env.hash.now) (newLink cfg env ownedId expiresInDays) with
    | none => (.error (failureOf (.regenerate requestId lawyerId expiresInDays) .uniqueViolation), db)
    | some db' => (issue cfg env expiresInDays, db')

def revoke (env : Env) (db : Database) (requestId : RequestId) (lawyerId : LawyerId) :
    Except PublicLinks.Failure Unit × Database :=
  match ownedRequestId db requestId lawyerId with
  | none => (.error PublicLinks.requestNotFound, db)
  | some ownedId => (.ok (), revokeLinks db ownedId env.draw.now)

/-! ## A sequence of calls -/

inductive Op where
  | create (input : CreateRequestDto)
  | list (query : ListRequestsDto)
  | findOne (requestId : RequestId)
  | streamFile (requestId : RequestId) (itemId : ItemId)
  | regenerate (requestId : RequestId) (expiresInDays : Int)
  | revoke (requestId : RequestId)
  deriving DecidableEq

inductive Answer where
  | created (answer : Except Requests.Failure CreatedRequestView)
  | page (answer : Except Requests.Failure RequestPageView)
  | detail (answer : Except Requests.Failure RequestDetailView)
  | file (answer : Except Requests.Failure DownloadableFile)
  | issued (answer : Except PublicLinks.Failure IssuedLink)
  | revoked (answer : Except PublicLinks.Failure Unit)

/-- A call of the lawyer; `getObjectStream` is the bucket. -/
def perform (cfg : Config) (getObjectStream : StorageKey → Except Requests.Failure Bytes)
    (lawyerId : LawyerId) (env : Env) (db : Database) : Op → Answer × Database
  | .create input => (create cfg env db lawyerId input).map .created id
  | .list query => (.page (Requests.list env.plan db lawyerId query env.draw.now), db)
  | .findOne requestId => (.detail (Requests.findOne env.plan db requestId lawyerId env.draw.now), db)
  | .streamFile requestId itemId =>
    (.file (Requests.streamFile getObjectStream db requestId itemId lawyerId), db)
  | .regenerate requestId days =>
    (regenerate cfg.toConfig env db requestId lawyerId days).map .issued id
  | .revoke requestId => (revoke env db requestId lawyerId).map .revoked id

/-- The answers, and what is left. -/
def performs (cfg : Config) (getObjectStream : StorageKey → Except Requests.Failure Bytes)
    (lawyerId : LawyerId) : List (Env × Op) → Database → List Answer × Database
  | [], db => ([], db)
  | (env, op) :: calls, db =>
    let first := perform cfg getObjectStream lawyerId env db op
    (performs cfg getObjectStream lawyerId calls first.2).map (first.1 :: ·) id

/-- The draws of a new link are taken by no row yet. -/
def FreshLink (cfg : Config) (env : Env) (db : Database) : Prop :=
  ∀ link ∈ db.publicLink, link.id ≠ env.write.uuid ∧
    link.tokenHash ≠ cfg.hashPublicToken (generatePublicToken env.draw.random)

/-- Neither are those of a new request. -/
def FreshRequest (env : Env) (db : Database) : Prop :=
  (∀ r ∈ db.depositRequest, r.id ≠ env.write.requestId) ∧ env.write.itemIds.Nodup ∧
    ∀ item ∈ db.requestedItem, item.id ∉ env.write.itemIds

def Fresh (cfg : Config) (env : Env) (db : Database) : Op → Prop
  | .create _ => FreshLink cfg env db ∧ FreshRequest env db
  | .regenerate _ _ => FreshLink cfg env db
  | _ => True

/-- Every call of the sequence draws what is fresh when it comes. -/
def AllFresh (cfg : Config) (getObjectStream : StorageKey → Except Requests.Failure Bytes)
    (lawyerId : LawyerId) : List (Env × Op) → Database → Prop
  | [], _ => True
  | (env, op) :: calls, db => Fresh cfg env db op ∧
    AllFresh cfg getObjectStream lawyerId calls (perform cfg getObjectStream lawyerId env db op).2

instance (cfg : Config) (env : Env) (db : Database) : Decidable (FreshLink cfg env db) :=
  inferInstanceAs (Decidable (∀ link ∈ db.publicLink, _ ∧ _))

instance (env : Env) (db : Database) : Decidable (FreshRequest env db) :=
  inferInstanceAs (Decidable ((∀ r ∈ db.depositRequest, _) ∧ _ ∧ ∀ item ∈ db.requestedItem, _))

instance (cfg : Config) (env : Env) (db : Database) (op : Op) : Decidable (Fresh cfg env db op) :=
  match op with
  | .create _ => inferInstanceAs (Decidable (_ ∧ _))
  | .regenerate _ _ => inferInstanceAs (Decidable (FreshLink cfg env db))
  | .list _ | .findOne _ | .streamFile _ _ | .revoke _ => isTrue trivial

instance decidableAllFresh (cfg : Config)
    (getObjectStream : StorageKey → Except Requests.Failure Bytes) (lawyerId : LawyerId) :
    (calls : List (Env × Op)) → (db : Database) →
      Decidable (AllFresh cfg getObjectStream lawyerId calls db)
  | [], _ => isTrue trivial
  | (env, op) :: calls, db =>
    have := decidableAllFresh cfg getObjectStream lawyerId calls
      (perform cfg getObjectStream lawyerId env db op).2
    inferInstanceAs (Decidable (_ ∧ _))

end DepositPortal.Portal
