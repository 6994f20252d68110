import DepositPortal.ReadCommitted
import DepositPortal.Requests.DepositUrl

/-!
# Public links: `PublicLinksService` (requests/public-links.service.ts)

| here | there |
| --- | --- |
| `PublicLink`, `keys`       | `model PublicLink` (`prisma/schema.prisma:104`) and its unique indexes, the partial one included (`migration.sql:105`) |
| `resolve`                  | `resolve` (`:51`) |
| `Call.start`               | `ownedRequestId` (`:97`) and the token and PIN drawn after it (`:128`) |
| `Call.hash`                | `hashSecret(pin)` (`:133`), then the clock and the start of `$transaction` (`:135-141`) |
| `Call.update`, `.updating` | `updateMany` (`:142`, `:188`): its start, then row after row |
| `Call.create`              | `create` (`:146`) |
| `Call.commit`              | the end of the transaction, and the answer (`:167`) |

The `updateMany` of `revoke` is a transaction of its own. A call of the database that fails, for
whatever reason, ends the transaction: the rollback and the error are one step. `xid` is not in the
table: it numbers the transactions.
-/
namespace DepositPortal.PublicLinks
open Interleave ReadCommitted
open Deposits (Bytes RequestId)

abbrev Token := JsString
abbrev TokenHash := JsString
abbrev LinkId := JsString
abbrev Xid := Nat

def MILLISECONDS_PER_DAY : Int := 24 * 60 * 60 * 1000

structure DepositRequest where
  id : RequestId
  title : JsString
  createdAt : Int
  lawyerId : LawyerId
  deriving DecidableEq, Repr

structure PublicLink where
  id : LinkId
  tokenHash : TokenHash
  pinHash : JsString
  expiresAt : Int
  createdAt : Int
  revokedAt : Option Int
  requestId : RequestId
  deriving DecidableEq, Repr

/-- `hashPublicToken` is SHA-256 (`crypto/secrets.ts:41`), `hashSecret` argon2id with its salt
(`:55`), and `PUBLIC_BASE_URL` is required at start-up. -/
structure Config where
  hashPublicToken : Token → TokenHash
  hashSecret : JsString → Bytes → JsString
  PUBLIC_BASE_URL : JsString

structure IssuedLink where
  url : JsString
  pin : JsString
  expiresAt : Int
  deriving DecidableEq, Repr

/-- How a call of the database fails. -/
inductive Fault where
  /-- Prisma's P2002. -/
  | uniqueViolation
  | other
  deriving DecidableEq, Repr

def isUniqueViolation (fault : Fault) : Bool := fault == .uniqueViolation

inductive Failure where
  | NotFoundException (message : JsString)
  | ConflictException (message : JsString)
  | URIError
  /-- The error of an awaited call, as it came. -/
  | thrown (fault : Fault)
  deriving DecidableEq, Repr

/-- `requestNotFound` (`requests/request-ownership.ts:11`). -/
def requestNotFound : Failure :=
  .NotFoundException (js "Cette demande de dépôt n'existe pas.")

structure State where
  depositRequest : List DepositRequest
  publicLink : Table Xid PublicLink
  /-- The number of the next transaction. -/
  xid : Xid

structure Choice where
  now : Int
  random : Bytes
  pin : Fin (10 ^ PIN_DIGITS)
  salt : Bytes
  uuid : LinkId
  fault : Option Fault

/-! ## The tables -/

/-- An entry of a unique index of `PublicLink`. -/
inductive Entry where
  | id (id : LinkId)
  | tokenHash (tokenHash : TokenHash)
  /-- `PublicLink_requestId_active_key`. -/
  | active (requestId : RequestId)
  deriving DecidableEq, Repr

def keys (link : PublicLink) : List Entry :=
  [.id link.id, .tokenHash link.tokenHash] ++
    if link.revokedAt.isNone then [.active link.requestId] else []

/-- `{ requestId, revokedAt: null }`. -/
def isActive (requestId : RequestId) (link : PublicLink) : Bool :=
  link.requestId == requestId && link.revokedAt.isNone

/-- `data: { revokedAt: now }`. -/
def PublicLink.revoke (now : Int) (link : PublicLink) : PublicLink :=
  { link with revokedAt := some now }

/-- The committed links. -/
def State.links (s : State) : List PublicLink := rows s.publicLink

/-- `findFirst({ where: { id: requestId, lawyerId } })`. -/
def State.ownedRequestId (s : State) (requestId : RequestId) (lawyerId : LawyerId) :
    Option RequestId :=
  (s.depositRequest.find? fun r => r.id == requestId && r.lawyerId == lawyerId).map (·.id)

/-! ## `resolve` -/

structure ResolvedLink where
  id : LinkId
  pinHash : JsString
  expiresAt : Int
  deriving DecidableEq, Repr

inductive LinkResolution where
  | ok (link : ResolvedLink) (request : DepositRequest)
  | unknown
  | revoked
  | expired
  deriving DecidableEq, Repr

/-- `isExpired` (`requests/request-status.ts:29`). -/
def isExpired (expiresAt now : Int) : Bool := now > expiresAt

/-- `none`: the link has no request, which the foreign key excludes. -/
def resolve (cfg : Config) (s : State) (token : Token) (now : Int) : Option LinkResolution :=
  match s.links.find? fun link => link.tokenHash == cfg.hashPublicToken token with
  | none => some .unknown
  | some link =>
    if link.revokedAt.isSome then some .revoked
    else if isExpired link.expiresAt now then some .expired
    else (s.depositRequest.find? fun r => r.id == link.requestId).map fun request =>
      .ok ⟨link.id, link.pinHash, link.expiresAt⟩ request

/-! ## `regenerate` and `revoke`, step by step -/

inductive Args where
  | regenerate (requestId : RequestId) (lawyerId : LawyerId) (expiresInDays : Int)
  | revoke (requestId : RequestId) (lawyerId : LawyerId)
  deriving DecidableEq, Repr

def Args.requestId : Args → RequestId
  | .regenerate requestId _ _ => requestId
  | .revoke requestId _ => requestId

def Args.lawyerId : Args → LawyerId
  | .regenerate _ lawyerId _ => lawyerId
  | .revoke _ lawyerId => lawyerId

/-- What `regenerate` has computed before its transaction. -/
structure NewLink where
  token : Token
  pin : JsString
  pinHash : JsString
  expiresAt : Int
  deriving DecidableEq, Repr

/-- A transaction on `PublicLink`; `link` is the one it creates, for `regenerate`. -/
structure Tx where
  args : Args
  ownedId : RequestId
  now : Int
  xid : Xid
  link : Option NewLink
  deriving DecidableEq, Repr

inductive Call where
  | start (args : Args)
  | hash (args : Args) (ownedId : RequestId) (expiresInDays : Int) (token : Token) (pin : JsString)
  | update (x : Tx)
  /-- `todo`: the rows the statement matched when it started and has not reached yet. -/
  | updating (x : Tx) (todo : List Nat)
  | create (x : Tx) (link : NewLink)
  | commit (x : Tx)
  | done (args : Args) (answer : Except Failure (Option IssuedLink))
  deriving DecidableEq

/-- `BEGIN`. -/
def State.begin (s : State) (args : Args) (ownedId : RequestId) (now : Int)
    (link : Option NewLink) : State × Call :=
  ({ s with xid := s.xid + 1 }, .update ⟨args, ownedId, now, s.xid, link⟩)

/-- The `catch` of `regenerate` (`:155`); `revoke` has none. -/
def failureOf (args : Args) (fault : Fault) : Failure :=
  match args with
  | .regenerate .. =>
    if isUniqueViolation fault then
      .ConflictException (js "Un autre lien vient d'être généré pour cette demande. Réessayez.")
    else .thrown fault
  | .revoke .. => .thrown fault

def State.abort (s : State) (x : Tx) (fault : Fault) : State × Call :=
  ({ s with publicLink := rollback x.xid s.publicLink },
    .done x.args (.error (failureOf x.args fault)))

/-- A statement of the transaction: it fails, or goes as `run` says. -/
def statement (k : Choice) (s : State) (x : Tx) (run : Option (State × Call)) :
    Option (State × Call) :=
  match k.fault with
  | some fault => some (s.abort x fault)
  | none => run

/-- The row `create` inserts. -/
def rowOf (cfg : Config) (k : Choice) (x : Tx) (link : NewLink) : PublicLink where
  id := k.uuid
  tokenHash := cfg.hashPublicToken link.token
  pinHash := link.pinHash
  expiresAt := link.expiresAt
  createdAt := k.now
  revokedAt := none
  requestId := x.ownedId

/-- What follows a committed transaction. -/
def answerOf (cfg : Config) (x : Tx) : Except Failure (Option IssuedLink) :=
  match x.link with
  | none => .ok none
  | some link =>
    match buildDepositUrl cfg.PUBLIC_BASE_URL link.token with
    | none => .error .URIError
    | some url => .ok (some ⟨url, link.pin, link.expiresAt⟩)

/-- After the request was found to be the caller's. -/
def afterOwned (k : Choice) (s : State) (args : Args) (ownedId : RequestId) :
    Option (State × Call) :=
  match args with
  | .regenerate _ _ expiresInDays =>
    if k.random.length = TOKEN_BYTES then
      some (s, .hash args ownedId expiresInDays (generatePublicToken k.random) (generatePin k.pin))
    else none
  | .revoke .. => some (s.begin args ownedId k.now none)

def exec (cfg : Config) (k : Choice) (s : State) : Call → Option (State × Call)
  | .start args =>
    match k.fault, s.ownedRequestId args.requestId args.lawyerId with
    | some fault, _ => some (s, .done args (.error (.thrown fault)))
    | none, none => some (s, .done args (.error requestNotFound))
    | none, some ownedId => afterOwned k s args ownedId
  | .hash args ownedId expiresInDays token pin =>
    match k.fault with
    | some fault => some (s, .done args (.error (.thrown fault)))
    | none => some (s.begin args ownedId k.now (some
        ⟨token, pin, cfg.hashSecret pin k.salt, k.now + expiresInDays * MILLISECONDS_PER_DAY⟩))
  | .update x => statement k s x <|
    some (s, .updating x (candidates (isActive x.ownedId) x.xid s.publicLink))
  | .updating x (row :: todo) => statement k s x <|
    (updateRow (isActive x.ownedId) (PublicLink.revoke x.now) x.xid s.publicLink row).map fun T =>
      ({ s with publicLink := T }, .updating x todo)
  | .updating x [] => statement k s x <|
    match x.link with
    | none => some (s, .commit x)
    | some link => some (s, .create x link)
  | .create x link => statement k s x <|
    match insert keys x.xid (rowOf cfg k x link) s.publicLink with
    | .wait => none
    | .violation => some (s.abort x .uniqueViolation)
    | .ok T => some ({ s with publicLink := T }, .commit x)
  | .commit x => statement k s x <|
    some ({ s with publicLink := commit x.xid s.publicLink }, .done x.args (answerOf cfg x))
  | .done _ _ => none

def enters : Call → Bool
  | .start _ => true
  | _ => false

/-- Any number of regenerations and revocations, on any requests. -/
def machine (cfg : Config) : Machine State Call Choice := ⟨enters, exec cfg⟩

/-! ## What one step does -/

/-- The open transaction of a call. -/
def Call.tx : Call → Option Tx
  | .update x | .updating x _ | .create x _ | .commit x => some x
  | _ => none

/-- Every step a call can make. -/
inductive Step (cfg : Config) (k : Choice) (s : State) : Call → State → Call → Prop
  | refused (args : Args) (failure : Failure) :
      Step cfg k s (.start args) s (.done args (.error failure))
  | drawn (ownedId : RequestId) (requestId : RequestId) (lawyerId : LawyerId) (days : Int) :
      s.ownedRequestId requestId lawyerId = some ownedId →
      Step cfg k s (.start (.regenerate requestId lawyerId days)) s
        (.hash (.regenerate requestId lawyerId days) ownedId days (generatePublicToken k.random)
          (generatePin k.pin))
  | beganRevoke (ownedId : RequestId) (requestId : RequestId) (lawyerId : LawyerId) :
      s.ownedRequestId requestId lawyerId = some ownedId →
      Step cfg k s (.start (.revoke requestId lawyerId))
        (s.begin (.revoke requestId lawyerId) ownedId k.now none).1
        (s.begin (.revoke requestId lawyerId) ownedId k.now none).2
  | hashFailed (args : Args) (ownedId : RequestId) (days : Int) (token : Token) (pin : JsString)
      (failure : Failure) :
      Step cfg k s (.hash args ownedId days token pin) s (.done args (.error failure))
  | began (args : Args) (ownedId : RequestId) (days : Int) (token : Token) (pin : JsString)
      (link : NewLink) :
      link = ⟨token, pin, cfg.hashSecret pin k.salt, k.now + days * MILLISECONDS_PER_DAY⟩ →
      Step cfg k s (.hash args ownedId days token pin)
        (s.begin args ownedId k.now (some link)).1 (s.begin args ownedId k.now (some link)).2
  | aborted (f : Call) (x : Tx) (fault : Fault) : f.tx = some x →
      Step cfg k s f (s.abort x fault).1 (s.abort x fault).2
  | matched (x : Tx) (todo : List Nat) : Step cfg k s (.update x) s (.updating x todo)
  | wrote (x : Tx) (row : Nat) (todo : List Nat) (T : Table Xid PublicLink) :
      updateRow (isActive x.ownedId) (PublicLink.revoke x.now) x.xid s.publicLink row = some T →
      Step cfg k s (.updating x (row :: todo)) { s with publicLink := T } (.updating x todo)
  | revoked (x : Tx) : x.link = none → Step cfg k s (.updating x []) s (.commit x)
  | replaced (x : Tx) (link : NewLink) : x.link = some link →
      Step cfg k s (.updating x []) s (.create x link)
  | inserted (x : Tx) (link : NewLink) (T : Table Xid PublicLink) :
      insert keys x.xid (rowOf cfg k x link) s.publicLink = .ok T →
      Step cfg k s (.create x link) { s with publicLink := T } (.commit x)
  | committed (x : Tx) :
      Step cfg k s (.commit x) { s with publicLink := commit x.xid s.publicLink }
        (.done x.args (answerOf cfg x))

variable {cfg : Config} {k : Choice} {s s' : State} {f f' : Call}

theorem statement_cases {x : Tx} {run : Option (State × Call)}
    (h : statement k s x run = some (s', f')) :
    (∃ fault, (s', f') = s.abort x fault) ∨ run = some (s', f') := by
  unfold statement at h
  split at h
  · next fault _ => exact .inl ⟨fault, (Option.some.inj h).symm⟩
  · exact .inr h

/-- `exec`, inverted. -/
theorem step_of_exec (he : exec cfg k s f = some (s', f')) : Step cfg k s f s' f' := by
  have hab : ∀ (x : Tx) (fault : Fault), f.tx = some x → (s', f') = s.abort x fault →
      Step cfg k s f s' f' := by
    rintro x fault hx e
    have hs : Step cfg k s f _ _ := .aborted f x fault hx
    rwa [← e] at hs
  cases f with
  | start args =>
    simp only [exec] at he
    split at he
    · cases he; exact .refused args _
    · cases he; exact .refused args _
    · next ownedId _ howned =>
      cases args with
      | regenerate requestId lawyerId days =>
        simp only [afterOwned, Option.ite_none_right_eq_some, Option.some.injEq,
          Prod.mk.injEq] at he
        obtain ⟨-, rfl, rfl⟩ := he
        exact .drawn ownedId requestId lawyerId days howned
      | revoke requestId lawyerId => cases he; exact .beganRevoke ownedId requestId lawyerId howned
  | hash args ownedId days token pin =>
    simp only [exec] at he
    split at he
    · cases he; exact .hashFailed args ownedId days token pin _
    · cases he; exact .began args ownedId days token pin _ rfl
  | update x =>
    obtain ⟨fault, e⟩ | e := statement_cases he
    · exact hab x fault rfl e
    · cases e; exact .matched x _
  | updating x todo =>
    cases todo with
    | nil =>
      obtain ⟨fault, e⟩ | e := statement_cases he
      · exact hab x fault rfl e
      · split at e
        · next hl => cases e; exact .revoked x hl
        · next link hl => cases e; exact .replaced x link hl
    | cons row todo =>
      obtain ⟨fault, e⟩ | e := statement_cases he
      · exact hab x fault rfl e
      · obtain ⟨T, hT, e⟩ := Option.map_eq_some_iff.1 e
        cases e; exact .wrote x row todo T hT
  | create x link =>
    obtain ⟨fault, e⟩ | e := statement_cases he
    · exact hab x fault rfl e
    · split at e
      · cases e
      · exact hab x .uniqueViolation rfl (Option.some.inj e).symm
      · next T hT => cases e; exact .inserted x link T hT
  | commit x =>
    obtain ⟨fault, e⟩ | e := statement_cases he
    · exact hab x fault rfl e
    · cases e; exact .committed x
  | done args answer => cases he

end DepositPortal.PublicLinks
