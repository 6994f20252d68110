import DepositPortal.Basic
import DepositPortal.Interleave

/-!
# Refresh tokens: `RefreshTokenService` (auth/refresh-token.service.ts)

The table `RefreshToken` and the four operations of the service.

| here | there |
| --- | --- |
| `Row`                 | `model RefreshToken` (`prisma/schema.prisma:60`), without its surrogate `id` |
| `Server.findUnique`   | `findUnique({ where: { tokenHash } })` (`:64`, `:127`) |
| `Server.claim`        | `updateMany({ where: { tokenHash, revokedAt: null } })` (`:97`) |
| `Server.revokeFamily` | `updateMany({ where: { familyId, revokedAt: null } })` (`:178`) |
| `Server.append`       | `append` (`:159`): `expiresAt` is passed in, `idleExpiresAt` recomputed |
| `Server.purgeExpired` | `deleteMany({ where: { lawyerId, expiresAt: { lt: new Date() } } })` (`:141`) |
| `rotate`              | `rotate` (`:62-123`) as one sequential call, any one of whose statements may fail |
| `Call`, `exec`        | the same operations cut at every statement: each `Call` is an `await` point |

A statement and the synchronous code that builds its arguments are one step, `$transaction` is one
step. `log` is not in the database: it records what the statements did, so that a deleted row can
still be spoken of.
-/
namespace DepositPortal.RefreshToken
open Interleave

abbrev Token := JsString
abbrev TokenHash := JsString
abbrev FamilyId := JsString

/-- `RACE_WINDOW_MS` (`:28`). -/
def RACE_WINDOW_MS : Int := 30000

/-- What the service is built from: `hashPublicToken` (`crypto/secrets.ts`, SHA-256, taken to be
injective) and the two configured durations in milliseconds. -/
structure Config where
  hashPublicToken : Token → TokenHash
  hash_inj : Function.Injective hashPublicToken
  SESSION_EXPIRES : Int
  SESSION_IDLE_EXPIRES : Int

structure Row where
  tokenHash : TokenHash
  familyId : FamilyId
  expiresAt : Int
  idleExpiresAt : Int
  revokedAt : Option Int
  createdAt : Int
  lawyerId : LawyerId
  deriving DecidableEq, Repr

inductive RefreshRejection where
  | unknown | expired | reused | raced
  deriving DecidableEq, Repr

inductive RefreshOutcome where
  | rotated (token : Token) (lawyerId : LawyerId) (expiresAt : Int)
  | rejected (reason : RefreshRejection)
  deriving DecidableEq, Repr

structure IssuedToken where
  token : Token
  expiresAt : Int
  deriving DecidableEq, Repr

/-- What the statements did, oldest first. -/
inductive Event where
  /-- `issue` opened a family. -/
  | login (familyId : FamilyId) (lawyerId : LawyerId) (at' : Int)
  | inserted (row : Row)
  /-- `revokedAt` of a row was set, by whatever statement. -/
  | revoked (tokenHash : TokenHash) (at' : Int)
  /-- `revokeFamily` ran: a logout or a reuse detection. -/
  | closed (familyId : FamilyId)
  /-- `purgeExpired` removed a row of the family. -/
  | purged (familyId : FamilyId)
  deriving DecidableEq, Repr

structure Server where
  refreshToken : List Row
  log : List Event
  /-- The last reading of the clock. -/
  clock : Int
  deriving DecidableEq, Repr

/-- What a step reads from outside: the clock, and the values it may draw. -/
structure Choice where
  now : Int
  token : Token
  uuid : FamilyId
  deriving DecidableEq, Repr

/-! ## The statements -/

def Server.findUnique (s : Server) (tokenHash : TokenHash) : Option Row :=
  s.refreshToken.find? fun r => r.tokenHash == tokenHash

def Row.revokeIf (p : Row → Bool) (now : Int) (r : Row) : Row :=
  if p r then { r with revokedAt := some now } else r

/-- `updateMany({ where, data: { revokedAt: now } })`. -/
def Server.revokeWhere (s : Server) (p : Row → Bool) (now : Int) : Server :=
  { s with
    refreshToken := s.refreshToken.map (Row.revokeIf p now)
    log := s.log ++ (s.refreshToken.filter p).map fun r => .revoked r.tokenHash now }

def claimable (tokenHash : TokenHash) (r : Row) : Bool :=
  r.tokenHash == tokenHash && r.revokedAt.isNone

def inFamily (familyId : FamilyId) (r : Row) : Bool :=
  r.familyId == familyId && r.revokedAt.isNone

/-- The compare-and-set, with the number of rows it changed. -/
def Server.claim (s : Server) (tokenHash : TokenHash) (now : Int) : Nat × Server :=
  (s.refreshToken.countP (claimable tokenHash), s.revokeWhere (claimable tokenHash) now)

def Server.revokeFamily (s : Server) (familyId : FamilyId) (now : Int) : Server :=
  let s := s.revokeWhere (inFamily familyId) now
  { s with log := s.log ++ [.closed familyId] }

/-- The row `append` writes: the ceiling is copied, the idle deadline dated from now. -/
def appended (cfg : Config) (k : Choice) (lawyerId : LawyerId) (familyId : FamilyId)
    (expiresAt : Int) : Row where
  tokenHash := cfg.hashPublicToken k.token
  familyId := familyId
  expiresAt := expiresAt
  idleExpiresAt := k.now + cfg.SESSION_IDLE_EXPIRES
  revokedAt := none
  createdAt := k.now
  lawyerId := lawyerId

def Server.create (s : Server) (row : Row) : Server :=
  { s with refreshToken := s.refreshToken ++ [row], log := s.log ++ [.inserted row] }

def Server.append (cfg : Config) (k : Choice) (s : Server) (lawyerId : LawyerId)
    (familyId : FamilyId) (expiresAt : Int) : Server :=
  s.create (appended cfg k lawyerId familyId expiresAt)

def expiredBefore (lawyerId : LawyerId) (now : Int) (r : Row) : Bool :=
  r.lawyerId == lawyerId && decide (r.expiresAt < now)

def Server.purgeExpired (s : Server) (lawyerId : LawyerId) (now : Int) : Server :=
  { s with
    refreshToken := s.refreshToken.filter fun r => !expiredBefore lawyerId now r
    log := s.log ++ (s.refreshToken.filter (expiredBefore lawyerId now)).map fun r =>
      .purged r.familyId }

/-- `issue` (`:46`): a new family, both deadlines dated from now. -/
def Server.issue (cfg : Config) (k : Choice) (s : Server) (lawyerId : LawyerId) : Server :=
  let s := { s with log := s.log ++ [Event.login k.uuid lawyerId k.now] }
  s.append cfg k lawyerId k.uuid (k.now + cfg.SESSION_EXPIRES)

/-- `randomBytes` and `randomUUID` never repeat: a drawn token or family was not there before. -/
def Server.freshToken (cfg : Config) (s : Server) (token : Token) : Bool :=
  s.log.all fun
    | .inserted r => r.tokenHash != cfg.hashPublicToken token
    | _ => true

def Server.freshFamily (s : Server) (familyId : FamilyId) : Bool :=
  s.log.all fun
    | .login f _ _ => f != familyId
    | _ => true

/-! ## `rotate` as one sequential call -/

/-- The calls of a renewal that can fail. -/
inductive Callee where
  | findUnique | revokeFamily | claim | create | findById | signAsync
  deriving DecidableEq, Repr

/-- A sequential call: a failure keeps the state reached so far. -/
abbrev Service := ExceptT Callee (StateM Server)

/-- One outside call, which throws when it is the failing one and then changes nothing. -/
def call {α : Type} (fails : Option Callee) (c : Callee) (act : Server → α × Server) : Service α :=
  fun s => if fails = some c then (.error c, s) else
    let r := act s
    (.ok r.1, r.2)

/-- `$transaction`: a body that throws is rolled back. -/
def transaction {α : Type} (body : Service α) : Service α := fun s =>
  match body s with
  | (.ok a, s') => (.ok a, s')
  | (.error e, _) => (.error e, s)

/-- `rotate` (`:62`). `test` is read where the deadlines are tested, `write` where rows are
written. -/
def rotate (cfg : Config) (fails : Option Callee) (test write : Choice) (token : Token) :
    Service RefreshOutcome := do
  let tokenHash := cfg.hashPublicToken token
  match ← call fails .findUnique fun s => (s.findUnique tokenHash, s) with
  | none => return .rejected .unknown
  | some stored =>
    match stored.revokedAt with
    | some revokedAt =>
      if test.now - revokedAt < RACE_WINDOW_MS then
        return .rejected .raced
      else
        call fails .revokeFamily fun s => ((), s.revokeFamily stored.familyId write.now)
        return .rejected .reused
    | none =>
      if stored.expiresAt ≤ test.now ∨ stored.idleExpiresAt ≤ test.now then
        return .rejected .expired
      else
        let successor ← transaction do
          let claimed ← call fails .claim fun s => s.claim tokenHash write.now
          if claimed = 0 then
            return none
          else
            call fails .create fun s =>
              ((), s.append cfg write stored.lawyerId stored.familyId stored.expiresAt)
            return some write.token
        match successor with
        | none => return .rejected .raced
        | some token => return .rotated token stored.lawyerId stored.expiresAt

/-! ## The machine: the same operations, one statement at a time -/

/-- Where a call stands. -/
inductive Call where
  | issue (lawyerId : LawyerId)
  | issued (lawyerId : LawyerId) (answer : IssuedToken)
  | rotate (token : Token)
  /-- `findUnique` answered `stored`; the clock is not read yet (`:72-90`). -/
  | rotateTest (token : Token) (stored : Row)
  /-- About to revoke the family (`:78`). -/
  | rotateReuse (token : Token) (stored : Row)
  /-- Both deadlines were ahead at `now`; about to run the transaction (`:96`). -/
  | rotateClaim (token : Token) (stored : Row) (now : Int)
  | rotated (token : Token) (outcome : RefreshOutcome)
  | revokeFamilyOf (token : Token)
  | revokeFamilyFound (token : Token) (stored : Row)
  | revokedFamilyOf (token : Token)
  | purgeExpired (lawyerId : LawyerId)
  | purged (lawyerId : LawyerId)
  deriving DecidableEq, Repr

/-- The tests between `findUnique` and the next statement (`:72-90`). -/
def afterRead (token : Token) (stored : Row) (now : Int) : Call :=
  match stored.revokedAt with
  | some revokedAt =>
    if now - revokedAt < RACE_WINDOW_MS then .rotated token (.rejected .raced)
    else .rotateReuse token stored
  | none =>
    if stored.expiresAt ≤ now ∨ stored.idleExpiresAt ≤ now then .rotated token (.rejected .expired)
    else .rotateClaim token stored now

/-- The transaction of `rotate` and its answer (`:96-122`). -/
def claimAndAppend (cfg : Config) (k : Choice) (s : Server) (token : Token) (stored : Row) :
    Server × Call :=
  let claimed := s.claim (cfg.hashPublicToken token) k.now
  if claimed.1 = 0 then (s, .rotated token (.rejected .raced))
  else (claimed.2.append cfg k stored.lawyerId stored.familyId stored.expiresAt,
    .rotated token (.rotated k.token stored.lawyerId stored.expiresAt))

def Server.tick (s : Server) (k : Choice) : Server := { s with clock := k.now }

/-- One atomic step of a call. -/
def exec (cfg : Config) (k : Choice) (s : Server) : Call → Option (Server × Call)
  | .issue lawyerId =>
    if s.freshToken cfg k.token && s.freshFamily k.uuid then
      some ((s.issue cfg k lawyerId).tick k, .issued lawyerId ⟨k.token, k.now + cfg.SESSION_EXPIRES⟩)
    else none
  | .rotate token =>
    match s.findUnique (cfg.hashPublicToken token) with
    | none => some (s.tick k, .rotated token (.rejected .unknown))
    | some stored => some (s.tick k, .rotateTest token stored)
  | .rotateTest token stored => some (s.tick k, afterRead token stored k.now)
  | .rotateReuse token stored =>
    some ((s.revokeFamily stored.familyId k.now).tick k, .rotated token (.rejected .reused))
  | .rotateClaim token stored _ =>
    if s.freshToken cfg k.token then
      let r := claimAndAppend cfg k s token stored
      some (r.1.tick k, r.2)
    else none
  | .revokeFamilyOf token =>
    match s.findUnique (cfg.hashPublicToken token) with
    | none => some (s.tick k, .revokedFamilyOf token)
    | some stored => some (s.tick k, .revokeFamilyFound token stored)
  | .revokeFamilyFound token stored =>
    some ((s.revokeFamily stored.familyId k.now).tick k, .revokedFamilyOf token)
  | .purgeExpired lawyerId => some ((s.purgeExpired lawyerId k.now).tick k, .purged lawyerId)
  | .issued _ _ | .rotated _ _ | .revokedFamilyOf _ | .purged _ => none

/-- The four public operations. -/
def enters : Call → Bool
  | .issue _ | .rotate _ | .revokeFamilyOf _ | .purgeExpired _ => true
  | _ => false

/-- Any number of calls of the service, interleaved statement by statement. -/
def machine (cfg : Config) : Machine Server Call Choice := ⟨enters, exec cfg⟩

/-- An empty table and no call yet. -/
def start (clock : Int) : World Server Call := ⟨⟨[], [], clock⟩, []⟩

/-- The clock of a step does not go back. -/
def clockForward (w : World Server Call) : Act Call Choice → Prop
  | .call _ => True
  | .run _ k => w.shared.clock ≤ k.now

instance (w : World Server Call) (a : Act Call Choice) : Decidable (clockForward w a) :=
  match a with
  | .call _ => isTrue trivial
  | .run _ k => inferInstanceAs (Decidable (w.shared.clock ≤ k.now))

/-- Reached by some interleaving, whatever the clocks say. -/
def Reachable (cfg : Config) (w : World Server Call) : Prop :=
  ∃ clock, (machine cfg).Reaches (fun _ _ => True) (start clock) w

/-- Reached by some interleaving under a clock that never goes back. -/
def ReachableInTime (cfg : Config) (w : World Server Call) : Prop :=
  ∃ clock, (machine cfg).Reaches clockForward (start clock) w

theorem ReachableInTime.reachable {cfg : Config} {w : World Server Call}
    (h : ReachableInTime cfg w) : Reachable cfg w := by
  obtain ⟨c, h⟩ := h
  exact ⟨c, h.weaken fun _ _ _ => trivial⟩

end DepositPortal.RefreshToken
