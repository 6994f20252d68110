import DepositPortal.Portal.State

/-!
# Creating a request: `RequestsService.create` (requests/requests.service.ts:72)

| here | there |
| --- | --- |
| `Create.start`  | the token, the PIN and `hashSecret(pin)` (`:76-82`), then the clock (`:87`) |
| `Create.insert` | the inserts of the nested write (`:95`), with the link as a row the others may wait for |
| `Create.commit` | the end of its transaction, and the answer (`:114`) |

A request that is being created is seen by nobody, so its row and those of its items are added when
the transaction commits, where their primary keys are checked.
-/
namespace DepositPortal.Portal
open ReadCommitted
open Query (orderBy)
open Requests (RequestedItem CreatedRequestView toCreatedRequest positionAsc)
open PublicLinks (DepositRequest PublicLink Token Xid Fault MILLISECONDS_PER_DAY TOKEN_BYTES keys
  generatePublicToken generatePin buildDepositUrl)

structure CreateRequestDto where
  title : JsString
  items : List JsString
  expiresInDays : Int
  deriving DecidableEq, Repr

/-- What `create` has computed before the write. -/
structure Creation where
  lawyerId : LawyerId
  input : CreateRequestDto
  token : Token
  pin : JsString
  pinHash : JsString
  now : Int
  expiresAt : Int
  deriving DecidableEq, Repr

inductive Create where
  | start (lawyerId : LawyerId) (input : CreateRequestDto)
  | insert (x : Creation)
  | commit (x : Creation) (xid : Xid) (request : DepositRequest) (items : List RequestedItem)
  | done (lawyerId : LawyerId) (answer : Except Requests.Failure CreatedRequestView)

/-- The link row of the nested write. -/
def Creation.link (cfg : Config) (k : Choice) (x : Creation) : PublicLink where
  id := k.uuid
  tokenHash := cfg.hashPublicToken x.token
  pinHash := x.pinHash
  expiresAt := x.expiresAt
  createdAt := k.now
  revokedAt := none
  requestId := k.requestId

def Creation.request (k : Choice) (x : Creation) : DepositRequest :=
  ⟨k.requestId, x.input.title, k.now, x.lawyerId⟩

def Creation.items (k : Choice) (x : Creation) : List RequestedItem :=
  itemRows k.requestId k.itemIds x.input.items.zipIdx

def thrown (lawyerId : LawyerId) (fault : Fault) : Create :=
  .done lawyerId (.error (.of (.thrown fault)))

/-- The answer of `create` (`:114`). -/
def Creation.answer (cfg : Config) (x : Creation) (request : DepositRequest)
    (items : List RequestedItem) : Except Requests.Failure CreatedRequestView :=
  match buildDepositUrl cfg.PUBLIC_BASE_URL x.token with
  | none => .error (.of .URIError)
  | some url => .ok (toCreatedRequest request (orderBy positionAsc items)
      ⟨url, x.pin, x.expiresAt⟩ x.now)

def State.rollback (s : State) (xid : Xid) : State :=
  { s with links := { s.links with publicLink := ReadCommitted.rollback xid s.links.publicLink } }

/-- The committed nested write. -/
def State.publish (s : State) (xid : Xid) (request : DepositRequest)
    (items : List RequestedItem) : State :=
  { s.add [request] items with
    links := { (s.add [request] items).links with
      publicLink := ReadCommitted.commit xid s.links.publicLink } }

def Create.exec (cfg : Config) (k : Choice) (s : State) : Create → Option (State × Create)
  | .start lawyerId input =>
    match k.fault with
    | some fault => some (s, thrown lawyerId fault)
    | none =>
      if k.random.length = TOKEN_BYTES then
        some (s, .insert ⟨lawyerId, input, generatePublicToken k.random, generatePin k.pin,
          cfg.hashSecret (generatePin k.pin) k.salt, k.now,
          k.now + input.expiresInDays * MILLISECONDS_PER_DAY⟩)
      else none
  | .insert x =>
    match k.fault with
    | some fault => some (s, thrown x.lawyerId fault)
    | none =>
      if k.itemIds.length = x.input.items.length then
        match ReadCommitted.insert keys s.links.xid (x.link cfg k) s.links.publicLink with
        | .wait => none
        | .violation => some (s, thrown x.lawyerId .uniqueViolation)
        | .ok T => some ({ s with links := { s.links with publicLink := T, xid := s.links.xid + 1 } },
            .commit x s.links.xid (x.request k) (x.items k))
      else none
  | .commit x xid request items =>
    match k.fault with
    | some fault => some (s.rollback xid, thrown x.lawyerId fault)
    | none =>
      if PrimaryKeys s [request] items then
        some (s.publish xid request items, .done x.lawyerId (x.answer cfg request items))
      else some (s.rollback xid, thrown x.lawyerId .uniqueViolation)
  | .done _ _ => none

/-! ## What one step does -/

inductive Create.Step (cfg : Config) (k : Choice) (s : State) : Create → State → Create → Prop
  | failed (f : Create) (lawyerId : LawyerId) (fault : Fault) :
      (∀ x xid request items, f ≠ .commit x xid request items) →
      Step cfg k s f s (thrown lawyerId fault)
  | drawn (lawyerId : LawyerId) (input : CreateRequestDto) (x : Creation) :
      x = ⟨lawyerId, input, generatePublicToken k.random, generatePin k.pin,
        cfg.hashSecret (generatePin k.pin) k.salt, k.now,
        k.now + input.expiresInDays * MILLISECONDS_PER_DAY⟩ →
      Step cfg k s (.start lawyerId input) s (.insert x)
  | inserted (x : Creation) (T : Table Xid PublicLink) :
      ReadCommitted.insert keys s.links.xid (x.link cfg k) s.links.publicLink = .ok T →
      Step cfg k s (.insert x)
        { s with links := { s.links with publicLink := T, xid := s.links.xid + 1 } }
        (.commit x s.links.xid (x.request k) (x.items k))
  | aborted (x : Creation) (xid : Xid) (request : DepositRequest) (items : List RequestedItem)
      (fault : Fault) :
      Step cfg k s (.commit x xid request items) (s.rollback xid) (thrown x.lawyerId fault)
  | created (x : Creation) (xid : Xid) (request : DepositRequest) (items : List RequestedItem) :
      PrimaryKeys s [request] items →
      Step cfg k s (.commit x xid request items) (s.publish xid request items)
        (.done x.lawyerId (x.answer cfg request items))

theorem Create.step_of_exec {cfg : Config} {k : Choice} {s s' : State} {f f' : Create}
    (he : f.exec cfg k s = some (s', f')) : Create.Step cfg k s f s' f' := by
  cases f with
  | start lawyerId input =>
    simp only [Create.exec] at he
    split at he
    · cases he; exact .failed _ _ _ fun _ _ _ _ => Create.noConfusion
    · obtain ⟨-, he⟩ := Option.ite_none_right_eq_some.1 he
      cases he; exact .drawn lawyerId input _ rfl
  | insert x =>
    simp only [Create.exec] at he
    split at he
    · cases he; exact .failed _ _ _ fun _ _ _ _ => Create.noConfusion
    · obtain ⟨-, he⟩ := Option.ite_none_right_eq_some.1 he
      split at he
      · cases he
      · cases he; exact .failed _ _ _ fun _ _ _ _ => Create.noConfusion
      · next T hT => cases he; exact .inserted x T hT
  | commit x xid request items =>
    simp only [Create.exec] at he
    split at he
    · cases he; exact .aborted x xid request items _
    · split at he
      · next hkeys => cases he; exact .created x xid request items hkeys
      · cases he; exact .aborted x xid request items _
  | done lawyerId answer => cases he

end DepositPortal.Portal
