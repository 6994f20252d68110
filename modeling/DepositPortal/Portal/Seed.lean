import DepositPortal.Portal.State

/-!
# The demonstration data: `seed` (seed.ts)

| here | there |
| --- | --- |
| `Seed.start`   | `hashSecret(password)` (`:58`); `SeedEnv` is what `requireConfig` and `normalizeEmail` return |
| `Seed.find`    | `findFirst` (`:61`), unordered: any matching row |
| `Seed.lawyer`  | `lawyer.upsert` or `lawyer.update` (`:69-82`) |
| `Seed.create`  | `depositRequest.create` (`:85`), of a request **without** a link |
| `Seed.missing` | `createMany` of the items that are missing (`:99-112`) |
| `Seed.realign` | the `updateMany` of each position (`:118`), all in flight at once |

Then `regenerate` (`:130-132`) issues the link, as a call of `PublicLinksService`; every one of these
writes commits on its own.
-/
namespace DepositPortal.Portal
open Requests (RequestedItem)
open RefreshToken (Lawyer)
open PublicLinks (DepositRequest Fault)
open Deposits (RequestId)

def DEMO_REQUEST_TITLE : JsString := js "Dossier Martin, pieces 2026"

def DEMO_ITEMS : List JsString :=
  [js "Piece d'identite", js "Contrat de bail signe", js "Trois dernieres quittances de loyer"]

def DEMO_LINK_DAYS : Int := 14

structure SeedEnv where
  email : JsString
  name : JsString
  password : JsString
  deriving DecidableEq, Repr

/-- A request with its items. -/
structure SeedRequest where
  request : DepositRequest
  items : List RequestedItem
  deriving DecidableEq, Repr

inductive Seed where
  | start (env : SeedEnv)
  | find (env : SeedEnv) (passwordHash : JsString)
  | lawyer (env : SeedEnv) (passwordHash : JsString) (existing : Option SeedRequest)
  | create (owner : Lawyer)
  | missing (owner : Lawyer) (demo : SeedRequest)
  /-- `todo`: the updates in flight; `failed`: one of them was rejected. -/
  | realign (owner : Lawyer) (requestId : RequestId) (todo : List (JsString × Nat)) (failed : Bool)
  | regenerate (owner : Lawyer) (requestId : RequestId)
  | stopped

/-- `lawyer.upsert({ where: { email }, … })`; `none`: the id drawn for a new account is taken. -/
def State.upsertLawyer (s : State) (uuid : JsString) (env : SeedEnv) (passwordHash : JsString) :
    Option (State × Lawyer) :=
  match s.lawyer.find? fun l => l.email == env.email with
  | some l =>
    let row := { l with name := env.name, passwordHash := passwordHash }
    some ({ s with lawyer := s.lawyer.map fun r => if r.email = env.email then row else r }, row)
  | none =>
    let row := ⟨uuid, env.name, env.email, passwordHash⟩
    if s.lawyer.any fun l => l.id == uuid then none
    else some ({ s with lawyer := s.lawyer ++ [row] }, row)

/-- `lawyer.update({ where: { id }, … })`; `none`: no such account, or the address is taken. -/
def State.updateLawyer (s : State) (id : LawyerId) (env : SeedEnv) (passwordHash : JsString) :
    Option (State × Lawyer) :=
  if s.lawyer.any fun l => l.id == id then
    if s.lawyer.any fun l => l.id != id && l.email == env.email then none
    else
      let row := ⟨id, env.name, env.email, passwordHash⟩
      some ({ s with lawyer := s.lawyer.map fun r => if r.id = id then row else r }, row)
  else none

/-- The labels that are missing, each with its place in `DEMO_ITEMS`. -/
def missingItems (demo : SeedRequest) : List (JsString × Nat) :=
  DEMO_ITEMS.zipIdx.filter fun entry => !(demo.items.map RequestedItem.label).contains entry.1

/-- `updateMany({ where: { requestId, label, position: { not: position } }, data: { position } })`. -/
def State.realign (s : State) (requestId : RequestId) (label : JsString) (position : Nat) : State :=
  { s with requestedItem := s.requestedItem.map fun item =>
      if item.requestId = requestId ∧ item.label = label ∧ item.position ≠ position then
        { item with position := position }
      else item }

/-- The rows of a step that adds some, or the failure of a primary key. -/
def addRows (k : Choice) (s : State) (request : List DepositRequest) (items : List RequestedItem)
    (labels : Nat) (next : Seed) : Option (State × Seed) :=
  if k.itemIds.length = labels then
    if PrimaryKeys s request items then some (s.add request items, next) else some (s, .stopped)
  else none

def Seed.exec (cfg : Config) (k : Choice) (s : State) (f : Seed) : Option (State × Seed) :=
  match k.fault, f with
  | none, .start env => some (s, .find env (cfg.hashSecret env.password k.salt))
  | none, .find env passwordHash =>
    let found := s.links.depositRequest.filter fun r => r.title == DEMO_REQUEST_TITLE
    match found[k.pick]? with
    | some r => some (s, .lawyer env passwordHash
        (some ⟨r, s.requestedItem.filter fun item => item.requestId == r.id⟩))
    | none => if found = [] then some (s, .lawyer env passwordHash none) else none
  | none, .lawyer env passwordHash none =>
    match s.upsertLawyer k.uuid env passwordHash with
    | none => some (s, .stopped)
    | some (s', owner) => some (s', .create owner)
  | none, .lawyer env passwordHash (some demo) =>
    match s.updateLawyer demo.request.lawyerId env passwordHash with
    | none => some (s, .stopped)
    | some (s', owner) => some (s', .missing owner demo)
  | none, .create owner =>
    let request := ⟨k.requestId, DEMO_REQUEST_TITLE, k.now, owner.id⟩
    let items := itemRows k.requestId k.itemIds DEMO_ITEMS.zipIdx
    addRows k s [request] items DEMO_ITEMS.length (.missing owner ⟨request, items⟩)
  | none, .missing owner demo =>
    let labels := missingItems demo
    addRows k s [] (itemRows demo.request.id k.itemIds labels) labels.length
      (.realign owner demo.request.id DEMO_ITEMS.zipIdx false)
  | fault, .realign owner requestId todo failed =>
    match todo, todo[k.pick]? with
    | [], _ => some (s, if failed then .stopped else .regenerate owner requestId)
    | _ :: _, none => none
    | _ :: _, some (label, position) =>
      let rest := todo.eraseIdx k.pick
      match fault with
      | some _ => some (s, .realign owner requestId rest true)
      | none => some (s.realign requestId label position, .realign owner requestId rest failed)
  | _, .regenerate _ _ => none
  | _, .stopped => none
  | some _, _ => some (s, .stopped)

/-! ## What one step does -/

/-- The request the call works on. -/
def Seed.demo : Seed → Option RequestId
  | .lawyer _ _ existing => existing.map fun demo => demo.request.id
  | .missing _ demo => some demo.request.id
  | .realign _ requestId _ _ | .regenerate _ requestId => some requestId
  | .start _ | .find _ _ | .create _ | .stopped => none

/-- A call only takes up a request that is in the table. -/
def Known (s : State) (f f' : Seed) : Prop := ∀ requestId, f'.demo = some requestId →
  f.demo = some requestId ∨ ∃ r ∈ s.links.depositRequest, r.id = requestId

inductive Seed.Step (s : State) : Seed → State → Seed → Prop
  | read (f f' : Seed) : Known s f f' → Step s f s f'
  | account (f f' : Seed) (lawyer : List Lawyer) : Known s f f' →
      Step s f { s with lawyer := lawyer } f'
  | realigned (f f' : Seed) (requestId : RequestId) (label : JsString) (position : Nat) :
      Known s f f' → Step s f (s.realign requestId label position) f'
  | created (owner : Lawyer) (request : DepositRequest) (items : List RequestedItem) :
      PrimaryKeys s [request] items → (∀ item ∈ items, item.requestId = request.id) →
      Step s (.create owner) (s.add [request] items) (.missing owner ⟨request, items⟩)
  | repaired (owner : Lawyer) (demo : SeedRequest) (items : List RequestedItem) :
      PrimaryKeys s [] items → (∀ item ∈ items, item.requestId = demo.request.id) →
      Step s (.missing owner demo) (s.add [] items)
        (.realign owner demo.request.id DEMO_ITEMS.zipIdx false)

variable {s s' : State} {f f' : Seed}

theorem Known.of_none (h : f'.demo = none) : Known s f f' := fun _ e => by rw [h] at e; cases e

theorem Known.same (h : f'.demo = f.demo) : Known s f f' := fun _ e => .inl (h ▸ e)

theorem upsertLawyer_cases {uuid : JsString} {env : SeedEnv} {passwordHash : JsString}
    {owner : Lawyer} (h : s.upsertLawyer uuid env passwordHash = some (s', owner)) :
    ∃ lawyer, s' = { s with lawyer := lawyer } := by
  unfold State.upsertLawyer at h
  split at h
  · cases h; exact ⟨_, rfl⟩
  · obtain ⟨-, h⟩ := Option.ite_none_left_eq_some.1 h
    cases h; exact ⟨_, rfl⟩

theorem updateLawyer_cases {id : LawyerId} {env : SeedEnv} {passwordHash : JsString}
    {owner : Lawyer} (h : s.updateLawyer id env passwordHash = some (s', owner)) :
    ∃ lawyer, s' = { s with lawyer := lawyer } := by
  unfold State.updateLawyer at h
  obtain ⟨-, h⟩ := Option.ite_none_right_eq_some.1 h
  obtain ⟨-, h⟩ := Option.ite_none_left_eq_some.1 h
  cases h; exact ⟨_, rfl⟩

theorem addRows_cases {k : Choice} {request : List DepositRequest} {items : List RequestedItem}
    {labels : Nat} {next : Seed} (h : addRows k s request items labels next = some (s', f')) :
    (PrimaryKeys s request items ∧ s' = s.add request items ∧ f' = next) ∨
      (s' = s ∧ f' = .stopped) := by
  unfold addRows at h
  obtain ⟨-, h⟩ := Option.ite_none_right_eq_some.1 h
  split at h
  · next hkeys => cases h; exact .inl ⟨hkeys, rfl, rfl⟩
  · cases h; exact .inr ⟨rfl, rfl⟩

/-- A call of the database that fails ends the run, or is one of the updates of `realign`. -/
theorem Seed.exec_failed {cfg : Config} {k : Choice} {fault : PublicLinks.Fault} (hk : k.fault = some fault)
    (he : f.exec cfg k s = some (s', f')) : s' = s ∧ (f' = .stopped ∨
      ∃ owner requestId todo failed, f = .realign owner requestId todo failed ∧
        (f' = .regenerate owner requestId ∨
          ∃ rest, rest ⊆ todo ∧ f' = .realign owner requestId rest true)) := by
  cases f with
  | realign owner requestId todo failed =>
    cases todo with
    | nil =>
      simp only [Seed.exec, hk] at he
      cases he
      cases failed with
      | false => exact ⟨rfl, .inr ⟨owner, requestId, [], false, rfl, .inl rfl⟩⟩
      | true => exact ⟨rfl, .inl rfl⟩
    | cons e todo =>
      cases hp : (e :: todo)[k.pick]? with
      | none => simp only [Seed.exec, hk, hp] at he; cases he
      | some picked =>
        simp only [Seed.exec, hk, hp] at he
        cases he
        exact ⟨rfl, .inr ⟨owner, requestId, e :: todo, failed, rfl,
          .inr ⟨_, List.eraseIdx_subset, rfl⟩⟩⟩
  | regenerate owner requestId => simp only [Seed.exec, hk] at he; cases he
  | stopped => simp only [Seed.exec, hk] at he; cases he
  | _ =>
    simp only [Seed.exec, hk] at he
    cases he
    exact ⟨rfl, .inl rfl⟩

theorem Seed.step_of_exec {cfg : Config} {k : Choice} (he : f.exec cfg k s = some (s', f')) :
    Seed.Step s f s' f' := by
  cases hf : k.fault with
  | some fault =>
    obtain ⟨rfl, rfl | ⟨owner, requestId, todo, failed, rfl, rfl | ⟨rest, -, rfl⟩⟩⟩ := Seed.exec_failed hf he
    · exact .read _ _ (.of_none rfl)
    · exact .read _ _ (.same rfl)
    · exact .read _ _ (.same rfl)
  | none =>
    cases f with
    | start env =>
      simp only [Seed.exec, hf] at he
      cases he
      exact .read _ _ (.of_none rfl)
    | find env passwordHash =>
      simp only [Seed.exec, hf] at he
      split at he
      · next r hr =>
        cases he
        refine .read _ _ fun requestId e => .inr ⟨r, ?_, Option.some.inj e⟩
        exact List.mem_of_mem_filter (List.mem_of_getElem? hr)
      · obtain ⟨-, he⟩ := Option.ite_none_right_eq_some.1 he
        cases he
        exact .read _ _ (.of_none rfl)
    | lawyer env passwordHash existing =>
      cases existing with
      | none =>
        simp only [Seed.exec, hf] at he
        split at he
        · cases he; exact .read _ _ (.of_none rfl)
        · next hu =>
          cases he
          obtain ⟨lawyer, rfl⟩ := upsertLawyer_cases hu
          exact .account _ _ lawyer (.of_none rfl)
      | some demo =>
        simp only [Seed.exec, hf] at he
        split at he
        · cases he; exact .read _ _ (.of_none rfl)
        · next hu =>
          cases he
          obtain ⟨lawyer, rfl⟩ := updateLawyer_cases hu
          exact .account _ _ lawyer (.same rfl)
    | create owner =>
      simp only [Seed.exec, hf] at he
      obtain ⟨hkeys, rfl, rfl⟩ | ⟨rfl, rfl⟩ := addRows_cases he
      · exact .created owner _ _ hkeys fun item => requestId_of_mem_itemRows
      · exact .read _ _ (.of_none rfl)
    | missing owner demo =>
      simp only [Seed.exec, hf] at he
      obtain ⟨hkeys, rfl, rfl⟩ | ⟨rfl, rfl⟩ := addRows_cases he
      · exact .repaired owner demo _ hkeys fun item => requestId_of_mem_itemRows
      · exact .read _ _ (.of_none rfl)
    | realign owner requestId todo failed =>
      cases todo with
      | nil =>
        simp only [Seed.exec, hf] at he
        cases he
        cases failed with
        | false => exact .read _ _ (.same rfl)
        | true => exact .read _ _ (.of_none rfl)
      | cons entry todo =>
        cases hp : (entry :: todo)[k.pick]? with
        | none => simp only [Seed.exec, hf, hp] at he; cases he
        | some picked =>
          obtain ⟨label, position⟩ := picked
          simp only [Seed.exec, hf, hp] at he
          cases he
          exact .realigned _ _ requestId label position (.same rfl)
    | regenerate owner requestId => simp only [Seed.exec, hf] at he; cases he
    | stopped => simp only [Seed.exec, hf] at he; cases he

end DepositPortal.Portal
