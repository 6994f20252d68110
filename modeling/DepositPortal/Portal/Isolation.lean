import DepositPortal.Portal.Doors
import DepositPortal.Portal.Practice

/-!
# What a client's calls depend on

The guard finds the link of a session among the links of its request, and what the routes read after it
hangs off that request: `viewOf` (public/public.service.ts:102) selects the request and its items,
`findFirst` (public/deposits.service.ts:92) looks for an item *of that request*, and the file it replaces is
the file of the item it found. So the answers are computed from the rows of the request (`ofRequest`), and two
states with the same rows answer alike, whatever else they hold. An item of another request is not found, as
one that exists nowhere.

The steps of a deposit are compared one by one: under the same choices, in states that agree on the
request, two deposits stay at the same point (`client_alike`). `lockstep` carries this along any two runs.
-/
namespace DepositPortal.Portal
open Interleave
open Query
open Requests (RequestedItem Plan Database)
open PublicLinks (PublicLink)
open Public (Cookies ClientSession viewOf acceptLink canActivate sessionRoute)
open Deposits (RequestId ItemId IncomingFile UploadedFile Deposit buildStorageKey)

variable {cfg : Config} {plan : Plan} {k : Choice} {s s' t t' : State} {db : Database}
  {requestId : RequestId} {itemId x y : ItemId}

/-! ## The rows of a request -/

def hasItem (db : Database) (requestId : RequestId) (itemId : ItemId) : Bool :=
  db.requestedItem.any fun item => item.id == itemId && item.requestId == requestId

/-- The request, and the items and the files hanging off it; its links are for the guard. -/
def ofRequest (requestId : RequestId) (db : Database) : Database where
  depositRequest := db.depositRequest.filter fun r => r.id == requestId
  publicLink := []
  requestedItem := db.requestedItem.filter fun item => item.requestId == requestId
  uploadedFile := db.uploadedFile.filter fun file => hasItem db requestId file.requestedItemId

theorem hasItem_iff : hasItem db requestId itemId = true ↔
    ∃ item ∈ db.requestedItem, item.id = itemId ∧ item.requestId = requestId := by
  simp [hasItem]

theorem hasItem_ofRequest :
    hasItem (ofRequest requestId db) requestId itemId = hasItem db requestId itemId := by
  rw [Bool.eq_iff_iff, hasItem_iff, hasItem_iff]
  simp only [ofRequest, List.mem_filter, beq_iff_eq]
  constructor
  · rintro ⟨item, ⟨hi, -⟩, h⟩; exact ⟨item, hi, h⟩
  · rintro ⟨item, hi, hid, hr⟩; exact ⟨item, ⟨hi, hr⟩, hid, hr⟩

theorem fileOf_ofRequest (h : hasItem db requestId itemId = true) :
    (ofRequest requestId db).fileOf itemId = db.fileOf itemId :=
  find?_filter_of_imp fun file _ he => by rw [beq_iff_eq.1 he]; exact h

/-! ## The guard and the view -/

/-- The view of a request is computed from its rows. -/
theorem viewOf_ofRequest (fails : Bool) (expiresAt : Int) :
    viewOf plan (ofRequest requestId db) fails requestId expiresAt =
      viewOf plan db fails requestId expiresAt := by
  have hfind : (ofRequest requestId db).depositRequest.find? (fun r => r.id == requestId) =
      db.depositRequest.find? fun r => r.id == requestId := find?_filter_of_imp fun _ _ h => h
  rw [viewOf, viewOf, hfind]
  cases fails with
  | true => rfl
  | false =>
    cases hr : db.depositRequest.find? fun r => r.id == requestId with
    | none => rfl
    | some r =>
      obtain rfl : r.id = requestId := by simpa using List.find?_some hr
      have hitems : sorted plan.items (fun item => item.requestId == r.id) Requests.positionAsc
          (ofRequest r.id db).requestedItem =
          sorted plan.items (fun item => item.requestId == r.id) Requests.positionAsc
            db.requestedItem := sorted_congr _ (filter_filter_of_imp fun _ _ h => h)
      simp only [hitems]
      congr 2
      congr 1
      refine List.map_congr_left fun item hi => ?_
      obtain ⟨hi, he⟩ := mem_sorted.1 hi
      have hitem : hasItem db r.id item.id = true := hasItem_iff.2 ⟨item, hi, rfl, beq_iff_eq.1 he⟩
      rw [Database.statusOf, Database.statusOf, fileOf_ofRequest hitem]

/-- Two states with the same rows of the request. -/
def SameRequest (requestId : RequestId) (s t : State) : Prop :=
  ofRequest requestId s.database = ofRequest requestId t.database

/-- And with the same links of it. -/
def SameLinks (requestId : RequestId) (s t : State) : Prop :=
  s.links.links.filter (fun link => link.requestId == requestId) =
    t.links.links.filter fun link => link.requestId == requestId

theorem SameLinks.symm (h : SameLinks requestId s t) : SameLinks requestId t s := Eq.symm h

theorem SameLinks.mem {link : PublicLink} (h : SameLinks requestId s t) (hl : link ∈ s.links.links)
    (hreq : link.requestId = requestId) : link ∈ t.links.links := by
  have hm : link ∈ s.links.links.filter fun link => link.requestId == requestId :=
    List.mem_filter.2 ⟨hl, beq_iff_eq.2 hreq⟩
  rw [show s.links.links.filter (fun link => link.requestId == requestId) = _ from h] at hm
  exact (List.mem_filter.1 hm).1

/-- The guard finds the link of the session among the links of its request. -/
theorem acceptLink_same {linkId : PublicLinks.LinkId} {now : Int} {session : ClientSession}
    (hs : Sound s) (ht : Sound t) (hlinks : SameLinks session.requestId s t)
    (h : acceptLink s.links.links linkId now = .ok session) :
    acceptLink t.links.links linkId now = .ok session := by
  cases hl : s.links.links.find? fun link => link.id == linkId with
  | none => rw [acceptLink, hl] at h; cases h
  | some link =>
    obtain rfl : link.id = linkId := by simpa using List.find?_some hl
    have hm := List.mem_of_find?_eq_some hl
    obtain ⟨hopen, hsession⟩ := (acceptLink_iff hs hm).1 h
    have hreq : link.requestId = session.requestId := by rw [hsession]
    exact (acceptLink_iff ht (hlinks.mem hm hreq)).2 ⟨hopen, hsession⟩

theorem guard_same {fails : Bool} {cookies : Cookies} {verifiedAt now : Int} {session : ClientSession}
    (hs : Sound s) (ht : Sound t) (hlinks : SameLinks session.requestId s t)
    (h : canActivate cfg.jwt fails s.links.links cookies verifiedAt now = .ok session) :
    canActivate cfg.jwt fails t.links.links cookies verifiedAt now = .ok session := by
  unfold canActivate at h ⊢
  cases htoken : Public.extractToken cookies with
  | none => rw [htoken] at h; cases h
  | some token =>
    rw [htoken] at h
    dsimp only at h ⊢
    cases hpayload : cfg.jwt.verifyAsync token verifiedAt with
    | none => rw [hpayload] at h; cases h
    | some payload =>
      rw [hpayload] at h
      dsimp only at h ⊢
      split at h
      · next linkId htyp hlink =>
        cases fails with
        | true => cases h
        | false => exact acceptLink_same hs ht hlinks h
      · cases h

theorem sessionRoute_same {session : ClientSession} (h : SameRequest session.requestId s t)
    (fails : Bool) : sessionRoute plan s.database fails (.ok session) =
      sessionRoute plan t.database fails (.ok session) := by
  rw [sessionRoute, sessionRoute, ← viewOf_ofRequest, show ofRequest _ s.database = _ from h,
    viewOf_ofRequest]

/-! ## Two deposits -/

/-- What a `POST files` has been answered. -/
inductive Reply where
  | refused (refusal : Refusal)
  | deposited (answer : Except Deposits.Failure Deposits.DepositedFileView)
  deriving DecidableEq

def Client.reply : Client → Option Reply
  | .refused refusal => some (.refused refusal)
  | .deposit _ (.done _ answer) => some (.deposited answer)
  | _ => none

/-- Two states with the same rows of the request, and two item ids: one and the same, or neither of them an
item of the request. -/
structure Agree (requestId : RequestId) (x y : ItemId) (s t : State) : Prop where
  rows : SameRequest requestId s t
  items : x = y ∨ hasItem s.database requestId x = false ∧ hasItem t.database requestId y = false

/-- Two deposits for the request at the same point, one on `x` and one on `y`. -/
inductive Alike (requestId : RequestId) (x y : ItemId) : Client → Client → Prop
  | body (session : ClientSession) (file : Option IncomingFile) : session.requestId = requestId →
      Alike requestId x y (.body session ⟨x, file⟩) (.body session ⟨y, file⟩)
  | start (session : ClientSession) (file : IncomingFile) :
      Alike requestId x y (.deposit session (.deposit ⟨requestId, x, file⟩))
        (.deposit session (.deposit ⟨requestId, y, file⟩))
  /-- The item was found. -/
  | running (session : ClientSession) (f : Deposits.Call) : (∀ d, f ≠ .deposit d) →
      (Deposits.depositOf f).requestId = requestId →
      Alike requestId x y (.deposit session f) (.deposit session f)
  | failed (session : ClientSession) (d d' : Deposit) (error : Deposits.Failure) :
      Alike requestId x y (.deposit session (.done d (.error error)))
        (.deposit session (.done d' (.error error)))
  | refused (refusal : Refusal) : Alike requestId x y (.refused refusal) (.refused refusal)

variable {f f' g g' : Client}

theorem Alike.reply (h : Alike requestId x y f g) : f.reply = g.reply := by
  cases h <;> rfl

theorem checkUpload_alike {isUUID : JsString → Bool} (h : isUUID x = isUUID y)
    (file : Option IncomingFile) : checkUpload isUUID ⟨x, file⟩ = checkUpload isUUID ⟨y, file⟩ := by
  cases file <;> simp only [checkUpload, h]

theorem SameRequest.hasItem (h : SameRequest requestId s t) (itemId : ItemId) :
    hasItem s.database requestId itemId = hasItem t.database requestId itemId := by
  rw [← hasItem_ofRequest, show ofRequest requestId s.database = _ from h, hasItem_ofRequest]

theorem SameRequest.fileOf (h : SameRequest requestId s t)
    (hitem : Portal.hasItem s.database requestId itemId = true) :
    s.deposits.fileOf itemId = t.deposits.fileOf itemId := by
  have hs := fileOf_ofRequest hitem
  have ht := fileOf_ofRequest (h.hasItem itemId ▸ hitem)
  rw [show ofRequest requestId s.database = _ from h] at hs
  exact hs.symm.trans ht

/-- The lookup of the item. -/
theorem findItem_isSome : (s.deposits.findItem itemId requestId).isSome =
    hasItem s.database requestId itemId := by
  rw [Deposits.State.findItem, State.deposits, List.find?_map, Option.isSome_map, List.isSome_find?]
  rfl

/-- After the item was found, the next frame depends on nothing in the tables. -/
theorem exec_frame {n : JsString → JsString} {k : Deposits.Choice} {a b : Deposits.State}
    {f : Deposits.Call} (hf : ∀ d, f ≠ .deposit d) :
    (Deposits.exec n k a f).map Prod.snd = (Deposits.exec n k b f).map Prod.snd := by
  cases f with
  | deposit d => exact absurd rfl (hf d)
  | put d key prev m => cases hk : k.fault <;> simp [Deposits.exec, hk, Deposits.finish]
  | upsert d key prev m =>
    cases hk : k.fault with
    | none =>
      simp only [Deposits.exec, hk, Deposits.afterRecord]
      cases prev with
      | none => rfl
      | some previousKey => by_cases he : previousKey = key <;> simp [he, Deposits.finish]
    | some fault => simp [Deposits.exec, hk]
  | forgetOwn d key error | count d view | forgetPrevious d prev view | done d answer => rfl

/-- No step comes back to the start. -/
theorem step_ne_deposit {n : JsString → JsString} {k : Deposits.Choice} {a b : Deposits.State}
    {f f' : Deposits.Call} (h : Deposits.Step n k a f b f') (d : Deposit) : f' ≠ .deposit d := by
  cases h with
  | upserted dep key prev m _ =>
    unfold Deposits.afterRecord
    split
    · exact Deposits.Call.noConfusion
    · split <;> exact Deposits.Call.noConfusion
  | _ => exact Deposits.Call.noConfusion

/-- The checks of the bytes, and the key: the same, and so is the one that is replaced. -/
theorem accept_alike {n : JsString → JsString} {k : Deposits.Choice} {a b a' b' : Deposits.State}
    {session : ClientSession} {file : IncomingFile} {f g : Deposits.Call}
    (hfile : a.fileOf x = b.fileOf x)
    (hf : Deposits.accept n k a ⟨requestId, x, file⟩ = some (a', f))
    (hg : Deposits.accept n k b ⟨requestId, x, file⟩ = some (b', g)) :
    Alike requestId x x (.deposit session f) (.deposit session g) := by
  unfold Deposits.accept at hf hg
  cases hm : Deposits.detectFileType file.buffer with
  | none =>
    simp only [hm] at hf hg
    cases hf; cases hg
    exact .failed session _ _ _
  | some m =>
    simp only [hm, Deposits.allowed_of_detect hm, if_true, hfile, Option.ite_none_left_eq_some] at hf hg
    obtain ⟨-, hf⟩ := hf
    obtain ⟨-, hg⟩ := hg
    cases hf; cases hg
    exact .running session _ (fun _ => Deposits.Call.noConfusion) rfl

/-- **One step.** Two deposits that are alike stay alike, under the same choice in states that agree. -/
theorem client_alike (hu : cfg.isUUID x = cfg.isUUID y) (hA : Agree requestId x y s t)
    (hF : Alike requestId x y f g) (hf : f.exec cfg plan k s = some (s', f'))
    (hg : g.exec cfg plan k t = some (t', g')) : Alike requestId x y f' g' := by
  cases hF with
  | body session file hR =>
    simp only [Client.exec, checkUpload_alike hu] at hf hg
    cases hfault : k.fault with
    | some _ => rw [hfault] at hf hg; cases hf; cases hg; exact .refused .aborted
    | none =>
      rw [hfault] at hf hg
      cases hcheck : checkUpload cfg.isUUID ⟨y, file⟩ with
      | error refusal => rw [hcheck] at hf hg; cases hf; cases hg; exact .refused refusal
      | ok file =>
        rw [hcheck] at hf hg
        cases hf; cases hg
        rw [hR]
        exact .start session file
  | start session file =>
    obtain ⟨⟨a', f₁⟩, hf₁, e⟩ := Option.map_eq_some_iff.1 hf
    cases e
    obtain ⟨⟨b', g₁⟩, hg₁, e⟩ := Option.map_eq_some_iff.1 hg
    cases e
    simp only [Deposits.exec] at hf₁ hg₁
    cases hfault : k.deposits.fault with
    | some fault =>
      rw [hfault] at hf₁ hg₁
      cases hf₁; cases hg₁
      exact .failed session _ _ (.other fault)
    | none =>
      rw [hfault] at hf₁ hg₁
      have hx : (s.deposits.findItem x requestId).isSome = hasItem s.database requestId x :=
        findItem_isSome
      have hy : (t.deposits.findItem y requestId).isSome = hasItem t.database requestId y :=
        findItem_isSome
      have hboth : hasItem s.database requestId x = hasItem t.database requestId y := by
        rcases hA.items with rfl | ⟨hnx, hny⟩
        · exact hA.rows.hasItem x
        · rw [hnx, hny]
      cases hitem : s.deposits.findItem x requestId with
      | none =>
        rw [hitem] at hf₁ hx
        have hnone : t.deposits.findItem y requestId = none := by
          rw [← Option.isNone_iff_eq_none, ← Option.not_isSome, hy, ← hboth, ← hx]; rfl
        rw [hnone] at hg₁
        cases hf₁; cases hg₁
        exact .failed session _ _ _
      | some item =>
        rw [hitem] at hf₁ hx
        obtain rfl : x = y := by
          rcases hA.items with e | ⟨hnx, -⟩
          · exact e
          · rw [hnx] at hx; cases hx
        obtain ⟨item', hsome⟩ := Option.isSome_iff_exists.1 (hy.trans (hboth.symm.trans hx.symm))
        rw [hsome] at hg₁
        exact accept_alike (hA.rows.fileOf hx.symm) hf₁ hg₁
  | running session f₀ hne hR =>
    have hframe := exec_frame hne (n := cfg.normalizeNFKD) (k := k.deposits) (a := s.deposits)
      (b := t.deposits)
    obtain ⟨⟨a', f₁⟩, hf₁, e⟩ := Option.map_eq_some_iff.1 hf
    cases e
    obtain ⟨⟨b', g₁⟩, hg₁, e⟩ := Option.map_eq_some_iff.1 hg
    cases e
    rw [hf₁, hg₁] at hframe
    obtain rfl : f₁ = g₁ := Option.some.inj hframe
    have hstep := Deposits.step_of_exec hf₁
    exact .running session f₁ (step_ne_deposit hstep) (Deposits.depositOf_step hstep ▸ hR)
  | failed session d d' error => cases hf
  | refused refusal => cases hf

/-! ## The rows a step leaves -/

/-- The row the next step of a deposit writes. -/
def rowWritten (k : Deposits.Choice) : Deposits.Call → Option UploadedFile
  | .upsert d key _ m => if k.fault.isNone then some (Deposits.rowOf d key m k.now) else none
  | _ => none

def upserted (files : List UploadedFile) : Option UploadedFile → List UploadedFile
  | none => files
  | some row =>
    if files.any fun file => file.requestedItemId == row.requestedItemId then
      files.map fun file => if file.requestedItemId = row.requestedItemId then row else file
    else files ++ [row]

theorem uploadedFile_step {n : JsString → JsString} {k : Deposits.Choice} {a b : Deposits.State}
    {f f' : Deposits.Call} (h : Deposits.Step n k a f b f') :
    b.uploadedFile = upserted a.uploadedFile (rowWritten k f) := by
  cases h with
  | upserted d key prev m hf =>
    obtain ⟨metrics, e⟩ := Deposits.afterRecord_state (s := a.wrote d key m k.now) d key prev
      (Deposits.viewOf d (Deposits.rowOf d key m k.now))
    rw [e, rowWritten, hf]
    simp only [Deposits.State.wrote, Deposits.State.upsert, upserted, Option.isNone_none, if_true]
    split <;> rfl
  | upsertFailed d key prev m fault hf => simp [rowWritten, hf, upserted]
  | forgotOwn d key error => exact Deposits.forget_uploadedFile key k.fault
  | counted d view => exact Deposits.countIfCompleted_uploadedFile d.requestId k.fault
  | forgotPrevious d prev view => exact Deposits.forget_uploadedFile prev k.fault
  | _ => rfl

/-- A row is written among those of a group of items, or beside them. -/
theorem filter_upserted (p : ItemId → Bool) (files : List UploadedFile) (row : Option UploadedFile) :
    (upserted files row).filter (fun file => p file.requestedItemId) =
      upserted (files.filter fun file => p file.requestedItemId)
        (row.filter fun r => p r.requestedItemId) := by
  cases row with
  | none => rfl
  | some row =>
    have hmap : (files.map fun file => if file.requestedItemId = row.requestedItemId then row else file).filter
        (fun file => p file.requestedItemId) = (files.filter fun file => p file.requestedItemId).map
          fun file => if file.requestedItemId = row.requestedItemId then row else file := by
      rw [List.filter_map]
      congr 1
      refine List.filter_congr fun file _ => ?_
      by_cases he : file.requestedItemId = row.requestedItemId <;> simp [he]
    cases hp : p row.requestedItemId with
    | true =>
      have hany : (files.filter fun file => p file.requestedItemId).any
          (fun file => file.requestedItemId == row.requestedItemId) =
          files.any fun file => file.requestedItemId == row.requestedItemId := by
        rw [List.any_filter]
        refine List.any_congr rfl fun file => ?_
        by_cases he : file.requestedItemId = row.requestedItemId <;> simp [he, hp]
      simp only [Option.filter_some, hp, if_true, upserted, hany]
      split
      · exact hmap
      · rw [List.filter_append, List.filter_singleton, hp]; rfl
    | false =>
      have hout : ((files.filter fun file => p file.requestedItemId).map fun file =>
          if file.requestedItemId = row.requestedItemId then row else file) =
          files.filter fun file => p file.requestedItemId := by
        conv_rhs => rw [← List.map_id (files.filter fun file => p file.requestedItemId)]
        refine List.map_congr_left fun file hf => if_neg fun he => ?_
        have hno := (List.mem_filter.1 hf).2
        rw [he, hp] at hno
        cases hno
      simp only [Option.filter_some, hp, Bool.false_eq_true, if_false, upserted]
      split
      · exact hmap.trans hout
      · rw [List.filter_append, List.filter_singleton, hp]; exact List.append_nil _

/-- The row the next step of a client writes. -/
def Client.rowWritten (k : Choice) : Client → Option UploadedFile
  | .deposit _ f => Portal.rowWritten k.deposits f
  | _ => none

theorem database_exec (h : f.exec cfg plan k s = some (s', f')) : s'.database =
    { s.database with uploadedFile := upserted s.uploadedFile (f.rowWritten k) } := by
  cases f with
  | deposit session f₀ =>
    obtain ⟨⟨d, f₁⟩, hd, e⟩ := Option.map_eq_some_iff.1 h
    cases e
    have hfiles := uploadedFile_step (Deposits.step_of_exec hd)
    simp only [State.database, withDeposits_links, withDeposits_requestedItem,
      withDeposits_uploadedFile, hfiles]
    rfl
  | body session upload | visit cookies upload =>
    simp only [Client.exec] at h
    split at h <;> cases h <;> rfl
  | unlock token pin => cases h; rfl
  | unlocked answer cookie | refused refusal => cases h

theorem ofRequest_exec (h : f.exec cfg plan k s = some (s', f')) : ofRequest requestId s'.database =
    { ofRequest requestId s.database with
      uploadedFile := upserted (ofRequest requestId s.database).uploadedFile
        ((f.rowWritten k).filter fun r => hasItem s.database requestId r.requestedItemId) } := by
  rw [database_exec h]
  simp only [ofRequest, Database.mk.injEq, true_and]
  exact filter_upserted (hasItem s.database requestId) s.uploadedFile (f.rowWritten k)

theorem hasItem_exec (h : f.exec cfg plan k s = some (s', f')) :
    hasItem s'.database requestId itemId = hasItem s.database requestId itemId := by
  rw [database_exec h]; rfl

theorem Alike.rowWritten (h : Alike requestId x y f g) : f.rowWritten k = g.rowWritten k := by
  cases h <;> rfl

/-- And the states still agree. -/
theorem Agree.exec (hA : Agree requestId x y s t) (hF : Alike requestId x y f g)
    (hf : f.exec cfg plan k s = some (s', f')) (hg : g.exec cfg plan k t = some (t', g')) :
    Agree requestId x y s' t' where
  rows := by
    have hitems : (fun r : UploadedFile => hasItem s.database requestId r.requestedItemId) =
        fun r => hasItem t.database requestId r.requestedItemId :=
      funext fun r => hA.rows.hasItem r.requestedItemId
    rw [SameRequest, ofRequest_exec hf, ofRequest_exec hg, hF.rowWritten, hitems,
      show ofRequest requestId s.database = _ from hA.rows]
  items := by
    rw [hasItem_exec hf, hasItem_exec hg]
    exact hA.items

/-! ## Runs -/

section
variable {i j : Nat} {w₀ w v₀ v : World State Call} {tr tr' : List (Move State Call Choice)}

/-- **Any two runs.** Two deposits for one request, in two runs with whatever other calls: as long as
their steps are taken under the same choices, in states that agree on the request, they are answered alike. -/
theorem runs_alike (hu : cfg.isUUID x = cfg.isUUID y) (h : (machine cfg plan).Run w₀ tr w)
    (h' : (machine cfg plan).Run v₀ tr' v) (hf : w₀.calls[i]? = some (.client f))
    (hg : v₀.calls[j]? = some (.client g)) (hF : Alike requestId x y f g)
    (hsteps : List.Forall₂ (fun a b => a.1 = b.1 ∧ Agree requestId x y a.2 b.2) (stepsOf i tr)
      (stepsOf j tr')) :
    ∃ f' g', w.calls[i]? = some (.client f') ∧ v.calls[j]? = some (.client g') ∧
      Alike requestId x y f' g' := by
  obtain ⟨_, _, hf', hg', f', g', rfl, rfl, hF'⟩ :=
    lockstep (F := fun a b => ∃ f g, a = .client f ∧ b = .client g ∧ Alike requestId x y f g)
      (fun k s t s' t' a b a' b' hA hab ha hb => by
        obtain ⟨f, g, rfl, rfl, hF⟩ := hab
        obtain ⟨⟨s₁, f₁⟩, hf, e⟩ := Option.map_eq_some_iff.1 ha
        cases e
        obtain ⟨⟨t₁, g₁⟩, hg, e⟩ := Option.map_eq_some_iff.1 hb
        cases e
        exact ⟨f₁, g₁, rfl, rfl, client_alike hu hA hF hf hg⟩)
      h h' hf hg ⟨f, g, rfl, rfl, hF⟩ hsteps
  exact ⟨f', g', hf', hg', hF'⟩

end

/-- The keys the deposit may draw under these choices were not drawn yet. -/
def Undrawn (cfg : Config) (ks : List Choice) (t : State) : Client → Prop
  | .body session upload => ∀ file ∈ upload.file, ∀ k ∈ ks, buildStorageKey cfg.normalizeNFKD k.random
      session.requestId upload.itemId file.originalName ∉ t.drawn
  | .deposit _ (.deposit d) => ∀ k ∈ ks, buildStorageKey cfg.normalizeNFKD k.random d.requestId d.itemId
      d.file.originalName ∉ t.drawn
  | _ => True

theorem checkUpload_ok {isUUID : JsString → Bool} {upload : Upload} {file : IncomingFile}
    (h : checkUpload isUUID upload = .ok file) : upload.file = some file := by
  unfold checkUpload at h
  split at h
  · next file' hfile =>
    split at h
    · cases h
    · split at h
      · cases h; exact hfile
      · cases h
  · cases h

theorem Undrawn.step {ks : List Choice} (h : Undrawn cfg (k :: ks) t g)
    (hF : Alike requestId x y f g) (he : g.exec cfg plan k t = some (t', g')) :
    Undrawn cfg ks t' g' := by
  have hdeposit : ∀ session f₀, g = .deposit session f₀ → Undrawn cfg ks t' g' := by
    rintro session f₀ rfl
    obtain ⟨⟨d, f₁⟩, hd, e⟩ := Option.map_eq_some_iff.1 he
    cases e
    have hne := step_ne_deposit (Deposits.step_of_exec hd)
    cases f₁ with
    | deposit d => exact absurd rfl (hne d)
    | _ => trivial
  cases hF with
  | body session file _ =>
    simp only [Client.exec] at he
    split at he
    · cases he; trivial
    · cases he; trivial
    · next file _ hcheck =>
      cases he
      exact fun k' hk' => h file (checkUpload_ok hcheck) k' (List.mem_cons_of_mem k hk')
  | start session file => exact hdeposit _ _ rfl
  | running session f₀ _ _ => exact hdeposit _ _ rfl
  | failed session d d' error => exact hdeposit _ _ rfl
  | refused refusal => cases he

/-- Where one of the two takes a step, the other can. -/
theorem Alike.exec_isSome {ks : List Choice} (hF : Alike requestId x y f g)
    (hf : f.exec cfg plan k s = some (s', f')) (hnew : Undrawn cfg (k :: ks) t g) :
    ∃ t' g', g.exec cfg plan k t = some (t', g') := by
  have hdeposit : ∀ session f₀, g = .deposit session f₀ →
      (∃ r, Deposits.exec cfg.normalizeNFKD k.deposits t.deposits f₀ = some r) →
      ∃ t' g', g.exec cfg plan k t = some (t', g') := by
    rintro session f₀ rfl ⟨r, hr⟩
    exact ⟨_, _, Option.map_eq_some_iff.2 ⟨r, hr, rfl⟩⟩
  cases hF with
  | body session file _ =>
    simp only [Client.exec]
    split <;> exact ⟨_, _, rfl⟩
  | start session file =>
    refine hdeposit _ _ rfl ?_
    simp only [Deposits.exec]
    split
    · exact ⟨_, rfl⟩
    · exact ⟨_, rfl⟩
    · unfold Deposits.accept
      split
      · exact ⟨_, rfl⟩
      · split
        · have hkey : ¬ t.deposits.drawn.contains (buildStorageKey cfg.normalizeNFKD k.deposits.random
              requestId y file.originalName) = true := by
            rw [List.contains_iff_mem]
            exact hnew k List.mem_cons_self
          exact ⟨_, if_neg hkey⟩
        · exact ⟨_, rfl⟩
  | running session f₀ hne _ =>
    refine hdeposit _ _ rfl ?_
    obtain ⟨r, hr, -⟩ := Option.map_eq_some_iff.1 hf
    have hframe := exec_frame hne (n := cfg.normalizeNFKD) (k := k.deposits) (a := s.deposits)
      (b := t.deposits)
    rw [hr] at hframe
    obtain ⟨r', hr', -⟩ := Option.map_eq_some_iff.1 hframe.symm
    exact ⟨r', hr'⟩
  | failed session d d' error => cases hf
  | refused refusal => cases hf

/-- **Each on its own.** A deposit that runs with nobody stepping in between, from a state that agrees on
the request, and draws a key of its own: it comes to the same end, and the states still agree. -/
theorem alone_alike {ks : List Choice} {c : Call} (hu : cfg.isUUID x = cfg.isUUID y)
    (hA : Agree requestId x y s t) (hF : Alike requestId x y f g) (hnew : Undrawn cfg ks t g)
    (h : (machine cfg plan).alone ks s (.client f) = some (s', c)) :
    ∃ f' t' g', c = .client f' ∧ (machine cfg plan).alone ks t (.client g) = some (t', .client g') ∧
      Alike requestId x y f' g' ∧ Agree requestId x y s' t' := by
  induction ks generalizing s t f g with
  | nil =>
    cases h
    exact ⟨f, t, g, rfl, rfl, hF, hA⟩
  | cons k ks ih =>
    obtain ⟨⟨s₁, c₁⟩, he, hrest⟩ := Option.bind_eq_some_iff.1 h
    obtain ⟨⟨s₂, f₁⟩, hf, e⟩ := Option.map_eq_some_iff.1 he
    cases e
    obtain ⟨t₁, g₁, hg⟩ := hF.exec_isSome hf hnew
    have hstep : (machine cfg plan).exec k t (.client g) = some (t₁, .client g₁) :=
      Option.map_eq_some_iff.2 ⟨_, hg, rfl⟩
    obtain ⟨f', t', g', hc, halone, hF', hA'⟩ := ih (hA.exec hF hf hg) (client_alike hu hA hF hf hg)
      (hnew.step hF hg) hrest
    exact ⟨f', t', g', hc, alone_cons hstep halone, hF', hA'⟩

end DepositPortal.Portal
