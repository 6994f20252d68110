import DepositPortal.Portal.Client
import DepositPortal.Portal.Create
import DepositPortal.Portal.Seed
import DepositPortal.Requests.RegenerateRuns

/-!
# The portal: every writer of the tables, interleaved

A call is a call of one of the services: `RequestsService.create`, `PublicLinksService.regenerate` and
`revoke`, the client's `unlock` and `POST files`, or a run of the seed, whose last act is to call
`regenerate`. The reads of the lawyer (`list`, `findOne`, `streamFile`) are functions of a state and
are no steps.

`Sound` is what the keys of the schema guarantee, `Asserts` what each call knows at each point. Nothing
is ever deleted: a step keeps the requests, the items, and the links up to their revocation (`Grows`).
-/
namespace DepositPortal.Portal
open Interleave ReadCommitted
open Requests (RequestedItem Plan)
open PublicLinks (DepositRequest PublicLink Xid Kept OtherTx)
open Deposits (RequestId ItemId)

inductive Call where
  | create (f : Create)
  | links (f : PublicLinks.Call)
  | client (f : Client)
  | seed (f : Seed)

def exec (cfg : Config) (plan : Plan) (k : Choice) (s : State) : Call → Option (State × Call)
  | .create f => (f.exec cfg k s).map fun r => (r.1, .create r.2)
  | .links f => (PublicLinks.exec cfg.toConfig k.links s.links f).map fun r =>
      ({ s with links := r.1 }, .links r.2)
  | .client f => (f.exec cfg plan k s).map fun r => (r.1, .client r.2)
  | .seed (.regenerate owner requestId) =>
      some (s, .links (.start (.regenerate requestId owner.id DEMO_LINK_DAYS)))
  | .seed f => (f.exec cfg k s).map fun r => (r.1, .seed r.2)

def enters : Call → Bool
  | .create (.start _ _) => true
  | .links f => PublicLinks.enters f
  | .client (.unlock _ _) | .client (.visit _ _) => true
  | .seed (.start _) => true
  | _ => false

def machine (cfg : Config) (plan : Plan) : Machine State Call Choice := ⟨enters, exec cfg plan⟩

/-! ## What one step does -/

variable {cfg : Config} {plan : Plan} {k : Choice} {s s' : State} {f f' e : Call} {link : PublicLink}

inductive Step (cfg : Config) (k : Choice) (s : State) : Call → State → Call → Prop
  | create (f f' : Create) (s' : State) : Create.Step cfg k s f s' f' →
      Step cfg k s (.create f) s' (.create f')
  | links (f f' : PublicLinks.Call) (t : PublicLinks.State) :
      PublicLinks.exec cfg.toConfig k.links s.links f = some (t, f') →
      Step cfg k s (.links f) { s with links := t } (.links f')
  | client (f f' : Client) (s' : State) : Client.Step cfg k s f s' f' →
      Step cfg k s (.client f) s' (.client f')
  | seed (f f' : Seed) (s' : State) : Seed.Step s f s' f' → Step cfg k s (.seed f) s' (.seed f')
  | reissued (owner : RefreshToken.Lawyer) (requestId : RequestId) :
      Step cfg k s (.seed (.regenerate owner requestId)) s
        (.links (.start (.regenerate requestId owner.id DEMO_LINK_DAYS)))

theorem step_of_exec (he : exec cfg plan k s f = some (s', f')) : Step cfg k s f s' f' := by
  cases f with
  | create f =>
    obtain ⟨⟨t, f''⟩, h, e⟩ := Option.map_eq_some_iff.1 he
    cases e; exact .create f f'' t (Create.step_of_exec h)
  | links f =>
    obtain ⟨⟨t, f''⟩, h, e⟩ := Option.map_eq_some_iff.1 he
    cases e; exact .links f f'' t h
  | client f =>
    obtain ⟨⟨t, f''⟩, h, e⟩ := Option.map_eq_some_iff.1 he
    cases e; exact .client f f'' t (Client.step_of_exec h)
  | seed f =>
    unfold exec at he
    split at he
    · next h => cases h
    · next h => cases h
    · next h => cases h
    · next owner requestId h => cases h; cases he; exact .reissued owner requestId
    · next h =>
      cases h
      obtain ⟨⟨t, f''⟩, h, e⟩ := Option.map_eq_some_iff.1 he
      cases e; exact .seed f f'' t (Seed.step_of_exec h)

/-! ## What grows -/

/-- The requests and the items stay, and so do the links, up to their revocation. -/
structure Grows (s s' : State) : Prop where
  requests : ∀ r ∈ s.links.depositRequest, r ∈ s'.links.depositRequest
  items : ∀ item ∈ s.requestedItem, ∃ item' ∈ s'.requestedItem, item'.ids = item.ids
  links : ∀ link ∈ s.links.links, ∃ link' ∈ s'.links.links, Kept link link'

theorem Grows.refl (s : State) : Grows s s :=
  ⟨fun _ h => h, fun item h => ⟨item, h, rfl⟩, fun link h => ⟨link, h, .inl rfl⟩⟩

theorem Grows.trans {s₁ : State} (h : Grows s s₁) (h' : Grows s₁ s') : Grows s s' where
  requests r hr := h'.requests r (h.requests r hr)
  items item hi := by
    obtain ⟨item₁, hi₁, e₁⟩ := h.items item hi
    obtain ⟨item₂, hi₂, e₂⟩ := h'.items item₁ hi₁
    exact ⟨item₂, hi₂, e₂.trans e₁⟩
  links link hl := by
    obtain ⟨link₁, hl₁, hk₁⟩ := h.links link hl
    obtain ⟨link₂, hl₂, hk₂⟩ := h'.links link₁ hl₁
    exact ⟨link₂, hl₂, hk₁.trans hk₂⟩

/-- Only the links step. -/
theorem Grows.ofLinks {t : PublicLinks.State}
    (hr : ∀ r ∈ s.links.depositRequest, r ∈ t.depositRequest)
    (hl : ∀ link ∈ s.links.links, ∃ link' ∈ t.links, Kept link link') :
    Grows s { s with links := t } :=
  ⟨hr, fun item h => ⟨item, h, rfl⟩, hl⟩

theorem kept_commit (hI : PublicLinks.Sound s.links) (xid : Xid) (hl : link ∈ s.links.links) :
    ∃ link' ∈ rows (ReadCommitted.commit xid s.links.publicLink), Kept link link' := by
  obtain ⟨c, hc, hcl⟩ := List.mem_filterMap.1 hl
  obtain ⟨link', hs, hk⟩ := PublicLinks.sees_kept hI hc hcl xid
  exact ⟨link', by rw [rows_commit]; exact List.mem_filterMap.2 ⟨c, hc, hs⟩, hk⟩

theorem grows_add (s : State) (request : List DepositRequest) (items : List RequestedItem) :
    Grows s (s.add request items) :=
  ⟨fun _ h => List.mem_append_left _ h, fun item h => ⟨item, List.mem_append_left _ h, rfl⟩,
    fun link h => ⟨link, h, .inl rfl⟩⟩

theorem ids_realign (s : State) (requestId : RequestId) (label : JsString) (position : Nat) :
    (s.realign requestId label position).requestedItem.map RequestedItem.ids =
      s.requestedItem.map RequestedItem.ids := by
  simp only [State.realign, List.map_map]
  refine List.map_congr_left fun item _ => ?_
  simp only [Function.comp_apply]
  split <;> rfl

theorem grows_realign (s : State) (requestId : RequestId) (label : JsString) (position : Nat) :
    Grows s (s.realign requestId label position) where
  requests _ h := h
  items item h := by
    have hm := List.mem_map_of_mem (f := RequestedItem.ids) h
    rw [← ids_realign s requestId label position] at hm
    obtain ⟨item', hi', e⟩ := List.mem_map.1 hm
    exact ⟨item', hi', e⟩
  links link h := ⟨link, h, .inl rfl⟩

theorem depositRequest_exec {t : PublicLinks.State} {g g' : PublicLinks.Call}
    {cfg : PublicLinks.Config} {k : PublicLinks.Choice} {t' : PublicLinks.State}
    (h : PublicLinks.Step cfg k t g t' g') : t'.depositRequest = t.depositRequest := by
  cases h <;> rfl

theorem Step.grows (hI : PublicLinks.Sound s.links) (h : Step cfg k s f s' f') : Grows s s' := by
  cases h with
  | create f f' s' h =>
    cases h with
    | failed _ _ _ _ | drawn _ _ _ _ => exact .refl s
    | inserted x T hT =>
      refine .ofLinks (fun _ h => h) fun link hl => ⟨link, ?_, .inl rfl⟩
      rwa [PublicLinks.State.links, rows_insert hT]
    | aborted x xid _ _ _ =>
      refine .ofLinks (fun _ h => h) fun link hl => ⟨link, ?_, .inl rfl⟩
      rwa [PublicLinks.State.links, rows_rollback]
    | created x xid request items _ =>
      exact (grows_add s [request] items).trans
        (.ofLinks (fun _ h => h) fun link hl => kept_commit hI xid hl)
  | links f f' t h =>
    have hstep := PublicLinks.step_of_exec h
    refine .ofLinks (fun r hr => ?_) fun link hl => hstep.kept hI hl
    rwa [depositRequest_exec hstep]
  | client f f' s' h =>
    cases h with
    | deposit session f f' d _ =>
      exact ⟨fun _ h => h, fun item h => ⟨item, h, rfl⟩, fun link h => ⟨link, h, .inl rfl⟩⟩
    | _ => exact .refl s
  | seed f f' s' h =>
    cases h with
    | read _ _ _ => exact .refl s
    | account _ _ lawyer _ =>
      exact ⟨fun _ h => h, fun item h => ⟨item, h, rfl⟩, fun link h => ⟨link, h, .inl rfl⟩⟩
    | realigned _ _ requestId label position _ => exact grows_realign s requestId label position
    | created owner request items _ _ => exact grows_add s [request] items
    | repaired owner demo items _ _ => exact grows_add s [] items
  | reissued owner requestId => exact .refl s

/-! ## Transactions -/

/-- The open transaction of a call. -/
def Call.xid : Call → Option Xid
  | .create (.commit _ xid _ _) => some xid
  | .links f => f.tx.map PublicLinks.Tx.xid
  | _ => none

/-- Two calls never share a transaction. -/
def Apart (f e : Call) : Prop := ∀ t u, f.xid = some t → e.xid = some u → t ≠ u

theorem Step.xid_le (h : Step cfg k s f s' f') : s.links.xid ≤ s'.links.xid := by
  cases h with
  | create f f' s' h =>
    cases h with
    | inserted x T hT => exact Nat.le_succ _
    | _ => exact le_rfl
  | links f f' t h => exact (PublicLinks.step_of_exec h).xid_le
  | client f f' s' h => cases h <;> exact le_rfl
  | seed f f' s' h => cases h <;> exact le_rfl
  | reissued owner requestId => exact le_rfl

/-- A step touches nothing that another transaction has written. -/
theorem Step.frame (h : Step cfg k s f s' f') {t : Xid} (ht : ∀ u, f.xid = some u → t ≠ u)
    (hnew : t < s.links.xid) : Frame t s.links.publicLink s'.links.publicLink := by
  cases h with
  | create f f' s' h =>
    cases h with
    | inserted x T hT => exact frame_insert hT hnew.ne
    | aborted x xid _ _ _ => exact frame_rollback (ht xid rfl)
    | created x xid request items _ => exact frame_commit (ht xid rfl)
    | _ => exact fun _ _ _ => Iff.rfl
  | links f f' u h =>
    refine (PublicLinks.step_of_exec h).frame fun x hx => ht _ ?_
    rw [Call.xid, hx]; rfl
  | client f f' s' h => cases h <;> exact fun _ _ _ => Iff.rfl
  | seed f f' s' h => cases h <;> exact fun _ _ _ => Iff.rfl
  | reissued owner requestId => exact fun _ _ _ => Iff.rfl

end DepositPortal.Portal
