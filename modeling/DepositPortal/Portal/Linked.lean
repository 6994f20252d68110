import DepositPortal.Portal.Outline
import DepositPortal.Requests.Readings

/-!
# Every request has a link

`toLinkView` throws on a request without a link (requests/request.types.ts:180), and `list` and
`findOne` fail with it. `create` publishes the request and its link in one commit, a link is never
deleted, and no other call of the API adds a request. The seed does: its `depositRequest.create`
(seed.ts:85) commits a request on its own, and the link only comes with the `regenerate` at the end
(`demo_without_link`).
-/
namespace DepositPortal.Portal
open Interleave ReadCommitted
open Requests (RequestedItem Plan Database toLinkView toRequestSummary toRequestDetail list findOne
  requestNotFound ListRequestsDto heapPlan)
open PublicLinks (DepositRequest PublicLink)
open RefreshToken (Lawyer)

variable {cfg : Config} {plan : Plan} {k : Choice} {s s' : State} {f f' : Call}
  {w w' : World State Call}

/-- Every request of the table has a link. -/
def Linked (db : Database) : Prop :=
  ∀ r ∈ db.depositRequest, ∃ link ∈ db.publicLink, link.requestId = r.id

/-! ## The reads -/

section
variable {db : Database} {r : DepositRequest} {now : Int}

theorem toLinkView_of_linked (h : Linked db) (hr : r ∈ db.depositRequest) (plan : Plan) :
    ∃ view, toLinkView (db.lastLink plan r.id) r.id = .ok view := by
  obtain ⟨link, hl, hreq⟩ := h r hr
  obtain ⟨last, -, e, -⟩ := Requests.lastLink_eq plan hl
  rw [hreq] at e
  rw [e]
  exact ⟨_, rfl⟩

theorem summary_of_linked (h : Linked db) (hr : r ∈ db.depositRequest) (plan : Plan) :
    ∃ summary, toRequestSummary (db.summaryRow plan r) now = .ok summary := by
  obtain ⟨view, e⟩ := toLinkView_of_linked h hr plan
  rw [Requests.toRequestSummary_eq, show (db.summaryRow plan r).links = db.lastLink plan r.id from rfl,
    show (db.summaryRow plan r).id = r.id from rfl, e]
  exact ⟨_, rfl⟩

theorem detail_of_linked (h : Linked db) (hr : r ∈ db.depositRequest) (plan : Plan) (now : Int) :
    ∃ detail, toRequestDetail (db.detailRow plan r) now = .ok detail := by
  obtain ⟨view, e⟩ := toLinkView_of_linked h hr plan
  rw [Requests.toRequestDetail_eq, Requests.toRequestSummary_eq,
    show (db.detailRow plan r).summary.links = db.lastLink plan r.id from rfl,
    show (db.detailRow plan r).summary.id = r.id from rfl, e]
  exact ⟨_, rfl⟩

/-- `list` fails on no page whose `skip` the query takes. -/
theorem list_of_linked (h : Linked db) {plan : Plan} (lawyerId : LawyerId) {query : ListRequestsDto}
    (hskip : query.skip ≤ plan.maxSkip) : ∃ page, list plan db lawyerId query now = .ok page := by
  rw [Requests.list_eq hskip]
  obtain ⟨items, e⟩ := exists_mapM_ok (l := db.pageRows plan lawyerId query)
    (f := fun r => toRequestSummary (db.summaryRow plan r) now) fun r hr =>
      summary_of_linked h (Requests.mem_pageRows hr).1 plan
  rw [e]
  exact ⟨_, rfl⟩

/-- `findOne` fails on no request of the lawyer's. -/
theorem findOne_of_linked (h : Linked db) (plan : Plan) (requestId lawyerId : JsString) :
    (∃ detail, findOne plan db requestId lawyerId now = .ok detail) ∨
      findOne plan db requestId lawyerId now = .error requestNotFound ∧
        ∀ r ∈ db.depositRequest, r.id = requestId → r.lawyerId ≠ lawyerId := by
  unfold findOne
  cases hf : db.depositRequest.find? fun r => r.id == requestId && r.lawyerId == lawyerId with
  | none =>
    refine .inr ⟨rfl, fun r hr hid => ?_⟩
    simpa [hid] using List.find?_eq_none.1 hf r hr
  | some r => exact .inl (detail_of_linked h (List.mem_of_find?_eq_some hf) plan now)

end

/-! ## The writers -/

/-- The request the seed creates, -/
def demoRequest (k : Choice) (owner : Lawyer) : DepositRequest :=
  ⟨k.requestId, DEMO_REQUEST_TITLE, k.now, owner.id⟩

/-- and its items. -/
def demoItems (k : Choice) : List RequestedItem :=
  itemRows k.requestId k.itemIds DEMO_ITEMS.zipIdx

/-- A seed that has not found the demonstration request fails to create it. -/
def NoDemo (w : World State Call) (k : Choice) : Call → Prop
  | .seed (.create owner) =>
    k.fault ≠ none ∨ ¬ PrimaryKeys w.shared [demoRequest k owner] (demoItems k)
  | _ => True

theorem seed_create_cases {owner : Lawyer} {g' : Seed}
    (he : Seed.exec cfg k s (.create owner) = some (s', g')) : s' = s ∨
      k.fault = none ∧ PrimaryKeys s [demoRequest k owner] (demoItems k) := by
  cases hf : k.fault with
  | some fault => simp only [Seed.exec, hf] at he; cases he; exact .inl rfl
  | none =>
    simp only [Seed.exec, hf] at he
    obtain ⟨hkeys, -, -⟩ | ⟨rfl, -⟩ := addRows_cases he
    · exact .inr ⟨rfl, hkeys⟩
    · exact .inl rfl

/-- The requests after a step: the ones of before, and the one a `create` publishes or a seed
creates. -/
theorem Step.requests (h : Step cfg k s f s' f') :
    s'.links.depositRequest = s.links.depositRequest ∨
    (∃ x xid request items, f = .create (.commit x xid request items) ∧
      PrimaryKeys s [request] items ∧ s' = s.publish xid request items ∧
      f' = .create (.done x.lawyerId (x.answer cfg request items))) ∨
    ∃ owner, f = .seed (.create owner) := by
  cases h with
  | create g g' s' h =>
    cases h with
    | created x xid request items hkeys => exact .inr (.inl ⟨x, xid, request, items, rfl, hkeys, rfl, rfl⟩)
    | _ => exact .inl rfl
  | links g g' t h => exact .inl (depositRequest_exec (PublicLinks.step_of_exec h))
  | client g g' s' h => cases h <;> exact .inl rfl
  | seed g g' s' h =>
    cases h with
    | created owner request items _ _ => exact .inr (.inr ⟨owner, rfl⟩)
    | repaired owner demo items _ _ => exact .inl (List.append_nil _)
    | _ => exact .inl rfl
  | reissued owner requestId => exact .inl rfl

/-- The link a `create` has inserted is published with its request. -/
theorem published_link {x : Creation} {xid : PublicLinks.Xid} {request : DepositRequest}
    {items : List RequestedItem} (ha : CreateAsserts cfg s (.commit x xid request items)) :
    ∃ k, k.requestId = request.id ∧ x.link cfg k ∈ (s.publish xid request items).links.links := by
  obtain ⟨-, -, ⟨k, hk, hm, -⟩, -⟩ := ha
  refine ⟨k, hk, ?_⟩
  have hsee : Cell.sees xid ⟨none, some (xid, x.link cfg k)⟩ = some (x.link cfg k) :=
    sees_eq_some.2 (.inl rfl)
  have hrow : x.link cfg k ∈ rows (ReadCommitted.commit xid s.links.publicLink) := by
    rw [rows_commit]
    exact List.mem_filterMap.2 ⟨_, hm, hsee⟩
  exact hrow

theorem Linked.grows (h : Linked s.database) (hg : Grows s s')
    (hr : s'.links.depositRequest = s.links.depositRequest) : Linked s'.database := by
  intro r hm
  have hm' : r ∈ s.links.depositRequest := by rw [← hr]; exact hm
  obtain ⟨link, hl, e⟩ := h r hm'
  obtain ⟨link', hl', hk⟩ := hg.links link hl
  exact ⟨link', hl', hk.same.2.2.trans e⟩

theorem linked_step (hH : Holds Sound (Asserts cfg) w) {i : Nat} (hf : w.calls[i]? = some f)
    (he : exec cfg plan k w.shared f = some (s', f')) (hno : NoDemo w k f)
    (h : Linked w.shared.database) : Linked s'.database := by
  have hstep := step_of_exec he
  have hg := hstep.grows hH.1.links
  obtain e | ⟨x, xid, request, items, rfl, -, rfl, -⟩ | ⟨owner, rfl⟩ := hstep.requests
  · exact h.grows hg e
  · intro r hr
    rcases List.mem_append.1 hr with hr | hr
    · obtain ⟨link, hl, e⟩ := h r hr
      obtain ⟨link', hl', hk⟩ := hg.links link hl
      exact ⟨link', hl', hk.same.2.2.trans e⟩
    · obtain rfl := List.mem_singleton.1 hr
      obtain ⟨k', hk', hm⟩ := published_link (hH.call hf)
      exact ⟨x.link cfg k', hm, hk'⟩
  · obtain ⟨⟨t, g'⟩, hg', e⟩ := Option.map_eq_some_iff.1 he
    cases e
    rcases seed_create_cases hg' with rfl | ⟨hnone, hkeys⟩
    · exact h
    · exact (hno.elim (absurd hnone) (absurd hkeys))

theorem linked_of_reaches (h : (machine cfg plan).Reaches (OnRun NoDemo) ⟨State.empty, []⟩ w) :
    Linked w.shared.database := by
  refine h.induct (I := fun w => Linked w.shared.database) (fun _ hr => by cases hr) ?_
  intro w a w' hw ih hG hn
  obtain ⟨g, -, -, rfl⟩ | ⟨i, k, g, s', g', rfl, hg, he, rfl⟩ := next_cases hn
  · exact ih
  · exact linked_step (holds hw) hg he (hG g hg) ih

/-- **Every request has a link, unless a seed creates one.** In every world reached by any
interleaving of creations, regenerations, revocations, deposits and seeds, with any failures, in which
no seed creates the demonstration request: every request has a link, `toLinkView` throws on none, and
no page of `list` and no `findOne` fails, for any lawyer (`findOne` answers 404 on what is not the
lawyer's). A page is one whose `skip` the query takes, and an id one that can be put to PostgreSQL, which
refuses U+0000 in a text. -/
theorem every_request_has_link (cfg : Config) (plan : Plan) (w : World State Call)
    (h : (machine cfg plan).Reaches (OnRun NoDemo) ⟨State.empty, []⟩ w) :
    (∀ r ∈ w.shared.links.depositRequest,
      (∃ link ∈ w.shared.links.links, link.requestId = r.id) ∧
      ∀ plan', ∃ view, toLinkView (w.shared.database.lastLink plan' r.id) r.id = .ok view) ∧
    (∀ (plan' : Plan) lawyerId (query : ListRequestsDto) now, query.skip ≤ plan'.maxSkip → ∃ page,
      list plan' w.shared.database lawyerId query now = .ok page) ∧
    ∀ plan' requestId lawyerId now, 0 ∉ requestId →
      (∃ detail, findOne plan' w.shared.database requestId lawyerId now = .ok detail) ∨
      findOne plan' w.shared.database requestId lawyerId now = .error requestNotFound ∧
        ∀ r ∈ w.shared.links.depositRequest, r.id = requestId → r.lawyerId ≠ lawyerId := by
  have hl := linked_of_reaches h
  refine ⟨fun r hr => ⟨hl r hr, toLinkView_of_linked hl hr⟩, fun plan' lawyerId query now hskip => ?_,
    fun plan' requestId lawyerId now _ => ?_⟩
  · exact list_of_linked hl lawyerId hskip
  · exact findOne_of_linked hl plan' requestId lawyerId

/-! ### A creation, and a seed that stops half-way -/

instance (w : World State Call) (k : Choice) (f : Call) : Decidable (NoDemo w k f) :=
  match f with
  | .seed (.create owner) =>
    inferInstanceAs (Decidable (k.fault ≠ none ∨
      ¬ PrimaryKeys w.shared [demoRequest k owner] (demoItems k)))
  | .create _ | .links _ | .client _ | .seed (.start _) | .seed (.find _ _) | .seed (.lawyer _ _ _)
  | .seed (.missing _ _) | .seed (.realign _ _ _ _) | .seed (.regenerate _ _) | .seed .stopped =>
    isTrue trivial

/-- A request of one piece, created by alice at 0. -/
def creation : List (Act Call Choice) :=
  .call (.create (.start (js "alice") ⟨js "Achat", [js "Contrat"], 7⟩)) ::
    List.replicate 3 (.run 0 (tick 0 1))

theorem every_request_has_link_creation :
    ∃ page, list heapPlan (played NoDemo creation).shared.database (js "alice") ⟨1, 20⟩ 5 = .ok page :=
  (every_request_has_link portal heapPlan (played NoDemo creation)
    (reaches_played _ (by decide +kernel))).2.1 heapPlan (js "alice") ⟨1, 20⟩ 5 (by decide)

/-- The seed creates the demonstration request at 0; its next call of the database fails. -/
def halfSeeded : List (Act Call Choice) :=
  .call (.seed (.start ⟨js "alice@example.org", js "Alice", js "secret"⟩)) ::
    List.replicate 4 (.run 0 { tick 0 1 with itemIds := [js "a", js "b", js "c"] }) ++
      [.run 0 { tick 0 1 with fault := some .other }]

/-- The request stays without a link, and the dashboard of its lawyer fails. -/
theorem demo_without_link : ∃ w,
    (machine portal heapPlan).Reaches (fun _ _ => True) ⟨State.empty, []⟩ w ∧
    (∃ r ∈ w.shared.links.depositRequest, ∀ link ∈ w.shared.links.links, link.requestId ≠ r.id) ∧
    ∃ lawyer ∈ w.shared.lawyer, list heapPlan w.shared.database lawyer.id ⟨1, 20⟩ 5 =
      .error (.Error (js "Request dossier has no public link.")) := by
  refine ⟨played (fun _ _ _ => True) halfSeeded,
    (reaches_played _ (by decide +kernel)).weaken fun _ _ _ => trivial, ?_, ?_⟩
  · exact ⟨⟨js "dossier", DEMO_REQUEST_TITLE, 0, [1]⟩, by decide +kernel, by decide +kernel⟩
  · exact ⟨⟨[1], js "Alice", js "alice@example.org", js "argon2:secret"⟩, by decide +kernel,
      by decide +kernel⟩

end DepositPortal.Portal
