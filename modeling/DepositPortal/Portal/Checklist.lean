import DepositPortal.Portal.CreateBody
import DepositPortal.Portal.Lasting

/-!
# The order of a checklist

The labels go from the body to the views through a trim, the positions of `zipIdx` (requests.service.ts:95),
one nested write whose rows share their `createdAt`, and three reads of their own: the `include` of the
creation, `findOne` and `viewOf`. Each of them sorts by `position`. The positions of one request are all
different, so the sort leaves the database no choice (`Listed`), and no deposit and no operation on a link
writes to `RequestedItem`.
-/
namespace DepositPortal.Portal
open Interleave ReadCommitted
open Query (Scan sorted orderBy)
open Requests (RequestedItem Plan Database Intact RequestDetailView CreatedRequestView findOne positionAsc
  toItemView heapPlan)
open PublicLinks (DepositRequest)
open Deposits (RequestId ItemId)

/-! ## Rows by position -/

section
variable {requestId : RequestId} {ids : List ItemId} {labels : List JsString} {item : RequestedItem}

theorem labels_itemRows (first : Nat) (h : ids.length = labels.length) :
    (itemRows requestId ids (labels.zipIdx first)).map RequestedItem.label = labels := by
  induction ids generalizing labels first with
  | nil => rw [List.eq_nil_of_length_eq_zero h.symm]; rfl
  | cons id ids ih =>
    cases labels with
    | nil => cases h
    | cons label labels => exact congrArg (label :: ·) (ih (first + 1) (by simpa using h))

theorem position_itemRows {first : Nat} (h : item ∈ itemRows requestId ids (labels.zipIdx first)) :
    first ≤ item.position := by
  obtain ⟨⟨id, label, position⟩, hmem, rfl⟩ := List.mem_map.1 h
  exact List.le_snd_of_mem_zipIdx (List.of_mem_zip hmem).2

/-- The rows of one nested write are in strict order. -/
theorem itemRows_strict (requestId : RequestId) (ids : List ItemId) (labels : List JsString) (first : Nat) :
    (itemRows requestId ids (labels.zipIdx first)).Pairwise fun a b => positionAsc a b = .lt := by
  induction ids generalizing labels first with
  | nil => exact List.Pairwise.nil
  | cons id ids ih =>
    cases labels with
    | nil => exact List.Pairwise.nil
    | cons label labels =>
      refine List.pairwise_cons.2 ⟨fun item hitem => ?_, ih labels (first + 1)⟩
      have hpos := position_itemRows hitem
      exact Nat.compare_eq_lt.2 hpos

end

instance : Std.TransCmp positionAsc := Query.transCmp_on (compare : Nat → Nat → Ordering) RequestedItem.position

/-! ## The three reads -/

/-- The items of the request have these labels, in this order and in no other. -/
structure Listed (db : Database) (requestId : RequestId) (labels : List JsString) : Prop where
  strict : (db.itemsOf requestId).Pairwise fun a b => positionAsc a b = .lt
  labels : (db.itemsOf requestId).map RequestedItem.label = labels

section
variable {db db' : Database} {requestId : RequestId} {labels : List JsString} {plan : Plan} {now : Int}

/-- Whatever order the rows come in. -/
theorem Listed.sorted (h : Listed db requestId labels) (scan : Scan RequestedItem) :
    sorted scan (fun item => item.requestId == requestId) positionAsc db.requestedItem =
      db.itemsOf requestId :=
  Query.sorted_eq_of_strict h.strict

theorem Listed.detail {lawyerId : LawyerId} {detail : RequestDetailView} (h : Listed db requestId labels)
    (hd : findOne plan db requestId lawyerId now = .ok detail) : detail.items.map (·.label) = labels := by
  obtain ⟨r, -, rfl, -, hrow⟩ := request_of_findOne hd
  rw [Requests.toRequestDetail_eq] at hrow
  obtain ⟨summary, -, rfl⟩ := exists_of_map_ok hrow
  simp only [Database.detailRow, h.sorted plan.items, List.map_map]
  exact h.labels

theorem Listed.view {expiresAt : Int} {view : Public.PublicRequestView} (h : Listed db requestId labels)
    (hv : Public.viewOf plan db false requestId expiresAt = .ok view) :
    view.items.map (·.label) = labels := by
  simp only [Public.viewOf, Bool.false_eq_true, if_false] at hv
  split at hv
  · cases hv
  · next r hr =>
    cases hv
    have hid : r.id = requestId := by simpa using List.find?_some hr
    subst hid
    simp only [h.sorted plan.items, List.map_map]
    exact h.labels

theorem Listed.lasts (h : Listed db requestId labels) (hlasts : Lasts db db')
    (hr : ∃ r ∈ db.depositRequest, r.id = requestId) : Listed db' requestId labels := by
  obtain ⟨r, hr, rfl⟩ := hr
  exact ⟨by rw [hlasts.items r hr]; exact h.strict, by rw [hlasts.items r hr]; exact h.labels⟩

end

/-! ## The creation -/

section
variable {cfg : Config} {plan : Plan} {k : Choice} {s s' : State} {f f' : Create}
  {input : CreateRequestDto}

/-- What is known of a creation that was started with this body. -/
def Follows (input : CreateRequestDto) (s : State) : Create → Prop
  | .start _ input' => input' = input
  | .insert x => x.input = input
  | .commit x _ request items => x.input = input ∧
    ∃ k, k.itemIds.length = input.items.length ∧ request.id = k.requestId ∧ items = x.items k
  | .done _ (.ok view) => (∃ r ∈ s.links.depositRequest, r.id = view.id) ∧
    Listed s.database view.id input.items ∧ view.items = (s.database.itemsOf view.id).map toItemView
  | .done _ (.error _) => True

/-- The items of a request that was just published. -/
theorem itemsOf_published (xid : PublicLinks.Xid) {request : DepositRequest} {items : List RequestedItem}
    (hI : Intact s.database) (hkeys : PrimaryKeys s [request] items)
    (hitems : ∀ item ∈ items, item.requestId = request.id) :
    (s.publish xid request items).database.itemsOf request.id = items := by
  have hnone : s.requestedItem.filter (fun item => item.requestId == request.id) = [] := by
    refine List.filter_eq_nil_iff.2 fun item hitem heq => ?_
    obtain ⟨r, hr, hid⟩ := hI.itemRequest item hitem
    have hne := Requests.ne_of_nodup_append hkeys.1 hr (List.mem_singleton_self request)
    exact hne (hid.trans (by simpa using heq))
  have hall : items.filter (fun item => item.requestId == request.id) = items :=
    List.filter_eq_self.2 fun item hitem => by simp [hitems item hitem]
  simp only [Database.itemsOf, State.database, State.publish, State.add, List.filter_append, hnone, hall,
    List.nil_append]

theorem follows_commit {x : Creation} {xid : PublicLinks.Xid} {request : DepositRequest}
    {items : List RequestedItem} (hI : Intact s.database) (hkeys : PrimaryKeys s [request] items)
    (h : Follows input s (.commit x xid request items)) :
    Follows input (s.publish xid request items) (.done x.lawyerId (x.answer cfg request items)) := by
  obtain ⟨rfl, k, hlen, hid, rfl⟩ := h
  have hitems : ∀ item ∈ x.items k, item.requestId = request.id := fun item hitem =>
    (requestId_of_mem_itemRows hitem).trans hid.symm
  have hof := itemsOf_published xid hI hkeys hitems
  have hstrict := itemRows_strict k.requestId k.itemIds x.input.items 0
  rw [Creation.answer]
  split
  · trivial
  · have horder : orderBy positionAsc (x.items k) = x.items k :=
      Query.orderBy_eq_of_strict hstrict (List.Perm.refl _)
    refine ⟨⟨request, List.mem_append_right _ (List.mem_singleton_self request), rfl⟩, ⟨?_, ?_⟩, ?_⟩
    · show ((s.publish xid request (x.items k)).database.itemsOf request.id).Pairwise _
      rw [hof]
      exact hstrict
    · show ((s.publish xid request (x.items k)).database.itemsOf request.id).map _ = _
      rw [hof]
      exact labels_itemRows 0 hlen
    · show (orderBy positionAsc (x.items k)).map toItemView =
        ((s.publish xid request (x.items k)).database.itemsOf request.id).map toItemView
      rw [hof, horder]

theorem Follows.step (h : Follows input s f) (hI : Intact s.database)
    (he : f.exec cfg k s = some (s', f')) : Follows input s' f' := by
  cases f with
  | start lawyerId input' =>
    simp only [Create.exec] at he
    split at he
    · cases he; trivial
    · obtain ⟨-, he⟩ := Option.ite_none_right_eq_some.1 he
      cases he; exact h
  | insert x =>
    simp only [Create.exec] at he
    split at he
    · cases he; trivial
    · obtain ⟨hlen, he⟩ := Option.ite_none_right_eq_some.1 he
      have hinput : x.input = input := h
      rw [hinput] at hlen
      split at he
      · cases he
      · cases he; trivial
      · cases he; exact ⟨hinput, k, hlen, rfl, rfl⟩
  | commit x xid request items =>
    simp only [Create.exec] at he
    split at he
    · cases he; trivial
    · split at he
      · next hkeys => cases he; exact follows_commit hI hkeys h
      · cases he; trivial
  | done lawyerId answer => cases he

/-- What another call does leaves it alone. -/
theorem Follows.lasts (h : Follows input s f) (hlasts : Lasts s.database s'.database) : Follows input s' f := by
  cases f with
  | start lawyerId input' => exact h
  | insert x => exact h
  | commit x xid request items => exact h
  | done lawyerId answer =>
    cases answer with
    | error failure => trivial
    | ok view =>
      obtain ⟨⟨r, hr, hid⟩, hlisted, hitems⟩ := h
      refine ⟨⟨r, hlasts.requests r hr, hid⟩, hlisted.lasts hlasts ⟨r, hr, hid⟩, ?_⟩
      rw [hitems, ← hid, hlasts.items r hr]

end

section
variable {cfg : Config} {plan : Plan} {w₀ w w' : World State Call}

/-- A creation, from its start in any world the portal may be in. -/
theorem follows_of_reaches {lawyerId : LawyerId} {input : CreateRequestDto} {i : Nat} {f : Call}
    (hb : (machine cfg plan).Reaches (fun _ _ => True) ⟨State.empty, []⟩ w₀)
    (hcall : w₀.calls[i]? = some (.create (.start lawyerId input)))
    (h : (machine cfg plan).Reaches (OnRun ApiOnly) w₀ w) (hf : w.calls[i]? = some f) :
    ∃ g, f = .create g ∧ Follows input w.shared g := by
  have hstart : ∃ g, Call.create (.start lawyerId input) = .create g ∧ Follows input w₀.shared g :=
    ⟨.start lawyerId input, rfl, rfl⟩
  have htrack := h.track (P := fun v f => ∃ g, f = .create g ∧ Follows input v.shared g) hcall hstart ?_ ?_
  · obtain ⟨f', hf', hfollows⟩ := htrack
    rw [hf] at hf'
    cases hf'
    exact hfollows
  · rintro v k - s' f' hr - hcall ⟨g, rfl, hg⟩ he
    have hH := holds (hb.trans (hr.weaken fun _ _ _ => trivial))
    obtain ⟨⟨t, g'⟩, hexec, e⟩ := Option.map_eq_some_iff.1 he
    cases e
    exact ⟨g', rfl, hg.step hH.1.intact hexec⟩
  · rintro v a v' f hr hG - - ⟨g, rfl, hg⟩ hn
    refine ⟨g, rfl, hg.lasts ?_⟩
    have hstep := (Machine.Reaches.refl v).step (G := OnRun ApiOnly) hG hn
    exact lasts_of_reaches (hb.trans (hr.weaken fun _ _ _ => trivial)) hstep

/-- **The checklist keeps the lawyer's order.** For every list of labels that the body of `POST /requests`
may have: the items of the answer, of every later `findOne` of the request and of every later view of its
client are the trimmed labels in the order they were typed, whatever order the rows come in at each read
and whatever calls of the API ran in between. -/
theorem checklist_keeps_order (v : CreateBody.Validator) (body : CreateBody.Body) (input : CreateRequestDto)
    (hbody : CreateBody.validate v body = .ok input) (lawyerId : LawyerId) (i : Nat)
    (view : CreatedRequestView)
    (hb : (machine cfg plan).Reaches (fun _ _ => True) ⟨State.empty, []⟩ w₀)
    (hcall : w₀.calls[i]? = some (.create (.start lawyerId input)))
    (h : (machine cfg plan).Reaches (OnRun ApiOnly) w₀ w)
    (hdone : w.calls[i]? = some (.create (.done lawyerId (.ok view))))
    (h' : (machine cfg plan).Reaches (OnRun ApiOnly) w w') :
    ∃ labels : List JsString, body.items = .array (labels.map .text) ∧
      view.items.map (·.label) = labels.map trim ∧
      (∀ scan : Scan RequestedItem, view.items = (sorted scan (fun item => item.requestId == view.id)
        positionAsc w.shared.requestedItem).map toItemView) ∧
      (∀ (plan' : Plan) (lawyerId' : LawyerId) (now : Int) (detail : RequestDetailView),
        findOne plan' w'.shared.database view.id lawyerId' now = .ok detail →
        detail.items.map (·.label) = labels.map trim) ∧
      ∀ (plan' : Plan) (expiresAt : Int) (view' : Public.PublicRequestView),
        Public.viewOf plan' w'.shared.database false view.id expiresAt = .ok view' →
        view'.items.map (·.label) = labels.map trim := by
  obtain ⟨labels, hitems, hlabels⟩ := CreateBody.labels_of_validate hbody
  obtain ⟨g, hg, hfollows⟩ := follows_of_reaches hb hcall h hdone
  cases hg
  obtain ⟨hr, hlisted, hanswer⟩ := hfollows
  have hlasts := lasts_of_reaches (hb.trans (h.weaken fun _ _ _ => trivial)) h'
  have hlater := hlisted.lasts hlasts hr
  rw [hlabels] at hlisted hlater
  refine ⟨labels, hitems, ?_, fun scan => ?_, fun plan' lawyerId' now detail hd => hlater.detail hd,
    fun plan' expiresAt view' hv => hlater.view hv⟩
  · rw [hanswer, List.map_map]
    exact hlisted.labels
  · rw [hanswer]
    exact (congrArg (List.map toItemView) (hlisted.sorted scan)).symm

end

/-! ### Two labels, and a revocation after they were listed -/

def plainValidator : CreateBody.Validator := ⟨List.length, id⟩

def typed : CreateBody.Body :=
  ⟨.text (js "Achat "), .array [.text (js " Contrat"), .text (js "Bail ")], some (.finite 7), []⟩

def trimmed : CreateRequestDto := ⟨js "Achat", [js "Contrat", js "Bail"], 7⟩

/-- The creation has entered. -/
def entered : World State Call := ⟨State.empty, [.create (.start (js "alice") trimmed)]⟩

/-- The world some steps later, none of them of a seed. -/
def continued (w : World State Call) (acts : List (Act Call Choice)) : World State Call :=
  ((machine portal heapPlan).play (fun w a => decide (OnRun ApiOnly w a)) w acts).getD w

theorem reaches_continued {w : World State Call} {acts : List (Act Call Choice)}
    (h : ((machine portal heapPlan).play (fun w a => decide (OnRun ApiOnly w a)) w acts).isSome = true) :
    (machine portal heapPlan).Reaches (OnRun ApiOnly) w (continued w acts) :=
  reaches_decide h w

def listed : World State Call :=
  continued entered (List.replicate 3 (.run 0 { tick 0 1 with itemIds := [js "z", js "a"] }))

/-- Then alice revokes the link. -/
def closed : World State Call :=
  continued listed (.call (.links (.start (.revoke (js "dossier") (js "alice")))) ::
    List.replicate 5 (.run 1 (tick 2 3)))

def answerOf : Option Call → Option CreatedRequestView
  | some (.create (.done lawyerId (.ok view))) => if lawyerId = js "alice" then some view else none
  | _ => none

theorem eq_of_answerOf {call : Option Call} {view : CreatedRequestView} (h : answerOf call = some view) :
    call = some (.create (.done (js "alice") (.ok view))) := by
  unfold answerOf at h
  split at h
  · rw [Option.ite_none_right_eq_some] at h
    obtain ⟨rfl, e⟩ := h
    cases e
    rfl
  · cases h

theorem checklist_keeps_order_revoked : ∃ (view : CreatedRequestView) (labels : List JsString),
    listed.calls[0]? = some (.create (.done (js "alice") (.ok view))) ∧
    typed.items = .array (labels.map .text) ∧ view.items.map (·.label) = labels.map trim ∧
    ∀ plan' lawyerId' now detail,
      findOne plan' closed.shared.database view.id lawyerId' now = .ok detail →
      detail.items.map (·.label) = labels.map trim := by
  have hb : (machine portal heapPlan).Reaches (fun _ _ => True) ⟨State.empty, []⟩ entered :=
    (Machine.Reaches.refl _).step trivial (a := .call (.create (.start (js "alice") trimmed))) rfl
  have h : (machine portal heapPlan).Reaches (OnRun ApiOnly) entered listed :=
    reaches_continued (by decide +kernel)
  have h' : (machine portal heapPlan).Reaches (OnRun ApiOnly) listed closed :=
    reaches_continued (by decide +kernel)
  have hanswered : (answerOf listed.calls[0]?).isSome = true := by decide +kernel
  obtain ⟨view, hview⟩ := Option.isSome_iff_exists.1 hanswered
  have hdone := eq_of_answerOf hview
  obtain ⟨labels, hitems, hlabels, -, hdetail, -⟩ := checklist_keeps_order plainValidator typed trimmed
    (by decide +kernel) (js "alice") 0 view hb rfl h hdone h'
  exact ⟨view, labels, hdone, hitems, hlabels, hdetail⟩

end DepositPortal.Portal
