import DepositPortal.Portal.Linked

/-!
# What was received stays received

The status of a request is worked out anew on every read, from its items, their files and the clock.
The API never adds an item to a request that exists, an upsert only ever writes a complete row, and
no row is deleted: so what one read shows received, every later read shows received (`Lasts`), whatever
became of the links in between. The deadline only counts while a piece is missing.
-/
namespace DepositPortal.Portal
open Interleave ReadCommitted
open Requests (RequestedItem Plan Database Intact Counts RequestStatus ListRequestsDto RequestPageView
  RequestDetailView RequestSummaryView list findOne heapPlan)
open PublicLinks (DepositRequest PublicLink)
open Deposits (RequestId ItemId UploadedFile)

variable {cfg : Config} {plan : Plan} {k : Choice} {s s' : State} {f f' : Call}
  {w w' : World State Call} {db db' db'' : Database}

/-- A run of the API: no seed takes a step. -/
def ApiOnly (_ : World State Call) (_ : Choice) : Call → Prop
  | .seed _ => False
  | _ => True

/-- The requests stay, with the items they have, and what was received stays received. -/
structure Lasts (db db' : Database) : Prop where
  requests : ∀ r ∈ db.depositRequest, r ∈ db'.depositRequest
  items : ∀ r ∈ db.depositRequest, db'.itemsOf r.id = db.itemsOf r.id
  received : ∀ item, db.receives item = true → db'.receives item = true

theorem Lasts.refl (db : Database) : Lasts db db := ⟨fun _ h => h, fun _ _ => rfl, fun _ h => h⟩

theorem Lasts.trans (h : Lasts db db') (h' : Lasts db' db'') : Lasts db db'' where
  requests r hr := h'.requests r (h.requests r hr)
  items r hr := (h'.items r (h.requests r hr)).trans (h.items r hr)
  received item hi := h'.received item (h.received item hi)

/-! ## One step -/

/-- A published request has an id of its own, so its items are no one else's. -/
theorem itemsOf_publish {xid : PublicLinks.Xid} {request r : DepositRequest}
    {items : List RequestedItem} (hkeys : PrimaryKeys s [request] items)
    (hitems : ∀ item ∈ items, item.requestId = request.id) (hr : r ∈ s.links.depositRequest) :
    (s.publish xid request items).database.itemsOf r.id = s.database.itemsOf r.id := by
  have hne : r.id ≠ request.id := Requests.ne_of_nodup_append hkeys.1 hr List.mem_cons_self
  have hnone : items.filter (fun item => item.requestId == r.id) = [] := by
    rw [List.filter_eq_nil_iff]
    intro item hi
    simpa [hitems item hi] using hne.symm
  simp only [Database.itemsOf, State.database, State.publish, State.add, List.filter_append, hnone,
    List.append_nil]

/-- A row that was written is complete. -/
theorem received_deposit {d : Deposits.State} {g g' : Deposits.Call} {itemId : ItemId}
    (h : Deposits.Step cfg.normalizeNFKD k.deposits s.deposits g d g')
    (hf : ∃ file ∈ s.uploadedFile, file.requestedItemId = itemId ∧ file.status = .complete) :
    ∃ file ∈ d.uploadedFile, file.requestedItemId = itemId ∧ file.status = .complete := by
  obtain ⟨file, hm, hid, hst⟩ := hf
  obtain e | ⟨dep, key, prev, m, -, -, e⟩ := h.files <;> rw [e]
  · exact ⟨file, hm, hid, hst⟩
  · by_cases hi : file.requestedItemId = dep.itemId
    · exact ⟨_, Deposits.mem_upsert.2 (.inl rfl), hi.symm.trans hid, rfl⟩
    · exact ⟨file, Deposits.mem_upsert.2 (.inr ⟨hm, hi⟩), hid, hst⟩

theorem Step.lasts (h : Step cfg k s f s' f') (hI : Sound s) (ha : Asserts cfg s f)
    (hno : ∀ g, f ≠ .seed g) : Lasts s.database s'.database := by
  have hI' := (h.keeps hI ha).1
  have hg := h.grows hI.links
  refine ⟨hg.requests, fun r hr => ?_, fun item hi => ?_⟩
  · cases h with
    | create g g' s' h =>
      cases h with
      | created x xid request items hkeys => exact itemsOf_publish hkeys ha.2.2.2 hr
      | _ => rfl
    | links g g' t h => rfl
    | client g g' s' h => cases h <;> rfl
    | seed g g' s' h => exact absurd rfl (hno g)
    | reissued owner requestId => exact absurd rfl (hno _)
  · rw [Requests.receives_iff hI.intact] at hi
    rw [Requests.receives_iff hI'.intact]
    cases h with
    | create g g' s' h => cases h <;> exact hi
    | links g g' t h => exact hi
    | client g g' s' h =>
      cases h with
      | deposit session g g' d he => exact received_deposit (Deposits.step_of_exec he) hi
      | _ => exact hi
    | seed g g' s' h => exact absurd rfl (hno g)
    | reissued owner requestId => exact absurd rfl (hno _)

theorem lasts_of_reaches {G : World State Call → Act Call Choice → Prop}
    (hb : (machine cfg plan).Reaches G ⟨State.empty, []⟩ w)
    (ha : (machine cfg plan).Reaches (OnRun ApiOnly) w w') :
    Lasts w.shared.database w'.shared.database := by
  refine ha.induct (I := fun v => Lasts w.shared.database v.shared.database) (.refl _) ?_
  intro v a v' hv ih hG hn
  have hany : (machine cfg plan).Reaches (fun _ _ => True) ⟨State.empty, []⟩ w :=
    hb.weaken fun _ _ _ => trivial
  have hH := holds (hany.trans (hv.weaken fun _ _ _ => trivial))
  obtain ⟨g, -, -, rfl⟩ | ⟨i, k, g, s', g', rfl, hg, he, rfl⟩ := next_cases hn
  · exact ih
  · refine ih.trans ((step_of_exec he).lasts hH.1 (hH.call hg) ?_)
    rintro g rfl
    exact hG _ hg

/-! ## What is shown -/

/-- The lines that are received are still there, and still received. -/
def StillReceived {line : Type} (id : line → ItemId) (received : line → Bool)
    (lines lines' : List line) : Prop :=
  ∀ l ∈ lines, received l = true → ∃ l' ∈ lines', id l' = id l ∧ received l' = true

section
variable {request : DepositRequest} {plan' : Plan} {now now' : Int}

/-- A view with one line for each item, read again later. -/
theorem Lasts.lines {line : Type} {id : line → ItemId} {received : line → Bool}
    {items items' : List RequestedItem} {l l' : RequestedItem → line} (h : Lasts db db')
    (hr : request ∈ db.depositRequest) (hp : items.Perm (db.itemsOf request.id))
    (hp' : items'.Perm (db'.itemsOf request.id)) (hid : ∀ item, id (l item) = item.id)
    (hid' : ∀ item, id (l' item) = item.id) (hl : ∀ item, received (l item) = db.receives item)
    (hl' : ∀ item, received (l' item) = db'.receives item) :
    StillReceived id received (items.map l) (items'.map l') := by
  intro x hx hrec
  obtain ⟨item, hi, rfl⟩ := List.mem_map.1 hx
  rw [hl] at hrec
  have hi' : item ∈ items' := hp'.mem_iff.2 (by rw [h.items request hr]; exact hp.mem_iff.1 hi)
  exact ⟨l' item, List.mem_map_of_mem hi', (hid' item).trans (hid item).symm,
    (hl' item).trans (h.received item hrec)⟩

/-- A request that is complete in one summary is complete in every later one. -/
theorem Lasts.complete {summary summary' : RequestSummaryView} (h : Lasts db db')
    (hr : request ∈ db.depositRequest) (hc : Counts db request.id summary)
    (hc' : Counts db' request.id summary') (hs : summary.status = .Complete) :
    summary'.status = .Complete := by
  have hcount : (db.itemsOf request.id).countP db.receives ≤
      (db.itemsOf request.id).countP db'.receives :=
    List.countP_mono_left fun item _ => h.received item
  obtain ⟨hpos, hle⟩ := hc.complete.1 hs
  rw [hc.expected, hc.received] at hle
  refine hc'.complete.2 ⟨?_, ?_⟩
  · rw [hc'.expected, h.items request hr, ← hc.expected]; exact hpos
  · rw [hc'.expected, hc'.received, h.items request hr]; exact hle.trans hcount

theorem request_of_findOne {requestId lawyerId : JsString} {detail : RequestDetailView}
    (h : findOne plan db requestId lawyerId now = .ok detail) :
    ∃ r ∈ db.depositRequest, r.id = requestId ∧ r.lawyerId = lawyerId ∧
      Requests.toRequestDetail (db.detailRow plan r) now = .ok detail := by
  unfold findOne at h
  split at h
  · cases h
  · next r hr =>
    have hp := List.find?_some hr
    simp only [Bool.and_eq_true, beq_iff_eq] at hp
    exact ⟨r, List.mem_of_find?_eq_some hr, hp.1, hp.2, h⟩

theorem request_of_viewOf {requestId : RequestId} {expiresAt : Int}
    {view : Public.PublicRequestView}
    (h : Public.viewOf plan db false requestId expiresAt = .ok view) :
    ∃ r ∈ db.depositRequest, r.id = requestId := by
  simp only [Public.viewOf, Bool.false_eq_true, if_false] at h
  split at h
  · cases h
  · next r hr => exact ⟨r, List.mem_of_find?_eq_some hr, by simpa using List.find?_some hr⟩

theorem viewOf_ok (h : Intact db) (hr : request ∈ db.depositRequest) (plan : Plan) (expiresAt : Int) :
    ∃ view, Public.viewOf plan db false request.id expiresAt = .ok view := by
  have hf := h.find_request hr (p := fun r => r.id == request.id) (by simp) fun r he => by
    simpa using he
  simp only [Public.viewOf, hf, Bool.false_eq_true, if_false]
  exact ⟨_, rfl⟩

end

/-- **A completed request stays complete.** Along every run of the API (creations, regenerations,
revocations, unlocks and deposits in any interleaving, with any failures), at any instants and in
whatever order the queries hand back their rows: a line that `findOne` or the client's view shows
received is there and received in every later one, and a request that is complete in `findOne` or in
`list` is complete in every later one. `findOne` and the client's view never lose the request. -/
theorem complete_stays_complete (cfg : Config) (plan : Plan) (w w' : World State Call)
    (hb : (machine cfg plan).Reaches (OnRun ApiOnly) ⟨State.empty, []⟩ w)
    (ha : (machine cfg plan).Reaches (OnRun ApiOnly) w w') (plan₁ plan₂ : Plan) (now now' : Int) :
    (∀ requestId lawyerId detail,
      findOne plan₁ w.shared.database requestId lawyerId now = .ok detail →
      ∃ detail', findOne plan₂ w'.shared.database requestId lawyerId now' = .ok detail' ∧
        StillReceived (·.id) (·.received) detail.items detail'.items ∧
        (detail.status = .Complete → detail'.status = .Complete)) ∧
    (∀ requestId expiresAt expiresAt' view,
      Public.viewOf plan₁ w.shared.database false requestId expiresAt = .ok view →
      ∃ view', Public.viewOf plan₂ w'.shared.database false requestId expiresAt' = .ok view' ∧
        StillReceived (·.id) (·.received) view.items view'.items) ∧
    ∀ lawyerId lawyerId' query query' page page',
      list plan₁ w.shared.database lawyerId query now = .ok page →
      list plan₂ w'.shared.database lawyerId' query' now' = .ok page' →
      ∀ summary ∈ page.items, ∀ summary' ∈ page'.items, summary'.id = summary.id →
        summary.status = .Complete → summary'.status = .Complete := by
  have hI := (holds hb).1.intact
  have hI' := (holds (hb.trans ha)).1.intact
  have hlasts := lasts_of_reaches hb ha
  have hlinked : Linked w'.shared.database :=
    linked_of_reaches ((hb.trans ha).weaken fun _ _ hG => hG.weaken fun _ _ f hf => by
      cases f with
      | seed g => exact absurd hf id
      | _ => trivial)
  refine ⟨fun requestId lawyerId detail hd => ?_, fun requestId expiresAt expiresAt' view hv => ?_,
    fun lawyerId lawyerId' query query' page page' hp hp' summary hs summary' hs' hid hc => ?_⟩
  · obtain ⟨r, hr, rfl, rfl, hrow⟩ := request_of_findOne hd
    have hr' := hlasts.requests r hr
    obtain ⟨detail', hd'⟩ := detail_of_linked hlinked hr' plan₂ now'
    obtain ⟨hcount, items, hperm, hlines⟩ := Requests.detail_eq hrow
    obtain ⟨hcount', items', hperm', hlines'⟩ := Requests.detail_eq hd'
    refine ⟨detail', (Requests.findOne_eq hI' hr').trans hd', ?_,
      hlasts.complete hr hcount hcount'⟩
    rw [hlines, hlines']
    exact hlasts.lines hr hperm hperm' (fun _ => rfl) (fun _ => rfl) (fun _ => rfl) fun _ => rfl
  · obtain ⟨r, hr, rfl⟩ := request_of_viewOf hv
    have hr' := hlasts.requests r hr
    obtain ⟨view', hv'⟩ := viewOf_ok hI' hr' plan₂ expiresAt'
    obtain ⟨items, hperm, hlines⟩ := Requests.view_eq hI hr hv
    obtain ⟨items', hperm', hlines'⟩ := Requests.view_eq hI' hr' hv'
    refine ⟨view', hv', ?_⟩
    rw [hlines, hlines']
    exact hlasts.lines hr hperm hperm' (fun _ => rfl) (fun _ => rfl) (fun _ => rfl) fun _ => rfl
  · obtain ⟨r, hr, -, hsum⟩ := Requests.mem_list hp hs
    obtain ⟨r', hr', -, hsum'⟩ := Requests.mem_list hp' hs'
    have hcount := Requests.counts_summaryRow hsum
    have hcount' := Requests.counts_summaryRow hsum'
    have hsame : r'.id = r.id := hcount'.id.symm.trans (hid.trans hcount.id)
    rw [hsame] at hcount'
    exact hlasts.complete hr hcount hcount' hc

/-! ### A deposit that completes a request, and a revocation after it -/

instance (w : World State Call) (k : Choice) (f : Call) : Decidable (ApiOnly w k f) :=
  match f with
  | .seed _ => isFalse id
  | .create _ | .links _ | .client _ => isTrue trivial

/-- The session that unlocking the link at 0 gives. -/
def cookies : Public.Cookies :=
  some fun _ => .string (portal.jwt.signAsync ⟨[1], js "dossier"⟩ 0)

/-- A PDF for the only piece of the request. -/
def contract : Upload :=
  ⟨js "contract", some ⟨js "scan.pdf", [0x25, 0x50, 0x44, 0x46, 0x2d, 1]⟩⟩

def deposited : List (Act Call Choice) :=
  creation ++ .call (.client (.visit cookies contract)) :: List.replicate 6 (.run 1 (tick 1 2))

/-- Then alice revokes the link. -/
def revocation : List (Act Call Choice) :=
  .call (.links (.start (.revoke (js "dossier") (js "alice")))) ::
    List.replicate 5 (.run 2 (tick 2 3))

/-- The world after it. -/
def cut : World State Call :=
  ((machine portal heapPlan).play (fun w a => decide (OnRun ApiOnly w a)) (played ApiOnly deposited)
    revocation).getD ⟨State.empty, []⟩

theorem complete_stays_complete_revoked :
    ∃ detail, findOne heapPlan cut.shared.database (js "dossier") (js "alice")
      (8 * PublicLinks.MILLISECONDS_PER_DAY) = .ok detail ∧ detail.status = .Complete := by
  have hb := reaches_played (P := ApiOnly) deposited (by decide +kernel)
  have ha : (machine portal heapPlan).Reaches (OnRun ApiOnly) (played ApiOnly deposited) cut :=
    reaches_decide (by decide +kernel) _
  have hd : (findOne heapPlan (played ApiOnly deposited).shared.database (js "dossier") (js "alice")
      2).map (·.status) = .ok .Complete := by decide +kernel
  cases hf : findOne heapPlan (played ApiOnly deposited).shared.database (js "dossier") (js "alice")
      2 with
  | error e => rw [hf] at hd; cases hd
  | ok detail =>
    rw [hf] at hd
    obtain ⟨detail', hd', -, hs⟩ := (complete_stays_complete portal heapPlan _ _ hb ha heapPlan heapPlan
      2 (8 * PublicLinks.MILLISECONDS_PER_DAY)).1 _ _ detail hf
    exact ⟨detail', hd', hs (Except.ok.inj hd)⟩

end DepositPortal.Portal
