import DepositPortal.Portal.System
import DepositPortal.Public.Effects
import DepositPortal.Requests.Readings

/-!
# What every call of the portal knows

`Sound` is what the keys of the schema guarantee, and `Asserts` what each call relies on at each
point: the request it works on is in the table, the rows its transaction has written are its own, and
the session of a deposit belongs to a link of the request it deposits for. Requests, items and links
only ever grow, so no step of another call takes any of it back.
-/
namespace DepositPortal.Portal
open Interleave ReadCommitted
open Requests (RequestedItem Plan Intact)
open PublicLinks (DepositRequest PublicLink Xid Kept NewLink Tx)
open Public (ClientSession)
open Deposits (RequestId ItemId UploadedFile)

variable {cfg : Config} {plan : Plan} {k : Choice} {s s' : State} {f f' e : Call} {link : PublicLink}
  {requestId : RequestId}

structure Sound (s : State) : Prop where
  links : PublicLinks.Sound s.links
  intact : Intact s.database

/-- The request is in the table. -/
def State.Has (s : State) (requestId : RequestId) : Prop :=
  ∃ r ∈ s.links.depositRequest, r.id = requestId

/-! ## The assertions -/

/-- The request a call of `PublicLinksService` has found to be the caller's. -/
def ownedOf : PublicLinks.Call → Option RequestId
  | .hash _ ownedId _ _ _ => some ownedId
  | f => f.tx.map Tx.ownedId

/-- What the transaction has inserted so far. -/
def Inserted (cfg : PublicLinks.Config) (s : PublicLinks.State) : PublicLinks.Call → Prop
  | .update x | .updating x _ | .create x _ =>
    ∀ c ∈ s.publicLink, ∀ new, c.pending = some (x.xid, new) → c.committed ≠ none
  | .commit x => ∀ c ∈ s.publicLink, ∀ new, c.pending = some (x.xid, new) → c.committed = none →
    ∃ link k, x.link = some link ∧ new = PublicLinks.rowOf cfg k x link
  | _ => True

/-- The token and the PIN of a creation were drawn and hashed. -/
structure Drawn (cfg : Config) (x : Creation) : Prop where
  token : ∃ random, x.token = PublicLinks.generatePublicToken random
  pin : ∃ salt, x.pinHash = cfg.hashSecret x.pin salt

def CreateAsserts (cfg : Config) (s : State) : Create → Prop
  | .start _ _ | .done _ _ => True
  | .insert x => Drawn cfg x
  | .commit x xid request items => Drawn cfg x ∧ xid < s.links.xid ∧
    (∃ k, k.requestId = request.id ∧ ⟨none, some (xid, x.link cfg k)⟩ ∈ s.links.publicLink ∧
      ∀ c ∈ s.links.publicLink, ∀ new, c.pending = some (xid, new) →
        c = ⟨none, some (xid, x.link cfg k)⟩) ∧
    ∀ item ∈ items, item.requestId = request.id

/-- The session was given for a link of its request. -/
def Admitted (s : State) (session : ClientSession) : Prop :=
  ∃ link ∈ s.links.links, link.id = session.linkId ∧ link.requestId = session.requestId

/-- The item a deposit has found. -/
def Found (s : State) : Deposits.Call → Prop
  | .put d _ _ _ | .upsert d _ _ _ =>
    ∃ item ∈ s.requestedItem, item.id = d.itemId ∧ item.requestId = d.requestId
  | _ => True

def ClientAsserts (s : State) : Client → Prop
  | .body session _ => Admitted s session
  | .deposit session f => Admitted s session ∧
    (Deposits.depositOf f).requestId = session.requestId ∧ Found s f
  | _ => True

def Asserts (cfg : Config) (s : State) : Call → Prop
  | .create f => CreateAsserts cfg s f
  | .links f => PublicLinks.Asserts cfg.toConfig s.links f ∧ Inserted cfg.toConfig s.links f ∧
    ∀ requestId, ownedOf f = some requestId → s.Has requestId
  | .client f => ClientAsserts s f
  | .seed f => ∀ requestId, f.demo = some requestId → s.Has requestId

/-! ## What another call leaves alone -/

theorem Grows.has (h : Grows s s') (hr : s.Has requestId) : s'.Has requestId := by
  obtain ⟨r, hr, e⟩ := hr
  exact ⟨r, h.requests r hr, e⟩

theorem Grows.admitted {session : ClientSession} (h : Grows s s') (ha : Admitted s session) :
    Admitted s' session := by
  obtain ⟨link, hl, hid, hreq⟩ := ha
  obtain ⟨link', hl', hk⟩ := h.links link hl
  exact ⟨link', hl', hk.same.1.trans hid, hk.same.2.2.trans hreq⟩

theorem Grows.found {g : Deposits.Call} (h : Grows s s') (hf : Found s g) : Found s' g := by
  have hitem : ∀ d : Deposits.Deposit,
      (∃ item ∈ s.requestedItem, item.id = d.itemId ∧ item.requestId = d.requestId) →
      ∃ item ∈ s'.requestedItem, item.id = d.itemId ∧ item.requestId = d.requestId := by
    rintro d ⟨item, hi, hid, hreq⟩
    obtain ⟨item', hi', e⟩ := h.items item hi
    simp only [RequestedItem.ids, Deposits.RequestedItem.mk.injEq] at e
    exact ⟨item', hi', e.1.trans hid, e.2.trans hreq⟩
  cases g with
  | put d _ _ _ | upsert d _ _ _ => exact hitem d hf
  | _ => trivial

theorem Inserted.frame {cfg : PublicLinks.Config} {t t' : PublicLinks.State} {g : PublicLinks.Call}
    (h : Inserted cfg t g)
    (hf : ∀ y, g.tx = some y → Frame y.xid t.publicLink t'.publicLink) : Inserted cfg t' g := by
  cases g with
  | update x | updating x _ | create x _ =>
    exact fun c hc new hp => h c ((hf x rfl c new hp).1 hc) new hp
  | commit x => exact fun c hc new hp => h c ((hf x rfl c new hp).1 hc) new hp
  | start _ | hash _ _ _ _ _ | done _ _ => trivial

theorem Asserts.frame (h : Asserts cfg s e) (hg : Grows s s') (hx : s.links.xid ≤ s'.links.xid)
    (hf : ∀ t, e.xid = some t → Frame t s.links.publicLink s'.links.publicLink) :
    Asserts cfg s' e := by
  cases e with
  | create g =>
    cases g with
    | start _ _ | done _ _ => trivial
    | insert x => exact h
    | commit x xid request items =>
      obtain ⟨hd, hlt, ⟨k, hk, hm, hown⟩, hitems⟩ := h
      refine ⟨hd, Nat.lt_of_lt_of_le hlt hx, ⟨k, hk, (hf xid rfl _ _ rfl).2 hm, ?_⟩, hitems⟩
      exact fun c hc new hp => hown c ((hf xid rfl c new hp).1 hc) new hp
  | links g =>
    have hf' : ∀ y, g.tx = some y → Frame y.xid s.links.publicLink s'.links.publicLink :=
      fun y hy => hf y.xid (by rw [Call.xid, hy]; rfl)
    exact ⟨h.1.frame hx hf', h.2.1.frame hf', fun requestId hr => hg.has (h.2.2 requestId hr)⟩
  | client g =>
    cases g with
    | body session upload => exact hg.admitted h
    | deposit session g => exact ⟨hg.admitted h.1, h.2.1, hg.found h.2.2⟩
    | _ => trivial
  | seed g => exact fun requestId hr => hg.has (h requestId hr)

theorem Asserts.begun (h : Asserts cfg s e) {t : Xid} (ht : e.xid = some t) : t < s.links.xid := by
  cases e with
  | create g =>
    cases g with
    | commit x xid request items => cases ht; exact h.2.1
    | _ => cases ht
  | links g =>
    obtain ⟨y, hy, rfl⟩ := Option.map_eq_some_iff.1 ht
    exact h.1.begun hy
  | client g | seed g => cases ht

/-- The transaction of a step is the one the call had, or a new one. -/
theorem Step.xid (h : Step cfg k s f s' f') {t : Xid} (ht : f'.xid = some t) :
    f.xid = some t ∨ t = s.links.xid := by
  cases h with
  | create g g' s' h =>
    cases h with
    | inserted x T hT => cases ht; exact .inr rfl
    | _ => cases ht
  | links g g' t' h =>
    obtain ⟨y, hy, rfl⟩ := Option.map_eq_some_iff.1 ht
    rcases (PublicLinks.step_of_exec h).tx hy with hy | hy
    · exact .inl (by rw [Call.xid, hy]; rfl)
    · exact .inr hy
  | client g g' s' h | seed g g' s' h => cases ht
  | reissued owner requestId => cases ht

/-! ## What a step adds to the tables -/

/-- The links after a commit: those of before, perhaps revoked, and those the transaction inserted. -/
theorem committed_cases {t : PublicLinks.State} (hI : PublicLinks.Sound t) {xid : Xid}
    (hl : link ∈ rows (ReadCommitted.commit xid t.publicLink)) :
    (∃ old ∈ t.links, Kept old link) ∨
      ∃ c ∈ t.publicLink, c.committed = none ∧ c.pending = some (xid, link) := by
  rw [rows_commit] at hl
  obtain ⟨c, hc, hs⟩ := List.mem_filterMap.1 hl
  rcases sees_eq_some.1 hs with hp | ⟨-, hcom⟩
  · cases hcom : c.committed with
    | none => exact .inr ⟨c, hc, hcom, hp⟩
    | some old =>
      exact .inl ⟨old, List.mem_filterMap.2 ⟨c, hc, hcom⟩, .inr (hI.change c hc _ _ hp old hcom)⟩
  · exact .inl ⟨link, List.mem_filterMap.2 ⟨c, hc, hcom⟩, .inl rfl⟩

/-- The links a transaction publishes belong to requests that are in the table. -/
theorem linkRequest_commit {t : PublicLinks.State} (xid : Xid) (request : List DepositRequest)
    (hI : PublicLinks.Sound t)
    (h : ∀ link ∈ t.links, ∃ r ∈ t.depositRequest, r.id = link.requestId)
    (hnew : ∀ c ∈ t.publicLink, ∀ new, c.pending = some (xid, new) → c.committed = none →
      ∃ r ∈ t.depositRequest ++ request, r.id = new.requestId) :
    ∀ link ∈ rows (ReadCommitted.commit xid t.publicLink),
      ∃ r ∈ t.depositRequest ++ request, r.id = link.requestId := by
  intro link hl
  obtain ⟨old, ho, hk⟩ | ⟨c, hc, hn, hp⟩ := committed_cases hI hl
  · obtain ⟨r, hr, e⟩ := h old ho
    exact ⟨r, List.mem_append_left _ hr, e.trans hk.same.2.2.symm⟩
  · exact hnew c hc link hp hn

/-- The rows of a nested write, next to the ones that are there. -/
theorem itemRequest_add {request : List DepositRequest} {items : List RequestedItem}
    (h : ∀ item ∈ s.requestedItem, ∃ r ∈ s.links.depositRequest, r.id = item.requestId)
    (hitems : ∀ item ∈ items, ∃ r ∈ s.links.depositRequest ++ request, r.id = item.requestId) :
    ∀ item ∈ s.requestedItem ++ items,
      ∃ r ∈ s.links.depositRequest ++ request, r.id = item.requestId := by
  intro item hi
  rcases List.mem_append.1 hi with hi | hi
  · obtain ⟨r, hr, e⟩ := h item hi
    exact ⟨r, List.mem_append_left _ hr, e⟩
  · exact hitems item hi

/-- A state with the same rows, as far as the keys go. -/
theorem intact_congr (h : Intact s.database)
    (hr : s'.links.depositRequest = s.links.depositRequest) (hl : s'.links.links = s.links.links)
    (hi : s'.requestedItem.map RequestedItem.ids = s.requestedItem.map RequestedItem.ids)
    (hf : s'.uploadedFile = s.uploadedFile) : Intact s'.database := by
  have hids : ∀ items : List RequestedItem, items.map RequestedItem.id =
      (items.map RequestedItem.ids).map Deposits.RequestedItem.id := by
    intro items
    rw [List.map_map]
    rfl
  have hback : ∀ item ∈ s'.requestedItem, ∃ old ∈ s.requestedItem, old.id = item.id ∧
      old.requestId = item.requestId := by
    intro item hm
    have hm' := List.mem_map_of_mem (f := RequestedItem.ids) hm
    rw [hi] at hm'
    obtain ⟨old, ho, e⟩ := List.mem_map.1 hm'
    simp only [RequestedItem.ids, Deposits.RequestedItem.mk.injEq] at e
    exact ⟨old, ho, e.1, e.2⟩
  refine ⟨?_, ?_, ?_, fun link hl' => ?_, fun item hm => ?_, fun file hm => ?_⟩
  · simp only [State.database, hr]; exact h.requestIds
  · simp only [State.database, hids, hi]
    rw [← hids]; exact h.itemIds
  · simp only [State.database, hf]; exact h.oneFile
  · simp only [State.database, hl, hr] at hl' ⊢
    exact h.linkRequest link hl'
  · obtain ⟨old, ho, -, e⟩ := hback item hm
    simp only [State.database, hr, ← e]
    exact h.itemRequest old ho
  · simp only [State.database, hf] at hm
    obtain ⟨item, hitem, e⟩ := h.fileItem file hm
    have hm' := List.mem_map_of_mem (f := RequestedItem.ids) hitem
    simp only [State.database] at hm'
    rw [← hi] at hm'
    obtain ⟨new, hnew, e'⟩ := List.mem_map.1 hm'
    simp only [RequestedItem.ids, Deposits.RequestedItem.mk.injEq] at e'
    exact ⟨new, hnew, e'.1.trans e⟩

/-! ## One step -/

/-- New requests and items, their keys checked. -/
theorem Sound.add {request : List DepositRequest} {items : List RequestedItem} {T : Table Xid PublicLink}
    (h : Sound s) (hkeys : PrimaryKeys s request items)
    (hlinks : ∀ link ∈ rows T, ∃ r ∈ s.links.depositRequest ++ request, r.id = link.requestId)
    (hitems : ∀ item ∈ items, ∃ r ∈ s.links.depositRequest ++ request, r.id = item.requestId) :
    Intact { s.add request items with
      links := { (s.add request items).links with publicLink := T } }.database where
  requestIds := hkeys.1
  itemIds := hkeys.2
  oneFile := h.intact.oneFile
  linkRequest := hlinks
  itemRequest := itemRequest_add h.intact.itemRequest hitems
  fileItem file hf := by
    obtain ⟨item, hi, e⟩ := h.intact.fileItem file hf
    exact ⟨item, List.mem_append_left _ hi, e⟩

theorem mem_append_self {request : DepositRequest} {l : List DepositRequest} :
    ∃ r ∈ l ++ [request], r.id = request.id :=
  ⟨request, List.mem_append_right _ List.mem_cons_self, rfl⟩

theorem Create.Step.sound {g g' : Create} (h : Create.Step cfg k s g s' g') (hI : Sound s)
    (hg : CreateAsserts cfg s g) : Sound s' := by
  cases h with
  | failed _ _ _ _ | drawn _ _ _ _ => exact hI
  | inserted x T hT =>
    refine ⟨⟨hI.links.wf.insert hT, fun c hc t new hp => ?_, fun c hc t new hp => ?_⟩,
      intact_congr hI.intact rfl (rows_insert hT) rfl rfl⟩
    · rcases (mem_insert hT).1 hc with hc | rfl
      · exact Nat.lt_succ_of_lt (hI.links.fresh c hc t new hp)
      · cases hp; exact Nat.lt_succ_self _
    · rcases (mem_insert hT).1 hc with hc | rfl
      · exact hI.links.change c hc t new hp
      · exact fun old hold => by cases hold
  | aborted x xid _ _ _ =>
    exact ⟨hI.links.ended (hI.links.wf.rollback xid) fun _ => mem_rollback,
      intact_congr hI.intact rfl (rows_rollback _ _) rfl rfl⟩
  | created x xid request items hkeys =>
    obtain ⟨-, -, ⟨k', hreq, -, hown⟩, hitems⟩ := hg
    have hend := hI.links.ended (hI.links.wf.commit xid) fun _ => mem_commit
    refine ⟨⟨hend.wf, hend.fresh, hend.change⟩, hI.add hkeys ?_ fun item hi => ?_⟩
    · refine linkRequest_commit xid [request] hI.links hI.intact.linkRequest fun c hc new hp _ => ?_
      obtain rfl := hown c hc new hp
      cases hp
      rw [show (x.link cfg k').requestId = request.id from hreq]
      exact mem_append_self
    · rw [hitems item hi]; exact mem_append_self

theorem Create.Step.asserts {g g' : Create} (h : Create.Step cfg k s g s' g') (hI : Sound s)
    (hg : CreateAsserts cfg s g) : CreateAsserts cfg s' g' := by
  cases h with
  | failed _ _ _ _ | aborted _ _ _ _ _ | created _ _ _ _ _ => trivial
  | drawn lawyerId input x hx => subst hx; exact ⟨⟨k.random, rfl⟩, k.salt, rfl⟩
  | inserted x T hT =>
    refine ⟨hg, Nat.lt_succ_self _, ⟨k, rfl, (mem_insert hT).2 (.inr rfl), fun c hc new hp => ?_⟩,
      fun item => requestId_of_mem_itemRows⟩
    rcases (mem_insert hT).1 hc with hc | hc
    · exact absurd (hI.links.fresh c hc _ new hp) (lt_irrefl _)
    · exact hc

section
variable {t t' : PublicLinks.State} {g g' : PublicLinks.Call}

theorem mem_of_owned {lawyerId : LawyerId} {ownedId : RequestId}
    (h : t.ownedRequestId requestId lawyerId = some ownedId) :
    ∃ r ∈ t.depositRequest, r.id = ownedId := by
  obtain ⟨r, hr, rfl⟩ := Option.map_eq_some_iff.1 h
  exact ⟨r, List.mem_of_find?_eq_some hr, rfl⟩

/-- What a transaction has inserted, one step further. -/
theorem inserted_step {cfg : PublicLinks.Config} {k : PublicLinks.Choice}
    (h : PublicLinks.Step cfg k t g t' g') (hI : PublicLinks.Sound t)
    (ha : PublicLinks.Asserts cfg t g) (hg : Inserted cfg t g) : Inserted cfg t' g' := by
  cases h with
  | refused _ _ | drawn _ _ _ _ _ | hashFailed _ _ _ _ _ _ | aborted _ _ _ _ | committed _ => trivial
  | beganRevoke _ _ _ _ | began _ _ _ _ _ _ _ =>
    exact fun c hc new hp => absurd (hI.fresh c hc _ new hp) (lt_irrefl _)
  | matched x todo => exact hg
  | wrote x row todo T hT =>
    intro c hc new hp
    rcases mem_updateRow hT hc with hc | ⟨d, hd, r, -, hs, -, rfl⟩
    · exact hg c hc new hp
    · rcases sees_eq_some.1 hs with hp' | ⟨-, hcom⟩
      · exact hg d hd r hp'
      · simp [hcom]
  | revoked x hl => exact fun c hc new hp hn => absurd hn (hg c hc new hp)
  | replaced x link hl => exact hg
  | inserted x link T hT =>
    intro c hc new hp hn
    rcases (mem_insert hT).1 hc with hc | rfl
    · exact absurd hn (hg c hc new hp)
    · cases hp; exact ⟨link, k, ha.2, rfl⟩

theorem owned_step {cfg : PublicLinks.Config} {k : PublicLinks.Choice}
    (h : PublicLinks.Step cfg k t g t' g') {P : RequestId → Prop}
    (hP : ∀ id, (∃ r ∈ t.depositRequest, r.id = id) → P id)
    (hg : ∀ id, ownedOf g = some id → P id) : ∀ id, ownedOf g' = some id → P id := by
  intro id hid
  cases h with
  | refused _ _ | hashFailed _ _ _ _ _ _ | aborted _ _ _ _ | committed _ => cases hid
  | drawn ownedId _ _ _ ho | beganRevoke ownedId _ _ ho => cases hid; exact hP _ (mem_of_owned ho)
  | began args ownedId days token pin link hlink => exact hg id hid
  | matched _ _ | wrote _ _ _ _ _ | revoked _ _ | replaced _ _ _ | inserted _ _ _ _ => exact hg id hid

/-- What a step of `PublicLinksService` publishes is a link of the request its call has found. -/
theorem linkRequest_step {cfg : PublicLinks.Config} {k : PublicLinks.Choice}
    (h : PublicLinks.Step cfg k t g t' g') (hI : PublicLinks.Sound t)
    (ha : PublicLinks.Asserts cfg t g)
    (howned : ∀ id, ownedOf g = some id → ∃ r ∈ t.depositRequest, r.id = id)
    (hfk : ∀ link ∈ t.links, ∃ r ∈ t.depositRequest, r.id = link.requestId) :
    ∀ link ∈ t'.links, ∃ r ∈ t'.depositRequest, r.id = link.requestId := by
  obtain e | ⟨x, rfl, rfl, -⟩ := h.links
  · rw [e, depositRequest_exec h]; exact hfk
  · have hall := linkRequest_commit x.xid [] hI hfk fun c hc new hp _ => by
      rw [List.append_nil, ha.1.own c hc new hp]
      exact howned _ rfl
    rw [List.append_nil] at hall
    exact hall

end

theorem links_step {g g' : PublicLinks.Call} {t : PublicLinks.State} (hI : Sound s)
    (h : PublicLinks.exec cfg.toConfig k.links s.links g = some (t, g'))
    (ha : Asserts cfg s (.links g)) :
    Sound { s with links := t } ∧ Asserts cfg { s with links := t } (.links g') := by
  have hstep := PublicLinks.step_of_exec h
  obtain ⟨hsound, hasserts⟩ := hstep.keeps hI.links ha.1
  refine ⟨⟨hsound, ?_⟩, hasserts, inserted_step hstep hI.links ha.1 ha.2.1, ?_⟩
  · have hr := depositRequest_exec hstep
    have hk := hI.intact
    refine ⟨?_, hk.itemIds, hk.oneFile, ?_, ?_, hk.fileItem⟩
    · simp only [State.database, hr]; exact hk.requestIds
    · exact linkRequest_step hstep hI.links ha.1 ha.2.2 hk.linkRequest
    · simp only [State.database, hr]; exact hk.itemRequest
  · refine owned_step hstep (fun id hid => ?_) fun id hid => ?_
    · simpa only [State.Has, depositRequest_exec hstep] using hid
    · simpa only [State.Has, depositRequest_exec hstep] using ha.2.2 id hid

/-- A deposit's step: the rows still have one item each. -/
theorem deposit_intact {d : Deposits.State} {g g' : Deposits.Call} (hI : Sound s) (hf : Found s g)
    (h : Deposits.Step cfg.normalizeNFKD k.deposits s.deposits g d g') :
    Intact (s.withDeposits d).database := by
  have hk := hI.intact
  refine ⟨hk.requestIds, hk.itemIds, ?_, hk.linkRequest, hk.itemRequest, ?_⟩
  · simp only [State.database, withDeposits_uploadedFile]
    obtain e | ⟨dep, key, prev, m, -, -, e⟩ := h.files <;> rw [e]
    · exact hk.oneFile
    · exact Deposits.nodup_upsert hk.oneFile
  · intro file hfile
    simp only [State.database, withDeposits_uploadedFile, withDeposits_requestedItem] at hfile ⊢
    obtain e | ⟨dep, key, prev, m, rfl, -, e⟩ := h.files <;> rw [e] at hfile
    · exact hk.fileItem file hfile
    · rcases Deposits.mem_upsert.1 hfile with rfl | ⟨hfile, -⟩
      · obtain ⟨item, hi, hid, -⟩ := hf
        exact ⟨item, hi, hid⟩
      · exact hk.fileItem file hfile

/-- A deposit has found its item by the time it stores anything. -/
theorem found_step {d : Deposits.State} {g g' : Deposits.Call} (hf : Found s g)
    (h : Deposits.Step cfg.normalizeNFKD k.deposits s.deposits g d g') : Found s g' := by
  cases h with
  | accepted dep key m hitem _ _ _ =>
    obtain ⟨item, hfound⟩ := Option.ne_none_iff_exists'.1 hitem
    obtain ⟨row, hrow, rfl⟩ := List.mem_map.1 (List.mem_of_find?_eq_some hfound)
    have hp := List.find?_some hfound
    simp only [RequestedItem.ids, Bool.and_eq_true, beq_iff_eq] at hp
    exact ⟨row, hrow, hp⟩
  | stored dep key prev m => exact hf
  | upserted dep key prev m _ =>
    unfold Deposits.afterRecord
    split
    · trivial
    · split <;> trivial
  | _ => trivial

theorem canActivate_ok {jwt : Public.Jwt} {fails : Bool} {links : List PublicLink}
    {cookies : Public.Cookies} {verifiedAt now : Int} {session : ClientSession}
    (h : Public.canActivate jwt fails links cookies verifiedAt now = .ok session) :
    ∃ link ∈ links, link.revokedAt = none ∧ PublicLinks.isExpired link.expiresAt now = false ∧
      session = ⟨link.id, link.requestId, link.expiresAt⟩ := by
  unfold Public.canActivate at h
  split at h
  · cases h
  · split at h
    · cases h
    · split at h
      · split at h
        · cases h
        · unfold Public.acceptLink at h
          split at h
          · cases h
          · next link hl =>
            split at h
            · cases h
            · next hok =>
              simp only [Bool.or_eq_true, not_or, Bool.not_eq_true, Option.isSome_eq_false_iff,
                Option.isNone_iff_eq_none] at hok
              exact ⟨link, List.mem_of_find?_eq_some hl, hok.1, hok.2, (Except.ok.inj h).symm⟩
      · cases h

theorem client_step {g g' : Client} (hI : Sound s) (h : Client.Step cfg k s g s' g')
    (ha : ClientAsserts s g) : Sound s' ∧ ClientAsserts s' g' := by
  cases h with
  | answered g g' hbody hdep =>
    refine ⟨hI, ?_⟩
    cases g' with
    | body session upload => exact absurd rfl (hbody session upload)
    | deposit session f => exact absurd rfl (hdep session f)
    | _ => trivial
  | admitted cookies upload session hs =>
    obtain ⟨link, hl, -, -, rfl⟩ := canActivate_ok hs
    exact ⟨hI, link, hl, rfl, rfl⟩
  | began session upload file => exact ⟨hI, ha, rfl, trivial⟩
  | deposit session f f' d he =>
    have hstep := Deposits.step_of_exec he
    have hfound : Found s f' := found_step ha.2.2 hstep
    refine ⟨⟨hI.links, deposit_intact hI ha.2.2 hstep⟩, ha.1, ?_, hfound⟩
    rw [Deposits.depositOf_step hstep]
    exact ha.2.1

theorem Known.has {g g' : Seed} (h : Known s g g')
    (hg : ∀ requestId, g.demo = some requestId → s.Has requestId) :
    ∀ requestId, g'.demo = some requestId → s.Has requestId :=
  fun requestId hid => (h requestId hid).elim (hg requestId) fun hr => hr

theorem seed_step {g g' : Seed} (hI : Sound s) (h : Seed.Step s g s' g')
    (ha : ∀ id, g.demo = some id → s.Has id) :
    Sound s' ∧ ∀ id, g'.demo = some id → s'.Has id := by
  cases h with
  | read g g' hk => exact ⟨hI, hk.has ha⟩
  | account g g' lawyer hk => exact ⟨⟨hI.links, hI.intact⟩, hk.has ha⟩
  | realigned g g' requestId label position hk =>
    exact ⟨⟨hI.links, intact_congr hI.intact rfl rfl (ids_realign s requestId label position) rfl⟩,
      hk.has ha⟩
  | created owner request items hkeys hitems =>
    refine ⟨⟨⟨hI.links.wf, hI.links.fresh, hI.links.change⟩, hI.add hkeys (fun link hl => ?_)
      fun item hi => by rw [hitems item hi]; exact mem_append_self⟩, fun id hid => ?_⟩
    · obtain ⟨r, hr, e⟩ := hI.intact.linkRequest link hl
      exact ⟨r, List.mem_append_left _ hr, e⟩
    · cases hid; exact mem_append_self
  | repaired owner demo items hkeys hitems =>
    have hdemo := ha _ rfl
    refine ⟨⟨⟨hI.links.wf, hI.links.fresh, hI.links.change⟩, hI.add hkeys (fun link hl => ?_)
      fun item hi => ?_⟩, fun id hid => ?_⟩
    · rw [List.append_nil]; exact hI.intact.linkRequest link hl
    · rw [List.append_nil, hitems item hi]; exact hdemo
    · cases hid
      obtain ⟨r, hr, e⟩ := hdemo
      exact ⟨r, List.mem_append_left _ hr, e⟩

theorem Step.keeps (h : Step cfg k s f s' f') (hI : Sound s) (ha : Asserts cfg s f) :
    Sound s' ∧ Asserts cfg s' f' := by
  cases h with
  | create g g' s' h => exact ⟨h.sound hI ha, h.asserts hI ha⟩
  | links g g' t h => exact links_step hI h ha
  | client g g' s' h => exact client_step hI h ha
  | seed g g' s' h => exact seed_step hI h ha
  | reissued owner requestId => exact ⟨hI, trivial, trivial, fun id hid => by cases hid⟩

/-- Before its first step a call knows nothing. -/
theorem asserts_of_enters (cfg : Config) (s : State) (h : enters f = true) : Asserts cfg s f ∧ f.xid = none := by
  cases f with
  | create g =>
    cases g with
    | start lawyerId input => exact ⟨trivial, rfl⟩
    | _ => cases h
  | links g =>
    cases g with
    | start args => exact ⟨⟨trivial, trivial, fun id hid => by cases hid⟩, rfl⟩
    | _ => cases h
  | client g =>
    cases g with
    | unlock token pin | visit cookies upload => exact ⟨trivial, rfl⟩
    | _ => cases h
  | seed g =>
    cases g with
    | start env => exact ⟨fun id hid => (by cases hid), rfl⟩
    | _ => cases h

theorem outline (cfg : Config) (plan : Plan) :
    PairOutline (machine cfg plan) (fun _ _ _ => True) Sound (Asserts cfg) Apart where
  symm f e h t u ht hu := (h u t hu ht).symm
  enter s f _ hf := (asserts_of_enters cfg s hf).1
  meet s f e _ hf _ t u ht _ := by
    rw [(asserts_of_enters cfg s hf).2] at ht
    cases ht
  keeps k s f s' f' hI hf _ he := (step_of_exec he).keeps hI hf
  stable k s f s' f' e hI _ he hK _ h := by
    have hstep := step_of_exec h
    exact he.frame (hstep.grows hI.links) hstep.xid_le fun t ht =>
      hstep.frame (fun u hu => (hK u t hu ht).symm) (he.begun ht)
  apart k s f s' f' e _ _ he hK _ h t u ht hu := by
    rcases (step_of_exec h).xid ht with ht | rfl
    · exact hK t u ht hu
    · exact (he.begun hu).ne'

/-! ## The rows of `UploadedFile` -/

/-- Only the upsert of a deposit writes them, -/
theorem Step.uploads (h : Step cfg k s f s' f') : s'.uploadedFile = s.uploadedFile ∨
    ∃ session d key prev m, f = .client (.deposit session (.upsert d key prev m)) ∧ k.fault = none ∧
      s'.requestedItem = s.requestedItem ∧
      s'.uploadedFile = (s.deposits.upsert (Deposits.rowOf d key m k.now)).uploadedFile := by
  cases h with
  | create g g' s' h => cases h <;> exact .inl rfl
  | links g g' t h => exact .inl rfl
  | client g g' s' h =>
    cases h with
    | deposit session f f' d he =>
      obtain e | ⟨dep, key, prev, m, rfl, hfault, e⟩ := (Deposits.step_of_exec he).files
      · exact .inl e
      · refine .inr ⟨session, dep, key, prev, m, rfl, ?_, rfl, e⟩
        simpa [Choice.deposits] using hfault
    | _ => exact .inl rfl
  | seed g g' s' h => cases h <;> exact .inl rfl
  | reissued owner requestId => exact .inl rfl

/-- and it writes the row of an item of its session's request. -/
theorem Step.upload_own (h : Step cfg k s f s' f') (hI : Sound s) (ha : Asserts cfg s f)
    {item : RequestedItem} (hitem : item ∈ s'.requestedItem) {file : UploadedFile}
    (hfile : file.requestedItemId = item.id)
    (hne : ¬ (file ∈ s'.uploadedFile ↔ file ∈ s.uploadedFile)) :
    ∃ session d key prev m, f = .client (.deposit session (.upsert d key prev m)) ∧ k.fault = none ∧
      session.requestId = item.requestId := by
  obtain e | ⟨session, d, key, prev, m, rfl, hfault, hitems, e⟩ := h.uploads
  · exact absurd (by rw [e]) hne
  refine ⟨session, d, key, prev, m, rfl, hfault, ?_⟩
  obtain ⟨-, hreq, found, hfound, hid, hfreq⟩ := ha
  rw [hitems] at hitem
  by_cases hd : d.itemId = item.id
  · obtain rfl : found = item :=
      Requests.eq_of_nodup_map hI.intact.itemIds hfound hitem (hid.trans hd)
    exact hreq.symm.trans hfreq.symm
  · refine absurd ?_ hne
    rw [e, Deposits.mem_upsert]
    constructor
    · rintro (rfl | ⟨hm, -⟩)
      · exact absurd hfile hd
      · exact hm
    · exact fun hm => .inr ⟨hm, fun he => hd (he.symm.trans hfile)⟩

/-! ## Runs -/

variable {w w' : World State Call} {G : World State Call → Act Call Choice → Prop}

theorem sound_empty : Sound State.empty where
  links := ⟨List.Pairwise.nil, fun _ h => (by cases h), fun _ h => by cases h⟩
  intact := ⟨List.nodup_nil, List.nodup_nil, List.nodup_nil, fun _ h => (by cases h),
    fun _ h => (by cases h), fun _ h => by cases h⟩

/-- What holds in every world the portal reaches. -/
theorem holds (h : (machine cfg plan).Reaches G ⟨State.empty, []⟩ w) :
    Holds Sound (Asserts cfg) w :=
  ((outline cfg plan).run h (fun _ _ _ _ _ _ => trivial) ⟨sound_empty, by simp⟩
    (by simp [Interleave.Apart])).1

theorem apart (h : (machine cfg plan).Reaches G ⟨State.empty, []⟩ w) : Interleave.Apart Apart w :=
  ((outline cfg plan).run h (fun _ _ _ _ _ _ => trivial) ⟨sound_empty, by simp⟩
    (by simp [Interleave.Apart])).2

theorem next_grows {a : Act Call Choice} (hI : Sound w.shared)
    (hn : (machine cfg plan).next w a = some w') : Grows w.shared w'.shared := by
  obtain ⟨f, -, -, rfl⟩ | ⟨i, k, f, s, f', -, -, he, rfl⟩ := next_cases hn
  · exact .refl _
  · exact (step_of_exec he).grows hI.links

/-- What was there stays there. -/
theorem reaches_grows (hb : (machine cfg plan).Reaches G ⟨State.empty, []⟩ w)
    (ha : (machine cfg plan).Reaches G w w') : Grows w.shared w'.shared := by
  refine ha.induct (I := fun v => Grows w.shared v.shared) (.refl _) ?_
  intro v a v' hv ih _ hn
  exact ih.trans (next_grows (holds (hb.trans hv)).1 hn)

/-! ### A portal to run -/

/-- Its hashes show what they hash. -/
def portal : Config :=
  { Public.desk with jwt := Public.dated, normalizeNFKD := id, isUUID := fun _ => true }

/-- One step at `now`; `random` is repeated in the token it draws, and names the row it inserts. -/
def tick (now : Int) (random : UInt8) : Choice where
  now := now
  random := List.replicate PublicLinks.TOKEN_BYTES random
  pin := 42
  salt := []
  uuid := [random.toUInt16]
  requestId := js "dossier"
  itemIds := [js "contract"]
  pick := 0
  fault := none

/-- Runs from an empty portal, under a guard. -/
def played (P : World State Call → Choice → Call → Prop) [∀ w k f, Decidable (P w k f)]
    (acts : List (Act Call Choice)) : World State Call :=
  ((machine portal Requests.heapPlan).play (fun w a => decide (OnRun P w a)) ⟨State.empty, []⟩
    acts).getD ⟨State.empty, []⟩

theorem reaches_played {P : World State Call → Choice → Call → Prop} [∀ w k f, Decidable (P w k f)]
    (acts : List (Act Call Choice))
    (h : ((machine portal Requests.heapPlan).play (fun w a => decide (OnRun P w a))
      ⟨State.empty, []⟩ acts).isSome = true) :
    (machine portal Requests.heapPlan).Reaches (OnRun P) ⟨State.empty, []⟩ (played P acts) :=
  reaches_decide h _

/-- The moves from an empty portal, the last one first, and the world they reach. -/
def moved (P : World State Call → Choice → Call → Prop) [∀ w k f, Decidable (P w k f)]
    (acts : List (Act Call Choice)) : List (Move State Call Choice) × World State Call :=
  ((machine portal Requests.heapPlan).follow (fun w a => decide (OnRun P w a)) []
    ⟨State.empty, []⟩ acts).getD ([], ⟨State.empty, []⟩)

theorem run_moved {P : World State Call → Choice → Call → Prop} [∀ w k f, Decidable (P w k f)]
    (acts : List (Act Call Choice))
    (h : ((machine portal Requests.heapPlan).follow (fun w a => decide (OnRun P w a)) []
      ⟨State.empty, []⟩ acts).isSome = true) :
    (machine portal Requests.heapPlan).Run ⟨State.empty, []⟩ (moved P acts).1 (moved P acts).2 ∧
      All (OnRun P) (moved P acts).1 := by
  obtain ⟨hr, hG⟩ := run_getD h ([], ⟨State.empty, []⟩)
  exact ⟨hr, fun m hm => of_decide_eq_true (hG m hm)⟩

end DepositPortal.Portal
