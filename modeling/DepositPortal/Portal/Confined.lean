import DepositPortal.Portal.Isolation

/-!
# What a client's calls touch

The keys a deposit holds lie under its item: the one it drew starts with `requests/<R>/items/<itemId>/`
(`buildStorageKey`), and the one it replaces is the key of a row of its item, which some earlier deposit on
that item drew (`Keyed`). So what a client stores and erases stays among the objects of his request, and the
one row he writes is that of an item of it.
-/
namespace DepositPortal.Portal
open Interleave
open Requests (RequestedItem Plan)
open Public (Cookies ClientSession canActivate sessionRoute)
open Deposits (RequestId ItemId StorageKey IncomingFile UploadedFile itemPrefix depositOf touches)

variable {cfg : Config} {plan : Plan} {k : Choice} {s s' : State} {f f' e : Call}
  {w w' : World State Call} {G : World State Call → Act Call Choice → Prop}

/-! ## The keys -/

/-- The key lies under an item of the table. -/
def Under (s : State) (requestId : RequestId) (itemId : ItemId) (key : StorageKey) : Prop :=
  itemPrefix requestId itemId <+: key ∧
    ∃ item ∈ s.requestedItem, item.id = itemId ∧ item.requestId = requestId

/-- Every row names an object under its item. -/
def Keyed (s : State) : Prop :=
  ∀ file ∈ s.uploadedFile, ∃ requestId, Under s requestId file.requestedItemId file.storageKey

/-- The keys a deposit holds. -/
def keysOf : Deposits.Call → List StorageKey
  | .put _ key prev _ | .upsert _ key prev _ => key :: prev.toList
  | .forgetOwn _ key _ | .forgetPrevious _ key _ => [key]
  | .deposit _ | .count _ _ | .done _ _ => []

def KeyedCall (s : State) : Call → Prop
  | .client (.deposit _ f) =>
    ∀ key ∈ keysOf f, Under s (depositOf f).requestId (depositOf f).itemId key
  | _ => True

theorem Grows.under {requestId : RequestId} {itemId : ItemId} {key : StorageKey} (h : Grows s s')
    (hu : Under s requestId itemId key) : Under s' requestId itemId key := by
  obtain ⟨hp, item, hi, hid, hreq⟩ := hu
  obtain ⟨item', hi', e⟩ := h.items item hi
  simp only [RequestedItem.ids, Deposits.RequestedItem.mk.injEq] at e
  exact ⟨hp, item', hi', e.1.trans hid, e.2.trans hreq⟩

theorem Grows.keyedCall (h : Grows s s') (he : KeyedCall s e) : KeyedCall s' e := by
  cases e with
  | client g =>
    cases g with
    | deposit session f => exact fun key hk => h.under (he key hk)
    | _ => trivial
  | create g | links g | seed g => trivial

theorem mem_keysOf {f : Deposits.Call} {key : StorageKey} (h : touches f = some key) : key ∈ keysOf f := by
  cases f with
  | put d key prev m => cases h; exact List.mem_cons_self
  | forgetOwn d key error => cases h; exact List.mem_cons_self
  | forgetPrevious d key view => cases h; exact List.mem_cons_self
  | deposit d | upsert d key prev m | count d view | done d answer => cases h

/-! ## One step -/

/-- The key that was drawn, and the one it replaces. -/
theorem keyed_accepted {d : Deposits.Deposit} {key : StorageKey} (hI : Sound s) (hK : Keyed s)
    (hfound : s.deposits.findItem d.itemId d.requestId ≠ none)
    (hkey : itemPrefix d.requestId d.itemId <+: key) :
    ∀ held ∈ key :: ((s.deposits.fileOf d.itemId).map UploadedFile.storageKey).toList,
      Under s d.requestId d.itemId held := by
  obtain ⟨ids, hids⟩ := Option.ne_none_iff_exists'.1 hfound
  obtain ⟨item, hitem, rfl⟩ := List.mem_map.1 (List.mem_of_find?_eq_some hids)
  have hp := List.find?_some hids
  simp only [RequestedItem.ids, Bool.and_eq_true, beq_iff_eq] at hp
  intro held hheld
  rcases List.mem_cons.1 hheld with rfl | hheld
  · exact ⟨hkey, item, hitem, hp⟩
  · obtain ⟨file, hfile, rfl⟩ := Option.map_eq_some_iff.1 (Option.mem_toList.1 hheld)
    obtain ⟨hmem, hid⟩ := Deposits.fileOf_some hfile
    obtain ⟨requestId, hpre, owner, howner, hoid, horeq⟩ := hK file hmem
    -- the item of the row is the one that was found
    obtain rfl : owner = item :=
      Requests.eq_of_nodup_map hI.intact.itemIds howner hitem (hoid.trans (hid.trans hp.1.symm))
    rw [← hp.2, horeq, ← hid]
    exact ⟨hpre, owner, howner, hoid, horeq⟩

/-- After its first step a deposit holds no new key. -/
theorem keysOf_step {n : JsString → JsString} {k : Deposits.Choice} {a b : Deposits.State}
    {g g' : Deposits.Call} (h : Deposits.Step n k a g b g') (hg : ∀ d, g ≠ .deposit d)
    {key : StorageKey} (hk : key ∈ keysOf g') : key ∈ keysOf g := by
  cases h with
  | refused d error => exact absurd rfl (hg d)
  | accepted d key m _ _ _ _ => exact absurd rfl (hg d)
  | upserted d key prev m _ =>
    unfold Deposits.afterRecord at hk
    split at hk
    · cases hk
    · split at hk
      · cases hk
      · obtain rfl := List.mem_singleton.1 hk
        exact List.mem_cons_of_mem _ List.mem_cons_self
  | stored d key prev m => exact hk
  | upsertFailed d key prev m fault _ =>
    obtain rfl := List.mem_singleton.1 hk
    exact List.mem_cons_self
  | putFailed _ _ _ _ _ _ | forgotOwn _ _ _ | counted _ _ | forgotPrevious _ _ _ => cases hk

theorem Step.keyed (h : Step cfg k s f s' f') (hI : Sound s) (hK : Keyed s) (hf : KeyedCall s f) :
    Keyed s' := by
  have hg := h.grows hI.links
  obtain e | ⟨session, d, key, prev, m, rfl, -, -, e⟩ := h.uploads
  · intro file hfile
    rw [e] at hfile
    obtain ⟨requestId, hu⟩ := hK file hfile
    exact ⟨requestId, hg.under hu⟩
  · intro file hfile
    rw [e] at hfile
    rcases Deposits.mem_upsert.1 hfile with rfl | ⟨hold, -⟩
    · exact ⟨d.requestId, hg.under (hf key List.mem_cons_self)⟩
    · obtain ⟨requestId, hu⟩ := hK file hold
      exact ⟨requestId, hg.under hu⟩

theorem Client.Step.keyedCall {g g' : Client} (h : Client.Step cfg k s g s' g') (hI : Sound s)
    (hK : Keyed s) (hf : KeyedCall s (.client g)) (hgrows : Grows s s') : KeyedCall s' (.client g') := by
  cases h with
  | answered g g' hbody hdep =>
    cases g' with
    | deposit session f => exact absurd rfl (hdep session f)
    | _ => trivial
  | admitted cookies upload session _ => trivial
  | began session upload file => exact fun key hk => by cases hk
  | deposit session g g' d he =>
    have hstep := Deposits.step_of_exec he
    intro key hk
    rw [Deposits.depositOf_step hstep]
    refine hgrows.under ?_
    cases g with
    | deposit dep =>
      cases hstep with
      | refused _ error => cases hk
      | accepted _ drawn m hfound _ hdrawn _ =>
        refine keyed_accepted hI hK hfound ?_ key hk
        rw [hdrawn]
        exact Deposits.prefix_buildStorageKey
    | _ => exact hf key (keysOf_step hstep (fun _ => Deposits.Call.noConfusion) hk)

theorem Step.keyedCall (h : Step cfg k s f s' f') (hI : Sound s) (hK : Keyed s) (hf : KeyedCall s f) :
    KeyedCall s' f' := by
  have hg := h.grows hI.links
  cases h with
  | client g g' s' h => exact h.keyedCall hI hK hf hg
  | create _ _ _ _ | links _ _ _ _ | seed _ _ _ _ | reissued _ _ => trivial

/-! ## Runs -/

theorem keyedCall_of_enters (s : State) (h : enters f = true) : KeyedCall s f := by
  cases f with
  | client g =>
    cases g with
    | deposit session f => cases h
    | _ => trivial
  | create g | links g | seed g => trivial

/-- Every key lies under its item, in every world the portal reaches. -/
theorem keyed (h : (machine cfg plan).Reaches G ⟨State.empty, []⟩ w) : Holds Keyed KeyedCall w := by
  refine h.induct ⟨fun _ hm => (by cases hm), fun _ hm => by cases hm⟩ ?_
  intro v a v' hv ih _ hn
  have hI := (holds hv).1
  obtain ⟨g, -, hg, rfl⟩ | ⟨i, k, g, s, g', -, hg, he, rfl⟩ := next_cases hn
  · refine ⟨ih.1, fun c hc => ?_⟩
    rcases List.mem_append.1 hc with hc | hc
    · exact ih.2 c hc
    · rw [List.mem_singleton.1 hc]
      exact keyedCall_of_enters _ hg
  · have hstep := step_of_exec he
    refine ⟨hstep.keyed hI ih.1 (ih.call hg), fun c hc => ?_⟩
    rcases List.mem_or_eq_of_mem_set hc with hc | rfl
    · exact (hstep.grows hI.links).keyedCall (ih.2 c hc)
    · exact hstep.keyedCall hI ih.1 (ih.call hg)

/-! ## What a step of a client changes -/

/-- Nothing changes but the row of the item and the objects under it. -/
structure Inside (requestId : RequestId) (itemId : ItemId) (s s' : State) : Prop where
  lawyer : s'.lawyer = s.lawyer
  links : s'.links = s.links
  items : s'.requestedItem = s.requestedItem
  files : ∀ file, file.requestedItemId ≠ itemId → (file ∈ s'.uploadedFile ↔ file ∈ s.uploadedFile)
  objects : ∀ key, ¬ itemPrefix requestId itemId <+: key → s'.bucket.lookup key = s.bucket.lookup key
  /-- If anything does, the item is one of the request. -/
  own : s'.uploadedFile ≠ s.uploadedFile ∨ s'.bucket ≠ s.bucket →
    hasItem s.database requestId itemId = true

/-- **What a deposit touches.** -/
theorem deposit_inside {session : ClientSession} {g g' : Deposits.Call} {d : Deposits.State}
    (hf : KeyedCall s (.client (.deposit session g)))
    (h : Deposits.exec cfg.normalizeNFKD k.deposits s.deposits g = some (d, g')) :
    Inside (depositOf g).requestId (depositOf g).itemId s (s.withDeposits d) := by
  have hstep := Deposits.step_of_exec h
  have hunder : ∀ key ∈ keysOf g, itemPrefix (depositOf g).requestId (depositOf g).itemId <+: key ∧
      hasItem s.database (depositOf g).requestId (depositOf g).itemId = true := by
    intro key hk
    obtain ⟨hp, hitem⟩ := hf key hk
    exact ⟨hp, hasItem_iff.2 hitem⟩
  refine ⟨rfl, rfl, rfl, fun file hne => ?_, fun key hno => ?_, ?_⟩
  · obtain e | ⟨dep, key, prev, m, rfl, -, e⟩ := hstep.files
    · rw [withDeposits_uploadedFile, e]; rfl
    · rw [withDeposits_uploadedFile, e, Deposits.mem_upsert]
      constructor
      · rintro (rfl | ⟨hold, -⟩)
        · exact absurd rfl hne
        · exact hold
      · exact fun hold => .inr ⟨hold, hne⟩
  · obtain e | ⟨touched, ht, e⟩ := hstep.objects
    · exact congrArg (AList.lookup key) e
    · have hne : key ≠ touched := by
        rintro rfl
        exact hno (hunder key (mem_keysOf ht)).1
      obtain ⟨object, e⟩ | e := e
      · exact (congrArg (AList.lookup key) e).trans (AList.lookup_insert_ne hne)
      · exact (congrArg (AList.lookup key) e).trans (AList.lookup_erase_ne hne)
  · rintro (hfiles | hbucket)
    · obtain e | ⟨dep, key, prev, m, rfl, -, -⟩ := hstep.files
      · exact absurd e hfiles
      · exact (hunder key List.mem_cons_self).2
    · obtain e | ⟨touched, ht, -⟩ := hstep.objects
      · exact absurd e hbucket
      · exact (hunder touched (mem_keysOf ht)).2

/-- Up to the service nothing is written. -/
theorem client_reads {g g' : Client} (hg : ∀ session f, g ≠ .deposit session f)
    (h : g.exec cfg plan k s = some (s', g')) : s' = s := by
  cases g with
  | unlock token pin => cases h; rfl
  | visit cookies upload | body session upload =>
    simp only [Client.exec] at h
    split at h <;> cases h <;> rfl
  | deposit session f => exact absurd rfl (hg session f)
  | unlocked answer cookie | refused refusal => cases h

/-- **A client stays inside his request.** For a session, two item ids that pass the check of the body alike,
and a file:

* states with the same links of the request accept the session alike, and with the same rows of the request
  they show the same view;
* two deposits, in any two runs, whose steps meet the same choices and states that agree on the request and
  on the two items (one item, or none of the request's) are answered alike;
* so are two deposits that run each on its own from such states, and the states still agree;
* in every world the portal reaches, a step of the client before the service changes nothing, and a step of
  his deposit changes nothing but the row of an item of his request and objects under that item. -/
theorem client_stays_inside (cfg : Config) (plan : Plan) (session : ClientSession) (x y : ItemId)
    (file : Option IncomingFile) (hu : cfg.isUUID x = cfg.isUUID y) :
    (∀ s t : State, Sound s → Sound t → SameLinks session.requestId s t →
      ∀ fails cookies verifiedAt now,
        canActivate cfg.jwt fails s.links.links cookies verifiedAt now = .ok session ↔
          canActivate cfg.jwt fails t.links.links cookies verifiedAt now = .ok session) ∧
    (∀ s t : State, SameRequest session.requestId s t → ∀ fails,
      sessionRoute plan s.database fails (.ok session) =
        sessionRoute plan t.database fails (.ok session)) ∧
    (∀ w₀ tr w v₀ tr' v i j, (machine cfg plan).Run w₀ tr w → (machine cfg plan).Run v₀ tr' v →
      w₀.calls[i]? = some (.client (.body session ⟨x, file⟩)) →
      v₀.calls[j]? = some (.client (.body session ⟨y, file⟩)) →
      List.Forall₂ (fun a b => a.1 = b.1 ∧ Agree session.requestId x y a.2 b.2) (stepsOf i tr)
        (stepsOf j tr') →
      ∃ f g, w.calls[i]? = some (.client f) ∧ v.calls[j]? = some (.client g) ∧ f.reply = g.reply) ∧
    (∀ ks s t s' c, Agree session.requestId x y s t → Undrawn cfg ks t (.body session ⟨y, file⟩) →
      (machine cfg plan).alone ks s (.client (.body session ⟨x, file⟩)) = some (s', c) →
      ∃ f t' g, c = .client f ∧
        (machine cfg plan).alone ks t (.client (.body session ⟨y, file⟩)) = some (t', .client g) ∧
        f.reply = g.reply ∧ SameRequest session.requestId s' t') ∧
    ∀ w i k w' g, (machine cfg plan).Reaches (fun _ _ => True) ⟨State.empty, []⟩ w →
      w.calls[i]? = some (.client g) → (machine cfg plan).next w (.run i k) = some w' →
      ((∀ session f, g ≠ .deposit session f) → w'.shared = w.shared) ∧
      ∀ f, g = .deposit session f → (depositOf f).requestId = session.requestId ∧
        Inside session.requestId (depositOf f).itemId w.shared w'.shared ∧
        ∀ key, touches f = some key → itemPrefix session.requestId (depositOf f).itemId <+: key := by
  refine ⟨fun s t hs ht hlinks fails cookies verifiedAt now =>
      ⟨guard_same hs ht hlinks, guard_same ht hs hlinks.symm⟩,
    fun s t hrows fails => sessionRoute_same hrows fails, ?_, ?_, ?_⟩
  · intro w₀ tr w v₀ tr' v i j h h' hf hg hsteps
    obtain ⟨f, g, hf', hg', hF⟩ := runs_alike hu h h' hf hg (.body session file rfl) hsteps
    exact ⟨f, g, hf', hg', hF.reply⟩
  · intro ks s t s' c hA hnew h
    obtain ⟨f, t', g, hc, halone, hF, hA'⟩ := alone_alike hu hA (.body session file rfl) hnew h
    exact ⟨f, t', g, hc, halone, hF.reply, hA'.rows⟩
  · intro w i k w' g hw hg hn
    obtain ⟨_, e, -⟩ | ⟨_, _, f₀, s', f', e, hf₀, he, rfl⟩ := next_cases hn
    · cases e
    cases e
    obtain rfl : f₀ = .client g := Option.some.inj (hf₀.symm.trans hg)
    obtain ⟨⟨s₁, g'⟩, hexec, e⟩ := Option.map_eq_some_iff.1 he
    cases e
    refine ⟨fun hne => client_reads hne hexec, ?_⟩
    rintro f rfl
    obtain ⟨-, hreq, -⟩ := (holds hw).call hg
    have hkeys := (keyed hw).call hg
    obtain ⟨⟨d, f'⟩, hd, e⟩ := Option.map_eq_some_iff.1 hexec
    cases e
    have hinside := deposit_inside hkeys hd
    rw [hreq] at hinside
    refine ⟨hreq, hinside, fun key ht => ?_⟩
    rw [← hreq]
    exact (hkeys key (mem_keysOf ht)).1

/-! ### A neighbour -/

def mine : State where
  lawyer := []
  links := ⟨[⟨js "dossier", js "Achat", 0, js "alice"⟩], [], 0⟩
  requestedItem := [⟨js "contract", js "Contrat", 0, js "dossier"⟩]
  uploadedFile := []
  bucket := ∅
  metrics := []
  written := []
  drawn := []

/-- The same portal, with a request of bob's. -/
def neighbours : State :=
  mine.add [⟨js "secret", js "Divorce", 0, js "bob"⟩] [⟨js "deed", js "Acte", 0, js "secret"⟩]

/-- The item of the neighbour, and an item that exists nowhere. -/
theorem client_stays_inside_neighbour : ∃ t g,
    (machine portal Requests.heapPlan).alone [tick 1 1, tick 2 2] mine
      (.client (.body ⟨js "l0", js "dossier", 10⟩ ⟨js "nowhere", some ⟨js "a.pdf", []⟩⟩)) =
        some (t, .client g) ∧
    g.reply = some (.deposited (.error (.NotFoundException Deposits.ITEM_NOT_FOUND))) := by
  obtain ⟨-, -, -, h, -⟩ := client_stays_inside portal Requests.heapPlan ⟨js "l0", js "dossier", 10⟩
    (js "deed") (js "nowhere") (some ⟨js "a.pdf", []⟩) rfl
  obtain ⟨f, t', g, hc, halone, hreply, -⟩ := h [tick 1 1, tick 2 2] neighbours mine _ _
    ⟨rfl, .inr ⟨by decide +kernel, by decide +kernel⟩⟩
    (fun _ _ _ _ hm => by cases hm) rfl
  cases hc
  exact ⟨t', g, halone, hreply.symm⟩

end DepositPortal.Portal
