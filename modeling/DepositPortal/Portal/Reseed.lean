import DepositPortal.Portal.Lasting

/-!
# Running the seed again

The seed finds the demonstration request by its title and nothing else. If the request it finds is the
one a first run created, it has nothing to repair: the account already has this name and this address
(`updateLawyer_demo`), no piece is missing (`missingItems_nil`) and none is out of its place
(`realign_self`), so that only its links change. If it finds a request of another account, it fails, the
address being taken (`updateLawyer_other`). What is left is a request that the demonstration account was
given under the same title (`Unrivalled` excludes it): that one would be repaired, and its link replaced.
-/
namespace DepositPortal.Portal
open Interleave ReadCommitted
open Requests (RequestedItem Plan)
open RefreshToken (Lawyer LawyerProfile toProfile)
open PublicLinks (DepositRequest PublicLink Tx)
open Deposits (RequestId)

/-- No row but the password of an account and the links of the request. -/
structure Untouched (requestId : RequestId) (s s' : State) : Prop where
  profiles : s'.lawyer.map toProfile = s.lawyer.map toProfile
  requests : s'.links.depositRequest = s.links.depositRequest
  items : s'.requestedItem = s.requestedItem
  files : s'.uploadedFile = s.uploadedFile
  bucket : s'.bucket = s.bucket
  links : ∀ link, link.requestId ≠ requestId → (link ∈ s'.links.links ↔ link ∈ s.links.links)

/-- No other request of the demonstration account has its title. -/
def Unrivalled (demo : DepositRequest) (s : State) : Prop :=
  ∀ r ∈ s.links.depositRequest, r.title = DEMO_REQUEST_TITLE → r.lawyerId = demo.lawyerId → r = demo

/-- Only this call steps. -/
def Only (i : Nat) (_ : World State Call) : Act Call Choice → Prop
  | .run j _ => j = i
  | .call _ => False

/-- Every run of the seed that starts is given this environment. -/
def SameEnv (env : SeedEnv) (_ : World State Call) : Act Call Choice → Prop
  | .call (.seed (.start e)) => e = env
  | _ => True

/-- A database with these accounts and nothing else. -/
def State.ofAccounts (lawyer : List Lawyer) : State := { State.empty with lawyer := lawyer }

/-- The pieces of the demonstration, each in its place. -/
def Shaped (items : List RequestedItem) : Prop :=
  items.map (fun item => (item.label, item.position)) = DEMO_ITEMS.zipIdx

/-- What a first run has left behind. -/
structure Seeded (env : SeedEnv) (demo : DepositRequest) (s : State) : Prop where
  request : demo ∈ s.links.depositRequest
  title : demo.title = DEMO_REQUEST_TITLE
  profile : (⟨demo.lawyerId, env.name, env.email⟩ : LawyerProfile) ∈ s.lawyer.map toProfile
  accounts : (s.lawyer.map Lawyer.id).Nodup
  items : Shaped (s.database.itemsOf demo.id)

variable {cfg : Config} {plan : Plan} {k : Choice} {s s' : State} {env : SeedEnv}
  {demo : DepositRequest} {owner : Lawyer} {f f' : Seed} {passwordHash : JsString} {id : LawyerId}

/-! ## Nothing to repair -/

theorem missingItems_nil {found : SeedRequest} (h : Shaped found.items) : missingItems found = [] := by
  have hlabels : found.items.map RequestedItem.label = DEMO_ITEMS.zipIdx.map Prod.fst := by
    rw [← h, List.map_map]
    rfl
  rw [missingItems, hlabels]
  decide

theorem realign_self {requestId : RequestId} (h : Shaped (s.database.itemsOf requestId))
    {label : JsString} {position : Nat} (he : (label, position) ∈ DEMO_ITEMS.zipIdx) :
    s.realign requestId label position = s := by
  have hplace : ∀ e ∈ DEMO_ITEMS.zipIdx, ∀ e' ∈ DEMO_ITEMS.zipIdx, e.1 = e'.1 → e = e' := by decide
  have hitems : s.requestedItem.map (fun item =>
      if item.requestId = requestId ∧ item.label = label ∧ item.position ≠ position then
        { item with position := position }
      else item) = s.requestedItem := by
    refine (List.map_congr_left fun item hi => if_neg ?_).trans (List.map_id _)
    rintro ⟨hreq, rfl, hne⟩
    have hmem : (item.label, item.position) ∈ DEMO_ITEMS.zipIdx := by
      rw [← h]
      exact List.mem_map_of_mem (List.mem_filter.2 ⟨hi, by simpa using hreq⟩)
    exact hne (congrArg Prod.snd (hplace _ hmem _ he rfl))
  rw [State.realign, hitems]

theorem addRows_none {requestId : RequestId} {next : Seed}
    (h : addRows k s [] (itemRows requestId k.itemIds []) 0 next = some (s', f')) :
    s' = s ∧ (f' = next ∨ f' = .stopped) := by
  have hnone : itemRows requestId k.itemIds [] = [] := by simp [itemRows]
  have hadd : s.add [] [] = s := by simp [State.add]
  rw [hnone] at h
  obtain ⟨-, rfl, rfl⟩ | ⟨rfl, rfl⟩ := addRows_cases h
  · exact ⟨hadd, .inl rfl⟩
  · exact ⟨rfl, .inr rfl⟩

/-! ## The account -/

theorem updateLawyer_demo (hs : Seeded env demo s)
    (h : s.updateLawyer demo.lawyerId env passwordHash = some (s', owner)) :
    ∃ lawyer, lawyer.map toProfile = s.lawyer.map toProfile ∧ s' = { s with lawyer := lawyer } := by
  unfold State.updateLawyer at h
  obtain ⟨-, h⟩ := Option.ite_none_right_eq_some.1 h
  obtain ⟨-, h⟩ := Option.ite_none_left_eq_some.1 h
  cases h
  refine ⟨_, ?_, rfl⟩
  rw [List.map_map]
  refine List.map_congr_left fun l hl => ?_
  rw [Function.comp_apply]
  split
  · next hid =>
    obtain ⟨l', hl', hprofile⟩ := List.mem_map.1 hs.profile
    have hsame : l' = l :=
      Requests.eq_of_nodup_map hs.accounts hl' hl ((congrArg LawyerProfile.id hprofile).trans hid.symm)
    rw [← hsame, hprofile]
    rfl
  · rfl

/-- The address is that of the demonstration account. -/
theorem updateLawyer_other (hs : Seeded env demo s) (hid : id ≠ demo.lawyerId) :
    s.updateLawyer id env passwordHash = none := by
  obtain ⟨l, hl, hprofile⟩ := List.mem_map.1 hs.profile
  have htaken : (s.lawyer.any fun l => l.id != id && l.email == env.email) = true := by
    refine List.any_eq_true.2 ⟨l, hl, ?_⟩
    have hlid : l.id = demo.lawyerId := congrArg LawyerProfile.id hprofile
    have hemail : l.email = env.email := congrArg LawyerProfile.email hprofile
    simp [hlid, hemail, hid.symm]
  rw [State.updateLawyer, htaken]
  simp

/-! ## A run of the seed -/

/-- What a run knows once the demonstration request is there. -/
def AtDemo (env : SeedEnv) (demo : DepositRequest) (s : State) : Seed → Prop
  | .start e | .find e _ => e = env
  | .lawyer e _ existing => e = env ∧ ∃ found, existing = some found ∧
      found.request ∈ s.links.depositRequest ∧ found.request.title = DEMO_REQUEST_TITLE ∧
      (found.request = demo → Shaped found.items)
  | .create _ => False
  | .missing _ found => found.request = demo ∧ Shaped found.items
  | .realign _ requestId todo _ => requestId = demo.id ∧ ∀ e ∈ todo, e ∈ DEMO_ITEMS.zipIdx
  | .regenerate _ requestId => requestId = demo.id
  | .stopped => True

theorem AtDemo.frame (h : AtDemo env demo s f)
    (hr : ∀ r ∈ s.links.depositRequest, r ∈ s'.links.depositRequest) : AtDemo env demo s' f := by
  cases f with
  | lawyer e passwordHash existing =>
    obtain ⟨he, found, hfound, hmem, hrest⟩ := h
    exact ⟨he, found, hfound, hr _ hmem, hrest⟩
  | _ => exact h

/-- Only passwords change. -/
def OnlyPasswords (s s' : State) : Prop :=
  ∃ lawyer, lawyer.map toProfile = s.lawyer.map toProfile ∧ s' = { s with lawyer := lawyer }

theorem OnlyPasswords.refl (s : State) : OnlyPasswords s s := ⟨s.lawyer, rfl, rfl⟩

theorem OnlyPasswords.accounts {lawyer : List Lawyer} (h : lawyer.map toProfile = s.lawyer.map toProfile) :
    lawyer.map Lawyer.id = s.lawyer.map Lawyer.id := by
  have hid : Lawyer.id = LawyerProfile.id ∘ toProfile := rfl
  rw [hid, ← List.map_map, h, List.map_map]

theorem OnlyPasswords.seeded (h : OnlyPasswords s s') (hs : Seeded env demo s) : Seeded env demo s' := by
  obtain ⟨lawyer, hprofiles, rfl⟩ := h
  exact {
    request := hs.request
    title := hs.title
    profile := by rw [hprofiles]; exact hs.profile
    accounts := by rw [OnlyPasswords.accounts hprofiles]; exact hs.accounts
    items := hs.items }

theorem OnlyPasswords.requests (h : OnlyPasswords s s') : s'.links.depositRequest = s.links.depositRequest := by
  obtain ⟨lawyer, -, rfl⟩ := h
  rfl

/-- One step of a run that meets the demonstration request: only passwords change. -/
theorem exec_quiet (hs : Seeded env demo s) (hu : Unrivalled demo s) (hf : AtDemo env demo s f)
    (he : f.exec cfg k s = some (s', f')) : OnlyPasswords s s' ∧ AtDemo env demo s' f' := by
  cases hk : k.fault with
  | some fault =>
    obtain ⟨rfl, rfl | ⟨owner, requestId, todo, failed, rfl, rfl | ⟨rest, hrest, rfl⟩⟩⟩ := Seed.exec_failed hk he
    · exact ⟨.refl _, trivial⟩
    · exact ⟨.refl _, hf.1⟩
    · exact ⟨.refl _, hf.1, fun e he => hf.2 e (hrest he)⟩
  | none =>
    cases f with
    | start e =>
      simp only [Seed.exec, hk] at he
      cases he
      exact ⟨.refl _, hf⟩
    | find e passwordHash =>
      simp only [Seed.exec, hk] at he
      have hmem : demo ∈ s.links.depositRequest.filter fun r => r.title == DEMO_REQUEST_TITLE :=
        List.mem_filter.2 ⟨hs.request, by simp [hs.title]⟩
      split at he
      · next r hr =>
        cases he
        obtain ⟨hrmem, htitle⟩ := List.mem_filter.1 (List.mem_of_getElem? hr)
        refine ⟨.refl _, hf, ⟨r, _⟩, rfl, hrmem, by simpa using htitle, ?_⟩
        rintro rfl
        exact hs.items
      · obtain ⟨hnone, -⟩ := Option.ite_none_right_eq_some.1 he
        rw [hnone] at hmem
        cases hmem
    | lawyer e passwordHash existing =>
      obtain ⟨rfl, found, rfl, hmem, htitle, hshape⟩ := hf
      simp only [Seed.exec, hk] at he
      by_cases howner : found.request.lawyerId = demo.lawyerId
      · obtain hsame := hu found.request hmem htitle howner
        split at he
        · cases he
          exact ⟨.refl _, trivial⟩
        · next hup =>
          cases he
          rw [howner] at hup
          exact ⟨updateLawyer_demo hs hup, hsame, hshape hsame⟩
      · rw [updateLawyer_other hs howner] at he
        cases he
        exact ⟨.refl _, trivial⟩
    | create owner => exact hf.elim
    | missing owner found =>
      obtain ⟨rfl, hshape⟩ := hf
      simp only [Seed.exec, hk, missingItems_nil hshape] at he
      obtain ⟨rfl, rfl | rfl⟩ := addRows_none he
      · exact ⟨.refl _, rfl, fun _ he => he⟩
      · exact ⟨.refl _, trivial⟩
    | realign owner requestId todo failed =>
      obtain ⟨rfl, htodo⟩ := hf
      cases todo with
      | nil =>
        simp only [Seed.exec, hk] at he
        cases he
        cases failed with
        | false => exact ⟨.refl _, rfl⟩
        | true => exact ⟨.refl _, trivial⟩
      | cons e todo =>
        cases hp : (e :: todo)[k.pick]? with
        | none => simp only [Seed.exec, hk, hp] at he; cases he
        | some picked =>
          obtain ⟨label, position⟩ := picked
          simp only [Seed.exec, hk, hp] at he
          cases he
          rw [realign_self hs.items (htodo _ (List.mem_of_getElem? hp))]
          exact ⟨.refl _, rfl, fun e he => htodo e (List.mem_of_mem_eraseIdx he)⟩
    | regenerate owner requestId => simp only [Seed.exec, hk] at he; cases he
    | stopped => simp only [Seed.exec, hk] at he; cases he

/-! ## The other calls -/

section
variable {f f' : Call} {w w' : World State Call} {G : World State Call → Act Call Choice → Prop}

/-- A step of a seed, in the portal. -/
theorem exec_seed_cases {f : Seed} (he : exec cfg plan k s (.seed f) = some (s', f')) :
    (∃ g, f' = .seed g ∧ f.exec cfg k s = some (s', g)) ∨
    ∃ owner requestId, f = .regenerate owner requestId ∧ s' = s ∧
      f' = .links (.start (.regenerate requestId owner.id DEMO_LINK_DAYS)) := by
  unfold exec at he
  split at he
  · next h => cases h
  · next h => cases h
  · next h => cases h
  · next owner requestId h => cases h; cases he; exact .inr ⟨owner, requestId, rfl, rfl, rfl⟩
  · next h =>
    cases h
    obtain ⟨⟨t, g⟩, hg, e⟩ := Option.map_eq_some_iff.1 he
    cases e
    exact .inl ⟨g, rfl, hg⟩

theorem Step.of_seed {g : Seed} (h : Step cfg k s f s' (.seed g)) : ∃ g, f = .seed g := by
  cases h with
  | seed g g' s' h => exact ⟨g, rfl⟩

theorem Step.lawyer_eq (h : Step cfg k s f s' f') (hno : ∀ g, f ≠ .seed g) : s'.lawyer = s.lawyer := by
  cases h with
  | create g g' s' h => cases h <;> rfl
  | links g g' t h => rfl
  | client g g' s' h => cases h <;> rfl
  | seed g g' s' h => exact absurd rfl (hno g)
  | reissued owner requestId => exact absurd rfl (hno _)

theorem Seeded.step (hs : Seeded env demo s) (hI : Sound s) (ha : Asserts cfg s f)
    (h : Step cfg k s f s' f') (hno : ∀ g, f ≠ .seed g) : Seeded env demo s' := by
  have hlawyer := h.lawyer_eq hno
  have hlasts := h.lasts hI ha hno
  exact {
    request := hlasts.requests demo hs.request
    title := hs.title
    profile := by rw [hlawyer]; exact hs.profile
    accounts := by rw [hlawyer]; exact hs.accounts
    items := by rw [hlasts.items demo hs.request]; exact hs.items }

/-- Every run of the seed is at the demonstration request. -/
structure AllAtDemo (env : SeedEnv) (demo : DepositRequest) (w : World State Call) : Prop where
  seeded : Seeded env demo w.shared
  seeds : ∀ g, .seed g ∈ w.calls → AtDemo env demo w.shared g

theorem Unrivalled.of_grows (hu : Unrivalled demo s') (hg : Grows s s') : Unrivalled demo s :=
  fun r hr => hu r (hg.requests r hr)

theorem holds_of_reaches (h : (machine cfg plan).Reaches G w w')
    (hw : Holds Sound (Asserts cfg) w ∧ Interleave.Apart Apart w) :
    Holds Sound (Asserts cfg) w' ∧ Interleave.Apart Apart w' :=
  (outline cfg plan).run h (fun _ _ _ _ _ _ => trivial) hw.1 hw.2

theorem allAtDemo_run {i : Nat} (hH : Holds Sound (Asserts cfg) w) (h : AllAtDemo env demo w)
    (hu : Unrivalled demo w.shared) (hf : w.calls[i]? = some f)
    (he : exec cfg plan k w.shared f = some (s', f')) : AllAtDemo env demo ⟨s', w.calls.set i f'⟩ := by
  have hgrows := (step_of_exec he).grows hH.1.links
  have hmem := List.mem_of_getElem? hf
  by_cases hseed : ∃ g, f = .seed g
  · obtain ⟨g, rfl⟩ := hseed
    obtain ⟨g', rfl, hg'⟩ | ⟨owner, requestId, rfl, rfl, rfl⟩ := exec_seed_cases he
    · obtain ⟨hquiet, hat⟩ := exec_quiet h.seeded hu (h.seeds g hmem) hg'
      refine ⟨hquiet.seeded h.seeded, fun e hm => ?_⟩
      rcases List.mem_or_eq_of_mem_set hm with hm | hm
      · exact (h.seeds e hm).frame hgrows.requests
      · cases hm
        exact hat
    · refine ⟨h.seeded, fun e hm => ?_⟩
      rcases List.mem_or_eq_of_mem_set hm with hm | hm
      · exact h.seeds e hm
      · cases hm
  · have hno : ∀ g, f ≠ .seed g := fun g e => hseed ⟨g, e⟩
    refine ⟨h.seeded.step hH.1 (hH.call hf) (step_of_exec he) hno, fun e hm => ?_⟩
    rcases List.mem_or_eq_of_mem_set hm with hm | hm
    · exact (h.seeds e hm).frame hgrows.requests
    · subst hm
      obtain ⟨g, hg⟩ := (step_of_exec he).of_seed
      exact absurd hg (hno g)

/-- Whatever is called meanwhile, as long as no other request can be taken for it. -/
theorem allAtDemo_of_reaches (h : (machine cfg plan).Reaches (SameEnv env) w w')
    (hw : Holds Sound (Asserts cfg) w ∧ Interleave.Apart Apart w) (hat : AllAtDemo env demo w)
    (hu : Unrivalled demo w'.shared) : AllAtDemo env demo w' := by
  refine h.induct (I := fun v => Unrivalled demo v.shared → AllAtDemo env demo v) (fun _ => hat) ?_ hu
  intro v a v' hv ih hG hn hu
  obtain ⟨f, rfl, hen, rfl⟩ | ⟨i, k, f, s', f', rfl, hf, he, rfl⟩ := next_cases hn
  · obtain ⟨hseeded, hseeds⟩ := ih hu
    refine ⟨hseeded, fun g hm => ?_⟩
    rcases List.mem_append.1 hm with hm | hm
    · exact hseeds g hm
    · obtain rfl := List.mem_singleton.1 hm
      cases g with
      | start e => exact hG
      | _ => cases hen
  · have hH := (holds_of_reaches hv hw).1
    have hu := hu.of_grows ((step_of_exec he).grows hH.1.links)
    exact allAtDemo_run hH (ih hu) hu hf he

/-! ## The new link -/

/-- A regeneration of the link of the demonstration request. -/
def OnDemo (demo : DepositRequest) : PublicLinks.Call → Prop
  | .start args => args.requestId = demo.id
  | .hash _ ownedId _ _ _ => ownedId = demo.id
  | .update x | .updating x _ | .create x _ | .commit x => x.ownedId = demo.id
  | .done _ _ => True

theorem OnDemo.step {cfg : PublicLinks.Config} {k : PublicLinks.Choice} {t t' : PublicLinks.State}
    {g g' : PublicLinks.Call} (h : PublicLinks.Step cfg k t g t' g') (hg : OnDemo demo g) :
    OnDemo demo g' := by
  cases h with
  | refused _ _ | hashFailed _ _ _ _ _ _ | aborted _ _ _ _ | committed _ => trivial
  | drawn ownedId requestId lawyerId days howned =>
    exact (PublicLinks.ownedRequestId_eq howned).trans hg
  | beganRevoke ownedId requestId lawyerId howned => exact (PublicLinks.ownedRequestId_eq howned).trans hg
  | began _ _ _ _ _ _ _ | matched _ _ | wrote _ _ _ _ _ | revoked _ _ | replaced _ _ _
  | inserted _ _ _ _ => exact hg

/-- It leaves the links of the other requests as they are. -/
theorem OnDemo.links {cfg : PublicLinks.Config} {k : PublicLinks.Choice} {t t' : PublicLinks.State}
    {g g' : PublicLinks.Call} (h : PublicLinks.Step cfg k t g t' g') (hg : OnDemo demo g)
    (hI : PublicLinks.Sound t) (ha : PublicLinks.Asserts cfg t g) {link : PublicLink}
    (hne : link.requestId ≠ demo.id) : link ∈ t'.links ↔ link ∈ t.links := by
  obtain e | ⟨x, rfl, rfl, -⟩ := h.links
  · rw [e]
  · constructor
    · intro hl
      obtain ⟨c, hc, hsee⟩ := PublicLinks.mem_links_commit.1 hl
      rcases sees_eq_some.1 hsee with hp | ⟨-, hcom⟩
      · exact absurd ((ha.1.own c hc link hp).trans hg) hne
      · exact List.mem_filterMap.2 ⟨c, hc, hcom⟩
    · exact fun hl => PublicLinks.commit_other hI ha.1 hl fun e => hne (e.trans hg)

theorem Untouched.refl (requestId : RequestId) (s : State) : Untouched requestId s s :=
  ⟨rfl, rfl, rfl, rfl, rfl, fun _ _ => Iff.rfl⟩

theorem Untouched.trans {s₁ : State} {requestId : RequestId} (h : Untouched requestId s s₁)
    (h' : Untouched requestId s₁ s') : Untouched requestId s s' where
  profiles := h'.profiles.trans h.profiles
  requests := h'.requests.trans h.requests
  items := h'.items.trans h.items
  files := h'.files.trans h.files
  bucket := h'.bucket.trans h.bucket
  links link hne := (h'.links link hne).trans (h.links link hne)

theorem OnlyPasswords.untouched (h : OnlyPasswords s s') (requestId : RequestId) : Untouched requestId s s' := by
  obtain ⟨lawyer, hprofiles, rfl⟩ := h
  exact ⟨hprofiles, rfl, rfl, rfl, rfl, fun _ _ => Iff.rfl⟩

/-- What a run of the seed is doing. -/
def Doing (env : SeedEnv) (demo : DepositRequest) (s : State) : Call → Prop
  | .seed g => AtDemo env demo s g
  | .links g => OnDemo demo g
  | _ => False

theorem doing_step (hI : Sound s) (ha : Asserts cfg s f) (hs : Seeded env demo s)
    (hu : Unrivalled demo s) (hf : Doing env demo s f) (he : exec cfg plan k s f = some (s', f')) :
    Untouched demo.id s s' ∧ Seeded env demo s' ∧ Doing env demo s' f' := by
  cases f with
  | seed g =>
    obtain ⟨g', rfl, hg'⟩ | ⟨owner, requestId, rfl, rfl, rfl⟩ := exec_seed_cases he
    · obtain ⟨hquiet, hat⟩ := exec_quiet hs hu hf hg'
      exact ⟨hquiet.untouched _, hquiet.seeded hs, hat⟩
    · exact ⟨.refl _ _, hs, hf⟩
  | links g =>
    obtain ⟨⟨t, g'⟩, hg', e⟩ := Option.map_eq_some_iff.1 he
    cases e
    have hstep := PublicLinks.step_of_exec hg'
    refine ⟨⟨rfl, depositRequest_exec hstep, rfl, rfl, rfl, fun link hne => ?_⟩, ?_, hf.step hstep⟩
    · exact hf.links hstep hI.links ha.1 hne
    · exact hs.step hI ha (.links g g' t hg') fun _ e => by cases e
  | create g => exact hf.elim
  | client g => exact hf.elim

end

/-! ## The first run -/

/-- No request yet, and the unique keys of the accounts. -/
structure Unseeded (s : State) : Prop where
  requests : s.links.depositRequest = []
  items : s.requestedItem = []
  accounts : (s.lawyer.map Lawyer.id).Nodup
  emails : (s.lawyer.map Lawyer.email).Nodup

/-- What a run knows before it creates the request. -/
def BeforeDemo (env : SeedEnv) (s : State) : Seed → Prop
  | .start e | .find e _ => e = env
  | .lawyer e _ existing => e = env ∧ existing = none
  | .create owner => (⟨owner.id, env.name, env.email⟩ : LawyerProfile) ∈ s.lawyer.map toProfile
  | .missing _ _ | .realign _ _ _ _ | .regenerate _ _ => False
  | .stopped => True

theorem upsertLawyer_unseeded {uuid : JsString} (hs : Unseeded s)
    (h : s.upsertLawyer uuid env passwordHash = some (s', owner)) :
    Unseeded s' ∧ (⟨owner.id, env.name, env.email⟩ : LawyerProfile) ∈ s'.lawyer.map toProfile := by
  unfold State.upsertLawyer at h
  split at h
  · next l hl =>
    cases h
    have hmem := List.mem_of_find?_eq_some hl
    have hemail : l.email = env.email := by simpa using List.find?_some hl
    have hsame : ∀ r ∈ s.lawyer, r.email = env.email → r = l := fun r hr he =>
      Requests.eq_of_nodup_map hs.emails hr hmem (he.trans hemail.symm)
    refine ⟨⟨hs.requests, hs.items, ?_, ?_⟩, ?_⟩
    · rw [List.map_map, List.map_congr_left (g := Lawyer.id) fun r hr => ?_]
      · exact hs.accounts
      · rw [Function.comp_apply]
        split
        · next he => rw [hsame r hr he]
        · rfl
    · rw [List.map_map, List.map_congr_left (g := Lawyer.email) fun r hr => ?_]
      · exact hs.emails
      · rw [Function.comp_apply]
        split
        · next he => rw [hsame r hr he]
        · rfl
    · refine List.mem_map.2 ⟨{ l with name := env.name, passwordHash := passwordHash }, ?_, ?_⟩
      · exact List.mem_map.2 ⟨l, hmem, if_pos hemail⟩
      · rw [← hemail]
        rfl
  · next hnone =>
    obtain ⟨hunused, h⟩ := Option.ite_none_left_eq_some.1 h
    cases h
    refine ⟨⟨hs.requests, hs.items, ?_, ?_⟩, List.mem_map_of_mem (List.mem_append_right _
      (List.mem_singleton_self _))⟩
    · rw [List.map_append, List.nodup_append]
      refine ⟨hs.accounts, List.nodup_singleton _, fun a ha b hb => ?_⟩
      obtain ⟨l, hl, rfl⟩ := List.mem_map.1 ha
      obtain rfl := List.mem_singleton.1 hb
      rintro rfl
      exact hunused (List.any_eq_true.2 ⟨l, hl, by simp⟩)
    · rw [List.map_append, List.nodup_append]
      refine ⟨hs.emails, List.nodup_singleton _, fun a ha b hb => ?_⟩
      obtain ⟨l, hl, rfl⟩ := List.mem_map.1 ha
      obtain rfl := List.mem_singleton.1 hb
      intro he
      exact List.find?_eq_none.1 hnone l hl (by simpa using he)

theorem shaped_itemRows {requestId : RequestId} {ids : List Deposits.ItemId}
    (h : ids.length = DEMO_ITEMS.length) : Shaped (itemRows requestId ids DEMO_ITEMS.zipIdx) := by
  have hlen : DEMO_ITEMS.zipIdx.length ≤ ids.length := by simp [h]
  rw [Shaped, itemRows, List.map_map]
  exact List.map_snd_zip hlen

/-- One step of the first run: it has not created the request yet, or it has. -/
theorem exec_beforeDemo (hs : Unseeded s) (hf : BeforeDemo env s f) (he : f.exec cfg k s = some (s', f')) :
    (Unseeded s' ∧ BeforeDemo env s' f') ∨
    ∃ demo, s'.links.depositRequest = [demo] ∧ Seeded env demo s' ∧ AtDemo env demo s' f' := by
  cases hk : k.fault with
  | some fault =>
    obtain ⟨rfl, rfl | ⟨owner, requestId, todo, failed, rfl, -⟩⟩ := Seed.exec_failed hk he
    · exact .inl ⟨hs, trivial⟩
    · exact hf.elim
  | none =>
    cases f with
    | start e =>
      simp only [Seed.exec, hk] at he
      cases he
      exact .inl ⟨hs, hf⟩
    | find e passwordHash =>
      simp only [Seed.exec, hk, hs.requests] at he
      cases he
      exact .inl ⟨hs, hf, rfl⟩
    | lawyer e passwordHash existing =>
      obtain ⟨rfl, rfl⟩ := hf
      simp only [Seed.exec, hk] at he
      split at he
      · cases he
        exact .inl ⟨hs, trivial⟩
      · next hup =>
        cases he
        exact .inl (upsertLawyer_unseeded hs hup)
    | create owner =>
      simp only [Seed.exec, hk] at he
      have hlen : k.itemIds.length = DEMO_ITEMS.length := by
        unfold addRows at he
        exact (Option.ite_none_right_eq_some.1 he).1
      obtain ⟨-, rfl, rfl⟩ | ⟨rfl, rfl⟩ := addRows_cases he
      · refine .inr ⟨_, by simp [State.add, hs.requests], ?_, rfl, shaped_itemRows hlen⟩
        exact {
          request := by simp [State.add]
          title := rfl
          profile := hf
          accounts := hs.accounts
          items := by
            rw [Requests.Database.itemsOf, State.database, State.add, hs.items, List.nil_append,
              List.filter_eq_self.2 fun item hi => by simp [requestId_of_mem_itemRows hi]]
            exact shaped_itemRows hlen }
      · exact .inl ⟨hs, trivial⟩
    | missing owner found => exact hf.elim
    | realign owner requestId todo failed => exact hf.elim
    | regenerate owner requestId => exact hf.elim
    | stopped => simp only [Seed.exec, hk] at he; cases he

/-! ## Two runs -/

section
variable {f : Call} {w : World State Call} {accounts : List Lawyer}

theorem sound_ofAccounts (accounts : List Lawyer) : Sound (State.ofAccounts accounts) :=
  ⟨sound_empty.links, sound_empty.intact⟩

/-- Where the first run stands: before the request, or at it. -/
def FirstRun (env : SeedEnv) (s : State) (f : Call) : Prop :=
  (Unseeded s ∧ ∃ g, f = .seed g ∧ BeforeDemo env s g) ∨
    ∃ demo, s.links.depositRequest = [demo] ∧ Seeded env demo s ∧ Doing env demo s f

theorem unrivalled_single (h : s.links.depositRequest = [demo]) : Unrivalled demo s :=
  fun _ hr _ _ => List.mem_singleton.1 (h ▸ hr)

theorem holds_start (cfg : Config) (accounts : List Lawyer) (env : SeedEnv) :
    Holds Sound (Asserts cfg) ⟨State.ofAccounts accounts, [.seed (.start env)]⟩ ∧
      Interleave.Apart Apart ⟨State.ofAccounts accounts, [.seed (.start env)]⟩ := by
  refine ⟨⟨sound_ofAccounts accounts, fun f hf => ?_⟩, fun i j f e hij hi hj => ?_⟩
  · obtain rfl := List.mem_singleton.1 hf
    exact fun _ e => by cases e
  · have hi := lt_of_getElem?_eq_some hi
    have hj := lt_of_getElem?_eq_some hj
    simp only [List.length_singleton] at hi hj
    omega

theorem firstRun_of_reaches (hids : (accounts.map Lawyer.id).Nodup)
    (hemails : (accounts.map Lawyer.email).Nodup)
    (h : (machine cfg plan).Reaches (Only 0) ⟨State.ofAccounts accounts, [.seed (.start env)]⟩ w) :
    ∃ f, w.calls = [f] ∧ FirstRun env w.shared f := by
  refine h.induct (I := fun v => ∃ f, v.calls = [f] ∧ FirstRun env v.shared f)
    ⟨_, rfl, .inl ⟨⟨rfl, rfl, hids, hemails⟩, _, rfl, rfl⟩⟩ ?_
  rintro v a v' hv ⟨f, hcalls, hfirst⟩ hG hn
  have hH := (holds_of_reaches hv (holds_start cfg accounts env)).1
  obtain ⟨g, rfl, -, rfl⟩ | ⟨i, k, g, s', f', rfl, hg, he, rfl⟩ := next_cases hn
  · exact hG.elim
  · obtain rfl : i = 0 := hG
    obtain rfl : f = g := by simpa [hcalls] using hg
    refine ⟨f', by simp [hcalls], ?_⟩
    obtain ⟨hs, g, rfl, hbefore⟩ | ⟨demo, hreq, hs, hdoing⟩ := hfirst
    · obtain ⟨g', rfl, hg'⟩ | ⟨owner, requestId, rfl, -, -⟩ := exec_seed_cases he
      · obtain ⟨hs', hbefore'⟩ | ⟨demo, hreq, hs', hat⟩ := exec_beforeDemo hs hbefore hg'
        · exact .inl ⟨hs', g', rfl, hbefore'⟩
        · exact .inr ⟨demo, hreq, hs', hat⟩
      · exact hbefore.elim
    · obtain ⟨hsame, hs', hdoing'⟩ := doing_step hH.1 (hH.call hg) hs (unrivalled_single hreq) hdoing he
      exact .inr ⟨demo, hsame.requests.trans hreq, hs', hdoing'⟩

theorem allAtDemo_of_first (hids : (accounts.map Lawyer.id).Nodup)
    (hemails : (accounts.map Lawyer.email).Nodup)
    (h : (machine cfg plan).Reaches (Only 0) ⟨State.ofAccounts accounts, [.seed (.start env)]⟩ w)
    (hdemo : demo ∈ w.shared.links.depositRequest) : AllAtDemo env demo w := by
  obtain ⟨f, hcalls, ⟨hs, -⟩ | ⟨demo', hreq, hs, hdoing⟩⟩ := firstRun_of_reaches hids hemails h
  · rw [hs.requests] at hdemo
    cases hdemo
  · obtain rfl : demo = demo' := List.mem_singleton.1 (hreq ▸ hdemo)
    refine ⟨hs, fun g hg => ?_⟩
    obtain rfl := List.mem_singleton.1 (hcalls ▸ hg)
    exact hdoing

/-- **One more run of the seed touches nothing but the links of the demonstration request, as long as it
can be told apart.** The first run (alone, on accounts and nothing else) has created `demo`; then any
calls of the portal and any runs of the seed with the same environment take place, interleaved and with
any failures; then one more run takes its steps, up to any point. -/
theorem reseed_untouched (cfg : Config) (plan : Plan) (env : SeedEnv) (accounts : List Lawyer)
    (demo : DepositRequest) (w₁ w₂ w₃ : World State Call) (hids : (accounts.map Lawyer.id).Nodup)
    (hemails : (accounts.map Lawyer.email).Nodup)
    (h₁ : (machine cfg plan).Reaches (Only 0) ⟨State.ofAccounts accounts, [.seed (.start env)]⟩ w₁)
    (hdemo : demo ∈ w₁.shared.links.depositRequest)
    (h₂ : (machine cfg plan).Reaches (SameEnv env) w₁ w₂) (hu : Unrivalled demo w₂.shared)
    (h₃ : (machine cfg plan).Reaches (Only w₂.calls.length)
      ⟨w₂.shared, w₂.calls ++ [.seed (.start env)]⟩ w₃) : Untouched demo.id w₂.shared w₃.shared := by
  have hH₁ := holds_of_reaches h₁ (holds_start cfg accounts env)
  have hat := allAtDemo_of_reaches h₂ hH₁ (allAtDemo_of_first hids hemails h₁ hdemo) hu
  have henter : (machine cfg plan).Reaches (fun _ _ => True) w₂
      ⟨w₂.shared, w₂.calls ++ [.seed (.start env)]⟩ :=
    (Machine.Reaches.refl w₂).step (a := .call (.seed (.start env))) trivial rfl
  have hH₂ := holds_of_reaches henter (holds_of_reaches h₂ hH₁)
  have hcall : (w₂.calls ++ [Call.seed (.start env)])[w₂.calls.length]? = some (.seed (.start env)) := by
    simp
  refine (h₃.track (P := fun v f => Untouched demo.id w₂.shared v.shared ∧
      Seeded env demo v.shared ∧ Doing env demo v.shared f) hcall ⟨.refl _ _, hat.seeded, rfl⟩
    ?_ ?_).elim fun _ h => h.2.1
  · rintro v k f s f' hv - hf ⟨hsame, hs, hdoing⟩ he
    have hH := (holds_of_reaches hv hH₂).1
    have huv : Unrivalled demo v.shared := fun r hr => hu r (hsame.requests ▸ hr)
    obtain ⟨hstep, hs', hdoing'⟩ := doing_step hH.1 (hH.call hf) hs huv hdoing he
    exact ⟨hsame.trans hstep, hs', hdoing'⟩
  · intro v a v' f hv hG hno hf hP hn
    cases a with
    | call f => exact hG.elim
    | run j k => exact absurd (congrArg (Act.run · k) hG) (hno k)

end

/-! ### Two seeds, and a request of the account in between -/

instance (i : Nat) (w : World State Call) (a : Act Call Choice) : Decidable (Only i w a) :=
  match a with
  | .run j _ => inferInstanceAs (Decidable (j = i))
  | .call _ => isFalse fun h => h

instance (env : SeedEnv) (w : World State Call) (a : Act Call Choice) : Decidable (SameEnv env w a) :=
  match a with
  | .call (.seed (.start e)) => inferInstanceAs (Decidable (e = env))
  | .call (.create _) | .call (.links _) | .call (.client _) | .run _ _ | .call (.seed (.find _ _))
  | .call (.seed (.lawyer _ _ _)) | .call (.seed (.create _)) | .call (.seed (.missing _ _))
  | .call (.seed (.realign _ _ _ _)) | .call (.seed (.regenerate _ _)) | .call (.seed .stopped) =>
    isTrue trivial

/-- Where these steps lead from here. -/
def ran (G : World State Call → Act Call Choice → Prop) [∀ w a, Decidable (G w a)] (w : World State Call)
    (acts : List (Act Call Choice)) : World State Call :=
  ((machine portal Requests.heapPlan).play (fun w a => decide (G w a)) w acts).getD w

theorem reaches_ran {G : World State Call → Act Call Choice → Prop} [∀ w a, Decidable (G w a)]
    {w : World State Call} {acts : List (Act Call Choice)}
    (h : ((machine portal Requests.heapPlan).play (fun w a => decide (G w a)) w acts).isSome = true) :
    (machine portal Requests.heapPlan).Reaches G w (ran G w acts) :=
  reaches_decide h _

def demoEnv : SeedEnv := ⟨js "alice@example.org", js "Alice", js "secret"⟩

def firstDemo : DepositRequest := ⟨js "dossier", DEMO_REQUEST_TITLE, 0, [1]⟩

/-- The first run, on an empty database at 0. -/
def firstSeeded : World State Call :=
  ran (Only 0) ⟨State.ofAccounts [], [.seed (.start demoEnv)]⟩ <|
    List.replicate 4 (.run 0 { tick 0 1 with itemIds := [js "a", js "b", js "c"] }) ++
      List.replicate 12 (.run 0 { tick 0 1 with itemIds := [] })

theorem firstSeeded_reaches : (machine portal Requests.heapPlan).Reaches (Only 0)
    ⟨State.ofAccounts [], [.seed (.start demoEnv)]⟩ firstSeeded := reaches_ran (by decide +kernel)

theorem firstSeeded_request : firstSeeded.shared.links.depositRequest = [firstDemo] := by decide +kernel

/-- The account of the demonstration creates a request of one piece at 1. -/
def granted (title : JsString) : World State Call :=
  ran (SameEnv demoEnv) firstSeeded <| .call (.create (.start [1] ⟨title, [js "Bail"], 7⟩)) ::
    List.replicate 3 (.run 1 { tick 1 2 with requestId := js "bail", itemIds := [js "d"] })

/-- One more run at 2; `pick`: the request it finds, `ids`: those of the pieces it adds. -/
def seededAgain (title : JsString) (pick : Nat) (ids : List JsString) : World State Call :=
  ran (Only 2) ⟨(granted title).shared, (granted title).calls ++ [.seed (.start demoEnv)]⟩ <|
    List.replicate 3 (.run 2 { tick 2 3 with pick := pick }) ++
      [.run 2 { tick 2 3 with itemIds := ids }] ++ List.replicate 12 (.run 2 { tick 2 3 with itemIds := [] })

theorem reseed_untouched_achat : Untouched (js "dossier") (granted (js "Achat")).shared
    (seededAgain (js "Achat") 0 []).shared := by
  refine reseed_untouched portal Requests.heapPlan demoEnv [] firstDemo firstSeeded (granted (js "Achat"))
    (seededAgain (js "Achat") 0 []) List.nodup_nil List.nodup_nil firstSeeded_reaches
    (firstSeeded_request ▸ List.mem_singleton_self _) (reaches_ran (by decide +kernel)) ?_
    (reaches_ran (by decide +kernel))
  unfold Unrivalled
  decide +kernel

/-- The request has the title the form suggests; the second run finds it, adds the pieces of the
demonstration to it and replaces its link. -/
theorem rival_is_repaired :
    (machine portal Requests.heapPlan).Reaches (Only 0)
      ⟨State.ofAccounts [], [.seed (.start demoEnv)]⟩ firstSeeded ∧
    firstSeeded.shared.links.depositRequest = [firstDemo] ∧
    (machine portal Requests.heapPlan).Reaches (SameEnv demoEnv) firstSeeded (granted DEMO_REQUEST_TITLE) ∧
    (machine portal Requests.heapPlan).Reaches (Only 2)
      ⟨(granted DEMO_REQUEST_TITLE).shared, (granted DEMO_REQUEST_TITLE).calls ++ [.seed (.start demoEnv)]⟩
      (seededAgain DEMO_REQUEST_TITLE 1 [js "e", js "f", js "g"]) ∧
    ¬ Untouched (js "dossier") (granted DEMO_REQUEST_TITLE).shared
      (seededAgain DEMO_REQUEST_TITLE 1 [js "e", js "f", js "g"]).shared := by
  refine ⟨firstSeeded_reaches, firstSeeded_request, reaches_ran (by decide +kernel),
    reaches_ran (by decide +kernel), fun h => ?_⟩
  have hlen := congrArg List.length h.items
  exact absurd hlen (by decide +kernel)

end DepositPortal.Portal
