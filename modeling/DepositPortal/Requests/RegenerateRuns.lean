import DepositPortal.Requests.Regenerate

/-!
# Runs of `regenerate` and `revoke`

What holds along any run that starts from settled tables: the links that were revoked, the answers
of the regenerations and the link that is active.
-/
namespace DepositPortal.PublicLinks
open Interleave ReadCommitted
open Deposits (Bytes RequestId)

variable {cfg : Config} {k : Choice} {s s₀ s' : State} {f f' : Call} {link : PublicLink}
  {w w' : World State Call} {G : World State Call → Act Call Choice → Prop}
  {tr : List (Move State Call Choice)} {requestId : RequestId}

/-- Where the calls start: the indexes hold and no transaction is open. -/
structure Settled (s : State) : Prop where
  wf : Wf keys s.publicLink
  quiet : Quiet s.publicLink

theorem Settled.sound (h : Settled s) : Sound s where
  wf := h.wf
  fresh c hc t new hp := by rw [h.quiet c hc] at hp; cases hp
  change c hc t new hp := by rw [h.quiet c hc] at hp; cases hp

/-- The outline along a run. -/
theorem Settled.holds (h₀ : Settled s₀) (h : (machine cfg).Reaches G ⟨s₀, []⟩ w) :
    Holds Sound (Asserts cfg) w :=
  ((outline cfg).run h (fun _ _ _ _ _ _ => trivial) ⟨h₀.sound, by simp⟩ (by simp [Apart])).1

/-! ## Links once revoked -/

theorem next_kept {a : Act Call Choice} (hI : Sound w.shared)
    (hn : (machine cfg).next w a = some w') (hl : link ∈ w.shared.links) : ∃ link' ∈ w'.shared.links, Kept link link' := by
  obtain ⟨f, -, -, rfl⟩ | ⟨i, k, f, s, f', -, -, he, rfl⟩ := next_cases hn
  · exact ⟨link, hl, .inl rfl⟩
  · exact (step_of_exec he).kept hI hl

/-- What becomes of a link along a run. -/
theorem reaches_kept (h₀ : Settled s₀) (hb : (machine cfg).Reaches G ⟨s₀, []⟩ w)
    (ha : (machine cfg).Reaches G w w') (hl : link ∈ w.shared.links) :
    ∃ link' ∈ w'.shared.links, Kept link link' := by
  refine ha.induct (I := fun v => ∃ link' ∈ v.shared.links, Kept link link') ⟨link, hl, .inl rfl⟩ ?_
  rintro v a v' hv ⟨link₁, hl₁, hk₁⟩ - hn
  obtain ⟨link₂, hl₂, hk₂⟩ := next_kept (h₀.holds (hb.trans hv)).1 hn hl₁
  exact ⟨link₂, hl₂, hk₁.trans hk₂⟩

/-- `resolve` answers "revoked" to every token with that hash. -/
def Refused (cfg : Config) (s : State) (tokenHash : TokenHash) : Prop :=
  ∀ token now, cfg.hashPublicToken token = tokenHash → resolve cfg s token now = some .revoked

theorem refused_of_revoked (hI : Sound s) (hl : link ∈ s.links) (hr : link.revokedAt ≠ none) :
    Refused cfg s link.tokenHash := by
  intro token now ht
  unfold resolve
  cases hfound : s.links.find? fun l => l.tokenHash == cfg.hashPublicToken token with
  | none =>
    have := List.find?_eq_none.1 hfound link hl
    simp [ht] at this
  | some found =>
    have hsame : found.tokenHash = link.tokenHash := by simpa [ht] using List.find?_some hfound
    obtain rfl : found = link :=
      hI.wf.eq_of_common (k := .tokenHash link.tokenHash) (List.mem_of_find?_eq_some hfound) hl
        (by simp [keys, hsame]) (by simp [keys])
    simp [Option.isSome_iff_ne_none.2 hr]

/-! ## What the calls answer -/

/-- A regeneration of the request returned this link. -/
def Returned (requestId : RequestId) (issued : IssuedLink) (f : Call) : Prop :=
  ∃ lawyerId days, f = .done (.regenerate requestId lawyerId days) (.ok (some issued))

/-- The link is the one whose address, PIN and deadline were returned. -/
def Bears (cfg : Config) (link : PublicLink) (issued : IssuedLink) : Prop :=
  ∃ token salt, buildDepositUrl cfg.PUBLIC_BASE_URL token = some issued.url ∧
    link.tokenHash = cfg.hashPublicToken token ∧ link.pinHash = cfg.hashSecret issued.pin salt ∧
    link.expiresAt = issued.expiresAt

/-- After a commit `regenerate` returns the link it created, and never throws. -/
theorem Purpose.answer {x : Tx} (h : Purpose cfg x) :
    (x.link = none ∧ answerOf cfg x = .ok none) ∨ ∃ new issued, x.link = some new ∧
      answerOf cfg x = .ok (some issued) ∧
      buildDepositUrl cfg.PUBLIC_BASE_URL new.token = some issued.url ∧ issued.pin = new.pin ∧
      issued.expiresAt = new.expiresAt := by
  cases hl : x.link with
  | none => exact .inl ⟨rfl, by simp [answerOf, hl]⟩
  | some new =>
    simp only [Purpose, hl] at h
    obtain ⟨-, ⟨random, ht⟩, -⟩ := h
    have hurl := buildDepositUrl_generated cfg.PUBLIC_BASE_URL random
    rw [← ht] at hurl
    exact .inr ⟨new, ⟨_, new.pin, new.expiresAt⟩, rfl, by simp only [answerOf, hl, hurl], hurl, rfl,
      rfl⟩

/-- A call that has answered without an error committed. -/
theorem Step.done_ok {args : Args} {answer : Option IssuedLink} (h : Step cfg k s f s' f')
    (e : f' = .done args (.ok answer)) : ∃ x, f = .commit x ∧ args = x.args ∧
      answerOf cfg x = .ok answer ∧ s' = { s with publicLink := commit x.xid s.publicLink } := by
  cases h with
  | committed x =>
    obtain ⟨hargs, ha⟩ := Call.done.inj e
    exact ⟨x, rfl, hargs.symm, ha, rfl⟩
  | _ => cases e

/-- The step by which a regeneration returns is the commit of its own link. -/
theorem Step.returned {issued : IssuedLink} (h : Step cfg k s f s' f') (hf : Asserts cfg s f)
    (hr : Returned requestId issued f') : ∃ x new, f = .commit x ∧ x.link = some new ∧
      x.ownedId = requestId ∧ f' = .done x.args (answerOf cfg x) ∧
      s' = { s with publicLink := commit x.xid s.publicLink } := by
  obtain ⟨lawyerId, days, e⟩ := hr
  obtain ⟨x, rfl, hargs, ha, rfl⟩ := h.done_ok e
  obtain ⟨-, hn⟩ | ⟨new, -, hl, -⟩ := hf.1.purpose.answer
  · rw [hn] at ha; cases ha
  · have hp := hf.1.purpose
    simp only [Purpose, hl, ← hargs] at hp
    obtain ⟨⟨_, _, hreq⟩, -⟩ := hp
    cases hreq
    exact ⟨x, new, rfl, hl, rfl, by rw [e, hargs, ha], rfl⟩

/-! ## The four promises -/

/-- A revoked link is never written again, -/
theorem revoked_stays (h₀ : Settled s₀) (hb : (machine cfg).Reaches G ⟨s₀, []⟩ w)
    (ha : (machine cfg).Reaches G w w') (hl : link ∈ w.shared.links)
    (hrev : link.revokedAt ≠ none) : link ∈ w'.shared.links := by
  obtain ⟨link', hl', hk⟩ := reaches_kept h₀ hb ha hl
  rwa [← hk.of_revoked hrev]

/-- and no other row ever takes its id. -/
theorem eq_of_same_id (hI : Sound s) {link' : PublicLink} (hl : link ∈ s.links)
    (hl' : link' ∈ s.links) (hid : link'.id = link.id) : link' = link :=
  hI.wf.eq_of_common (k := .id link.id) hl' hl (by simp [keys, hid]) (by simp [keys])

/-- A regeneration that returns leaves every link committed before it revoked. -/
theorem returned_revokes {i : Nat} {issued : IssuedLink} (hH : Holds Sound (Asserts cfg) w)
    (hn : (machine cfg).next w (.run i k) = some w') (hf : w'.calls[i]? = some f)
    (hret : Returned requestId issued f) (hl : link ∈ w.shared.links)
    (hreq : link.requestId = requestId) :
    ∃ link' ∈ w'.shared.links, Kept link link' ∧ link'.revokedAt ≠ none := by
  obtain ⟨g, s', hg, he, rfl⟩ := next_run_cases hn hf
  obtain ⟨x, new, rfl, hnew, hown, -, rfl⟩ := (step_of_exec he).returned (hH.call hg) hret
  exact commit_revokes hH.1 (hH.call hg) hnew hl (hreq.trans hown.symm)

/-- The call has not committed. -/
def Uncommitted (f : Call) : Prop := ∀ args answer, f ≠ .done args (.ok answer)

/-- A step that leaves its call uncommitted leaves the links alone. -/
theorem Step.uncommitted (h : Step cfg k s f s' f') (hf : Asserts cfg s f) (hu : Uncommitted f') :
    s'.links = s.links := by
  obtain e | ⟨x, rfl, -, rfl⟩ := h.links
  · exact e
  · obtain ⟨-, ha⟩ | ⟨new, issued, -, ha, -⟩ := hf.1.purpose.answer
    · exact absurd (by rw [ha]) (hu x.args none)
    · exact absurd (by rw [ha]) (hu x.args (some issued))

/-- A call that can step has not committed. -/
theorem Step.from_uncommitted (h : Step cfg k s f s' f') : Uncommitted f := by
  rintro args answer rfl
  cases h with
  | aborted _ _ _ hx => cases hx

/-- The moves of a call that has not committed left the links alone. -/
theorem uncommitted_changes_nothing (h₀ : Settled s₀) (hr : (machine cfg).Run ⟨s₀, []⟩ tr w)
    (i : Nat) : (∀ m ∈ tr, ∀ k, m.act = .run i k → i < w.calls.length) ∧
    ∀ f, w.calls[i]? = some f → Uncommitted f → ∀ m ∈ tr, ∀ k, m.act = .run i k →
      m.after.shared.links = m.before.shared.links := by
  induction hr with
  | start => simp
  | @step tr w w' a hr hn ih =>
    have hH := h₀.holds (hr.reaches (G := fun _ _ => True) fun _ _ => trivial)
    obtain ⟨hlen, ih⟩ := ih
    obtain ⟨g, rfl, -, rfl⟩ | ⟨j, k', g, s', g', rfl, hg, he, rfl⟩ := next_cases hn
    · refine ⟨fun m hm k hk => ?_, fun f hf hu m hm k hk => ?_⟩
      · rcases List.mem_cons.1 hm with rfl | hm
        · cases hk
        · simpa using Nat.lt_succ_of_lt (hlen m hm k hk)
      · rcases List.mem_cons.1 hm with rfl | hm
        · cases hk
        · rw [List.getElem?_append_left (hlen m hm k hk)] at hf
          exact ih f hf hu m hm k hk
    · refine ⟨fun m hm k hk => ?_, fun f hf hu m hm k hk => ?_⟩
      · rw [List.length_set]
        rcases List.mem_cons.1 hm with rfl | hm
        · cases hk; exact lt_of_getElem?_eq_some hg
        · exact hlen m hm k hk
      · have hstep := step_of_exec he
        rcases getElem?_set_cases hf with ⟨rfl, rfl⟩ | ⟨hij, hf⟩
        · rcases List.mem_cons.1 hm with rfl | hm
          · exact hstep.uncommitted (hH.call hg) hu
          · exact ih g hg hstep.from_uncommitted m hm k hk
        · rcases List.mem_cons.1 hm with rfl | hm
          · cases hk; exact absurd rfl hij
          · exact ih f hf hu m hm k hk

/-! ## The active link -/

def Call.args : Call → Args
  | .start args | .hash args _ _ _ _ | .done args _ => args
  | .update x | .updating x _ | .create x _ | .commit x => x.args

theorem Step.args (h : Step cfg k s f s' f') : f'.args = f.args := by
  cases h with
  | aborted f x _ hx =>
    cases f with
    | update _ | updating _ _ | create _ _ | commit _ => cases hx; rfl
    | start _ | hash _ _ _ _ _ | done _ _ => cases hx
  | _ => rfl

/-- No `revoke` of the request is called. -/
def NoRevoke (requestId : RequestId) (_ : World State Call) (a : Act Call Choice) : Prop :=
  ∀ lawyerId, a ≠ .call (.start (.revoke requestId lawyerId))

/-- The active link of the request is the one it had, as long as no regeneration has returned, and
then one that a regeneration returned. -/
def Current (cfg : Config) (requestId : RequestId) (link₀ : PublicLink) (w : World State Call) :
    Prop :=
  ∃ link ∈ w.shared.links, isActive requestId link = true ∧
    ((link = link₀ ∧ ∀ f ∈ w.calls, ∀ issued, ¬ Returned requestId issued f) ∨
      ∃ f ∈ w.calls, ∃ issued, Returned requestId issued f ∧ Bears cfg link issued)

theorem no_revoke_frames (h : (machine cfg).Reaches (NoRevoke requestId) ⟨s₀, []⟩ w) :
    ∀ f ∈ w.calls, ∀ lawyerId, f.args ≠ .revoke requestId lawyerId := by
  refine h.induct (I := fun w => ∀ f ∈ w.calls, ∀ lawyerId, f.args ≠ .revoke requestId lawyerId)
    (by simp) ?_
  intro w a w' _ ih hG hn f hf lawyerId
  obtain ⟨g, rfl, hg, rfl⟩ | ⟨j, k', g, s', g', rfl, hg, he, rfl⟩ := next_cases hn
  · rcases List.mem_append.1 hf with hf | hf
    · exact ih f hf lawyerId
    · obtain rfl := List.mem_singleton.1 hf
      obtain ⟨args, rfl⟩ := start_of_enters hg
      rintro rfl
      exact hG lawyerId rfl
  · rcases List.mem_or_eq_of_mem_set hf with hf | rfl
    · exact ih f hf lawyerId
    · rw [(step_of_exec he).args]
      exact ih g (List.mem_of_getElem? hg) lawyerId

/-- A regeneration of the request that commits makes its own link the active one. -/
theorem commit_current {x : Tx} (hx : Asserts cfg s (.commit x)) (hreq : x.ownedId = requestId)
    (hno : ∀ lawyerId, x.args ≠ .revoke requestId lawyerId) :
    ∃ link ∈ State.links { s with publicLink := commit x.xid s.publicLink },
      isActive requestId link = true ∧ ∃ issued,
        Returned requestId issued (.done x.args (answerOf cfg x)) ∧ Bears cfg link issued := by
  have hp := hx.1.purpose
  obtain ⟨hl, -⟩ | ⟨new, issued, hl, ha, hurl, hpin, hexp⟩ := hp.answer
  · simp only [Purpose, hl] at hp
    obtain ⟨lawyerId, hargs⟩ := hp
    exact absurd (hreq ▸ hargs) (hno lawyerId)
  · simp only [Purpose, hl] at hp
    obtain ⟨⟨lawyerId, days, hargs⟩, -, salt, hsalt⟩ := hp
    obtain ⟨k, hown⟩ := hx.2 new hl
    refine ⟨rowOf cfg k x new, mem_links_commit.2 ⟨_, hown, sees_eq_some.2 (.inl rfl)⟩, ?_, issued,
      ⟨lawyerId, days, ?_⟩, new.token, salt, hurl, rfl, ?_, ?_⟩
    · simp [isActive, rowOf, hreq]
    · rw [hargs, ha, hreq]
    · rw [hpin]; exact hsalt
    · exact hexp.symm

theorem next_current {a : Act Call Choice} {link₀ : PublicLink} (hH : Holds Sound (Asserts cfg) w)
    (hno : ∀ f ∈ w.calls, ∀ lawyerId, f.args ≠ .revoke requestId lawyerId)
    (hn : (machine cfg).next w a = some w') (h : Current cfg requestId link₀ w) :
    Current cfg requestId link₀ w' := by
  obtain ⟨link, hl, hact, hwho⟩ := h
  obtain ⟨g, rfl, hg, rfl⟩ | ⟨i, k, g, s', g', rfl, hg, he, rfl⟩ := next_cases hn
  · obtain ⟨args, rfl⟩ := start_of_enters hg
    refine ⟨link, hl, hact, ?_⟩
    rcases hwho with ⟨e, hnone⟩ | ⟨f, hf, hret⟩
    · refine .inl ⟨e, fun f hf issued => ?_⟩
      rcases List.mem_append.1 hf with hf | hf
      · exact hnone f hf issued
      · obtain rfl := List.mem_singleton.1 hf
        rintro ⟨_, _, e⟩
        cases e
    · exact .inr ⟨f, List.mem_append_left _ hf, hret⟩
  · have hstep := step_of_exec he
    have hg' : g' ∈ w.calls.set i g' := List.mem_set (lt_of_getElem?_eq_some hg) g'
    by_cases hret : ∃ issued, Returned requestId issued g'
    · obtain ⟨issued, hret⟩ := hret
      obtain ⟨x, new, rfl, -, hown, rfl, rfl⟩ := hstep.returned (hH.call hg) hret
      obtain ⟨link', hl', hact', issued', hret', hb⟩ :=
        commit_current (hH.call hg) hown (hno _ (List.mem_of_getElem? hg))
      exact ⟨link', hl', hact', .inr ⟨_, hg', issued', hret', hb⟩⟩
    · have hstay : link ∈ s'.links := by
        obtain e | ⟨x, rfl, rfl, rfl⟩ := hstep.links
        · rwa [e]
        · have hreq : link.requestId = requestId := by simp [isActive] at hact; exact hact.1
          refine commit_other hH.1 (hH.call hg).1 hl fun e => hret ?_
          obtain ⟨-, -, -, issued, hr, -⟩ := commit_current (hH.call hg) (e.symm.trans hreq)
            (hno _ (List.mem_of_getElem? hg))
          exact ⟨issued, hr⟩
      refine ⟨link, hstay, hact, ?_⟩
      rcases hwho with ⟨e, hnone⟩ | ⟨f, hf, issued, hr, hb⟩
      · refine .inl ⟨e, fun f hf issued => ?_⟩
        rcases List.mem_or_eq_of_mem_set hf with hf | rfl
        · exact hnone f hf issued
        · exact fun hr => hret ⟨issued, hr⟩
      · refine .inr ⟨f, ?_, issued, hr, hb⟩
        -- a call that has returned is not the one that stepped
        obtain ⟨j, hj⟩ := List.mem_iff_getElem?.1 hf
        have hij : i ≠ j := by
          rintro rfl
          rw [hg] at hj; cases hj
          obtain ⟨_, _, e⟩ := hr
          exact hstep.from_uncommitted _ _ e
        exact List.mem_iff_getElem?.2 ⟨j, by rwa [List.getElem?_set_ne hij]⟩

/-- The active links of a request. -/
def State.activeLinks (s : State) (requestId : RequestId) : List PublicLink :=
  s.links.filter (isActive requestId)

theorem Sound.nodup (hI : Sound s) : s.links.Nodup :=
  hI.wf.noClash.imp fun {a b} h e => by
    subst e
    exact clash_eq_false.1 h (.id a.id) (by simp [keys]) (by simp [keys])

/-- The partial unique index: a request with an active link has one. -/
theorem Sound.activeLinks_eq (hI : Sound s) (hl : link ∈ s.links)
    (hact : isActive requestId link = true) : s.activeLinks requestId = [link] := by
  refine eq_singleton_of_forall_eq (hI.nodup.filter _) (List.mem_filter.2 ⟨hl, hact⟩) ?_
  intro link' h'
  obtain ⟨hl', hact'⟩ := List.mem_filter.1 h'
  have hkey : ∀ l, isActive requestId l = true → Entry.active requestId ∈ keys l := by
    intro l h
    simp only [isActive, Bool.and_eq_true, beq_iff_eq] at h
    simp [keys, h.1, h.2]
  exact hI.wf.eq_of_common hl' hl (hkey link' hact') (hkey link hact)

theorem reaches_current {link₀ : PublicLink} (h₀ : Settled s₀)
    (h : (machine cfg).Reaches (NoRevoke requestId) ⟨s₀, []⟩ w)
    (hl : s₀.activeLinks requestId = [link₀]) : Current cfg requestId link₀ w := by
  refine h.induct (I := Current cfg requestId link₀) ?_ ?_
  · have hm : link₀ ∈ s₀.activeLinks requestId := by rw [hl]; exact List.mem_singleton_self _
    obtain ⟨hm, hact⟩ := List.mem_filter.1 hm
    exact ⟨link₀, hm, hact, .inl ⟨rfl, by simp⟩⟩
  · intro v a v' hv ih _ hn
    exact next_current (h₀.holds hv) (no_revoke_frames hv) hn ih

/-- **Regenerating really replaces.** In every run of any number of `regenerate` and `revoke` calls
under READ COMMITTED, from settled tables:

* a link that is revoked stays as it is, and no other row takes its id;
* when a regeneration returns, every link of the request that was committed before is revoked for
  good, and `resolve` refuses its token;
* no move of a call that ended with an error changed a link;
* if the request had one active link and no `revoke` of it was called, it has exactly one: the
  initial one as long as no regeneration has returned, and then one that a regeneration returned. -/
theorem regenerate_replaces (cfg : Config) (s₀ : State) (h₀ : Settled s₀)
    (tr : List (Move State Call Choice)) (w : World State Call)
    (hr : (machine cfg).Run ⟨s₀, []⟩ tr w) :
    (∀ m ∈ tr, ∀ link ∈ m.before.shared.links, link.revokedAt ≠ none →
      link ∈ w.shared.links ∧ ∀ link' ∈ w.shared.links, link'.id = link.id → link' = link) ∧
    (∀ m ∈ tr, ∀ i k f requestId issued, m.act = .run i k → m.after.calls[i]? = some f →
      Returned requestId issued f → ∀ link ∈ m.before.shared.links, link.requestId = requestId →
        (∃ link' ∈ w.shared.links, link'.id = link.id ∧ link'.revokedAt ≠ none) ∧
        Refused cfg w.shared link.tokenHash) ∧
    (∀ (i : Nat) args failure, w.calls[i]? = some (.done args (.error failure)) →
      ∀ m ∈ tr, ∀ k, m.act = .run i k → m.after.shared.links = m.before.shared.links) ∧
    (∀ requestId link₀, s₀.activeLinks requestId = [link₀] → All (NoRevoke requestId) tr →
      ∃ link, w.shared.activeLinks requestId = [link] ∧
        ((link = link₀ ∧ ∀ f ∈ w.calls, ∀ issued, ¬ Returned requestId issued f) ∨
          ∃ f ∈ w.calls, ∃ issued, Returned requestId issued f ∧ Bears cfg link issued)) := by
  have hI := (h₀.holds (hr.reaches (G := fun _ _ => True) fun _ _ => trivial)).1
  refine ⟨fun m hm link hl hrev => ?_,
    fun m hm i k f requestId issued hact hf hret link hl hreq => ?_,
    fun i args failure hf => ?_, fun requestId link₀ hl hno => ?_⟩
  · obtain ⟨hb, hn, ha⟩ := hr.of_mem hm
    have hrest := ((Machine.Reaches.refl _).step trivial hn).trans ha
    have hl' := revoked_stays h₀ hb hrest hl hrev
    exact ⟨hl', fun link' => eq_of_same_id hI hl'⟩
  · obtain ⟨hb, hn, ha⟩ := hr.of_mem hm
    obtain ⟨link', hl', hk, hrev⟩ := returned_revokes (h₀.holds hb) (hact ▸ hn) hf hret hl hreq
    have hw := revoked_stays h₀ (hb.step trivial hn) ha hl' hrev
    refine ⟨⟨link', hw, hk.same.1, hrev⟩, ?_⟩
    rw [← hk.same.2.1]
    exact refused_of_revoked hI hw hrev
  · exact (uncommitted_changes_nothing h₀ hr i).2 _ hf fun _ _ e => by cases e
  · obtain ⟨link, hm, hact, hwho⟩ := reaches_current h₀ (hr.reaches hno) hl
    exact ⟨link, hI.activeLinks_eq hm hact, hwho⟩

/-! ### A race, and a regeneration after it -/

def office : Config :=
  ⟨fun token => js "sha256:" ++ token, fun pin _ => js "argon2:" ++ pin,
    js "https://portail.example/"⟩

/-- The link of the creation. -/
def first : PublicLink :=
  ⟨js "l0", js "sha256:first", js "argon2:1234", MILLISECONDS_PER_DAY, 0, none, js "dossier"⟩

def created : State :=
  ⟨[⟨js "dossier", js "Achat", 0, js "alice"⟩], [⟨some first, none⟩], 0⟩

theorem settled_created : Settled created where
  wf := List.pairwise_singleton _ _
  quiet c hc := by rw [List.mem_singleton.1 hc]

/-- One step of call `i`; `random` is repeated in the token it draws, and names its link. -/
def at' (i : Nat) (random : UInt8) : Act Call Choice :=
  .run i ⟨0, List.replicate TOKEN_BYTES random, 42, [], [random.toUInt16], none⟩

def regenerating : Act Call Choice := .call (.start (.regenerate (js "dossier") (js "alice") 7))

/-- The `updateMany` of the second call starts before the first commits and ends after; its `create`
collides. The third call comes when both are over, and is about to commit. -/
def raced : List (Act Call Choice) :=
  [regenerating, regenerating, at' 0 1, at' 0 1, at' 0 1, at' 1 2, at' 1 2, at' 1 2] ++
    List.replicate 4 (at' 0 1) ++ List.replicate 3 (at' 1 2) ++ regenerating ::
      List.replicate 6 (at' 2 3)

def noRevoke (_ : World State Call) (a : Act Call Choice) : Bool :=
  match a with
  | .call (.start (.revoke ..)) => false
  | _ => true

def played (acts : List (Act Call Choice)) : World State Call :=
  ((machine office).play noRevoke ⟨created, []⟩ acts).getD ⟨created, []⟩

theorem reaches_played {acts : List (Act Call Choice)}
    (h : ((machine office).play noRevoke ⟨created, []⟩ acts).isSome = true) :
    (machine office).Reaches (NoRevoke (js "dossier")) ⟨created, []⟩ (played acts) := by
  refine (reaches_getD h _).weaken fun _ a hg lawyerId => ?_
  rintro rfl
  cases hg

/-- After the third call has committed. -/
def settledAgain : World State Call :=
  ((machine office).next (played raced) (at' 2 3)).getD (played raced)

/-- What the third call returns. -/
def third : IssuedLink where
  url := js "https://portail.example/deposit/" ++
    generatePublicToken (List.replicate TOKEN_BYTES 3)
  pin := js "0042"
  expiresAt := 7 * MILLISECONDS_PER_DAY

theorem regenerate_replaces_raced :
    resolve office settledAgain.shared (js "first") 0 = some .revoked ∧
    ∃ link f issued, settledAgain.shared.activeLinks (js "dossier") = [link] ∧
      f ∈ settledAgain.calls ∧ Returned (js "dossier") issued f ∧ Bears office link issued := by
  have hraced : ((machine office).play noRevoke ⟨created, []⟩ raced).isSome = true := by
    decide +kernel
  obtain ⟨tr, hr, hno⟩ := reaches_played hraced
  have hn : (machine office).next (played raced) (at' 2 3) = some settledAgain := by
    obtain ⟨w, hw⟩ := Option.isSome_iff_exists.1
      (show ((machine office).next (played raced) (at' 2 3)).isSome = true by decide +kernel)
    rw [settledAgain, hw]; rfl
  have hdone : settledAgain.calls[2]? =
      some (.done (.regenerate (js "dossier") (js "alice") 7) (.ok (some third))) := by
    decide +kernel
  obtain ⟨-, hret, -, hcur⟩ := regenerate_replaces office created settled_created _ settledAgain
    (hr.step hn)
  have hthird : Returned (js "dossier") third (.done (.regenerate (js "dossier") (js "alice") 7)
      (.ok (some third))) := ⟨_, _, rfl⟩
  have hfirst : first.revoke 0 ∈ (played raced).shared.links := by decide +kernel
  constructor
  · exact (hret _ List.mem_cons_self 2 _ _ _ third rfl hdone hthird _ hfirst rfl).2 _ 0 rfl
  · obtain ⟨link, hlink, ⟨-, hnone⟩ | ⟨f, hf, issued, hissued, hb⟩⟩ :=
      hcur (js "dossier") first (by decide +kernel)
        (all_cons.2 ⟨fun lawyerId e => (by cases e), hno⟩)
    · exact absurd hthird (hnone _ (List.mem_of_getElem? hdone) third)
    · exact ⟨link, f, issued, hlink, hf, hissued, hb⟩

end DepositPortal.PublicLinks
