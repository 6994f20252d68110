import DepositPortal.Portal.Revocation

/-!
# Two doors, one rule

A client comes in by the token of the link (`PublicLinksService.resolve`, requests/public-links.service.ts:51)
and stays in by a session that names the link (`ClientSessionGuard`, public/client-session.guard.ts:29).
Each reads the row in its own way; the rule is the same: a link opens while it is neither revoked nor
past its deadline, the deadline itself included (`Opens`).

The refusal lasts: a revoked link is never written again. A link of the request is revoked once a
regeneration has committed, and once a revocation has that missed none (`Undisturbed`); one that missed a
link leaves it open for good (`revoked_and_open`).
-/
namespace DepositPortal.Portal
open Interleave ReadCommitted
open Requests (Plan heapPlan)
open PublicLinks (PublicLink Kept LinkResolution ResolvedLink isExpired Token resolve Args)
open Public (ClientSession ClientSessionPayload JsValue Jwt Signs Carry CLIENT_SESSION_TTL_MS
  canActivate acceptLink refuseAccess unlock unlockRoute canActivate_signed)
open Deposits (RequestId)

variable {cfg : Config} {plan : Plan} {k : Choice} {s : State} {link : PublicLink} {token : Token}
  {now : Int} {w w' : World State Call} {tr : List (Move State Call Choice)}
  {G : World State Call → Act Call Choice → Prop}

/-- The link opens at `now`. -/
def Opens (link : PublicLink) (now : Int) : Prop :=
  link.revokedAt = none ∧ isExpired link.expiresAt now = false

/-! ## The two readings of a row -/

theorem resolve_ok {l : ResolvedLink} {request : PublicLinks.DepositRequest}
    (h : resolve cfg.toConfig s.links token now = some (.ok l request)) :
    ∃ link ∈ s.links.links, link.tokenHash = cfg.hashPublicToken token ∧ Opens link now ∧
      l = ⟨link.id, link.pinHash, link.expiresAt⟩ ∧ request ∈ s.links.depositRequest ∧
      request.id = link.requestId := by
  unfold resolve at h
  split at h
  · cases h
  · next link hl =>
    split at h
    · cases h
    · next hrev =>
      split at h
      · cases h
      · next hexp =>
        obtain ⟨r, hr, e⟩ := Option.map_eq_some_iff.1 h
        cases e
        refine ⟨link, List.mem_of_find?_eq_some hl, by simpa using List.find?_some hl,
          ⟨by simpa using hrev, by simpa using hexp⟩, rfl, List.mem_of_find?_eq_some hr, ?_⟩
        simpa using List.find?_some hr

/-- What the token of a link resolves to: the link, -/
theorem resolve_own_ok (hI : Sound s) (hl : link ∈ s.links.links)
    (ht : cfg.hashPublicToken token = link.tokenHash) {l : ResolvedLink}
    {request : PublicLinks.DepositRequest}
    (h : resolve cfg.toConfig s.links token now = some (.ok l request)) :
    Opens link now ∧ l = ⟨link.id, link.pinHash, link.expiresAt⟩ ∧ request.id = link.requestId := by
  obtain ⟨found, hf, htf, hopen, hrow, -, hreq⟩ := resolve_ok h
  have hsame : found.tokenHash = link.tokenHash := htf.trans ht
  obtain rfl : found = link := hI.links.wf.eq_of_common (k := .tokenHash link.tokenHash) hf hl
    (by simp [PublicLinks.keys, hsame]) (by simp [PublicLinks.keys])
  exact ⟨hopen, hrow, hreq⟩

/-- whenever it opens. -/
theorem resolve_own (hI : Sound s) (hl : link ∈ s.links.links)
    (ht : cfg.hashPublicToken token = link.tokenHash) :
    (∃ l request, resolve cfg.toConfig s.links token now = some (.ok l request)) ↔ Opens link now := by
  constructor
  · rintro ⟨l, request, h⟩
    exact (resolve_own_ok hI hl ht h).1
  · rintro ⟨hrev, hexp⟩
    have hfind : s.links.links.find? (fun l => l.tokenHash == cfg.hashPublicToken token) =
        some link := by
      refine Requests.find?_eq_of_key hl (by simp [ht]) fun other ho he => ?_
      have hsame : other.tokenHash = link.tokenHash := by simpa [ht] using he
      exact hI.links.wf.eq_of_common (k := .tokenHash link.tokenHash) ho hl
        (by simp [PublicLinks.keys, hsame]) (by simp [PublicLinks.keys])
    obtain ⟨r, hr, hid⟩ := hI.intact.linkRequest link hl
    have hreq : s.links.depositRequest.find? (fun r => r.id == link.requestId) = some r :=
      hI.intact.find_request hr (by simp [hid]) fun r' he => by
        rw [hid]; simpa using he
    refine ⟨⟨link.id, link.pinHash, link.expiresAt⟩, r, ?_⟩
    simp only [resolve, hfind, hrev, hexp, hreq, Option.isSome_none, Bool.false_eq_true, if_false,
      Option.map_some]

/-- What the guard makes of a link. -/
theorem acceptLink_own (hI : Sound s) (hl : link ∈ s.links.links) :
    acceptLink s.links.links link.id now =
    if link.revokedAt.isSome || isExpired link.expiresAt now then .error refuseAccess
    else .ok ⟨link.id, link.requestId, link.expiresAt⟩ := by
  have hfind : s.links.links.find? (fun l => l.id == link.id) = some link :=
    Requests.find?_eq_of_key hl (by simp) fun other ho he =>
      PublicLinks.eq_of_same_id hI.links hl ho (by simpa using he)
  rw [acceptLink, hfind]

theorem acceptLink_iff (hI : Sound s) (hl : link ∈ s.links.links) {session : ClientSession} :
    acceptLink s.links.links link.id now = .ok session ↔
      Opens link now ∧ session = ⟨link.id, link.requestId, link.expiresAt⟩ := by
  rw [acceptLink_own hI hl]
  by_cases h : Opens link now
  · simp [h.1, h.2, h, eq_comm]
  · have hshut : (link.revokedAt.isSome || isExpired link.expiresAt now) = true := by
      by_contra hno
      simp only [Bool.or_eq_true, not_or, Bool.not_eq_true, Option.isSome_eq_false_iff,
        Option.isNone_iff_eq_none] at hno
      exact h hno
    simp [hshut, h]

section
variable {payload : ClientSessionPayload} {iat : Int} {cookies : JsString → JsValue}

/-- What the guard makes of a session that was signed for a link. -/
theorem guard_own (hs : Signs cfg.jwt) (hI : Sound s) (hl : link ∈ s.links.links)
    (hp : payload.linkId = link.id) (hc : Carry cfg.jwt payload iat cookies) {session : ClientSession} :
    canActivate cfg.jwt false s.links.links (some cookies) now now = .ok session ↔
      now / 1000 < iat / 1000 + CLIENT_SESSION_TTL_MS / 1000 ∧ Opens link now ∧
        session = ⟨link.id, link.requestId, link.expiresAt⟩ := by
  rw [canActivate_signed hs hc, hp]
  split
  · next h => rw [acceptLink_iff hI hl]; exact (and_iff_right h).symm
  · next h => simp [h]

end

section
variable {fails : Option Public.Query} {db : Requests.Database} {pin : JsString} {work : Public.Work}

/-- An unlock that succeeds has found the link of its token, and answers with the view of its request. -/
theorem unlock_ok {unlocked : Public.UnlockResult}
    (h : (unlock cfg.toService fails s.links plan db token pin now work).1 = .ok unlocked) :
    ∃ link ∈ s.links.links, link.tokenHash = cfg.hashPublicToken token ∧ Opens link now ∧
      unlocked.linkId = link.id ∧
      Public.viewOf plan db false link.requestId link.expiresAt = .ok unlocked.view := by
  unfold unlock at h
  split at h
  · cases h
  · cases h
  · next resolution _ hresolve =>
    unfold Public.unlockResolved at h
    split at h
    split at h
    · next resolved request =>
      obtain ⟨link, hl, ht, hopen, rfl, -, hreq⟩ := resolve_ok hresolve
      split at h
      · next view hview =>
        cases h
        refine ⟨link, hl, ht, hopen, rfl, ?_⟩
        cases hfail : fails == some .viewOf with
        | true => rw [hfail] at hview; cases hview
        | false => rw [hfail, hreq] at hview; exact hview
      · cases h
    · cases h

end

/-! ## The refusal lasts -/

/-- The request whose links a finished call has changed. -/
def committedFor : Call → Option RequestId
  | .links (.done args (.ok _)) => some args.requestId
  | _ => none

/-- A regeneration or a revocation of the request commits, and answers. -/
def Commits (requestId : RequestId) (m : Move State Call Choice) : Prop :=
  answersFor committedFor requestId m = true

theorem Commits.answered {requestId : RequestId} {m : Move State Call Choice}
    (h : Commits requestId m) : ∃ i k args answer, m.act = .run i k ∧
      m.after.calls[i]? = some (.links (.done args (.ok answer))) ∧ args.requestId = requestId := by
  obtain ⟨i, k, f, hact, hf, hfor⟩ := answersFor_iff.1 h
  unfold committedFor at hfor
  split at hfor
  · next args answer => exact ⟨i, k, args, answer, hact, hf, Option.some.inj hfor⟩
  · cases hfor

theorem ownedId_eq {cfg : PublicLinks.Config} {x : PublicLinks.Tx} (h : PublicLinks.Purpose cfg x) :
    x.args.requestId = x.ownedId := by
  unfold PublicLinks.Purpose at h
  split at h
  · obtain ⟨lawyerId, e⟩ := h
    rw [e]; rfl
  · obtain ⟨⟨lawyerId, days, e⟩, -⟩ := h
    rw [e]; rfl

/-- The move by which a regeneration or a revocation answers is the commit of its transaction. -/
theorem next_commits (hH : Holds Sound (Asserts cfg) w) {i : Nat} {args : Args}
    {answer : Option PublicLinks.IssuedLink} (hn : (machine cfg plan).next w (.run i k) = some w')
    (hf : w'.calls[i]? = some (.links (.done args (.ok answer)))) :
    ∃ x, w.calls[i]? = some (.links (.commit x)) ∧ x.args = args ∧ x.ownedId = args.requestId ∧
      PublicLinks.answerOf cfg.toConfig x = .ok answer ∧ k.fault = none ∧
      w'.shared.links.links = rows (ReadCommitted.commit x.xid w.shared.links.publicLink) := by
  obtain ⟨f, s', hcall, he, rfl⟩ := next_run_cases hn hf
  cases step_of_exec he with
  | links g g' t hexec =>
    obtain ⟨x, rfl, rfl, ha, rfl⟩ := (PublicLinks.step_of_exec hexec).done_ok rfl
    refine ⟨x, hcall, rfl, (ownedId_eq (hH.call hcall).1.1.purpose).symm, ha, ?_, rfl⟩
    rcases commit_exec hexec with ⟨hfault, -, -⟩ | ⟨fault, -, -, hd⟩
    · exact hfault
    · cases hd

/-- After such a move every link the request had is revoked, for good. -/
theorem revoked_by_commit (hr : (machine cfg plan).Run ⟨State.empty, []⟩ tr w)
    (hG : All (OnRun Undisturbed) tr) {m : Move State Call Choice} (hm : m ∈ tr)
    (hc : Commits link.requestId m) (hl : link ∈ m.before.shared.links.links) :
    ∃ link' ∈ w.shared.links.links, Kept link link' ∧ link'.revokedAt ≠ none := by
  obtain ⟨i, k, args, answer, hact, hf, hreq⟩ := hc.answered
  obtain ⟨hb, hn, ha⟩ := hr.of_mem_all hG hm
  have hH := holds hb
  rw [hact] at hn
  obtain ⟨x, hcall, -, howned, -, -, hlinks⟩ := next_commits hH hn hf
  have hcov := covering_of_reaches (fun _ _ h => h) hb _ (List.mem_of_getElem? hcall)
  obtain ⟨link₁, hl₁, hk₁, hrev⟩ :=
    commit_cuts hH.1 (hH.call hcall) hcov hl (hreq.symm.trans howned.symm)
  rw [← hlinks] at hl₁
  have hb' : (machine cfg plan).Reaches (fun _ _ => True) ⟨State.empty, []⟩ m.after :=
    (hb.weaken fun _ _ _ => trivial).step trivial (hact ▸ hn)
  obtain ⟨link₂, hl₂, hk₂⟩ := (reaches_grows hb' (ha.weaken fun _ _ _ => trivial)).links link₁ hl₁
  obtain rfl := hk₂.of_revoked hrev
  exact ⟨link₂, hl₂, hk₁, hrev⟩

/-- **Two doors, one rule.** In every run of the portal in which no regeneration commits while a
revocation of its request is under way: under a session that was signed for a link, whatever request it
names, and as long as it verifies, the guard accepts at the instants at which the link's own token
resolves, and no others; it hands over the request of the row; and past the deadline of the link, or once
a regeneration or a revocation of its request has committed, neither ever opens again. -/
theorem two_doors_one_rule (cfg : Config) (plan : Plan) (hs : Signs cfg.jwt)
    (tr : List (Move State Call Choice)) (w : World State Call)
    (hr : (machine cfg plan).Run ⟨State.empty, []⟩ tr w) (hG : All (OnRun Undisturbed) tr)
    (link : PublicLink) (hl : link ∈ w.shared.links.links) (token : Token)
    (ht : cfg.hashPublicToken token = link.tokenHash) (payload : ClientSessionPayload) (iat : Int)
    (hp : payload.linkId = link.id) (cookies : JsString → JsValue)
    (hc : Carry cfg.jwt payload iat cookies) :
    (∀ t, t / 1000 < iat / 1000 + CLIENT_SESSION_TTL_MS / 1000 →
      ((∃ session, canActivate cfg.jwt false w.shared.links.links (some cookies) t t = .ok session) ↔
        ∃ l request, resolve cfg.toConfig w.shared.links token t = some (.ok l request))) ∧
    (∀ t session, canActivate cfg.jwt false w.shared.links.links (some cookies) t t = .ok session →
      session.linkId = link.id ∧ session.requestId = link.requestId) ∧
    ∀ t, (link.expiresAt < t ∨ ∃ m ∈ tr, Commits link.requestId m ∧
        ∃ old ∈ m.before.shared.links.links, old.id = link.id) →
      (∀ session, canActivate cfg.jwt false w.shared.links.links (some cookies) t t ≠ .ok session) ∧
      ∀ l request, resolve cfg.toConfig w.shared.links token t ≠ some (.ok l request) := by
  have hI := (holds (hr.reaches hG)).1
  refine ⟨fun t hlive => ?_, fun t session hok => ?_, fun t hover => ?_⟩
  · rw [resolve_own hI hl ht]
    constructor
    · rintro ⟨session, hok⟩
      exact ((guard_own hs hI hl hp hc).1 hok).2.1
    · exact fun hopen => ⟨_, (guard_own hs hI hl hp hc).2 ⟨hlive, hopen, rfl⟩⟩
  · obtain ⟨-, -, rfl⟩ := (guard_own hs hI hl hp hc).1 hok
    exact ⟨rfl, rfl⟩
  · have hshut : ¬ Opens link t := by
      rintro ⟨hrev, hexp⟩
      rcases hover with hlate | ⟨m, hm, hcommit, old, ho, hid⟩
      · simp only [isExpired, decide_eq_false_iff_not] at hexp
        exact hexp hlate
      · obtain ⟨hb, hn, ha⟩ := hr.of_mem hm
        obtain ⟨kept, hk, hkept⟩ := (reaches_grows hb ((Machine.Reaches.refl _).step trivial hn
          |>.trans ha)).links old ho
        obtain rfl : kept = link :=
          PublicLinks.eq_of_same_id hI.links hl hk (hkept.same.1.trans hid)
        rw [hkept.same.2.2] at hcommit
        obtain ⟨link', hl', hk', hrev'⟩ := revoked_by_commit hr hG hm hcommit ho
        obtain rfl : link' = kept :=
          PublicLinks.eq_of_same_id hI.links hl hl' (hk'.same.1.trans hkept.same.1.symm)
        exact hrev' hrev
    refine ⟨fun session hok => hshut ((guard_own hs hI hl hp hc).1 hok).2.1, fun l request hok => ?_⟩
    exact hshut ((resolve_own hI hl ht).1 ⟨l, request, hok⟩)

/-! ### A link that is revoked, and one that a revocation misses -/

instance (requestId : RequestId) (f : Call) : Decidable (Revoking requestId f) :=
  match f with
  | .links (.updating _ _) | .links (.commit _) => inferInstanceAs (Decidable (_ ∧ _))
  | .links (.start _) | .links (.hash _ _ _ _ _) | .links (.update _) | .links (.create _ _)
  | .links (.done _ _) | .create _ | .client _ | .seed _ => isFalse id

instance (w : World State Call) (k : Choice) (f : Call) : Decidable (Undisturbed w k f) :=
  match f with
  | .links (.commit x) => inferInstanceAs (Decidable (k.fault = none → x.link ≠ none →
      ∀ e ∈ w.calls, ¬ Revoking x.ownedId e))
  | .links (.start _) | .links (.hash _ _ _ _ _) | .links (.update _) | .links (.updating _ _)
  | .links (.create _ _) | .links (.done _ _) | .create _ | .client _ | .seed _ => isTrue trivial

def revoking : Act Call Choice := .call (.links (.start (.revoke (js "dossier") (js "alice"))))

def regenerating : Act Call Choice := .call (.links (.start (.regenerate (js "dossier") (js "alice") 7)))

/-- The session of the link a run with `random` has inserted, signed at 0. -/
def sessionOf (random : UInt8) (_ : JsString) : JsValue :=
  .string (portal.jwt.signAsync ⟨[random.toUInt16], js "dossier"⟩ 0)

def tokenOf (random : UInt8) : Token :=
  PublicLinks.generatePublicToken (List.replicate PublicLinks.TOKEN_BYTES random)

/-- The link a run with `random` inserts at `now`, for seven days. -/
def linkOf (random : UInt8) (now : Int) : PublicLink where
  id := [random.toUInt16]
  tokenHash := portal.hashPublicToken (tokenOf random)
  pinHash := js "argon2:0042"
  expiresAt := now + 7 * PublicLinks.MILLISECONDS_PER_DAY
  createdAt := now
  revokedAt := none
  requestId := js "dossier"

/-- The link of the creation is revoked at 1. -/
def revokedAlone : List (Act Call Choice) :=
  creation ++ revoking :: List.replicate 5 (.run 1 (tick 1 0))

theorem two_doors_one_rule_revoked :
    (∀ session, canActivate portal.jwt false (played Undisturbed revokedAlone).shared.links.links
      (some (sessionOf 1)) 2 2 ≠ .ok session) ↔
    ∀ l request, resolve portal.toConfig (played Undisturbed revokedAlone).shared.links (tokenOf 1) 2 ≠
      some (.ok l request) := by
  obtain ⟨tr, hr, hG⟩ := reaches_played (P := Undisturbed) revokedAlone (by decide +kernel)
  have h := (two_doors_one_rule portal heapPlan Public.signs_dated tr _ hr hG ((linkOf 1 0).revoke 1)
    (by decide +kernel) (tokenOf 1) rfl ⟨[1], js "dossier"⟩ 0 rfl (sessionOf 1) rfl).1 2 (by decide)
  have hiff := not_congr h
  simpa only [not_exists] using hiff

/-- The `updateMany` of the revocation starts before the regeneration commits and ends after. -/
def missed : List (Act Call Choice) :=
  creation ++ [revoking, .run 1 (tick 1 0), .run 1 (tick 1 0), regenerating] ++
    List.replicate 7 (.run 2 (tick 1 2)) ++ List.replicate 2 (.run 1 (tick 1 0))

/-- The revocation commits. -/
def endRevocation : Act Call Choice := .run 1 (tick 1 0)

def missedLink : World State Call :=
  ((machine portal heapPlan).next (played (fun _ _ _ => True) missed) endRevocation).getD
    ⟨State.empty, []⟩

/-- The link of the regeneration was committed before the revocation was, and is open after it at both
doors. -/
theorem revoked_and_open : ∃ tr,
    (machine portal heapPlan).Run ⟨State.empty, []⟩ tr missedLink ∧
    linkOf 2 1 ∈ missedLink.shared.links.links ∧
    (∃ m ∈ tr, Commits (js "dossier") m ∧ linkOf 2 1 ∈ m.before.shared.links.links) ∧
    (∃ session, canActivate portal.jwt false missedLink.shared.links.links (some (sessionOf 2)) 2 2 =
      .ok session) ∧
    ∃ l request, resolve portal.toConfig missedLink.shared.links (tokenOf 2) 2 =
      some (.ok l request) := by
  obtain ⟨tr, hr, -⟩ := reaches_played (P := fun _ _ _ => True) missed (by decide +kernel)
  have hn : (machine portal heapPlan).next (played (fun _ _ _ => True) missed) endRevocation =
      some missedLink := by
    obtain ⟨w, hw⟩ := Option.isSome_iff_exists.1 (show ((machine portal heapPlan).next
      (played (fun _ _ _ => True) missed) endRevocation).isSome = true by decide +kernel)
    rw [missedLink, hw]; rfl
  refine ⟨_, hr.step hn, by decide +kernel, ⟨_, List.mem_cons_self, ?_, by decide +kernel⟩, ?_, ?_⟩
  · unfold Commits; decide +kernel
  · exact ⟨⟨[2], js "dossier", 1 + 7 * PublicLinks.MILLISECONDS_PER_DAY⟩, by decide +kernel⟩
  · exact ⟨⟨[2], js "argon2:0042", 1 + 7 * PublicLinks.MILLISECONDS_PER_DAY⟩,
      ⟨js "dossier", js "Achat", 0, js "alice"⟩, by decide +kernel⟩

end DepositPortal.Portal
