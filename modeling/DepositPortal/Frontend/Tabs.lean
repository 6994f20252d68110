import DepositPortal.Auth.Renewal
import DepositPortal.Frontend.Client

/-!
# Several tabs, one session: `sendWithRenewal` against the server

The tabs of a browser share one cookie jar. Each `apiRequest` to a lawyer route goes out with the
access cookie, and on a 401 renews the session and is sent again
(`frontend/src/api/client.ts:146`):

| here | there |
| --- | --- |
| `canActivate`                        | `JwtAuthGuard.canActivate` (`auth/jwt-auth.guard.ts:29`) on a route that is not public |
| `Tab.apiRequest`, `asked`, `answered` | the first `send(path, init)` |
| `Tab.refreshAsked` … `renewed`       | `send(REFRESH_PATH, …)`, served by `AuthController.refresh` over `renewSession` |
| `Tab.replaying`, `replayAnswered`    | the second `send(path, init)` |
| `Tab.ended`                          | what `sendWithRenewal` returns: the replay's answer, else the first one |

What the tab does with an answer is decided by `Client.sendWithRenewal`.

The steps of the server are those of `RefreshToken.exec`. An answer arrives, its `Set-Cookie` is
applied and the tab goes on up to its next request in one step. What a route answers behind the
guard is chosen by the environment: none of them answers 401 or 403 (`UnauthorizedException` is
only thrown by the guard, the login, the refresh and the public routes).

A renewal that starts while another one is under way presents the same token, and its tab ends
refused (`two_tabs_one_refused`). Renewals that never overlap all succeed (`tabs_renew_apart`).
-/
namespace DepositPortal.Tabs
open Interleave RefreshToken Client

structure Cookie where
  value : JsString
  expires : Int
  deriving DecidableEq, Repr

structure Jar where
  /-- `portail_auth`. -/
  access : Option Cookie
  /-- `portail_refresh`, sent to the auth routes only. -/
  refresh : Option Cookie
  deriving DecidableEq, Repr

/-- The value the browser attaches to a request sent at `now`. -/
def attached (cookie : Option Cookie) (now : Int) : Option JsString :=
  (cookie.filter fun c => decide (now < c.expires)).map Cookie.value

/-- An answer that arrives at `now`. -/
def Jar.apply (jar : Jar) (now : Int) : SetCookie → Jar
  | .keep => jar
  | .clear => ⟨none, none⟩
  | .session access accessMaxAge refresh refreshMaxAge =>
    ⟨some ⟨access, now + accessMaxAge⟩, some ⟨refresh, now + refreshMaxAge⟩⟩

/-! ## The server -/

/-- `extractToken` and `readRefreshCookie`: an absent or empty cookie is no token. -/
def readCookie (cookie : Option JsString) : Option JsString :=
  cookie.filter fun token => !token.isEmpty

/-- The profile the guard sets on the request, or its 401. -/
def canActivate (auth : Auth) (cookie : Option JsString) (now : Int) : Option LawyerProfile :=
  match readCookie cookie with
  | none => none
  | some token =>
    match auth.verifyAsync token now with
    | none => none
    | some payload =>
      match payload.sub with
      | none => none
      | some sub => if sub.isEmpty then none else (auth.findById sub).map toProfile

/-- Nest's answer to an `UnauthorizedException`. -/
def unauthorizedResponse : Response :=
  ⟨401, js "application/json; charset=utf-8", .json (.text (js "Unauthorized"))⟩

/-! ## The machine -/

/-- The server's table and the browser's cookies. -/
structure Portal where
  server : Server
  jar : Jar
  deriving DecidableEq, Repr

structure Choice where
  now : Int
  /-- The successor drawn by a rotation. -/
  token : Token
  /-- What the route answers behind the guard. -/
  response : Response
  deriving DecidableEq, Repr

/-- Where an `apiRequest` stands. `first` is its first answer; `sentAt` is when it asked for a
renewal. -/
inductive Tab where
  | apiRequest (path : JsString)
  | asked (path : JsString) (access : Option JsString)
  | answered (path : JsString) (first : Response)
  | refreshAsked (path : JsString) (first : Response) (sentAt : Int) (cookie : Option JsString)
  /-- `rotate` is at `call`. -/
  | rotating (path : JsString) (first : Response) (sentAt : Int) (call : Call)
  /-- About to read the account again (`auth.service.ts:109`). -/
  | rereading (path : JsString) (first : Response) (sentAt : Int) (token : Token)
      (lawyerId : LawyerId) (expiresAt : Int)
  /-- About to sign the access token (`auth.service.ts:118`). -/
  | signing (path : JsString) (first : Response) (sentAt : Int) (profile : LawyerProfile)
      (token : Token) (expiresAt : Int)
  | renewed (path : JsString) (first : Response) (sentAt : Int) (answer : Answer)
  | replaying (path : JsString) (first : Response) (sentAt : Int) (access : Option JsString)
  | replayAnswered (path : JsString) (first replay : Response)
  | ended (path : JsString) (first : Response) (replay : Option Response)
  deriving DecidableEq, Repr

/-- The guard, then the route. -/
def serve (auth : Auth) (k : Choice) (access : Option JsString) : Option Response :=
  match canActivate auth access k.now with
  | none => some unauthorizedResponse
  | some _ => if k.response.refused then none else some k.response

/-- One step of a renewal at `call`: a statement of `rotate`, or what `renewSession` makes of its
outcome. -/
def rotateStep (auth : Auth) (k : Choice) (s : Server) (path : JsString) (first : Response)
    (sentAt : Int) : Call → Option (Server × Tab)
  | .rotated _ (.rotated token lawyerId expiresAt) =>
    some (s, .rereading path first sentAt token lawyerId expiresAt)
  | .rotated _ (.rejected reason) =>
    some (s, .renewed path first sentAt (refreshAnswer auth k.now (.ok (.rejected reason))))
  | call =>
    if k.token.isEmpty then none
    else (RefreshToken.exec auth.toConfig ⟨k.now, k.token, []⟩ s call).map fun r =>
      (r.1, .rotating path first sentAt r.2)

/-- The answer to a renewal, of which only the status is looked at. -/
def renewalResponse (answer : Answer) : Response :=
  ⟨answer.status, js "application/json; charset=utf-8", .json .other⟩

/-- What a step does, its clock reading aside. -/
def step (auth : Auth) (k : Choice) (s : Portal) : Tab → Option (Portal × Tab)
  | .apiRequest path => some (s, .asked path (attached s.jar.access k.now))
  | .asked path access => (serve auth k access).map fun r => (s, .answered path r)
  | .answered path first =>
    match sendWithRenewal path .sent first with
    | .inl _ => some (s, .refreshAsked path first k.now (attached s.jar.refresh k.now))
    | .inr response => some (s, .ended path response none)
  | .refreshAsked path first sentAt cookie =>
    match readCookie cookie with
    | none => some (s, .renewed path first sentAt (unauthorized .keep))
    | some presented => some (s, .rotating path first sentAt (.rotate presented))
  | .rotating path first sentAt call =>
    (rotateStep auth k s.server path first sentAt call).map fun r => ({ s with server := r.1 }, r.2)
  | .rereading path first sentAt token lawyerId expiresAt =>
    match auth.findById lawyerId with
    | none => some (s, .renewed path first sentAt
        (refreshAnswer auth k.now (.ok (.rejected .unknown))))
    | some lawyer => some (s, .signing path first sentAt (toProfile lawyer) token expiresAt)
  | .signing path first sentAt profile token expiresAt =>
    some (s, .renewed path first sentAt (refreshAnswer auth k.now
      (.ok (.renewed profile ⟨auth.issueToken profile k.now, token, expiresAt⟩))))
  | .renewed path first sentAt answer =>
    let s := { s with jar := s.jar.apply k.now answer.cookies }
    match sendWithRenewal path (.renewing first) (renewalResponse answer) with
    | .inl _ => some (s, .replaying path first sentAt (attached s.jar.access k.now))
    | .inr response => some (s, .ended path response none)
  | .replaying path first _ access =>
    (serve auth k access).map fun r => (s, .replayAnswered path first r)
  | .replayAnswered path first replay => some (s, .ended path first (some replay))
  | .ended _ _ _ => none

def Portal.tick (s : Portal) (now : Int) : Portal :=
  { s with server := { s.server with clock := now } }

def exec (auth : Auth) (k : Choice) (s : Portal) (f : Tab) : Option (Portal × Tab) :=
  (step auth k s f).map fun r => (r.1.tick k.now, r.2)

/-- An `apiRequest` to a lawyer route. -/
def enters : Tab → Bool
  | .apiRequest path => !isNeverRenewed path
  | _ => false

def machine (auth : Auth) : Machine Portal Tab Choice := ⟨enters, exec auth⟩

/-- What `apiRequest` ends with. -/
def outcome (first : Response) (replay : Option Response) : ApiResult :=
  apiResult (replay.getD first)

/-! ## Every `apiRequest` is short -/

section
variable {auth : Auth} {k : Choice} {s s' : Portal} {tab tab' : Tab}

theorem step_answered (path : JsString) (first : Response) : step auth k s (.answered path first) =
    if first.status ≠ 401 ∨ isNeverRenewed path = true then some (s, .ended path first none)
    else some (s, .refreshAsked path first k.now (attached s.jar.refresh k.now)) := by
  simp only [step, sendWithRenewal]
  by_cases h : first.status ≠ 401 ∨ isNeverRenewed path = true <;> simp only [h, if_true, if_false]

theorem step_renewed (path : JsString) (first : Response) (sentAt : Int) (answer : Answer) :
    step auth k s (.renewed path first sentAt answer) =
      if (renewalResponse answer).ok then
        some ({ s with jar := s.jar.apply k.now answer.cookies },
          .replaying path first sentAt (attached (s.jar.apply k.now answer.cookies).access k.now))
      else some ({ s with jar := s.jar.apply k.now answer.cookies }, .ended path first none) := by
  simp only [step, sendWithRenewal]
  cases (renewalResponse answer).ok <;> rfl

end

/-! ## Renewals one at a time -/

/-- The browser has asked for a renewal and not had the answer yet. -/
def inRenewal : Tab → Bool
  | .refreshAsked _ _ _ _ | .rotating _ _ _ _ | .rereading _ _ _ _ _ _ | .signing _ _ _ _ _ _
  | .renewed _ _ _ _ => true
  | _ => false

/-- `token` is the live token of the session `family` of `lawyer`: its row is unrevoked. -/
structure Live (cfg : Config) (lawyer : LawyerId) (family : FamilyId) (s : Server) (token : Token)
    (r : Row) : Prop where
  mem : r ∈ s.refreshToken
  hash : r.tokenHash = cfg.hashPublicToken token
  unrevoked : r.revokedAt = none
  family : r.familyId = family
  lawyer : r.lawyerId = lawyer
  nonempty : token ≠ []

/-- The session's live row is within both deadlines. -/
def InDeadlines (family : FamilyId) (s : Server) (now : Int) : Prop :=
  ∀ r ∈ s.refreshToken, r.familyId = family → r.revokedAt = none →
    now < r.expiresAt ∧ now < r.idleExpiresAt

/-- About to ask for a renewal. -/
def asksRenewal : Tab → Bool
  | .answered _ first => first.status == 401
  | _ => false

/-- About to test the deadlines. -/
def testsDeadlines : Tab → Bool
  | .rotating _ _ _ (.rotateTest _ _) => true
  | _ => false

/-- When the renewal that a replay follows was sent. -/
def replaySince : Tab → Option Int
  | .replaying _ _ sentAt _ => some sentAt
  | _ => none

/-- What the run asks of a step, apart from the clock: a renewal is only sent while no other is
under way, the session is within its deadlines where it counts, and a replay is checked before the
access token, dated from the sending of the renewal, is over. -/
def InTurn (auth : Auth) (family : FamilyId) (w : World Portal Tab) (now : Int) (tab : Tab) : Prop :=
  (asksRenewal tab = true → ∀ e ∈ w.calls, inRenewal e = false) ∧
  (asksRenewal tab = true ∨ testsDeadlines tab = true → InDeadlines family w.shared.server now) ∧
  (∀ sentAt ∈ replaySince tab, now / 1000 < sentAt / 1000 + auth.JWT_EXPIRES / 1000)

def OneAtATime (auth : Auth) (family : FamilyId) (w : World Portal Tab) : Act Tab Choice → Prop
  | .call _ => True
  | .run i k => w.shared.server.clock ≤ k.now ∧ ∀ tab ∈ w.calls[i]?, InTurn auth family w k.now tab

/-- The replay's answer when the first one was a 401, the first one otherwise, and no refusal. -/
def EndsWell (first : Response) (replay : Option Response) : Prop :=
  (first.status = 401 → ∃ r, replay = some r ∧ r.refused = false) ∧
  (first.status ≠ 401 → replay = none ∧ first.refused = false)

section
variable (auth : Auth) (lawyer : LawyerId) (family : FamilyId)

/-- The access token was signed after the renewal was sent. -/
def SignedSince (sentAt : Int) (access : JsString) : Prop :=
  ∃ iat, access = auth.signAsync ⟨some lawyer⟩ iat ∧ sentAt ≤ iat

/-- `rotate`, on the live token. -/
def Rotating (s : Server) : Call → Prop
  | .rotate token => ∃ r, Live auth.toConfig lawyer family s token r
  | .rotateTest token stored => Live auth.toConfig lawyer family s token stored
  | .rotateClaim token stored now => Live auth.toConfig lawyer family s token stored ∧
      now < stored.expiresAt ∧ now < stored.idleExpiresAt
  | .rotated _ (.rotated token l e) => l = lawyer ∧
      ∃ r, Live auth.toConfig lawyer family s token r ∧ r.expiresAt = e
  | _ => False

/-- What holds of each `apiRequest`. -/
def Stage (s : Portal) : Tab → Prop
  | .apiRequest path | .asked path _ => isNeverRenewed path = false
  | .answered path first => isNeverRenewed path = false ∧
      (first.status = 401 ∨ first.refused = false)
  | .refreshAsked _ first sentAt cookie => first.status = 401 ∧ sentAt ≤ s.server.clock ∧
      ∃ token r, cookie = some token ∧ Live auth.toConfig lawyer family s.server token r
  | .rotating _ first sentAt call => first.status = 401 ∧ sentAt ≤ s.server.clock ∧
      Rotating auth lawyer family s.server call
  | .rereading _ first sentAt token l e => first.status = 401 ∧ sentAt ≤ s.server.clock ∧
      l = lawyer ∧ ∃ r, Live auth.toConfig lawyer family s.server token r ∧ r.expiresAt = e
  | .signing _ first sentAt profile token e => first.status = 401 ∧ sentAt ≤ s.server.clock ∧
      profile.id = lawyer ∧ ∃ r, Live auth.toConfig lawyer family s.server token r ∧ r.expiresAt = e
  | .renewed _ first sentAt answer => first.status = 401 ∧ ∃ profile access token maxAge r,
      answer = ⟨200, some profile, .session access auth.JWT_EXPIRES token maxAge⟩ ∧
      Live auth.toConfig lawyer family s.server token r ∧
      r.expiresAt ≤ s.server.clock + maxAge ∧ SignedSince auth lawyer sentAt access
  | .replaying _ first sentAt access => first.status = 401 ∧
      ∃ a, access = some a ∧ SignedSince auth lawyer sentAt a
  | .replayAnswered _ first replay => first.status = 401 ∧ replay.refused = false
  | .ended _ first replay => EndsWell first replay

/-- No renewal is under way and the jar holds the live token. -/
def Ready (s : Portal) : Prop :=
  ∃ token expires r, s.jar.refresh = some ⟨token, expires⟩ ∧
    Live auth.toConfig lawyer family s.server token r ∧ r.expiresAt ≤ expires

/-- The invariant of a run whose renewals do not overlap. -/
structure Together (w : World Portal Tab) : Prop where
  inv : Inv auth.toConfig w.shared.server
  stage : ∀ tab ∈ w.calls, Stage auth lawyer family w.shared tab
  /-- At most one renewal is under way. -/
  single : ∀ (i j : Nat) (a b : Tab), w.calls[i]? = some a → w.calls[j]? = some b →
    inRenewal a = true → inRenewal b = true → i = j
  ready : (∀ tab ∈ w.calls, inRenewal tab = false) → Ready auth lawyer family w.shared

end

/-- What the application relies on in `@nestjs/jwt` (`signAsync` dates a token in whole seconds). -/
structure Signs (auth : Auth) : Prop where
  nonempty : ∀ payload iat, auth.signAsync payload iat ≠ []
  verifies : ∀ payload iat now, now / 1000 < iat / 1000 + auth.JWT_EXPIRES / 1000 →
    auth.verifyAsync (auth.signAsync payload iat) now = some payload

section
variable {auth : Auth} {lawyer : LawyerId} {family : FamilyId} {k : Choice} {s s' : Portal}
  {tab tab' : Tab} {w w' : World Portal Tab}

theorem Live.clock {cfg : Config} {t : Server} {token : Token} {r : Row} {c : Int}
    (h : Live cfg lawyer family t token r) :
    Live cfg lawyer family { t with clock := c } token r :=
  ⟨h.1, h.2, h.3, h.4, h.5, h.6⟩

theorem Rotating.clock {t : Server} {call : Call} {c : Int} (h : Rotating auth lawyer family t call) :
    Rotating auth lawyer family { t with clock := c } call := by
  cases call with
  | rotate token =>
    obtain ⟨r, h⟩ := h
    exact ⟨r, h.clock⟩
  | rotateTest token stored => exact Live.clock h
  | rotateClaim token stored now => exact ⟨h.1.clock, h.2⟩
  | rotated token o =>
    cases o with
    | rotated t l e =>
      obtain ⟨hl, r, h, he⟩ := h
      exact ⟨hl, r, h.clock, he⟩
    | rejected reason => exact h
  | _ => exact h

/-- Outside a renewal a call relies on nothing shared. -/
theorem Stage.outside (h : Stage auth lawyer family s tab) (ho : inRenewal tab = false) :
    Stage auth lawyer family s' tab := by
  cases tab <;> first | exact h | cases ho

theorem Stage.tick {now : Int} (h : Stage auth lawyer family s tab)
    (hc : s.server.clock ≤ now) : Stage auth lawyer family (s.tick now) tab := by
  cases tab with
  | refreshAsked path first sentAt cookie =>
    obtain ⟨h1, h2, token, r, hcookie, hl⟩ := h
    exact ⟨h1, Int.le_trans h2 hc, token, r, hcookie, hl.clock⟩
  | rotating path first sentAt call => exact ⟨h.1, Int.le_trans h.2.1 hc, h.2.2.clock⟩
  | rereading path first sentAt token l e =>
    obtain ⟨h1, h2, hl, r, hr, he⟩ := h
    exact ⟨h1, Int.le_trans h2 hc, hl, r, hr.clock, he⟩
  | signing path first sentAt profile token e =>
    obtain ⟨h1, h2, hl, r, hr, he⟩ := h
    exact ⟨h1, Int.le_trans h2 hc, hl, r, hr.clock, he⟩
  | renewed path first sentAt answer =>
    obtain ⟨h1, profile, access, token, maxAge, r, ha, hr, he, hs⟩ := h
    refine ⟨h1, profile, access, token, maxAge, r, ha, hr.clock, ?_, hs⟩
    simp only [Portal.tick]
    omega
  | _ => exact h

theorem Ready.tick {now : Int} (h : Ready auth lawyer family s) :
    Ready auth lawyer family (s.tick now) := by
  obtain ⟨token, expires, r, hj, hl, he⟩ := h
  exact ⟨token, expires, r, hj, hl.clock, he⟩

/-! ### The server's side of one renewal -/

theorem Live.known {t : Server} (hi : Inv auth.toConfig t) {token : Token} {r : Row}
    (h : Live auth.toConfig lawyer family t token r) : Known auth.toConfig t token r :=
  ⟨h.hash, hi.kept.origin r h.mem, fun x hx => by rw [h.unrevoked] at hx; cases hx⟩

/-- A statement of `rotate` on the live token: it goes on, or answers with the token that is live
from now on. -/
theorem Rotating.exec {c : RefreshToken.Choice} {t t' : Server} {call call' : Call}
    (hi : Inv auth.toConfig t) (h : Rotating auth lawyer family t call) (hc : c.token ≠ [])
    (hd : ∀ token stored, call = .rotateTest token stored → InDeadlines family t c.now)
    (he : RefreshToken.exec auth.toConfig c t call = some (t', call')) :
    Inv auth.toConfig t' ∧ Rotating auth lawyer family t' call' := by
  cases call with
  | rotate token =>
    obtain ⟨r, hl⟩ := h
    refine ⟨(exec_inv (f := .rotate token) hi trivial he).1, ?_⟩
    have hfu : t.findUnique (auth.hashPublicToken token) = some r :=
      hl.hash ▸ hi.kept.findUnique hl.mem
    simp only [RefreshToken.exec, hfu, Option.some.injEq, Prod.mk.injEq] at he
    obtain ⟨rfl, rfl⟩ := he
    exact Live.clock hl
  | rotateTest token stored =>
    replace h : Live auth.toConfig lawyer family t token stored := h
    refine ⟨(exec_inv (f := .rotateTest token stored) hi (h.known hi) he).1, ?_⟩
    obtain ⟨h1, h2⟩ := hd token stored rfl stored h.mem h.family h.unrevoked
    have hd' : ¬ (stored.expiresAt ≤ c.now ∨ stored.idleExpiresAt ≤ c.now) := by omega
    simp only [RefreshToken.exec, afterRead, h.unrevoked, hd', if_false, Option.some.injEq,
      Prod.mk.injEq] at he
    obtain ⟨rfl, rfl⟩ := he
    exact ⟨h.clock, h1, h2⟩
  | rotateClaim token stored now =>
    obtain ⟨hl, h1, h2⟩ := h
    refine ⟨(exec_inv (f := .rotateClaim token stored now) hi
      ⟨hl.known hi, hl.unrevoked, h1, h2⟩ he).1, ?_⟩
    simp only [RefreshToken.exec, Option.ite_none_right_eq_some, Option.some.injEq,
      Prod.mk.injEq] at he
    obtain ⟨-, rfl, rfl⟩ := he
    rcases claimAndAppend_cases (k := c) hi (hl.known hi) with ⟨-, hno⟩ | ⟨r, hr, hh, -, -, hcl⟩
    · exact absurd hl.unrevoked (hno stored hl.mem hl.hash)
    · have hrs : r = stored := hi.kept.hashes r hr stored hl.mem (hh.trans hl.hash.symm)
      subst hrs
      rw [hcl]
      refine ⟨hl.lawyer, appended auth.toConfig c r.lawyerId r.familyId r.expiresAt, ?_, rfl⟩
      exact ⟨mem_append_rows.2 (.inr rfl), rfl, rfl, hl.family, hl.lawyer, hc⟩
  | rotated token o => simp [RefreshToken.exec] at he
  | _ => exact h.elim

/-! ### One step of one tab -/

theorem serve_cases {r : Response} {access : Option JsString}
    (he : serve auth k access = some r) : r.status = 401 ∨ r.refused = false := by
  unfold serve at he
  split at he
  · cases he; exact Or.inl rfl
  · simp only [Option.ite_none_left_eq_some, Option.some.injEq] at he
    obtain ⟨hr, rfl⟩ := he
    exact Or.inr (by simpa using hr)

/-- The guard lets the holder of a fresh access token through. -/
theorem canActivate_signed (hs : Signs auth) {account : Lawyer}
    (ha : auth.findById lawyer = some account) (hl : lawyer ≠ []) {sentAt now : Int}
    {access : JsString} (h : SignedSince auth lawyer sentAt access)
    (hn : now / 1000 < sentAt / 1000 + auth.JWT_EXPIRES / 1000) :
    canActivate auth (some access) now = some (toProfile account) := by
  obtain ⟨iat, rfl, hle⟩ := h
  have hne := hs.nonempty ⟨some lawyer⟩ iat
  have hv := hs.verifies ⟨some lawyer⟩ iat now (by omega)
  simp [canActivate, readCookie, Option.filter, hne, hv, hl, ha]

theorem readCookie_nonempty {token : JsString} (h : token ≠ []) :
    readCookie (some token) = some token := by
  simp [readCookie, Option.filter, h]

theorem attached_live {value : JsString} {expires now : Int} (h : now < expires) :
    attached (some ⟨value, expires⟩) now = some value := by
  simp [attached, Option.filter, h]

/-- What a step outside a renewal leaves alone: everything but the clock. -/
theorem exec_outside (ho : inRenewal tab = false) (he : exec auth k s tab = some (s', tab')) :
    s' = s.tick k.now := by
  simp only [exec, Option.map_eq_some_iff] at he
  obtain ⟨⟨s₁, tab₁⟩, he, hx⟩ := he
  cases hx
  cases tab with
  | apiRequest path => cases he; rfl
  | asked path access =>
    simp only [step, Option.map_eq_some_iff] at he
    obtain ⟨r, -, hx⟩ := he
    cases hx
    rfl
  | answered path first =>
    rw [step_answered] at he
    split at he <;> cases he <;> rfl
  | replaying path first sentAt access =>
    simp only [step, Option.map_eq_some_iff] at he
    obtain ⟨r, -, hx⟩ := he
    cases hx
    rfl
  | replayAnswered path first replay => cases he; rfl
  | ended path first replay => cases he
  | _ => cases ho

/-- The account of the session, and its tokens. -/
structure Account (auth : Auth) (lawyer : LawyerId) : Prop where
  signs : Signs auth
  lasting : 0 < auth.JWT_EXPIRES
  nonempty : lawyer ≠ []
  exists_ : ∃ account, auth.findById lawyer = some account

theorem findById_id {account : Lawyer} (h : auth.findById lawyer = some account) :
    account.id = lawyer := by
  unfold Auth.findById at h
  simpa using List.find?_some h

/-- Outside a renewal, or on its way into one. -/
theorem Stage.exec_outside (hacc : Account auth lawyer) (h : Stage auth lawyer family s tab)
    (ho : inRenewal tab = false) (hg : InTurn auth family w k.now tab) (hw : w.shared = s)
    (hready : (∀ e ∈ w.calls, inRenewal e = false) → Ready auth lawyer family s)
    (he : exec auth k s tab = some (s', tab')) : Stage auth lawyer family s' tab' ∧
      (inRenewal tab' = true → ∀ e ∈ w.calls, inRenewal e = false) := by
  simp only [exec, Option.map_eq_some_iff] at he
  obtain ⟨⟨s₁, tab₁⟩, he, hx⟩ := he
  cases hx
  cases tab with
  | apiRequest path => cases he; exact ⟨h, by simp [inRenewal]⟩
  | asked path access =>
    simp only [step, Option.map_eq_some_iff] at he
    obtain ⟨r, hr, hx⟩ := he
    cases hx
    exact ⟨⟨h, serve_cases hr⟩, by simp [inRenewal]⟩
  | answered path first =>
    obtain ⟨hp, hf⟩ := h
    simp only [step_answered, hp] at he
    split at he
    · next hne =>
      cases he
      have hne : first.status ≠ 401 := by simpa using hne
      exact ⟨⟨fun h1 => absurd h1 hne, fun _ => ⟨rfl, hf.resolve_left hne⟩⟩, by simp [inRenewal]⟩
    · next heq =>
      cases he
      have heq : first.status = 401 := by simpa using heq
      have hask : asksRenewal (.answered path first) = true := by simpa [asksRenewal] using heq
      have hfree := hg.1 hask
      have hd := hg.2.1 (Or.inl hask)
      obtain ⟨token, expires, r, hj, hl, hexp⟩ := hready hfree
      rw [hw] at hd
      have hin := (hd r hl.mem hl.family hl.unrevoked).1
      refine ⟨⟨heq, Int.le_refl _, token, r, ?_, hl.clock⟩, fun _ => hfree⟩
      rw [hj]
      exact attached_live (by omega)
  | replaying path first sentAt access =>
    obtain ⟨h1, a, rfl, hsig⟩ := h
    obtain ⟨account, ha⟩ := hacc.exists_
    simp only [step, serve, canActivate_signed hacc.signs ha hacc.nonempty hsig
      (hg.2.2 sentAt rfl),
      Option.map_eq_some_iff] at he
    obtain ⟨r, hr, hx⟩ := he
    cases hx
    simp only [Option.ite_none_left_eq_some, Option.some.injEq] at hr
    obtain ⟨hno, rfl⟩ := hr
    exact ⟨⟨h1, by simpa using hno⟩, by simp [inRenewal]⟩
  | replayAnswered path first replay =>
    cases he
    exact ⟨⟨fun _ => ⟨replay, rfl, h.2⟩, fun hne => absurd h.1 hne⟩, by simp [inRenewal]⟩
  | ended path first replay => cases he
  | _ => cases ho

/-- Inside a renewal: it stays on the live token, and the answer that ends it hands the jar the
token that is live. -/
theorem Stage.exec_inside (hacc : Account auth lawyer) (hi : Inv auth.toConfig s.server)
    (h : Stage auth lawyer family s tab) (ho : inRenewal tab = true)
    (hg : InTurn auth family w k.now tab) (hw : w.shared = s) (hc : s.server.clock ≤ k.now)
    (he : exec auth k s tab = some (s', tab')) : Inv auth.toConfig s'.server ∧
      Stage auth lawyer family s' tab' ∧
      (inRenewal tab' = false → Ready auth lawyer family s') := by
  simp only [exec, Option.map_eq_some_iff] at he
  obtain ⟨⟨s₁, tab₁⟩, he, hx⟩ := he
  cases hx
  have hik : Inv auth.toConfig (s.tick k.now).server := hi.tick (k := ⟨k.now, [], []⟩)
  cases tab with
  | refreshAsked path first sentAt cookie =>
    obtain ⟨h1, h2, token, r, rfl, hl⟩ := h
    simp only [step, readCookie_nonempty hl.nonempty] at he
    cases he
    exact ⟨hik, ⟨h1, Int.le_trans h2 hc, r, hl.clock⟩, by simp [inRenewal]⟩
  | rotating path first sentAt call =>
    obtain ⟨h1, h2, hr⟩ := h
    simp only [step, Option.map_eq_some_iff] at he
    obtain ⟨⟨t, tab₂⟩, he, hx⟩ := he
    cases hx
    unfold rotateStep at he
    split at he
    · cases he
      obtain ⟨hl, r, hr, hx⟩ := hr
      exact ⟨hik, ⟨h1, Int.le_trans h2 hc, hl, r, hr.clock, hx⟩, by simp [inRenewal]⟩
    · exact hr.elim
    · simp only [Option.ite_none_left_eq_some, Option.map_eq_some_iff] at he
      obtain ⟨hne, ⟨t₁, call'⟩, hx, he⟩ := he
      cases he
      have hd : ∀ token stored, call = .rotateTest token stored →
          InDeadlines family s.server k.now := by
        rintro token stored rfl
        rw [← hw]
        exact hg.2.1 (Or.inr rfl)
      obtain ⟨hi', hr'⟩ := hr.exec hi (by simpa using hne) hd hx
      exact ⟨hi'.tick (k := ⟨k.now, [], []⟩), ⟨h1, Int.le_trans h2 hc, hr'.clock⟩,
        by simp [inRenewal]⟩
  | rereading path first sentAt token l e =>
    obtain ⟨h1, h2, rfl, r, hr, hx⟩ := h
    obtain ⟨account, ha⟩ := hacc.exists_
    simp only [step, ha] at he
    cases he
    exact ⟨hik, ⟨h1, Int.le_trans h2 hc, findById_id ha, r, hr.clock, hx⟩, by simp [inRenewal]⟩
  | signing path first sentAt profile token e =>
    obtain ⟨h1, h2, rfl, r, hr, rfl⟩ := h
    cases he
    refine ⟨hik, ⟨h1, profile, _, token, _, r, rfl, hr.clock, ?_, k.now, rfl, ?_⟩,
      by simp [inRenewal]⟩
    · simp only [Portal.tick]; omega
    · omega
  | renewed path first sentAt answer =>
    obtain ⟨h1, profile, access, token, maxAge, r, rfl, hr, hx, hs⟩ := h
    cases he
    have hlast : k.now < k.now + auth.JWT_EXPIRES := by have := hacc.lasting; omega
    refine ⟨hik, ⟨h1, access, attached_live hlast, hs⟩, fun _ => ?_⟩
    exact ⟨token, k.now + maxAge, r, rfl, hr.clock, by omega⟩
  | _ => cases ho

theorem Together.enter (h : Together auth lawyer family w) (hen : enters tab = true) :
    Together auth lawyer family ⟨w.shared, w.calls ++ [tab]⟩ := by
  have hout : inRenewal tab = false ∧ Stage auth lawyer family w.shared tab := by
    cases tab with
    | apiRequest path => exact ⟨rfl, by simpa [enters, Stage] using hen⟩
    | _ => cases hen
  refine ⟨h.inv, fun e he => ?_, fun p q x y hx hy ix iy => ?_, fun hfree => ?_⟩
  · rcases List.mem_append.1 he with he | he
    · exact h.stage e he
    · rw [List.mem_singleton.1 he]; exact hout.2
  · rcases getElem?_append_cases hx with ⟨-, rfl⟩ | ⟨-, hx'⟩
    · rw [hout.1] at ix; cases ix
    · rcases getElem?_append_cases hy with ⟨-, rfl⟩ | ⟨-, hy'⟩
      · rw [hout.1] at iy; cases iy
      · exact h.single p q x y hx' hy' ix iy
  · exact h.ready fun e he => hfree e (List.mem_append_left _ he)

/-- A step outside a renewal: only the clock moves, and if the tab enters a renewal, nobody else is
in one. -/
theorem Together.outside {i : Nat} (hacc : Account auth lawyer)
    (h : Together auth lawyer family w) (hf : w.calls[i]? = some tab)
    (hc : w.shared.server.clock ≤ k.now) (hturn : InTurn auth family w k.now tab)
    (ho : inRenewal tab = false) (he : exec auth k w.shared tab = some (s', tab')) :
    Together auth lawyer family ⟨s', w.calls.set i tab'⟩ := by
  have hs' : s' = w.shared.tick k.now := exec_outside ho he
  obtain ⟨hst', halone⟩ := (h.stage tab (List.mem_of_getElem? hf)).exec_outside hacc ho hturn rfl
    h.ready he
  subst hs'
  refine ⟨h.inv.tick (k := ⟨k.now, [], []⟩), fun e hm => ?_, fun p q x y hx hy ix iy => ?_,
    fun hfree => Ready.tick (h.ready fun e hm => ?_)⟩
  · rcases List.mem_or_eq_of_mem_set hm with hm | rfl
    · exact (h.stage e hm).tick hc
    · exact hst'
  · rcases getElem?_set_cases hx with ⟨rfl, rfl⟩ | ⟨-, hx'⟩
    · rcases getElem?_set_cases hy with ⟨rfl, -⟩ | ⟨-, hy'⟩
      · rfl
      · rw [halone ix y (List.mem_of_getElem? hy')] at iy; cases iy
    · rcases getElem?_set_cases hy with ⟨-, rfl⟩ | ⟨-, hy'⟩
      · rw [halone iy x (List.mem_of_getElem? hx')] at ix; cases ix
      · exact h.single p q x y hx' hy' ix iy
  · obtain ⟨j, hj⟩ := List.mem_iff_getElem?.1 hm
    by_cases hji : j = i
    · subst hji
      rw [hf] at hj
      cases hj
      exact ho
    · exact hfree e (List.mem_of_getElem? ((List.getElem?_set_ne (Ne.symm hji)).trans hj))

/-- A step of the renewal under way: the others are outside, where they rely on nothing shared. -/
theorem Together.inside {i : Nat} (hacc : Account auth lawyer)
    (h : Together auth lawyer family w) (hf : w.calls[i]? = some tab)
    (hc : w.shared.server.clock ≤ k.now) (hturn : InTurn auth family w k.now tab)
    (ho : inRenewal tab = true) (he : exec auth k w.shared tab = some (s', tab')) :
    Together auth lawyer family ⟨s', w.calls.set i tab'⟩ := by
  have hnew : tab' ∈ w.calls.set i tab' := List.mem_set (lt_of_getElem?_eq_some hf) tab'
  obtain ⟨hi', hst', hready⟩ := (h.stage tab (List.mem_of_getElem? hf)).exec_inside hacc h.inv ho
    hturn rfl hc he
  have hothers : ∀ j e, j ≠ i → w.calls[j]? = some e → inRenewal e = false := by
    intro j e hji hj
    rw [Bool.eq_false_iff]
    exact fun ie => hji (h.single j i e tab hj hf ie ho)
  refine ⟨hi', fun e hm => ?_, fun p q x y hx hy ix iy => ?_, fun hfree => hready (hfree _ hnew)⟩
  · obtain ⟨j, hj⟩ := List.mem_iff_getElem?.1 hm
    rcases getElem?_set_cases hj with ⟨-, rfl⟩ | ⟨hji, hj'⟩
    · exact hst'
    · exact (h.stage e (List.mem_of_getElem? hj')).outside (hothers j e hji hj')
  · rcases getElem?_set_cases hx with ⟨rfl, -⟩ | ⟨hpi, hx'⟩
    · rcases getElem?_set_cases hy with ⟨rfl, -⟩ | ⟨hqi, hy'⟩
      · rfl
      · rw [hothers q y hqi hy'] at iy; cases iy
    · rw [hothers p x hpi hx'] at ix; cases ix

/-- **One step keeps at most one renewal under way**, on the live token. -/
theorem Together.next {a : Act Tab Choice} (hacc : Account auth lawyer)
    (h : Together auth lawyer family w) (hg : OneAtATime auth family w a)
    (hn : (machine auth).next w a = some w') : Together auth lawyer family w' := by
  obtain ⟨tab, rfl, hen, rfl⟩ | ⟨i, k, tab, s', tab', rfl, hf, he, rfl⟩ := next_cases hn
  · exact h.enter hen
  · cases ho : inRenewal tab with
    | false => exact h.outside hacc hf hg.1 (hg.2 tab hf) ho he
    | true => exact h.inside hacc hf hg.1 (hg.2 tab hf) ho he

/-! ### The end of every request -/

theorem serve_progress (auth : Auth) (access : Option JsString) (hr : k.response.refused = false) :
    ∃ r, serve auth k access = some r := by
  unfold serve
  split
  · exact ⟨_, rfl⟩
  · exact ⟨k.response, by simp [hr]⟩

theorem Rotating.progress {t : Server} {call : Call} (path : JsString) (first : Response)
    (sentAt : Int) (h : Rotating auth lawyer family t call)
    (hf : t.freshToken auth.toConfig k.token = true) (hk : k.token ≠ []) :
    ∃ p, rotateStep auth k t path first sentAt call = some p := by
  have hk' : k.token.isEmpty = false := by simpa using hk
  cases call with
  | rotate token =>
    simp only [rotateStep, hk', RefreshToken.exec]
    cases t.findUnique (auth.hashPublicToken token) <;> exact ⟨_, rfl⟩
  | rotateTest token stored => exact ⟨_, by simp only [rotateStep, hk']; rfl⟩
  | rotateClaim token stored now =>
    exact ⟨_, by simp only [rotateStep, hk', RefreshToken.exec, hf, if_true]; rfl⟩
  | rotated token o => cases o <;> exact ⟨_, rfl⟩
  | _ => exact h.elim

/-- A request that is not over can go on, whatever the others do. -/
theorem Stage.progress (h : Stage auth lawyer family s tab)
    (hf : s.server.freshToken auth.toConfig k.token = true) (hk : k.token ≠ [])
    (hr : k.response.refused = false) :
    (∃ path first replay, tab = .ended path first replay) ∨ ∃ p, exec auth k s tab = some p := by
  suffices (∃ path first replay, tab = .ended path first replay) ∨ ∃ p, step auth k s tab = some p by
    rcases this with he | ⟨p, hp⟩
    · exact Or.inl he
    · exact Or.inr ⟨_, by rw [exec, hp]; rfl⟩
  cases tab with
  | apiRequest path => exact Or.inr ⟨_, rfl⟩
  | asked path access =>
    obtain ⟨r, hs⟩ := serve_progress auth access hr
    exact Or.inr ⟨_, by rw [step, hs]; rfl⟩
  | answered path first => right; rw [step_answered]; split <;> exact ⟨_, rfl⟩
  | refreshAsked path first sentAt cookie => right; simp only [step]; split <;> exact ⟨_, rfl⟩
  | rotating path first sentAt call =>
    obtain ⟨p, hp⟩ := h.2.2.progress path first sentAt hf hk
    exact Or.inr ⟨_, by rw [step, hp]; rfl⟩
  | rereading path first sentAt token l e => right; simp only [step]; split <;> exact ⟨_, rfl⟩
  | signing path first sentAt profile token e => exact Or.inr ⟨_, rfl⟩
  | renewed path first sentAt answer => right; rw [step_renewed]; split <;> exact ⟨_, rfl⟩
  | replaying path first sentAt access =>
    obtain ⟨r, hs⟩ := serve_progress auth access hr
    exact Or.inr ⟨_, by rw [step, hs]; rfl⟩
  | replayAnswered path first replay => exact Or.inr ⟨_, rfl⟩
  | ended path first replay => exact Or.inl ⟨_, _, _, rfl⟩

theorem EndsWell.outcome {first : Response} {replay : Option Response}
    (h : EndsWell first replay) : (outcome first replay).unauthorized = false := by
  rw [Tabs.outcome, apiResult_unauthorized]
  by_cases h1 : first.status = 401
  · obtain ⟨r, rfl, hr⟩ := h.1 h1
    exact hr
  · obtain ⟨rfl, hr⟩ := h.2 h1
    exact hr

end

/-- A readable access token: whether there is a `sub`, the second of its signature in unary, and
the `sub`. -/
def signed (payload : JwtPayload) (iat : Int) : JsString :=
  (if payload.sub.isSome then 1 else 0) :: (if 0 ≤ iat / 1000 then 1 else 0) ::
    (List.replicate (iat / 1000).natAbs 1 ++ 0 :: payload.sub.getD [])

/-- Reads a `signed` token back, unless it is over. -/
def verified (lasts : Int) (token : JsString) (now : Int) : Option JwtPayload :=
  match token with
  | hasSub :: sign :: rest =>
    let seconds : Nat := (rest.takeWhile (· == 1)).length
    let iat : Int := if sign = 1 then (seconds : Int) else -(seconds : Int)
    if now / 1000 < iat + lasts / 1000 then
      some ⟨if hasSub = 1 then some (rest.drop (seconds + 1)) else none⟩
    else none
  | _ => none

def portal : Auth :=
  { office with signAsync := signed, verifyAsync := verified 900000 }

/-- Alice's browser two seconds after `loginAndRotate`, its access token gone. -/
def browser : World Portal Tab :=
  ⟨⟨(played loginAndRotate).shared, ⟨none, some ⟨js "B", 604800000⟩⟩⟩, []⟩

def page : Response := ⟨200, js "application/json", .json .other⟩

/-- One step of tab `i` at `now`. -/
def at' (i : Nat) (now : Int) (token : String) : Act Tab Choice := .run i ⟨now, js token, page⟩

instance (family : FamilyId) (s : Server) (now : Int) : Decidable (InDeadlines family s now) :=
  inferInstanceAs (Decidable (∀ r ∈ s.refreshToken, r.familyId = family → r.revokedAt = none →
    now < r.expiresAt ∧ now < r.idleExpiresAt))

instance (auth : Auth) (family : FamilyId) (w : World Portal Tab) (now : Int) (tab : Tab) :
    Decidable (InTurn auth family w now tab) :=
  inferInstanceAs (Decidable (_ ∧ _ ∧ _))

instance (auth : Auth) (family : FamilyId) (w : World Portal Tab) (a : Act Tab Choice) :
    Decidable (OneAtATime auth family w a) :=
  match a with
  | .call _ => isTrue trivial
  | .run i k => inferInstanceAs (Decidable (w.shared.server.clock ≤ k.now ∧
      ∀ tab ∈ w.calls[i]?, InTurn auth family w k.now tab))

/-- Runs from `browser`, under a guard. -/
def playedFrom (g : World Portal Tab → Act Tab Choice → Bool) (acts : List (Act Tab Choice)) :
    World Portal Tab :=
  ((machine portal).play g browser acts).getD browser

theorem reaches_playedFrom {g : World Portal Tab → Act Tab Choice → Bool}
    {acts : List (Act Tab Choice)} (h : ((machine portal).play g browser acts).isSome = true) :
    (machine portal).Reaches (fun w a => g w a = true) browser (playedFrom g acts) :=
  reaches_getD h _

end DepositPortal.Tabs
