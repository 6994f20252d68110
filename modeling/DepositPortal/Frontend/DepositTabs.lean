import DepositPortal.Frontend.DepositPage
import DepositPortal.Portal.Doors

/-!
# Several deposit tabs, one client cookie

The tabs of a browser share the cookie of the client's session, which the last unlock wrote, whatever its
tab; what a tab has remembered (`sessionStorage`), and its address, are its own. A page that is loaded asks
for the session when the tab remembers its address, and shows what it is given (deposit-page.tsx:206): the
dossier of the cookie, which need not be that of the address. Where the cookie that is accepted was written
by an unlock of a link of the same request (`OwnCookie`), a tab shows its own request and no other.

The other party of a run is everybody else: the portal and its other callers, the answers to pages that
are gone, and the cookie's end. The answer to an unlock sets the cookie when it arrives, and the page goes
on later; the pages of the portal, and their requests, are in any order.
-/
namespace DepositPortal.DepositTabs
open Interleave DepositPage
open Client (ApiErrorKind)
open Public (PublicRequestView ClientSession JsValue Cookies CLIENT_COOKIE_NAME Signs canActivate)
open PublicLinks (Token PublicLink)
open Deposits (RequestId)
open Requests (Plan)
open Portal (Config State Call Choice Upload Sound Asserts)

/-- `portail_client`; `writer` is the token whose unlock wrote it. -/
structure Cookie where
  value : JsString
  writer : Token
  deriving DecidableEq, Repr

structure Shared where
  portal : World State Call
  cookie : Option Cookie
  /-- The unlocks under way whose page is gone, by token and by call. -/
  left : List (Token × Nat)

/-- How a call of the API ended, before the page goes on. -/
inductive Outcome where
  | unlocked (answer : Except ApiErrorKind PublicRequestView)
  | restored (answer : Except ApiErrorKind PublicRequestView)
  | deposited (error : Option ApiErrorKind)

/-- A call of the API: `unlock` and `deposit` by their place among the calls of the portal. -/
inductive Exchange where
  | unlock (call : Nat)
  | deposit (call : Nat)
  /-- Sent with this cookie. -/
  | session (cookie : Option Cookie)
  /-- The guard has let it in. -/
  | viewOf (session : ClientSession)
  | settled (outcome : Outcome)

structure Tab where
  token : Token
  /-- `SESSION_KEY` in `sessionStorage`. -/
  remembered : Option Token
  page : Page
  exchanges : List Exchange

inductive Party where
  | tab (tab : Tab)
  | others

inductive Event where
  /-- Another address, or the same one again; `readable`: `sessionStorage` does not throw. -/
  | load (token : Token) (readable : Bool)
  | submit (pin : JsString)
  | pick (upload : Upload)
  | serve (i : Nat) (verifiedAt now : Int) (fails : Bool) (plan : Plan)
  | arrive (i : Nat)
  | lose (i : Nat)
  | resume (i : Nat) (writable : Bool)
  | portal (act : Act Call Choice)
  | arriveLeft (i : Nat)
  | forget

/-- `request.cookies`. -/
def sent (cookie : Option Cookie) : Cookies :=
  some fun name => match cookie with
    | some cookie => if name = CLIENT_COOKIE_NAME then .string cookie.value else .other
    | none => .other

def unlockOf (token : Token) : Exchange → Option (Token × Nat)
  | .unlock call => some (token, call)
  | _ => none

def Exchange.isSettled : Exchange → Bool
  | .settled _ => true
  | _ => false

/-- The failure of the network, for each call. -/
def Exchange.lost : Exchange → Outcome
  | .unlock _ => .unlocked (.error .network)
  | .deposit _ => .deposited (some .network)
  | _ => .restored (.error .network)

def Shared.enter (s : Shared) (call : Call) : Shared :=
  { s with portal := ⟨s.portal.shared, s.portal.calls ++ [call]⟩ }

/-- The cookie after the answer to an unlock has arrived. -/
def Shared.apply (s : Shared) (writer : Token) (cookie : Option JsString) : Shared :=
  match cookie with
  | some value => { s with cookie := some ⟨value, writer⟩ }
  | none => s

def Tab.load (t : Tab) (s : Shared) (token : Token) (readable : Bool) : Shared × Tab :=
  let (page, asks) := Page.effect (if readable then t.remembered else none) token
  ({ s with left := s.left ++ t.exchanges.filterMap (unlockOf t.token) },
    ⟨token, t.remembered, page, if asks then [.session s.cookie] else []⟩)

/-- The answer of the guard, or of `viewOf` after it. -/
def serve (cfg : Config) (s : Shared) (verifiedAt now : Int) (fails : Bool) (plan : Plan) :
    Exchange → Option Exchange
  | .session cookie =>
    match canActivate cfg.jwt fails s.portal.shared.links.links (sent cookie) verifiedAt now with
    | .error failure => some (.settled (.restored (.error (kindOf failure))))
    | .ok session => some (.viewOf session)
  | .viewOf session => some (.settled (.restored
      ((Public.sessionRoute plan s.portal.shared.database fails (.ok session)).mapError kindOf)))
  | _ => none

/-- The answer of call `i` of the portal to an unlock. -/
def Shared.unlockAnswer (s : Shared) (i : Nat) :
    Option (Except Public.Failure PublicRequestView × Option JsString) :=
  match s.portal.calls[i]? with
  | some (.client (.unlocked answer cookie)) => some (answer, cookie)
  | _ => none

def Shared.depositAnswer (s : Shared) (i : Nat) : Option Portal.Reply :=
  match s.portal.calls[i]? with
  | some (.client f) => f.reply
  | _ => none

/-- An answer arrives, and its `Set-Cookie` is applied. -/
def arrive (s : Shared) (token : Token) : Exchange → Option (Shared × Exchange)
  | .unlock call => (s.unlockAnswer call).map fun (answer, cookie) =>
      (s.apply token cookie, .settled (.unlocked (answer.mapError kindOf)))
  | .deposit call => (s.depositAnswer call).map fun reply =>
      (s, .settled (.deposited (depositKind reply)))
  | _ => none

/-- The page goes on after an `await`. -/
def Tab.resume (t : Tab) (writable : Bool) : Outcome → Tab
  | .unlocked (.ok view) =>
    { t with
      remembered := if writable then some t.token else t.remembered
      page := t.page.unlocked (.ok view) }
  | .unlocked (.error kind) => { t with page := t.page.unlocked (.error kind) }
  | .restored answer => { t with page := t.page.restored answer }
  | .deposited error => { t with page := t.page.deposited error }

def Tab.exec (cfg : Config) (e : Event) (s : Shared) (t : Tab) : Option (Shared × Tab) :=
  match e with
  | .load token readable => some (t.load s token readable)
  | .submit pin =>
    if t.page.showsForm then
      let (page, calls) := t.page.submit pin
      if calls then
        some (s.enter (.client (.unlock t.token pin)),
          { t with page := page, exchanges := t.exchanges ++ [.unlock s.portal.calls.length] })
      else some (s, { t with page := page })
    else none
  | .pick upload =>
    if t.page.view.isSome then
      some (s.enter (.client (.visit (sent s.cookie) upload)),
        { t with exchanges := t.exchanges ++ [.deposit s.portal.calls.length] })
    else none
  | .serve i verifiedAt now fails plan => do
    let exchange ← serve cfg s verifiedAt now fails plan (← t.exchanges[i]?)
    return (s, { t with exchanges := t.exchanges.set i exchange })
  | .arrive i => do
    let (s, exchange) ← arrive s t.token (← t.exchanges[i]?)
    return (s, { t with exchanges := t.exchanges.set i exchange })
  | .lose i => do
    let exchange ← t.exchanges[i]?
    if exchange.isSettled then none
    else some (s, { t with exchanges := t.exchanges.set i (.settled exchange.lost) })
  | .resume i writable =>
    match t.exchanges[i]? with
    | some (.settled outcome) =>
      some (s, { t with exchanges := t.exchanges.eraseIdx i }.resume writable outcome)
    | _ => none
  | _ => none

/-- Everybody else. -/
def othersExec (cfg : Config) (plan : Plan) (e : Event) (s : Shared) : Option Shared :=
  match e with
  | .portal act => ((Portal.machine cfg plan).next s.portal act).map fun w => { s with portal := w }
  | .arriveLeft i => do
    let (token, call) ← s.left[i]?
    let (_, cookie) ← s.unlockAnswer call
    return { s with left := s.left.eraseIdx i }.apply token cookie
  | .forget => some { s with cookie := none }
  | _ => none

def exec (cfg : Config) (plan : Plan) (e : Event) (s : Shared) : Party → Option (Shared × Party)
  | .tab t => (t.exec cfg e s).map fun r => (r.1, .tab r.2)
  | .others => (othersExec cfg plan e s).map fun s => (s, .others)

/-- A tab that is opened has no page yet; it may have a copy of another tab's `sessionStorage`. -/
def enters : Party → Bool
  | .tab t => t.page == .initial && t.exchanges.isEmpty
  | .others => true

def machine (cfg : Config) (plan : Plan) : Machine Shared Party Event := ⟨enters, exec cfg plan⟩

/-- Nothing created yet, no tab open, no cookie. -/
def start : World Shared Party := ⟨⟨⟨State.empty, []⟩, none, []⟩, []⟩

/-! ## Whose dossier it is -/

/-- The view is one of this request: its title, and pieces that are its own. -/
structure IsViewOf (s : State) (requestId : RequestId) (view : PublicRequestView) : Prop where
  request : view.requestId = requestId
  title : ∃ r ∈ s.links.depositRequest, r.id = requestId ∧ r.title = view.title
  items : ∀ line ∈ view.items, ∃ item ∈ s.requestedItem, item.id = line.id ∧ item.requestId = requestId

/-- The view is one of the request of the link that has this token. -/
def OwnView (cfg : Config) (s : State) (token : Token) (view : PublicRequestView) : Prop :=
  ∃ link ∈ s.links.links, link.tokenHash = cfg.hashPublicToken token ∧ IsViewOf s link.requestId view

/-- The two tokens are those of links of one request. -/
def SameRequest (cfg : Config) (s : State) (token token' : Token) : Prop :=
  ∃ link ∈ s.links.links, ∃ link' ∈ s.links.links, link.tokenHash = cfg.hashPublicToken token ∧
    link'.tokenHash = cfg.hashPublicToken token' ∧ link.requestId = link'.requestId

/-- The cookie that the guard is about to look at. -/
def Tab.presented (t : Tab) (i : Nat) : Option Cookie :=
  match t.exchanges[i]? with
  | some (.session cookie) => cookie
  | _ => none

/-- When the guard accepts the cookie that a page has sent, the last unlock had been one of a link of the
request the tab is at. A page sends one to be shown what its tab remembers (`asks_remembered`). -/
def OwnCookie (cfg : Config) (e : Event) (s : Shared) : Party → Prop
  | .tab t =>
    match e with
    | .serve i verifiedAt now fails _ =>
      ∀ cookie ∈ t.presented i,
        (canActivate cfg.jwt fails s.portal.shared.links.links (sent (some cookie)) verifiedAt
          now).isOk = true → SameRequest cfg s.portal.shared cookie.writer t.token
    | _ => True
  | .others => True

/-- The cookie is the session of the link with the token of its writer. -/
def Written (cfg : Config) (s : State) (cookie : Cookie) : Prop :=
  ∃ link ∈ s.links.links, link.tokenHash = cfg.hashPublicToken cookie.writer ∧
    ∃ requestId iat, cookie.value = cfg.jwt.signAsync ⟨link.id, requestId⟩ iat

/-- What an unlock with this token is answered. -/
structure Answered (cfg : Config) (s : State) (token : Token)
    (answer : Except Public.Failure PublicRequestView) (cookie : Option JsString) : Prop where
  own : ∀ view, answer = .ok view → OwnView cfg s token view
  written : ∀ value, cookie = some value → Written cfg s ⟨value, token⟩

/-- Call `i` is an unlock with this token, and what it was answered. -/
def Awaits (cfg : Config) (w : World State Call) (token : Token) (i : Nat) : Prop :=
  (∃ pin, w.calls[i]? = some (.client (.unlock token pin))) ∨
  ∃ answer cookie, w.calls[i]? = some (.client (.unlocked answer cookie)) ∧
    Answered cfg w.shared token answer cookie

/-- The session the guard has made is one of the request of this token. -/
def OwnSession (cfg : Config) (s : State) (token : Token) (session : ClientSession) : Prop :=
  ∃ link ∈ s.links.links, link.tokenHash = cfg.hashPublicToken token ∧
    session.requestId = link.requestId

def OutcomeOwn (cfg : Config) (s : State) (token : Token) : Outcome → Prop
  | .unlocked answer | .restored answer => ∀ view, answer = .ok view → OwnView cfg s token view
  | .deposited _ => True

/-- What is known of a call of the API at each point. -/
def ExchangeOwn (cfg : Config) (w : World State Call) (token : Token) : Exchange → Prop
  | .unlock call => Awaits cfg w token call
  | .deposit _ => True
  | .session cookie => ∀ c, cookie = some c → Written cfg w.shared c
  | .viewOf session => OwnSession cfg w.shared token session
  | .settled outcome => OutcomeOwn cfg w.shared token outcome

structure TabOwn (cfg : Config) (w : World State Call) (t : Tab) : Prop where
  view : ∀ view, t.page.view = some view → OwnView cfg w.shared t.token view
  exchanges : ∀ e ∈ t.exchanges, ExchangeOwn cfg w t.token e

def PartyOwn (cfg : Config) (s : Shared) : Party → Prop
  | .tab t => TabOwn cfg s.portal t
  | .others => True

structure Jar (cfg : Config) (s : Shared) : Prop where
  portal : Holds Sound (Asserts cfg) s.portal ∧ Interleave.Apart Portal.Apart s.portal
  cookie : ∀ c, s.cookie = some c → Written cfg s.portal.shared c
  left : ∀ e ∈ s.left, Awaits cfg s.portal e.1 e.2

variable {cfg : Config} {plan : Plan} {s s' : State} {w w' : World State Call} {token : Token}
  {view : PublicRequestView} {session : ClientSession} {link : PublicLink}

/-! ## The portal goes on -/

section
variable (hg : Portal.Grows s s')
include hg

theorem grows_link (hl : link ∈ s.links.links) : ∃ link' ∈ s'.links.links,
    link'.id = link.id ∧ link'.tokenHash = link.tokenHash ∧ link'.requestId = link.requestId := by
  obtain ⟨link', hl', hk⟩ := hg.links link hl
  exact ⟨link', hl', hk.same⟩

theorem OwnView.grows (h : OwnView cfg s token view) : OwnView cfg s' token view := by
  obtain ⟨link, hl, ht, hrequest, ⟨r, hr, hid, htitle⟩, hitems⟩ := h
  obtain ⟨link', hl', -, ht', hreq'⟩ := grows_link hg hl
  refine ⟨link', hl', ht'.trans ht, ?_⟩
  rw [hreq']
  refine ⟨hrequest, ⟨r, hg.requests r hr, hid, htitle⟩, fun line hm => ?_⟩
  obtain ⟨item, hi, hiid, hireq⟩ := hitems line hm
  obtain ⟨item', hi', e⟩ := hg.items item hi
  simp only [Requests.RequestedItem.ids, Deposits.RequestedItem.mk.injEq] at e
  exact ⟨item', hi', e.1.trans hiid, e.2.trans hireq⟩

theorem Written.grows {cookie : Cookie} (h : Written cfg s cookie) : Written cfg s' cookie := by
  obtain ⟨link, hl, ht, requestId, iat, hvalue⟩ := h
  obtain ⟨link', hl', hid, ht', -⟩ := grows_link hg hl
  exact ⟨link', hl', ht'.trans ht, requestId, iat, by rw [hid]; exact hvalue⟩

theorem OwnSession.grows (h : OwnSession cfg s token session) : OwnSession cfg s' token session := by
  obtain ⟨link, hl, ht, hreq⟩ := h
  obtain ⟨link', hl', -, ht', hreq'⟩ := grows_link hg hl
  exact ⟨link', hl', ht'.trans ht, hreq.trans hreq'.symm⟩

theorem Answered.grows {answer : Except Public.Failure PublicRequestView} {cookie : Option JsString}
    (h : Answered cfg s token answer cookie) : Answered cfg s' token answer cookie :=
  ⟨fun view hv => (h.own view hv).grows hg, fun value hc => (h.written value hc).grows hg⟩

end

/-- The portal has gone on from `w` to `w'`: its tables have grown, and the unlocks are still there. -/
structure GoesOn (cfg : Config) (w w' : World State Call) : Prop where
  grows : Portal.Grows w.shared w'.shared
  awaits : ∀ token i, Awaits cfg w token i → Awaits cfg w' token i

theorem GoesOn.refl (w : World State Call) : GoesOn cfg w w := ⟨.refl _, fun _ _ h => h⟩

theorem ExchangeOwn.goesOn {e : Exchange} (h : ExchangeOwn cfg w token e) (hg : GoesOn cfg w w') :
    ExchangeOwn cfg w' token e := by
  cases e with
  | unlock call => exact hg.awaits token call h
  | deposit call => trivial
  | session cookie => exact fun c hc => (h c hc).grows hg.grows
  | viewOf session => exact h.grows hg.grows
  | settled outcome =>
    cases outcome with
    | unlocked answer => exact fun view hv => (h view hv).grows hg.grows
    | restored answer => exact fun view hv => (h view hv).grows hg.grows
    | deposited error => trivial

theorem TabOwn.goesOn {t : Tab} (h : TabOwn cfg w t) (hg : GoesOn cfg w w') : TabOwn cfg w' t :=
  ⟨fun view hv => (h.view view hv).grows hg.grows, fun e he => (h.exchanges e he).goesOn hg⟩

/-! ## What the portal answers -/

theorem isViewOf_viewOf {fails : Bool} {requestId : RequestId} {expiresAt : Int}
    (h : Public.viewOf plan s.database fails requestId expiresAt = .ok view) :
    IsViewOf s requestId view := by
  unfold Public.viewOf at h
  split at h
  · cases h
  · split at h
    · cases h
    · next r hr =>
      cases h
      have hid : r.id = requestId := by simpa using List.find?_some hr
      refine ⟨hid, ⟨r, List.mem_of_find?_eq_some hr, hid, rfl⟩, fun line hm => ?_⟩
      obtain ⟨item, hi, rfl⟩ := List.mem_map.1 hm
      obtain ⟨hmem, hreq⟩ := Query.mem_sorted.1 hi
      exact ⟨item, hmem, rfl, (by simpa using hreq : item.requestId = r.id).trans hid⟩

theorem unlock_answered {k : Choice} {pin : JsString} {f' : Call}
    (he : Portal.exec cfg plan k s (.client (.unlock token pin)) = some (s', f')) :
    s' = s ∧ ∃ answer cookie, f' = .client (.unlocked answer cookie) ∧
      Answered cfg s token answer cookie := by
  cases he
  refine ⟨rfl, _, _, rfl, ?_⟩
  cases hu : (Public.unlock cfg.toService (k.fault.map fun _ => .resolve) s.links plan s.database token
      pin k.now ⟨[], [], 0⟩).1 with
  | error failure =>
    exact ⟨fun _ hv => (by cases hv), fun _ hc => by cases hc⟩
  | ok unlocked =>
    obtain ⟨link, hl, ht, -, hid, hview⟩ := Portal.unlock_ok hu
    refine ⟨fun view hv => ?_, fun value hc => ?_⟩
    · cases hv
      exact ⟨link, hl, ht, isViewOf_viewOf hview⟩
    · cases hc
      exact ⟨link, hl, ht, _, _, by rw [hid]⟩

/-- An unlock whose call has not moved. -/
theorem Awaits.grows {i : Nat} (h : Awaits cfg w token i) (hg : Portal.Grows w.shared w'.shared)
    (hsame : w'.calls[i]? = w.calls[i]?) : Awaits cfg w' token i := by
  obtain ⟨pin, hc⟩ | ⟨answer, cookie, hc, ha⟩ := h
  · exact .inl ⟨pin, hsame.trans hc⟩
  · exact .inr ⟨answer, cookie, hsame.trans hc, ha.grows hg⟩

theorem Awaits.lt {i : Nat} (h : Awaits cfg w token i) : i < w.calls.length := by
  obtain ⟨pin, hc⟩ | ⟨answer, cookie, hc, -⟩ := h
  · exact lt_of_getElem?_eq_some hc
  · exact lt_of_getElem?_eq_some hc

/-- The portal takes a step, or lets a call in. -/
theorem goesOn_next (plan : Plan) (act : Act Call Choice) (hI : Sound w.shared)
    (hn : (Portal.machine cfg plan).next w act = some w') : GoesOn cfg w w' := by
  have hgrows := Portal.next_grows hI hn
  refine ⟨hgrows, fun token i h => ?_⟩
  obtain ⟨f, rfl, -, rfl⟩ | ⟨j, k, f, s', f', rfl, hf, he, rfl⟩ := next_cases hn
  · exact h.grows hgrows (List.getElem?_append_left h.lt)
  · by_cases hij : j = i
    · subst hij
      obtain ⟨pin, hc⟩ | ⟨answer, cookie, hc, -⟩ := h
      · obtain rfl := Option.some.inj (hf.symm.trans hc)
        obtain ⟨rfl, answer, cookie, rfl, ha⟩ := unlock_answered he
        exact .inr ⟨answer, cookie, List.getElem?_set_self (lt_of_getElem?_eq_some hf), ha⟩
      · obtain rfl := Option.some.inj (hf.symm.trans hc)
        cases he
    · exact h.grows hgrows (List.getElem?_set_ne hij)

/-! ## The cookie that is accepted -/

section
variable {fails : Bool} {verifiedAt now : Int} {links : List PublicLink}

theorem guard_fails {cookies : Cookies} :
    canActivate cfg.jwt true links cookies verifiedAt now ≠ .ok session := by
  unfold canActivate
  split
  · simp
  · split
    · simp
    · split <;> simp

theorem guard_no_cookie : canActivate cfg.jwt fails links (sent none) verifiedAt now ≠ .ok session := by
  simp [canActivate, Public.extractToken, sent]

/-- The session is that of the link the cookie names. -/
theorem ownSession_guard (hs : Signs cfg.jwt) (hI : Sound s) {cookie : Cookie} (hw : Written cfg s cookie)
    (hsame : SameRequest cfg s cookie.writer token)
    (h : canActivate cfg.jwt fails s.links.links (sent (some cookie)) verifiedAt now = .ok session) :
    OwnSession cfg s token session := by
  cases fails with
  | true => exact absurd h guard_fails
  | false =>
    obtain ⟨link, hl, ht, requestId, iat, hvalue⟩ := hw
    obtain ⟨writer, hwriter, own, hown, hwt, hot, hreq⟩ := hsame
    have hcarry : Public.Carry cfg.jwt ⟨link.id, requestId⟩ iat
        (fun name => if name = CLIENT_COOKIE_NAME then .string cookie.value else .other) := by
      simp [Public.Carry, hvalue]
    rw [sent, Public.canActivate_signed hs hcarry] at h
    split at h
    · obtain ⟨-, rfl⟩ := (Portal.acceptLink_iff hI hl).1 h
      -- one link has the token of the writer
      obtain rfl : writer = link :=
        hI.links.wf.eq_of_common (k := .tokenHash link.tokenHash) hwriter hl
          (by simp [PublicLinks.keys, hwt, ht]) (by simp [PublicLinks.keys])
      exact ⟨own, hown, hot, hreq⟩
    · cases h

end

/-! ## The steps of a tab -/

section
variable {e : Event} {jar jar' : Shared} {t t' : Tab} {i : Nat} {exchange : Exchange} {outcome : Outcome}

theorem TabOwn.set (h : TabOwn cfg w t) (he : ExchangeOwn cfg w t.token exchange) :
    TabOwn cfg w { t with exchanges := t.exchanges.set i exchange } := by
  refine ⟨h.view, fun x hx => ?_⟩
  rcases List.mem_or_eq_of_mem_set hx with hx | rfl
  · exact h.exchanges x hx
  · exact he

theorem TabOwn.push (h : TabOwn cfg w t) (he : ExchangeOwn cfg w t.token exchange) :
    TabOwn cfg w { t with exchanges := t.exchanges ++ [exchange] } := by
  refine ⟨h.view, fun x hx => ?_⟩
  rcases List.mem_append.1 hx with hx | hx
  · exact h.exchanges x hx
  · rw [List.mem_singleton.1 hx]
    exact he

theorem TabOwn.at (h : TabOwn cfg w t) (hi : t.exchanges[i]? = some exchange) :
    ExchangeOwn cfg w t.token exchange :=
  h.exchanges exchange (List.mem_of_getElem? hi)

/-- A page shows no view that it was not given. -/
theorem TabOwn.resume (h : TabOwn cfg w t) (ho : OutcomeOwn cfg w.shared t.token outcome)
    (writable : Bool) : TabOwn cfg w (t.resume writable outcome) := by
  cases outcome with
  | unlocked answer =>
    cases answer with
    | error kind => exact ⟨h.view, h.exchanges⟩
    | ok view => exact ⟨fun v hv => by cases hv; exact ho view rfl, h.exchanges⟩
  | restored answer =>
    cases answer with
    | error kind => exact ⟨h.view, h.exchanges⟩
    | ok view => exact ⟨fun v hv => by cases hv; exact ho view rfl, h.exchanges⟩
  | deposited error =>
    refine ⟨fun v hv => h.view v ?_, h.exchanges⟩
    simp only [Tab.resume, Page.deposited] at hv
    split at hv
    · cases hv
    · exact hv

theorem outcomeOwn_lost : OutcomeOwn cfg s token exchange.lost := by
  cases exchange with
  | deposit call => trivial
  | _ => exact fun view hv => by cases hv

theorem ok_of_mapError {answer : Except Public.Failure PublicRequestView}
    (h : answer.mapError kindOf = .ok view) : answer = .ok view := by
  cases answer with
  | error failure => cases h
  | ok v => cases h; rfl

theorem Awaits.answered {call : Nat} {answer : Except Public.Failure PublicRequestView}
    {cookie : Option JsString} (h : Awaits cfg jar.portal token call)
    (ha : jar.unlockAnswer call = some (answer, cookie)) :
    Answered cfg jar.portal.shared token answer cookie := by
  unfold Shared.unlockAnswer at ha
  obtain ⟨pin, hc⟩ | ⟨answer', cookie', hc, hown⟩ := h
  · simp only [hc] at ha
    cases ha
  · simp only [hc] at ha
    cases ha
    exact hown

theorem Jar.apply (h : Jar cfg jar) {cookie : Option JsString}
    (hw : ∀ value, cookie = some value → Written cfg jar.portal.shared ⟨value, token⟩) :
    Jar cfg (jar.apply token cookie) ∧ (jar.apply token cookie).portal = jar.portal := by
  cases cookie with
  | none => exact ⟨h, rfl⟩
  | some value => exact ⟨⟨h.portal, fun c hc => by cases hc; exact hw value rfl, h.left⟩, rfl⟩

/-- The portal takes a step. -/
theorem Jar.next (h : Jar cfg jar) (plan : Plan) (act : Act Call Choice)
    (hn : (Portal.machine cfg plan).next jar.portal act = some w') :
    Jar cfg { jar with portal := w' } ∧ GoesOn cfg jar.portal w' := by
  have hg := goesOn_next plan act h.portal.1.1 hn
  refine ⟨⟨?_, fun c hc => (h.cookie c hc).grows hg.grows, fun e he => hg.awaits _ _ (h.left e he)⟩, hg⟩
  exact (Portal.outline cfg plan).next h.portal.1 h.portal.2 (fun _ _ _ _ _ => trivial) hn

/-- A call enters the portal. -/
theorem Jar.enter (h : Jar cfg jar) (call : Call) (hen : Portal.enters call = true) :
    Jar cfg (jar.enter call) ∧ GoesOn cfg jar.portal (jar.enter call).portal :=
  h.next Requests.heapPlan (.call call) (by simp [Machine.next, Portal.machine, hen])

theorem Jar.load (h : Jar cfg jar) (ht : TabOwn cfg jar.portal t) (address : Token) (readable : Bool) :
    Jar cfg (t.load jar address readable).1 ∧ TabOwn cfg jar.portal (t.load jar address readable).2 := by
  refine ⟨⟨h.portal, h.cookie, fun e he => ?_⟩, fun v hv => ?_, fun e he => ?_⟩
  · rcases List.mem_append.1 he with he | he
    · exact h.left e he
    · obtain ⟨x, hx, hu⟩ := List.mem_filterMap.1 he
      unfold unlockOf at hu
      split at hu
      · cases hu
        exact ht.exchanges _ hx
      · cases hu
  · have hnone : (t.load jar address readable).2.page.view = none := Page.effect_view ..
    rw [hnone] at hv
    cases hv
  · obtain ⟨-, he⟩ := List.mem_ite_nil_right.1 he
    rw [List.mem_singleton.1 he]
    exact h.cookie

theorem serve_own (hs : Signs cfg.jwt) (h : Jar cfg jar) (hx : ExchangeOwn cfg jar.portal token exchange)
    {verifiedAt now : Int} {fails : Bool} {exchange' : Exchange}
    (hsame : ∀ cookie, exchange = .session (some cookie) →
      (canActivate cfg.jwt fails jar.portal.shared.links.links (sent (some cookie)) verifiedAt
        now).isOk = true → SameRequest cfg jar.portal.shared cookie.writer token)
    (he : serve cfg jar verifiedAt now fails plan exchange = some exchange') :
    ExchangeOwn cfg jar.portal token exchange' := by
  unfold serve at he
  split at he
  · next cookie =>
    split at he
    · cases he
      exact fun view hv => by cases hv
    · next session hsession =>
      cases he
      cases cookie with
      | none => exact absurd hsession guard_no_cookie
      | some cookie =>
        exact ownSession_guard hs h.portal.1.1 (hx cookie rfl) (hsame cookie rfl (by rw [hsession]; rfl))
          hsession
  · next session =>
    cases he
    intro view hv
    obtain ⟨link, hl, ht, hreq⟩ := hx
    refine ⟨link, hl, ht, ?_⟩
    rw [← hreq]
    exact isViewOf_viewOf (ok_of_mapError hv)
  · cases he

theorem arrive_own (h : Jar cfg jar) (hx : ExchangeOwn cfg jar.portal token exchange)
    {exchange' : Exchange} (he : arrive jar token exchange = some (jar', exchange')) :
    Jar cfg jar' ∧ jar'.portal = jar.portal ∧ ExchangeOwn cfg jar.portal token exchange' := by
  unfold arrive at he
  split at he
  · next call =>
    obtain ⟨⟨answer, cookie⟩, hanswer, e⟩ := Option.map_eq_some_iff.1 he
    cases e
    have hanswered := hx.answered hanswer
    obtain ⟨hjar, hsame⟩ := h.apply hanswered.written
    exact ⟨hjar, hsame, fun view hv => hanswered.own view (ok_of_mapError hv)⟩
  · next call =>
    obtain ⟨reply, -, e⟩ := Option.map_eq_some_iff.1 he
    cases e
    exact ⟨h, rfl, trivial⟩
  · cases he

theorem Jar.submit (h : Jar cfg jar) (ht : TabOwn cfg jar.portal t) {pin : JsString}
    (he : t.exec cfg (.submit pin) jar = some (jar', t')) :
    Jar cfg jar' ∧ TabOwn cfg jar'.portal t' ∧ GoesOn cfg jar.portal jar'.portal := by
  simp only [Tab.exec, Option.ite_none_right_eq_some] at he
  obtain ⟨-, he⟩ := he
  by_cases hpin : pin.length < PIN_LENGTH
  · simp only [Page.submit, hpin, if_true, Bool.false_eq_true, if_false] at he
    cases he
    exact ⟨h, ⟨ht.view, ht.exchanges⟩, .refl _⟩
  · simp only [Page.submit, hpin, if_false, if_true] at he
    cases he
    obtain ⟨hjar, hon⟩ := h.enter (.client (.unlock t.token pin)) rfl
    have hpage : TabOwn cfg jar.portal { t with page := { t.page with submitting := true, message := none } } :=
      ⟨ht.view, ht.exchanges⟩
    exact ⟨hjar, (hpage.goesOn hon).push (.inl ⟨pin, List.getElem?_concat_length⟩), hon⟩

/-- One step of a tab. -/
theorem tab_keeps (hs : Signs cfg.jwt) (h : Jar cfg jar) (ht : TabOwn cfg jar.portal t)
    (hg : OwnCookie cfg e jar (.tab t)) (he : t.exec cfg e jar = some (jar', t')) :
    Jar cfg jar' ∧ TabOwn cfg jar'.portal t' ∧ GoesOn cfg jar.portal jar'.portal := by
  cases e with
  | load address readable =>
    cases he
    obtain ⟨hjar, hown⟩ := h.load ht address readable
    exact ⟨hjar, hown, .refl _⟩
  | submit pin => exact h.submit ht he
  | pick upload =>
    obtain ⟨-, he⟩ := Option.ite_none_right_eq_some.1 he
    cases he
    obtain ⟨hjar, hon⟩ := h.enter (.client (.visit (sent jar.cookie) upload)) rfl
    exact ⟨hjar, (ht.goesOn hon).push trivial, hon⟩
  | serve i verifiedAt now fails plan =>
    obtain ⟨exchange, hi, he⟩ := Option.bind_eq_some_iff.1 he
    obtain ⟨exchange', hserve, he⟩ := Option.bind_eq_some_iff.1 he
    cases he
    refine ⟨h, ht.set (serve_own hs h (ht.at hi) (fun cookie hc => hg cookie ?_) hserve), .refl _⟩
    rw [hc] at hi
    simp only [Tab.presented, hi, Option.mem_def]
  | arrive i =>
    obtain ⟨exchange, hi, he⟩ := Option.bind_eq_some_iff.1 he
    obtain ⟨⟨s₁, exchange'⟩, harrive, he⟩ := Option.bind_eq_some_iff.1 he
    cases he
    obtain ⟨hjar, hsame, hown⟩ := arrive_own h (ht.at hi) harrive
    rw [hsame]
    exact ⟨hjar, ht.set hown, .refl _⟩
  | lose i =>
    obtain ⟨exchange, hi, he⟩ := Option.bind_eq_some_iff.1 he
    split at he
    · cases he
    · cases he
      exact ⟨h, ht.set outcomeOwn_lost, .refl _⟩
  | resume i writable =>
    simp only [Tab.exec] at he
    split at he
    · next outcome hi =>
      cases he
      have hrest : TabOwn cfg jar.portal { t with exchanges := t.exchanges.eraseIdx i } :=
        ⟨ht.view, fun x hx => ht.exchanges x (List.mem_of_mem_eraseIdx hx)⟩
      exact ⟨h, hrest.resume (ht.at hi) writable, .refl _⟩
    · cases he
  | portal act => cases he
  | arriveLeft i => cases he
  | forget => cases he

/-- One step of everybody else. -/
theorem others_keep (h : Jar cfg jar) (he : othersExec cfg plan e jar = some jar') :
    Jar cfg jar' ∧ GoesOn cfg jar.portal jar'.portal := by
  cases e with
  | portal act =>
    obtain ⟨w', hn, e⟩ := Option.map_eq_some_iff.1 he
    cases e
    exact h.next plan act hn
  | arriveLeft i =>
    obtain ⟨⟨token, call⟩, hi, he⟩ := Option.bind_eq_some_iff.1 he
    obtain ⟨⟨answer, cookie⟩, hanswer, he⟩ := Option.bind_eq_some_iff.1 he
    cases he
    have hanswered := (h.left _ (List.mem_of_getElem? hi)).answered hanswer
    have hrest : Jar cfg { jar with left := jar.left.eraseIdx i } :=
      ⟨h.portal, h.cookie, fun e he => h.left e (List.mem_of_mem_eraseIdx he)⟩
    obtain ⟨hjar, hsame⟩ := hrest.apply hanswered.written
    refine ⟨hjar, ?_⟩
    rw [hsame]
    exact .refl _
  | forget =>
    cases he
    exact ⟨⟨h.portal, fun c hc => (by cases hc), h.left⟩, .refl _⟩
  | _ => cases he

theorem exec_keeps (hs : Signs cfg.jwt) {p p' : Party} (h : Jar cfg jar) (hp : PartyOwn cfg jar p)
    (hg : OwnCookie cfg e jar p) (he : exec cfg plan e jar p = some (jar', p')) :
    Jar cfg jar' ∧ PartyOwn cfg jar' p' ∧ GoesOn cfg jar.portal jar'.portal := by
  cases p with
  | tab t =>
    obtain ⟨⟨s', t'⟩, ht, e⟩ := Option.map_eq_some_iff.1 he
    cases e
    exact tab_keeps hs h hp hg ht
  | others =>
    obtain ⟨s', ho, e⟩ := Option.map_eq_some_iff.1 he
    cases e
    obtain ⟨hjar, hon⟩ := others_keep h ho
    exact ⟨hjar, trivial, hon⟩

theorem partyOwn_enter {p : Party} (h : enters p = true) : PartyOwn cfg jar p := by
  cases p with
  | others => trivial
  | tab t =>
    simp only [enters, Bool.and_eq_true, beq_iff_eq, List.isEmpty_iff] at h
    obtain ⟨hpage, hnone⟩ := h
    refine ⟨fun view hv => ?_, fun x hx => ?_⟩
    · rw [hpage] at hv
      cases hv
    · rw [hnone] at hx
      cases hx

end

theorem outline (plan : Plan) (hs : Signs cfg.jwt) :
    Outline (machine cfg plan) (OwnCookie cfg) (Jar cfg) (PartyOwn cfg) where
  enter _ _ _ hen := partyOwn_enter hen
  keeps _ _ _ _ _ h hp hg he := by
    obtain ⟨hjar, hown, -⟩ := exec_keeps hs h hp hg he
    exact ⟨hjar, hown⟩
  stable _ _ _ _ _ q h hp hq hg he := by
    obtain ⟨-, -, hon⟩ := exec_keeps hs h hp hg he
    cases q with
    | tab t => exact hq.goesOn hon
    | others => trivial

theorem jar_start (cfg : Config) : Jar cfg start.shared where
  portal := ⟨⟨Portal.sound_empty, fun _ h => by cases h⟩, fun i j f e _ hi => by cases hi⟩
  cookie _ h := by cases h
  left _ h := by cases h

/-! ## When a page asks for the session -/

/-- Restoring the view, from the request to its answer. -/
def Exchange.restores : Exchange → Bool
  | .session _ | .viewOf _ | .settled (.restored _) => true
  | _ => false

/-- A page restores the view of the address that its tab has remembered, and of no other. -/
def AsksRemembered : Party → Prop
  | .tab t => ∀ e ∈ t.exchanges, e.restores = true → t.remembered = some t.token
  | .others => True

section
variable {e : Event} {jar jar' : Shared} {t t' : Tab} {i : Nat} {exchange exchange' : Exchange}

/-- An exchange that goes on restores a view if it did before. -/
theorem AsksRemembered.set (h : AsksRemembered (.tab t)) (hi : t.exchanges[i]? = some exchange)
    (hr : exchange'.restores = true → exchange.restores = true) :
    AsksRemembered (.tab { t with exchanges := t.exchanges.set i exchange' }) := by
  intro x hx hrestores
  rcases List.mem_or_eq_of_mem_set hx with hx | rfl
  · exact h x hx hrestores
  · exact h exchange (List.mem_of_getElem? hi) (hr hrestores)

/-- The calls of the API that are begun by the client restore nothing. -/
theorem AsksRemembered.push (h : AsksRemembered (.tab t)) (hr : exchange.restores = false) :
    AsksRemembered (.tab { t with exchanges := t.exchanges ++ [exchange] }) := by
  intro x hx hrestores
  rcases List.mem_append.1 hx with hx | hx
  · exact h x hx hrestores
  · rw [List.mem_singleton.1 hx, hr] at hrestores
    cases hrestores

theorem AsksRemembered.load (t : Tab) (jar : Shared) (address : Token) (readable : Bool) :
    AsksRemembered (.tab (t.load jar address readable).2) := by
  intro x hx _
  obtain ⟨hasks, -⟩ := List.mem_ite_nil_right.1 hx
  have hremembered := Page.effect_asks.1 hasks
  cases readable with
  | false => cases hremembered
  | true => exact hremembered

theorem AsksRemembered.exec (h : AsksRemembered (.tab t)) (he : t.exec cfg e jar = some (jar', t')) :
    AsksRemembered (.tab t') := by
  cases e with
  | load address readable =>
    cases he
    exact .load t jar address readable
  | submit pin =>
    simp only [Tab.exec, Option.ite_none_right_eq_some] at he
    obtain ⟨-, he⟩ := he
    split at he
    · cases he
      exact AsksRemembered.push (t := { t with page := (t.page.submit pin).1 }) h rfl
    · cases he
      exact h
  | pick upload =>
    obtain ⟨-, he⟩ := Option.ite_none_right_eq_some.1 he
    cases he
    exact h.push rfl
  | serve i verifiedAt now fails plan =>
    obtain ⟨exchange, hi, he⟩ := Option.bind_eq_some_iff.1 he
    obtain ⟨exchange', hserve, he⟩ := Option.bind_eq_some_iff.1 he
    cases he
    refine h.set hi fun _ => ?_
    unfold DepositTabs.serve at hserve
    split at hserve
    · rfl
    · rfl
    · cases hserve
  | arrive i =>
    obtain ⟨exchange, hi, he⟩ := Option.bind_eq_some_iff.1 he
    obtain ⟨⟨s₁, exchange'⟩, harrive, he⟩ := Option.bind_eq_some_iff.1 he
    cases he
    refine h.set hi fun hr => ?_
    unfold DepositTabs.arrive at harrive
    split at harrive
    · obtain ⟨⟨answer, cookie⟩, -, e⟩ := Option.map_eq_some_iff.1 harrive
      cases e
      cases hr
    · obtain ⟨reply, -, e⟩ := Option.map_eq_some_iff.1 harrive
      cases e
      cases hr
    · cases harrive
  | lose i =>
    obtain ⟨exchange, hi, he⟩ := Option.bind_eq_some_iff.1 he
    split at he
    · cases he
    · next hsettled =>
      cases he
      refine h.set hi fun hr => ?_
      cases exchange with
      | unlock call | deposit call => cases hr
      | session cookie | viewOf session => rfl
      | settled outcome => exact absurd rfl hsettled
  | resume i writable =>
    simp only [Tab.exec] at he
    split at he
    · next outcome hi =>
      cases he
      have hrest : ∀ x ∈ t.exchanges.eraseIdx i, x.restores = true → t.remembered = some t.token :=
        fun x hx => h x (List.mem_of_mem_eraseIdx hx)
      cases outcome with
      | unlocked answer =>
        cases answer with
        | error kind => exact hrest
        | ok view =>
          cases writable with
          | true => exact fun _ _ _ => rfl
          | false => exact hrest
      | restored answer | deposited error => exact hrest
    · cases he
  | portal act | arriveLeft i | forget => cases he

end

/-- **A page asks only for what its tab has remembered.** In every run: as long as a page is restoring a
view, `SESSION_KEY` holds the address the page is for. So the cookies that `OwnCookie` speaks of are those
of tabs that remember their address. -/
theorem asks_remembered {G : World Shared Party → Act Party Event → Prop} {v : World Shared Party}
    (h : (machine cfg plan).Reaches G start v) : ∀ p ∈ v.calls, AsksRemembered p := by
  have ho : Outline (machine cfg plan) (fun _ _ _ => True) (fun _ => True) fun _ p => AsksRemembered p := {
    enter := fun _ p _ hen => by
      cases p with
      | others => trivial
      | tab t =>
        obtain ⟨-, hnone⟩ := Bool.and_eq_true_iff.1 hen
        intro x hx
        rw [List.isEmpty_iff.1 hnone] at hx
        cases hx
    keeps := fun _ _ p _ _ _ hp _ he => by
      refine ⟨trivial, ?_⟩
      cases p with
      | tab t =>
        obtain ⟨⟨s', t'⟩, ht, e⟩ := Option.map_eq_some_iff.1 he
        cases e
        exact AsksRemembered.exec hp ht
      | others =>
        obtain ⟨s', -, e⟩ := Option.map_eq_some_iff.1 he
        cases e
        trivial
    stable := fun _ _ _ _ _ _ _ _ hq _ _ => hq }
  exact (ho.run h (fun _ _ _ _ _ _ => trivial) ⟨trivial, fun _ hp => by cases hp⟩).2

/-- **A tab shows its own request, as long as the cookie is that of its own request when it is accepted.**
In every run of the portal and of the tabs of a browser in which, whenever the guard lets in the cookie of
a page that has been loaded, the last unlock was one of a link of the request that page is for: what a tab
shows is the view of the request of the link its address names. -/
theorem tab_shows_own_request (cfg : Config) (plan : Plan) (hs : Signs cfg.jwt) (w : World Shared Party)
    (h : (machine cfg plan).Reaches (OnRun fun v e p => OwnCookie cfg e v.shared p) start w) (t : Tab)
    (ht : .tab t ∈ w.calls) (view : PublicRequestView) (hv : t.page.view = some view) :
    OwnView cfg w.shared.portal.shared t.token view := by
  have hrun : Holds (Jar cfg) (PartyOwn cfg) w :=
    (outline plan hs).run h (fun _ _ _ _ hG hp => hG _ hp) ⟨jar_start cfg, fun _ hp => by cases hp⟩
  exact (hrun.2 _ ht : TabOwn cfg w.shared.portal t).view view hv

/-! ### Two links in one browser -/

instance (cfg : Config) (s : State) (token token' : Token) : Decidable (SameRequest cfg s token token') :=
  inferInstanceAs (Decidable (∃ link ∈ s.links.links, ∃ link' ∈ s.links.links, _ ∧ _ ∧ _))

instance (cfg : Config) (e : Event) (s : Shared) (p : Party) : Decidable (OwnCookie cfg e s p) :=
  match p, e with
  | .tab t, .serve i _ _ _ _ => inferInstanceAs (Decidable (∀ cookie ∈ t.presented i, _))
  | .tab _, .load _ _ | .tab _, .submit _ | .tab _, .pick _ | .tab _, .arrive _ | .tab _, .lose _
  | .tab _, .resume _ _ | .tab _, .portal _ | .tab _, .arriveLeft _ | .tab _, .forget | .others, _ =>
    isTrue trivial

/-- Where these steps lead from the start. -/
def browsed (P : Event → Shared → Party → Bool) (acts : List (Act Party Event)) : World Shared Party :=
  ((machine Portal.portal Requests.heapPlan).play
    (fun w a => decide (OnRun (fun v e p => P e v.shared p = true) w a)) start acts).getD start

def portalStep (act : Act Call Choice) : Act Party Event := .run 0 (.portal act)

/-- After her first request, Alice creates another, of one piece. -/
def secondCreation : List (Act Call Choice) :=
  .call (.create (.start (js "alice") ⟨js "Vente", [js "Bail"], 7⟩)) ::
    List.replicate 3 (.run 1 { Portal.tick 0 2 with requestId := js "sale", itemIds := [js "lease"] })

def twoRequests : List (Act Party Event) :=
  .call .others :: (Portal.creation ++ secondCreation).map portalStep

/-- A tab is opened at the link that was drawn with `random`. -/
def opened (i : Nat) (random : UInt8) : List (Act Party Event) :=
  [.call (.tab ⟨Portal.tokenOf random, none, .initial, []⟩), .run i (.load (Portal.tokenOf random) true)]

/-- Its code is entered; `call`: the place of the unlock among the calls of the portal. -/
def unlocked (i call : Nat) : List (Act Party Event) :=
  [.run i (.submit (js "0042")), portalStep (.run call (Portal.tick 1 0)), .run i (.arrive 0),
    .run i (.resume 0 true)]

def reloaded (i : Nat) (random : UInt8) : List (Act Party Event) :=
  [.run i (.load (Portal.tokenOf random) true), .run i (.serve 0 2 2 false Requests.heapPlan),
    .run i (.serve 0 2 2 false Requests.heapPlan), .run i (.resume 0 true)]

/-- The two links are unlocked in two tabs, the second one last. -/
def bothUnlocked : List (Act Party Event) :=
  twoRequests ++ opened 1 1 ++ unlocked 1 2 ++ opened 2 2 ++ unlocked 2 3

def saleView : PublicRequestView :=
  ⟨js "sale", js "Vente", 7 * PublicLinks.MILLISECONDS_PER_DAY, [⟨js "lease", js "Bail", false⟩]⟩

/-- What tab `i` shows, and its address. -/
def shown (w : World Shared Party) (i : Nat) : Option (Token × PublicRequestView) :=
  match w.calls[i]? with
  | some (.tab t) => t.page.view.map fun view => (t.token, view)
  | _ => none

theorem tab_of_shown (w : World Shared Party) (i : Nat) (token : Token) (view : PublicRequestView)
    (h : shown w i = some (token, view)) :
    ∃ t, .tab t ∈ w.calls ∧ t.token = token ∧ t.page.view = some view := by
  unfold shown at h
  split at h
  · next t ht =>
    obtain ⟨v, hv, e⟩ := Option.map_eq_some_iff.1 h
    cases e
    exact ⟨t, List.mem_of_getElem? ht, rfl, hv⟩
  · cases h

def ownCookie (e : Event) (s : Shared) (p : Party) : Bool := decide (OwnCookie Portal.portal e s p)

/-- The second tab is loaded again. -/
theorem tab_shows_own_request_sale :
    OwnView Portal.portal (browsed ownCookie (bothUnlocked ++ reloaded 2 2)).shared.portal.shared
      (Portal.tokenOf 2) saleView := by
  obtain ⟨t, ht, htoken, hview⟩ := tab_of_shown
    (browsed ownCookie (bothUnlocked ++ reloaded 2 2)) 2 (Portal.tokenOf 2) saleView (by decide +kernel)
  have hr : (machine Portal.portal Requests.heapPlan).Reaches
      (OnRun fun v e p => OwnCookie Portal.portal e v.shared p) start
      (browsed ownCookie (bothUnlocked ++ reloaded 2 2)) :=
    (reaches_getD (by decide +kernel) _).weaken fun _ _ hg =>
      (of_decide_eq_true hg).weaken fun _ _ _ ho => of_decide_eq_true ho
  rw [← htoken]
  exact tab_shows_own_request Portal.portal Requests.heapPlan Public.signs_dated _ hr t ht saleView hview

/-- The first tab is loaded again: it shows the request of the other link. -/
theorem tab_shows_other_request :
    (machine Portal.portal Requests.heapPlan).Reaches (fun _ _ => True) start
      (browsed (fun _ _ _ => true) (bothUnlocked ++ reloaded 1 1)) ∧
    ∃ t, .tab t ∈ (browsed (fun _ _ _ => true) (bothUnlocked ++ reloaded 1 1)).calls ∧
      t.token = Portal.tokenOf 1 ∧ t.page.view = some saleView ∧
      ¬ OwnView Portal.portal (browsed (fun _ _ _ => true) (bothUnlocked ++ reloaded 1 1)).shared.portal.shared
        t.token saleView := by
  obtain ⟨t, ht, htoken, hview⟩ := tab_of_shown
    (browsed (fun _ _ _ => true) (bothUnlocked ++ reloaded 1 1)) 1 (Portal.tokenOf 1) saleView
    (by decide +kernel)
  refine ⟨(reaches_getD (by decide +kernel) _).weaken fun _ _ _ => trivial, t, ht, htoken, hview, ?_⟩
  rintro ⟨link, hl, hhash, hrequest, -⟩
  rw [htoken] at hhash
  have hown : ∀ link ∈ (browsed (fun _ _ _ => true)
      (bothUnlocked ++ reloaded 1 1)).shared.portal.shared.links.links,
      link.tokenHash = Portal.portal.hashPublicToken (Portal.tokenOf 1) → link.requestId = js "dossier" := by
    decide +kernel
  rw [hown link hl hhash] at hrequest
  exact absurd hrequest (by decide)

end DepositPortal.DepositTabs
