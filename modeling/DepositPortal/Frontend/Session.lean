import DepositPortal.Frontend.Client
import DepositPortal.Interleave

/-!
# The session of the interface: `SessionProvider` (frontend/src/auth/session-provider.tsx)

Three calls write the same two cells: the probe of the effect, `signIn` and `signOut`. Each writes when
its `apiRequest` is over, whatever has happened since it was started.

| here | there |
| --- | --- |
| `apiRequest`        | `api/client.ts:199`, one `send` of `sendWithRenewal` at a time |
| `written`           | the `then` and `catch` of the effect (`:17-27`), the ends of `signIn` (`:39`) and `signOut` (`:47`) |
| `Call.cleanUp`      | the clean-up of the effect (`:28`) |

A call's place in the pool is its place in the order of the starts; the probe is call 0.
-/
namespace DepositPortal.SessionProvider
open Interleave Client

inductive SessionStatus where
  | loading | authenticated | anonymous
  deriving DecidableEq, Repr

/-- The two cells. `lawyer` holds what the promise of the profile was fulfilled with. -/
structure Shown where
  status : SessionStatus
  lawyer : Option ApiResult
  deriving DecidableEq, Repr

structure Provider where
  shown : Shown
  /-- The flag of the effect. -/
  active : Bool
  deriving DecidableEq, Repr

inductive Action where
  | probe | signIn | signOut
  deriving DecidableEq, Repr

def Action.path : Action → JsString
  | .probe => js "/auth/me"
  | .signIn => js "/auth/login"
  | .signOut => js "/auth/logout"

def networkError : ApiResult := .apiError ⟨.network, messageForKind .network⟩

/-- What an `apiRequest` does with the answer to its `send` (nothing when the network failed): it
sends again, or it is over. -/
def apiRequest (path : JsString) (stage : Stage) : Option Response → Stage ⊕ ApiResult
  | none => .inr networkError
  | some response => (sendWithRenewal path stage response).map id apiResult

/-- What the call writes when its `apiRequest` is over. -/
def written (active : Bool) : Action → ApiResult → Option Shown
  | .probe, result =>
    if !active then none
    else if result.fulfilled then some ⟨.authenticated, some result⟩
    else some ⟨.anonymous, none⟩
  | .signIn, result => if result.fulfilled then some ⟨.authenticated, some result⟩ else none
  | .signOut, _ => some ⟨.anonymous, none⟩

inductive Call where
  | request (action : Action) (stage : Stage)
  | answered (action : Action) (result : ApiResult)
  | cleanUp
  | cleanedUp
  deriving DecidableEq, Repr

def exec (answer : Option Response) (s : Provider) : Call → Option (Provider × Call)
  | .request action stage =>
    match apiRequest action.path stage answer with
    | .inl stage => some (s, .request action stage)
    | .inr result => some ({ s with shown := (written s.active action result).getD s.shown },
        .answered action result)
  | .cleanUp => some ({ s with active := false }, .cleanedUp)
  | .answered _ _ | .cleanedUp => none

def enters : Call → Bool
  | .request .signIn .sent | .request .signOut .sent | .cleanUp => true
  | _ => false

def machine : Machine Provider Call (Option Response) := ⟨enters, exec⟩

/-- The provider is mounted and its probe is on its way. -/
def mounted : World Provider Call := ⟨⟨⟨.loading, none⟩, true⟩, [.request .probe .sent]⟩

/-- What an action has had the screen show: a sign-in that succeeded, or a sign-out. -/
def Call.shows : Call → Option Shown
  | .answered .signIn result => if result.fulfilled then some ⟨.authenticated, some result⟩ else none
  | .answered .signOut _ => some ⟨.anonymous, none⟩
  | _ => none

/-- Once a sign-in has succeeded, and nothing that was started after it has, the screen shows its
profile; once a sign-out has finished, and no sign-in that was started after it has succeeded, the
screen is anonymous. This is more than what follows when nothing was started after it (`Follows.started`):
an action under way, or one that has failed, changes nothing. -/
def Follows (w : World Provider Call) : Prop :=
  (∀ (i : Nat) (profile : ApiResult), w.calls[i]? = some (.answered .signIn profile) →
    profile.fulfilled = true →
    (∀ (j : Nat) (result : ApiResult), i < j → w.calls[j]? = some (.answered .signIn result) →
      result.fulfilled = false) →
    (∀ (j : Nat) (result : ApiResult), i < j → w.calls[j]? ≠ some (.answered .signOut result)) →
    w.shared.shown = ⟨.authenticated, some profile⟩) ∧
  ∀ (i : Nat) (result : ApiResult), w.calls[i]? = some (.answered .signOut result) →
    (∀ (j : Nat) (result : ApiResult), i < j → w.calls[j]? = some (.answered .signIn result) →
      result.fulfilled = false) →
    w.shared.shown = ⟨.anonymous, none⟩

/-- What an answer has the call write, if it ends it. -/
def Call.writes (active : Bool) (answer : Option Response) : Call → Option Shown
  | .request action stage =>
    match apiRequest action.path stage answer with
    | .inl _ => none
    | .inr result => written active action result
  | _ => none

/-- An answer that changes what is shown comes before anything started after its call has succeeded. -/
def InOrder (w : World Provider Call) : Act Call (Option Response) → Prop
  | .call _ => True
  | .run i answer => ∀ f ∈ w.calls[i]?, ∀ v ∈ f.writes w.shared.active answer,
      v = w.shared.shown ∨ ∀ c ∈ w.calls.drop (i + 1), c.shows = none

instance (w : World Provider Call) (a : Act Call (Option Response)) : Decidable (InOrder w a) :=
  match a with
  | .call _ => isTrue trivial
  | .run i answer => inferInstanceAs (Decidable (∀ f ∈ w.calls[i]?,
      ∀ v ∈ f.writes w.shared.active answer, _ ∨ ∀ c ∈ w.calls.drop (i + 1), c.shows = none))

variable {w w' : World Provider Call} {a : Act Call (Option Response)} {i j : Nat} {v : Shown}
  {c f f' : Call} {s s' : Provider} {answer : Option Response}

/-! ## One step -/

/-- What a step of a call does: it shows nothing new, or it ends with a write. -/
theorem exec_cases (h : exec answer s f = some (s', f')) :
    (s'.shown = s.shown ∧ f.shows = none ∧ f'.shows = none) ∨
    ∃ action stage result v, f = .request action stage ∧ f' = .answered action result ∧
      f.writes s.active answer = some v ∧ written s.active action result = some v ∧ s'.shown = v := by
  cases f with
  | answered | cleanedUp => cases h
  | cleanUp =>
    obtain ⟨rfl, rfl⟩ := Prod.mk.inj (Option.some.inj h)
    exact .inl ⟨rfl, rfl, rfl⟩
  | request action stage =>
    simp only [exec] at h
    split at h
    · obtain ⟨rfl, rfl⟩ := Prod.mk.inj (Option.some.inj h)
      exact .inl ⟨rfl, rfl, rfl⟩
    · next result hres =>
      obtain ⟨rfl, rfl⟩ := Prod.mk.inj (Option.some.inj h)
      cases hw : written s.active action result with
      | some v => exact .inr ⟨action, stage, result, v, rfl, rfl, by simp [Call.writes, hres, hw], hw, by simp⟩
      | none =>
        refine .inl ⟨by simp, rfl, ?_⟩
        cases action with
        | probe => rfl
        | signIn => simpa [written, Call.shows] using hw
        | signOut => cases hw

/-- A call that an answer makes write is over with it. -/
theorem exec_of_writes (h : f.writes s.active answer = some v) :
    ∃ f', exec answer s f = some ({ s with shown := v }, f') := by
  cases f with
  | answered | cleanedUp | cleanUp => cases h
  | request action stage =>
    simp only [Call.writes] at h
    split at h
    · cases h
    · next result hres => exact ⟨.answered action result, by simp [exec, hres, h]⟩

/-- What an action writes is what it has had the screen show. -/
theorem shows_of_written {action : Action} {result : ApiResult} {active : Bool}
    (hw : written active action result = some v) (ha : action ≠ .probe) :
    (Call.answered action result).shows = some v := by
  cases action with
  | probe => exact (ha rfl).elim
  | signIn => simpa [written, Call.shows] using hw
  | signOut => simpa [written, Call.shows] using hw

/-! ## What is shown -/

/-- The screen shows what the action started last, of those that have something to show, wrote. -/
def Latest (w : World Provider Call) : Prop :=
  ∀ (i : Nat) (c : Call) (v : Shown), w.calls[i]? = some c → c.shows = some v →
    (∀ (j : Nat) (d : Call), i < j → w.calls[j]? = some d → d.shows = none) → w.shared.shown = v

def ProbeFirst (w : World Provider Call) : Prop :=
  ∀ (i : Nat) (stage : Stage), w.calls[i]? = some (.request .probe stage) → i = 0

/-- The last of the calls that show something. -/
theorem exists_last (hi : w.calls[i]? = some c) (hc : c.shows = some v) :
    ∃ (m : Nat) (d : Call) (u : Shown), i ≤ m ∧ w.calls[m]? = some d ∧ d.shows = some u ∧
      ∀ (j : Nat) (c : Call), m < j → w.calls[j]? = some c → c.shows = none := by
  generalize hn : w.calls.length - i = n
  induction n using Nat.strong_induction_on generalizing i c v with
  | _ n ih =>
    by_cases hlater : ∃ (j : Nat) (d : Call), i < j ∧ w.calls[j]? = some d ∧ d.shows ≠ none
    · obtain ⟨j, d, hij, hj, hd⟩ := hlater
      obtain ⟨u, hu⟩ := Option.ne_none_iff_exists'.1 hd
      have hlt := lt_of_getElem?_eq_some hj
      obtain ⟨m, d', u', hjm, h⟩ := ih (w.calls.length - j) (by omega) hj hu rfl
      exact ⟨m, d', u', by omega, h⟩
    · refine ⟨i, c, v, le_rfl, hi, hc, fun j d hj hd => ?_⟩
      by_contra hne
      exact hlater ⟨j, d, hj, hd, hne⟩

theorem mem_drop_of_lt (hij : i < j) (hj : w.calls[j]? = some c) : c ∈ w.calls.drop (i + 1) := by
  refine List.mem_iff_getElem?.2 ⟨j - (i + 1), ?_⟩
  rw [List.getElem?_drop, Nat.add_sub_cancel' hij]
  exact hj

theorem shows_cases (h : c.shows = some v) :
    (∃ profile, c = .answered .signIn profile ∧ profile.fulfilled = true ∧
      v = ⟨.authenticated, some profile⟩) ∨
    (∃ result, c = .answered .signOut result) ∧ v = ⟨.anonymous, none⟩ := by
  cases c with
  | answered action result =>
    cases action with
    | probe => cases h
    | signIn =>
      simp only [Call.shows] at h
      split at h
      · next hf => exact .inl ⟨result, rfl, hf, (Option.some.inj h).symm⟩
      · cases h
    | signOut => exact .inr ⟨⟨result, rfl⟩, (Option.some.inj h).symm⟩
  | request | cleanUp | cleanedUp => cases h

theorem follows_iff : Follows w ↔ Latest w := by
  constructor
  · rintro ⟨hin, hout⟩ i c v hi hc hlast
    have hfail : ∀ (j : Nat) (result : ApiResult), i < j → w.calls[j]? = some (.answered .signIn result) →
        result.fulfilled = false := by
      intro j result hij hj
      have := hlast j _ hij hj
      simpa [Call.shows] using this
    rcases shows_cases hc with ⟨profile, rfl, hf, rfl⟩ | ⟨⟨result, rfl⟩, rfl⟩
    · refine hin i profile hi hf hfail fun j result hij hj => ?_
      cases hlast j _ hij hj
    · exact hout i result hi hfail
  · intro h
    refine ⟨fun i profile hi hf hfail hout => ?_, fun i result hi hfail => ?_⟩
    · refine h i _ _ hi (by simp [Call.shows, hf]) fun j c hij hj => ?_
      by_contra hne
      obtain ⟨u, hu⟩ := Option.ne_none_iff_exists'.1 hne
      rcases shows_cases hu with ⟨profile', rfl, hf', -⟩ | ⟨⟨result, rfl⟩, -⟩
      · rw [hfail j _ hij hj] at hf'
        cases hf'
      · exact hout j _ hij hj
    · obtain ⟨m, d, u, him, hm, hu, hlast⟩ := exists_last hi rfl
      have hshown := h m d u hm hu hlast
      rcases shows_cases hu with ⟨profile, rfl, hf, -⟩ | ⟨-, rfl⟩
      · rcases Nat.eq_or_lt_of_le him with rfl | hlt
        · rw [hi] at hm
          cases hm
        · rw [hfail m _ hlt hm] at hf
          cases hf
      · exact hshown

def Call.action : Call → Option Action
  | .request action _ | .answered action _ => some action
  | .cleanUp | .cleanedUp => none

/-- Once a sign-in has succeeded and no other and no sign-out was started after it, the screen shows its
profile; once a sign-out has finished and no sign-in was started after it, the screen is anonymous. -/
theorem Follows.started (h : Follows w) :
    (∀ (i : Nat) (profile : ApiResult), w.calls[i]? = some (.answered .signIn profile) →
      profile.fulfilled = true →
      (∀ (j : Nat) (c : Call), i < j → w.calls[j]? = some c →
        c.action ≠ some .signIn ∧ c.action ≠ some .signOut) →
      w.shared.shown = ⟨.authenticated, some profile⟩) ∧
    ∀ (i : Nat) (result : ApiResult), w.calls[i]? = some (.answered .signOut result) →
      (∀ (j : Nat) (c : Call), i < j → w.calls[j]? = some c → c.action ≠ some .signIn) →
      w.shared.shown = ⟨.anonymous, none⟩ := by
  refine ⟨fun i profile hi hf hlater => ?_, fun i result hi hlater => ?_⟩
  · refine h.1 i profile hi hf (fun j result hij hj => ?_) fun j result hij hj => ?_
    · exact absurd rfl (hlater j _ hij hj).1
    · exact absurd rfl (hlater j _ hij hj).2
  · exact h.2 i result hi fun j result hij hj => absurd rfl (hlater j _ hij hj)

theorem probeFirst_next (hp : ProbeFirst w) (hn : machine.next w a = some w') : ProbeFirst w' := by
  intro i stage hi
  obtain ⟨f, rfl, he, rfl⟩ | ⟨k, answer, f, s, f', rfl, hf, he, rfl⟩ := next_cases hn
  · rcases getElem?_append_cases hi with ⟨-, rfl⟩ | ⟨-, hi⟩
    · cases he
    · exact hp i stage hi
  · rcases getElem?_set_cases hi with ⟨rfl, rfl⟩ | ⟨-, hi⟩
    · cases f with
      | answered | cleanedUp => cases he
      | cleanUp => cases he
      | request action stage' =>
        simp only [machine, exec] at he
        split at he <;> cases he
        exact hp _ _ hf
    · exact hp i stage hi

/-- The calls that show something after a step: the one that ended, or those of before. -/
theorem Latest.of_quiet (hl : Latest w) (hf : w.calls[i]? = some f) (hshows : f'.shows = none)
    (hold : f.shows = none) {s : Provider} (hs : s.shown = w.shared.shown) :
    Latest ⟨s, w.calls.set i f'⟩ := by
  intro k c v hk hc hlast
  rcases getElem?_set_cases hk with ⟨rfl, rfl⟩ | ⟨hki, hk⟩
  · rw [hshows] at hc
    cases hc
  · rw [hs]
    refine hl k c v hk hc fun j d hj hd => ?_
    by_cases hji : j = i
    · subst hji
      rw [hf] at hd
      cases hd
      exact hold
    · exact hlast j d hj (by rwa [List.getElem?_set_ne (Ne.symm hji)])

theorem Latest.next (hl : Latest w) (hp : ProbeFirst w) (hg : InOrder w a)
    (hn : machine.next w a = some w') : Latest w' := by
  obtain ⟨f, rfl, he, rfl⟩ | ⟨i, answer, f, s, f', rfl, hf, he, rfl⟩ := next_cases hn
  · -- a new call has shown nothing yet
    have hnew : f.shows = none := by
      cases f with
      | request | cleanUp | cleanedUp => rfl
      | answered => cases he
    intro k c v hk hc hlast
    rcases getElem?_append_cases hk with ⟨-, rfl⟩ | ⟨hlt, hk⟩
    · rw [hnew] at hc
      cases hc
    · refine hl k c v hk hc fun j d hj hd => hlast j d hj ?_
      rwa [List.getElem?_append_left (lt_of_getElem?_eq_some hd)]
  · obtain ⟨hs, hold, hnew⟩ | ⟨action, stage, result, u, rfl, rfl, hwr, hw, hs⟩ := exec_cases he
    · exact hl.of_quiet hf hnew hold hs
    · intro k c v hk hc hlast
      simp only [hs]
      have hothers : ∀ (j : Nat) (d : Call), j ≠ i → w.calls[j]? = some d →
          (w.calls.set i (.answered action result))[j]? = some d :=
        fun j d hji hd => by rwa [List.getElem?_set_ne (Ne.symm hji)]
      -- a call that shows something and comes later than this one: this one changes nothing
      have hlater : i < k → u = v := by
        intro hik
        rw [List.getElem?_set_ne hik.ne] at hk
        rcases hg _ hf u hwr with rfl | hnone
        · exact hl k c v hk hc fun j d hj hd => hlast j d hj (hothers j d (by omega) hd)
        · rw [hnone c (mem_drop_of_lt hik hk)] at hc
          cases hc
      by_cases ha : action = .probe
      · subst ha
        obtain rfl : i = 0 := hp i stage hf
        refine hlater (Nat.pos_of_ne_zero fun h0 => ?_)
        subst h0
        rw [List.getElem?_set_self (lt_of_getElem?_eq_some hf)] at hk
        cases hk
        cases hc
      · have hown := shows_of_written hw ha
        have hset := List.getElem?_set_self (a := Call.answered action result) (lt_of_getElem?_eq_some hf)
        rcases Nat.lt_trichotomy k i with hki | rfl | hik
        · rw [hlast i _ hki hset] at hown
          cases hown
        · rw [hset] at hk
          cases hk
          rw [hown] at hc
          exact Option.some.inj hc
        · exact hlater hik

/-- An answer out of order leaves a screen that does not follow. -/
theorem inOrder_of_latest (hl : Latest w) (hn : machine.next w a = some w') (hl' : Latest w') :
    InOrder w a := by
  cases a with
  | call => trivial
  | run i answer =>
    intro f hf u hw
    by_contra hcon
    rw [not_or] at hcon
    obtain ⟨hne, hlater⟩ := hcon
    push Not at hlater
    obtain ⟨c, hmem, hc⟩ := hlater
    obtain ⟨j, hj⟩ := List.mem_iff_getElem?.1 hmem
    rw [List.getElem?_drop] at hj
    obtain ⟨v, hv⟩ := Option.ne_none_iff_exists'.1 hc
    obtain ⟨m, d, x, hjm, hm, hx, hlast⟩ := exists_last hj hv
    obtain ⟨f', hexec⟩ := exec_of_writes hw
    rw [next_run hf hexec] at hn
    obtain rfl := Option.some.inj hn
    have hbefore : w.shared.shown = x := hl m d x hm hx hlast
    have hafter : u = x := by
      refine hl' m d x ?_ hx fun j c hmj hj => ?_
      · rwa [List.getElem?_set_ne (by omega)]
      · rw [List.getElem?_set_ne (by omega)] at hj
        exact hlast j c hmj hj
    exact hne (hafter.trans hbefore.symm)

/-! ## Runs -/

theorem latest_mounted : Latest mounted := by
  intro i c v hi hc
  match i with
  | 0 => cases hi; cases hc
  | i + 1 => cases hi

theorem probeFirst_mounted : ProbeFirst mounted := by
  intro i stage hi
  match i with
  | 0 => rfl
  | i + 1 => cases hi

theorem probeFirst_run {tr : List (Move Provider Call (Option Response))}
    (hr : machine.Run mounted tr w) : ProbeFirst w :=
  (hr.reaches (G := fun _ _ => True) fun _ _ => trivial).induct probeFirst_mounted
    fun _ _ _ _ hp _ hn => probeFirst_next hp hn

theorem latest_run {tr : List (Move Provider Call (Option Response))}
    (hr : machine.Run mounted tr w) (hall : All InOrder tr) : Latest w := by
  induction hr with
  | start => exact latest_mounted
  | step hr hn ih =>
    obtain ⟨hg, hall⟩ := all_cons.1 hall
    exact (ih hall).next (probeFirst_run hr) hg hn

/-- The screen follows the last answered action in every state of a run exactly when no answer of the
run is out of order. -/
theorem screen_follows_iff {tr : List (Move Provider Call (Option Response))}
    (hr : machine.Run mounted tr w) : (∀ m ∈ tr, Follows m.after) ↔ All InOrder tr := by
  simp only [follows_iff]
  induction hr with
  | start => simp
  | step hr hn ih =>
    rw [all_cons, List.forall_mem_cons, ih]
    constructor
    · rintro ⟨hl', hall⟩
      exact ⟨inOrder_of_latest (latest_run hr hall) hn hl', hall⟩
    · rintro ⟨hg, hall⟩
      exact ⟨(latest_run hr hall).next (probeFirst_run hr) hg hn, hall⟩

/-! ## Two runs -/

def welcome : Response := ⟨200, js "application/json", .json .other⟩

def refusal : Response := ⟨401, js "application/json", .json .other⟩

/-- The moves and the world of some steps from `mounted`. -/
def played (acts : List (Act Call (Option Response))) :
    List (Move Provider Call (Option Response)) × World Provider Call :=
  (machine.follow (fun _ _ => true) [] mounted acts).getD ([], mounted)

theorem run_played {acts : List (Act Call (Option Response))}
    (h : (machine.follow (fun _ _ => true) [] mounted acts).isSome = true) :
    machine.Run mounted (played acts).1 (played acts).2 :=
  (run_getD h _).1

/-- The probe has found no session, its renewal is refused, and then the lawyer signs in. -/
def probeFirst : List (Act Call (Option Response)) :=
  [.call (.request .signIn .sent), .run 0 (some refusal), .run 0 (some refusal), .run 1 (some welcome)]

theorem screen_follows_iff_probeFirst :
    (played probeFirst).2.shared.shown = ⟨.authenticated, some (.value welcome)⟩ ∧
      ∀ m ∈ (played probeFirst).1, Follows m.after := by
  have hin : ∀ m ∈ (played probeFirst).1, InOrder m.before m.act := by decide
  exact ⟨by decide, (screen_follows_iff (run_played (by decide))).2 hin⟩

/-- The lawyer signs in while the probe waits, and then its renewal is refused. -/
def probeLast : List (Act Call (Option Response)) :=
  [.call (.request .signIn .sent), .run 0 (some refusal), .run 1 (some welcome), .run 0 (some refusal)]

theorem signIn_overwritten :
    machine.Run mounted (played probeLast).1 (played probeLast).2 ∧
      (played probeLast).2.calls = [.answered .probe (apiResult refusal),
        .answered .signIn (.value welcome)] ∧
      (played probeLast).2.shared.shown = ⟨.anonymous, none⟩ ∧ ¬ Follows (played probeLast).2 := by
  refine ⟨run_played (by decide), by decide, by decide, fun h => ?_⟩
  have hcalls : (played probeLast).2.calls = [.answered .probe (apiResult refusal),
      .answered .signIn (.value welcome)] := by decide
  have hshown := h.1 1 (.value welcome) (by rw [hcalls]; rfl) rfl
    (fun j _ hj hc => by
      have := lt_of_getElem?_eq_some hc
      rw [hcalls, List.length_cons, List.length_singleton] at this
      omega)
    fun j _ hj hc => by
      have := lt_of_getElem?_eq_some hc
      rw [hcalls, List.length_cons, List.length_singleton] at this
      omega
  revert hshown
  decide

end DepositPortal.SessionProvider
