import DepositPortal.Portal.Issued
import DepositPortal.Portal.Lasting

/-!
# Deposits after a revocation

A revocation closes the doors, not the calls that are already in. The guard of a deposit looks at the
link before the body is read (public/client-session.guard.ts:50); the row is written at the end
(public/deposits.service.ts:185), and nothing looks at the link again (`deposit_after_revocation`).

Once a revocation has returned and as long as no link is issued, every link of the request is revoked,
if the revocation missed none (`Undisturbed`): the guard lets nobody in any more (`shut_of_cutOff`,
`revokedSince_of_cutOff`). What is left are the deposits that were let in before it returned, and where
each of those has written its row by then (`inTime`), the revocation holds.
-/
namespace DepositPortal.Portal
open Interleave ReadCommitted
open Requests (RequestedItem Plan heapPlan)
open PublicLinks (PublicLink Kept)
open Deposits (RequestId UploadedFile)

variable {cfg : Config} {plan : Plan} {k : Choice} {s s' : State} {f f' : Call} {link : PublicLink}
  {requestId : RequestId} {w w' : World State Call} {a : Act Call Choice}
  {tr : List (Move State Call Choice)}

/-- The request whose revocation has returned. -/
def revokedFor : Call → Option RequestId
  | .links (.done (.revoke requestId _) (.ok _)) => some requestId
  | _ => none

/-- The request a link was issued for. -/
def issuedFor : Call → Option RequestId
  | .create (.done _ (.ok view)) => some view.id
  | .links (.done (.regenerate requestId _ _) (.ok (some _))) => some requestId
  | _ => none

/-- A revocation of the request has returned, and no link was issued for it since. -/
def cutOff (requestId : RequestId) : List (Move State Call Choice) → Bool
  | [] => false
  | m :: tr =>
    answersFor revokedFor requestId m || !answersFor issuedFor requestId m && cutOff requestId tr

/-- The request of a deposit that was let in. -/
def admittedFor : Call → Option RequestId
  | .client (.body session _) | .client (.deposit session _) => some session.requestId
  | _ => none

/-- The move by which the guard decides on call `i`. -/
def guards (i : Nat) (m : Move State Call Choice) : Bool :=
  match m.act, m.before.calls[i]? with
  | .run j _, some (.client (.visit _ _)) => j == i
  | _, _ => false

/-- A revocation of the request has returned since the guard decided on call `i`. -/
def revokedSince (requestId : RequestId) (i : Nat) : List (Move State Call Choice) → Bool
  | [] => false
  | m :: tr => !guards i m && (answersFor revokedFor requestId m || revokedSince requestId i tr)

/-- The deposit that writes its row by the move, and its request. -/
def records (m : Move State Call Choice) : Option (Nat × RequestId) :=
  match m.act with
  | .call _ => none
  | .run i k =>
    match m.before.calls[i]?, k.fault with
    | some (.client (.deposit session (.upsert _ _ _ _))), none => some (i, session.requestId)
    | _, _ => none

/-- Between the guard that lets a deposit in and the upsert that writes its row, no revocation of its
request returns. -/
def inTime : List (Move State Call Choice) → Bool
  | [] => true
  | m :: tr => (records m).all (fun d => !revokedSince d.2 d.1 tr) && inTime tr

theorem inTime_of_append {post tr : List (Move State Call Choice)} (h : inTime (post ++ tr) = true) :
    inTime tr = true := by
  induction post with
  | nil => exact h
  | cons m post ih => exact ih (Bool.and_eq_true_iff.1 h).2

/-! ## The links of a request that is cut off -/

/-- Every link of the request is revoked. -/
def Shut (requestId : RequestId) (s : State) : Prop :=
  ∀ link ∈ s.links.links, link.requestId = requestId → link.revokedAt ≠ none

theorem issuedFor_of_issued {token : PublicLinks.Token} (h : Issued cfg requestId token f) :
    issuedFor f = some requestId := by
  unfold Issued at h
  split at h
  · exact congrArg some h.1
  · exact congrArg some h.1
  · exact absurd h id

/-- A revocation that returns leaves none open, if it missed none. -/
theorem shut_by_revocation (hH : Holds Sound (Asserts cfg) w) (hcov : ∀ e ∈ w.calls, Covering w.shared e)
    {i : Nat} (hn : (machine cfg plan).next w (.run i k) = some w') (hf : w'.calls[i]? = some f)
    (hfor : revokedFor f = some requestId) : Shut requestId w'.shared := by
  unfold revokedFor at hfor
  split at hfor
  · next id lawyerId answer =>
    obtain rfl := Option.some.inj hfor
    obtain ⟨x, hcall, hargs, howned, -, -, hlinks⟩ := next_commits hH hn hf
    have hJ := hH.call hcall
    have hx : x.link = none := by
      have hp := hJ.1.1.purpose
      unfold PublicLinks.Purpose at hp
      split at hp
      · assumption
      · obtain ⟨⟨lawyerId', days, e⟩, -⟩ := hp
        rw [hargs] at e; cases e
    have hsound : PublicLinks.Sound w'.shared.links := by
      obtain ⟨g, s', hg, he, rfl⟩ := next_run_cases hn hf
      exact ((step_of_exec he).keeps hH.1 (hH.call hg)).1.links
    intro link hl hreq
    have hl' := hl
    rw [hlinks] at hl'
    obtain ⟨old, ho, hk⟩ | ⟨c, hc, hcn, hp⟩ := committed_cases hH.1.links hl'
    · obtain ⟨cut, hcut, hkcut, hrev⟩ := commit_cuts hH.1 hJ (hcov _ (List.mem_of_getElem? hcall)) ho
        (hk.same.2.2.symm.trans (hreq.trans howned.symm))
      rw [← hlinks] at hcut
      obtain rfl : cut = link :=
        PublicLinks.eq_of_same_id hsound hl hcut (hkcut.same.1.trans hk.same.1.symm)
      exact hrev
    · obtain ⟨new, k', hnew, -⟩ := hJ.2.1 c hc link hp hcn
      rw [hx] at hnew; cases hnew
  · cases hfor

/-- As long as no link is issued, none opens again. -/
theorem shut_next (hH : Holds Sound (Asserts cfg) w) (hn : (machine cfg plan).next w a = some w')
    (hno : answersFor issuedFor requestId ⟨w, a, w'⟩ = false) (h : Shut requestId w.shared) :
    Shut requestId w'.shared := by
  obtain ⟨g, -, -, rfl⟩ | ⟨i, k, g, s', g', rfl, hg, he, rfl⟩ := next_cases hn
  · exact h
  · intro link hl hreq
    obtain ⟨old, ho, hk⟩ | ⟨token, hi, -⟩ := (step_of_exec he).newLink hH.1 (hH.call hg) hl
    · have hrev := h old ho (hk.same.2.2.symm.trans hreq)
      rwa [hk.of_revoked hrev]
    · rw [hreq] at hi
      have hanswers : answersFor issuedFor requestId ⟨w, .run i k, ⟨s', w.calls.set i g'⟩⟩ = true :=
        answersFor_iff.2 ⟨i, k, g', rfl, by simp [lt_of_getElem?_eq_some hg], issuedFor_of_issued hi⟩
      rw [hno] at hanswers
      cases hanswers

theorem shut_of_cutOff (hr : (machine cfg plan).Run ⟨State.empty, []⟩ tr w)
    (hG : All (OnRun Undisturbed) tr) (hcut : cutOff requestId tr = true) :
    Shut requestId w.shared := by
  induction hr with
  | start => cases hcut
  | @step tr w w' a hr hn ih =>
    obtain ⟨-, hG⟩ := all_cons.1 hG
    have hb := hr.reaches hG
    simp only [cutOff, Bool.or_eq_true, Bool.and_eq_true, Bool.not_eq_true'] at hcut
    rcases hcut with hrev | ⟨hno, hcut⟩
    · obtain ⟨i, k, f, rfl, hf, hfor⟩ := answersFor_iff.1 hrev
      exact shut_by_revocation (holds hb)
        (covering_of_reaches (fun _ _ hg => hg) hb) hn hf hfor
    · exact shut_next (holds hb) hn hno (ih hG hcut)

/-! ## The deposits that are in -/

/-- The guard lets nobody in to a request whose links are all revoked. -/
theorem not_admitted_of_shut {cookies : Public.Cookies} {session : Public.ClientSession} {fails : Bool}
    {verifiedAt now : Int} (h : Shut session.requestId s) :
    Public.canActivate cfg.jwt fails s.links.links cookies verifiedAt now ≠ .ok session := by
  intro hok
  obtain ⟨link, hl, hopen, -, rfl⟩ := canActivate_ok hok
  exact h link hl rfl hopen

/-- A call that begins is not in yet. -/
theorem admittedFor_of_enters (h : enters f = true) : admittedFor f = none := by
  unfold admittedFor
  split
  · cases h
  · cases h
  · rfl

/-- Where a deposit that is in comes from: the guard has just let it in, or it was in before. -/
theorem admitted_cases {i : Nat} (hn : (machine cfg plan).next w a = some w')
    (hf : w'.calls[i]? = some f') (hadm : admittedFor f' = some requestId) :
    (∃ k cookies upload session, a = .run i k ∧ w.calls[i]? = some (.client (.visit cookies upload)) ∧
      Public.canActivate cfg.jwt k.fault.isSome w.shared.links.links cookies k.now k.now = .ok session ∧
      session.requestId = requestId ∧ w'.shared = w.shared) ∨
    guards i ⟨w, a, w'⟩ = false ∧ ∃ f, w.calls[i]? = some f ∧ admittedFor f = some requestId := by
  obtain ⟨g, rfl, hen, rfl⟩ | ⟨j, k, g, s', g', rfl, hg, he, rfl⟩ := next_cases hn
  · rcases getElem?_append_cases hf with ⟨-, rfl⟩ | ⟨-, hf⟩
    · rw [admittedFor_of_enters hen] at hadm
      cases hadm
    · exact .inr ⟨rfl, f', hf, hadm⟩
  · rcases getElem?_set_cases hf with ⟨rfl, rfl⟩ | ⟨hij, hf⟩
    · cases step_of_exec he with
      | client e e' s' h =>
        cases h with
        | answered e e' hbody hdep =>
          cases e' with
          | body session upload => exact absurd rfl (hbody session upload)
          | deposit session d => exact absurd rfl (hdep session d)
          | _ => cases hadm
        | admitted cookies upload session hok =>
          exact .inl ⟨k, cookies, upload, session, rfl, hg, hok, Option.some.inj hadm, rfl⟩
        | began session upload file => exact .inr ⟨by simp [guards, hg], _, hg, hadm⟩
        | deposit session d d' t hd => exact .inr ⟨by simp [guards, hg], _, hg, hadm⟩
      | _ => cases hadm
    · refine .inr ⟨?_, f', hf, hadm⟩
      unfold guards
      split
      · next j' _ _ _ hact _ =>
        obtain ⟨rfl, -⟩ := Act.run.inj hact
        exact beq_eq_false_iff_ne.2 (Ne.symm hij)
      · rfl

/-- A deposit that is in while its request is cut off was let in before the revocation returned. -/
theorem revokedSince_of_cutOff (hr : (machine cfg plan).Run ⟨State.empty, []⟩ tr w)
    (hG : All (OnRun Undisturbed) tr) (hcut : cutOff requestId tr = true) {i : Nat}
    (hf : w.calls[i]? = some f) (hadm : admittedFor f = some requestId) :
    revokedSince requestId i tr = true := by
  induction hr generalizing f with
  | start => cases hcut
  | @step tr w w' a hr hn ih =>
    have hshut := shut_of_cutOff (hr.step hn) hG hcut
    obtain ⟨k, cookies, upload, session, -, -, hok, rfl, e⟩ | ⟨hno, g, hg, hin⟩ :=
      admitted_cases hn hf hadm
    · exact absurd hok (not_admitted_of_shut (e ▸ hshut))
    · simp only [revokedSince, hno, Bool.not_false, Bool.true_and, Bool.or_eq_true]
      simp only [cutOff, Bool.or_eq_true, Bool.and_eq_true] at hcut
      exact hcut.imp id fun h => ih (all_cons.1 hG).2 h.2 hg hin

/-- **A revocation stops the deposits it does not overtake.** In every run of the portal in which no
regeneration commits while a revocation of its request is under way, and no revocation of a request
returns between the guard that lets a deposit of the request in and its upsert: after a revocation has
returned and until a link is issued for the request, no step creates or replaces a row of `UploadedFile`
for an item of the request. -/
theorem revocation_stops_deposits (cfg : Config) (plan : Plan) (post pre : List (Move State Call Choice))
    (m : Move State Call Choice) (w : World State Call)
    (hr : (machine cfg plan).Run ⟨State.empty, []⟩ (post ++ m :: pre) w)
    (hG : All (OnRun Undisturbed) (post ++ m :: pre)) (htime : inTime (post ++ m :: pre) = true)
    (requestId : RequestId) (hcut : cutOff requestId pre = true) :
    ∀ item ∈ m.after.shared.requestedItem, item.requestId = requestId →
      ∀ file : UploadedFile, file.requestedItemId = item.id →
        (file ∈ m.after.shared.uploadedFile ↔ file ∈ m.before.shared.uploadedFile) := by
  intro item hitem hreq file hfile
  obtain ⟨hpre, hn⟩ := hr.upto
  have hGpre : All (OnRun Undisturbed) pre :=
    fun m' hm => hG m' (List.mem_append_right _ (List.mem_cons_of_mem _ hm))
  have hH := holds (hpre.reaches hGpre)
  have htime := (Bool.and_eq_true_iff.1 (inTime_of_append htime)).1
  obtain ⟨v, a, v'⟩ := m
  dsimp only at hpre hn hH hitem ⊢
  obtain ⟨g, -, -, rfl⟩ | ⟨i, k, g, s', g', rfl, hg, he, rfl⟩ := next_cases hn
  · exact Iff.rfl
  · by_contra hne
    obtain ⟨session, d, key, prev, mime, rfl, hfault, hown⟩ :=
      (step_of_exec he).upload_own hH.1 (hH.call hg) hitem hfile hne
    have hsince := revokedSince_of_cutOff hpre hGpre hcut hg (congrArg some (hown.trans hreq))
    simp [records, hg, hfault, hown.trans hreq, hsince] at htime

/-! ### A deposit that comes too late, and one that was let in before -/

/-- The contract is deposited, alice revokes the link, and the client comes back. -/
def refusedDeposit : List (Act Call Choice) :=
  deposited ++ revocation ++ [.call (.client (.visit cookies contract)), .run 3 (tick 3 4)]

theorem revocation_stops_deposits_refused :
    ∃ m pre, (moved Undisturbed refusedDeposit).1 = m :: pre ∧
      ∀ file : UploadedFile, file.requestedItemId = js "contract" →
        (file ∈ m.after.shared.uploadedFile ↔ file ∈ m.before.shared.uploadedFile) := by
  obtain ⟨hr, hG⟩ := run_moved (P := Undisturbed) refusedDeposit (by decide +kernel)
  obtain ⟨m, pre, e⟩ : ∃ m pre, (moved Undisturbed refusedDeposit).1 = m :: pre :=
    List.exists_cons_of_ne_nil (List.isEmpty_eq_false_iff.1 (by decide +kernel))
  refine ⟨m, pre, e, ?_⟩
  have hcut : cutOff (js "dossier") (moved Undisturbed refusedDeposit).1.tail = true := by decide +kernel
  have hitem : ∃ item ∈ (moved Undisturbed refusedDeposit).2.shared.requestedItem,
      item.requestId = js "dossier" ∧ item.id = js "contract" := by decide +kernel
  have htime : inTime (moved Undisturbed refusedDeposit).1 = true := by decide +kernel
  rw [e] at hr hG hcut htime
  obtain ⟨item, hi, hreq, hid⟩ := hitem
  have hlast : (moved Undisturbed refusedDeposit).2 = m.after := by
    generalize (moved Undisturbed refusedDeposit).2 = w at hr
    cases hr; rfl
  rw [hlast] at hi
  rw [← hid]
  exact revocation_stops_deposits portal heapPlan [] pre m _ hr hG htime
    (js "dossier") hcut item hi hreq

/-- The deposit was let in at 1 and has stored its object when the link is revoked at 2. -/
def caught : List (Act Call Choice) :=
  creation ++ .call (.client (.visit cookies contract)) :: List.replicate 4 (.run 1 (tick 1 2)) ++
    revocation

/-- It writes its row at 3. -/
def late : World State Call :=
  ((machine portal heapPlan).next (moved (fun _ _ _ => True) caught).2 (.run 1 (tick 3 2))).getD
    ⟨State.empty, []⟩

/-- The revocation has returned, and the piece comes in. -/
theorem deposit_after_revocation : ∃ m pre,
    (machine portal heapPlan).Run ⟨State.empty, []⟩ (m :: pre) late ∧
    cutOff (js "dossier") pre = true ∧
    (∃ item ∈ m.after.shared.requestedItem, item.requestId = js "dossier" ∧ item.id = js "contract") ∧
    m.before.shared.uploadedFile = [] ∧
    ∃ file ∈ m.after.shared.uploadedFile, file.requestedItemId = js "contract" := by
  obtain ⟨hr, -⟩ := run_moved (P := fun _ _ _ => True) caught (by decide +kernel)
  have hn : (machine portal heapPlan).next (moved (fun _ _ _ => True) caught).2
      (.run 1 (tick 3 2)) = some late := by
    obtain ⟨w, hw⟩ := Option.isSome_iff_exists.1 (show ((machine portal heapPlan).next
      (moved (fun _ _ _ => True) caught).2 (.run 1 (tick 3 2))).isSome = true by decide +kernel)
    rw [late, hw]; rfl
  exact ⟨_, _, hr.step hn, by decide +kernel, by decide +kernel, by decide +kernel,
    by decide +kernel⟩

end DepositPortal.Portal
