import DepositPortal.Auth.Alone

/-!
# What a family goes through over a run

The results about `RefreshTokenService`, for every interleaving of its calls: a family never has
two live tokens and a closed one stays closed (`family_safety`); a token replayed after the race
window closes its family (`reuse_detection`); both deadlines hold over a chain of any length
(`session_deadlines`). The answer 'raced' is the exception: it does not tell a rotation from a
logout, so it only means a live session while the family has not been ended
(`raced_sound_iff`, `raced_after_logout`).
-/
namespace DepositPortal.RefreshToken
open Interleave

variable {cfg : Config} {s s' : Server} {k : Choice} {w w' : World Server Call}

/-! ## Answers -/

/-- The call has answered 'rotated' for the token. -/
def RotatedFor (token : Token) : Call → Prop
  | .rotated t (.rotated _ _ _) => t = token
  | _ => False

theorem answeredRotated_iff {i : Nat} {token : Token} :
    AnsweredRotated w i token ↔ ∃ c, w.calls[i]? = some c ∧ RotatedFor token c := by
  constructor
  · rintro ⟨t, l, e, h⟩
    exact ⟨_, h, rfl⟩
  · rintro ⟨c, h, hc⟩
    unfold RotatedFor at hc
    split at hc
    · subst hc; exact ⟨_, _, _, h⟩
    · exact hc.elim

/-- A step that answers 'rotated' is the transaction of a call past its tests, and it found the
row of the token unrevoked. -/
theorem rotated_of_exec (hi : Inv cfg s) {f f' : Call} (ha : Asserts cfg s f) {token : Token}
    (he : exec cfg k s f = some (s', f')) (hr : RotatedFor token f') :
    ∃ stored now r, f = .rotateClaim token stored now ∧ Known cfg s token stored ∧
      now < stored.expiresAt ∧ now < stored.idleExpiresAt ∧ r ∈ s.refreshToken ∧
      r.tokenHash = cfg.hashPublicToken token ∧ r.revokedAt = none ∧ r.base = stored.base := by
  cases f with
  | rotateClaim t stored now =>
    simp only [exec, Option.ite_none_right_eq_some, Option.some.injEq, Prod.mk.injEq] at he
    obtain ⟨-, -, rfl⟩ := he
    rcases claimAndAppend_cases (k := k) hi ha.1 with ⟨hc, -⟩ | ⟨r, hm, hh, h0, hb, hc⟩
    · rw [hc] at hr; exact hr.elim
    · rw [hc] at hr
      cases hr
      exact ⟨stored, now, r, rfl, ha.1, ha.2.2.1, ha.2.2.2, hm, hh, h0, hb⟩
  | rotateTest t stored =>
    cases he
    unfold afterRead at hr
    split at hr <;> split at hr <;> exact hr.elim
  | issue l =>
    simp only [exec, Option.ite_none_right_eq_some, Option.some.injEq, Prod.mk.injEq] at he
    rw [← he.2.2] at hr
    exact hr.elim
  | rotate t =>
    simp only [exec] at he
    split at he <;> cases he <;> exact hr.elim
  | revokeFamilyOf t =>
    simp only [exec] at he
    split at he <;> cases he <;> exact hr.elim
  | rotateReuse t stored => cases he; exact hr.elim
  | revokeFamilyFound t stored => cases he; exact hr.elim
  | purgeExpired l => cases he; exact hr.elim
  | _ => simp [exec] at he

/-- The token of a call that answered 'rotated' is revoked. -/
theorem revoked_of_rotatedFor {f : Call} {token : Token} (ha : Asserts cfg s f)
    (hr : RotatedFor token f) : ∃ t, .revoked (cfg.hashPublicToken token) t ∈ s.log := by
  unfold RotatedFor at hr
  split at hr
  · subst hr; exact ha
  · exact hr.elim

theorem rotatedFor_not_entered {f : Call} (he : enters f = true) (token : Token) :
    ¬ RotatedFor token f := by
  cases f <;> first | exact id | cases he

/-! ## Safety of families -/

/-- Two calls are never both answered 'rotated' for one token: the second claim would have found
its row revoked. -/
theorem rotated_apart (cfg : Config) : PairOutline (machine cfg) (fun _ _ _ => True) (Inv cfg)
    (Asserts cfg) (fun f e => ∀ token, RotatedFor token f → ¬ RotatedFor token e) := by
  refine (outline cfg).pair (fun f e hK t h1 h2 => hK t h2 h1) ?_ ?_
  · intro s f e _ he _ t ht
    exact absurd ht (rotatedFor_not_entered he t)
  · intro k s f s' f' e hI hf he _ _ hx t ht hte
    obtain ⟨stored, now, r, -, -, -, -, hm, hh, h0, -⟩ := rotated_of_exec hI hf hx ht
    obtain ⟨at', hat⟩ := revoked_of_rotatedFor he hte
    rw [← hh] at hat
    rw [(hI.kept.revoked r hm at').2 hat] at h0
    cases h0

theorem rotated_once (h : Reachable cfg w) {token : Token} {i j : Nat}
    (hi : AnsweredRotated w i token) (hj : AnsweredRotated w j token) : i = j := by
  obtain ⟨c, hr⟩ := h
  have hap := ((rotated_apart cfg).run hr (fun _ _ _ _ _ _ => trivial)
    ⟨inv_start c, by simp [start]⟩ (by simp [Apart, start])).2
  by_contra hij
  obtain ⟨c, hc, hrc⟩ := answeredRotated_iff.1 hi
  obtain ⟨d, hd, hrd⟩ := answeredRotated_iff.1 hj
  exact hap i j c d hij hc hd token hrc hrd

/-- Once an opened family has no unrevoked row, no call is answered 'rotated' for one of its tokens
any more, those in flight included. -/
theorem not_rotated_again {G : World Server Call → Act Call Choice → Prop}
    (hw : Holds (Inv cfg) (Asserts cfg) w) {f : FamilyId} (hopen : Opened w.shared f)
    (hdead : ¬ Alive w.shared f) (h : (machine cfg).Reaches G w w') {i : Nat} {token : Token}
    (hf : OfFamily cfg w'.shared token f) (ha : AnsweredRotated w' i token) :
    AnsweredRotated w i token := by
  have hend : Ended w.shared f := (hw.1.families.alive f hopen).resolve_right hdead
  revert i token
  refine h.induct (I := fun v => ∀ {i : Nat} {token : Token}, OfFamily cfg v.shared token f →
    AnsweredRotated v i token → AnsweredRotated w i token) (fun _ h => h) ?_
  intro v a v' hr ih _ hn i token hf ha
  have hv := holds_of_reaches hr hw
  obtain ⟨c, hc, hrc⟩ := answeredRotated_iff.1 ha
  obtain ⟨g, -, hg, rfl⟩ | ⟨j, k, g, s, g', -, hg, he, rfl⟩ := next_cases hn
  · rcases getElem?_append_cases hc with ⟨-, rfl⟩ | ⟨-, hc'⟩
    · exact absurd hrc (rotatedFor_not_entered hg token)
    · exact ih hf (answeredRotated_iff.2 ⟨c, hc', hrc⟩)
  · have hi' := (exec_inv hv.1 (hv.call hg) he).1
    rcases getElem?_set_cases hc with ⟨rfl, rfl⟩ | ⟨-, hc'⟩
    · -- the claim found an unrevoked row of `f`, which is ended
      obtain ⟨stored, now, r, -, hk, -, -, hm, -, h0, hb⟩ := rotated_of_exec hv.1 (hv.call hg) he hrc
      have hsf := OfFamily.unique hi' hf (hk.ofFamily.mono (exec_log he))
      have hend' : Ended v.shared f := hend.imp (reaches_log hr _) (reaches_log hr _)
      refine absurd ⟨r, hm, ?_, h0⟩ (hv.1.families.ended f hend')
      rw [hsf, ← base_familyId r, hb, base_familyId]
    · -- answered before this step; its token was known before, of the same family
      obtain ⟨t, ht⟩ := revoked_of_rotatedFor (hv.call hc') hrc
      obtain ⟨b, hb, hbh⟩ := hv.1.kept.revokedKnown _ _ ht
      have hold : OfFamily cfg v.shared token b.familyId := ⟨b, hb, hbh, rfl⟩
      have := OfFamily.unique hi' hf (hold.mono (exec_log he))
      exact ih (this ▸ hold) (answeredRotated_iff.2 ⟨c, hc', hrc⟩)

/-- **Safety of families.** In every reachable world: a family has at most one unrevoked row; a
token is answered 'rotated' at most once; and once a family has no unrevoked row, no rotation of
any of its tokens, in flight or to come, is answered 'rotated'. -/
theorem family_safety (cfg : Config) (w : World Server Call) (h : Reachable cfg w) :
    (∀ f, (w.shared.refreshToken.filter (inFamily f)).length ≤ 1) ∧
    (∀ token i j, AnsweredRotated w i token → AnsweredRotated w j token → i = j) ∧
    (∀ f, Opened w.shared f → ¬ Alive w.shared f →
      ∀ w', (machine cfg).Reaches (fun _ _ => True) w w' →
      ∀ i token, OfFamily cfg w'.shared token f → AnsweredRotated w' i token →
        AnsweredRotated w i token) := by
  refine ⟨fun f => ?_, fun token i j => rotated_once h, fun f ho hd w' hr i token =>
    not_rotated_again h.holds ho hd hr⟩
  have hi := h.holds.1
  refine length_le_one_of_eq ((hi.kept.nodup.of_map _).filter _) ?_
  intro a ha b hb
  obtain ⟨ha, hpa⟩ := List.mem_filter.1 ha
  obtain ⟨hb, hpb⟩ := List.mem_filter.1 hb
  obtain ⟨hfa, ha0⟩ := inFamily_iff.1 hpa
  obtain ⟨hfb, hb0⟩ := inFamily_iff.1 hpb
  exact hi.families.single a ha b hb (hfa.trans hfb.symm) ha0 hb0

/-! ### A concrete run

Alice logs in, her token `A` is rotated into `B`, she logs out, and `A` comes back. -/

/-- Seven days and three days, the values of `.env.example`; hashing is the identity. -/
def sevenDays : Config := ⟨id, fun _ _ h => h, 604800000, 259200000⟩

def noClockBack (w : World Server Call) (a : Act Call Choice) : Bool := decide (clockForward w a)

def played (acts : List (Act Call Choice)) : World Server Call :=
  ((machine sevenDays).play noClockBack (start 0) acts).getD (start 0)

theorem reachable_played {acts : List (Act Call Choice)}
    (h : ((machine sevenDays).play noClockBack (start 0) acts).isSome = true) :
    ReachableInTime sevenDays (played acts) :=
  ⟨0, (reaches_getD h _).weaken fun _ _ hg => of_decide_eq_true hg⟩

/-- One step of call `i` at `now`, drawing what it needs. -/
def at' (i : Nat) (now : Int) (token : String) : Act Call Choice :=
  .run i ⟨now, js token, js "family"⟩

def loginAndRotate : List (Act Call Choice) :=
  [.call (.issue (js "alice")), at' 0 0 "A", .call (.rotate (js "A")), at' 1 1000 "", at' 1 1000 "",
    at' 1 1001 "B"]

def thenLogout : List (Act Call Choice) :=
  loginAndRotate ++ [.call (.revokeFamilyOf (js "B")), at' 2 5000 "", at' 2 5000 ""]

theorem family_safety_loginAndRotate :
    ((played thenLogout).shared.refreshToken.filter (inFamily (js "family"))).length ≤ 1 ∧
    AnsweredRotated (played thenLogout) 1 (js "A") :=
  ⟨(family_safety sevenDays (played thenLogout) (reachable_played (by decide)).reachable).1 _,
    js "B", js "alice", 604800000, by decide⟩

/-! ## Reuse detection -/

/-- A row of a family that still has an acceptable token stays through a purge. -/
theorem purge_keeps (hi : Inv cfg s) {row q : Row} {l : LawyerId} {now : Int}
    (hr : row ∈ s.refreshToken) (hq : q ∈ s.refreshToken) (hf : q.familyId = row.familyId)
    (hq' : now < q.expiresAt) : row ∈ (s.purgeExpired l now).refreshToken := by
  obtain ⟨-, h2⟩ := hi.kept.same_login (hi.kept.origin q hq) (hi.kept.origin row hr) hf
  simp only [base_expiresAt] at h2
  refine mem_purgeExpired.2 ⟨hr, Bool.eq_false_iff.2 fun hc => ?_⟩
  have := (expiredBefore_iff.1 hc).2
  omega

/-- A replayed token: while its family has a live row, its own row is there, marked with the time
it was revoked at. -/
theorem replayed_row (hi : Inv cfg s) {token other : Token} {f : FamilyId} {r now : Int}
    (hf : OfFamily cfg s token f) (hrev : .revoked (cfg.hashPublicToken token) r ∈ s.log)
    (ho : OfFamily cfg s other f) (hacc : accepts cfg s other now = true) :
    ∃ row, s.findUnique (cfg.hashPublicToken token) = some row ∧ row.revokedAt = some r := by
  obtain ⟨q, hq, hqh, -⟩ := (accepts_iff hi).1 hacc
  obtain ⟨a, ha, hah, haf⟩ := hf
  obtain ⟨b, hb, hbh, hbf⟩ := ho
  have hqb := hi.kept.row_of hq hb (hqh.trans hbh.symm)
  have hqf : a.familyId = q.familyId := by rw [haf, ← hbf, ← hqb, base_familyId]
  obtain ⟨row, hrow, rfl⟩ := hi.kept.whole q hq a ha hqf
  rw [base_tokenHash] at hah
  rw [← hah] at hrev ⊢
  exact ⟨row, hi.kept.findUnique hrow, (hi.kept.revoked row hrow r).2 hrev⟩

/-- How far the rotation of a replayed token has come after its read. -/
def Replaying (token : Token) (row : Row) (c : Call) : Prop :=
  c = .rotateTest token row ∨ c = .rotateReuse token row ∨
    c = .rotated token (.rejected .reused)

/-- Past the race window, the rotation of a replayed token goes to its refusal. -/
theorem replay_track {row : Row} {token : Token} {r : Int} {i : Nat}
    (hc : w.calls[i]? = some (.rotateTest token row)) (hrow : row.revokedAt = some r)
    (hlate : r + RACE_WINDOW_MS ≤ w.shared.clock) (h : (machine cfg).Reaches clockForward w w') :
    ∃ c, w'.calls[i]? = some c ∧ Replaying token row c := by
  suffices ∃ c, w'.calls[i]? = some c ∧ r + RACE_WINDOW_MS ≤ w'.shared.clock ∧
      Replaying token row c by
    obtain ⟨c, hc', -, hP⟩ := this
    exact ⟨c, hc', hP⟩
  refine h.track (P := fun v c => r + RACE_WINDOW_MS ≤ v.shared.clock ∧ Replaying token row c) hc
    ⟨hlate, .inl rfl⟩ ?_ ?_
  · rintro v k c s c' - hG - ⟨hv, rfl | rfl | rfl⟩ hx
    · cases hx
      have hG : v.shared.clock ≤ k.now := hG
      have hwin : ¬ k.now - r < RACE_WINDOW_MS := by omega
      exact ⟨Int.le_trans hv hG, .inr (.inl (by simp [afterRead, hrow, hwin]))⟩
    · cases hx
      have hG : v.shared.clock ≤ k.now := hG
      exact ⟨Int.le_trans hv hG, .inr (.inr rfl)⟩
    · simp [machine, exec] at hx
  · rintro v a v' c - hG - - ⟨hv, hcc⟩ hx
    refine ⟨?_, hcc⟩
    obtain ⟨g, -, -, rfl⟩ | ⟨j, k, g, s, g', rfl, -, he, rfl⟩ := next_cases hx
    · exact hv
    · have hG : v.shared.clock ≤ k.now := hG
      rw [show s.clock = k.now from exec_clock he]
      exact Int.le_trans hv hG

/-- **Reuse detection is complete.** In a run whose clock never goes back, a token that was rotated
or revoked at `r` and is presented at least 30 s later, while some token of its family would still
be accepted, can only be answered 'reused'; from that answer on no token of the family is answered
'rotated'. A purge never removes a row of a family that still has an acceptable token. -/
theorem reuse_detection (cfg : Config) (w : World Server Call) (h : ReachableInTime cfg w) :
    (∀ i k w₁ token f r, w.calls[i]? = some (.rotate token) →
      clockForward w (.run i k) → (machine cfg).next w (.run i k) = some w₁ →
      OfFamily cfg w.shared token f → .revoked (cfg.hashPublicToken token) r ∈ w.shared.log →
      r + RACE_WINDOW_MS ≤ k.now →
      (∃ other, OfFamily cfg w.shared other f ∧ accepts cfg w.shared other k.now = true) →
      ∀ w₂, (machine cfg).Reaches clockForward w₁ w₂ →
        (w₂.calls[i]? = some (.rotated token (.rejected .reused)) ∧
          ∀ w₃, (machine cfg).Reaches clockForward w₂ w₃ → ∀ j t, OfFamily cfg w₃.shared t f →
            AnsweredRotated w₃ j t → AnsweredRotated w₂ j t) ∨
        ((∃ stored, w₂.calls[i]? = some (.rotateTest token stored) ∨
            w₂.calls[i]? = some (.rotateReuse token stored)) ∧
          ∀ k', ∃ w₃, (machine cfg).next w₂ (.run i k') = some w₃)) ∧
    (∀ i k w' l, w.calls[i]? = some (.purgeExpired l) →
      (machine cfg).next w (.run i k) = some w' → ∀ row ∈ w.shared.refreshToken,
      (∃ other, OfFamily cfg w.shared other row.familyId ∧
        accepts cfg w.shared other k.now = true) → row ∈ w'.shared.refreshToken) := by
  have hw := h.reachable.holds
  constructor
  · rintro i k w₁ token f r hc hclk hn hf hrev hlate ⟨other, ho, hacc⟩ w₂ h₂
    obtain ⟨row, hrow, hrow0⟩ := replayed_row hw.1 hf hrev ho hacc
    have he : (machine cfg).exec k w.shared (.rotate token) =
        some (w.shared.tick k, .rotateTest token row) := by simp [machine, exec, hrow]
    rw [next_run hc he] at hn
    cases hn
    have hi : i < w.calls.length := lt_of_getElem?_eq_some hc
    have hw₁ : Holds (Inv cfg) (Asserts cfg)
        ⟨w.shared.tick k, w.calls.set i (.rotateTest token row)⟩ := by
      exact (outline cfg).next hw (fun _ _ _ _ _ => trivial) (next_run hc he)
    obtain ⟨c, hc₂, hP⟩ := replay_track (List.getElem?_set_self hi) hrow0 hlate h₂
    have hw₂ := holds_of_reaches h₂ hw₁
    rcases hP with rfl | rfl | rfl
    · exact Or.inr ⟨⟨row, Or.inl hc₂⟩, fun k' => ⟨_, next_run hc₂ rfl⟩⟩
    · exact Or.inr ⟨⟨row, Or.inr hc₂⟩, fun k' => ⟨_, next_run hc₂ rfl⟩⟩
    · refine Or.inl ⟨hc₂, fun w₃ h₃ j t hf₃ ha => ?_⟩
      obtain ⟨f', hf', hcl⟩ := hw₂.call hc₂
      have hf₁ : OfFamily cfg (w.shared.tick k) token f := hf.mono fun _ h => h
      have hlog := reaches_log h₂
      have hf₂ : OfFamily cfg w₂.shared token f := hf₁.mono hlog
      rw [hf'.unique hw₂.1 hf₂] at hcl
      exact not_rotated_again hw₂ (hf₂.opened hw₂.1) (hw₂.1.families.ended f (Or.inl hcl)) h₃ hf₃ ha
  · rintro i k w' l hc hn row hr ⟨other, ho, hacc⟩
    have he : (machine cfg).exec k w.shared (.purgeExpired l) =
        some ((w.shared.purgeExpired l k.now).tick k, .purged l) := rfl
    rw [next_run hc he] at hn
    cases hn
    obtain ⟨q, hq, hqh, -, hqe, -⟩ := (accepts_iff hw.1).1 hacc
    obtain ⟨b, hb, hbh, hbf⟩ := ho
    refine purge_keeps hw.1 hr hq ?_ hqe
    rw [← base_familyId q, hw.1.kept.row_of hq hb (hqh.trans hbh.symm), hbf]

def thenPresented : List (Act Call Choice) := loginAndRotate ++ [.call (.rotate (js "A"))]

def thenReplayed : List (Act Call Choice) :=
  thenPresented ++ [at' 2 40000 "", at' 2 40000 "", at' 2 40000 ""]

def rowA : Row := ⟨js "A", js "family", 604800000, 259200000, none, 0, js "alice"⟩

def rowB : Row := ⟨js "B", js "family", 604800000, 259201001, none, 1001, js "alice"⟩

theorem reuse_detection_replayed :
    (played thenReplayed).calls[2]? = some (.rotated (js "A") (.rejected .reused)) ∧
    ∀ w₃, (machine sevenDays).Reaches clockForward (played thenReplayed) w₃ →
      ∀ j t, OfFamily sevenDays w₃.shared t (js "family") → AnsweredRotated w₃ j t →
        AnsweredRotated (played thenReplayed) j t := by
  have hn : (machine sevenDays).next (played thenPresented) (at' 2 40000 "") =
      some (played (thenPresented ++ [at' 2 40000 ""])) := by rfl
  have hr : (machine sevenDays).Reaches clockForward (played (thenPresented ++ [at' 2 40000 ""]))
      (played thenReplayed) :=
    (reaches_of_play (by rfl : (machine sevenDays).play noClockBack
      (played (thenPresented ++ [at' 2 40000 ""])) [at' 2 40000 "", at' 2 40000 ""] = some _)).weaken
      fun _ _ hg => of_decide_eq_true hg
  rcases (reuse_detection sevenDays (played thenPresented) (reachable_played (by decide))).1 2
    ⟨40000, js "", js "family"⟩ _ (js "A") (js "family") 1001 (by decide) (by decide) hn
    ⟨rowA, by decide, by decide, by decide⟩ (by decide) (by decide)
    ⟨js "B", ⟨rowB, by decide, by decide, by decide⟩, by decide⟩ _ hr with h | ⟨⟨stored, h⟩, -⟩
  · exact h
  · have : (played thenReplayed).calls[2]? = some (.rotated (js "A") (.rejected .reused)) := by decide
    rw [this] at h
    simp at h

/-! ## 'raced' -/

/-- The reasons on which `AuthController.refresh` clears the cookies (`auth.controller.ts:104`). -/
def terminal (reason : RefreshRejection) : Bool := reason != .raced

/-- What the controller needs of an answer: 'raced' only for a family that is alive, and a reason
that clears the cookies for one that is not. -/
def Sound (s : Server) (f : FamilyId) (o : RefreshOutcome) : Prop :=
  (o = .rejected .raced → Alive s f) ∧
  (¬ Alive s f → ∃ reason, o = .rejected reason ∧ terminal reason = true)

/-- The family was ended (a logout, a reuse detection, a purge) before the step that decides the
answer, and that step cannot tell: either the row read was revoked less than 30 s ago, or the
deadlines were tested before the end. -/
def EndedUnseen (s : Server) (k : Choice) : Call → Prop
  | .rotateTest _ stored => Ended s stored.familyId ∧
      ∃ t, stored.revokedAt = some t ∧ k.now - t < RACE_WINDOW_MS
  | .rotateClaim _ stored _ => Ended s stored.familyId
  | _ => False

theorem alive_iff_not_ended (hi : Inv cfg s) {f : FamilyId} (ho : Opened s f) :
    Alive s f ↔ ¬ Ended s f :=
  ⟨fun ha he => hi.families.ended f he ha, (hi.families.alive f ho).resolve_left⟩

theorem sound_of_terminal {f : FamilyId} {reason : RefreshRejection} (h : terminal reason = true) :
    Sound s f (.rejected reason) := by
  refine ⟨fun e => ?_, fun _ => ⟨reason, rfl, h⟩⟩
  cases e
  cases h

theorem sound_raced_iff (hi : Inv cfg s) {f : FamilyId} (ho : Opened s f) :
    Sound s f (.rejected .raced) ↔ ¬ Ended s f := by
  rw [← alive_iff_not_ended hi ho]
  exact ⟨fun h => h.1 rfl, fun h => ⟨fun _ => h, fun hn => absurd h hn⟩⟩

/-- What the transaction of a rotation answers, against the state it leaves. -/
theorem claim_sound_iff {token token' : Token} {stored : Row} {f : FamilyId} {o : RefreshOutcome}
    {p : Server × Call} (hi : Inv cfg s) (hk : Known cfg s token stored)
    (hp : claimAndAppend cfg k s token stored = p) (hi' : Inv cfg (p.1.tick k))
    (ho : p.2 = .rotated token' o) (hf : OfFamily cfg (p.1.tick k) token' f) :
    Sound (p.1.tick k) f o ↔ ¬ Ended s stored.familyId := by
  rcases claimAndAppend_cases (k := k) hi hk with ⟨hcl, -⟩ | ⟨r, hr, -, h0, hb, hcl⟩
  · rw [hcl] at hp
    subst hp
    cases ho
    have hff : f = stored.familyId := hf.unique hi' (hk.ofFamily.mono fun _ h => h)
    subst hff
    exact sound_raced_iff hi' (hf.opened hi')
  · rw [hcl] at hp
    subst hp
    cases ho
    have hff : f = stored.familyId := hf.unique hi'
      (hk.ofFamily.mono fun e he => append_log _ _ _ e (revokeWhere_log _ _ e he))
    have hrf : r.familyId = stored.familyId := by rw [← base_familyId r, hb, base_familyId]
    have halive : Alive s stored.familyId := ⟨r, hr, hrf, h0⟩
    have hnew : Alive ((((s.revokeWhere (claimable r.tokenHash) k.now).append cfg k
        r.lawyerId r.familyId r.expiresAt)).tick k) f :=
      ⟨appended cfg k r.lawyerId r.familyId r.expiresAt,
        mem_append_rows.2 (.inr rfl), hrf.trans hff.symm, rfl⟩
    refine iff_of_true ⟨(fun e => by cases e), fun hn => absurd hnew hn⟩ fun hE => ?_
    exact hi.families.ended _ hE halive

/-- **'raced' means a live session exactly when no end of the family went unseen**, at every step
of every run that answers a rotation. -/
theorem raced_sound_iff (cfg : Config) (w w' : World Server Call) (i : Nat) (k : Choice) (c : Call)
    (token : Token) (f : FamilyId) (o : RefreshOutcome) (h : Reachable cfg w)
    (hc : w.calls[i]? = some c) (hn : (machine cfg).next w (.run i k) = some w')
    (ha : w'.calls[i]? = some (.rotated token o)) (hf : OfFamily cfg w'.shared token f) :
    Sound w'.shared f o ↔ ¬ EndedUnseen w.shared k c := by
  have hw := h.holds
  have hw' := (outline cfg).next hw (fun _ _ _ _ _ => trivial) hn
  have ho := hf.opened hw'.1
  obtain ⟨c', s, hc', he, rfl⟩ := next_run_cases hn ha
  obtain rfl : c' = c := Option.some.inj (hc'.symm.trans hc)
  replace he : exec cfg k w.shared c' = some (s, .rotated token o) := he
  have hJ := hw.call hc
  cases c' with
  | rotate t =>
    simp only [exec] at he
    split at he <;> cases he
    exact iff_of_true (sound_of_terminal rfl) id
  | rotateTest t stored =>
    simp only [exec, Option.some.injEq, Prod.mk.injEq] at he
    obtain ⟨rfl, he⟩ := he
    unfold afterRead at he
    split at he
    · next t' h0 =>
      split at he
      · next hlt =>
        cases he
        have hff : f = stored.familyId := hf.unique hw'.1 (hJ.ofFamily.mono fun _ h => h)
        subst hff
        rw [sound_raced_iff hw'.1 ho]
        exact not_congr ⟨fun hE => ⟨hE, t', h0, hlt⟩, fun hE => hE.1⟩
      · cases he
    · next h0 =>
      split at he <;> cases he
      refine iff_of_true (sound_of_terminal rfl) ?_
      rintro ⟨-, t', h1, -⟩
      rw [h0] at h1
      cases h1
  | rotateReuse t stored =>
    cases he
    exact iff_of_true (sound_of_terminal rfl) id
  | rotateClaim t stored now =>
    simp only [exec, Option.ite_none_right_eq_some, Option.some.injEq, Prod.mk.injEq] at he
    obtain ⟨-, rfl, he⟩ := he
    exact claim_sound_iff hw.1 hJ.1 rfl hw'.1 he hf
  | issue l =>
    simp only [exec, Option.ite_none_right_eq_some, Option.some.injEq, Prod.mk.injEq] at he
    exact absurd he.2.2 (by simp)
  | revokeFamilyOf t => simp only [exec] at he; split at he <;> cases he
  | revokeFamilyFound t stored => cases he
  | purgeExpired l => cases he
  | _ => simp [exec] at he

/-- The rotation of `A` in `loginAndRotate`, answered by its transaction: nothing ended the family. -/
theorem raced_sound_iff_loginAndRotate :
    Sound (played loginAndRotate).shared (js "family")
      (.rotated (js "B") (js "alice") 604800000) ↔
    ¬ EndedUnseen (played (loginAndRotate.take 5)).shared ⟨1001, js "B", js "family"⟩
      (.rotateClaim (js "A") rowA 1000) :=
  raced_sound_iff sevenDays (played (loginAndRotate.take 5)) (played loginAndRotate) 1
    ⟨1001, js "B", js "family"⟩ _ (js "A") (js "family") _ (reachable_played (by decide)).reachable
    (by decide) (by rfl) (by decide) ⟨rowA, by decide, by decide, by decide⟩

/-- Alice logs out and her last token is presented four seconds later: the answer is 'raced', the
cookies are kept, and her family has no unrevoked row. -/
def afterLogout : List (Act Call Choice) :=
  thenLogout ++ [.call (.rotate (js "B")), at' 3 9000 "", at' 3 9000 ""]

theorem raced_after_logout :
    ReachableInTime sevenDays (played afterLogout) ∧
    (played afterLogout).calls[3]? = some (.rotated (js "B") (.rejected .raced)) ∧
    OfFamily sevenDays (played afterLogout).shared (js "B") (js "family") ∧
    ¬ Alive (played afterLogout).shared (js "family") ∧ terminal .raced = false :=
  ⟨reachable_played (by decide), by decide, ⟨rowB, by decide, by decide, by decide⟩,
    by unfold Alive; decide, rfl⟩

/-! ## The two deadlines -/

/-- The rows of a family. -/
def rowsOf (s : Server) (f : FamilyId) : List Row := s.refreshToken.filter (·.familyId == f)

/-- The step is one of call `i` made before the deadline, or leaves the family's rows alone. -/
def Undisturbed (cfg : Config) (i : Nat) (f : FamilyId) (deadline : Int) (w : World Server Call)
    (a : Act Call Choice) : Prop :=
  (∃ k, a = .run i k ∧ k.now < deadline) ∨
  ((∀ k, a ≠ .run i k) ∧
    ∀ w', (machine cfg).next w a = some w' → rowsOf w'.shared f = rowsOf w.shared f)

/-- How far a rotation of the unrevoked row `r` has come. -/
def OnTrack (token : Token) (r : Row) (v : World Server Call) : Call → Prop
  | .rotate t => t = token ∧ r ∈ v.shared.refreshToken
  | .rotateTest t stored => t = token ∧ stored = r ∧ r ∈ v.shared.refreshToken
  | .rotateClaim t stored _ => t = token ∧ stored = r ∧ r ∈ v.shared.refreshToken
  | .rotated t (.rotated _ l e) => t = token ∧ l = r.lawyerId ∧ e = r.expiresAt
  | _ => False

theorem mem_of_rowsOf {r : Row} (h : rowsOf s' r.familyId = rowsOf s r.familyId)
    (hr : r ∈ s.refreshToken) : r ∈ s'.refreshToken := by
  have : r ∈ rowsOf s' r.familyId := by
    rw [h]
    exact List.mem_filter.2 ⟨hr, by simp⟩
  exact List.mem_of_mem_filter this

theorem OnTrack.mono {token : Token} {r : Row} {c : Call} {v v' : World Server Call}
    (h : OnTrack token r v c)
    (hr : r ∈ v.shared.refreshToken → r ∈ v'.shared.refreshToken) : OnTrack token r v' c := by
  cases c with
  | rotate t => exact ⟨h.1, hr h.2⟩
  | rotateTest t stored => exact ⟨h.1, h.2.1, hr h.2.2⟩
  | rotateClaim t stored now => exact ⟨h.1, h.2.1, hr h.2.2⟩
  | rotated t o => cases o <;> exact h
  | _ => exact h

/-- Before both deadlines every test of a rotation of `r` passes and its claim finds `r`. -/
theorem OnTrack.own {token : Token} {r : Row} {c c' : Call} {v : World Server Call} {i : Nat}
    (hi : Inv cfg v.shared) (ha : Asserts cfg v.shared c)
    (hh : r.tokenHash = cfg.hashPublicToken token) (h0 : r.revokedAt = none)
    (hk : k.now < r.expiresAt ∧ k.now < r.idleExpiresAt) (h : OnTrack token r v c)
    (he : exec cfg k v.shared c = some (s, c')) : OnTrack token r ⟨s, v.calls.set i c'⟩ c' := by
  cases c with
  | rotate t =>
    obtain ⟨rfl, hr⟩ := h
    have hfu : v.shared.findUnique (cfg.hashPublicToken t) = some r := hh ▸ hi.kept.findUnique hr
    simp only [exec, hfu, Option.some.injEq, Prod.mk.injEq] at he
    obtain ⟨rfl, rfl⟩ := he
    exact ⟨rfl, rfl, hr⟩
  | rotateTest t stored =>
    obtain ⟨rfl, rfl, hr⟩ := h
    have hd : ¬ (stored.expiresAt ≤ k.now ∨ stored.idleExpiresAt ≤ k.now) := by omega
    simp only [exec, afterRead, h0, hd, if_false, Option.some.injEq, Prod.mk.injEq] at he
    obtain ⟨rfl, rfl⟩ := he
    exact ⟨rfl, rfl, hr⟩
  | rotateClaim t stored now =>
    obtain ⟨rfl, rfl, hr⟩ := h
    simp only [exec, Option.ite_none_right_eq_some, Option.some.injEq, Prod.mk.injEq] at he
    obtain ⟨-, rfl, rfl⟩ := he
    rcases claimAndAppend_cases (k := k) hi ha.1 with ⟨-, hno⟩ | ⟨_, _, _, _, _, hc⟩
    · exact absurd h0 (hno stored hr hh)
    · rw [hc]; exact ⟨rfl, rfl, rfl⟩
  | rotated t o => simp [exec] at he
  | _ => exact h.elim

/-- A rotation on track is answered, or its next step is possible with any fresh token. -/
theorem OnTrack.progress {token : Token} {r : Row} {c : Call} {v : World Server Call}
    (h : OnTrack token r v c) : (∃ t, c = .rotated token (.rotated t r.lawyerId r.expiresAt)) ∨
      ∀ k, v.shared.freshToken cfg k.token = true → ∃ p, exec cfg k v.shared c = some p := by
  cases c with
  | rotate t =>
    refine Or.inr fun k _ => ?_
    simp only [exec]
    split <;> exact ⟨_, rfl⟩
  | rotateTest t stored => exact Or.inr fun k _ => ⟨_, rfl⟩
  | rotateClaim t stored now => exact Or.inr fun k hf => ⟨_, if_pos hf⟩
  | rotated t o =>
    cases o with
    | rotated t' l e =>
      obtain ⟨rfl, rfl, rfl⟩ := h
      exact Or.inl ⟨t', rfl⟩
    | rejected reason => exact h.elim
  | _ => exact h.elim

/-- A row of a family carries the lawyer of its login and ends `SESSION_EXPIRES` after it. -/
theorem login_ceiling (hi : Inv cfg s) {a : Row} (ha : .inserted a ∈ s.log) {l : LawyerId} {t : Int}
    (hl : .login a.familyId l t ∈ s.log) :
    a.expiresAt = t + cfg.SESSION_EXPIRES ∧ a.lawyerId = l := by
  obtain ⟨h1, h2⟩ := hi.kept.logins _ _ _ _ _ hl (hi.kept.login a ha)
  exact ⟨by omega, h1.symm⟩

/-- A rotation of `r` stays on track while its own steps are made before both deadlines and nobody
else touches the rows of the family. -/
theorem OnTrack.run {token : Token} {r : Row} {i : Nat} {deadline : Int}
    (hw : Holds (Inv cfg) (Asserts cfg) w) (hc : w.calls[i]? = some (.rotate token))
    (hr : r ∈ w.shared.refreshToken) (hh : r.tokenHash = cfg.hashPublicToken token)
    (h0 : r.revokedAt = none) (hd : deadline ≤ r.expiresAt ∧ deadline ≤ r.idleExpiresAt)
    (h : (machine cfg).Reaches (fun v a => clockForward v a ∧
      Undisturbed cfg i r.familyId deadline v a) w w') :
    ∃ c, w'.calls[i]? = some c ∧ OnTrack token r w' c := by
  refine h.track (P := OnTrack token r) hc ⟨rfl, hr⟩ ?_ ?_
  · rintro v k c s c' hrv ⟨-, hU⟩ hcv hP hx
    have hv := holds_of_reaches hrv hw
    obtain ⟨k', e, hk⟩ | ⟨hne, -⟩ := hU
    · cases e
      exact hP.own hv.1 (hv.call hcv) hh h0 ⟨by omega, by omega⟩ hx
    · exact absurd rfl (hne k)
  · rintro v a v' c - ⟨-, hU⟩ hne - hP hx
    obtain ⟨k', rfl, -⟩ | ⟨-, hrows⟩ := hU
    · exact absurd rfl (hne k')
    · exact hP.mono (mem_of_rowsOf (hrows v' hx))

/-- **Both deadlines hold over whole chains.** Under a clock that never goes back:
* every row carries the lawyer of its family's login and ends `SESSION_EXPIRES` after that login;
* a rotation is answered 'rotated' only if its tests were made, at the `now` its frame keeps,
  strictly before the ceiling and strictly less than `SESSION_IDLE_EXPIRES` after the insertion of
  the token it consumes;
* a rotation of an unrevoked token whose own steps are all made before both deadlines, while
  nobody else touches the family's rows, is answered 'rotated' as soon as it is answered, and it
  can always take its next step. -/
theorem session_deadlines (cfg : Config) (w : World Server Call) (h : ReachableInTime cfg w) :
    (∀ r ∈ w.shared.refreshToken, Opened w.shared r.familyId ∧
      ∀ l t, .login r.familyId l t ∈ w.shared.log →
        r.expiresAt = t + cfg.SESSION_EXPIRES ∧ r.lawyerId = l) ∧
    (∀ i k w' c token, w.calls[i]? = some c → (machine cfg).next w (.run i k) = some w' →
      AnsweredRotated w' i token → ∃ stored now a, c = .rotateClaim token stored now ∧
        .inserted a ∈ w.shared.log ∧ a.tokenHash = cfg.hashPublicToken token ∧
        (∀ l t, .login a.familyId l t ∈ w.shared.log → now < t + cfg.SESSION_EXPIRES) ∧
        now < a.createdAt + cfg.SESSION_IDLE_EXPIRES) ∧
    (∀ i token r l t deadline w', w.calls[i]? = some (.rotate token) → r ∈ w.shared.refreshToken →
      r.tokenHash = cfg.hashPublicToken token → r.revokedAt = none →
      .login r.familyId l t ∈ w.shared.log → deadline ≤ t + cfg.SESSION_EXPIRES →
      deadline ≤ r.createdAt + cfg.SESSION_IDLE_EXPIRES →
      (machine cfg).Reaches (fun v a => clockForward v a ∧
        Undisturbed cfg i r.familyId deadline v a) w w' →
      (∃ succ, w'.calls[i]? = some (.rotated token (.rotated succ r.lawyerId r.expiresAt))) ∨
      ∀ k, w'.shared.freshToken cfg k.token = true →
        ∃ w'', (machine cfg).next w' (.run i k) = some w'') := by
  have hw := h.reachable.holds
  refine ⟨fun r hr => ⟨hw.1.kept.opened hr, fun l t => login_ceiling hw.1 (hw.1.kept.origin r hr)⟩,
    ?_, ?_⟩
  · intro i k w' c token hc hn hans
    obtain ⟨c', hc', hr⟩ := answeredRotated_iff.1 hans
    obtain ⟨c₀, s, hc₀, he, rfl⟩ := next_run_cases hn hc'
    obtain rfl : c₀ = c := Option.some.inj (hc₀.symm.trans hc)
    obtain ⟨stored, now, r, rfl, hk, h1, h2, -⟩ := rotated_of_exec hw.1 (hw.call hc) he hr
    refine ⟨stored, now, stored.base, rfl, hk.inserted, hk.hash, fun l t hl => ?_, ?_⟩
    · have := (login_ceiling hw.1 hk.inserted hl).1
      simp only [base_expiresAt] at this
      omega
    · have := hw.1.kept.idle stored.base hk.inserted
      simp only [base_idleExpiresAt] at this
      omega
  · intro i token r l t deadline w' hc hr hh h0 hl hd1 hd2 hreach
    have he := (login_ceiling hw.1 (hw.1.kept.origin r hr) hl).1
    have hidle := hw.1.kept.idle r.base (hw.1.kept.origin r hr)
    simp only [base_expiresAt, base_idleExpiresAt, base_createdAt] at he hidle
    obtain ⟨c, hc', hT⟩ := OnTrack.run hw hc hr hh h0 ⟨by omega, by omega⟩ hreach
    rcases hT.progress with ⟨succ, rfl⟩ | hp
    · exact Or.inl ⟨succ, hc'⟩
    · refine Or.inr fun k hf => ?_
      obtain ⟨⟨s, c₁⟩, hx⟩ := hp k hf
      exact ⟨_, next_run hc' hx⟩

/-- Alice's second token is presented two days in. -/
def beforeRenewal : List (Act Call Choice) := loginAndRotate ++ [.call (.rotate (js "B"))]

def renewal : List (Act Call Choice) :=
  [at' 2 172800000 "", at' 2 172800000 "", at' 2 172800001 "C"]

/-- A step of call 2 before the idle deadline of `rowB`. -/
def ownInTime (w : World Server Call) (a : Act Call Choice) : Bool :=
  noClockBack w a && match a with
    | .run 2 k => decide (k.now < 259201001)
    | _ => false

theorem undisturbed_of_ownInTime {v : World Server Call} {a : Act Call Choice}
    (h : ownInTime v a = true) :
    clockForward v a ∧ Undisturbed sevenDays 2 (js "family") 259201001 v a := by
  unfold ownInTime at h
  rw [Bool.and_eq_true] at h
  refine ⟨of_decide_eq_true h.1, Or.inl ?_⟩
  have h2 := h.2
  split at h2
  · exact ⟨_, rfl, of_decide_eq_true h2⟩
  · cases h2

theorem session_deadlines_renewal :
    (∃ succ, (played (beforeRenewal ++ renewal)).calls[2]? =
      some (.rotated (js "B") (.rotated succ (js "alice") 604800000))) ∨
    ∀ k, (played (beforeRenewal ++ renewal)).shared.freshToken sevenDays k.token = true →
      ∃ w'', (machine sevenDays).next (played (beforeRenewal ++ renewal)) (.run 2 k) = some w'' := by
  have hr : (machine sevenDays).Reaches
      (fun v a => clockForward v a ∧ Undisturbed sevenDays 2 (js "family") 259201001 v a)
      (played beforeRenewal) (played (beforeRenewal ++ renewal)) :=
    (reaches_of_play (by rfl : (machine sevenDays).play ownInTime (played beforeRenewal) renewal =
      some _)).weaken
      fun _ _ => undisturbed_of_ownInTime
  exact (session_deadlines sevenDays (played beforeRenewal) (reachable_played (by decide))).2.2 2
    (js "B") rowB (js "alice") 0 259201001 _ (by decide) (by decide) rfl rfl (by decide)
    (by decide) (by decide) hr

end DepositPortal.RefreshToken
