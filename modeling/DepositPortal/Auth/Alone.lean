import DepositPortal.Auth.Rotation

/-!
# A rotation that runs alone

`rotate` (the sequential translation) and the machine's `Call`s are two readings of the same
source: with nobody between its statements, a call of the machine computes `rotate`
(`rotate_eq_drive`). `accepts` is what "rotate would accept this token now" means everywhere else.
-/
namespace DepositPortal.RefreshToken
open Interleave

variable {cfg : Config} {s s' : Server} {fails : Option Callee}

/-! ## The sequential monad -/

theorem bind_apply {α β : Type} (x : Service α) (g : α → Service β) (s : Server) :
    (x >>= g) s = match x s with
      | (.ok a, s') => g a s'
      | (.error e, s') => (.error e, s') := by
  simp only [bind, ExceptT.bind, ExceptT.mk, StateT.bind]
  rcases x s with ⟨a | a, s'⟩ <;> rfl

theorem pure_apply {α : Type} (a : α) (s : Server) : (pure a : Service α) s = (.ok a, s) := rfl

theorem call_apply {α : Type} (c : Callee) (act : Server → α × Server) (s : Server) :
    call fails c act s = if fails = some c then (.error c, s) else (.ok (act s).1, (act s).2) := rfl

theorem bind_call {α β : Type} (c : Callee) (act : Server → α × Server) (g : α → Service β)
    (s : Server) :
    (call fails c act >>= g) s = if fails = some c then (.error c, s) else g (act s).1 (act s).2 := by
  rw [bind_apply, call_apply]
  by_cases h : fails = some c <;> simp [h]

theorem transaction_apply {α : Type} (body : Service α) (s : Server) :
    transaction body s = match body s with
      | (.ok a, s') => (.ok a, s')
      | (.error e, _) => (.error e, s) := rfl

/-! ## `rotate`, branch by branch -/

section
variable {test write : Choice} {token : Token} {stored : Row}

theorem rotate_lookup_fails : rotate cfg (some .findUnique) test write token s =
    (.error .findUnique, s) := by
  simp [rotate, bind_call]

theorem rotate_unknown (hf : fails ≠ some .findUnique)
    (h : s.findUnique (cfg.hashPublicToken token) = none) :
    rotate cfg fails test write token s = (.ok (.rejected .unknown), s) := by
  simp [rotate, bind_call, hf, h, pure_apply]

theorem rotate_raced (hf : fails ≠ some .findUnique)
    (h : s.findUnique (cfg.hashPublicToken token) = some stored) {t : Int}
    (h0 : stored.revokedAt = some t) (ht : test.now - t < RACE_WINDOW_MS) :
    rotate cfg fails test write token s = (.ok (.rejected .raced), s) := by
  simp [rotate, bind_call, hf, h, h0, ht, pure_apply]

theorem rotate_reused (hf : fails ≠ some .findUnique)
    (h : s.findUnique (cfg.hashPublicToken token) = some stored) {t : Int}
    (h0 : stored.revokedAt = some t) (ht : ¬ test.now - t < RACE_WINDOW_MS) :
    rotate cfg fails test write token s =
      if fails = some .revokeFamily then (.error .revokeFamily, s)
      else (.ok (.rejected .reused), s.revokeFamily stored.familyId write.now) := by
  simp only [rotate, bind_call, hf, h, h0, ht, if_false, pure_apply]

theorem rotate_expired (hf : fails ≠ some .findUnique)
    (h : s.findUnique (cfg.hashPublicToken token) = some stored) (h0 : stored.revokedAt = none)
    (hd : stored.expiresAt ≤ test.now ∨ stored.idleExpiresAt ≤ test.now) :
    rotate cfg fails test write token s = (.ok (.rejected .expired), s) := by
  simp [rotate, bind_call, hf, h, h0, hd, pure_apply]

theorem claim_pos (h : s.findUnique (cfg.hashPublicToken token) = some stored)
    (h0 : stored.revokedAt = none) :
    s.refreshToken.countP (claimable (cfg.hashPublicToken token)) ≠ 0 := by
  obtain ⟨hm, hh⟩ := findUnique_some h
  rw [Ne, List.countP_eq_zero]
  exact fun hn => hn stored hm (claimable_iff.2 ⟨hh, h0⟩)

/-- Past the tests: the transaction, all or nothing. -/
theorem rotate_claims (hf : fails ≠ some .findUnique)
    (h : s.findUnique (cfg.hashPublicToken token) = some stored) (h0 : stored.revokedAt = none)
    (hd : ¬ (stored.expiresAt ≤ test.now ∨ stored.idleExpiresAt ≤ test.now)) :
    rotate cfg fails test write token s =
      if fails = some .claim then (.error .claim, s)
      else if fails = some .create then (.error .create, s)
      else (.ok (.rotated write.token stored.lawyerId stored.expiresAt),
        (s.claim (cfg.hashPublicToken token) write.now).2.append cfg write stored.lawyerId
          stored.familyId stored.expiresAt) := by
  have hc := claim_pos h h0
  simp only [rotate, bind_call, hf, if_false, h, h0, hd]
  rw [bind_apply, transaction_apply, bind_call]
  by_cases h1 : fails = some .claim
  · simp [h1]
  · by_cases h2 : fails = some .create
    · simp [h2, Server.claim, hc, bind_call]
    · simp [h1, h2, Server.claim, hc, bind_call, pure_apply]

end

/-! ## The machine, alone -/

/-- A call that steps with nobody in between, one choice a step, until it is over. -/
def drive (cfg : Config) : List Choice → Server × Call → Server × Call
  | [], p => p
  | k :: ks, p =>
    match exec cfg k p.1 p.2 with
    | some p' => drive cfg ks p'
    | none => p

/-- **The machine's `rotate` is `rotate`.** Alone, a call of the machine answers what the
sequential translation answers and leaves the same table and log. -/
theorem rotate_eq_drive (read test write : Choice) (token : Token)
    (hfresh : s.freshToken cfg write.token = true) :
    ∃ o s₁ c, rotate cfg none test write token s = (.ok o, s₁) ∧
      drive cfg [read, test, write] (s, .rotate token) = ({ s₁ with clock := c }, .rotated token o) := by
  cases h : s.findUnique (cfg.hashPublicToken token) with
  | none =>
    refine ⟨_, _, read.now, rotate_unknown (by simp) h, ?_⟩
    simp only [drive, exec, h]
    rfl
  | some stored =>
    cases h0 : stored.revokedAt with
    | some t =>
      by_cases ht : test.now - t < RACE_WINDOW_MS
      · refine ⟨_, _, test.now, rotate_raced (by simp) h h0 ht, ?_⟩
        simp only [drive, exec, h, afterRead, h0, ht, if_true]
        rfl
      · refine ⟨_, _, write.now, (rotate_reused (by simp) h h0 ht).trans (if_neg (by simp)), ?_⟩
        simp only [drive, exec, h, afterRead, h0, ht, if_false]
        rfl
    | none =>
      by_cases hd : stored.expiresAt ≤ test.now ∨ stored.idleExpiresAt ≤ test.now
      · refine ⟨_, _, test.now, rotate_expired (by simp) h h0 hd, ?_⟩
        simp only [drive, exec, h, afterRead, h0, hd, if_true]
        rfl
      · refine ⟨_, _, write.now, (rotate_claims (by simp) h h0 hd).trans
          ((if_neg (by simp)).trans (if_neg (by simp))), ?_⟩
        have hf' : Server.freshToken cfg ⟨s.refreshToken, s.log, test.now⟩ write.token = true :=
          hfresh
        simp only [drive, exec, h, afterRead, h0, hd, if_false, claimAndAppend, Server.claim,
          Server.tick, claim_pos h h0, hf', if_true]
        rfl

/-! ## Acceptance -/

/-- `rotate`, run alone at that instant, would answer 'rotated'. -/
def accepts (cfg : Config) (s : Server) (token : Token) (now : Int) : Bool :=
  match (rotate cfg none ⟨now, [], []⟩ ⟨now, [], []⟩ token s).1 with
  | .ok (.rotated _ _ _) => true
  | _ => false

theorem accepts_iff_stored {token : Token} {now : Int} : accepts cfg s token now = true ↔
    ∃ stored, s.findUnique (cfg.hashPublicToken token) = some stored ∧ stored.revokedAt = none ∧
      now < stored.expiresAt ∧ now < stored.idleExpiresAt := by
  unfold accepts
  obtain ⟨k, hk⟩ : ∃ k : Choice, k = ⟨now, [], []⟩ := ⟨_, rfl⟩
  have hn : now = k.now := by rw [hk]
  rw [← hk]
  clear hk
  subst hn
  cases h : s.findUnique (cfg.hashPublicToken token) with
  | none => simp [rotate_unknown _ h]
  | some stored =>
    cases h0 : stored.revokedAt with
    | some t =>
      by_cases ht : k.now - t < RACE_WINDOW_MS
      · simp [rotate_raced _ h h0 ht, h0]
      · simp [rotate_reused _ h h0 ht, h0]
    | none =>
      by_cases hd : stored.expiresAt ≤ k.now ∨ stored.idleExpiresAt ≤ k.now
      · simp only [rotate_expired _ h h0 hd, ne_eq, reduceCtorEq, not_false_eq_true]
        simp [h0]; omega
      · simp only [rotate_claims _ h h0 hd, ne_eq, reduceCtorEq, not_false_eq_true, if_false]
        simp [h0]; omega

theorem accepts_iff (hi : Inv cfg s) {token : Token} {now : Int} : accepts cfg s token now = true ↔
    ∃ r ∈ s.refreshToken, r.tokenHash = cfg.hashPublicToken token ∧ r.revokedAt = none ∧
      now < r.expiresAt ∧ now < r.idleExpiresAt := by
  rw [accepts_iff_stored]
  constructor
  · rintro ⟨r, hr, h⟩
    obtain ⟨hm, hh⟩ := findUnique_some hr
    exact ⟨r, hm, hh, h⟩
  · rintro ⟨r, hm, hh, h⟩
    exact ⟨r, hh ▸ hi.kept.findUnique hm, h⟩

end DepositPortal.RefreshToken
