import DepositPortal.Auth.Family

/-!
# Rotation under interleaving

The proof outline of the machine: the invariants of `Family.lean` hold between any two statements,
and every call knows what its next statement needs (`Asserts`), whatever the others did since its
last one. Everything about a family over a whole run follows from it, because a closed family can
never have an unrevoked row again.
-/
namespace DepositPortal.RefreshToken
open Interleave

variable {cfg : Config} {s s' : Server} {k : Choice} {f f' : Call} {w w' : World Server Call}

/-- The token was issued into the family. -/
def OfFamily (cfg : Config) (s : Server) (token : Token) (f : FamilyId) : Prop :=
  ∃ a, .inserted a ∈ s.log ∧ a.tokenHash = cfg.hashPublicToken token ∧ a.familyId = f

/-- Call `i` has been answered 'rotated' for the token. -/
def AnsweredRotated (w : World Server Call) (i : Nat) (token : Token) : Prop :=
  ∃ t l e, w.calls[i]? = some (.rotated token (.rotated t l e))

/-- The row a call read is still the row of its token, up to `revokedAt`. -/
structure Known (cfg : Config) (s : Server) (token : Token) (stored : Row) : Prop where
  hash : stored.tokenHash = cfg.hashPublicToken token
  inserted : .inserted stored.base ∈ s.log
  revoked : ∀ t, stored.revokedAt = some t → .revoked stored.tokenHash t ∈ s.log

/-- What a call relies on between two of its statements. -/
def Asserts (cfg : Config) (s : Server) : Call → Prop
  | .rotateTest token stored => Known cfg s token stored
  | .rotateReuse token stored => Known cfg s token stored
  | .rotateClaim token stored now => Known cfg s token stored ∧ stored.revokedAt = none ∧
      now < stored.expiresAt ∧ now < stored.idleExpiresAt
  | .rotated token (.rotated _ _ _) => ∃ t, .revoked (cfg.hashPublicToken token) t ∈ s.log
  | .rotated token (.rejected .reused) => ∃ f, OfFamily cfg s token f ∧ .closed f ∈ s.log
  | .revokeFamilyFound token stored => Known cfg s token stored
  | _ => True

theorem OfFamily.mono {token : Token} {f : FamilyId} (h : OfFamily cfg s token f)
    (hl : ∀ e ∈ s.log, e ∈ s'.log) : OfFamily cfg s' token f := by
  obtain ⟨a, ha, hf⟩ := h
  exact ⟨a, hl _ ha, hf⟩

theorem Known.mono {token : Token} {stored : Row} (h : Known cfg s token stored)
    (hl : ∀ e ∈ s.log, e ∈ s'.log) : Known cfg s' token stored :=
  ⟨h.hash, hl _ h.inserted, fun t ht => hl _ (h.revoked t ht)⟩

/-- Assertions speak of the log only, and the log only grows. -/
theorem Asserts.mono (h : Asserts cfg s f) (hl : ∀ e ∈ s.log, e ∈ s'.log) : Asserts cfg s' f := by
  cases f with
  | rotateTest token stored => exact h.mono hl
  | rotateReuse token stored => exact h.mono hl
  | rotateClaim token stored now => exact ⟨h.1.mono hl, h.2⟩
  | revokeFamilyFound token stored => exact h.mono hl
  | rotated token o =>
    cases o with
    | rotated t l e =>
      obtain ⟨t, ht⟩ := h
      exact ⟨t, hl _ ht⟩
    | rejected r =>
      cases r with
      | reused =>
        obtain ⟨f, hf, hc⟩ := h
        exact ⟨f, hf.mono hl, hl _ hc⟩
      | _ => trivial
  | _ => trivial

theorem Known.opened (hi : Inv cfg s) {token : Token} {stored : Row}
    (h : Known cfg s token stored) : Opened s stored.familyId :=
  ⟨_, _, hi.kept.login stored.base h.inserted⟩

theorem Known.ofFamily {token : Token} {stored : Row} (h : Known cfg s token stored) :
    OfFamily cfg s token stored.familyId :=
  ⟨stored.base, h.inserted, h.hash, rfl⟩

theorem OfFamily.opened (hi : Inv cfg s) {token : Token} {f : FamilyId}
    (h : OfFamily cfg s token f) : Opened s f := by
  obtain ⟨a, ha, -, rfl⟩ := h
  exact ⟨_, _, hi.kept.login a ha⟩

theorem OfFamily.unique (hi : Inv cfg s) {token : Token} {f f' : FamilyId}
    (h : OfFamily cfg s token f) (h' : OfFamily cfg s token f') : f = f' := by
  obtain ⟨a, ha, hh, rfl⟩ := h
  obtain ⟨b, hb, hh', rfl⟩ := h'
  rw [hi.kept.once a b ha hb (hh.trans hh'.symm)]

/-- A row read now is known. -/
theorem known_of_read (hi : Inv cfg s) {token : Token} {r : Row}
    (h : s.findUnique (cfg.hashPublicToken token) = some r) : Known cfg s token r := by
  obtain ⟨hr, hh⟩ := findUnique_some h
  exact ⟨hh, hi.kept.origin r hr, fun t ht => (hi.kept.revoked r hr t).1 ht⟩

/-- The row of a known token, if it is still in the table, is the one that was read, up to
`revokedAt`. -/
theorem Known.row (hi : Inv cfg s) {token : Token} {stored r : Row}
    (h : Known cfg s token stored) (hr : r ∈ s.refreshToken)
    (hh : r.tokenHash = cfg.hashPublicToken token) : r.base = stored.base :=
  hi.kept.row_of hr h.inserted (hh.trans h.hash.symm)

/-! ## What the transaction does -/

/-- `claimAndAppend` answers 'raced' when no row of the token is unrevoked any more, and otherwise
revokes the row and appends its successor to the family. -/
theorem claimAndAppend_cases (hi : Inv cfg s) {token : Token} {stored : Row}
    (h : Known cfg s token stored) :
    (claimAndAppend cfg k s token stored = (s, .rotated token (.rejected .raced)) ∧
      ∀ r ∈ s.refreshToken, r.tokenHash = cfg.hashPublicToken token → r.revokedAt ≠ none) ∨
    (∃ r ∈ s.refreshToken, r.tokenHash = cfg.hashPublicToken token ∧ r.revokedAt = none ∧
      r.base = stored.base ∧ claimAndAppend cfg k s token stored =
        ((s.revokeWhere (claimable r.tokenHash) k.now).append cfg k r.lawyerId r.familyId
          r.expiresAt, .rotated token (.rotated k.token stored.lawyerId stored.expiresAt))) := by
  by_cases hc : s.refreshToken.countP (claimable (cfg.hashPublicToken token)) = 0
  · refine Or.inl ⟨by simp [claimAndAppend, Server.claim, hc], fun r hr hh h0 => ?_⟩
    rw [List.countP_eq_zero] at hc
    exact hc r hr (claimable_iff.2 ⟨hh, h0⟩)
  · obtain ⟨r, hr, hp⟩ := List.countP_pos_iff.1 (Nat.pos_of_ne_zero hc)
    obtain ⟨hh, h0⟩ := claimable_iff.1 hp
    have hb := h.row hi hr hh
    refine Or.inr ⟨r, hr, hh, h0, hb, ?_⟩
    have e1 : r.lawyerId = stored.lawyerId := by
      rw [← base_lawyerId r, hb, base_lawyerId]
    have e2 : r.familyId = stored.familyId := by
      rw [← base_familyId r, hb, base_familyId]
    have e3 : r.expiresAt = stored.expiresAt := by
      rw [← base_expiresAt r, hb, base_expiresAt]
    simp [claimAndAppend, Server.claim, hc, hh, e1, e2, e3]

theorem revokeWhere_log (p : Row → Bool) (now : Int) : ∀ e ∈ s.log, e ∈ (s.revokeWhere p now).log :=
  fun _ he => List.mem_append_left _ he

theorem append_log (l : LawyerId) (f : FamilyId) (e : Int) :
    ∀ x ∈ s.log, x ∈ (s.append cfg k l f e).log :=
  fun _ hx => List.mem_append_left _ hx

theorem revokeFamily_log (f : FamilyId) (now : Int) : ∀ e ∈ s.log, e ∈ (s.revokeFamily f now).log :=
  fun e he => List.mem_append_left _ (revokeWhere_log _ _ e he)

/-- No statement forgets an event. -/
theorem exec_log (he : exec cfg k s f = some (s', f')) : ∀ e ∈ s.log, e ∈ s'.log := by
  intro e hm
  cases f with
  | issue l =>
    simp only [exec, Option.ite_none_right_eq_some, Option.some.injEq, Prod.mk.injEq] at he
    rw [← he.2.1]
    exact append_log _ _ _ e (List.mem_append_left _ hm)
  | rotate token =>
    simp only [exec] at he
    split at he <;> cases he <;> exact hm
  | rotateTest token stored => cases he; exact hm
  | rotateReuse token stored => cases he; exact revokeFamily_log _ _ e hm
  | rotateClaim token stored now =>
    simp only [exec, Option.ite_none_right_eq_some, Option.some.injEq, Prod.mk.injEq] at he
    rw [← he.2.1]
    unfold claimAndAppend
    dsimp only
    split
    · exact hm
    · exact append_log _ _ _ e (revokeWhere_log _ _ e hm)
  | revokeFamilyOf token =>
    simp only [exec] at he
    split at he <;> cases he <;> exact hm
  | revokeFamilyFound token stored => cases he; exact revokeFamily_log _ _ e hm
  | purgeExpired l => cases he; exact List.mem_append_left _ hm
  | _ => simp [exec] at he

/-- A step leaves the clock at its own reading. -/
theorem exec_clock (he : exec cfg k s f = some (s', f')) : s'.clock = k.now := by
  cases f with
  | issue l =>
    simp only [exec, Option.ite_none_right_eq_some, Option.some.injEq, Prod.mk.injEq] at he
    rw [← he.2.1]; rfl
  | rotateClaim token stored now =>
    simp only [exec, Option.ite_none_right_eq_some, Option.some.injEq, Prod.mk.injEq] at he
    rw [← he.2.1]; rfl
  | rotate token => simp only [exec] at he; split at he <;> cases he <;> rfl
  | revokeFamilyOf token => simp only [exec] at he; split at he <;> cases he <;> rfl
  | rotateTest token stored => cases he; rfl
  | rotateReuse token stored => cases he; rfl
  | revokeFamilyFound token stored => cases he; rfl
  | purgeExpired l => cases he; rfl
  | _ => simp [exec] at he

theorem Inv.tick (h : Inv cfg s) : Inv cfg (s.tick k) := ⟨h.kept.tick, h.families.tick⟩

/-- The tests of `rotate` keep what was read, and past them the deadlines were ahead. -/
theorem asserts_afterRead {token : Token} {stored : Row} (h : Known cfg s token stored) (now : Int) :
    Asserts cfg s (afterRead token stored now) := by
  unfold afterRead
  split
  · split
    · trivial
    · exact h
  · next h0 =>
    split
    · trivial
    · next hd => exact ⟨h, h0, by omega, by omega⟩

/-- **Every statement keeps the invariants**, and leaves its call knowing what it needs next. -/
theorem exec_inv (hi : Inv cfg s) (ha : Asserts cfg s f) (he : exec cfg k s f = some (s', f')) :
    Inv cfg s' ∧ Asserts cfg s' f' := by
  cases f with
  | issue l =>
    simp only [exec, Option.ite_none_right_eq_some, Bool.and_eq_true, Option.some.injEq,
      Prod.mk.injEq] at he
    obtain ⟨⟨ht, hf⟩, rfl, rfl⟩ := he
    exact ⟨(hi.issue ht hf).tick, trivial⟩
  | rotate token =>
    simp only [exec] at he
    split at he <;> cases he
    · exact ⟨hi.tick, trivial⟩
    · next hr => exact ⟨hi.tick, (known_of_read hi hr).mono fun _ h => h⟩
  | rotateTest token stored =>
    cases he
    exact ⟨hi.tick, (asserts_afterRead ha k.now).mono fun _ h => h⟩
  | rotateReuse token stored =>
    cases he
    have hl : ∀ e ∈ s.log, e ∈ ((s.revokeFamily stored.familyId k.now).tick k).log :=
      revokeFamily_log _ _
    refine ⟨(hi.revokeFamily (Known.opened hi ha) k.now).tick, stored.familyId,
      (Known.ofFamily ha).mono hl, ?_⟩
    simp [Server.tick, Server.revokeFamily]
  | rotateClaim token stored now =>
    simp only [exec, Option.ite_none_right_eq_some, Option.some.injEq, Prod.mk.injEq] at he
    obtain ⟨ht, rfl, rfl⟩ := he
    rcases claimAndAppend_cases (k := k) hi ha.1 with ⟨hc, -⟩ | ⟨r, hr, hh, h0, hb, hc⟩
    · rw [hc]; exact ⟨hi.tick, trivial⟩
    · rw [hc]
      refine ⟨(hi.rotate hr h0 ht).tick, k.now, ?_⟩
      refine append_log _ _ _ _ (List.mem_append_right _ ?_)
      rw [← hh]
      exact List.mem_map.2 ⟨r, List.mem_filter.2 ⟨hr, claimable_iff.2 ⟨rfl, h0⟩⟩, rfl⟩
  | revokeFamilyOf token =>
    simp only [exec] at he
    split at he <;> cases he
    · exact ⟨hi.tick, trivial⟩
    · next hr => exact ⟨hi.tick, (known_of_read hi hr).mono fun _ h => h⟩
  | revokeFamilyFound token stored =>
    cases he
    exact ⟨(hi.revokeFamily (Known.opened hi ha) k.now).tick, trivial⟩
  | purgeExpired l =>
    cases he
    exact ⟨(hi.purgeExpired l k.now).tick, trivial⟩
  | _ => simp [exec] at he

theorem asserts_enter (he : enters f = true) : Asserts cfg s f := by
  cases f <;> trivial

theorem outline (cfg : Config) :
    Outline (machine cfg) (fun _ _ _ => True) (Inv cfg) (Asserts cfg) where
  enter _ _ _ he := asserts_enter he
  keeps _ _ _ _ _ hi ha _ he := exec_inv hi ha he
  stable _ _ _ _ _ _ _ _ hj _ he := hj.mono (exec_log he)

/-- The outline holds from any world where it does, along any run. -/
theorem holds_of_reaches {G : World Server Call → Act Call Choice → Prop}
    (h : (machine cfg).Reaches G w w') (hw : Holds (Inv cfg) (Asserts cfg) w) :
    Holds (Inv cfg) (Asserts cfg) w' :=
  (outline cfg).run h (fun _ _ _ _ _ _ => trivial) hw

theorem Reachable.holds (h : Reachable cfg w) : Holds (Inv cfg) (Asserts cfg) w := by
  obtain ⟨c, h⟩ := h
  exact holds_of_reaches h ⟨inv_start c, by simp [start]⟩

/-- The log only grows along a run. -/
theorem reaches_log {G : World Server Call → Act Call Choice → Prop}
    (h : (machine cfg).Reaches G w w') : ∀ e ∈ w.shared.log, e ∈ w'.shared.log :=
  fun e he => h.shared (I := fun s => e ∈ s.log) he fun _ _ _ _ _ hm hx => exec_log hx e hm

end DepositPortal.RefreshToken
