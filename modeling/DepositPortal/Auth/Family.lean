import DepositPortal.Auth.RefreshToken
import Mathlib.Data.List.Nodup

/-!
# Families: what the rows and the log of refresh tokens always satisfy

A family is the chain of tokens issued by one login. Two groups of invariants, both kept by every
statement of the service:

* `Kept`: the table is the log with some families removed. Rows only ever change `revokedAt`, a
  hash is inserted once, all the rows of a family carry the deadline and the lawyer of its login,
  and a family is in the table as a whole or not at all.
* `Families`: a family has at most one unrevoked row, and it has one exactly until `revokeFamily`
  or a purge ends it.
-/
namespace DepositPortal.RefreshToken

variable {cfg : Config} {s s' : Server} {k : Choice}

/-- A row as it was inserted. -/
def Row.base (r : Row) : Row := { r with revokedAt := none }

@[simp] theorem base_tokenHash (r : Row) : r.base.tokenHash = r.tokenHash := rfl
@[simp] theorem base_familyId (r : Row) : r.base.familyId = r.familyId := rfl
@[simp] theorem base_expiresAt (r : Row) : r.base.expiresAt = r.expiresAt := rfl
@[simp] theorem base_idleExpiresAt (r : Row) : r.base.idleExpiresAt = r.idleExpiresAt := rfl
@[simp] theorem base_createdAt (r : Row) : r.base.createdAt = r.createdAt := rfl
@[simp] theorem base_lawyerId (r : Row) : r.base.lawyerId = r.lawyerId := rfl

section
variable (p : Row → Bool) (now : Int) (r : Row)

@[simp] theorem revokeIf_base : (r.revokeIf p now).base = r.base := by
  unfold Row.revokeIf; split <;> rfl

@[simp] theorem revokeIf_familyId : (r.revokeIf p now).familyId = r.familyId := by
  unfold Row.revokeIf; split <;> rfl

@[simp] theorem revokeIf_tokenHash : (r.revokeIf p now).tokenHash = r.tokenHash := by
  unfold Row.revokeIf; split <;> rfl

theorem revokeIf_revokedAt :
    (r.revokeIf p now).revokedAt = if p r then some now else r.revokedAt := by
  unfold Row.revokeIf; split <;> rfl

end

theorem claimable_iff {h : TokenHash} {r : Row} :
    claimable h r = true ↔ r.tokenHash = h ∧ r.revokedAt = none := by
  simp [claimable]

theorem inFamily_iff {f : FamilyId} {r : Row} :
    inFamily f r = true ↔ r.familyId = f ∧ r.revokedAt = none := by
  simp [inFamily]

theorem expiredBefore_iff {l : LawyerId} {now : Int} {r : Row} :
    expiredBefore l now r = true ↔ r.lawyerId = l ∧ r.expiresAt < now := by
  simp [expiredBefore]

/-! ## What the statements write -/

section
variable {p : Row → Bool} {now e : Int} {r : Row} {x : Event} {l : LawyerId} {f : FamilyId}

@[simp] theorem mem_revokeWhere : r ∈ (s.revokeWhere p now).refreshToken ↔
    ∃ a ∈ s.refreshToken, a.revokeIf p now = r := by
  simp [Server.revokeWhere]

@[simp] theorem mem_log_revokeWhere : x ∈ (s.revokeWhere p now).log ↔
    x ∈ s.log ∨ ∃ a ∈ s.refreshToken, p a = true ∧ .revoked a.tokenHash now = x := by
  simp [Server.revokeWhere, and_assoc]

@[simp] theorem mem_append_rows : r ∈ (s.append cfg k l f e).refreshToken ↔
    r ∈ s.refreshToken ∨ r = appended cfg k l f e := by
  simp [Server.append, Server.create]

@[simp] theorem mem_append_log : x ∈ (s.append cfg k l f e).log ↔
    x ∈ s.log ∨ x = .inserted (appended cfg k l f e) := by
  simp [Server.append, Server.create]

@[simp] theorem mem_purgeExpired : r ∈ (s.purgeExpired l now).refreshToken ↔
    r ∈ s.refreshToken ∧ expiredBefore l now r = false := by
  simp [Server.purgeExpired]

@[simp] theorem mem_log_purgeExpired : x ∈ (s.purgeExpired l now).log ↔
    x ∈ s.log ∨ ∃ a ∈ s.refreshToken, expiredBefore l now a = true ∧ .purged a.familyId = x := by
  simp [Server.purgeExpired, and_assoc]

end

/-! ## Fresh draws -/

theorem freshToken_iff {token : Token} : s.freshToken cfg token = true ↔
    ∀ r, .inserted r ∈ s.log → r.tokenHash ≠ cfg.hashPublicToken token := by
  simp only [Server.freshToken, List.all_eq_true]
  constructor
  · intro h r hr
    simpa using h _ hr
  · intro h e he
    cases e with
    | inserted r => simpa using h r he
    | _ => rfl

theorem freshFamily_iff {f : FamilyId} : s.freshFamily f = true ↔
    ∀ l t, .login f l t ∉ s.log := by
  simp only [Server.freshFamily, List.all_eq_true]
  constructor
  · intro h l t hr
    simpa using h _ hr
  · intro h e he
    cases e with
    | login f' l t =>
      have : f' ≠ f := by rintro rfl; exact h l t he
      simpa using this
    | _ => rfl

/-! ## The table is the log, minus whole families -/

/-- Rows and log agree. -/
structure Kept (cfg : Config) (s : Server) : Prop where
  /-- `tokenHash` is unique. -/
  nodup : (s.refreshToken.map Row.tokenHash).Nodup
  origin : ∀ r ∈ s.refreshToken, .inserted r.base ∈ s.log
  unrevoked : ∀ a, .inserted a ∈ s.log → a.revokedAt = none
  /-- A hash is inserted once. -/
  once : ∀ a b, .inserted a ∈ s.log → .inserted b ∈ s.log → a.tokenHash = b.tokenHash → a = b
  revoked : ∀ r ∈ s.refreshToken, ∀ t, r.revokedAt = some t ↔ .revoked r.tokenHash t ∈ s.log
  revokedKnown : ∀ h t, .revoked h t ∈ s.log → ∃ a, .inserted a ∈ s.log ∧ a.tokenHash = h
  /-- The deadline and the lawyer of a row are those of the login of its family. -/
  login : ∀ a, .inserted a ∈ s.log →
    .login a.familyId a.lawyerId (a.expiresAt - cfg.SESSION_EXPIRES) ∈ s.log
  logins : ∀ f l t l' t', .login f l t ∈ s.log → .login f l' t' ∈ s.log → l = l' ∧ t = t'
  /-- A family is in the table as a whole or not at all. -/
  whole : ∀ r ∈ s.refreshToken, ∀ a, .inserted a ∈ s.log → a.familyId = r.familyId →
    ∃ r' ∈ s.refreshToken, r'.base = a
  idle : ∀ a, .inserted a ∈ s.log → a.idleExpiresAt = a.createdAt + cfg.SESSION_IDLE_EXPIRES

theorem Kept.hashes (h : Kept cfg s) : ∀ a ∈ s.refreshToken, ∀ b ∈ s.refreshToken,
    a.tokenHash = b.tokenHash → a = b :=
  fun _ ha _ hb hab => List.inj_on_of_nodup_map h.nodup ha hb hab

theorem Kept.same_login (h : Kept cfg s) {a b : Row} (ha : .inserted a ∈ s.log)
    (hb : .inserted b ∈ s.log) (hf : a.familyId = b.familyId) :
    a.lawyerId = b.lawyerId ∧ a.expiresAt = b.expiresAt := by
  have hl := h.login b hb
  rw [← hf] at hl
  obtain ⟨h1, h2⟩ := h.logins _ _ _ _ _ (h.login a ha) hl
  exact ⟨h1, by omega⟩

/-- The row a hash names, when its family is still there. -/
theorem Kept.row_of (h : Kept cfg s) {r a : Row} (hr : r ∈ s.refreshToken)
    (ha : .inserted a ∈ s.log) (hh : r.tokenHash = a.tokenHash) : r.base = a :=
  h.once _ _ (h.origin r hr) ha (by simpa using hh)

theorem findUnique_some {h : TokenHash} {r : Row} (hf : s.findUnique h = some r) :
    r ∈ s.refreshToken ∧ r.tokenHash = h := by
  unfold Server.findUnique at hf
  exact ⟨List.mem_of_find?_eq_some hf, by simpa using List.find?_some hf⟩

theorem findUnique_none {h : TokenHash} (hf : s.findUnique h = none) :
    ∀ r ∈ s.refreshToken, r.tokenHash ≠ h := by
  unfold Server.findUnique at hf
  simpa using hf

theorem Kept.findUnique (h : Kept cfg s) {r : Row} (hr : r ∈ s.refreshToken) :
    s.findUnique r.tokenHash = some r := by
  cases hf : s.findUnique r.tokenHash with
  | none => exact absurd rfl (findUnique_none hf r hr)
  | some r' =>
    obtain ⟨hm, hh⟩ := findUnique_some hf
    rw [h.hashes r' hm r hr hh]

theorem kept_start (clock : Int) : Kept cfg ⟨[], [], clock⟩ where
  nodup := by simp
  origin := by simp
  unrevoked := by simp
  once := by simp
  revoked := by simp
  revokedKnown := by simp
  login := by simp
  logins := by simp
  whole := by simp
  idle := by simp

theorem Kept.tick (h : Kept cfg s) : Kept cfg (s.tick k) := ⟨h.1, h.2, h.3, h.4, h.5, h.6, h.7, h.8,
  h.9, h.10⟩

theorem Kept.login_row (h : Kept cfg s) {r : Row} (hr : r ∈ s.refreshToken) :
    .login r.familyId r.lawyerId (r.expiresAt - cfg.SESSION_EXPIRES) ∈ s.log :=
  h.login r.base (h.origin r hr)

/-- Noting an event that is neither an insertion nor a revocation. -/
theorem Kept.note (h : Kept cfg s) (e : Event) (hi : ∀ a, e ≠ .inserted a)
    (hr : ∀ x t, e ≠ .revoked x t)
    (hl : ∀ f l t, e = .login f l t → ∀ l' t', .login f l' t' ∉ s.log) :
    Kept cfg { s with log := s.log ++ [e] } := by
  have hi' : ∀ a, .inserted a ∈ s.log ++ [e] ↔ .inserted a ∈ s.log := by
    intro a; simp [(hi a).symm]
  have hr' : ∀ x t, .revoked x t ∈ s.log ++ [e] ↔ .revoked x t ∈ s.log := by
    intro x t; simp [(hr x t).symm]
  refine ⟨h.nodup, ?_, ?_, ?_, ?_, ?_, ?_, ?_, ?_, ?_⟩
  · exact fun r hm => (hi' _).2 (h.origin r hm)
  · exact fun a ha => h.unrevoked a ((hi' a).1 ha)
  · exact fun a b ha hb => h.once a b ((hi' a).1 ha) ((hi' b).1 hb)
  · exact fun r hm t => (h.revoked r hm t).trans (hr' _ t).symm
  · intro x t hx
    obtain ⟨a, ha, hh⟩ := h.revokedKnown x t ((hr' x t).1 hx)
    exact ⟨a, (hi' a).2 ha, hh⟩
  · exact fun a ha => List.mem_append_left _ (h.login a ((hi' a).1 ha))
  · intro f l₁ t₁ l₂ t₂ h1 h2
    simp only [List.mem_append, List.mem_singleton] at h1 h2
    rcases h1 with h1 | h1 <;> rcases h2 with h2 | h2
    · exact h.logins f l₁ t₁ l₂ t₂ h1 h2
    · exact absurd h1 (hl f l₂ t₂ h2.symm l₁ t₁)
    · exact absurd h2 (hl f l₁ t₁ h1.symm l₂ t₂)
    · cases h1.trans h2.symm; exact ⟨rfl, rfl⟩
  · exact fun r hm a ha => h.whole r hm a ((hi' a).1 ha)
  · exact fun a ha => h.idle a ((hi' a).1 ha)

/-- A statement that only revokes rows that were not. -/
theorem Kept.revokeWhere (h : Kept cfg s) {p : Row → Bool}
    (hp : ∀ r, p r = true → r.revokedAt = none)
    (now : Int) : Kept cfg (s.revokeWhere p now) where
  nodup := by
    have : Row.tokenHash ∘ Row.revokeIf p now = Row.tokenHash := funext fun r => by simp
    simp only [Server.revokeWhere, List.map_map, this]
    exact h.nodup
  origin := by
    intro r hr
    obtain ⟨a, ha, rfl⟩ := mem_revokeWhere.1 hr
    simpa using h.origin a ha
  unrevoked a ha := h.unrevoked a (by simpa using ha)
  once a b ha hb := h.once a b (by simpa using ha) (by simpa using hb)
  revoked := by
    intro r hr t
    obtain ⟨a, ha, rfl⟩ := mem_revokeWhere.1 hr
    simp only [revokeIf_revokedAt, revokeIf_tokenHash, mem_log_revokeWhere, Event.revoked.injEq]
    by_cases hpa : p a = true
    · simp only [hpa, if_true, Option.some.injEq]
      constructor
      · rintro rfl; exact Or.inr ⟨a, ha, hpa, rfl, rfl⟩
      · rintro (hl | ⟨_, _, _, _, rfl⟩)
        · have := (h.revoked a ha t).2 hl
          rw [hp a hpa] at this; cases this
        · rfl
    · simp only [hpa, if_false, Bool.false_eq_true, h.revoked a ha t]
      constructor
      · exact Or.inl
      · rintro (hl | ⟨b, hb, hpb, hab, rfl⟩)
        · exact hl
        · exact absurd (h.hashes b hb a ha hab ▸ hpb) hpa
  revokedKnown := by
    intro x t hx
    simp only [mem_log_revokeWhere, Event.revoked.injEq] at hx
    rcases hx with hx | ⟨a, ha, -, rfl, rfl⟩
    · obtain ⟨a, ha, hh⟩ := h.revokedKnown x t hx
      exact ⟨a, by simp [ha], hh⟩
    · exact ⟨a.base, by simp [h.origin a ha], rfl⟩
  login a ha := by simpa using h.login a (by simpa using ha)
  logins f l t l' t' h1 h2 := h.logins f l t l' t' (by simpa using h1) (by simpa using h2)
  whole := by
    intro r hr a ha hf
    obtain ⟨b, hb, rfl⟩ := mem_revokeWhere.1 hr
    obtain ⟨r', hr', hb⟩ := h.whole b hb a (by simpa using ha) (by simpa using hf)
    exact ⟨_, mem_revokeWhere.2 ⟨r', hr', rfl⟩, by simpa using hb⟩
  idle a ha := h.idle a (by simpa using ha)

/-- A new row, of a family that is open: its login is known and its rows are all there. -/
theorem Kept.append (h : Kept cfg s) {l : LawyerId} {f : FamilyId} {e : Int}
    (hfresh : s.freshToken cfg k.token = true)
    (hlogin : .login f l (e - cfg.SESSION_EXPIRES) ∈ s.log)
    (hopen : ∀ a, .inserted a ∈ s.log → a.familyId = f → ∃ r ∈ s.refreshToken, r.base = a) :
    Kept cfg (s.append cfg k l f e) := by
  have hnew := freshToken_iff.1 hfresh
  have hrow : ∀ r ∈ s.refreshToken, r.tokenHash ≠ cfg.hashPublicToken k.token := fun r hr => by
    simpa using hnew _ (h.origin r hr)
  have hins : ∀ a, .inserted a ∈ (s.append cfg k l f e).log ↔
      .inserted a ∈ s.log ∨ a = appended cfg k l f e := by simp
  refine ⟨?_, ?_, ?_, ?_, ?_, ?_, ?_, ?_, ?_, ?_⟩
  · simp only [Server.append, Server.create, List.map_append, List.map_cons, List.map_nil]
    refine List.nodup_append.2 ⟨h.nodup, by simp, ?_⟩
    rintro x hx _ hy rfl
    obtain ⟨a, ha, rfl⟩ := List.mem_map.1 hx
    exact hrow a ha (by simpa [appended] using hy)
  · intro r hr
    rcases mem_append_rows.1 hr with hr | rfl
    · exact (hins _).2 (.inl (h.origin r hr))
    · exact (hins _).2 (.inr rfl)
  · intro a ha
    rcases (hins a).1 ha with ha | rfl
    · exact h.unrevoked a ha
    · rfl
  · intro a b ha hb hab
    rcases (hins a).1 ha with ha | rfl <;> rcases (hins b).1 hb with hb | rfl
    · exact h.once a b ha hb hab
    · exact absurd hab (hnew a ha)
    · exact absurd hab.symm (hnew b hb)
    · rfl
  · intro r hr t
    rw [mem_append_log, or_iff_left (by simp)]
    rcases mem_append_rows.1 hr with hr | rfl
    · exact h.revoked r hr t
    · refine iff_of_false (by simp [appended]) fun ht => ?_
      obtain ⟨a, ha, hh⟩ := h.revokedKnown _ _ ht
      exact hnew a ha hh
  · intro x t hx
    obtain ⟨a, ha, hh⟩ := h.revokedKnown x t (by simpa using hx)
    exact ⟨a, (hins a).2 (.inl ha), hh⟩
  · intro a ha
    rw [mem_append_log, or_iff_left (by simp)]
    rcases (hins a).1 ha with ha | rfl
    · exact h.login a ha
    · exact hlogin
  · simpa using h.logins
  · intro r hr a ha hf
    rcases (hins a).1 ha with ha | rfl
    · have : ∃ r' ∈ s.refreshToken, r'.base = a := by
        rcases mem_append_rows.1 hr with hr | rfl
        · exact h.whole r hr a ha hf
        · exact hopen a ha hf
      obtain ⟨r', hr', hb⟩ := this
      exact ⟨r', mem_append_rows.2 (.inl hr'), hb⟩
    · exact ⟨_, mem_append_rows.2 (.inr rfl), rfl⟩
  · intro a ha
    rcases (hins a).1 ha with ha | rfl
    · exact h.idle a ha
    · rfl

/-- The rows of a family share lawyer and deadline, so a purge takes all of them or none. -/
theorem Kept.purgeExpired (h : Kept cfg s) (l : LawyerId) (now : Int) :
    Kept cfg (s.purgeExpired l now) where
  nodup := h.nodup.sublist (List.filter_sublist.map _)
  origin r hr := by simpa using h.origin r (mem_purgeExpired.1 hr).1
  unrevoked a ha := h.unrevoked a (by simpa using ha)
  once a b ha hb := h.once a b (by simpa using ha) (by simpa using hb)
  revoked r hr t := by simpa using h.revoked r (mem_purgeExpired.1 hr).1 t
  revokedKnown := by simpa using h.revokedKnown
  login a ha := by simpa using h.login a (by simpa using ha)
  logins := by simpa using h.logins
  whole := by
    intro r hr a ha hf
    obtain ⟨hr, hre⟩ := mem_purgeExpired.1 hr
    obtain ⟨r', hr', rfl⟩ := h.whole r hr a (by simpa using ha) hf
    obtain ⟨h1, h2⟩ := h.same_login (h.origin r' hr') (h.origin r hr) (by simpa using hf)
    refine ⟨r', mem_purgeExpired.2 ⟨hr', ?_⟩, rfl⟩
    simpa [expiredBefore, show r'.lawyerId = r.lawyerId from h1,
      show r'.expiresAt = r.expiresAt from h2] using hre
  idle a ha := h.idle a (by simpa using ha)

/-! ## One unrevoked row, until the family is ended -/

/-- A login opened the family. -/
def Opened (s : Server) (f : FamilyId) : Prop := ∃ l t, .login f l t ∈ s.log

/-- `revokeFamily` ran on the family (a logout, a reuse detection) or a purge removed it. -/
def Ended (s : Server) (f : FamilyId) : Prop := .closed f ∈ s.log ∨ .purged f ∈ s.log

/-- The family has an unrevoked row. -/
def Alive (s : Server) (f : FamilyId) : Prop := ∃ r ∈ s.refreshToken, r.familyId = f ∧ r.revokedAt = none

structure Families (s : Server) : Prop where
  single : ∀ a ∈ s.refreshToken, ∀ b ∈ s.refreshToken, a.familyId = b.familyId →
    a.revokedAt = none → b.revokedAt = none → a = b
  opened : ∀ f, Ended s f → Opened s f
  ended : ∀ f, Ended s f → ¬ Alive s f
  gone : ∀ f, .purged f ∈ s.log → ∀ r ∈ s.refreshToken, r.familyId ≠ f
  alive : ∀ f, Opened s f → Ended s f ∨ Alive s f

/-- The invariants of the table and its log. -/
structure Inv (cfg : Config) (s : Server) : Prop where
  kept : Kept cfg s
  families : Families s

theorem Kept.opened (h : Kept cfg s) {r : Row} (hr : r ∈ s.refreshToken) : Opened s r.familyId :=
  ⟨_, _, h.login_row hr⟩

theorem Families.tick (h : Families s) : Families (s.tick k) := ⟨h.1, h.2, h.3, h.4, h.5⟩

theorem inv_start (clock : Int) : Inv cfg ⟨[], [], clock⟩ where
  kept := kept_start clock
  families := by
    refine ⟨by simp, ?_, ?_, by simp, ?_⟩
    · rintro f (h | h) <;> simp at h
    · rintro f (h | h) <;> simp at h
    · rintro f ⟨l, t, h⟩; simp at h

/-! ### A family between a login or a claim and its new row -/

/-- `Families`, but for `f`, which is open without an unrevoked row. -/
structure Awaiting (f : FamilyId) (s : Server) : Prop where
  single : ∀ a ∈ s.refreshToken, ∀ b ∈ s.refreshToken, a.familyId = b.familyId →
    a.revokedAt = none → b.revokedAt = none → a = b
  opened : ∀ f', Ended s f' → Opened s f'
  ended : ∀ f', Ended s f' → ¬ Alive s f'
  gone : ∀ f', .purged f' ∈ s.log → ∀ r ∈ s.refreshToken, r.familyId ≠ f'
  alive : ∀ f', f' ≠ f → Opened s f' → Ended s f' ∨ Alive s f'
  open' : ¬ Ended s f
  dead : ¬ Alive s f

/-- Its new row makes it a family like the others. -/
theorem Awaiting.append {f : FamilyId} (h : Awaiting f s) (l : LawyerId) (e : Int) :
    Families (s.append cfg k l f e) := by
  have hended : ∀ f', Ended (s.append cfg k l f e) f' ↔ Ended s f' := by simp [Ended]
  have hopened : ∀ f', Opened (s.append cfg k l f e) f' ↔ Opened s f' := by simp [Opened]
  have hnot : ∀ f', Ended s f' → (appended cfg k l f e).familyId ≠ f' := by
    rintro _ he rfl
    exact h.open' he
  refine ⟨fun a ha b hb hab ha0 hb0 => ?_, fun f' he => ?_, fun f' he => ?_, fun f' hp r hr => ?_,
    fun f' ho => ?_⟩
  · rcases mem_append_rows.1 ha with ha | rfl <;> rcases mem_append_rows.1 hb with hb | rfl
    · exact h.single a ha b hb hab ha0 hb0
    · exact absurd ⟨a, ha, hab, ha0⟩ h.dead
    · exact absurd ⟨b, hb, hab.symm, hb0⟩ h.dead
    · rfl
  · exact (hopened f').2 (h.opened f' ((hended f').1 he))
  · rintro ⟨r, hr, hrf, hr0⟩
    rcases mem_append_rows.1 hr with hr | rfl
    · exact h.ended f' ((hended f').1 he) ⟨r, hr, hrf, hr0⟩
    · exact hnot f' ((hended f').1 he) hrf
  · have hp' : .purged f' ∈ s.log := by simpa using hp
    rcases mem_append_rows.1 hr with hr | rfl
    · exact h.gone f' hp' r hr
    · exact hnot f' (.inr hp')
  · by_cases hf : f' = f
    · subst hf
      exact .inr ⟨appended cfg k l f' e, mem_append_rows.2 (.inr rfl), rfl, rfl⟩
    · rcases h.alive f' hf ((hopened f').1 ho) with he | ⟨r, hr, hrf⟩
      · exact .inl ((hended f').2 he)
      · exact .inr ⟨r, mem_append_rows.2 (.inl hr), hrf⟩

/-- A login opens a family that was not there. -/
theorem Inv.awaitLogin (h : Inv cfg s) {f : FamilyId} (hf : s.freshFamily f = true) (l : LawyerId)
    (now : Int) : Awaiting f { s with log := s.log ++ [.login f l now] } := by
  obtain ⟨hk, hs⟩ := h
  have hnew := freshFamily_iff.1 hf
  have hended : ∀ f', Ended { s with log := s.log ++ [.login f l now] } f' ↔ Ended s f' := by
    simp [Ended]
  have hold : ∀ f', Ended s f' → f' ≠ f := by
    rintro f' he rfl
    obtain ⟨l, t, hl⟩ := hs.opened _ he
    exact hnew l t hl
  refine ⟨hs.single, fun f' he => ?_, fun f' he => hs.ended f' ((hended f').1 he),
    fun f' hp => hs.gone f' (by simpa using hp), fun f' hne ho => ?_, fun he => ?_, ?_⟩
  · obtain ⟨l', t', hl⟩ := hs.opened f' ((hended f').1 he)
    exact ⟨l', t', List.mem_append_left _ hl⟩
  · obtain ⟨l', t', hl⟩ := ho
    rcases List.mem_append.1 hl with hl | hl
    · exact (hs.alive f' ⟨l', t', hl⟩).imp (hended f').2 id
    · cases List.mem_singleton.1 hl
      exact absurd rfl hne
  · exact hold f ((hended f).1 he) rfl
  · rintro ⟨r, hr, rfl, -⟩
    exact hnew _ _ (hk.login_row hr)

/-- What an `updateMany` that sets `revokedAt` leaves unrevoked was unrevoked before, and not
matched. -/
theorem unrevoked_of_revokeIf {p : Row → Bool} {now : Int} {a : Row}
    (h : (a.revokeIf p now).revokedAt = none) : a.revokedAt = none ∧ p a = false := by
  rw [revokeIf_revokedAt] at h
  split at h
  · cases h
  · next hp => exact ⟨h, by simpa using hp⟩

theorem revokeIf_of_not {p : Row → Bool} {now : Int} {a : Row} (h : p a = false) :
    a.revokeIf p now = a := by
  simp [Row.revokeIf, h]

theorem Alive.of_revokeWhere {p : Row → Bool} {now : Int} {f : FamilyId}
    (h : Alive (s.revokeWhere p now) f) : Alive s f := by
  obtain ⟨r, hr, hrf, hr0⟩ := h
  obtain ⟨a, ha, rfl⟩ := mem_revokeWhere.1 hr
  exact ⟨a, ha, by simpa using hrf, (unrevoked_of_revokeIf hr0).1⟩

theorem Alive.revokeWhere {p : Row → Bool} {now : Int} {f : FamilyId} (h : Alive s f)
    (hp : ∀ r ∈ s.refreshToken, r.familyId = f → p r = false) :
    Alive (s.revokeWhere p now) f := by
  obtain ⟨r, hr, hrf, hr0⟩ := h
  exact ⟨r, mem_revokeWhere.2 ⟨r, hr, revokeIf_of_not (hp r hr hrf)⟩, hrf, hr0⟩

@[simp] theorem ended_revokeWhere {p : Row → Bool} {now : Int} {f : FamilyId} :
    Ended (s.revokeWhere p now) f ↔ Ended s f := by
  simp [Ended]

@[simp] theorem opened_revokeWhere {p : Row → Bool} {now : Int} {f : FamilyId} :
    Opened (s.revokeWhere p now) f ↔ Opened s f := by
  simp [Opened]

theorem Families.single_revokeWhere (h : Families s) {p : Row → Bool} {now : Int} :
    ∀ a ∈ (s.revokeWhere p now).refreshToken, ∀ b ∈ (s.revokeWhere p now).refreshToken,
      a.familyId = b.familyId → a.revokedAt = none → b.revokedAt = none → a = b := by
  simp only [mem_revokeWhere]
  rintro _ ⟨a, ha, rfl⟩ _ ⟨b, hb, rfl⟩ hab ha0 hb0
  rw [h.single a ha b hb (by simpa using hab) (unrevoked_of_revokeIf ha0).1
    (unrevoked_of_revokeIf hb0).1]

theorem Families.gone_revokeWhere (h : Families s) {p : Row → Bool} {now : Int} {f : FamilyId}
    (hp : .purged f ∈ s.log) : ∀ r ∈ (s.revokeWhere p now).refreshToken, r.familyId ≠ f := by
  intro r hr
  obtain ⟨a, ha, rfl⟩ := mem_revokeWhere.1 hr
  simpa using h.gone f hp a ha

/-- A claim takes the one unrevoked row of its family. -/
theorem Inv.awaitClaim (h : Inv cfg s) {r : Row} (hr : r ∈ s.refreshToken)
    (hr0 : r.revokedAt = none) (now : Int) :
    Awaiting r.familyId (s.revokeWhere (claimable r.tokenHash) now) := by
  obtain ⟨hk, hs⟩ := h
  refine ⟨hs.single_revokeWhere, fun f he => ?_, fun f he hal => ?_, fun f hp => ?_,
    fun f hne ho => ?_, fun he => ?_, ?_⟩
  · exact opened_revokeWhere.2 (hs.opened f (ended_revokeWhere.1 he))
  · exact hs.ended f (ended_revokeWhere.1 he) hal.of_revokeWhere
  · exact hs.gone_revokeWhere (by simpa using hp)
  · refine (hs.alive f (opened_revokeWhere.1 ho)).imp ended_revokeWhere.2 fun hal => ?_
    refine hal.revokeWhere fun a ha haf => Bool.eq_false_iff.2 fun hc => hne ?_
    rw [← haf, hk.hashes a ha r hr (claimable_iff.1 hc).1]
  · exact hs.ended _ (ended_revokeWhere.1 he) ⟨r, hr, rfl, hr0⟩
  · rintro ⟨q, hq, hqf, hq0⟩
    obtain ⟨a, ha, rfl⟩ := mem_revokeWhere.1 hq
    obtain ⟨ha0, hca⟩ := unrevoked_of_revokeIf hq0
    rw [hs.single a ha r hr (by simpa using hqf) ha0 hr0] at hca
    rw [claimable_iff.2 ⟨rfl, hr0⟩] at hca
    cases hca

/-! ### The statements keep the invariants -/

/-- `issue` (`:46`) opens a family of one row. -/
theorem Inv.issue (h : Inv cfg s) {l : LawyerId} (ht : s.freshToken cfg k.token = true)
    (hf : s.freshFamily k.uuid = true) : Inv cfg (s.issue cfg k l) := by
  refine ⟨?_, (h.awaitLogin hf l k.now).append l _⟩
  have hnew := freshFamily_iff.1 hf
  have hnote : Kept cfg { s with log := s.log ++ [Event.login k.uuid l k.now] } := by
    refine h.kept.note _ (fun _ => by simp) (fun _ _ => by simp) ?_
    rintro f _ _ e l' t' hl
    cases e
    exact hnew l' t' hl
  refine hnote.append (by simpa [Server.freshToken] using ht) (by simp) fun a ha e => ?_
  exact absurd (e ▸ h.kept.login a (by simpa using ha)) (hnew _ _)

/-- The transaction of `rotate` (`:96`), when the claim finds the row `r` unrevoked: the family's
unrevoked row is now the successor. -/
theorem Inv.rotate (h : Inv cfg s) {r : Row} (hr : r ∈ s.refreshToken) (hr0 : r.revokedAt = none)
    (ht : s.freshToken cfg k.token = true) :
    Inv cfg ((s.revokeWhere (claimable r.tokenHash) k.now).append cfg k r.lawyerId r.familyId
      r.expiresAt) := by
  refine ⟨?_, (h.awaitClaim hr hr0 k.now).append _ _⟩
  have hk := h.kept.revokeWhere (p := claimable r.tokenHash) (fun q hq => (claimable_iff.1 hq).2)
    k.now
  refine hk.append ?_ (by simpa using h.kept.login_row hr) fun a ha haf => ?_
  · rw [freshToken_iff] at ht ⊢
    exact fun a ha => ht a (by simpa using ha)
  · exact hk.whole (r.revokeIf (claimable r.tokenHash) k.now) (mem_revokeWhere.2 ⟨r, hr, rfl⟩) a ha
      (by simpa using haf)

/-- `revokeFamily` (`:178`) on a family that was opened. -/
theorem Inv.revokeFamily (h : Inv cfg s) {f : FamilyId} (hf : Opened s f) (now : Int) :
    Inv cfg (s.revokeFamily f now) := by
  obtain ⟨hk, hs⟩ := h
  have hk' := hk.revokeWhere (p := inFamily f) (fun q hq => (inFamily_iff.1 hq).2) now
  have hended : ∀ f', Ended (s.revokeFamily f now) f' ↔ Ended s f' ∨ f' = f := by
    intro f'
    simp only [Ended, Server.revokeFamily, List.mem_append, mem_log_revokeWhere,
      List.mem_singleton, reduceCtorEq, and_false, exists_false, or_false, Event.closed.injEq]
    exact or_right_comm
  have hopened : ∀ f', Opened (s.revokeFamily f now) f' ↔ Opened s f' := by
    simp [Opened, Server.revokeFamily]
  refine ⟨hk'.note _ (fun _ => by simp) (fun _ _ => by simp) (fun _ _ _ e => by cases e),
    hs.single_revokeWhere, fun f' he => ?_, fun f' he hal => ?_, fun f' hp => ?_, fun f' ho => ?_⟩
  · rcases (hended f').1 he with he | rfl
    · exact (hopened f').2 (hs.opened f' he)
    · exact (hopened f').2 hf
  · rcases (hended f').1 he with he | rfl
    · exact hs.ended f' he (Alive.of_revokeWhere hal)
    · obtain ⟨q, hq, hqf, hq0⟩ := hal
      obtain ⟨a, ha, rfl⟩ := mem_revokeWhere.1 hq
      obtain ⟨ha0, hp⟩ := unrevoked_of_revokeIf hq0
      rw [inFamily_iff.2 ⟨by simpa using hqf, ha0⟩] at hp
      cases hp
  · exact hs.gone_revokeWhere (by simpa [Server.revokeFamily] using hp)
  · by_cases e : f' = f
    · exact .inl ((hended f').2 (.inr e))
    · refine (hs.alive f' ((hopened f').1 ho)).imp (fun he => (hended f').2 (.inl he)) fun hal => ?_
      refine Alive.revokeWhere hal fun a _ haf => Bool.eq_false_iff.2 fun hc => e ?_
      rw [← haf, (inFamily_iff.1 hc).1]

/-- `purgeExpired` (`:140`). -/
theorem Inv.purgeExpired (h : Inv cfg s) (l : LawyerId) (now : Int) :
    Inv cfg (s.purgeExpired l now) := by
  obtain ⟨hk, hs⟩ := h
  have hpurged : ∀ f, .purged f ∈ (s.purgeExpired l now).log ↔ .purged f ∈ s.log ∨
      ∃ r ∈ s.refreshToken, expiredBefore l now r = true ∧ r.familyId = f := by simp
  have hclosed : ∀ f, .closed f ∈ (s.purgeExpired l now).log ↔ .closed f ∈ s.log := by simp
  have hopened : ∀ f, Opened (s.purgeExpired l now) f ↔ Opened s f := by simp [Opened]
  have hgone : ∀ f, .purged f ∈ (s.purgeExpired l now).log →
      ∀ r ∈ (s.purgeExpired l now).refreshToken, r.familyId ≠ f := by
    intro f hp r hr
    obtain ⟨hr, hre⟩ := mem_purgeExpired.1 hr
    rcases (hpurged f).1 hp with hp | ⟨q, hq, hqe, rfl⟩
    · exact hs.gone f hp r hr
    · intro e
      obtain ⟨h1, h2⟩ := hk.same_login (hk.origin r hr) (hk.origin q hq) (by simpa using e)
      simp only [base_lawyerId, base_expiresAt] at h1 h2
      have hq' := expiredBefore_iff.1 hqe
      rw [← h1, ← h2] at hq'
      rw [expiredBefore_iff.2 hq'] at hre
      cases hre
  refine ⟨hk.purgeExpired l now, fun a ha b hb => ?_, fun f he => (hopened f).2 ?_, ?_, hgone,
    fun f ho => ?_⟩
  · exact hs.single a (mem_purgeExpired.1 ha).1 b (mem_purgeExpired.1 hb).1
  · rcases he with he | he
    · exact hs.opened f (.inl ((hclosed f).1 he))
    · rcases (hpurged f).1 he with he | ⟨q, hq, -, rfl⟩
      · exact hs.opened f (.inr he)
      · exact hk.opened hq
  · rintro f (he | he) ⟨r, hr, hrf, hr0⟩
    · exact hs.ended f (.inl ((hclosed f).1 he)) ⟨r, (mem_purgeExpired.1 hr).1, hrf, hr0⟩
    · exact hgone f he r hr hrf
  · rcases hs.alive f ((hopened f).1 ho) with (he | he) | ⟨r, hr, hrf, hr0⟩
    · exact .inl (.inl ((hclosed f).2 he))
    · exact .inl (.inr ((hpurged f).2 (.inl he)))
    · cases hre : expiredBefore l now r with
      | true => exact .inl (.inr ((hpurged f).2 (.inr ⟨r, hr, hre, hrf⟩)))
      | false => exact .inr ⟨r, mem_purgeExpired.2 ⟨hr, hre⟩, hrf, hr0⟩

end DepositPortal.RefreshToken
