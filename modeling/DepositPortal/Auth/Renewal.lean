import DepositPortal.Auth.FamilyRuns

/-!
# Renewing a session: `AuthService` and `AuthController.refresh`

| here | there |
| --- | --- |
| `Lawyer`, `toProfile`  | `model Lawyer` (`prisma/schema.prisma:27`), `lawyers/lawyer.types.ts:15` |
| `Auth.findById`        | `LawyersService.findById` (`lawyers/lawyers.service.ts:26`) |
| `Auth.issueToken`      | `AuthService.issueToken` (`auth/auth.service.ts:81`) |
| `renewSession`         | `AuthService.renewSession` (`:103`), any one of whose outside calls may fail |
| `refreshAnswer`        | what `AuthController.refresh` (`auth/auth.controller.ts:97`) makes of its outcome; a throw is Nest's bare 500 |

The rotation commits before the account is read again and before the access token is signed. A
failure of one of these two calls therefore loses the successor: the presented token is revoked and
nobody holds the new one (`renewal_failure_harmless_iff`, `renewal_lost`).
-/
namespace DepositPortal.RefreshToken
open Interleave

structure Lawyer where
  id : LawyerId
  name : JsString
  email : JsString
  passwordHash : JsString
  deriving DecidableEq, Repr

structure LawyerProfile where
  id : LawyerId
  name : JsString
  email : JsString
  deriving DecidableEq, Repr

def toProfile (lawyer : Lawyer) : LawyerProfile := ⟨lawyer.id, lawyer.name, lawyer.email⟩

/-- `sub` is `none` when the claim is absent or not a string: `verifyAsync<JwtPayload>` is a cast. -/
structure JwtPayload where
  sub : Option JsString
  deriving DecidableEq, Repr

/-- What `AuthService` and the guard are built from. `signAsync` and `verifyAsync` are
`@nestjs/jwt`'s, at an instant; `verifyAsync` is `none` where the library throws. -/
structure Auth extends Config where
  JWT_EXPIRES : Int
  lawyers : List Lawyer
  signAsync : JwtPayload → Int → JsString
  verifyAsync : JsString → Int → Option JwtPayload

def Auth.findById (auth : Auth) (id : LawyerId) : Option Lawyer :=
  auth.lawyers.find? fun l => l.id == id

def Auth.issueToken (auth : Auth) (lawyer : LawyerProfile) (now : Int) : JsString :=
  auth.signAsync ⟨some lawyer.id⟩ now

structure SessionTokens where
  accessToken : JsString
  refreshToken : Token
  refreshExpiresAt : Int
  deriving DecidableEq, Repr

inductive RenewOutcome where
  | renewed (profile : LawyerProfile) (tokens : SessionTokens)
  | rejected (reason : RefreshRejection)
  deriving DecidableEq, Repr

/-- `renewSession` (`:103`); `signedAt` is the instant of the signature. -/
def renewSession (auth : Auth) (fails : Option Callee) (test write : Choice) (signedAt : Int)
    (refreshToken : Token) : Service RenewOutcome := do
  match ← rotate auth.toConfig fails test write refreshToken with
  | .rejected reason => return .rejected reason
  | .rotated token lawyerId expiresAt =>
    match ← call fails .findById fun s => (auth.findById lawyerId, s) with
    | none => return .rejected .unknown
    | some lawyer =>
      let profile := toProfile lawyer
      let accessToken ← call fails .signAsync fun s => (auth.issueToken profile signedAt, s)
      return .renewed profile ⟨accessToken, token, expiresAt⟩

/-! ## The answer of the route -/

/-- What an answer does to the two session cookies of the browser. -/
inductive SetCookie where
  | keep
  | clear
  /-- `setSessionCookies` (`auth.controller.ts:143`): each cookie with its `maxAge`. -/
  | session (accessToken : JsString) (accessMaxAge : Int) (refreshToken : Token)
      (refreshMaxAge : Int)
  deriving DecidableEq, Repr

structure Answer where
  status : Nat
  body : Option LawyerProfile
  cookies : SetCookie
  deriving DecidableEq, Repr

/-- `UnauthorizedException`, as Nest answers it. -/
def unauthorized (cookies : SetCookie) : Answer := ⟨401, none, cookies⟩

/-- The answer to a renewal that ended at `now` (`auth.controller.ts:97-112`). -/
def refreshAnswer (auth : Auth) (now : Int) : Except Callee RenewOutcome → Answer
  | .error _ => ⟨500, none, .keep⟩
  | .ok (.rejected reason) => unauthorized (if terminal reason then .clear else .keep)
  | .ok (.renewed profile tokens) => ⟨200, some profile, .session tokens.accessToken
      auth.JWT_EXPIRES tokens.refreshToken (tokens.refreshExpiresAt - now)⟩

/-! ## A renewal, branch by branch -/

/-- The call is one that `rotate` makes. -/
def madeByRotate : Callee → Bool
  | .findUnique | .revokeFamily | .claim | .create => true
  | .findById | .signAsync => false

section
variable {auth : Auth} {s s' : Server} {fails : Option Callee} {test write : Choice}
  {signedAt : Int} {token : Token}

theorem renewSession_throws {e : Callee}
    (h : rotate auth.toConfig fails test write token s = (.error e, s')) :
    renewSession auth fails test write signedAt token s = (.error e, s') := by
  rw [renewSession, bind_apply, h]

/-- After a rotation nothing writes to the table any more, and only the account or the signature
can still fail. -/
theorem renewSession_rotated (signedAt : Int) {t : Token} {l : LawyerId} {x : Int}
    (h : rotate auth.toConfig fails test write token s = (.ok (.rotated t l x), s')) :
    ∃ r, renewSession auth fails test write signedAt token s = (r, s') ∧
      ∀ e, r = .error e → madeByRotate e = false := by
  rw [renewSession, bind_apply, h]
  simp only [bind_call]
  by_cases h1 : fails = some .findById
  · exact ⟨.error .findById, by simp [h1], by rintro e ⟨⟩; rfl⟩
  · simp only [h1, if_false]
    cases auth.findById l with
    | none => exact ⟨_, rfl, by simp⟩
    | some lawyer =>
      simp only [bind_call]
      by_cases h2 : fails = some .signAsync
      · exact ⟨.error .signAsync, by simp [h2], by rintro e ⟨⟩; rfl⟩
      · refine ⟨.ok (.renewed (toProfile lawyer) ⟨auth.issueToken (toProfile lawyer) signedAt, t, x⟩),
          ?_, by simp⟩
        simp [h2, pure_apply]

/-- A failure inside the transaction is rolled back. -/
theorem renewSession_rolled_back (hacc : accepts auth.toConfig s token test.now = true)
    (hf : fails = some .claim ∨ fails = some .create) :
    (renewSession auth fails test write signedAt token s).2 = s := by
  obtain ⟨stored, hfu, h0, he, hi⟩ := accepts_iff_stored.1 hacc
  have hd : ¬ (stored.expiresAt ≤ test.now ∨ stored.idleExpiresAt ≤ test.now) := by omega
  obtain rfl | rfl := hf
  · have hr : rotate auth.toConfig (some .claim) test write token s = _ :=
      rotate_claims (by simp) hfu h0 hd
    rw [if_pos rfl] at hr
    rw [renewSession_throws hr]
  · have hr : rotate auth.toConfig (some .create) test write token s = _ :=
      rotate_claims (by simp) hfu h0 hd
    rw [if_neg (by simp), if_pos rfl] at hr
    rw [renewSession_throws hr]

/-- When the transaction went through, an accepted token was claimed for good. -/
theorem renewSession_claims (fails : Option Callee) (write : Choice) (signedAt : Int)
    (hacc : accepts auth.toConfig s token test.now = true)
    (h1 : fails ≠ some .findUnique) (h2 : fails ≠ some .claim) (h3 : fails ≠ some .create) :
    ∃ stored r, s.findUnique (auth.hashPublicToken token) = some stored ∧
      stored.revokedAt = none ∧
      renewSession auth fails test write signedAt token s =
        (r, (s.claim (auth.hashPublicToken token) write.now).2.append auth.toConfig write
          stored.lawyerId stored.familyId stored.expiresAt) ∧
      ∀ e, r = .error e → madeByRotate e = false := by
  obtain ⟨stored, hfu, h0, he, hi⟩ := accepts_iff_stored.1 hacc
  have hr : rotate auth.toConfig fails test write token s = _ :=
    rotate_claims h1 hfu h0 (by omega)
  rw [if_neg h2, if_neg h3] at hr
  obtain ⟨r, hren, hlate⟩ := renewSession_rotated signedAt hr
  exact ⟨stored, r, hfu, h0, hren, hlate⟩

/-- A claimed token is not accepted any more. -/
theorem not_accepts_claimed {cfg : Config} {stored : Row} {now later : Int} {k : Choice}
    {l : LawyerId} {f : FamilyId} {x : Int}
    (h : s.findUnique (cfg.hashPublicToken token) = some stored) (h0 : stored.revokedAt = none) :
    accepts cfg ((s.claim (cfg.hashPublicToken token) now).2.append cfg k l f x) token later
      = false := by
  rw [Bool.eq_false_iff]
  intro hacc
  obtain ⟨r, hr, hr0, -⟩ := accepts_iff_stored.1 hacc
  have hclaimed : ((s.claim (cfg.hashPublicToken token) now).2.append cfg k l f x).findUnique
      (cfg.hashPublicToken token) = some { stored with revokedAt := some now } := by
    simp only [Server.claim, Server.append, Server.create, Server.findUnique, Server.revokeWhere,
      List.find?_append, List.find?_map]
    have hcomp : ((fun r : Row => r.tokenHash == cfg.hashPublicToken token) ∘
        Row.revokeIf (claimable (cfg.hashPublicToken token)) now) =
        fun r => r.tokenHash == cfg.hashPublicToken token := by
      funext r; simp
    have hp : claimable (cfg.hashPublicToken token) stored = true :=
      claimable_iff.2 ⟨(findUnique_some h).2, h0⟩
    rw [hcomp, show s.refreshToken.find? _ = some stored from h]
    simp [Row.revokeIf, hp]
  rw [hclaimed] at hr
  cases hr
  cases hr0

end

/-! ## Failures of a renewal -/

/-- **Which failures of a renewal are harmless.** For every table and every token `rotate` would
accept, a renewal that throws leaves the table as it was and the token acceptable exactly when the
call that failed is one of `rotate`'s own. Whatever failed, the answer leaves the cookies alone. -/
theorem renewal_failure_harmless_iff (auth : Auth) (s : Server) (token : Token)
    (test write : Choice) (signedAt : Int) (c : Callee)
    (hacc : accepts auth.toConfig s token test.now = true)
    (hthrow : (renewSession auth (some c) test write signedAt token s).1 = .error c) :
    (((renewSession auth (some c) test write signedAt token s).2 = s ∧
      accepts auth.toConfig (renewSession auth (some c) test write signedAt token s).2 token
        test.now = true) ↔ madeByRotate c = true) ∧
    (refreshAnswer auth signedAt
      (renewSession auth (some c) test write signedAt token s).1).cookies = .keep := by
  refine ⟨?_, by rw [hthrow]; rfl⟩
  have hlost : c ≠ .findUnique → c ≠ .claim → c ≠ .create → madeByRotate c = false ∧
      accepts auth.toConfig (renewSession auth (some c) test write signedAt token s).2 token
        test.now = false := by
    intro h1 h2 h3
    obtain ⟨stored, r, hfu, h0, hren, hlate⟩ := renewSession_claims (some c) write signedAt hacc
      (by simpa using h1) (by simpa using h2) (by simpa using h3)
    rw [hren] at hthrow ⊢
    exact ⟨hlate c hthrow, not_accepts_claimed hfu h0⟩
  have hkept (h : (renewSession auth (some c) test write signedAt token s).2 = s)
      (hc : madeByRotate c = true) :
      ((renewSession auth (some c) test write signedAt token s).2 = s ∧
        accepts auth.toConfig (renewSession auth (some c) test write signedAt token s).2 token
          test.now = true) ↔ madeByRotate c = true :=
    iff_of_true ⟨h, by rw [h]; exact hacc⟩ hc
  cases c with
  | findUnique => exact hkept (by rw [renewSession_throws rotate_lookup_fails]) rfl
  | claim => exact hkept (renewSession_rolled_back hacc (Or.inl rfl)) rfl
  | create => exact hkept (renewSession_rolled_back hacc (Or.inr rfl)) rfl
  | revokeFamily =>
    -- an accepted token never comes to the reuse branch, so this call did not fail
    exact absurd (hlost (by simp) (by simp) (by simp)).1 (by simp [madeByRotate])
  | findById | signAsync =>
    obtain ⟨hc, hno⟩ := hlost (by simp) (by simp) (by simp)
    rw [hc, hno]
    simp

/-- Alice's account; access tokens are readable. -/
def office : Auth where
  toConfig := sevenDays
  JWT_EXPIRES := 900000
  lawyers := [⟨js "alice", js "Alice", js "alice@example.org", js "hash"⟩]
  signAsync p _ := p.sub.getD []
  verifyAsync token _ := some ⟨some token⟩

theorem renewal_failure_harmless_create :
    accepts sevenDays (renewSession office (some .create) ⟨2000, [], []⟩ ⟨2000, js "C", []⟩ 2000
      (js "B") (played loginAndRotate).shared).2 (js "B") 2000 = true :=
  ((renewal_failure_harmless_iff office (played loginAndRotate).shared (js "B") ⟨2000, [], []⟩
    ⟨2000, js "C", []⟩ 2000 .create (by decide) (by decide)).1.2 rfl).2

/-- The account cannot be read while Alice's session is renewed: her token is spent, and the
answer carries no other. -/
theorem renewal_lost :
    ReachableInTime sevenDays (played loginAndRotate) ∧
    accepts sevenDays (played loginAndRotate).shared (js "B") 2000 = true ∧
    (renewSession office (some .findById) ⟨2000, [], []⟩ ⟨2000, js "C", []⟩ 2000 (js "B")
      (played loginAndRotate).shared).1 = .error .findById ∧
    accepts sevenDays (renewSession office (some .findById) ⟨2000, [], []⟩ ⟨2000, js "C", []⟩ 2000
      (js "B") (played loginAndRotate).shared).2 (js "B") 2000 = false :=
  ⟨reachable_played (by decide), by decide, by decide, by decide⟩

end DepositPortal.RefreshToken
