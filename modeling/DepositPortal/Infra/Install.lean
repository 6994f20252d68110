import DepositPortal.Infra.EnvFile

/-!
# The configuration phase of install.sh

| here | there |
| --- | --- |
| `DEFAULT_PUBLIC_BASE_URL`    | `:26` |
| `FIRST_DEFAULTS`, `defaults` | the calls of `set_env_default`, before (`:385`) and after (`:394`) the check of `.env.example` |
| `configure`                  | `:360` to `:423` |
| `alignTls`                   | `:434` to `:467` |
| `phase`                      | the two, one after the other |

The phase writes in three ways: it adds keys that are not there, it fills keys that have no value, and it
replaces `PUBLIC_BASE_URL` when that is the default. Once it has been through, no key is missing or empty and
the origin is no longer the default, so that none of the three happens again.
-/
namespace DepositPortal.Install
open Lines

def PUBLIC_BASE_URL : Key := "PUBLIC_BASE_URL".toList

def DOMAIN : Key := "DOMAIN".toList

def ACME_EMAIL : Key := "ACME_EMAIL".toList

def ACME_STAGING : Key := "ACME_STAGING".toList

def DEFAULT_PUBLIC_BASE_URL : Line := "http://127.0.0.1:21600".toList

def FIRST_DEFAULTS : List (Key × Line) :=
  [("DB_USER".toList, "portail".toList), ("DB_NAME".toList, "portail_depot".toList)]

/-- Each call of `random_hex` has its own bytes. -/
def defaults (urandom : Nat → Nat → UInt8) : List (Key × Line) :=
  [(PUBLIC_BASE_URL, DEFAULT_PUBLIC_BASE_URL),
    ("DB_PASSWORD".toList, randomHex 32 (urandom 0)),
    ("JWT_SECRET".toList, randomHex 32 (urandom 1)),
    ("CLIENT_JWT_SECRET".toList, randomHex 32 (urandom 2)),
    ("STORAGE_ACCESS_KEY".toList, randomHex 16 (urandom 3)),
    ("STORAGE_SECRET_KEY".toList, randomHex 32 (urandom 4)),
    ("MINIO_ROOT_USER".toList, randomHex 16 (urandom 5)),
    ("MINIO_ROOT_PASSWORD".toList, randomHex 32 (urandom 6)),
    ("GRAFANA_ADMIN_PASSWORD".toList, randomHex 24 (urandom 7)),
    ("SEED_LAWYER_PASSWORD".toList, randomHex 12 (urandom 8)),
    ("SEED_LAWYER_EMAIL".toList, "avocat@example.com".toList),
    ("SEED_LAWYER_NAME".toList, "Maitre Dupont".toList)]

def setDefaults (escapes : Escapes) : List (Key × Line) → Text → Except Text Text
  | [], env => .ok env
  | (key, value) :: rest, env => do setDefaults escapes rest (← setEnvDefault escapes key value env)

/-- `.env.example` is there; `before` is `.env`, if it is there too. -/
def configure (escapes : Escapes) (urandom : Nat → Nat → UInt8) (envExample : Text) (before : Option Text) :
    Except Text Text := do
  let env := match before with
    | some env => (appendMissingKeys envExample env).1
    | none => envExample
  let env ← setDefaults escapes FIRST_DEFAULTS env
  if envGet PUBLIC_BASE_URL envExample = some DEFAULT_PUBLIC_BASE_URL then
    setDefaults escapes (defaults urandom) env
  else .error env

/-- `DOMAIN="$(env_get DOMAIN)"` stops when there is no such line; inside a test it is empty. -/
def alignTls (escapes : Escapes) (env : Text) : Except Text Text :=
  match envGet DOMAIN env, envGet ACME_EMAIL env, envGet ACME_STAGING env with
  | some domain, some acmeEmail, some _ =>
    if domain = [] then .ok env
    else if acmeEmail = [] then .error env
    else if (envGet PUBLIC_BASE_URL env).getD [] = DEFAULT_PUBLIC_BASE_URL then
      setEnvValue escapes PUBLIC_BASE_URL ("https://".toList ++ domain) env
    else .ok env
  | _, _, _ => .error env

def phase (escapes : Escapes) (urandom : Nat → Nat → UInt8) (envExample : Text) (before : Option Text) :
    Except Text Text := do
  alignTls escapes (← configure escapes urandom envExample before)

/-- `.env` as a run leaves it, whether it completes or stops. -/
def envAfter : Except Text Text → Text
  | .ok env => env
  | .error env => env

/-! ## The defaults -/

/-- A value without a backslash, on one line. -/
structure IsPlain (value : Line) : Prop where
  ne_nil : value ≠ []
  one_line : '\n' ∉ value
  no_backslash : '\\' ∉ value

theorem digitChar_plain {n : Nat} (h : n < 16) : Nat.digitChar n ≠ '\n' ∧ Nat.digitChar n ≠ '\\' := by
  have hall : ∀ n < 16, Nat.digitChar n ≠ '\n' ∧ Nat.digitChar n ≠ '\\' := by decide
  exact hall n h

theorem randomHex_plain {n : Nat} (hn : n ≠ 0) (urandom : Nat → UInt8) : IsPlain (randomHex n urandom) := by
  have hdigits : ∀ c ∈ randomHex n urandom, c ≠ '\n' ∧ c ≠ '\\' := by
    intro c hc
    obtain ⟨i, -, hc⟩ := List.mem_flatMap.1 hc
    have hlt := (urandom i).toNat_lt
    simp only [List.mem_cons, List.not_mem_nil, or_false] at hc
    rcases hc with rfl | rfl
    · exact digitChar_plain (by omega)
    · exact digitChar_plain (by omega)
  refine ⟨?_, fun hc => (hdigits _ hc).1 rfl, fun hc => (hdigits _ hc).2 rfl⟩
  obtain ⟨n, rfl⟩ := Nat.exists_eq_succ_of_ne_zero hn
  simp [randomHex, List.range_succ]

instance (key : Key) : Decidable (IsName key) :=
  decidable_of_iff (key ≠ [] ∧ '\n' ∉ key ∧ '=' ∉ key ∧ key.head? ≠ some '#')
    ⟨fun h => ⟨h.1, h.2.1, h.2.2.1, h.2.2.2⟩, fun h => ⟨h.ne_nil, h.one_line, h.no_equals, h.no_comment⟩⟩

instance (value : Line) : Decidable (IsPlain value) :=
  decidable_of_iff (value ≠ [] ∧ '\n' ∉ value ∧ '\\' ∉ value)
    ⟨fun h => ⟨h.1, h.2.1, h.2.2⟩, fun h => ⟨h.ne_nil, h.one_line, h.no_backslash⟩⟩

theorem firstDefaults_plain : ∀ p ∈ FIRST_DEFAULTS, IsName p.1 ∧ IsPlain p.2 := by
  decide

/-- The keys of the defaults do not depend on what is drawn. -/
theorem defaults_keys (urandom urandom' : Nat → Nat → UInt8) :
    (defaults urandom).map Prod.fst = (defaults urandom').map Prod.fst := rfl

theorem defaults_plain (urandom : Nat → Nat → UInt8) :
    ∀ p ∈ defaults urandom, IsName p.1 ∧ IsPlain p.2 := by
  have hnames : ∀ key ∈ (defaults urandom).map Prod.fst, IsName key := by
    rw [defaults_keys urandom fun _ _ => 0]
    decide +kernel
  intro p hp
  refine ⟨hnames p.1 (List.mem_map_of_mem hp), ?_⟩
  simp only [defaults, List.mem_cons, List.not_mem_nil, or_false] at hp
  rcases hp with rfl | rfl | rfl | rfl | rfl | rfl | rfl | rfl | rfl | rfl | rfl | rfl
  case inl => decide
  all_goals first | exact randomHex_plain (by decide) _ | decide

/-! ## What a step keeps -/

section
variable {escapes : Escapes} {key other : Key} {value : Line} {env env' env'' : Text}
  {urandom urandom' : Nat → Nat → UInt8} {envExample : Text}

/-- No key is lost, and the lines of a key that has a value stay as they are. -/
structure Keeps (env env' : Text) : Prop where
  keys : ∀ key, IsName key → HasKey key env → HasKey key env'
  lines : ∀ key, IsName key → HasValue key env → linesOfKey key env' = linesOfKey key env

theorem Keeps.refl (env : Text) : Keeps env env := ⟨fun _ _ h => h, fun _ _ _ => rfl⟩

/-- A value is found among the lines of its key. -/
theorem hasValue_iff_linesOfKey (hkey : '=' ∉ key) :
    HasValue key env ↔ ∃ line ∈ linesOfKey key env, hasValue key line = true := by
  constructor
  · rintro ⟨line, hline, hvalue⟩
    have hfield := field_of_hasKey hkey (hasKey_of_hasValue hvalue)
    exact ⟨line, List.mem_filter.2 ⟨hline, beq_iff_eq.2 hfield⟩, hvalue⟩
  · rintro ⟨line, hline, hvalue⟩
    exact ⟨line, (List.mem_filter.1 hline).1, hvalue⟩

theorem Keeps.values (h : Keeps env env') (hkey : IsName key) (hvalue : HasValue key env) :
    HasValue key env' := by
  rw [hasValue_iff_linesOfKey hkey.no_equals, h.lines key hkey hvalue, ← hasValue_iff_linesOfKey hkey.no_equals]
  exact hvalue

theorem Keeps.trans (h : Keeps env env') (h' : Keeps env' env'') : Keeps env env'' where
  keys key hkey hany := h'.keys key hkey (h.keys key hkey hany)
  lines key hkey hvalue := by rw [h'.lines key hkey (h.values hkey hvalue), h.lines key hkey hvalue]

theorem not_hasValue_iff : envValueMissing key env = true ↔ ¬ HasValue key env := by
  simp [envValueMissing]

/-- A key without a value gets one; a key with a value is left alone. -/
theorem setEnvDefault_keeps (hkey : IsName key) (hvalue : IsPlain value)
    (h : setEnvDefault escapes key value env = .ok env') : Keeps env env' ∧ HasValue key env' := by
  unfold setEnvDefault at h
  split at h
  · next hmissing =>
    have hno := not_hasValue_iff.1 hmissing
    have hreplaced := setEnvValue_ok h
    have happly := escapes.apply_plain hvalue.no_backslash
    obtain ⟨c, rest, rfl⟩ := List.exists_cons_of_ne_nil hvalue.ne_nil
    rw [newLines_one hkey (by rw [happly]; exact hvalue.one_line), happly] at hreplaced
    have hfield := field_of_hasKey hkey.no_equals (hasKey_self key (c :: rest))
    have hnew : hasValue key (key ++ '=' :: c :: rest) = true := hasValue_iff.2 ⟨c, rest, rfl⟩
    refine ⟨⟨fun other hother hany => ?_, fun other hother hany => ?_⟩, ?_⟩
    · exact hreplaced.hasKey hother.no_equals ⟨_, List.mem_singleton_self _, hasKey_self _ _⟩ hany
    · exact hreplaced.linesOfKey_eq hfield fun e => hno (e ▸ hany)
    · obtain ⟨before, old, after, -, -, -, hls'⟩ := hreplaced
      exact ⟨_, by rw [hls']; simp, hnew⟩
  · next hpresent =>
    cases h
    exact ⟨Keeps.refl env, not_not.1 fun hno => hpresent (not_hasValue_iff.2 hno)⟩

theorem setDefaults_keeps {pairs : List (Key × Line)} (hpairs : ∀ p ∈ pairs, IsName p.1 ∧ IsPlain p.2)
    (h : setDefaults escapes pairs env = .ok env') :
    Keeps env env' ∧ ∀ p ∈ pairs, HasValue p.1 env' := by
  induction pairs generalizing env with
  | nil => cases h; exact ⟨Keeps.refl _, by simp⟩
  | cons p pairs ih =>
    obtain ⟨key, value⟩ := p
    obtain ⟨⟨hkey, hvalue⟩, hrest⟩ := List.forall_mem_cons.1 hpairs
    cases hset : setEnvDefault escapes key value env with
    | error e => simp [setDefaults, hset, bind, Except.bind] at h
    | ok env₁ =>
      rw [setDefaults, hset] at h
      obtain ⟨hkeeps, hhas⟩ := setEnvDefault_keeps hkey hvalue hset
      obtain ⟨hkeeps', hall⟩ := ih hrest h
      exact ⟨hkeeps.trans hkeeps', List.forall_mem_cons.2 ⟨hkeeps'.values hkey hhas, hall⟩⟩

/-- With a value for every key, nothing is written. -/
theorem setDefaults_done {pairs : List (Key × Line)} (h : ∀ p ∈ pairs, HasValue p.1 env) :
    setDefaults escapes pairs env = .ok env := by
  induction pairs with
  | nil => rfl
  | cons p pairs ih =>
    obtain ⟨key, value⟩ := p
    obtain ⟨hhas, hrest⟩ := List.forall_mem_cons.1 h
    have hset : setEnvDefault escapes key value env = .ok env :=
      if_neg fun hmissing => not_hasValue_iff.1 hmissing hhas
    rw [setDefaults, hset]
    exact ih hrest

theorem appendMissingKeys_keeps (envExample env : Text) :
    Keeps env (appendMissingKeys envExample env).1 ∧
      ∀ key ∈ exampleKeys envExample, HasKey key (appendMissingKeys envExample env).1 where
  left :=
    { keys := fun _ _ hany => foldl_any (fun _ hkey => hkey) (env, 0) hany
      lines := fun _ hkey hvalue => by
        obtain ⟨line, hline, hhas⟩ := hvalue
        exact foldl_linesOfKey (fun _ hkey => hkey) (env, 0) hkey ⟨line, hline, hasKey_of_hasValue hhas⟩ }
  right := foldl_hasKey (fun _ hkey => hkey) (env, 0)

/-! ## The two parts of the phase -/

/-- A file that has been configured: no key is missing, and none of those with a default is empty. -/
structure Configured (envExample env : Text) : Prop where
  origin : envGet PUBLIC_BASE_URL envExample = some DEFAULT_PUBLIC_BASE_URL
  keys : ∀ key ∈ exampleKeys envExample, HasKey key env
  first : ∀ p ∈ FIRST_DEFAULTS, HasValue p.1 env
  values : ∀ urandom, ∀ p ∈ defaults urandom, HasValue p.1 env

/-- The file the defaults are set in. -/
def started (envExample : Text) : Option Text → Text
  | some env => (appendMissingKeys envExample env).1
  | none => envExample

theorem started_keys (envExample : Text) (before : Option Text) :
    ∀ key ∈ exampleKeys envExample, HasKey key (started envExample before) := by
  cases before with
  | none => exact fun key hkey => (exampleKeys_spec hkey).2
  | some env => exact (appendMissingKeys_keeps envExample env).2

theorem configure_eq (before : Option Text) : configure escapes urandom envExample before =
    (setDefaults escapes FIRST_DEFAULTS (started envExample before)).bind fun env =>
      if envGet PUBLIC_BASE_URL envExample = some DEFAULT_PUBLIC_BASE_URL then
        setDefaults escapes (defaults urandom) env
      else .error env := by
  cases before <;> rfl

theorem configure_spec {before : Option Text} (h : configure escapes urandom envExample before = .ok env) :
    Configured envExample env ∧ Keeps (started envExample before) env := by
  rw [configure_eq] at h
  cases hfirst : setDefaults escapes FIRST_DEFAULTS (started envExample before) with
  | error e => rw [hfirst] at h; cases h
  | ok env₁ =>
    rw [hfirst, Except.bind] at h
    split at h
    · next horigin =>
      obtain ⟨hkeeps, hall⟩ := setDefaults_keeps firstDefaults_plain hfirst
      obtain ⟨hkeeps', hall'⟩ := setDefaults_keeps (defaults_plain urandom) h
      have hkeys := started_keys envExample before
      refine ⟨⟨horigin, fun key hkey => ?_, fun p hp => ?_, fun urandom' p hp => ?_⟩, hkeeps.trans hkeeps'⟩
      · have hname := (exampleKeys_spec hkey).1
        exact hkeeps'.keys key hname (hkeeps.keys key hname (hkeys key hkey))
      · exact hkeeps'.values (firstDefaults_plain p hp).1 (hall p hp)
      · have hmem := List.mem_map_of_mem (f := Prod.fst) hp
        rw [defaults_keys urandom' urandom] at hmem
        obtain ⟨q, hq, hpq⟩ := List.mem_map.1 hmem
        exact hpq ▸ hall' q hq
    · cases h

/-- A configured file is left alone, whatever is drawn. -/
theorem Configured.configure (h : Configured envExample env) :
    configure escapes urandom envExample (some env) = .ok env := by
  have hstarted : started envExample (some env) = env :=
    congrArg Prod.fst (foldl_eq_self (env, 0) h.keys)
  rw [configure_eq, hstarted, setDefaults_done h.first, Except.bind, if_pos h.origin]
  exact setDefaults_done (h.values urandom)

/-! ### The origin -/

/-- What `env_get` reads depends on the lines of the key only. -/
theorem envGet_eq (hkey : '=' ∉ key) : envGet key env =
    ((linesOfKey key env).find? (hasKey key)).map fun line =>
      ((line.dropWhile (· != '=')).drop 1).filter (· != '\r') := by
  have hfind : ((linesOf env).filter fun line => field line == key).find? (hasKey key) =
      (linesOf env).find? (hasKey key) := by
    rw [List.find?_filter]
    congr 1
    funext line
    rw [Bool.eq_iff_iff, decide_eq_true_eq, beq_iff_eq]
    exact and_iff_right_of_imp (field_of_hasKey hkey)
  rw [envGet, linesOfKey, hfind]

theorem envGet_congr (hkey : '=' ∉ key) (h : linesOfKey key env' = linesOfKey key env) :
    envGet key env' = envGet key env := by
  rw [envGet_eq hkey, envGet_eq hkey, h]

/-- A value has no line feed. -/
theorem envGet_one_line {line : Line} (h : envGet key env = some line) : '\n' ∉ line := by
  obtain ⟨line', hfind, rfl⟩ := Option.map_eq_some_iff.1 h
  intro hmem
  have hdrop := (List.drop_sublist _ _).subset (List.mem_filter.1 hmem).1
  exact nl_not_mem (List.mem_of_find?_eq_some hfind) ((List.dropWhile_sublist _).subset hdrop)

/-- What the TLS part can do to a file, when it goes through. -/
theorem alignTls_cases (h : alignTls escapes env = .ok env') :
    env' = env ∨
    ∃ domain acmeEmail acmeStaging, envGet DOMAIN env = some domain ∧ envGet ACME_EMAIL env = some acmeEmail ∧
      envGet ACME_STAGING env = some acmeStaging ∧ domain ≠ [] ∧ acmeEmail ≠ [] ∧
      envGet PUBLIC_BASE_URL env = some DEFAULT_PUBLIC_BASE_URL ∧
      Replaced PUBLIC_BASE_URL (newLines escapes PUBLIC_BASE_URL ("https://".toList ++ domain)) env env' := by
  unfold alignTls at h
  split at h
  · next domain acmeEmail acmeStaging hdomain hemail hstaging =>
    split at h
    · cases h; exact .inl rfl
    · next hset =>
      split at h
      · cases h
      · next hmail =>
        split at h
        · next hdefault =>
          refine .inr ⟨domain, acmeEmail, acmeStaging, hdomain, hemail, hstaging, hset, hmail, ?_,
            setEnvValue_ok h⟩
          cases hget : envGet PUBLIC_BASE_URL env with
          | none => rw [hget] at hdefault; exact absurd hdefault (by decide)
          | some line => rw [hget] at hdefault; exact congrArg some hdefault
        · cases h; exact .inl rfl
  · cases h

theorem alignTls_error (h : alignTls escapes env = .error env') : env' = env := by
  unfold alignTls at h
  split at h
  · split at h
    · cases h
    · split at h
      · cases h; rfl
      · split at h
        · exact setEnvValue_error h
        · cases h
  · cases h; rfl

/-- It writes only when the origin is the default. -/
theorem envAfter_alignTls (h : envGet PUBLIC_BASE_URL env ≠ some DEFAULT_PUBLIC_BASE_URL) :
    envAfter (alignTls escapes env) = env := by
  cases ha : alignTls escapes env with
  | ok env' =>
    rcases alignTls_cases ha with rfl | ⟨_, _, _, -, -, -, -, -, hdefault, -⟩
    · rfl
    · exact absurd hdefault h
  | error env' => exact alignTls_error ha

theorem name_PUBLIC_BASE_URL : IsName PUBLIC_BASE_URL := by decide

/-- The lines of an aligned origin: an `https` one first. -/
theorem aligned_first (escapes : Escapes) (domain : Line) : ∃ rest more,
    newLines escapes PUBLIC_BASE_URL ("https://".toList ++ domain) =
      (PUBLIC_BASE_URL ++ '=' :: ("https://".toList ++ rest)) :: more :=
  newLines_first name_PUBLIC_BASE_URL (by decide) (escapes.apply_append (by decide) domain)

/-- The origin that is read then is not the default any more. -/
theorem aligned_origin {domain : Line}
    (h : Replaced PUBLIC_BASE_URL (newLines escapes PUBLIC_BASE_URL ("https://".toList ++ domain)) env env') :
    envGet PUBLIC_BASE_URL env' ≠ some DEFAULT_PUBLIC_BASE_URL := by
  obtain ⟨rest, more, hlines⟩ := aligned_first escapes domain
  obtain ⟨before, old, after, -, -, hbefore, hls'⟩ := h
  have hnone : before.find? (hasKey PUBLIC_BASE_URL) = none := by
    refine List.find?_eq_none.2 fun line hline hhas => ?_
    exact hbefore line hline (field_of_hasKey name_PUBLIC_BASE_URL.no_equals hhas)
  have hget : envGet PUBLIC_BASE_URL env' = some ("https://".toList ++ rest.filter (· != '\r')) := by
    rw [envGet, hls', hlines, List.append_assoc, List.find?_append, hnone, List.cons_append,
      List.find?_cons_of_pos (hasKey_self _ _)]
    rfl
  rw [hget]
  intro e
  have hfifth : some 's' = some ':' := congrArg (·[4]?) (Option.some.inj e)
  exact absurd hfifth (by decide)

/-- Without a backslash in the domain there is one line in the place of another. -/
theorem aligned_line {domain : Line} (hline : '\n' ∉ domain) (hplain : '\\' ∉ domain) :
    newLines escapes PUBLIC_BASE_URL ("https://".toList ++ domain) =
      [PUBLIC_BASE_URL ++ '=' :: ("https://".toList ++ domain)] := by
  have happly : escapes.apply ("https://".toList ++ domain) = "https://".toList ++ domain := by
    refine escapes.apply_plain fun hmem => ?_
    rcases List.mem_append.1 hmem with hmem | hmem
    · exact absurd hmem (by decide)
    · exact hplain hmem
  have hvalue : '\n' ∉ escapes.apply ("https://".toList ++ domain) := by
    rw [happly, List.mem_append, not_or]
    exact ⟨by decide, hline⟩
  rw [newLines_one name_PUBLIC_BASE_URL hvalue, happly]

theorem phase_ok {before : Option Text} (h : phase escapes urandom envExample before = .ok env') :
    ∃ env, configure escapes urandom envExample before = .ok env ∧ alignTls escapes env = .ok env' := by
  unfold phase at h
  cases hc : configure escapes urandom envExample before with
  | error e => rw [hc] at h; cases h
  | ok env => rw [hc] at h; exact ⟨env, rfl, h⟩

/-- On a configured file only the TLS part is left. -/
theorem Configured.phase (h : Configured envExample env) :
    phase escapes urandom envExample (some env) = alignTls escapes env := by
  unfold Install.phase
  rw [h.configure]
  rfl

/-- The TLS part keeps a file configured. -/
theorem Configured.aligned {new : List Line} (h : Configured envExample env)
    (hreplaced : Replaced PUBLIC_BASE_URL new env env')
    (hnew : ∃ line ∈ new, hasValue PUBLIC_BASE_URL line = true) : Configured envExample env' where
  origin := h.origin
  keys key hkey := by
    obtain ⟨line, hline, hvalue⟩ := hnew
    exact hreplaced.hasKey (exampleKeys_spec hkey).1.no_equals ⟨line, hline, hasKey_of_hasValue hvalue⟩
      (h.keys key hkey)
  first p hp := hreplaced.hasValue (firstDefaults_plain p hp).1.no_equals hnew (h.first p hp)
  values urandom p hp :=
    hreplaced.hasValue (defaults_plain urandom p hp).1.no_equals hnew (h.values urandom p hp)

end

/-! ## Running it again -/

/-- The domain that a run reads. -/
def domainOf (escapes : Escapes) (urandom : Nat → Nat → UInt8) (envExample : Text) (before : Option Text) :
    Line :=
  match configure escapes urandom envExample before with
  | .ok env => (envGet DOMAIN env).getD []
  | .error _ => []

/-- What was chosen is kept, from `before` to `after` and by every later run. The domain is the one value
that `awk -v` gets from the file: a `\n` that is written out in it makes two lines of one. -/
structure ChoicesKept (escapes : Escapes) (urandom : Nat → Nat → UInt8) (envExample : Text)
    (before : Option Text) (after : Text) : Prop where
  keys : ∀ key ∈ exampleKeys envExample, HasKey key after
  /-- The exception is the default origin, when there is a domain. -/
  values : ∀ text key, before = some text → IsName key → HasValue key text →
    ¬ (key = PUBLIC_BASE_URL ∧ envGet PUBLIC_BASE_URL text = some DEFAULT_PUBLIC_BASE_URL ∧
      domainOf escapes urandom envExample before ≠ []) →
    (linesOfKey key text).Sublist (linesOfKey key after) ∧
      ('\\' ∉ domainOf escapes urandom envExample before → linesOfKey key after = linesOfKey key text)
  again : ∀ urandom', envAfter (phase escapes urandom' envExample (some after)) = after
  completes : '\\' ∉ domainOf escapes urandom envExample before →
    ∀ urandom', phase escapes urandom' envExample (some after) = .ok after

section
variable {escapes : Escapes} {urandom : Nat → Nat → UInt8} {envExample env after : Text}
  {before : Option Text}

/-- A run that did not touch the origin. -/
theorem kept_of_same (hconfigure : configure escapes urandom envExample before = .ok env)
    (halign : alignTls escapes env = .ok env) : ChoicesKept escapes urandom envExample before env := by
  obtain ⟨hconfigured, hkeeps⟩ := configure_spec hconfigure
  refine ⟨hconfigured.keys, fun text key htext hkey hvalue _ => ?_, fun _ => ?_, fun _ _ => ?_⟩
  · subst htext
    have hstart := (appendMissingKeys_keeps envExample text).1
    have hlines := (hstart.trans hkeeps).lines key hkey hvalue
    exact ⟨by rw [hlines], fun _ => hlines⟩
  · rw [hconfigured.phase, halign]
    rfl
  · rw [hconfigured.phase, halign]

/-- A run that aligned the origin with the domain. -/
theorem kept_of_aligned {domain acmeEmail acmeStaging : Line}
    (hconfigure : configure escapes urandom envExample before = .ok env)
    (hdomain : envGet DOMAIN env = some domain) (hemail : envGet ACME_EMAIL env = some acmeEmail)
    (hstaging : envGet ACME_STAGING env = some acmeStaging) (hset : domain ≠ []) (hmail : acmeEmail ≠ [])
    (hdefault : envGet PUBLIC_BASE_URL env = some DEFAULT_PUBLIC_BASE_URL)
    (hreplaced : Replaced PUBLIC_BASE_URL
      (newLines escapes PUBLIC_BASE_URL ("https://".toList ++ domain)) env after) :
    ChoicesKept escapes urandom envExample before after := by
  obtain ⟨hconfigured, hkeeps⟩ := configure_spec hconfigure
  have hdomainOf : domainOf escapes urandom envExample before = domain := by
    simp only [domainOf, hconfigure, hdomain, Option.getD_some]
  obtain ⟨rest, more, hnew⟩ := aligned_first escapes domain
  have hvalue : hasValue PUBLIC_BASE_URL (PUBLIC_BASE_URL ++ '=' :: ("https://".toList ++ rest)) = true :=
    hasValue_iff.2 ⟨'h', "ttps://".toList ++ rest, rfl⟩
  have hagain := hconfigured.aligned hreplaced ⟨_, by rw [hnew]; exact List.mem_cons_self, hvalue⟩
  have horigin := aligned_origin hreplaced
  -- without a backslash one line took the place of another, and the other keys read as before
  have hsame : '\\' ∉ domain → ∀ key ≠ PUBLIC_BASE_URL, linesOfKey key after = linesOfKey key env := by
    intro hplain key hne
    rw [aligned_line (envGet_one_line hdomain) hplain] at hreplaced
    exact hreplaced.linesOfKey_eq
      (field_of_hasKey name_PUBLIC_BASE_URL.no_equals (hasKey_self _ _)) hne
  refine ⟨hagain.keys, fun text key htext hkey hhas hexcept => ?_, fun _ => ?_, fun hplain _ => ?_⟩
  · subst htext
    have hlines := ((appendMissingKeys_keeps envExample text).1.trans hkeeps).lines key hkey hhas
    have hne : key ≠ PUBLIC_BASE_URL := by
      rintro rfl
      refine hexcept ⟨rfl, ?_, hdomainOf ▸ hset⟩
      rw [← envGet_congr name_PUBLIC_BASE_URL.no_equals hlines, hdefault]
    rw [hdomainOf, ← hlines]
    exact ⟨hreplaced.sublist hne, fun hplain => hsame hplain key hne⟩
  · rw [hagain.phase, envAfter_alignTls horigin]
  · rw [hdomainOf] at hplain
    have hread : ∀ key, '=' ∉ key → key ≠ PUBLIC_BASE_URL → envGet key after = envGet key env :=
      fun key hkey hne => envGet_congr hkey (hsame hplain key hne)
    have hother : (envGet PUBLIC_BASE_URL after).getD [] ≠ DEFAULT_PUBLIC_BASE_URL := by
      cases hget : envGet PUBLIC_BASE_URL after with
      | none => decide
      | some line => exact fun e => horigin (hget.trans (congrArg some e))
    rw [hagain.phase, alignTls, hread DOMAIN (by decide) (by decide), hread ACME_EMAIL (by decide) (by decide),
      hread ACME_STAGING (by decide) (by decide), hdomain, hemail, hstaging]
    simp only [if_neg hset, if_neg hmail, if_neg hother]

/-- **Running the installer again keeps every chosen value.** For every `.env` and `.env.example` on which
the phase completes; and setting one key leaves every line that is not of it where it is. -/
theorem rerun_keeps (h : phase escapes urandom envExample before = .ok after) :
    ChoicesKept escapes urandom envExample before after ∧
    ∀ key value env env', IsName key → setEnvValue escapes key value env = .ok env' →
      ∃ new, Replaced key new env env' ∧
        ('\\' ∉ value → '\n' ∉ value → new = [key ++ '=' :: value]) := by
  refine ⟨?_, fun key value env env' hkey hset => ⟨_, setEnvValue_ok hset, fun hplain hline => ?_⟩⟩
  · obtain ⟨env, hconfigure, halign⟩ := phase_ok h
    rcases alignTls_cases halign with rfl | ⟨domain, acmeEmail, acmeStaging, hdomain, hemail, hstaging,
      hset, hmail, hdefault, hreplaced⟩
    · exact kept_of_same hconfigure halign
    · exact kept_of_aligned hconfigure hdomain hemail hstaging hset hmail hdefault hreplaced
  · have happly := escapes.apply_plain hplain
    rw [newLines_one hkey (by rwa [happly]), happly]

end

/-- One-letter escapes; those that the language does not define stay as they are. -/
def readEscape (c : Char) : Text :=
  if c = 'n' then ['\n'] else if c = 't' then ['\t'] else if c = 'r' then ['\r']
  else if c = '\\' ∨ c = '/' ∨ c = '"' then [c] else ['\\', c]

def readEscapes : Text → Text
  | [] => []
  | [c] => [c]
  | c :: d :: s => if c = '\\' then readEscape d ++ readEscapes s else c :: readEscapes (d :: s)

def letterEscapes : Escapes where
  apply := readEscapes
  nil := rfl
  plain c s hc := by
    cases s with
    | nil => rfl
    | cons d s => rw [readEscapes, if_neg hc]

/-- The keys the phase needs, and one comment. -/
def shortExample : Text :=
  unlines '\n' (["# the address", "PUBLIC_BASE_URL=http://127.0.0.1:21600", "DOMAIN=", "ACME_EMAIL=",
    "ACME_STAGING=", "DB_USER=", "DB_PASSWORD=", "DB_NAME=", "STORAGE_ACCESS_KEY=", "STORAGE_SECRET_KEY=",
    "MINIO_ROOT_USER=", "MINIO_ROOT_PASSWORD=", "GRAFANA_ADMIN_PASSWORD=", "JWT_SECRET=",
    "CLIENT_JWT_SECRET=", "SEED_LAWYER_EMAIL=", "SEED_LAWYER_NAME=",
    "SEED_LAWYER_PASSWORD="].map String.toList)

/-- A password with an `=`, a key twice, a bare key, and no line feed at the end. -/
def shortEnv : Text :=
  unlines '\n' (["DB_PASSWORD=a=b", "JWT_SECRET=", "JWT_SECRET=chosen", "DB_USER",
    "ACME_EMAIL=a@b.fr"].map String.toList) ++ "DOMAIN=portail.fr".toList

theorem rerun_keeps_short : ∃ after,
    phase letterEscapes (fun _ _ => 0) shortExample (some shortEnv) = .ok after ∧
    ChoicesKept letterEscapes (fun _ _ => 0) shortExample (some shortEnv) after ∧
    ∀ key value env env', IsName key → setEnvValue letterEscapes key value env = .ok env' →
      ∃ new, Replaced key new env env' ∧
        ('\\' ∉ value → '\n' ∉ value → new = [key ++ '=' :: value]) := by
  have hok : (phase letterEscapes (fun _ _ => 0) shortExample (some shortEnv)).toOption.isSome = true := by
    decide +kernel
  cases h : phase letterEscapes (fun _ _ => 0) shortExample (some shortEnv) with
  | error e => rw [h] at hok; cases hok
  | ok after => exact ⟨after, rfl, rerun_keeps h⟩

end DepositPortal.Install
