import DepositPortal.Config.Assembled

/-!
# What the assembled connection string names

Read with `URL` and `decodeURIComponent`, as the specs of `buildDatabaseUrl` read it, the string must give
back what was configured. The host is the part that decides: it must be one that the parser takes as it
is, or an address the way the parser writes it.
-/
namespace DepositPortal.Config
open Binary64

/-- The parsed string gives back what was configured. -/
structure Named (raw : Raw) (url : Url) : Prop where
  user : decodeURIComponent url.username = some (readString raw (js "DB_USER"))
  password : decodeURIComponent url.password = some (readString raw (js "DB_PASSWORD"))
  host : decodeURIComponent url.hostname = some (readString raw (js "DB_HOST"))
  port : ∃ port : Nat, Number (readString raw (js "DB_PORT")) = .finite port ∧ url.port = decimal port
  database : decodeURIComponent url.pathname = some (js "/" ++ readString raw (js "DB_NAME"))

/-- The string passes the check of an explicit one, and names what was configured. -/
def NamesConfigured (special : JsString → Option Url) (raw : Raw) (text : JsString) : Prop :=
  inspectUrl special text = none ∧ ∃ url, parseUrl special text = some url ∧ Named raw url

/-- No forbidden host code point, no `%`, and no surrogate without its other half. -/
def PlainHost (host : JsString) : Prop :=
  ofScalars (toScalars host) = host ∧ ∀ cp ∈ toScalars host, isForbiddenHost cp = false ∧ cp ≠ 0x25

/-- An address in brackets, written as the parser writes it. -/
def CanonicalIPv6 (host : JsString) : Prop :=
  ∃ pieces, parseIPv6 (toScalars host).tail.dropLast = some pieces ∧
    host = js "[" ++ serializeIPv6 pieces ++ js "]"

variable {special : JsString → Option Url} {raw : Raw} {env : Env} {host hostname name : JsString}
  {user password database : JsString} {port : Nat} {pieces : List Nat} {c : UInt16} {url : Url}

/-! ## What is assembled -/

/-- The encoded parts of an accepted environment. -/
structure Parts (raw : Raw) (user password database : JsString) (port : Nat) : Prop where
  user : encodeURIComponent (readString raw (js "DB_USER")) = some user
  password : encodeURIComponent (readString raw (js "DB_PASSWORD")) = some password
  database : encodeURIComponent (readString raw (js "DB_NAME")) = some database
  number : Number (readString raw (js "DB_PORT")) = .finite port
  port_le : port ≤ 65535
  filled : ∀ key ∈ REQUIRED_DB_KEYS, readString raw key ≠ []

theorem eq_of_portOf {d : Double} (h : portOf d = some port) : d = .finite port ∧ port ≤ 65535 := by
  unfold portOf at h
  split at h
  · next q =>
    rw [Option.ite_none_right_eq_some] at h
    obtain ⟨hcond, hport⟩ := h
    simp only [Bool.and_eq_true, decide_eq_true_eq, isInteger] at hcond
    obtain ⟨⟨hint, hone⟩, hle⟩ := hcond
    cases hport
    have hnum : ((q.num.toNat : ℤ) : ℤ) = q.num :=
      Int.toNat_of_nonneg (Rat.num_nonneg.2 (by linarith))
    have hq : ((q.num.toNat : ℕ) : ℚ) = q := by
      rw [← Int.cast_natCast, hnum]
      exact Rat.coe_int_num_of_den_eq_one hint
    refine ⟨by rw [hq], ?_⟩
    rw [← hq] at hle
    exact_mod_cast hle
  · cases h

theorem encoded_eq {s e : JsString} (h : encoded s = .ok e) : encodeURIComponent s = some e := by
  unfold encoded at h
  split at h
  · next hs => cases h; exact hs
  · cases h

theorem Accepted.parts (h : Accepted special raw env) (hexplicit : readString raw (js "DATABASE_URL") = []) :
    ∃ user password database port, Parts raw user password database port ∧
      env.DATABASE_URL = urlText user password (readString raw (js "DB_HOST")) port database := by
  obtain ⟨hissues, -, hbuild⟩ := h.assembled hexplicit
  simp only [inspectDatabase, List.append_eq_nil_iff] at hissues
  obtain ⟨hmissing, hport⟩ := hissues
  have hmissing := missing_of_issue hmissing
  cases hof : portOf (Number (readString raw (js "DB_PORT"))) with
  | none => simp [hmissing, hof] at hport
  | some port =>
    obtain ⟨hnumber, hle⟩ := eq_of_portOf hof
    simp only [inspectDatabase, hof, Option.getD_some] at hbuild
    cases hu : encoded (readString raw (js "DB_USER")) with
    | error e => simp [buildDatabaseUrl, databaseEnv, hu, bind, Except.bind] at hbuild
    | ok user =>
      cases hp : encoded (readString raw (js "DB_PASSWORD")) with
      | error e => simp [buildDatabaseUrl, databaseEnv, hu, hp, bind, Except.bind] at hbuild
      | ok password =>
        cases hd : encoded (readString raw (js "DB_NAME")) with
        | error e => simp [buildDatabaseUrl, databaseEnv, hu, hp, hd, bind, Except.bind] at hbuild
        | ok database =>
          simp only [buildDatabaseUrl, databaseEnv, hu, hp, hd, bind, Except.bind, pure, Except.pure,
            Except.ok.injEq] at hbuild
          exact ⟨user, password, database, port, {
            user := encoded_eq hu
            password := encoded_eq hp
            database := encoded_eq hd
            number := hnumber
            port_le := hle
            filled := fun key hk => ne_nil_of_missing hmissing hk }, hbuild.symm⟩

/-! ## Hosts that are taken as they are -/

theorem toScalars_ne_nil (h : host ≠ []) : toScalars host ≠ [] := fun he => by
  have hlen := length_ofScalars host
  rw [he] at hlen
  exact h (List.eq_nil_of_length_eq_zero hlen.symm)

theorem hostPoints_eq (h : ∀ cp ∈ toScalars host, isTabOrNewline cp = false) :
    hostPoints host = toScalars host :=
  List.filter_eq_self.2 fun cp hcp => by simp [h cp hcp]

/-- What the parser does with a host that gives it back. -/
structure Taken (host : JsString) (port : Nat) : Prop where
  points : hostPoints host = toScalars host
  whole : Whole (toScalars host) port
  read : ∃ hostname, parseHost (toScalars host) = some hostname ∧
    decodeURIComponent hostname = some host

theorem PlainHost.taken (h : PlainHost host) (hne : host ≠ []) : Taken host port := by
  have hforbidden : ∀ x, isForbiddenHost x = true → ∀ cp ∈ toScalars host, cp ≠ x := by
    rintro x hx cp hcp rfl
    rw [(h.2 cp hcp).1] at hx
    cases hx
  have hopen : (toScalars host).head? ≠ some 0x5b := fun he =>
    hforbidden 0x5b (by decide) _ (List.mem_of_mem_head? he) rfl
  have hany : (toScalars host).any isForbiddenHost = false := by
    rw [List.any_eq_false]
    exact fun cp hcp => by simp [(h.2 cp hcp).1]
  exact {
    points := hostPoints_eq fun cp hcp => by
      have htab := hforbidden 0x9 (by decide) cp hcp
      have hfeed := hforbidden 0xa (by decide) cp hcp
      have hreturn := hforbidden 0xd (by decide) cp hcp
      simp [isTabOrNewline, htab, hfeed, hreturn]
    whole := {
      nonempty := toScalars_ne_nil hne
      delimited := fun cp hcp => ⟨hforbidden 0x23 (by decide) cp hcp, hforbidden 0x2f (by decide) cp hcp,
        hforbidden 0x3f (by decide) cp hcp, hforbidden 0x40 (by decide) cp hcp⟩
      split := splitPort_of_plain fun cp hcp =>
        ⟨hforbidden 0x3a (by decide) cp hcp, hforbidden 0x5b (by decide) cp hcp⟩ }
    read := by
      refine ⟨percentEncode c0ControlSet (toScalars host), ?_, ?_⟩
      · rw [parseHost, if_neg hopen, hany]
        rfl
      · rw [decode_percentEncode covers_c0Control isScalar_toScalars fun hp => (h.2 _ hp).2 rfl, h.1] }

theorem toScalars_address : toScalars (js "[" ++ serializeIPv6 pieces ++ js "]") =
    0x5b :: (units (serializeIPv6 pieces) ++ [0x5d]) := by
  have hopen : ∀ c ∈ js "[", isSingle c = true := List.all_iff_forall_prop.1 (by decide)
  have hclose : ∀ c ∈ js "]", isSingle c = true := List.all_iff_forall_prop.1 (by decide)
  have hsingle : ∀ c ∈ js "[" ++ serializeIPv6 pieces ++ js "]", isSingle c = true := by
    simp only [List.forall_mem_append]
    exact ⟨⟨hopen, fun c hc => (addressUnit_facts (isAddressUnit_serialize hc)).1⟩, hclose⟩
  rw [toScalars_map hsingle]
  simp [units, js]

theorem address_ne {x cp : Nat} (hcp : cp ∈ units (serializeIPv6 pieces))
    (hx : x ∈ [0x23, 0x2f, 0x3f, 0x40, 0x5b, 0x5d]) : cp ≠ x := by
  obtain ⟨c, hc, rfl⟩ := List.mem_map.1 hcp
  exact (addressUnit_facts (isAddressUnit_serialize hc)).2.2.2 x hx

/-- Nothing in an address is encoded. -/
theorem decode_address : decodeURIComponent (js "[" ++ serializeIPv6 pieces ++ js "]") =
    some (js "[" ++ serializeIPv6 pieces ++ js "]") := by
  have hdecode : ∀ s : JsString, (∀ c ∈ s, c ≠ 0x25) → decodeURIComponent s = some s := by
    intro s hs
    induction s with
    | nil => rfl
    | cons c s ih =>
      rw [List.forall_mem_cons] at hs
      rw [decode_unit hs.1, ih hs.2]
      rfl
  have hopen : ∀ c ∈ js "[", c ≠ 0x25 := List.all_iff_forall_prop.1 (by decide)
  have hclose : ∀ c ∈ js "]", c ≠ 0x25 := List.all_iff_forall_prop.1 (by decide)
  refine hdecode _ ?_
  simp only [List.forall_mem_append]
  exact ⟨⟨hopen, fun c hc => (addressUnit_facts (isAddressUnit_serialize hc)).2.1⟩, hclose⟩

/-- An address in brackets, as the parser writes it, is found whole. -/
theorem whole_address (pieces : List Nat) (port : Nat) :
    hostPoints (js "[" ++ serializeIPv6 pieces ++ js "]") =
      toScalars (js "[" ++ serializeIPv6 pieces ++ js "]") ∧
    Whole (toScalars (js "[" ++ serializeIPv6 pieces ++ js "]")) port := by
  have hmem : ∀ cp ∈ toScalars (js "[" ++ serializeIPv6 pieces ++ js "]"),
      cp = 0x5b ∨ cp ∈ units (serializeIPv6 pieces) ∨ cp = 0x5d := by
    intro cp hcp
    rw [toScalars_address, List.mem_cons, List.mem_append, List.mem_singleton] at hcp
    exact hcp
  refine ⟨hostPoints_eq fun cp hcp => ?_, ?_, fun cp hcp => ?_, ?_⟩
  · rcases hmem cp hcp with rfl | hcp | rfl
    · rfl
    · obtain ⟨c, hc, rfl⟩ := List.mem_map.1 hcp
      have hgt := (addressUnit_facts (isAddressUnit_serialize hc)).2.2.1
      simp [isTabOrNewline]
      omega
    · rfl
  · rw [toScalars_address]
    exact List.cons_ne_nil _ _
  · rcases hmem cp hcp with rfl | hcp | rfl
    · decide
    · exact ⟨address_ne hcp (by simp), address_ne hcp (by simp), address_ne hcp (by simp),
        address_ne hcp (by simp)⟩
    · decide
  · rw [toScalars_address, List.cons_append, List.append_assoc, List.singleton_append, splitPort]
    simp only [show ¬ (0x5b = 0x3a) by decide, false_and, if_false, if_true,
      splitPort_inside fun cp hcp => ⟨address_ne hcp (by simp), address_ne hcp (by simp)⟩]

theorem CanonicalIPv6.taken (h : CanonicalIPv6 host) : Taken host port := by
  obtain ⟨pieces, hparse, rfl⟩ := h
  obtain ⟨hpoints, hwhole⟩ := whole_address pieces port
  refine ⟨hpoints, hwhole, _, ?_, decode_address⟩
  rw [toScalars_address] at hparse ⊢
  rw [parseHost, List.head?_cons, if_pos rfl, ← List.cons_append, List.getLast?_concat, if_pos rfl,
    List.cons_append, hparse]
  rfl

/-- The host of an address that is parsed. -/
theorem address_of_parseHost {part : List Nat} (h : parseHost part = some hostname) (hopen : 0x5b ∈ part) :
    ∃ pieces, parseIPv6 part.tail.dropLast = some pieces ∧
      hostname = js "[" ++ serializeIPv6 pieces ++ js "]" := by
  unfold parseHost at h
  split at h
  · split at h
    · obtain ⟨pieces, hparse, rfl⟩ := Option.map_eq_some_iff.1 h
      exact ⟨pieces, hparse, rfl⟩
    · cases h
  · rw [if_pos (List.any_eq_true.2 ⟨0x5b, hopen, rfl⟩)] at h
    cases h

/-- A part that is decoded to the whole host is the whole. -/
theorem plain_of_part {part : List Nat} (hsub : part.Sublist (hostPoints host)) (hopen : 0x5b ∉ part)
    (h : parseHost part = some hostname) (hdecode : decodeURIComponent hostname = some host) :
    PlainHost host := by
  have hsub : part.Sublist (toScalars host) := hsub.trans List.filter_sublist
  have hscalar : ∀ cp ∈ part, IsScalar cp := fun cp hcp => isScalar_toScalars cp (hsub.subset hcp)
  have hhead : part.head? ≠ some 0x5b := fun he => hopen (List.mem_of_mem_head? he)
  unfold parseHost at h
  rw [if_neg hhead] at h
  split at h
  · cases h
  · next hforbidden =>
    cases h
    obtain ⟨hle, hlt⟩ := length_decode_le covers_c0Control (by decide) hscalar hdecode
    have heq : part = toScalars host := eq_of_sublist_length hsub (by rwa [length_ofScalars])
    have hpercent : 0x25 ∉ part := fun hp => by
      have := hlt hp
      rw [heq, length_ofScalars] at this
      omega
    rw [decode_percentEncode covers_c0Control hscalar hpercent, heq] at hdecode
    rw [heq] at hforbidden hpercent
    refine ⟨Option.some.inj hdecode, fun cp hcp => ⟨?_, fun e => hpercent (e ▸ hcp)⟩⟩
    by_contra hno
    exact hforbidden (List.any_eq_true.2 ⟨cp, hcp, by simpa using hno⟩)

/-! ## What is named -/

theorem Parts.written (h : Parts raw user password database port) :
    Written user ∧ Written password ∧ Written database :=
  ⟨isUriUnit_encode h.user, isUriUnit_encode h.password, isUriUnit_encode h.database⟩

theorem Parts.database_ne_nil (h : Parts raw user password database port) : database ≠ [] := by
  rintro rfl
  have hname := decode_encode h.database
  exact h.filled (js "DB_NAME") (by decide) (Option.some.inj hname).symm

/-- The name is a segment of dots exactly when it is written so. -/
theorem isDots_iff (h : encodeURIComponent name = some database) :
    (isSingleDot database || isDoubleDot database) = true ↔ name = js "." ∨ name = js ".." := by
  have hname := decode_encode h
  constructor
  · rw [Bool.or_eq_true]
    rintro (hd | hd)
    · rw [decode_singleDot hd] at hname
      exact .inl (Option.some.inj hname).symm
    · rw [decode_doubleDot hd] at hname
      exact .inr (Option.some.inj hname).symm
  · have hsame : ∀ s e : JsString, encodeURIComponent s = some s → s = name → database = s := by
      rintro s - hs rfl
      exact Option.some.inj (h.symm.trans hs)
    rintro (hd | hd)
    · rw [hsame (js ".") [] (by decide) hd.symm]; rfl
    · rw [hsame (js "..") [] (by decide) hd.symm]; rfl

/-- A host that is taken as it is leaves only the name to be read. -/
theorem parse_taken (special : JsString → Option Url) (hparts : Parts raw user password database port)
    (ht : Taken (readString raw (js "DB_HOST")) port) :
    ∃ hostname, parseHost (toScalars (readString raw (js "DB_HOST"))) = some hostname ∧
      decodeURIComponent hostname = some (readString raw (js "DB_HOST")) ∧
      parseUrl special (urlText user password (readString raw (js "DB_HOST")) port database) =
        some ⟨js "postgresql:", user, password, hostname, decimal port,
          if isSingleDot database || isDoubleDot database then js "/" else js "/" ++ database,
          [], [], js "null"⟩ := by
  obtain ⟨hu, hp, hd⟩ := hparts.written
  obtain ⟨hostname, hhost, hdecode⟩ := ht.read
  refine ⟨hostname, hhost, hdecode, ?_⟩
  rw [parse_urlText hu hp hd hparts.database_ne_nil, ht.points,
    parse_whole hu hp hd ht.whole hparts.port_le, hhost, pathname_written hd]
  rfl

theorem named_of_taken (hparts : Parts raw user password database port)
    (ht : Taken (readString raw (js "DB_HOST")) port)
    (hname : readString raw (js "DB_NAME") ≠ js "." ∧ readString raw (js "DB_NAME") ≠ js "..") :
    NamesConfigured special raw (urlText user password (readString raw (js "DB_HOST")) port database) := by
  obtain ⟨hostname, -, hdecode, hparse⟩ := parse_taken special hparts ht
  have hdots : (isSingleDot database || isDoubleDot database) = false := by
    rw [Bool.eq_false_iff, Ne, isDots_iff hparts.database]
    exact fun hd => hd.elim hname.1 hname.2
  rw [hdots, if_neg Bool.false_ne_true] at hparse
  refine ⟨?_, _, hparse, ?_⟩
  · have hhost : hostname.length ≠ 0 := fun hlen => by
      rw [List.eq_nil_of_length_eq_zero hlen] at hdecode
      exact hparts.filled (js "DB_HOST") (by decide) (Option.some.inj hdecode).symm
    have hdatabase := hparts.database_ne_nil
    have hhead : (js "/" ++ database).head? = some 0x2f := rfl
    have htail : (js "/" ++ database).tail = database := rfl
    have hprotocol : URL_PROTOCOLS.contains (js "postgresql:") = true := by decide
    rw [inspectUrl, hparse]
    simp only [hprotocol, hhost, hhead, htail, Bool.not_true, Bool.false_eq_true, if_false, if_true]
    rw [if_neg fun hlen => hdatabase (List.eq_nil_of_length_eq_zero hlen)]
  · exact {
      user := decode_encode hparts.user
      password := decode_encode hparts.password
      host := hdecode
      port := ⟨port, hparts.number, rfl⟩
      database := by
        show decodeURIComponent (0x2f :: database) = _
        rw [decode_unit (by decide), decode_encode hparts.database]
        rfl }

theorem taken_of_named (hparts : Parts raw user password database port)
    (h : parseUrl special (urlText user password (readString raw (js "DB_HOST")) port database) = some url)
    (hnamed : Named raw url) :
    PlainHost (readString raw (js "DB_HOST")) ∨ CanonicalIPv6 (readString raw (js "DB_HOST")) := by
  obtain ⟨hu, hp, hd⟩ := hparts.written
  rw [parse_urlText hu hp hd hparts.database_ne_nil] at h
  obtain ⟨part, hpart, hsub⟩ := hostname_of_parse hu hp h
  by_cases hopen : 0x5b ∈ part
  · -- the host is the address that was parsed, and as such it is parsed again
    obtain ⟨pieces, -, hhost⟩ := address_of_parseHost hpart hopen
    have hsame : readString raw (js "DB_HOST") = js "[" ++ serializeIPv6 pieces ++ js "]" := by
      have hdecode := hnamed.host
      rw [hhost, decode_address] at hdecode
      exact (Option.some.inj hdecode).symm
    obtain ⟨hpoints, hwhole⟩ := whole_address pieces port
    rw [hsame] at h
    rw [hpoints, parse_whole hu hp hd hwhole hparts.port_le, Option.map_eq_some_iff] at h
    obtain ⟨hostname, hagain, hurl⟩ := h
    obtain rfl : hostname = url.hostname := congrArg Url.hostname hurl
    have hmem : 0x5b ∈ toScalars (js "[" ++ serializeIPv6 pieces ++ js "]") := by
      rw [toScalars_address]
      exact List.mem_cons_self
    obtain ⟨pieces', hparse, hhost'⟩ := address_of_parseHost hagain hmem
    rw [hsame]
    exact .inr ⟨pieces', hparse, hhost.symm.trans hhost'⟩
  · exact .inl (plain_of_part (hsub hopen) hopen hpart hnamed.host)

/-- **The assembled string names what was configured exactly when the host is one the parser takes as it is
and the name is not a segment of dots.** -/
theorem assembled_names_iff (special : JsString → Option Url) (raw : Raw) (env : Env)
    (h : validateEnv special raw = .ok env) (hexplicit : readString raw (js "DATABASE_URL") = []) :
    NamesConfigured special raw env.DATABASE_URL ↔
      (PlainHost (readString raw (js "DB_HOST")) ∨ CanonicalIPv6 (readString raw (js "DB_HOST"))) ∧
      readString raw (js "DB_NAME") ≠ js "." ∧ readString raw (js "DB_NAME") ≠ js ".." := by
  obtain ⟨user, password, database, port, hparts, htext⟩ := (accepted_of_validateEnv h).parts hexplicit
  rw [htext]
  have htaken : PlainHost (readString raw (js "DB_HOST")) ∨ CanonicalIPv6 (readString raw (js "DB_HOST")) →
      Taken (readString raw (js "DB_HOST")) port := by
    rintro (hhost | hhost)
    · exact hhost.taken (hparts.filled (js "DB_HOST") (by decide))
    · exact hhost.taken
  constructor
  · rintro ⟨-, url, hparse, hnamed⟩
    have hhost := taken_of_named hparts hparse hnamed
    obtain ⟨hostname, -, -, hparse'⟩ := parse_taken special hparts (htaken hhost)
    rw [hparse'] at hparse
    have hdots : ¬ (isSingleDot database || isDoubleDot database) = true := fun hd => by
      rw [hd] at hparse
      obtain rfl := Option.some.inj hparse
      have hpath : js "/" ++ readString raw (js "DB_NAME") = js "/" ++ [] :=
        (Option.some.inj hnamed.database).symm
      exact hparts.filled (js "DB_NAME") (by decide) (List.append_cancel_left hpath)
    rw [isDots_iff hparts.database, not_or] at hdots
    exact ⟨hhost, hdots⟩
  · rintro ⟨hhost, hname⟩
    exact named_of_taken hparts (htaken hhost) hname

theorem assembled_names_iff_db : ∃ env, validateEnv sampleUrls (sample []) = .ok env ∧
    NamesConfigured sampleUrls (sample []) env.DATABASE_URL := by
  obtain ⟨env, hok, -⟩ := exists_of_map_ok (f := Env.DATABASE_URL)
    (show (validateEnv sampleUrls (sample [])).map _ =
      .ok (js "postgresql://portail:pa%2Fss%231%3Fx@db:5432/portail_depot") by decide +kernel)
  refine ⟨env, hok, (assembled_names_iff sampleUrls (sample []) env hok (by decide +kernel)).2 ⟨.inl ?_, ?_⟩⟩
  · unfold PlainHost
    decide +kernel
  · decide +kernel

/-- An address without its brackets is accepted, and the string is no URL; a name of two dots is accepted,
and the string names no database. -/
theorem accepted_and_not_named :
    (∃ env, validateEnv sampleUrls (sample [(js "DB_HOST", js "::1")]) = .ok env ∧
      parseUrl sampleUrls env.DATABASE_URL = none ∧
      ¬ NamesConfigured sampleUrls (sample [(js "DB_HOST", js "::1")]) env.DATABASE_URL) ∧
    ∃ env, validateEnv sampleUrls (sample [(js "DB_NAME", js "..")]) = .ok env ∧
      inspectUrl sampleUrls env.DATABASE_URL =
        some (js "DATABASE_URL names no database (" ++ EXPECTED_URL ++ js ").") ∧
      ¬ NamesConfigured sampleUrls (sample [(js "DB_NAME", js "..")]) env.DATABASE_URL := by
  constructor
  · obtain ⟨env, hok, hparse⟩ := exists_of_map_ok (f := fun env : Env => parseUrl sampleUrls env.DATABASE_URL)
      (show (validateEnv sampleUrls (sample [(js "DB_HOST", js "::1")])).map _ = .ok none by decide +kernel)
    refine ⟨env, hok, hparse, ?_⟩
    rintro ⟨-, url, hurl, -⟩
    rw [hparse] at hurl
    cases hurl
  · obtain ⟨env, hok, hissue⟩ := exists_of_map_ok
      (f := fun env : Env => inspectUrl sampleUrls env.DATABASE_URL)
      (show (validateEnv sampleUrls (sample [(js "DB_NAME", js "..")])).map _ =
        .ok (some (js "DATABASE_URL names no database (" ++ EXPECTED_URL ++ js ").")) by decide +kernel)
    refine ⟨env, hok, hissue, ?_⟩
    rintro ⟨hnone, -⟩
    rw [hissue] at hnone
    cases hnone

end DepositPortal.Config
