import DepositPortal.Config.Env
import Mathlib.Data.List.TakeWhile

/-!
# The assembled connection string, parsed

The user, the password and the database name are encoded, and what `encodeURIComponent` writes has no
delimiter, so the parser finds each in its place; only a name that is `.` or `..` is lost, being a
segment of dots. The host is written as it is. Whatever it contains, the parser makes a host either of an
address in brackets or of a part of it without delimiters (`hostname_of_parse`), which is decoded to
something shorter unless it is the whole and has no `%`. `PlainHost` and `CanonicalIPv6` are what is left.
-/
namespace DepositPortal.Config

/-- The code points of a part that is ASCII. -/
abbrev units (s : JsString) : List Nat := s.map UInt16.toNat

variable {c : UInt16} {s user password database host hostname : JsString} {port cp : Nat}
  {l l' cps : List Nat} {special : JsString → Option Url}

/-! ## What an encoded part is made of -/

theorem uriUnit_facts (h : isUriUnit c = true) :
    c.toNat ≤ 0x7e ∧ 0x20 < c.toNat ∧ userinfoSet c.toNat = false ∧ isSingle c = true := by
  have hle : c.toNat ≤ 0x7e := by
    simp only [isUriUnit, isUnescaped, Bool.or_eq_true, Bool.and_eq_true, decide_eq_true_eq,
      UInt16.le_iff_toNat_le, UInt16.reduceToNat, List.contains_iff_mem, List.mem_cons, List.not_mem_nil,
      or_false, beq_iff_eq] at h
    rcases h with (((h | h) | h) | h) | rfl
    · omega
    · omega
    · omega
    · rcases h with rfl | rfl | rfl | rfl | rfl | rfl | rfl | rfl | rfl <;> decide
    · decide
  have hall : ∀ n < 0x7f, isUriUnit (UInt16.ofNat n) = true →
      0x20 < n ∧ userinfoSet n = false ∧ isSingle (UInt16.ofNat n) = true := by decide
  have hc := hall c.toNat (by omega) (by simpa using h)
  exact ⟨hle, hc.1, hc.2.1, by simpa using hc.2.2⟩

theorem isUriUnit_digit (h : isDigit c = true) : isUriUnit c = true := by
  have hd := isDigit_iff.1 h
  have hall : ∀ n < 0x3a, 0x30 ≤ n → isUriUnit (UInt16.ofNat n) = true := by decide
  simpa using hall c.toNat (by omega) hd.1

/-- A part of a URL that `encodeURIComponent`, or a number, has written. -/
def Written (s : JsString) : Prop := ∀ c ∈ s, isUriUnit c = true

theorem written_decimal (n : Nat) : Written (decimal n) := fun _ hc => isUriUnit_digit (isDigit_decimal hc)

theorem Written.mem (h : Written s) (hcp : cp ∈ units s) :
    cp ≤ 0x7e ∧ 0x20 < cp ∧ userinfoSet cp = false := by
  obtain ⟨c, hc, rfl⟩ := List.mem_map.1 hcp
  obtain ⟨hle, hgt, hset, -⟩ := uriUnit_facts (h c hc)
  exact ⟨hle, hgt, hset⟩

/-- No delimiter is in it. -/
theorem Written.ne (h : Written s) (hset : userinfoSet cp = true) : cp ∉ units s := fun hcp => by
  rw [(h.mem hcp).2.2] at hset
  cases hset

theorem Written.single (h : Written s) : ∀ c ∈ s, isSingle c = true := fun c hc =>
  (uriUnit_facts (h c hc)).2.2.2

theorem Written.userinfo_eq (h : Written s) : percentEncode userinfoSet (units s) = s :=
  percentEncode_units fun _ hc => (h.mem (List.mem_map_of_mem hc)).2.2

theorem Written.path_eq (h : Written s) : percentEncode pathSet (units s) = s := by
  refine percentEncode_units fun c hc => ?_
  have hset := (h.mem (List.mem_map_of_mem hc)).2.2
  rw [userinfoSet, Bool.or_eq_false_iff] at hset
  exact hset.1

/-! ## Lists that are cut -/

theorem takeWhile_stop {p : Nat → Bool} (hl : ∀ x ∈ l, p x = true) (hcp : p cp = false) :
    (l ++ cp :: l').takeWhile p = l := by
  rw [List.takeWhile_append_of_pos hl, List.takeWhile_cons_of_neg (by simp [hcp]), List.append_nil]

theorem dropWhile_stop {p : Nat → Bool} (hl : ∀ x ∈ l, p x = true) (hcp : p cp = false) :
    (l ++ cp :: l').dropWhile p = cp :: l' := by
  rw [List.dropWhile_append_of_pos hl, List.dropWhile_cons_of_neg (by simp [hcp])]

/-- Whether or not it stops before. -/
theorem takeWhile_append_stop {p : Nat → Bool} (hcp : p cp = false) :
    (l ++ cp :: l').takeWhile p = l.takeWhile p := by
  rw [List.takeWhile_append]
  split
  · next h =>
    rw [List.takeWhile_cons_of_neg (by simp [hcp]), List.append_nil]
    exact ((List.takeWhile_prefix p).eq_of_length h).symm
  · rfl

theorem hostPort_append : hostPort (l ++ 0x40 :: l') = hostPort l' := by
  rw [hostPort, hostPort, List.reverse_append, List.reverse_cons, List.append_assoc,
    List.singleton_append, takeWhile_append_stop (by rfl)]

theorem hostPort_of_notMem (h : 0x40 ∉ l') : hostPort (l ++ l') = hostPort l ++ l' := by
  rw [hostPort, hostPort, List.reverse_append, List.takeWhile_append_of_pos fun x hx => ?_,
    List.reverse_append, List.reverse_reverse]
  have hne : x ≠ 0x40 := fun e => h (e ▸ List.mem_reverse.1 hx)
  simpa using hne

theorem hostPort_suffix : hostPort l <:+ l := by
  rw [hostPort, ← List.reverse_prefix, List.reverse_reverse]
  exact List.takeWhile_prefix _

/-- Outside brackets, the port begins at the first colon. -/
theorem splitPort_plain (h : 0x5b ∉ (splitPort false l).1) :
    (splitPort false l).1 = l.takeWhile (· != 0x3a) := by
  induction l with
  | nil => rfl
  | cons c l ih =>
    rw [splitPort] at h ⊢
    by_cases hc : c = 0x3a
    · subst hc; rfl
    · simp only [hc, false_and, if_false] at h ⊢
      have hopen : c ≠ 0x5b := fun e => h (by simp [e])
      have hstate : (if c = 0x5b then true else if c = 0x5d then false else false) = false := by
        simp [hopen]
      rw [hstate] at h ⊢
      rw [ih fun hm => h (List.mem_cons_of_mem _ hm), List.takeWhile_cons_of_pos (by simpa using hc)]

theorem splitPort_of_plain (h : ∀ cp ∈ l, cp ≠ 0x3a ∧ cp ≠ 0x5b) :
    splitPort false (l ++ 0x3a :: l') = (l, some l') := by
  induction l with
  | nil => rfl
  | cons c l ih =>
    rw [List.forall_mem_cons] at h
    rw [List.cons_append, splitPort]
    simp only [h.1.1, h.1.2, false_and, if_false, ite_self, ih h.2]

theorem splitPort_inside (h : ∀ cp ∈ l, cp ≠ 0x5b ∧ cp ≠ 0x5d) :
    splitPort true (l ++ 0x5d :: 0x3a :: l') = (l ++ [0x5d], some l') := by
  induction l with
  | nil => rfl
  | cons c l ih =>
    rw [List.forall_mem_cons] at h
    rw [List.cons_append, splitPort]
    simp only [h.1.1, h.1.2, Bool.true_eq_false, and_false, if_false, ih h.2, List.cons_append]

/-! ## The text, up to its authority -/

/-- The text that is assembled. -/
def urlText (user password host : JsString) (port : Nat) (database : JsString) : JsString :=
  js "postgresql://" ++ user ++ js ":" ++ password ++ js "@" ++ host ++ js ":" ++ decimal port ++ js "/" ++
    database

/-- What stands before the host, after the scheme. -/
def beforeHost (user password : JsString) : List Nat := units user ++ 0x3a :: units password

/-- What follows `postgresql://`, with `h` for the host. -/
def afterScheme (user password : JsString) (h : List Nat) (port : Nat) (database : JsString) : List Nat :=
  (beforeHost user password ++ [0x40]) ++ (h ++ 0x3a :: (units (decimal port) ++ 0x2f :: units database))

/-- A host without the tabs and newlines that the parser drops. -/
def hostPoints (host : JsString) : List Nat := (toScalars host).filter fun cp => !isTabOrNewline cp

theorem strip_of_ends (hhead : ∀ cp ∈ l.head?, 0x20 < cp) (hlast : ∀ cp ∈ l.getLast?, 0x20 < cp) :
    strip l = l.filter fun cp => !isTabOrNewline cp := by
  have hkeep : ∀ m : List Nat, (∀ cp ∈ m.head?, 0x20 < cp) → m.dropWhile (· ≤ 0x20) = m := by
    intro m hm
    cases m with
    | nil => rfl
    | cons cp m =>
      have hcp := hm cp rfl
      rw [List.dropWhile_cons_of_neg (by simpa using hcp)]
  rw [strip, hkeep l hhead, hkeep l.reverse (by rwa [List.head?_reverse]), List.reverse_reverse]

theorem filter_written (h : Written s) : (units s).filter (fun cp => !isTabOrNewline cp) = units s := by
  refine List.filter_eq_self.2 fun cp hcp => ?_
  have hgt := (h.mem hcp).2.1
  simp [isTabOrNewline]
  omega

theorem toScalars_urlText (hu : Written user) (hp : Written password) (hd : Written database) :
    toScalars (urlText user password host port database) = units (js "postgresql://") ++
      afterScheme user password (toScalars host) port database := by
  have hscheme : ∀ c ∈ js "postgresql://", isSingle c = true := List.all_iff_forall_prop.1 (by decide)
  have hcolon : ∀ c ∈ js ":", isSingle c = true := List.all_iff_forall_prop.1 (by decide)
  have hat : ∀ c ∈ js "@", isSingle c = true := List.all_iff_forall_prop.1 (by decide)
  have hslash : ∀ c ∈ js "/", isSingle c = true := List.all_iff_forall_prop.1 (by decide)
  have hfront : ∀ c ∈ js "postgresql://" ++ user ++ js ":" ++ password ++ js "@", isSingle c = true := by
    simp only [List.forall_mem_append]
    exact ⟨⟨⟨⟨hscheme, hu.single⟩, hcolon⟩, hp.single⟩, hat⟩
  have hback : ∀ c ∈ decimal port ++ js "/" ++ database, isSingle c = true := by
    simp only [List.forall_mem_append]
    exact ⟨⟨(written_decimal port).single, hslash⟩, hd.single⟩
  have htext : urlText user password host port database =
      (js "postgresql://" ++ user ++ js ":" ++ password ++ js "@") ++
        (host ++ 0x3a :: (decimal port ++ js "/" ++ database)) := by
    simp [urlText, js]
  rw [htext, toScalars_singles hfront, toScalars_append (by decide), toScalars_map hback]
  simp [afterScheme, beforeHost, units, js]

theorem parse_urlText (hu : Written user) (hp : Written password) (hd : Written database)
    (hne : database ≠ []) : parseUrl special (urlText user password host port database) =
      parseNonSpecial (js "postgresql")
        (0x2f :: 0x2f :: afterScheme user password (hostPoints host) port database) := by
  have hstrip : strip (units (js "postgresql://") ++
      afterScheme user password (toScalars host) port database) = units (js "postgresql://") ++
        afterScheme user password (hostPoints host) port database := by
    rw [strip_of_ends]
    · simp only [afterScheme, beforeHost, List.filter_append, List.filter_cons, filter_written hu,
        filter_written hp, filter_written hd, filter_written (written_decimal port)]
      rfl
    · intro cp hcp
      cases hcp
      decide
    · obtain ⟨first, last, rfl⟩ : ∃ first last, database = first ++ [last] :=
        ⟨_, _, (List.dropLast_append_getLast hne).symm⟩
      intro cp hcp
      have hlast : cp = last.toNat := by
        simpa [afterScheme, List.getLast?_append, List.getLast?_cons, eq_comm] using hcp
      rw [hlast]
      exact (hd.mem (List.mem_map_of_mem (by simp))).2.1
  rw [parseUrl, toScalars_urlText hu hp hd, hstrip]
  rfl

/-! ## The host that is found -/

/-- The authority ends at a slash, and before the query and the fragment. -/
def endsAuthority (cp : Nat) : Bool := cp == 0x2f || cp == 0x3f || cp == 0x23

theorem authority_text (l : List Nat) : ((l.takeWhile (· != 0x23)).takeWhile (· != 0x3f)).takeWhile
    (· != 0x2f) = l.takeWhile fun cp => !endsAuthority cp := by
  rw [List.takeWhile_takeWhile, List.takeWhile_takeWhile]
  congr 1
  funext cp
  rw [Bool.eq_iff_iff]
  simp [endsAuthority, and_assoc]

theorem parseNonSpecial_authority (scheme : JsString) (l : List Nat) :
    parseNonSpecial scheme (0x2f :: 0x2f :: l) =
      (parseAuthority (((l.takeWhile (· != 0x23)).takeWhile (· != 0x3f)).takeWhile (· != 0x2f))).bind
        fun a => some ⟨scheme ++ js ":", a.username, a.password, a.hostname, a.port,
          match ((l.takeWhile (· != 0x23)).takeWhile (· != 0x3f)).dropWhile (· != 0x2f) with
            | [] => []
            | _ :: path => pathnameOf path,
          marked querySet ((l.takeWhile (· != 0x23)).dropWhile (· != 0x3f)),
          marked fragmentSet (l.dropWhile (· != 0x23)), js "null"⟩ := rfl

theorem parseHost_of_authority {a : Authority} (h : parseAuthority l = some a) :
    parseHost (splitPort false (hostPort l)).1 = some a.hostname := by
  unfold parseAuthority at h
  simp only at h
  split at h
  · cases h
  · obtain ⟨hostname, hhost, h⟩ := Option.bind_eq_some_iff.1 h
    obtain ⟨port, -, h⟩ := Option.bind_eq_some_iff.1 h
    cases h
    exact hhost

theorem not_endsAuthority_written (h : Written s) : ∀ cp ∈ units s, (!endsAuthority cp) = true := by
  intro cp hcp
  have hne : ∀ x, userinfoSet x = true → cp ≠ x := fun x hx e => h.ne hx (e ▸ hcp)
  simp [endsAuthority, hne 0x2f (by decide), hne 0x3f (by decide), hne 0x23 (by decide)]

theorem not_endsAuthority_front (hu : Written user) (hp : Written password) :
    ∀ cp ∈ beforeHost user password ++ [0x40], (!endsAuthority cp) = true := by
  intro cp hcp
  simp only [beforeHost, List.mem_append, List.mem_cons, List.not_mem_nil, or_false] at hcp
  rcases hcp with (hcp | rfl | hcp) | rfl
  · exact not_endsAuthority_written hu cp hcp
  · rfl
  · exact not_endsAuthority_written hp cp hcp
  · rfl

/-- What the parser takes for the host, unless it has a bracket, is a part of the host. -/
theorem hostPart_sublist (hu : Written user) (hp : Written password)
    (hopen : 0x5b ∉ (splitPort false (hostPort ((afterScheme user password l port database).takeWhile
      fun cp => !endsAuthority cp))).1) :
    (splitPort false (hostPort ((afterScheme user password l port database).takeWhile
      fun cp => !endsAuthority cp))).1.Sublist l := by
  rw [splitPort_plain hopen, afterScheme,
    List.takeWhile_append_of_pos (not_endsAuthority_front hu hp), List.append_assoc,
    List.singleton_append, hostPort_append, List.takeWhile_append]
  split
  · -- no delimiter in the host: what follows its last `@` and comes before a colon
    have hport : 0x40 ∉ 0x3a :: units (decimal port) := by
      rw [List.mem_cons, not_or]
      exact ⟨by decide, (written_decimal port).ne (by decide)⟩
    rw [List.takeWhile_cons_of_pos (by rfl), takeWhile_stop (not_endsAuthority_written
      (written_decimal port)) (by rfl), hostPort_of_notMem hport, takeWhile_append_stop (by rfl)]
    exact (List.takeWhile_sublist _).trans hostPort_suffix.sublist
  · exact (List.takeWhile_sublist _).trans (hostPort_suffix.sublist.trans (List.takeWhile_sublist _))

/-- **The hostname of the assembled URL.** -/
theorem hostname_of_parse (hu : Written user) (hp : Written password) {url : Url}
    (h : parseNonSpecial (js "postgresql")
      (0x2f :: 0x2f :: afterScheme user password l port database) = some url) :
    ∃ part, parseHost part = some url.hostname ∧ (0x5b ∉ part → part.Sublist l) := by
  rw [parseNonSpecial_authority, authority_text] at h
  obtain ⟨a, ha, h⟩ := Option.bind_eq_some_iff.1 h
  cases h
  exact ⟨_, parseHost_of_authority ha, hostPart_sublist hu hp⟩

/-! ## A host that stands alone -/

/-- A host the parser takes as a whole. -/
structure Whole (l : List Nat) (port : Nat) : Prop where
  nonempty : l ≠ []
  delimited : ∀ cp ∈ l, cp ≠ 0x23 ∧ cp ≠ 0x2f ∧ cp ≠ 0x3f ∧ cp ≠ 0x40
  split : splitPort false (l ++ 0x3a :: units (decimal port)) = (l, some (units (decimal port)))

theorem parsePort_decimal (hport : port ≤ 65535) : parsePort (units (decimal port)) = some (decimal port) := by
  have hvalue : decimalValue (units (decimal port)) = port := by
    rw [decimalValue, List.foldl_map]
    exact digitsValue_decimal port
  have hdigits : (units (decimal port)).all isDecimalDigit = true := by
    rw [List.all_map, List.all_eq_true]
    intro c hc
    have hd := isDigit_iff.1 (isDigit_decimal hc)
    simp [isDecimalDigit, hd.1, hd.2]
  have hne : (units (decimal port)).isEmpty = false := by simpa using decimal_ne_nil port
  rw [parsePort, hne, hdigits, hvalue]
  simp [hport]

/-- What the parser makes of the authority. -/
theorem parseAuthority_whole (hu : Written user) (hp : Written password) (hw : Whole l port)
    (hport : port ≤ 65535) :
    parseAuthority ((beforeHost user password ++ [0x40]) ++ (l ++ 0x3a :: units (decimal port))) =
      (parseHost l).map fun hostname => ⟨user, password, hostname, decimal port⟩ := by
  have hat : 0x40 ∉ l ++ 0x3a :: units (decimal port) := by
    simp only [List.mem_append, List.mem_cons, not_or]
    exact ⟨fun h => (hw.delimited _ h).2.2.2 rfl, by decide, (written_decimal port).ne (by decide)⟩
  have hhost : hostPort ((beforeHost user password ++ [0x40]) ++ (l ++ 0x3a :: units (decimal port))) =
      l ++ 0x3a :: units (decimal port) := by
    rw [List.append_assoc, List.singleton_append, hostPort_append]
    exact hostPort_of_notMem (l := []) hat
  have huser : ∀ cp ∈ units user, (cp != 0x3a) = true := fun cp hcp => by
    have hne : cp ≠ 0x3a := fun e => hu.ne (by decide) (e ▸ hcp)
    simpa using hne
  have huserinfo : ((beforeHost user password ++ [0x40]) ++ (l ++ 0x3a :: units (decimal port))).take
      (((beforeHost user password ++ [0x40]) ++ (l ++ 0x3a :: units (decimal port))).length -
        (l ++ 0x3a :: units (decimal port)).length - 1) = beforeHost user password := by
    rw [List.length_append, Nat.add_sub_cancel, List.length_append, List.length_singleton,
      Nat.add_sub_cancel, List.append_assoc, List.take_left]
  have hnonempty : l.isEmpty = false := by simpa using hw.nonempty
  rw [parseAuthority]
  simp only [hhost, hw.split, huserinfo]
  rw [if_neg (by simp [hnonempty]), Option.getD_some, parsePort_decimal hport, beforeHost,
    takeWhile_stop huser (by rfl), dropWhile_stop huser (by rfl), List.drop_one, List.tail_cons,
    hu.userinfo_eq, hp.userinfo_eq]
  cases parseHost l <;> rfl

theorem parse_whole (hu : Written user) (hp : Written password) (hd : Written database)
    (hw : Whole l port) (hport : port ≤ 65535) :
    parseNonSpecial (js "postgresql") (0x2f :: 0x2f :: afterScheme user password l port database) =
      (parseHost l).map fun hostname => ⟨js "postgresql:", user, password, hostname, decimal port,
        pathnameOf (units database), [], [], js "null"⟩ := by
  have hauthority : ∀ cp ∈ (beforeHost user password ++ [0x40]) ++ (l ++ 0x3a :: units (decimal port)),
      (!endsAuthority cp) = true := by
    intro cp hcp
    rw [List.mem_append, List.mem_append (s := l), List.mem_cons] at hcp
    rcases hcp with hcp | hcp | rfl | hcp
    · exact not_endsAuthority_front hu hp cp hcp
    · obtain ⟨hhash, hslash, hmark, -⟩ := hw.delimited cp hcp
      simp [endsAuthority, hhash, hslash, hmark]
    · rfl
    · exact not_endsAuthority_written (written_decimal port) cp hcp
  have htext : afterScheme user password l port database =
      ((beforeHost user password ++ [0x40]) ++ (l ++ 0x3a :: units (decimal port))) ++
        0x2f :: units database := by
    simp [afterScheme]
  have hkeep : ∀ x, x ≠ 0x2f → endsAuthority x = true →
      ∀ cp ∈ afterScheme user password l port database, (cp != x) = true := by
    intro x hslash hx cp hcp
    rw [htext, List.mem_append, List.mem_cons] at hcp
    have hne : cp ≠ x := by
      rintro rfl
      rcases hcp with hcp | hcp | hcp
      · have := hauthority cp hcp
        rw [hx] at this
        cases this
      · exact hslash hcp
      · have := not_endsAuthority_written hd cp hcp
        rw [hx] at this
        cases this
    simpa using hne
  have hhash := List.takeWhile_eq_self_iff.2 (hkeep 0x23 (by decide) (by decide))
  have hmark := List.takeWhile_eq_self_iff.2 (hkeep 0x3f (by decide) (by decide))
  have hnohash := List.dropWhile_eq_nil_iff.2 (hkeep 0x23 (by decide) (by decide))
  have hnomark := List.dropWhile_eq_nil_iff.2 (hkeep 0x3f (by decide) (by decide))
  have hslash : ∀ cp ∈ (beforeHost user password ++ [0x40]) ++ (l ++ 0x3a :: units (decimal port)),
      (cp != 0x2f) = true := fun cp hcp => by
    have hne : cp ≠ 0x2f := by
      rintro rfl
      exact absurd (hauthority _ hcp) (by decide)
    simpa using hne
  rw [parseNonSpecial_authority]
  simp only [hhash, hmark, hnohash, hnomark]
  rw [htext, takeWhile_stop hslash (by rfl), dropWhile_stop hslash (by rfl),
    parseAuthority_whole hu hp hw hport]
  cases parseHost l <;> rfl

/-! ## The database name -/

theorem pathnameOf_segment (h : 0x2f ∉ l) :
    pathnameOf l = (appendSegment [] l true).flatMap fun segment => js "/" ++ segment := by
  rw [pathnameOf, List.splitOn_eq_singleton h]
  rfl

/-- A name of dots is dropped. -/
theorem pathname_written (h : Written s) : pathnameOf (units s) =
    if isSingleDot s || isDoubleDot s then js "/" else js "/" ++ s := by
  rw [pathnameOf_segment (h.ne (by decide)), appendSegment, h.path_eq]
  cases hd : isDoubleDot s
  · cases hs : isSingleDot s <;> simp
  · simp [js]

end DepositPortal.Config
