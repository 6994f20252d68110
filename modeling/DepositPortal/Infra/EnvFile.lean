import DepositPortal.Lines
import Mathlib.Data.List.TakeWhile

/-!
# What install.sh does to `.env`

| here | there |
| --- | --- |
| `randomHex`         | `random_hex` (`:296`), with the bytes of `/dev/urandom` passed in |
| `setEnvValue`       | `set_env_value` (`:300`) |
| `envValueMissing`   | `env_value_missing` (`:317`) |
| `setEnvDefault`     | `set_env_default` (`:325`) |
| `appendMissingKeys` | `append_missing_keys` (`:339`) |
| `envGet`            | `env_get` (`:428`) |

Each tool has its own idea of a line of a key. `grep` wants `KEY=` (`hasKey`) or `KEY=` and something
(`hasValue`), anywhere in the file; `awk` splits at `=` and compares the first field (`field`), so that a
bare `KEY` counts as well, and takes the first such line.

A step that stops the script is an `error` with the `.env` it leaves.
-/
namespace DepositPortal.Install
open Lines

abbrev Text := List Char

abbrev Line := List Char

abbrev Key := List Char

abbrev linesOf (text : Text) : List Line := lines '\n' text

/-- `$1`, with `FS="="`. -/
def field (line : Line) : Line := line.takeWhile (· != '=')

/-- `^KEY=` -/
def hasKey (key : Key) (line : Line) : Bool := (key ++ ['=']).isPrefixOf line

/-- `^KEY=.` -/
def hasValue (key : Key) (line : Line) : Bool := hasKey key line && decide (key.length + 1 < line.length)

/-- What `awk -v` makes of a value. It reads escapes, so only what comes after a backslash is in its
hands. -/
structure Escapes where
  apply : Text → Text
  nil : apply [] = []
  plain : ∀ c s, c ≠ '\\' → apply (c :: s) = c :: apply s

/-- The `awk` program; the flag is its `done`. -/
def substitute (key : Key) (new : Text) : Bool → List Line → List Line
  | _, [] => []
  | done, line :: rest =>
    if field line = key ∧ done = false then new :: substitute key new true rest
    else line :: substitute key new done rest

/-- `die` when there is no such line (`exit 3`). -/
def setEnvValue (escapes : Escapes) (key : Key) (value : Line) (env : Text) : Except Text Text :=
  if (linesOf env).any fun line => field line == key then
    .ok (unlines '\n' (substitute key (key ++ '=' :: escapes.apply value) false (linesOf env)))
  else .error env

def envValueMissing (key : Key) (env : Text) : Bool := !(linesOf env).any (hasValue key)

def setEnvDefault (escapes : Escapes) (key : Key) (value : Line) (env : Text) : Except Text Text :=
  if envValueMissing key env then setEnvValue escapes key value env else .ok env

/-- `[A-Z_]` -/
def isKeyStart (c : Char) : Bool := ('A' ≤ c && c ≤ 'Z') || c == '_'

/-- `[A-Z0-9_]` -/
def isKeyChar (c : Char) : Bool := isKeyStart c || ('0' ≤ c && c ≤ '9')

/-- `grep -oE '^[A-Z_][A-Z0-9_]*='`, without the `=`. -/
def keyOf (line : Line) : Option Key :=
  let key := line.takeWhile isKeyChar
  if key.head?.any isKeyStart && (line.drop key.length).head? == some '=' then some key else none

def exampleKeys (envExample : Text) : List Key := (linesOf envExample).filterMap keyOf

/-- The line of the key, behind the comments right above it. -/
def documented (key : Key) : Text → List Line → Text
  | _, [] => []
  | block, line :: rest =>
    if line.head? = some '#' then documented key (block ++ line ++ ['\n']) rest
    else if hasKey key line then '\n' :: (block ++ line ++ ['\n'])
    else documented key [] rest

/-- One turn of the loop, with `added`. -/
def appendKey (envExample : Text) (state : Text × Nat) (key : Key) : Text × Nat :=
  if (linesOf state.1).any (hasKey key) then state
  else (state.1 ++ documented key [] (linesOf envExample), state.2 + 1)

def appendMissingKeys (envExample env : Text) : Text × Nat :=
  (exampleKeys envExample).foldl (appendKey envExample) (env, 0)

/-- `none`: `grep` found no line, and its pipe fails. -/
def envGet (key : Key) (env : Text) : Option Line :=
  ((linesOf env).find? (hasKey key)).map fun line =>
    -- `cut -d= -f2- | tr -d '\r'`
    ((line.dropWhile (· != '=')).drop 1).filter (· != '\r')

/-- `n` bytes in hexadecimal. -/
def randomHex (n : Nat) (urandom : Nat → UInt8) : Line :=
  (List.range n).flatMap fun i =>
    [Nat.digitChar ((urandom i).toNat / 16), Nat.digitChar ((urandom i).toNat % 16)]

/-! ## Lines of a key -/

/-- `grep` finds the key in the file. -/
abbrev HasKey (key : Key) (env : Text) : Prop := ∃ line ∈ linesOf env, hasKey key line = true

/-- `grep` finds the key with a value. -/
abbrev HasValue (key : Key) (env : Text) : Prop := ∃ line ∈ linesOf env, hasValue key line = true

section
variable {key other : Key} {line : Line} {env env' : Text} {ls : List Line}

theorem hasKey_iff : hasKey key line = true ↔ ∃ value, line = key ++ '=' :: value := by
  rw [hasKey, List.isPrefixOf_iff_prefix]
  constructor
  · rintro ⟨value, rfl⟩
    exact ⟨value, by simp⟩
  · rintro ⟨value, rfl⟩
    exact ⟨value, by simp⟩

theorem hasValue_iff : hasValue key line = true ↔ ∃ c value, line = key ++ '=' :: c :: value := by
  rw [hasValue, Bool.and_eq_true, hasKey_iff, decide_eq_true_eq]
  constructor
  · rintro ⟨⟨value, rfl⟩, hlt⟩
    cases value with
    | nil => simp at hlt
    | cons c value => exact ⟨c, value, rfl⟩
  · rintro ⟨c, value, rfl⟩
    exact ⟨⟨c :: value, rfl⟩, by simp⟩

theorem hasKey_of_hasValue (h : hasValue key line = true) : hasKey key line = true :=
  (Bool.and_eq_true _ _ ▸ h).1

/-- A line that `grep` takes for the key is one that `awk` takes for it. -/
theorem field_of_hasKey (hkey : '=' ∉ key) (h : hasKey key line = true) : field line = key := by
  obtain ⟨value, rfl⟩ := hasKey_iff.1 h
  have hall : ∀ c ∈ key, (c != '=') = true := fun c hc => by
    simpa using fun e : c = '=' => hkey (e ▸ hc)
  rw [field, List.takeWhile_append_of_pos hall, List.takeWhile_cons_of_neg (by simp), List.append_nil]

theorem hasKey_self (key : Key) (value : Line) : hasKey key (key ++ '=' :: value) = true :=
  hasKey_iff.2 ⟨value, rfl⟩

/-- A name that a variable may have. -/
structure IsName (key : Key) : Prop where
  ne_nil : key ≠ []
  one_line : '\n' ∉ key
  no_equals : '=' ∉ key
  no_comment : key.head? ≠ some '#'

theorem keyOf_spec (h : keyOf line = some key) : IsName key ∧ hasKey key line = true := by
  unfold keyOf at h
  rw [Option.ite_none_right_eq_some] at h
  obtain ⟨hcond, e⟩ := h
  cases e
  rw [Bool.and_eq_true, beq_iff_eq] at hcond
  obtain ⟨hstart, hequals⟩ := hcond
  have hchars : ∀ c ∈ line.takeWhile isKeyChar, isKeyChar c = true := fun c hc =>
    List.mem_takeWhile_imp hc
  obtain ⟨value, hvalue⟩ := List.head?_eq_some_iff.1 hequals
  have hline := List.prefix_iff_eq_append.1 (List.takeWhile_prefix (l := line) isKeyChar)
  rw [hvalue] at hline
  refine ⟨⟨?_, fun hc => absurd (hchars _ hc) (by decide), fun hc => absurd (hchars _ hc) (by decide), ?_⟩,
    hasKey_iff.2 ⟨value, hline.symm⟩⟩
  · intro hnil
    rw [hnil] at hstart
    cases hstart
  · intro hhead
    rw [hhead] at hstart
    exact absurd hstart (by decide)

end

/-! ## Setting a key -/

section
variable {escapes : Escapes} {key other : Key} {value : Line} {env env' : Text} {ls : List Line}
  {new s t : Text}

theorem Escapes.apply_append (h : '\\' ∉ s) (t : Text) : escapes.apply (s ++ t) = s ++ escapes.apply t := by
  induction s with
  | nil => rfl
  | cons c s ih =>
    obtain ⟨hc, hs⟩ := not_or.1 (mt List.mem_cons.2 h)
    rw [List.cons_append, escapes.plain c _ (Ne.symm hc), ih hs]
    rfl

theorem Escapes.apply_plain (h : '\\' ∉ s) : escapes.apply s = s := by
  have happend := escapes.apply_append h []
  rwa [List.append_nil, escapes.nil, List.append_nil] at happend

/-- The lines of the key, as `awk` reads them. -/
def linesOfKey (key : Key) (env : Text) : List Line := (linesOf env).filter fun line => field line == key

/-- The first line of the key makes room for others, and every other line stays. -/
def Replaced (key : Key) (new : List Line) (env env' : Text) : Prop :=
  ∃ before old after, linesOf env = before ++ old :: after ∧ field old = key ∧
    (∀ line ∈ before, field line ≠ key) ∧ linesOf env' = before ++ new ++ after

theorem substitute_done (ls : List Line) : substitute key new true ls = ls := by
  induction ls with
  | nil => rfl
  | cons line ls ih => rw [substitute, if_neg (by simp), ih]

theorem substitute_first (new : Text) (h : ∃ line ∈ ls, field line = key) : ∃ before old after,
    ls = before ++ old :: after ∧ field old = key ∧ (∀ line ∈ before, field line ≠ key) ∧
      substitute key new false ls = before ++ new :: after := by
  induction ls with
  | nil => simp at h
  | cons line ls ih =>
    by_cases hline : field line = key
    · exact ⟨[], line, ls, rfl, hline, by simp,
        by rw [substitute, if_pos ⟨hline, rfl⟩, substitute_done, List.nil_append]⟩
    · have hrest : ∃ line ∈ ls, field line = key := by simpa [hline] using h
      obtain ⟨before, old, after, rfl, hold, hbefore, hsub⟩ := ih hrest
      refine ⟨line :: before, old, after, rfl, hold, ?_, ?_⟩
      · exact List.forall_mem_cons.2 ⟨hline, hbefore⟩
      · rw [substitute, if_neg fun hno => hline hno.1, hsub]
        rfl

/-- What is put in the place of the line: more than one if the escapes made a line feed. -/
def newLines (escapes : Escapes) (key : Key) (value : Line) : List Line :=
  linesOf (key ++ '=' :: escapes.apply value ++ ['\n'])

theorem setEnvValue_ok (h : setEnvValue escapes key value env = .ok env') :
    Replaced key (newLines escapes key value) env env' := by
  unfold setEnvValue at h
  split at h
  · next hany =>
    cases h
    have hex : ∃ line ∈ linesOf env, field line = key := by simpa using hany
    obtain ⟨before, old, after, hls, hold, hbefore, hsub⟩ :=
      substitute_first (key ++ '=' :: escapes.apply value) hex
    have hlines : ∀ line ∈ before ++ old :: after, '\n' ∉ line := fun line hline =>
      nl_not_mem (hls ▸ hline)
    refine ⟨before, old, after, hls, hold, hbefore, ?_⟩
    rw [hsub, unlines_append, unlines_cons, linesOf, lines_unlines_append fun line hline =>
      hlines line (List.mem_append_left _ hline), lines_ended, lines_unlines fun line hline =>
      hlines line (List.mem_append_right _ (List.mem_cons_of_mem _ hline)), newLines,
      List.append_assoc, List.append_assoc]
  · cases h

theorem setEnvValue_error (h : setEnvValue escapes key value env = .error env') : env' = env := by
  unfold setEnvValue at h
  split at h <;> cases h
  rfl

/-- The first of them is the key with the start of the value. -/
theorem newLines_first (hkey : IsName key) (hs : '\n' ∉ s) (happly : escapes.apply value = s ++ t) :
    ∃ rest more, newLines escapes key value = (key ++ '=' :: (s ++ rest)) :: more := by
  have hstart : '\n' ∉ key ++ '=' :: s := by
    simp [hkey.one_line, hs]
  obtain ⟨rest, more, hlines⟩ := lines_prefix hstart (by simp) (t ++ ['\n'])
  refine ⟨rest, more, ?_⟩
  rw [newLines, happly, linesOf]
  simpa using hlines

theorem newLines_one (hkey : IsName key) (hvalue : '\n' ∉ escapes.apply value) :
    newLines escapes key value = [key ++ '=' :: escapes.apply value] := by
  have hline : '\n' ∉ key ++ '=' :: escapes.apply value := by
    simp [hkey.one_line, hvalue]
  rw [newLines, linesOf, lines_line hline, lines_nil]

/-- A line that `grep` finds is still found, if what is put in the place of a line has it too. -/
theorem Replaced.any {p : Line → Bool} {new : List Line} (h : Replaced key new env env')
    (hp : ∀ line, field line = key → p line = true → ∃ line ∈ new, p line = true)
    (hany : ∃ line ∈ linesOf env, p line = true) : ∃ line ∈ linesOf env', p line = true := by
  obtain ⟨before, old, after, hls, hold, -, hls'⟩ := h
  obtain ⟨line, hline, hpline⟩ := hany
  rw [hls, List.mem_append, List.mem_cons] at hline
  rw [hls']
  rcases hline with hline | rfl | hline
  · exact ⟨line, by simp [hline], hpline⟩
  · obtain ⟨line', hline', hpline'⟩ := hp _ hold hpline
    exact ⟨line', by simp [hline'], hpline'⟩
  · exact ⟨line, by simp [hline], hpline⟩

theorem Replaced.hasKey {new : List Line} (h : Replaced key new env env') (hother : '=' ∉ other)
    (hnew : ∃ line ∈ new, hasKey key line = true) (hany : HasKey other env) : HasKey other env' := by
  refine h.any (fun line hfield hline => ?_) hany
  rw [field_of_hasKey hother hline] at hfield
  rwa [hfield]

theorem Replaced.hasValue {new : List Line} (h : Replaced key new env env') (hother : '=' ∉ other)
    (hnew : ∃ line ∈ new, hasValue key line = true) (hany : HasValue other env) : HasValue other env' := by
  refine h.any (fun line hfield hline => ?_) hany
  rw [field_of_hasKey hother (hasKey_of_hasValue hline)] at hfield
  rwa [hfield]

/-- The lines of another key stay, -/
theorem Replaced.sublist {new : List Line} (h : Replaced key new env env') (hne : other ≠ key) :
    (linesOfKey other env).Sublist (linesOfKey other env') := by
  obtain ⟨before, old, after, hls, hold, -, hls'⟩ := h
  have hdrop : (field old == other) = false := beq_false_of_ne fun e => hne (e.symm.trans hold)
  rw [linesOfKey, linesOfKey, hls, hls', List.filter_append, List.filter_cons_of_neg (by simp [hdrop]),
    List.append_assoc, List.filter_append]
  refine List.Sublist.append_left ?_ _
  rw [List.filter_append]
  exact List.sublist_append_right _ _

/-- and if one line was put in place, there are no others. -/
theorem Replaced.linesOfKey_eq {line : Line} (h : Replaced key [line] env env') (hline : field line = key)
    (hne : other ≠ key) : linesOfKey other env' = linesOfKey other env := by
  obtain ⟨before, old, after, hls, hold, -, hls'⟩ := h
  have hdrop : (field old == other) = false := beq_false_of_ne fun e => hne (e.symm.trans hold)
  have hdrop' : (field line == other) = false := beq_false_of_ne fun e => hne (e.symm.trans hline)
  simp [linesOfKey, hls, hls', hdrop, hdrop']

end

/-! ## Adding a key -/

section
variable {key other : Key} {env env' envExample : Text} {ls comments : List Line}

/-- Added at the end: empty lines, comments and lines of the key. -/
def Appended (key : Key) (env env' : Text) : Prop :=
  ∃ added, linesOf env' = linesOf env ++ added ∧
    (∀ line ∈ added, line = [] ∨ line.head? = some '#' ∨ hasKey key line = true) ∧
    ∃ line ∈ added, hasKey key line = true

/-- What the loop over `.env.example` prints, from the comments it has so far. -/
theorem documented_lines (hls : ∀ line ∈ ls, '\n' ∉ line) (hex : ∃ line ∈ ls, hasKey key line = true)
    (hkey : IsName key) (hcomments : ∀ line ∈ comments, '\n' ∉ line ∧ line.head? = some '#') :
    ∃ added, documented key (unlines '\n' comments) ls = '\n' :: unlines '\n' added ∧
      (∀ line ∈ added, '\n' ∉ line ∧ (line.head? = some '#' ∨ hasKey key line = true)) ∧
      ∃ line ∈ added, hasKey key line = true := by
  induction ls generalizing comments with
  | nil => simp at hex
  | cons line ls ih =>
    have hline := hls line List.mem_cons_self
    have hrest : ∀ line ∈ ls, '\n' ∉ line := fun line hmem => hls line (List.mem_cons_of_mem _ hmem)
    have hnocomment : hasKey key line = true → line.head? ≠ some '#' := by
      intro hhas
      obtain ⟨value, rfl⟩ := hasKey_iff.1 hhas
      obtain ⟨c, rest, rfl⟩ := List.exists_cons_of_ne_nil hkey.ne_nil
      exact hkey.no_comment
    rw [documented]
    by_cases hhash : line.head? = some '#'
    · have hblock : unlines '\n' comments ++ line ++ ['\n'] = unlines '\n' (comments ++ [line]) := by
        simp [unlines_append]
      rw [if_pos hhash, hblock]
      refine ih hrest ?_ ?_
      · obtain ⟨line', hmem, hhas⟩ := hex
        rcases List.mem_cons.1 hmem with rfl | hmem
        · exact absurd hhash (hnocomment hhas)
        · exact ⟨line', hmem, hhas⟩
      · intro line' hmem
        rcases List.mem_append.1 hmem with hmem | hmem
        · exact hcomments line' hmem
        · rw [List.mem_singleton.1 hmem]
          exact ⟨hline, hhash⟩
    · rw [if_neg hhash]
      by_cases hhas : hasKey key line = true
      · refine ⟨comments ++ [line], ?_, ?_, line, by simp, hhas⟩
        · rw [if_pos hhas]
          simp [unlines_append]
        · intro line' hmem
          rcases List.mem_append.1 hmem with hmem | hmem
          · exact ⟨(hcomments line' hmem).1, .inl (hcomments line' hmem).2⟩
          · rw [List.mem_singleton.1 hmem]
            exact ⟨hline, .inr hhas⟩
      · rw [if_neg hhas]
        have hex' : ∃ line ∈ ls, hasKey key line = true := by simpa [hhas] using hex
        have hnone : ∀ line ∈ ([] : List Line), '\n' ∉ line ∧ line.head? = some '#' := by simp
        exact ih hrest hex' hnone

theorem exampleKeys_spec (h : key ∈ exampleKeys envExample) :
    IsName key ∧ HasKey key envExample := by
  obtain ⟨line, hline, hkey⟩ := List.mem_filterMap.1 h
  exact ⟨(keyOf_spec hkey).1, line, hline, (keyOf_spec hkey).2⟩

theorem appendKey_cases (hmem : key ∈ exampleKeys envExample) (state : Text × Nat) :
    (HasKey key state.1 ∧ appendKey envExample state key = state) ∨
    (¬ HasKey key state.1 ∧
      Appended key state.1 (appendKey envExample state key).1) := by
  by_cases hany : HasKey key state.1
  · exact .inl ⟨hany, if_pos (List.any_eq_true.2 hany)⟩
  · obtain ⟨hkey, hex⟩ := exampleKeys_spec hmem
    have hnone : ∀ line ∈ ([] : List Line), '\n' ∉ line ∧ line.head? = some '#' := by simp
    obtain ⟨added, hadded, hlines, line, hline, hhas⟩ :=
      documented_lines (fun line hline => nl_not_mem hline) hex hkey hnone
    obtain ⟨gap, hgap, happend⟩ := lines_append '\n' state.1 (unlines '\n' added)
    rw [unlines_nil] at hadded
    refine .inr ⟨hany, gap ++ added, ?_, fun line hline => ?_, line, List.mem_append_right _ hline, hhas⟩
    · rw [appendKey, if_neg (mt List.any_eq_true.1 hany), hadded]
      show lines '\n' (state.1 ++ '\n' :: unlines '\n' added) = _
      rw [happend, lines_unlines fun line hline => (hlines line hline).1, List.append_assoc]
    · rcases List.mem_append.1 hline with hline | hline
      · rcases hgap with rfl | rfl
        · cases hline
        · exact .inl (List.mem_singleton.1 hline)
      · exact .inr (hlines line hline).2

theorem Appended.any {p : Line → Bool} (h : Appended key env env')
    (hany : ∃ line ∈ linesOf env, p line = true) : ∃ line ∈ linesOf env', p line = true := by
  obtain ⟨added, hls, -, -⟩ := h
  obtain ⟨line, hline, hpline⟩ := hany
  exact ⟨line, by rw [hls]; exact List.mem_append_left _ hline, hpline⟩

theorem Appended.linesOfKey_eq (h : Appended key env env') (hkey : '=' ∉ key) (hother : IsName other)
    (hne : other ≠ key) : linesOfKey other env' = linesOfKey other env := by
  obtain ⟨added, hls, hadded, -⟩ := h
  have hnone : added.filter (fun line => field line == other) = [] := by
    refine List.filter_eq_nil_iff.2 fun line hline => ?_
    rw [beq_iff_eq]
    rcases hadded line hline with rfl | hhash | hhas
    · exact Ne.symm hother.ne_nil
    · obtain ⟨rest, rfl⟩ := List.head?_eq_some_iff.1 hhash
      exact fun e => hother.no_comment (e ▸ rfl)
    · rw [field_of_hasKey hkey hhas]
      exact Ne.symm hne
  rw [linesOfKey, linesOfKey, hls, List.filter_append, hnone, List.append_nil]

/-- Nothing that `grep` finds is lost by the loop. -/
theorem foldl_any {p : Line → Bool} {keys : List Key} (hkeys : ∀ key ∈ keys, key ∈ exampleKeys envExample)
    (state : Text × Nat) (hany : ∃ line ∈ linesOf state.1, p line = true) :
    ∃ line ∈ linesOf (keys.foldl (appendKey envExample) state).1, p line = true := by
  induction keys generalizing state with
  | nil => exact hany
  | cons key keys ih =>
    refine ih (fun key hkey => hkeys key (List.mem_cons_of_mem _ hkey)) _ ?_
    rcases appendKey_cases (hkeys key List.mem_cons_self) state with ⟨-, hsame⟩ | ⟨-, happended⟩
    · rwa [hsame]
    · exact happended.any hany

theorem foldl_hasKey {keys : List Key} (hkeys : ∀ key ∈ keys, key ∈ exampleKeys envExample)
    (state : Text × Nat) : ∀ key ∈ keys, HasKey key (keys.foldl (appendKey envExample) state).1 := by
  induction keys generalizing state with
  | nil => simp
  | cons key keys ih =>
    have hrest : ∀ key ∈ keys, key ∈ exampleKeys envExample :=
      fun key hkey => hkeys key (List.mem_cons_of_mem _ hkey)
    refine List.forall_mem_cons.2 ⟨foldl_any hrest _ ?_, ih hrest _⟩
    rcases appendKey_cases (hkeys key List.mem_cons_self) state with ⟨hany, hsame⟩ | ⟨-, happended⟩
    · rwa [hsame]
    · obtain ⟨added, hls, -, line, hline, hhas⟩ := happended
      exact ⟨line, by rw [hls]; exact List.mem_append_right _ hline, hhas⟩

/-- The lines of a key that was there stay as they are. -/
theorem foldl_linesOfKey {keys : List Key} (hkeys : ∀ key ∈ keys, key ∈ exampleKeys envExample)
    (state : Text × Nat) (hother : IsName other) (hany : HasKey other state.1) :
    linesOfKey other (keys.foldl (appendKey envExample) state).1 = linesOfKey other state.1 := by
  induction keys generalizing state with
  | nil => rfl
  | cons key keys ih =>
    have hrest : ∀ key ∈ keys, key ∈ exampleKeys envExample :=
      fun key hkey => hkeys key (List.mem_cons_of_mem _ hkey)
    have hmem := hkeys key List.mem_cons_self
    rw [List.foldl_cons]
    rcases appendKey_cases hmem state with ⟨-, hsame⟩ | ⟨hno, happended⟩
    · rw [hsame]
      exact ih hrest state hany
    · have hne : other ≠ key := fun e => hno (e ▸ hany)
      rw [ih hrest _ (happended.any hany),
        happended.linesOfKey_eq (exampleKeys_spec hmem).1.no_equals hother hne]

/-- With every key there, nothing is added. -/
theorem foldl_eq_self {keys : List Key} (state : Text × Nat)
    (hall : ∀ key ∈ keys, HasKey key state.1) :
    keys.foldl (appendKey envExample) state = state := by
  induction keys with
  | nil => rfl
  | cons key keys ih =>
    obtain ⟨hany, hrest⟩ := List.forall_mem_cons.1 hall
    rw [List.foldl_cons, appendKey, if_pos (List.any_eq_true.2 hany), ih hrest]

end

end DepositPortal.Install
