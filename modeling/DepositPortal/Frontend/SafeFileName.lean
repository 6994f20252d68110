import DepositPortal.Number
import DepositPortal.Uri
import Mathlib.Data.List.DropRight

/-!
# `safeFileName` (frontend/src/format.ts)

What the interface shows of a name that an anonymous client chose.

| here | there |
| --- | --- |
| `HIDDEN_RANGES`, `isHidden`, `stripHidden` | `:10`, `:18`, `:25` |
| `safeFileName`                             | `:61` |

On strings of Unicode scalar values it is `label`, which works on characters (`safeFileName_ofChars`).
-/
namespace DepositPortal.SafeFileName

/-- `Array.from(s)`: a string for each code point. -/
def arrayFrom : JsString → List JsString
  | [] => []
  | c :: rest =>
    if isLeadingSurrogate c then
      match rest with
      | [] => [[c]]
      | d :: rest => if isTrailingSurrogate d then [c, d] :: arrayFrom rest else [c] :: arrayFrom (d :: rest)
    else [c] :: arrayFrom rest

/-- `s.codePointAt(0)` -/
def codePointAt0 : JsString → Option Nat
  | [] => none
  | [c] => some c.toNat
  | c :: d :: _ =>
    some (if isLeadingSurrogate c && isTrailingSurrogate d then codePointOf c d else c.toNat)

def HIDDEN_RANGES : List (Nat × Nat) :=
  [(0x00, 0x1f), (0x7f, 0x9f), (0x200e, 0x200f), (0x202a, 0x202e), (0x2066, 0x2069)]

def isHidden (character : JsString) : Bool :=
  let codePoint := (codePointAt0 character).getD 0
  HIDDEN_RANGES.any fun range => codePoint ≥ range.1 && codePoint ≤ range.2

def stripHidden (name : JsString) : JsString :=
  ((arrayFrom name).filter fun character => !isHidden character).flatten

def MAX_NAME_LENGTH : Nat := 80

def safeFileName (name : JsString) : JsString :=
  let cleaned := trim (stripHidden name)
  if cleaned = [] then js "Fichier sans nom"
  else
    let characters := arrayFrom cleaned
    if characters.length ≤ MAX_NAME_LENGTH then cleaned
    else (characters.take (MAX_NAME_LENGTH - 1)).flatten ++ js "…"

/-! ## Trimming a list -/

section
variable {α : Type} {p : α → Bool} {l l' : List α} {a : α}

def trimBy (p : α → Bool) (l : List α) : List α := (l.dropWhile p).rdropWhile p

theorem dropWhile_append_of_neg (ha : p a = false) :
    (l ++ a :: l').dropWhile p = l.dropWhile p ++ a :: l' := by
  induction l with
  | nil => simp [ha]
  | cons b l ih =>
    by_cases hb : p b = true <;> simp [hb, ih]

/-- Around an element that stays, the two ends are trimmed apart. -/
theorem trimBy_around (ha : p a = false) :
    trimBy p (l ++ a :: l') = l.dropWhile p ++ a :: l'.rdropWhile p := by
  have hrev : (l.dropWhile p ++ a :: l').reverse = l'.reverse ++ a :: (l.dropWhile p).reverse := by simp
  rw [trimBy, dropWhile_append_of_neg ha, List.rdropWhile, hrev, dropWhile_append_of_neg ha]
  simp [List.rdropWhile]

theorem trimBy_eq_self (hhead : ∀ a ∈ l.head?, p a = false) (hlast : ∀ a ∈ l.getLast?, p a = false) :
    trimBy p l = l := by
  have hdrop : l.dropWhile p = l := by
    cases l with
    | nil => rfl
    | cons a l => simp [hhead a rfl]
  rw [trimBy, hdrop]
  cases hl : l.getLast? with
  | none =>
    rw [List.getLast?_eq_none_iff.1 hl]
    rfl
  | some a =>
    obtain ⟨init, rfl⟩ := List.getLast?_eq_some_iff.1 hl
    exact List.rdropWhile_concat_neg _ _ _ (by simp [hlast a hl])

theorem head_trimBy (h : (trimBy p l).head? = some a) : p a = false := by
  obtain ⟨t, ht⟩ := List.rdropWhile_prefix p (l.dropWhile p)
  have hdrop : (l.dropWhile p).head? = some a := by
    rw [← ht, List.head?_append]
    simp [show ((l.dropWhile p).rdropWhile p).head? = some a from h]
  have hnot := List.head?_dropWhile_not p l
  rwa [hdrop] at hnot

theorem getLast_trimBy (h : (trimBy p l).getLast? = some a) : p a = false := by
  obtain ⟨init, hinit⟩ := List.getLast?_eq_some_iff.1 h
  have hne : (l.dropWhile p).rdropWhile p ≠ [] := by
    rw [show (l.dropWhile p).rdropWhile p = init ++ [a] from hinit]
    simp
  have hlast := List.rdropWhile_last_not p _ hne
  simpa [show (l.dropWhile p).rdropWhile p = init ++ [a] from hinit] using hlast

end

/-! ## Characters -/

variable {s t : List Char} {c : Char}

/-- The code units of a character: one that is no surrogate, or a pair. -/
theorem utf16_char (c : Char) :
    (∃ d, utf16 c.toNat = [d] ∧ d.toNat = c.toNat ∧ isLeadingSurrogate d = false) ∨
    ∃ d e, utf16 c.toNat = [d, e] ∧ codePointOf d e = c.toNat ∧ isLeadingSurrogate d = true ∧
      isTrailingSurrogate e = true := by
  obtain ⟨hs, hle⟩ := isSurrogate_char c
  obtain ⟨d, hu, hl, -⟩ | ⟨d, e, hu, hl, ht⟩ := utf16_cases hs hle
  · refine .inl ⟨d, hu, ?_, hl⟩
    unfold utf16 at hu
    split at hu
    · next hlt =>
      obtain rfl := List.singleton_inj.1 hu
      simp
      omega
    · cases hu
  · refine .inr ⟨d, e, hu, ?_, hl, ht⟩
    unfold utf16 at hu
    split at hu
    · simp at hu
    · next hge =>
      obtain ⟨hd, hu⟩ := List.cons.inj hu
      obtain ⟨he, -⟩ := List.cons.inj hu
      have hlead : d.toNat = 0xd800 + (c.toNat - 0x10000) / 0x400 := by
        rw [← hd]
        simp only [Nat.toUInt16, UInt16.toNat_ofNat', Nat.reducePow]
        omega
      have htrail : e.toNat = 0xdc00 + (c.toNat - 0x10000) % 0x400 := by
        rw [← he]
        simp only [Nat.toUInt16, UInt16.toNat_ofNat', Nat.reducePow]
        omega
      unfold codePointOf
      rw [hlead, htrail]
      omega

theorem codePointAt0_char (c : Char) : codePointAt0 (utf16 c.toNat) = some c.toNat := by
  obtain ⟨d, hu, hd, -⟩ | ⟨d, e, hu, hcp, hl, ht⟩ := utf16_char c
  · rw [hu, codePointAt0, hd]
  · rw [hu, codePointAt0, hl, ht, hcp]
    rfl

theorem ofChars_cons : ofChars (c :: s) = utf16 c.toNat ++ ofChars s := rfl

theorem ofChars_append : ofChars (s ++ t) = ofChars s ++ ofChars t := List.flatMap_append

theorem arrayFrom_ofChars : arrayFrom (ofChars s) = s.map fun c => utf16 c.toNat := by
  induction s with
  | nil => rfl
  | cons c s ih =>
    rw [ofChars_cons, List.map_cons, ← ih]
    obtain ⟨d, hu, -, hl⟩ | ⟨d, e, hu, -, hl, ht⟩ := utf16_char c
    · rw [hu, List.singleton_append, arrayFrom.eq_def]
      simp [hl]
    · rw [hu, List.cons_append, List.singleton_append, arrayFrom.eq_def]
      simp [hl, ht]

theorem ofChars_injective (h : ofChars s = ofChars t) : s = t := by
  have harray := congrArg arrayFrom h
  rw [arrayFrom_ofChars, arrayFrom_ofChars] at harray
  refine (List.map_injective_iff.2 fun c d hcd => ?_) harray
  have hcp := congrArg codePointAt0 hcd
  rw [codePointAt0_char, codePointAt0_char] at hcp
  exact Char.toNat_inj.1 (Option.some.inj hcp)

theorem flatten_ofChars : (s.map fun c => utf16 c.toNat).flatten = ofChars s := (List.flatMap_def).symm

/-- The predicates of the code, on a character. -/
def hidden (c : Char) : Bool := isHidden (utf16 c.toNat)

def blank (c : Char) : Bool := (utf16 c.toNat).all isWhiteSpace

theorem hidden_eq : hidden c = HIDDEN_RANGES.any fun range => c.toNat ≥ range.1 && c.toNat ≤ range.2 := by
  simp only [hidden, isHidden, codePointAt0_char, Option.getD_some]

theorem stripHidden_ofChars : stripHidden (ofChars s) = ofChars (s.filter fun c => !hidden c) := by
  rw [stripHidden, arrayFrom_ofChars, List.filter_map, flatten_ofChars]
  rfl

theorem surrogate_not_white {d : UInt16} (h : isLeadingSurrogate d = true ∨ isTrailingSurrogate d = true) :
    isWhiteSpace d = false := by
  simp only [isLeadingSurrogate, isTrailingSurrogate, Bool.and_eq_true, decide_eq_true_eq,
    UInt16.le_iff_toNat_le, UInt16.reduceToNat] at h
  simp only [isWhiteSpace, List.contains_eq_mem, List.mem_cons, List.not_mem_nil, or_false,
    ← UInt16.toNat_inj, UInt16.reduceToNat, UInt16.le_iff_toNat_le, Bool.or_eq_false_iff,
    decide_eq_false_iff_not, Bool.and_eq_false_iff]
  omega

theorem trim_ofChars : trim (ofChars s) = ofChars (trimBy blank s) := by
  have hdrop : ∀ s, (ofChars s).dropWhile isWhiteSpace = ofChars (s.dropWhile blank) := by
    intro s
    induction s with
    | nil => rfl
    | cons c s ih =>
      rw [ofChars_cons]
      obtain ⟨d, hu, -, -⟩ | ⟨d, e, hu, -, hl, -⟩ := utf16_char c
      · rw [hu, List.singleton_append]
        by_cases hd : isWhiteSpace d = true
        · simp [blank, hu, hd, ih]
        · simp [blank, hu, hd, ofChars_cons]
      · have hd := surrogate_not_white (.inl hl)
        rw [List.dropWhile_cons_of_neg (p := blank) (by simp [blank, hu, hd])]
        simp [hu, hd, ofChars_cons]
  have hrdrop : ∀ s, (ofChars s).rdropWhile isWhiteSpace = ofChars (s.rdropWhile blank) := by
    intro s
    induction s using List.reverseRecOn with
    | nil => rfl
    | append_singleton s c ih =>
      have hlast : ofChars (s ++ [c]) = ofChars s ++ utf16 c.toNat := by
        rw [ofChars_append, ofChars_cons]
        simp [ofChars]
      obtain ⟨d, hu, -, -⟩ | ⟨d, e, hu, -, -, ht⟩ := utf16_char c
      · by_cases hd : isWhiteSpace d = true
        · rw [hlast, hu, List.rdropWhile_concat_pos _ _ _ hd, ih,
            List.rdropWhile_concat_pos _ _ _ (by simp [blank, hu, hd])]
        · rw [List.rdropWhile_concat_neg blank _ _ (by simp [blank, hu, hd]), hlast, hu,
            List.rdropWhile_concat_neg _ _ _ hd]
      · have he := surrogate_not_white (.inr ht)
        rw [List.rdropWhile_concat_neg blank _ _ (by simp [blank, hu, he]), hlast, hu,
          show ofChars s ++ [d, e] = (ofChars s ++ [d]) ++ [e] by simp,
          List.rdropWhile_concat_neg _ _ _ (by simp [he])]
  rw [trimBy, ← hrdrop, ← hdrop]
  rfl

/-! ## The label of a name -/

def cleaned (s : List Char) : List Char := trimBy blank (s.filter fun c => !hidden c)

def label (s : List Char) : List Char :=
  if cleaned s = [] then "Fichier sans nom".toList
  else if (cleaned s).length ≤ MAX_NAME_LENGTH then cleaned s
  else (cleaned s).take (MAX_NAME_LENGTH - 1) ++ ['…']

theorem ofChars_eq_nil : ofChars s = [] ↔ s = [] :=
  ⟨fun h => ofChars_injective (h.trans rfl), fun h => h ▸ rfl⟩

theorem safeFileName_ofChars (s : List Char) : safeFileName (ofChars s) = ofChars (label s) := by
  have hname : js "Fichier sans nom" = ofChars "Fichier sans nom".toList := by decide
  have hdots : js "…" = ofChars ['…'] := by decide
  simp only [safeFileName, stripHidden_ofChars, trim_ofChars, arrayFrom_ofChars, List.length_map,
    ← List.map_take, flatten_ofChars, ofChars_eq_nil, hname, hdots, ← ofChars_append]
  unfold label cleaned
  split_ifs <;> rfl

/-- A name as it is shown: not empty, not too long, trimmed, and with nothing that the code hides. -/
structure Shown (t : List Char) : Prop where
  ne_nil : t ≠ []
  length_le : t.length ≤ MAX_NAME_LENGTH
  visible : ∀ c ∈ t, hidden c = false
  head : ∀ c ∈ t.head?, blank c = false
  last : ∀ c ∈ t.getLast?, blank c = false

theorem visible_of_mem_cleaned (h : c ∈ cleaned s) : hidden c = false := by
  have hmem : c ∈ s.filter fun c => !hidden c :=
    (List.dropWhile_sublist _).mem ((List.rdropWhile_prefix _ _).mem h)
  simpa using (List.mem_filter.1 hmem).2

theorem shown_label (s : List Char) : Shown (label s) := by
  unfold label
  split_ifs with hnil hlen
  · refine ⟨by decide, by decide, List.all_iff_forall_prop.1 (by decide), ?_, ?_⟩
    · intro c hc
      obtain rfl : 'F' = c := by simpa using hc
      decide
    · intro c hc
      obtain rfl : 'm' = c := by simpa using hc
      decide
  · exact ⟨hnil, hlen, fun c h => visible_of_mem_cleaned h, fun c h => head_trimBy h,
      fun c h => getLast_trimBy h⟩
  · refine ⟨by simp, ?_, ?_, ?_, ?_⟩
    · simp only [List.length_append, List.length_take, List.length_singleton, MAX_NAME_LENGTH]
      omega
    · intro c hc
      rcases List.mem_append.1 hc with hc | hc
      · exact visible_of_mem_cleaned (List.mem_of_mem_take hc)
      · rw [List.mem_singleton.1 hc]
        decide
    · intro c hc
      obtain ⟨d, rest, hcons⟩ := List.exists_cons_of_ne_nil hnil
      rw [hcons, MAX_NAME_LENGTH, List.take_succ_cons] at hc
      obtain rfl : d = c := by simpa using hc
      exact head_trimBy (l := s.filter fun c => !hidden c) (by
        rw [show trimBy blank _ = d :: rest from hcons]
        rfl)
    · intro c hc
      obtain rfl : '…' = c := by simpa using hc
      decide

theorem label_of_shown (h : Shown t) : label t = t := by
  have hfilter : (t.filter fun c => !hidden c) = t := by
    rw [List.filter_eq_self]
    intro c hc
    simp [h.visible c hc]
  have hcleaned : cleaned t = t := by
    rw [cleaned, hfilter]
    exact trimBy_eq_self h.head h.last
  rw [label, hcleaned, if_neg h.ne_nil, if_pos h.length_le]

/-! ## What is harmless -/

/-- C0 and C1. -/
def IsControl (c : Char) : Prop := c.toNat ≤ 0x1f ∨ 0x80 ≤ c.toNat ∧ c.toNat ≤ 0x9f

/-- The characters with the Unicode property `Bidi_Control`. -/
def BidiControl (c : Char) : Prop :=
  c.toNat = 0x61c ∨ 0x200e ≤ c.toNat ∧ c.toNat ≤ 0x200f ∨ 0x202a ≤ c.toNat ∧ c.toNat ≤ 0x202e ∨
    0x2066 ≤ c.toNat ∧ c.toNat ≤ 0x2069

/-- What is displayed for the name is a whole number of characters, at least one and at most 80, none of
which is a control or a bidirectional control, and is displayed as it is. -/
def Harmless (s : List Char) : Prop :=
  ∃ t, safeFileName (ofChars s) = ofChars t ∧ t ≠ [] ∧ t.length ≤ 80 ∧
    (∀ c ∈ t, ¬ IsControl c ∧ ¬ BidiControl c) ∧ safeFileName (ofChars t) = ofChars t

/-- ARABIC LETTER MARK, the one of them that `HIDDEN_RANGES` leaves out. -/
def ALM : Char := '\u061c'

/-- Every ARABIC LETTER MARK of the name comes after the characters that are kept: 80 of them before it
(blanks at the start not counted), or 79 and one more after it that is no blank at the end. -/
def BeyondCut (s : List Char) : Prop :=
  ∀ pre post, s = pre ++ ALM :: post →
    80 ≤ ((pre.filter fun c => !hidden c).dropWhile blank).length ∨
    ((pre.filter fun c => !hidden c).dropWhile blank).length = 79 ∧
      ∃ c ∈ post, hidden c = false ∧ blank c = false

theorem hidden_false (h : hidden c = false) : ¬ IsControl c ∧ (BidiControl c → c = ALM) := by
  have hALM : ALM.toNat = 0x61c := by decide
  rw [hidden_eq, HIDDEN_RANGES] at h
  simp only [List.any_cons, List.any_nil, Bool.or_false, Bool.or_eq_false_iff, Bool.and_eq_false_iff,
    ge_iff_le, decide_eq_false_iff_not] at h
  refine ⟨?_, fun hb => Char.toNat_inj.1 ?_⟩
  · simp only [IsControl]
    omega
  · simp only [BidiControl] at hb
    omega

/-- The mark is kept unless it is cut off. -/
theorem cleaned_around {pre post : List Char} (hs : s = pre ++ ALM :: post) :
    cleaned s = (pre.filter fun c => !hidden c).dropWhile blank ++
      ALM :: (post.filter fun c => !hidden c).rdropWhile blank := by
  have hvisible : (!hidden ALM) = true := by decide
  rw [hs, cleaned, List.filter_append, List.filter_cons_of_pos (p := fun c => !hidden c) hvisible,
    trimBy_around (by decide)]

theorem rdropWhile_ne_nil {post : List Char} :
    (post.filter fun c => !hidden c).rdropWhile blank ≠ [] ↔
      ∃ c ∈ post, hidden c = false ∧ blank c = false := by
  rw [ne_eq, List.rdropWhile_eq_nil_iff]
  simp only [List.mem_filter, not_forall, Bool.not_eq_true, Bool.not_eq_true', exists_prop, and_assoc]

theorem mem_label_of_kept {before after : List Char} (h : cleaned s = before ++ ALM :: after)
    (hkept : before.length < 79 ∨ before.length = 79 ∧ after = []) : ALM ∈ label s := by
  have hne : cleaned s ≠ [] := by simp [h]
  rw [label, if_neg hne, h]
  split_ifs with hlen
  · simp
  · rcases hkept with hlt | ⟨heq, rfl⟩
    · refine List.mem_append_left _ ?_
      rw [MAX_NAME_LENGTH, List.take_append, List.mem_append,
        show 80 - 1 - before.length = 78 - before.length + 1 by omega, List.take_succ_cons]
      exact .inr List.mem_cons_self
    · simp [MAX_NAME_LENGTH, heq] at hlen

theorem not_mem_label_of_cut {before after : List Char} (h : cleaned s = before ++ ALM :: after)
    (hbefore : ALM ∉ before) (hcut : 80 ≤ before.length ∨ before.length = 79 ∧ after ≠ []) :
    ALM ∉ label s := by
  have hne : cleaned s ≠ [] := by simp [h]
  have hlen : ¬ (before ++ ALM :: after).length ≤ MAX_NAME_LENGTH := by
    simp only [List.length_append, List.length_cons, MAX_NAME_LENGTH]
    rcases hcut with hcut | ⟨hcut, hafter⟩
    · omega
    · have := List.length_pos_iff.2 hafter
      omega
  have htake : (before ++ ALM :: after).take (MAX_NAME_LENGTH - 1) = before.take 79 :=
    List.take_append_of_le_length (by simp only [MAX_NAME_LENGTH]; omega)
  rw [label, if_neg hne, h, if_neg hlen, htake]
  intro hmem
  rcases List.mem_append.1 hmem with hmem | hmem
  · exact hbefore (List.mem_of_mem_take hmem)
  · exact absurd (List.mem_singleton.1 hmem) (by decide)

/-- The characters of a label, besides those of its name. -/
theorem mem_of_mem_label (h : ALM ∈ label s) : ALM ∈ s := by
  have hsub : ∀ c ∈ cleaned s, c ∈ s := fun c hc =>
    (List.mem_filter.1 ((List.dropWhile_sublist _).mem ((List.rdropWhile_prefix _ _).mem hc))).1
  unfold label at h
  split_ifs at h
  · exact absurd h (by decide)
  · exact hsub _ h
  · rcases List.mem_append.1 h with h | h
    · exact hsub _ (List.mem_of_mem_take h)
    · exact absurd (List.mem_singleton.1 h) (by decide)

theorem mem_label_iff : ALM ∈ label s ↔ ¬ BeyondCut s := by
  constructor
  · intro hmem hcut
    -- the first mark of the name decides
    obtain ⟨pre, post, hs, hpre⟩ := List.eq_append_cons_of_mem (mem_of_mem_label hmem)
    refine not_mem_label_of_cut (cleaned_around hs) (fun h => hpre ?_) ?_ hmem
    · exact (List.mem_filter.1 ((List.dropWhile_sublist _).mem h)).1
    · rw [rdropWhile_ne_nil]
      exact hcut pre post hs
  · intro hcut
    simp only [BeyondCut, not_forall, not_or] at hcut
    obtain ⟨pre, post, hs, hlt, hlast⟩ := hcut
    refine mem_label_of_kept (cleaned_around hs) ?_
    rw [← rdropWhile_ne_nil] at hlast
    rcases Nat.lt_or_ge ((pre.filter fun c => !hidden c).dropWhile blank).length 79 with h | h
    · exact .inl h
    · refine .inr ⟨by omega, ?_⟩
      by_contra hne
      exact hlast ⟨by omega, hne⟩

/-- What is displayed is harmless exactly when no ARABIC LETTER MARK is among the characters kept. -/
theorem harmless_iff (s : List Char) : Harmless s ↔ BeyondCut s := by
  have hshown := shown_label s
  constructor
  · rintro ⟨t, hname, -, -, hchars, -⟩
    rw [safeFileName_ofChars] at hname
    obtain rfl := ofChars_injective hname
    by_contra hcut
    exact (hchars ALM (mem_label_iff.2 hcut)).2 (.inl (by decide))
  · intro hcut
    refine ⟨label s, safeFileName_ofChars s, hshown.ne_nil, hshown.length_le, fun c hc => ?_, ?_⟩
    · obtain ⟨hcontrol, hbidi⟩ := hidden_false (hshown.visible c hc)
      refine ⟨hcontrol, fun hb => ?_⟩
      rw [hbidi hb] at hc
      exact mem_label_iff.1 hc hcut
    · rw [safeFileName_ofChars, label_of_shown hshown]

/-- "facture", the mark, "fdp.exe". -/
def disguised : List Char := "facture".toList ++ ALM :: "fdp.exe".toList

theorem mark_displayed :
    safeFileName (ofChars disguised) = ofChars disguised ∧ BidiControl ALM ∧ ¬ Harmless disguised := by
  have hsame : safeFileName (ofChars disguised) = ofChars disguised := by decide +kernel
  refine ⟨hsame, .inl (by decide), ?_⟩
  rintro ⟨t, hname, -, -, hchars, -⟩
  obtain rfl := ofChars_injective (hsame.symm.trans hname)
  exact (hchars ALM (by decide)).2 (.inl (by decide))

example : safeFileName (ofChars "facture\u202efdp.exe".toList) = js "facturefdp.exe" := by
  decide +kernel

end DepositPortal.SafeFileName
