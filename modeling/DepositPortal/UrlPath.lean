import DepositPortal.Url
import Mathlib.Data.List.TakeWhile

/-!
# The path of a request

What a browser puts after the origin when it is given an address (`pathname` of a special scheme): a `\` is
read as `/`, tabs and newlines go, `?` and `#` end the path, what is no plain ASCII is escaped, and the
segments of dots are carried out. A path that none of this touches is plain (`PlainPath`). Every path that
comes out is plain, and a plain one comes out as it is.
-/
namespace DepositPortal

/-- The path that is written, up to a query or a fragment. -/
def pathPoints (path : JsString) : List Nat :=
  (((toScalars path).filter fun cp => !isTabOrNewline cp).takeWhile fun cp =>
    cp != 0x3f && cp != 0x23).map fun cp => if cp = 0x5c then 0x2f else cp

/-- `pathname` of an origin with this path behind it. -/
def requestPath (path : JsString) : JsString := pathnameOf ((pathPoints path).drop 1)

/-- A unit that stays as it is. -/
def isPathUnit (c : UInt16) : Bool := !pathSet c.toNat && c != 0x5c

def isDotSegment (segment : JsString) : Bool := isSingleDot segment || isDoubleDot segment

structure PlainPath (path : JsString) : Prop where
  units : ∀ c ∈ path, isPathUnit c = true
  segments : ∀ segment ∈ path.splitOn 0x2f, isDotSegment segment = false

variable {c : UInt16} {s t path segment first : JsString} {cp : Nat} {cps : List Nat}
  {segments : List JsString}

instance : Decidable (PlainPath path) :=
  decidable_of_iff (path.all isPathUnit = true ∧
      (path.splitOn 0x2f).all (fun segment => !isDotSegment segment) = true) <| by
    constructor
    · rintro ⟨hu, hs⟩
      exact ⟨List.all_eq_true.1 hu, fun segment hm => by simpa using List.all_eq_true.1 hs segment hm⟩
    · rintro ⟨hu, hs⟩
      exact ⟨List.all_eq_true.2 hu, List.all_eq_true.2 fun segment hm => by simp [hs segment hm]⟩

/-- A slash keeps apart what stands before it and what stands after. -/
theorem plainPath_append : PlainPath (s ++ 0x2f :: t) ↔ PlainPath s ∧ PlainPath t := by
  have hslash : isPathUnit 0x2f = true := by decide
  constructor
  · rintro ⟨hu, hs⟩
    rw [List.splitOn_append_cons_self, List.forall_mem_append] at hs
    rw [List.forall_mem_append, List.forall_mem_cons] at hu
    exact ⟨⟨hu.1, hs.1⟩, ⟨hu.2.2, hs.2⟩⟩
  · rintro ⟨⟨hu, hs⟩, ⟨hu', hs'⟩⟩
    refine ⟨List.forall_mem_append.2 ⟨hu, List.forall_mem_cons.2 ⟨hslash, hu'⟩⟩, ?_⟩
    rw [List.splitOn_append_cons_self, List.forall_mem_append]
    exact ⟨hs, hs'⟩

theorem isPathUnit_facts (h : isPathUnit c = true) : isSingle c = true ∧ pathSet c.toNat = false ∧
    isTabOrNewline c.toNat = false ∧ c.toNat ≠ 0x3f ∧ c.toNat ≠ 0x23 ∧ c.toNat ≠ 0x5c := by
  simp only [isPathUnit, Bool.and_eq_true, Bool.not_eq_true', bne_iff_ne, ne_eq] at h
  obtain ⟨hset, hback⟩ := h
  have hback' : c.toNat ≠ 0x5c := fun e => hback (UInt16.toNat_inj.1 e)
  have hp := hset
  simp only [pathSet, querySet, c0ControlSet, Bool.or_eq_false_iff, decide_eq_false_iff_not,
    List.contains_eq_mem, List.mem_cons, List.not_mem_nil, or_false, not_or] at hp
  refine ⟨?_, hset, ?_, by omega, by omega, hback'⟩
  · simp only [isSingle, isLeadingSurrogate, isTrailingSurrogate, Bool.and_eq_true, Bool.not_eq_true',
      Bool.and_eq_false_iff, decide_eq_false_iff_not, UInt16.le_iff_toNat_le]
    constructor <;> left <;> simp <;> omega
  · simp only [isTabOrNewline, Bool.or_eq_false_iff, decide_eq_false_iff_not]
    omega

theorem mem_of_mem_splitOn {α : Type} [DecidableEq α] {a b : α} {l segment : List α}
    (hm : segment ∈ l.splitOn a) (hb : b ∈ segment) : b ∈ l ∧ b ≠ a := by
  induction l generalizing segment with
  | nil =>
    obtain rfl := List.mem_singleton.1 hm
    cases hb
  | cons c l ih =>
    rw [List.splitOn_cons_eq_if_modifyHead] at hm
    split at hm
    · rcases List.mem_cons.1 hm with rfl | hm
      · cases hb
      · exact (ih hm hb).imp_left (List.mem_cons_of_mem _)
    · next hc =>
      obtain ⟨head, rest, e⟩ := List.exists_cons_of_ne_nil (List.splitOn_ne_nil a l)
      rw [e] at hm ih
      rcases List.mem_cons.1 hm with rfl | hm
      · rcases List.mem_cons.1 hb with rfl | hb
        · exact ⟨List.mem_cons_self, by simpa using hc⟩
        · exact (ih List.mem_cons_self hb).imp_left (List.mem_cons_of_mem _)
      · exact (ih (List.mem_cons_of_mem _ hm) hb).imp_left (List.mem_cons_of_mem _)

/-! ## A plain path stays as it is -/

theorem splitOn_map_toNat (s : JsString) :
    (s.map UInt16.toNat).splitOn 0x2f = (s.splitOn 0x2f).map (List.map UInt16.toNat) := by
  induction s with
  | nil => rfl
  | cons c s ih =>
    have hiff : (c.toNat == 0x2f) = (c == 0x2f) := by
      rw [Bool.eq_iff_iff, beq_iff_eq, beq_iff_eq, ← UInt16.toNat_inj]
      rfl
    rw [List.map_cons, List.splitOn_cons_eq_if_modifyHead, List.splitOn_cons_eq_if_modifyHead, hiff, ih]
    split
    · rfl
    · cases List.splitOn 0x2f s <;> rfl

/-- The slashes between the segments, put back. -/
theorem flatMap_splitOn (s : JsString) :
    (s.splitOn 0x2f).flatMap (fun segment => js "/" ++ segment) = 0x2f :: s := by
  induction s with
  | nil => rfl
  | cons c s ih =>
    rw [List.splitOn_cons_eq_if_modifyHead]
    split
    · next hc =>
      rw [List.flatMap_cons, ih, beq_iff_eq.1 hc]
      rfl
    · obtain ⟨segment, segments, e⟩ := List.exists_cons_of_ne_nil (List.splitOn_ne_nil 0x2f s)
      rw [e] at ih ⊢
      simpa [js] using ih

/-- Without a segment of dots, the segments are put one behind the other. -/
theorem appendSegments_plain {segments : List (List Nat)}
    (h : ∀ segment ∈ segments, isDotSegment (percentEncode pathSet segment) = false)
    (before : List JsString) :
    appendSegments before segments = before ++ segments.map (percentEncode pathSet) := by
  induction segments generalizing before with
  | nil => exact (List.append_nil before).symm
  | cons segment segments ih =>
    rw [List.forall_mem_cons] at h
    have hdots := h.1
    simp only [isDotSegment, Bool.or_eq_false_iff] at hdots
    have hone : appendSegment before segment segments.isEmpty =
        before ++ [percentEncode pathSet segment] := by simp [appendSegment, hdots]
    rw [appendSegments, hone, ih h.2, List.append_assoc, List.map_cons, List.singleton_append]

theorem pathPoints_plain (h : ∀ c ∈ path, isPathUnit c = true) :
    pathPoints path = path.map UInt16.toNat := by
  have hfacts := fun c hc => isPathUnit_facts (h c hc)
  have hfilter : (path.map UInt16.toNat).filter (fun cp => !isTabOrNewline cp) =
      path.map UInt16.toNat := by
    rw [List.filter_eq_self, List.forall_mem_map]
    exact fun c hc => by rw [(hfacts c hc).2.2.1, Bool.not_false]
  have hcut : (path.map UInt16.toNat).takeWhile (fun cp => cp != 0x3f && cp != 0x23) =
      path.map UInt16.toNat := by
    rw [List.takeWhile_eq_self_iff, List.forall_mem_map]
    exact fun c hc => by simp [(hfacts c hc).2.2.2.1, (hfacts c hc).2.2.2.2.1]
  rw [pathPoints, toScalars_map fun c hc => (hfacts c hc).1, hfilter, hcut, List.map_map]
  exact List.map_congr_left fun c hc => if_neg (hfacts c hc).2.2.2.2.2

/-- A plain path is asked for as it is written. -/
theorem requestPath_plain (h : PlainPath (0x2f :: s)) : requestPath (0x2f :: s) = 0x2f :: s := by
  have hsegments := ((plainPath_append (s := [])).1 h).2.segments
  have hencode : ∀ segment ∈ s.splitOn 0x2f,
      percentEncode pathSet (segment.map UInt16.toNat) = segment := by
    intro segment hm
    refine percentEncode_units fun c hc => (isPathUnit_facts (h.units c ?_)).2.1
    exact List.mem_cons_of_mem _ (mem_of_mem_splitOn hm hc).1
  have hback : ((s.splitOn 0x2f).map (List.map UInt16.toNat)).map (percentEncode pathSet) =
      s.splitOn 0x2f := by
    rw [List.map_map]
    exact (List.map_congr_left hencode).trans (List.map_id _)
  rw [requestPath, pathPoints_plain h.units, List.map_cons, List.drop_one, List.tail_cons, pathnameOf,
    splitOn_map_toNat, appendSegments_plain, List.nil_append, hback, flatMap_splitOn]
  rw [List.forall_mem_map]
  exact fun segment hm => by rw [hencode segment hm, hsegments segment hm]

/-! ## Every path that is asked for is plain -/

/-- What the path is made of: segments that are no dots, and an empty one where dots came last. -/
theorem forall_appendSegments {P : JsString → Prop} {segments : List (List Nat)} (hnil : P [])
    (h : ∀ segment ∈ segments, isDotSegment (percentEncode pathSet segment) = false →
      P (percentEncode pathSet segment)) {before : List JsString} (hbefore : ∀ segment ∈ before, P segment) :
    ∀ segment ∈ appendSegments before segments, P segment := by
  induction segments generalizing before with
  | nil => exact hbefore
  | cons segment segments ih =>
    rw [List.forall_mem_cons] at h
    refine ih h.2 ?_
    have hlast : ∀ segment ∈ before.dropLast, P segment :=
      fun segment hm => hbefore segment (List.mem_of_mem_dropLast hm)
    simp only [appendSegment]
    split
    · split
      · exact List.forall_mem_append.2 ⟨hlast, List.forall_mem_singleton.2 hnil⟩
      · exact hlast
    · split
      · split
        · exact List.forall_mem_append.2 ⟨hbefore, List.forall_mem_singleton.2 hnil⟩
        · exact hbefore
      · next hdouble hsingle =>
        refine List.forall_mem_append.2 ⟨hbefore, List.forall_mem_singleton.2 (h.1 ?_)⟩
        simp [isDotSegment, hsingle, hdouble]

theorem mem_pathPoints (h : cp ∈ pathPoints path) : cp ≤ 0x10ffff ∧ cp ≠ 0x5c := by
  obtain ⟨cp, hcp, rfl⟩ := List.mem_map.1 h
  have hscalar := (isScalar_toScalars cp
    (List.mem_of_mem_filter (List.takeWhile_subset _ hcp))).2
  split
  · exact ⟨by decide, by decide⟩
  · next hne => exact ⟨hscalar, hne⟩

theorem isUriUnit_lt (h : isUriUnit c = true) : c.toNat < 0x7f := by
  simp only [isUriUnit, isUnescaped, Bool.or_eq_true, Bool.and_eq_true, decide_eq_true_eq,
    UInt16.le_iff_toNat_le, List.contains_eq_mem, List.mem_cons, List.not_mem_nil, or_false, beq_iff_eq,
    ← UInt16.toNat_inj] at h
  simp at h
  omega

/-- An encoded unit is one that stays, and no slash. -/
theorem isPathUnit_percentEncode (h : ∀ cp ∈ cps, cp ≤ 0x10ffff ∧ cp ≠ 0x5c ∧ cp ≠ 0x2f) :
    ∀ c ∈ percentEncode pathSet cps, isPathUnit c = true ∧ c ≠ 0x2f := by
  have huri : ∀ n < 0x7f, isUriUnit n.toUInt16 = true →
      isPathUnit n.toUInt16 = true ∧ n.toUInt16 ≠ 0x2f := by decide
  intro c hc
  obtain ⟨cp, hcp, hc⟩ := List.mem_flatMap.1 hc
  obtain ⟨hle, hback, hslash⟩ := h cp hcp
  split at hc
  · have hunit := isUriUnit_escape hle hc
    have hn := huri c.toNat (isUriUnit_lt hunit)
    rw [Nat.toUInt16_eq, UInt16.ofNat_toNat] at hn
    exact hn hunit
  · next hset =>
    obtain rfl := List.mem_singleton.1 hc
    have hascii : cp ≤ 0x7e := by
      by_contra hgt
      exact hset (by simp [pathSet, querySet, c0ControlSet, Nat.not_le.1 hgt])
    have hnat : cp.toUInt16.toNat = cp := by simp; omega
    refine ⟨?_, fun e => hslash ?_⟩
    · simp only [isPathUnit, hnat, Bool.and_eq_true, Bool.not_eq_true', bne_iff_ne, ne_eq]
      exact ⟨by simpa using hset, fun e => hback (by rw [← hnat, e]; rfl)⟩
    · rw [← hnat, e]
      rfl

/-- The slashes are those between the segments. -/
theorem splitOn_flatMap (h : ∀ segment ∈ segments, 0x2f ∉ segment) (hfirst : 0x2f ∉ first) :
    (first ++ segments.flatMap fun segment => js "/" ++ segment).splitOn 0x2f = first :: segments := by
  induction segments generalizing first with
  | nil => rw [List.flatMap_nil, List.append_nil, List.splitOn_eq_singleton hfirst]
  | cons segment segments ih =>
    rw [List.forall_mem_cons] at h
    have hslash : first ++ (segment :: segments).flatMap (fun segment => js "/" ++ segment) =
        first ++ 0x2f :: (segment ++ segments.flatMap fun segment => js "/" ++ segment) := by
      simp [js]
    rw [hslash, List.splitOn_append_cons_self_of_not_mem hfirst, ih h.2 h.1]

theorem plainPath_requestPath (path : JsString) : PlainPath (requestPath path) := by
  have hsegments : ∀ segment ∈ appendSegments [] (((pathPoints path).drop 1).splitOn 0x2f),
      (∀ c ∈ segment, isPathUnit c = true ∧ c ≠ 0x2f) ∧ isDotSegment segment = false := by
    refine forall_appendSegments ⟨by simp, by decide⟩ (fun segment hm hdots => ⟨?_, hdots⟩) (by simp)
    refine isPathUnit_percentEncode fun cp hcp => ?_
    obtain ⟨hpoint, hslash⟩ := mem_of_mem_splitOn hm hcp
    obtain ⟨hle, hback⟩ := mem_pathPoints (List.mem_of_mem_drop hpoint)
    exact ⟨hle, hback, hslash⟩
  constructor
  · intro c hc
    obtain ⟨segment, hm, hc⟩ := List.mem_flatMap.1 hc
    rcases List.mem_append.1 hc with hc | hc
    · obtain rfl := List.mem_singleton.1 hc
      decide
    · exact ((hsegments segment hm).1 c hc).1
  · have hslash : ∀ segment ∈ appendSegments [] (((pathPoints path).drop 1).splitOn 0x2f),
        0x2f ∉ segment := fun segment hm h => ((hsegments segment hm).1 _ h).2 rfl
    have hnil : 0x2f ∉ ([] : JsString) := List.not_mem_nil
    have hsplit := splitOn_flatMap hslash hnil
    rw [List.nil_append] at hsplit
    rw [requestPath, pathnameOf, hsplit, List.forall_mem_cons]
    exact ⟨by decide, fun segment hm => (hsegments segment hm).2⟩

end DepositPortal
