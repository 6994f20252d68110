import DepositPortal.Query
import Mathlib.Data.List.Perm.Basic

/-!
# The pages of a query

`LIMIT k OFFSET m * k`, each page a query of its own: the rows that compare equal may come out in
another order each time. A row can then stand anywhere between `before` and `upTo`, so the pages fit
together in every case exactly when no page ends between rows that compare equal (`Cut`).
-/
namespace Query

variable {ρ : Type} {cmp : ρ → ρ → Ordering} {p : ρ → Bool} {rows rows' l l' : List ρ} {r r' : ρ} {k m n : Nat}

/-- The `m`-th page, from 0. -/
def page (k m : Nat) (l : List ρ) : List ρ := (l.drop (m * k)).take k

/-- How many rows come before `r` in every order. -/
def before (cmp : ρ → ρ → Ordering) (rows : List ρ) (r : ρ) : Nat :=
  rows.countP fun x => cmp x r == .lt

/-- How many rows come before `r` in some order, `r` itself included. -/
def upTo (cmp : ρ → ρ → Ordering) (rows : List ρ) (r : ρ) : Nat :=
  rows.countP fun x => (cmp x r).isLE

/-- No page ends between rows that compare equal. -/
def Cut (cmp : ρ → ρ → Ordering) (k : Nat) (rows : List ρ) : Prop :=
  ∀ r ∈ rows, before cmp rows r / k = (upTo cmp rows r - 1) / k

instance : Decidable (Cut cmp k rows) := inferInstanceAs (Decidable (∀ r ∈ rows, _ = _))

theorem length_page : (page k m l).length = min k (l.length - m * k) := by
  simp [page]

theorem before_perm (h : rows.Perm rows') : before cmp rows r = before cmp rows' r := h.countP_eq _

theorem upTo_perm (h : rows.Perm rows') : upTo cmp rows r = upTo cmp rows' r := h.countP_eq _

theorem Cut.perm (h : rows.Perm rows') (hc : Cut cmp k rows) : Cut cmp k rows' := by
  intro r hr
  rw [← before_perm h, ← upTo_perm h]
  exact hc r (h.mem_iff.2 hr)

/-! ## Where a row can stand -/

section
variable [Std.TransCmp cmp]

theorem before_le (h : (l ++ r :: l').Pairwise fun a b => (cmp a b).isLE = true) :
    before cmp (l ++ r :: l') r ≤ l.length := by
  have hrest : (r :: l').countP (fun x => cmp x r == .lt) = 0 := by
    rw [List.countP_eq_zero]
    intro x hx
    rcases List.mem_cons.1 hx with rfl | hx
    · simp [Std.ReflCmp.compare_self]
    · have hle := List.rel_of_pairwise_cons (List.pairwise_append.1 h).2.1 hx
      have hswap : cmp x r = (cmp r x).swap := Std.OrientedCmp.eq_swap
      cases hc : cmp r x <;> simp [hswap, hc] at hle ⊢
  rw [before, List.countP_append, hrest]
  exact List.countP_le_length

theorem lt_upTo (h : (l ++ r :: l').Pairwise fun a b => (cmp a b).isLE = true) :
    l.length < upTo cmp (l ++ r :: l') r := by
  have hfirst : l.countP (fun x => (cmp x r).isLE) = l.length :=
    List.countP_eq_length.2 fun x hx => (List.pairwise_append.1 h).2.2 x hx r List.mem_cons_self
  rw [upTo, List.countP_append, hfirst, List.countP_cons_of_pos (by simp [Std.ReflCmp.compare_self])]
  omega

/-- With no cut between equal rows, the page of a row is known from the rows alone. -/
theorem index_div (h : l.Pairwise fun a b => (cmp a b).isLE = true) (hc : Cut cmp k l) {i : Nat}
    (hi : i < l.length) : i / k = before cmp l l[i] / k := by
  have hcut := hc l[i] (List.getElem_mem hi)
  generalize hr : l[i] = r at hcut
  have hsplit : l.take i ++ r :: l.drop (i + 1) = l := by
    rw [← hr, List.getElem_cons_drop, List.take_append_drop]
  have hs : (l.take i ++ r :: l.drop (i + 1)).Pairwise fun a b => (cmp a b).isLE = true := by
    rw [hsplit]; exact h
  have hlow := before_le hs
  have hhigh := lt_upTo hs
  rw [hsplit, List.length_take, Nat.min_eq_left hi.le] at hlow hhigh
  have hlow := Nat.div_le_div_right (c := k) hlow
  have hhigh := Nat.div_le_div_right (c := k) (show i ≤ upTo cmp l r - 1 by omega)
  omega

end

/-! ## The pages fit together -/

/-- A page is the rows numbered for it. -/
theorem page_eq_filter {f : ρ → Nat} (hk : 0 < k) (h : ∀ i (hi : i < l.length), f l[i] = i / k) :
    page k m l = l.filter fun r => f r == m := by
  have hsplit : l.take (m * k) ++ (page k m l ++ (l.drop (m * k)).drop k) = l := by
    rw [page, List.take_append_drop, List.take_append_drop]
  have hleft : (l.take (m * k)).filter (fun r => f r == m) = [] := by
    rw [List.filter_eq_nil_iff]
    intro r hr
    obtain ⟨i, hi, rfl⟩ := List.mem_iff_getElem.1 hr
    rw [List.length_take] at hi
    have hlt : i / k < m := (Nat.div_lt_iff_lt_mul hk).2 (by omega)
    rw [List.getElem_take, h i (by omega), beq_iff_eq]
    omega
  have hmid : (page k m l).filter (fun r => f r == m) = page k m l := by
    rw [List.filter_eq_self]
    intro r hr
    obtain ⟨i, hi, rfl⟩ := List.mem_iff_getElem.1 hr
    rw [length_page] at hi
    have hdiv : (m * k + i) / k = m := by
      rw [Nat.mul_comm, Nat.mul_add_div hk, Nat.div_eq_of_lt (by omega), Nat.add_zero]
    simp only [page, List.getElem_take, List.getElem_drop]
    rw [h (m * k + i) (by omega), hdiv, beq_self_eq_true]
  have hright : ((l.drop (m * k)).drop k).filter (fun r => f r == m) = [] := by
    rw [List.filter_eq_nil_iff]
    intro r hr
    obtain ⟨i, hi, rfl⟩ := List.mem_iff_getElem.1 hr
    simp only [List.length_drop] at hi
    have hge : m + 1 ≤ (m * k + (k + i)) / k :=
      (Nat.le_div_iff_mul_le hk).2 (by rw [Nat.succ_mul]; omega)
    simp only [List.getElem_drop]
    rw [h (m * k + (k + i)) (by omega), beq_iff_eq]
    omega
  have hfilter := congrArg (List.filter fun r => f r == m) hsplit
  rw [List.filter_append, List.filter_append, hleft, hmid, hright, List.nil_append,
    List.append_nil] at hfilter
  exact hfilter

/-- The rows numbered below `n`, one number after the other. -/
theorem flatMap_filter_perm (f : ρ → Nat) (n : Nat) :
    ((List.range n).flatMap fun m => l.filter fun r => f r == m).Perm (l.filter fun r => f r < n) := by
  induction n with
  | zero => simp
  | succ n ih =>
    rw [List.range_succ, List.flatMap_append, List.flatMap_singleton]
    refine (ih.append_right _).trans ?_
    have hsplit := List.filter_append_perm (fun r => decide (f r < n)) (l.filter fun r => f r < n + 1)
    rw [List.filter_filter, List.filter_filter] at hsplit
    refine .trans (.of_eq ?_) hsplit
    congr 1
    · refine List.filter_congr fun r _ => ?_
      rw [Bool.eq_iff_iff]
      simp
      omega
    · refine List.filter_congr fun r _ => ?_
      rw [Bool.eq_iff_iff]
      simp
      omega

variable [Std.TransCmp cmp]

theorem pages_perm (hk : 0 < k) (hc : Cut cmp k (rows.filter p)) (scans : Nat → Scan ρ)
    (hn : (rows.filter p).length ≤ n * k) :
    ((List.range n).flatMap fun m => page k m (sorted (scans m) p cmp rows)).Perm (rows.filter p) := by
  have hpage : ∀ m, (page k m (sorted (scans m) p cmp rows)).Perm
      ((rows.filter p).filter fun r => before cmp (rows.filter p) r / k == m) := by
    intro m
    have hp : (sorted (scans m) p cmp rows).Perm (rows.filter p) := perm_sorted
    rw [page_eq_filter (f := fun r => before cmp (rows.filter p) r / k) hk fun i hi => ?_]
    · exact hp.filter _
    · rw [← before_perm hp]
      exact (index_div pairwise_orderBy (hc.perm hp.symm) hi).symm
  refine (List.Perm.flatMap_left _ fun m _ => hpage m).trans ((flatMap_filter_perm _ n).trans ?_)
  refine .of_eq (List.filter_eq_self.2 fun r hr => ?_)
  have hlt : before cmp (rows.filter p) r < (rows.filter p).length := by
    refine Nat.lt_of_le_of_ne List.countP_le_length fun e => ?_
    have hself := List.countP_eq_length.1 e r hr
    simp [Std.ReflCmp.compare_self] at hself
  exact decide_eq_true ((Nat.div_lt_iff_lt_mul hk).2 (by omega))

/-! ## Rows that are shown twice -/

/-- Some query comes out in any given order. -/
theorem exists_scan (h : l.Perm rows) : ∃ scan : Scan ρ, scan.order rows = l := by
  classical
  refine ⟨⟨fun asked => if asked = rows then l else asked, fun asked => ?_⟩, if_pos rfl⟩
  split
  · next e => rw [e]; exact h
  · exact .refl _

omit [Std.TransCmp cmp] in
theorem exists_sorted (h : l.Perm (rows.filter p)) (hl : l.Pairwise fun a b => (cmp a b).isLE = true) :
    ∃ scan : Scan ρ, sorted scan p cmp rows = l := by
  obtain ⟨scan, hscan⟩ := exists_scan h
  refine ⟨scan, ?_⟩
  rw [sorted, matching, hscan]
  exact hl.insertionSort_eq

omit [Std.TransCmp cmp] in
theorem mem_page (hk : 0 < k) : r ∈ page k (l.length / k) (l ++ r :: l') := by
  have hle := Nat.div_mul_le_self l.length k
  have hlt := Nat.lt_div_mul_add (a := l.length) hk
  rw [page, List.mem_iff_getElem]
  refine ⟨l.length - l.length / k * k, by simp; omega, ?_⟩
  rw [List.getElem_take, List.getElem_drop, List.getElem_append_right (by omega)]
  simp [Nat.add_sub_cancel' hle]

section around

variable {mid : List ρ}

/-- The rows that compare to `r` as `o` says. -/
def comparing (cmp : ρ → ρ → Ordering) (o : Ordering) (r : ρ) (rows : List ρ) : List ρ :=
  rows.filter fun x => cmp x r == o

omit [Std.TransCmp cmp] in
theorem mem_comparing {o : Ordering} : r' ∈ comparing cmp o r rows ↔ r' ∈ rows ∧ cmp r' r = o := by
  simp [comparing]

omit [Std.TransCmp cmp] in
theorem around_perm (hmid : mid.Perm (comparing cmp .eq r l)) :
    (comparing cmp .lt r l ++ (mid ++ comparing cmp .gt r l)).Perm l := by
  have hrest : (comparing cmp .eq r l ++ comparing cmp .gt r l).Perm
      (l.filter fun x => !(cmp x r == .lt)) := by
    have hsplit := List.filter_append_perm (fun x => cmp x r == .eq) (l.filter fun x => !(cmp x r == .lt))
    rw [List.filter_filter, List.filter_filter] at hsplit
    refine .trans (.of_eq ?_) hsplit
    congr 1
    all_goals
      refine List.filter_congr fun x _ => ?_
      cases cmp x r <;> rfl
  exact (((hmid.append_right _).trans hrest).append_left _).trans (List.filter_append_perm _ l)

omit [Std.TransCmp cmp] in
theorem upTo_eq : upTo cmp l r = before cmp l r + (comparing cmp .eq r l).length := by
  induction l with
  | nil => rfl
  | cons x l ih =>
    simp only [upTo, before, comparing, List.countP_cons, List.filter_cons] at ih ⊢
    cases cmp x r <;> simp [ih] <;> omega

theorem around_pairwise (h : l.Pairwise fun a b => (cmp a b).isLE = true)
    (hmid : mid.Perm (comparing cmp .eq r l)) :
    (comparing cmp .lt r l ++ (mid ++ comparing cmp .gt r l)).Pairwise
      fun a b => (cmp a b).isLE = true := by
  have hlow : ∀ a ∈ comparing cmp .lt r l, (cmp a r).isLE = true := fun a ha => by
    rw [(mem_comparing.1 ha).2]; rfl
  have heq : ∀ a ∈ mid, (cmp a r).isLE = true ∧ (cmp r a).isLE = true := fun a ha => by
    have hcmp := (mem_comparing.1 (hmid.mem_iff.1 ha)).2
    rw [hcmp, Std.OrientedCmp.eq_comm.1 hcmp]
    exact ⟨rfl, rfl⟩
  have hhigh : ∀ a ∈ comparing cmp .gt r l, (cmp r a).isLE = true := fun a ha => by
    rw [Std.OrientedCmp.lt_of_gt (mem_comparing.1 ha).2]; rfl
  refine List.pairwise_append.2 ⟨h.sublist List.filter_sublist, List.pairwise_append.2
    ⟨?_, h.sublist List.filter_sublist, fun a ha b hb => ?_⟩, fun a ha b hb => ?_⟩
  · exact List.pairwise_of_forall_mem_list fun a ha b hb =>
      Std.TransCmp.isLE_trans (heq a ha).1 (heq b hb).2
  · exact Std.TransCmp.isLE_trans (heq a ha).1 (hhigh b hb)
  · rcases List.mem_append.1 hb with hb | hb
    · exact Std.TransCmp.isLE_trans (hlow a ha) (heq b hb).2
    · exact Std.TransCmp.isLE_trans (hlow a ha) (hhigh b hb)

end around

/-- When a page ends between equal rows, one of them can be on two pages. -/
theorem exists_torn (hk : 0 < k) (h : ¬ Cut cmp k (rows.filter p)) :
    ∃ r ∈ rows.filter p, ∃ first last : Scan ρ, ∃ m m', m < m' ∧
      r ∈ page k m (sorted first p cmp rows) ∧ r ∈ page k m' (sorted last p cmp rows) := by
  unfold Cut at h
  push Not at h
  obtain ⟨r, hr, hne⟩ := h
  have hperm : (orderBy cmp (rows.filter p)).Perm (rows.filter p) := perm_orderBy
  have hpair : (orderBy cmp (rows.filter p)).Pairwise fun a b => (cmp a b).isLE = true := pairwise_orderBy
  rw [← before_perm hperm, ← upTo_perm hperm, upTo_eq] at hne
  rw [← hperm.mem_iff] at hr
  generalize orderBy cmp (rows.filter p) = s at hperm hpair hne hr
  obtain ⟨e₁, e₂, heq⟩ : ∃ e₁ e₂, comparing cmp .eq r s = e₁ ++ r :: e₂ :=
    List.append_of_mem (mem_comparing.2 ⟨hr, Std.ReflCmp.compare_self⟩)
  -- `r` as the first, and as the last, of the rows that compare equal to it
  have hfirst : (r :: (e₁ ++ e₂)).Perm (comparing cmp .eq r s) := by
    rw [heq]; exact List.perm_middle.symm
  have hlast : ((e₁ ++ e₂) ++ [r]).Perm (comparing cmp .eq r s) :=
    (List.perm_append_singleton r _).trans hfirst
  obtain ⟨first, hf⟩ := exists_sorted ((around_perm hfirst).trans hperm) (around_pairwise hpair hfirst)
  obtain ⟨last, hl⟩ := exists_sorted ((around_perm hlast).trans hperm) (around_pairwise hpair hlast)
  refine ⟨r, hperm.mem_iff.1 hr, first, last, before cmp s r / k,
    (before cmp s r + (e₁ ++ e₂).length) / k, ?_, ?_, ?_⟩
  · rw [heq, List.length_append, List.length_cons] at hne
    rw [List.length_append]
    exact Nat.lt_of_le_of_ne (Nat.div_le_div_right (by omega)) (by
      rwa [show before cmp s r + (e₁.length + (e₂.length + 1)) - 1 =
        before cmp s r + (e₁.length + e₂.length) by omega] at hne)
  · have hb : before cmp s r = (comparing cmp .lt r s).length := List.countP_eq_length_filter
    rw [hf, List.cons_append, hb]
    exact mem_page hk
  · have hb : before cmp s r + (e₁ ++ e₂).length = (comparing cmp .lt r s ++ (e₁ ++ e₂)).length := by
      simp [before, comparing, List.countP_eq_length_filter]
    rw [hl, hb, List.append_assoc, ← List.append_assoc _ (e₁ ++ e₂), List.singleton_append]
    exact mem_page hk

end Query
