import Mathlib.Data.List.Sort
import Mathlib.Data.List.Infix
import Mathlib.Data.List.Pairwise

/-!
# The rows of a query

`SELECT … WHERE … ORDER BY … LIMIT …` over a table given as a list of rows. SQL fixes no order beyond
`ORDER BY`: a *scan* is the order in which the database hands back the rows that a query matched,
and the sort keeps it among rows that compare equal. A statement about every scan is a statement
about every order the database may choose.

An order is a comparison (`ρ → ρ → Ordering`); several criteria are combined with `compareLex`.
-/
namespace Query

variable {ρ : Type} {cmp : ρ → ρ → Ordering} {p : ρ → Bool} {rows rows' : List ρ} {r r' : ρ}

/-- How the rows of one query come out of the table. -/
structure Scan (ρ : Type) where
  order : List ρ → List ρ
  perm : ∀ rows, (order rows).Perm rows

/-- As they were inserted. -/
def Scan.heap : Scan ρ := ⟨id, fun _ => .refl _⟩

instance : Inhabited (Scan ρ) := ⟨Scan.heap⟩

theorem Scan.mem (scan : Scan ρ) : r ∈ scan.order rows ↔ r ∈ rows := (scan.perm rows).mem_iff

/-! ## `WHERE` and `ORDER BY` -/

/-- A column, compared. -/
theorem transCmp_on {α : Type} (column : α → α → Ordering) [Std.TransCmp column] (f : ρ → α) :
    Std.TransCmp fun a b => column (f a) (f b) where
  eq_swap := Std.OrientedCmp.eq_swap
  isLE_trans := Std.TransCmp.isLE_trans

def orderBy (cmp : ρ → ρ → Ordering) (rows : List ρ) : List ρ :=
  rows.insertionSort fun a b => (cmp a b).isLE = true

/-- The rows that meet `p`, as the database hands them back. -/
def matching (scan : Scan ρ) (p : ρ → Bool) (rows : List ρ) : List ρ := scan.order (rows.filter p)

/-- The rows that meet `p`, in order. -/
def sorted (scan : Scan ρ) (p : ρ → Bool) (cmp : ρ → ρ → Ordering) (rows : List ρ) : List ρ :=
  orderBy cmp (matching scan p rows)

theorem perm_orderBy : (orderBy cmp rows).Perm rows := List.perm_insertionSort _ _

theorem mem_orderBy : r ∈ orderBy cmp rows ↔ r ∈ rows := perm_orderBy.mem_iff

theorem mem_matching {scan : Scan ρ} : r ∈ matching scan p rows ↔ r ∈ rows ∧ p r = true := by
  rw [matching, scan.mem, List.mem_filter]

theorem perm_matching {scan : Scan ρ} : (matching scan p rows).Perm (rows.filter p) := scan.perm _

theorem perm_sorted {scan : Scan ρ} : (sorted scan p cmp rows).Perm (rows.filter p) :=
  perm_orderBy.trans perm_matching

theorem mem_sorted {scan : Scan ρ} : r ∈ sorted scan p cmp rows ↔ r ∈ rows ∧ p r = true := by
  rw [sorted, mem_orderBy, mem_matching]

/-- A query reads nothing but the rows it matches. -/
theorem matching_congr (scan : Scan ρ) (h : rows.filter p = rows'.filter p) :
    matching scan p rows = matching scan p rows' := by
  rw [matching, matching, h]

theorem sorted_congr (scan : Scan ρ) (h : rows.filter p = rows'.filter p) :
    sorted scan p cmp rows = sorted scan p cmp rows' := by
  rw [sorted, sorted, matching_congr scan h]

/-! ## A part of the table -/

section
variable {part : ρ → Bool}

/-- A query that matches rows of a part only, asked of the part. -/
theorem filter_filter_of_imp (h : ∀ r ∈ rows, p r = true → part r = true) :
    (rows.filter part).filter p = rows.filter p := by
  rw [List.filter_filter]
  refine List.filter_congr fun r hr => ?_
  cases hp : p r
  · rfl
  · simp [h r hr hp]

theorem find?_filter_of_imp (h : ∀ r ∈ rows, p r = true → part r = true) :
    (rows.filter part).find? p = rows.find? p := by
  induction rows with
  | nil => rfl
  | cons r rows ih =>
    have ih := ih fun r' hr => h r' (List.mem_cons_of_mem r hr)
    by_cases hp : p r = true
    · simp [h r List.mem_cons_self hp, hp]
    · by_cases hq : part r = true
      · simp [hq, hp, ih]
      · simp [hq, hp, ih]

theorem countP_filter_of_imp (h : ∀ r ∈ rows, p r = true → part r = true) :
    (rows.filter part).countP p = rows.countP p := by
  rw [List.countP_eq_length_filter, List.countP_eq_length_filter, filter_filter_of_imp h]

end

section
variable [Std.TransCmp cmp]

theorem pairwise_orderBy : (orderBy cmp rows).Pairwise fun a b => (cmp a b).isLE = true := by
  have : Std.Total fun a b => (cmp a b).isLE = true := ⟨fun a b => by
    have hs : cmp b a = (cmp a b).swap := Std.OrientedCmp.eq_swap
    cases h : cmp a b <;> simp [hs, h]⟩
  have : IsTrans ρ fun a b => (cmp a b).isLE = true := ⟨fun a b c => Std.TransCmp.isLE_trans⟩
  exact List.pairwise_insertionSort _ _

/-- Rows of which no two compare equal have one order: it does not matter how they were handed back. -/
theorem orderBy_eq_of_strict (h : rows.Pairwise fun a b => cmp a b = .lt) (hp : rows'.Perm rows) :
    orderBy cmp rows' = rows := by
  have hle : rows.Pairwise fun a b => (cmp a b).isLE = true := h.imp fun hlt => by rw [hlt]; rfl
  have hne : rows.Pairwise fun a b => ¬ ((cmp a b).isLE = true ∧ (cmp b a).isLE = true) := by
    refine h.imp fun {a b} hlt hboth => ?_
    have hs : cmp b a = (cmp a b).swap := Std.OrientedCmp.eq_swap
    rw [hs, hlt] at hboth
    exact absurd hboth.2 (by decide)
  have hperm : (orderBy cmp rows').Perm rows := perm_orderBy.trans hp
  refine hperm.eq_of_pairwise (fun a b ha hb hab hba => ?_) pairwise_orderBy hle
  by_contra hdiff
  have hsymm : Std.Symm fun a b => ¬ ((cmp a b).isLE = true ∧ (cmp b a).isLE = true) :=
    ⟨fun _ _ hno hboth => hno ⟨hboth.2, hboth.1⟩⟩
  exact hne.forall (hperm.mem_iff.1 ha) hb hdiff ⟨hab, hba⟩

theorem sorted_eq_of_strict {scan : Scan ρ} (h : (rows.filter p).Pairwise fun a b => cmp a b = .lt) :
    sorted scan p cmp rows = rows.filter p :=
  orderBy_eq_of_strict h perm_matching

/-- The first row comes before every other one. -/
theorem first_isLE {scan : Scan ρ} (h : (sorted scan p cmp rows).head? = some r) (hr : r' ∈ rows)
    (hp : p r' = true) : (cmp r r').isLE = true := by
  obtain ⟨rest, e⟩ := List.head?_eq_some_iff.1 h
  have hpair : (sorted scan p cmp rows).Pairwise _ := pairwise_orderBy
  have hm : r' ∈ sorted scan p cmp rows := mem_sorted.2 ⟨hr, hp⟩
  rw [e] at hpair hm
  rcases List.mem_cons.1 hm with rfl | hm
  · simp [Std.ReflCmp.compare_self]
  · exact List.rel_of_pairwise_cons hpair hm

end

/-- So a query that matches a row has a first one. -/
theorem exists_first (cmp : ρ → ρ → Ordering) (scan : Scan ρ) (hr : r ∈ rows) (hp : p r = true) :
    ∃ first, (sorted scan p cmp rows).head? = some first ∧ first ∈ rows ∧ p first = true := by
  have hm : r ∈ sorted scan p cmp rows := mem_sorted.2 ⟨hr, hp⟩
  obtain ⟨first, rest, e⟩ := List.exists_cons_of_ne_nil (List.ne_nil_of_mem hm)
  have hf : first ∈ sorted scan p cmp rows := by rw [e]; exact List.mem_cons_self
  exact ⟨first, by rw [e]; rfl, mem_sorted.1 hf⟩

end Query
