import DepositPortal.Interleave
import Mathlib.Data.List.Pairwise

/-!
# A table under READ COMMITTED

Transactions over one table with unique indexes, cut at the grain of PostgreSQL's READ COMMITTED:

* a statement takes the rows it matches from what is committed when it starts, and what its own
  transaction wrote (`candidates`);
* it then goes through them one by one (`updateRow`): a row that another open transaction has
  written makes it wait, and the condition is tested again on the row as it stands by then;
* an insert waits while another open transaction has written a row that could still collide, and
  fails on a row that does collide (`insert`);
* a commit publishes what the transaction wrote, a rollback forgets it.

Nothing is ever deleted, so a row is named by its position. `keys` gives the entries a row has in
the unique indexes; a partial index is one in which some rows have no entry.

`Wf` is what the indexes are for: no two rows that any transaction can see share an entry. Every
operation keeps it, provided an update gives no row an entry it did not have.
-/
namespace ReadCommitted
open Interleave

variable {τ ρ κ : Type} [DecidableEq τ] [DecidableEq κ]

/-- A row: its committed version, `none` until the transaction that inserted it commits, and the
version an open transaction wrote. There is room for one: writing a row locks it. -/
structure Cell (τ ρ : Type) where
  committed : Option ρ
  pending : Option (τ × ρ)
  deriving DecidableEq

abbrev Table (τ ρ : Type) := List (Cell τ ρ)

/-- What transaction `t` sees of a row. -/
def Cell.sees (t : τ) (c : Cell τ ρ) : Option ρ :=
  match c.pending with
  | some w => if w.1 = t then some w.2 else c.committed
  | none => c.committed

/-- Another transaction than `t` has written the row and is still open. -/
def Cell.blocks (t : τ) (c : Cell τ ρ) : Bool := c.pending.any fun w => w.1 ≠ t

def Cell.commit (t : τ) (c : Cell τ ρ) : Cell τ ρ :=
  match c.pending with
  | some w => if w.1 = t then ⟨some w.2, none⟩ else c
  | none => c

def Cell.rollback (t : τ) (c : Cell τ ρ) : Cell τ ρ :=
  match c.pending with
  | some w => if w.1 = t then ⟨c.committed, none⟩ else c
  | none => c

/-- The committed rows. -/
def rows (T : Table τ ρ) : List ρ := T.filterMap Cell.committed

/-! ## The operations -/

/-- The rows an `UPDATE … WHERE p` of transaction `t` matches when it starts. -/
def candidates (p : ρ → Bool) (t : τ) (T : Table τ ρ) : List Nat :=
  (List.range T.length).filter fun i => (T[i]?.bind (Cell.sees t)).any p

/-- The update reaches row `i`. `none`: it has to wait. -/
def updateRow (p : ρ → Bool) (set : ρ → ρ) (t : τ) (T : Table τ ρ) (i : Nat) :
    Option (Table τ ρ) :=
  match T[i]? with
  | none => some T
  | some c =>
    if c.blocks t then none
    else match c.sees t with
      | none => some T
      | some r => if p r then some (T.set i { c with pending := some (t, set r) }) else some T

/-- The two rows have a common entry in a unique index. -/
def clash (keys : ρ → List κ) (r r' : ρ) : Bool := (keys r).any fun k => (keys r').contains k

inductive Inserted (τ ρ : Type) where
  | wait
  | violation
  | ok (T : Table τ ρ)

def insert (keys : ρ → List κ) (t : τ) (r : ρ) (T : Table τ ρ) : Inserted τ ρ :=
  if T.any fun c => c.blocks t &&
      (c.committed.any (clash keys r) || c.pending.any fun w => clash keys r w.2) then .wait
  else if T.any fun c => (c.sees t).any (clash keys r) then .violation
  else .ok (T ++ [⟨none, some (t, r)⟩])

def commit (t : τ) (T : Table τ ρ) : Table τ ρ := T.map (Cell.commit t)

def rollback (t : τ) (T : Table τ ρ) : Table τ ρ := T.map (Cell.rollback t)

/-! ## What the unique indexes guarantee -/

/-- No transaction, open or still to come, can see versions of the two rows that clash. -/
structure Compatible (keys : ρ → List κ) (c d : Cell τ ρ) : Prop where
  committed : ∀ r r', c.committed = some r → d.committed = some r' → clash keys r r' = false
  pending : ∀ t t' r r', c.pending = some (t, r) → d.pending = some (t', r') →
    clash keys r r' = false
  left : ∀ t r r', c.pending = some (t, r) → d.committed = some r' →
    (∀ q, d.pending ≠ some (t, q)) → clash keys r r' = false
  right : ∀ t r r', c.committed = some r → d.pending = some (t, r') →
    (∀ q, c.pending ≠ some (t, q)) → clash keys r r' = false

def Wf (keys : ρ → List κ) (T : Table τ ρ) : Prop := T.Pairwise (Compatible keys)

/-- No transaction is open on the table. -/
def Quiet (T : Table τ ρ) : Prop := ∀ c ∈ T, c.pending = none

section
variable {keys : ρ → List κ} {t t' : τ} {T T' : Table τ ρ} {c d : Cell τ ρ} {r r' : ρ}

theorem clash_eq_true : clash keys r r' = true ↔ ∃ k ∈ keys r, k ∈ keys r' := by
  simp [clash]

theorem clash_eq_false : clash keys r r' = false ↔ ∀ k ∈ keys r, k ∉ keys r' := by
  simp [clash]

theorem clash_comm : clash keys r r' = clash keys r' r := by
  rw [Bool.eq_iff_iff, clash_eq_true, clash_eq_true]
  exact exists_congr fun _ => and_comm

theorem clash_mono {r₀ : ρ} (hsub : keys r ⊆ keys r₀) (h : clash keys r₀ r' = false) :
    clash keys r r' = false :=
  clash_eq_false.2 fun k hk => clash_eq_false.1 h k (hsub hk)

theorem sees_eq_some : c.sees t = some r ↔
    c.pending = some (t, r) ∨ ((∀ q, c.pending ≠ some (t, q)) ∧ c.committed = some r) := by
  unfold Cell.sees
  cases hp : c.pending with
  | none => simp
  | some w =>
    obtain ⟨u, q⟩ := w
    by_cases hu : u = t
    · simp [hu]
    · simp [hu]

theorem blocks_eq_false : c.blocks t = false ↔ ∀ u q, c.pending = some (u, q) → u = t := by
  cases hp : c.pending with
  | none => simp [Cell.blocks, hp]
  | some w => obtain ⟨u, q⟩ := w; simp [Cell.blocks, hp]

omit [DecidableEq τ] in
theorem Compatible.symm (h : Compatible keys c d) : Compatible keys d c where
  committed r r' hr hr' := clash_comm.trans (h.committed r' r hr' hr)
  pending t t' r r' hr hr' := clash_comm.trans (h.pending t' t r' r hr' hr)
  left t r r' hr hr' hq := clash_comm.trans (h.right t r' r hr' hr hq)
  right t r r' hr hr' hq := clash_comm.trans (h.left t r' r hr' hr hq)

theorem Compatible.sees (h : Compatible keys c d) (hr : c.sees t = some r)
    (hr' : d.sees t = some r') : clash keys r r' = false := by
  rcases sees_eq_some.1 hr with hr | ⟨hq, hr⟩ <;> rcases sees_eq_some.1 hr' with hr' | ⟨hq', hr'⟩
  · exact h.pending _ _ _ _ hr hr'
  · exact h.left _ _ _ hr hr' hq'
  · exact h.right _ _ _ hr hr' hq
  · exact h.committed _ _ hr hr'

/-! ## What an operation does -/

theorem updateRow_cases {p : ρ → Bool} {set : ρ → ρ} {i : Nat}
    (h : updateRow p set t T i = some T') : T' = T ∨
      ∃ c r, T[i]? = some c ∧ c.blocks t = false ∧ c.sees t = some r ∧ p r = true ∧
        T' = T.set i { c with pending := some (t, set r) } := by
  unfold updateRow at h
  cases hc : T[i]? with
  | none => simp only [hc, Option.some.injEq] at h; exact .inl h.symm
  | some c =>
    simp only [hc, Option.ite_none_left_eq_some, Bool.not_eq_true] at h
    obtain ⟨hb, h⟩ := h
    cases hr : c.sees t with
    | none => simp only [hr, Option.some.injEq] at h; exact .inl h.symm
    | some r =>
      simp only [hr] at h
      split at h
      · next hp => exact .inr ⟨c, r, rfl, hb, hr, hp, (Option.some.inj h).symm⟩
      · exact .inl (Option.some.inj h).symm

/-- A row that matches when the update reaches it is written. -/
theorem updateRow_at {p : ρ → Bool} {set : ρ → ρ} {i : Nat} (h : updateRow p set t T i = some T')
    (hc : T[i]? = some c) (hs : c.sees t = some r) (hp : p r = true) :
    T'[i]? = some { c with pending := some (t, set r) } := by
  unfold updateRow at h
  simp only [hc, hs, hp, if_true, Option.ite_none_left_eq_some, Option.some.injEq] at h
  rw [← h.2]
  exact List.getElem?_set_self (lt_of_getElem?_eq_some hc)

/-- A row that was inserted collides with nothing its transaction sees, and with nothing another
open transaction has written or written over. -/
theorem insert_cases (h : insert keys t r T = .ok T') : T' = T ++ [⟨none, some (t, r)⟩] ∧
    ∀ c ∈ T, Compatible keys c ⟨none, some (t, r)⟩ := by
  unfold insert at h
  split at h
  · cases h
  · next hw =>
    split at h
    · cases h
    · next hv =>
      simp only [Bool.not_eq_true, List.any_eq_false] at hw hv
      refine ⟨(Inserted.ok.inj h).symm, fun c hc => ?_⟩
      have hw := hw c hc
      have hv := hv c hc
      refine ⟨by simp, ?_, by simp, ?_⟩
      · rintro u u' q q' hq ⟨⟩
        by_cases hu : u = t
        · subst hu
          simp [Cell.sees, hq] at hv
          rw [clash_comm]; exact hv
        · simp [Cell.blocks, hq, hu] at hw
          rw [clash_comm]; exact hw.2
      · rintro u q q' hq ⟨⟩ hn
        by_cases hb : c.blocks t = true
        · simp [hb, hq] at hw
          rw [clash_comm]; exact hw.1
        · have hs : c.sees t = some q := sees_eq_some.2 (.inr ⟨hn, hq⟩)
          simp [hs] at hv
          rw [clash_comm]; exact hv

theorem commit_cell (t : τ) (c : Cell τ ρ) : (c.commit t = c ∧ ∀ q, c.pending ≠ some (t, q)) ∨
    ∃ q, c.pending = some (t, q) ∧ c.commit t = ⟨some q, none⟩ := by
  unfold Cell.commit
  split
  · next w hw =>
    obtain ⟨u, q⟩ := w
    by_cases hu : u = t
    · exact .inr ⟨q, by simp [hw, hu], by simp [hu]⟩
    · exact .inl ⟨by simp [hu], by simp [hw, hu]⟩
  · next hw => exact .inl ⟨rfl, by simp [hw]⟩

theorem rollback_cell (t : τ) (c : Cell τ ρ) : (c.rollback t = c ∧ ∀ q, c.pending ≠ some (t, q)) ∨
    ∃ q, c.pending = some (t, q) ∧ c.rollback t = ⟨c.committed, none⟩ := by
  unfold Cell.rollback
  split
  · next w hw =>
    obtain ⟨u, q⟩ := w
    by_cases hu : u = t
    · exact .inr ⟨q, by simp [hw, hu], by simp [hu]⟩
    · exact .inl ⟨by simp [hu], by simp [hw, hu]⟩
  · next hw => exact .inl ⟨rfl, by simp [hw]⟩

/-! ## The operations keep `Wf` -/

omit [DecidableEq τ] [DecidableEq κ] in
theorem pairwise_set {α : Type} {R : α → α → Prop} {l : List α} {i : Nat} {a : α}
    (symm : ∀ x y, R x y → R y x) (h : l.Pairwise R)
    (ha : ∀ (j : Nat) (b : α), j ≠ i → l[j]? = some b → R b a) : (l.set i a).Pairwise R := by
  rw [List.pairwise_iff_getElem] at h ⊢
  intro p q hp hq hpq
  rw [List.length_set] at hp hq
  by_cases ep : i = p
  · subst ep
    rw [List.getElem_set_self, List.getElem_set_ne (by omega)]
    exact symm _ _ (ha q _ (by omega) (List.getElem?_eq_getElem hq))
  · rw [List.getElem_set_ne ep]
    by_cases eq : i = q
    · subst eq
      rw [List.getElem_set_self]
      exact ha p _ (by omega) (List.getElem?_eq_getElem hp)
    · rw [List.getElem_set_ne eq]
      exact h p q hp hq hpq

omit [DecidableEq τ] in
/-- Two rows of the table are compatible. -/
theorem Wf.compatible (h : Wf keys T) {i j : Nat} (hij : i ≠ j) (hc : T[i]? = some c)
    (hd : T[j]? = some d) : Compatible keys c d := by
  obtain ⟨hi, rfl⟩ := List.getElem?_eq_some_iff.1 hc
  obtain ⟨hj, rfl⟩ := List.getElem?_eq_some_iff.1 hd
  rcases Nat.lt_or_gt_of_ne hij with hlt | hlt
  · exact List.pairwise_iff_getElem.1 h i j hi hj hlt
  · exact (List.pairwise_iff_getElem.1 h j i hj hi hlt).symm

/-- Writing a version with no new entry over what the writer sees, when it alone has the row. -/
theorem Compatible.write (h : Compatible keys d c) (hb : c.blocks t = false)
    (hs : c.sees t = some r) (hsub : keys r' ⊆ keys r) :
    Compatible keys d { c with pending := some (t, r') } := by
  have hown := blocks_eq_false.1 hb
  have hmono : ∀ q, clash keys q r = false → clash keys q r' = false := fun q hq => by
    rw [clash_comm] at hq ⊢; exact clash_mono hsub hq
  refine ⟨h.committed, ?_, ?_, ?_⟩
  · rintro u u' q q' hq ⟨⟩
    rcases sees_eq_some.1 hs with hp | ⟨hn, hc⟩
    · exact hmono _ (h.pending _ _ _ _ hq hp)
    · refine hmono _ (h.left u q r hq hc fun q' hq' => ?_)
      cases hown _ _ hq'
      exact hn _ hq'
  · intro u q q' hq hc hn
    refine h.left u q q' hq hc fun x hx => ?_
    cases hown _ _ hx
    exact hn r' rfl
  · rintro u q q' hq ⟨⟩ hn
    rcases sees_eq_some.1 hs with hp | ⟨-, hc⟩
    · exact hmono _ (h.right _ _ _ hq hp hn)
    · exact hmono _ (h.committed _ _ hq hc)

theorem Wf.updateRow {p : ρ → Bool} {set : ρ → ρ} {i : Nat} (h : Wf keys T)
    (hsub : ∀ r, keys (set r) ⊆ keys r) (hu : updateRow p set t T i = some T') : Wf keys T' := by
  obtain rfl | ⟨c, r, hc, hb, hs, -, rfl⟩ := updateRow_cases hu
  · exact h
  · exact pairwise_set (fun _ _ => Compatible.symm) h fun j d hj hd =>
      (h.compatible hj hd hc).write hb hs (hsub r)

theorem Wf.insert (h : Wf keys T) (hi : insert keys t r T = .ok T') : Wf keys T' := by
  obtain ⟨rfl, hn⟩ := insert_cases hi
  refine List.pairwise_append.2 ⟨h, List.pairwise_singleton _ _, fun c hc d hd => ?_⟩
  rw [List.mem_singleton.1 hd]
  exact hn c hc

theorem Compatible.commit (h : Compatible keys c d) :
    Compatible keys (c.commit t) (d.commit t) := by
  rcases commit_cell t c with ⟨hc, hcn⟩ | ⟨q, hq, hc⟩ <;>
    rcases commit_cell t d with ⟨hd, hdn⟩ | ⟨q', hq', hd⟩ <;> rw [hc, hd]
  · exact h
  · refine ⟨?_, by simp, ?_, by simp⟩
    · rintro x y hx ⟨⟩; exact h.right _ _ _ hx hq' hcn
    · rintro u x y hx ⟨⟩ -; exact h.pending _ _ _ _ hx hq'
  · refine ⟨?_, by simp, by simp, ?_⟩
    · rintro x y ⟨⟩ hy; exact h.left _ _ _ hq hy hdn
    · rintro u x y ⟨⟩ hy -; exact h.pending _ _ _ _ hq hy
  · exact ⟨by rintro x y ⟨⟩ ⟨⟩; exact h.pending _ _ _ _ hq hq', by simp, by simp, by simp⟩

theorem Compatible.rollback (h : Compatible keys c d) :
    Compatible keys (c.rollback t) (d.rollback t) := by
  rcases rollback_cell t c with ⟨hc, hcn⟩ | ⟨q, hq, hc⟩ <;>
    rcases rollback_cell t d with ⟨hd, hdn⟩ | ⟨q', hq', hd⟩ <;> rw [hc, hd]
  · exact h
  · refine ⟨h.committed, by simp, fun u x y hx hy _ => h.left u x y hx hy fun z hz => ?_, by simp⟩
    rw [hq'] at hz; cases hz; exact hcn _ hx
  · refine ⟨h.committed, by simp, by simp, fun u x y hx hy _ => h.right u x y hx hy fun z hz => ?_⟩
    rw [hq] at hz; cases hz; exact hdn _ hy
  · exact ⟨h.committed, by simp, by simp, by simp⟩

theorem Wf.commit (h : Wf keys T) (t : τ) : Wf keys (commit t T) :=
  List.pairwise_map.2 (h.imp Compatible.commit)

theorem Wf.rollback (h : Wf keys T) (t : τ) : Wf keys (rollback t T) :=
  List.pairwise_map.2 (h.imp Compatible.rollback)

omit [DecidableEq τ] in
/-- The committed rows of a table share no entry. -/
theorem Wf.noClash (h : Wf keys T) : (rows T).Pairwise fun r r' => clash keys r r' = false :=
  List.pairwise_filterMap.2 (h.imp fun hc r hr r' hr' => hc.committed r r' hr hr')

omit [DecidableEq τ] in
/-- So two of them with a common entry are one. -/
theorem Wf.eq_of_common (h : Wf keys T) (hr : r ∈ rows T)
    (hr' : r' ∈ rows T) {k : κ} (hk : k ∈ keys r) (hk' : k ∈ keys r') : r = r' := by
  have : Std.Symm fun r r' => clash keys r r' = false := ⟨fun _ _ h => clash_comm.trans h⟩
  by_contra hne
  exact clash_eq_false.1 (h.noClash.forall hr hr' hne) k hk hk'

/-! ## What an operation leaves alone -/

/-- The rows that an open transaction has written, as they are in both tables. -/
def Frame (t : τ) (T T' : Table τ ρ) : Prop := ∀ c q, c.pending = some (t, q) → (c ∈ T' ↔ c ∈ T)

/-- `f` frees the rows that `t` has written and leaves the others alone. -/
def Releases (t : τ) (f : Cell τ ρ → Cell τ ρ) : Prop :=
  ∀ c : Cell τ ρ, (f c = c ∧ ∀ q, c.pending ≠ some (t, q)) ∨
    ∃ q, c.pending = some (t, q) ∧ (f c).pending = none

theorem releases_commit (t : τ) : Releases t (Cell.commit (ρ := ρ) t) :=
  fun c => (commit_cell t c).imp id fun ⟨q, hq, hc⟩ => ⟨q, hq, by rw [hc]⟩

theorem releases_rollback (t : τ) : Releases t (Cell.rollback (ρ := ρ) t) :=
  fun c => (rollback_cell t c).imp id fun ⟨q, hq, hc⟩ => ⟨q, hq, by rw [hc]⟩

section
variable {f : Cell τ ρ → Cell τ ρ}

omit [DecidableEq τ] in
theorem Releases.frame (hf : Releases t f) (ht : t' ≠ t) : Frame t' T (T.map f) := by
  intro c q hq
  have hc : f c = c := by
    rcases hf c with ⟨hc, -⟩ | ⟨q', hq', -⟩
    · exact hc
    · rw [hq] at hq'; cases hq'; exact absurd rfl ht
  refine ⟨fun hm => ?_, fun hm => List.mem_map.2 ⟨c, hm, hc⟩⟩
  obtain ⟨d, hd, rfl⟩ := List.mem_map.1 hm
  rcases hf d with ⟨hd', -⟩ | ⟨q', -, hn⟩
  · rwa [hd']
  · rw [hn] at hq; cases hq

omit [DecidableEq τ] in
theorem Releases.mem (hf : Releases t f) (hc : c ∈ T.map f) : c ∈ T ∨ c.pending = none := by
  obtain ⟨d, hd, rfl⟩ := List.mem_map.1 hc
  rcases hf d with ⟨h, -⟩ | ⟨q, -, h⟩
  · rw [h]; exact .inl hd
  · exact .inr h

end

theorem rows_updateRow {p : ρ → Bool} {set : ρ → ρ} {i : Nat}
    (h : updateRow p set t T i = some T') : rows T' = rows T := by
  obtain rfl | ⟨c, r, hc, -, -, -, rfl⟩ := updateRow_cases h
  · rfl
  · obtain ⟨hi, rfl⟩ := List.getElem?_eq_some_iff.1 hc
    have hmap : (T.set i { T[i] with pending := some (t, set r) }).map Cell.committed =
        T.map Cell.committed := by
      refine List.ext_getElem? fun j => ?_
      by_cases hij : i = j
      · subst hij; simp [hi]
      · simp [List.getElem?_set_ne hij]
    have hrows : ∀ U : Table τ ρ, rows U = (U.map Cell.committed).filterMap id := by
      simp [rows, List.filterMap_map]
    rw [hrows, hrows, hmap]

theorem rows_insert (h : insert keys t r T = .ok T') :
    rows T' = rows T := by
  simp [(insert_cases h).1, rows]

omit [DecidableEq κ] in
theorem rows_rollback (t : τ) (T : Table τ ρ) :
    rows (rollback t T) = rows T := by
  rw [rows, rollback, List.filterMap_map]
  refine List.filterMap_congr fun c _ => ?_
  rcases rollback_cell t c with ⟨hc, -⟩ | ⟨q, -, hc⟩ <;> simp [hc]

/-- A commit publishes what its transaction sees. -/
theorem rows_commit (t : τ) (T : Table τ ρ) : rows (commit t T) = T.filterMap (Cell.sees t) := by
  rw [rows, commit, List.filterMap_map]
  refine List.filterMap_congr fun c _ => ?_
  rcases commit_cell t c with ⟨hc, hn⟩ | ⟨q, hq, hc⟩
  · cases hp : c.pending with
    | none => simp [hc, Cell.sees, hp]
    | some w => obtain ⟨u, q⟩ := w; simp [hc, Cell.sees, hp, show u ≠ t from fun e => hn q (e ▸ hp)]
  · simp [hc, Cell.sees, hq]

theorem frame_updateRow {p : ρ → Bool} {set : ρ → ρ} {i : Nat}
    (h : updateRow p set t T i = some T') (ht : t' ≠ t) : Frame t' T T' := by
  obtain rfl | ⟨c, r, hc, hb, -, -, rfl⟩ := updateRow_cases h
  · exact fun _ _ _ => Iff.rfl
  intro d q hq
  rw [List.mem_iff_getElem?, List.mem_iff_getElem?]
  constructor
  · rintro ⟨j, hj⟩
    rcases getElem?_set_cases hj with ⟨-, rfl⟩ | ⟨-, hj⟩
    · cases hq; exact absurd rfl ht
    · exact ⟨j, hj⟩
  · rintro ⟨j, hj⟩
    have hji : i ≠ j := by
      rintro rfl
      rw [hc] at hj; cases hj
      exact ht (blocks_eq_false.1 hb _ _ hq)
    exact ⟨j, by rw [List.getElem?_set_ne hji]; exact hj⟩

theorem frame_insert (h : insert keys t r T = .ok T') (ht : t' ≠ t) : Frame t' T T' := by
  intro d q hq
  rw [(insert_cases h).1, List.mem_append, List.mem_singleton]
  refine or_iff_left fun e => ?_
  subst e; cases hq; exact ht rfl

theorem frame_commit (ht : t' ≠ t) : Frame t' T (commit t T) := (releases_commit t).frame ht

theorem frame_rollback (ht : t' ≠ t) : Frame t' T (rollback t T) := (releases_rollback t).frame ht

/-! ## What becomes of a row, by its position -/

/-- A committed row of the second table was committed in the first one, and what another transaction
than `t` had written of it is still there. -/
def Steady (t : τ) (T T' : Table τ ρ) : Prop :=
  ∀ (i : Nat) (c' : Cell τ ρ), T'[i]? = some c' → ∀ r, c'.committed = some r →
    ∃ c, T[i]? = some c ∧ c.committed = some r ∧
      ∀ u q, u ≠ t → c.pending = some (u, q) → c'.pending = some (u, q)

omit [DecidableEq τ] in
theorem Steady.refl (t : τ) (T : Table τ ρ) : Steady t T T :=
  fun _ c hc _ hr => ⟨c, hc, hr, fun _ _ _ h => h⟩

theorem steady_updateRow {p : ρ → Bool} {set : ρ → ρ} {i : Nat}
    (h : updateRow p set t T i = some T') : Steady t T T' := by
  obtain rfl | ⟨c, q, hc, hb, -, -, rfl⟩ := updateRow_cases h
  · exact .refl t _
  intro j d hd r hr
  rcases getElem?_set_cases hd with ⟨rfl, rfl⟩ | ⟨-, hd⟩
  · exact ⟨c, hc, hr, fun u q hu hq => absurd (blocks_eq_false.1 hb u q hq) hu⟩
  · exact ⟨d, hd, hr, fun _ _ _ h => h⟩

theorem steady_insert (h : insert keys t r T = .ok T') : Steady t T T' := by
  rw [(insert_cases h).1]
  intro j d hd q hq
  rcases getElem?_append_cases hd with ⟨-, rfl⟩ | ⟨-, hd⟩
  · cases hq
  · exact ⟨d, hd, hq, fun _ _ _ h => h⟩

theorem steady_rollback (t : τ) (T : Table τ ρ) : Steady t T (rollback t T) := by
  intro j d hd r hr
  rw [rollback, List.getElem?_map] at hd
  obtain ⟨c, hc, rfl⟩ := Option.map_eq_some_iff.1 hd
  rcases rollback_cell t c with ⟨e, -⟩ | ⟨q, hq, e⟩ <;> rw [e] at hr ⊢
  · exact ⟨c, hc, hr, fun _ _ _ h => h⟩
  · refine ⟨c, hc, hr, fun u q' hu hq' => ?_⟩
    rw [hq] at hq'; cases hq'; exact absurd rfl hu

/-- Of what is committed at a position, an update takes nothing away, -/
theorem committed_updateRow {p : ρ → Bool} {set : ρ → ρ} {i j : Nat}
    (h : updateRow p set t T i = some T') (hc : T[j]? = some c) :
    ∃ c', T'[j]? = some c' ∧ c'.committed = c.committed := by
  obtain rfl | ⟨d, q, hd, -, -, -, rfl⟩ := updateRow_cases h
  · exact ⟨c, hc, rfl⟩
  by_cases hij : i = j
  · subst hij
    obtain rfl := Option.some.inj (hd.symm.trans hc)
    exact ⟨_, List.getElem?_set_self (lt_of_getElem?_eq_some hc), rfl⟩
  · exact ⟨c, by rwa [List.getElem?_set_ne hij], rfl⟩

/-- an insert does not, -/
theorem getElem?_insert {j : Nat} (h : insert keys t r T = .ok T') (hc : T[j]? = some c) :
    T'[j]? = some c := by
  rw [(insert_cases h).1, List.getElem?_append_left (lt_of_getElem?_eq_some hc), hc]

/-- and a rollback does not. -/
theorem committed_rollback {j : Nat} (t : τ) (hc : T[j]? = some c) :
    ∃ c', (rollback t T)[j]? = some c' ∧ c'.committed = c.committed := by
  refine ⟨c.rollback t, by rw [rollback, List.getElem?_map, hc]; rfl, ?_⟩
  rcases rollback_cell t c with ⟨e, -⟩ | ⟨q, -, e⟩ <;> rw [e]

/-- What a statement has matched when it starts. -/
theorem sees_of_mem_candidates {p : ρ → Bool} {i : Nat} (h : i ∈ candidates p t T) :
    ∃ c r, T[i]? = some c ∧ c.sees t = some r ∧ p r = true := by
  have hany := (List.mem_filter.1 h).2
  rw [Option.any_eq_true] at hany
  obtain ⟨r, hr, hp⟩ := hany
  obtain ⟨c, hc, hs⟩ := Option.bind_eq_some_iff.1 hr
  exact ⟨c, r, hc, hs, hp⟩

/-- A row after a commit of `t`: as it was, or the version that `t` had written. -/
theorem getElem?_commit {i : Nat} (h : (commit t T)[i]? = some d) : ∃ c, T[i]? = some c ∧
    (d = c ∧ (∀ q, c.pending ≠ some (t, q)) ∨ ∃ q, c.pending = some (t, q) ∧ d = ⟨some q, none⟩) := by
  rw [commit, List.getElem?_map] at h
  obtain ⟨c, hc, rfl⟩ := Option.map_eq_some_iff.1 h
  exact ⟨c, hc, commit_cell t c⟩

/-! ## Rows that come in turn -/

/-- A version of the row: the committed one, or the one an open transaction wrote. -/
def Cell.Has (c : Cell τ ρ) (r : ρ) : Prop := c.committed = some r ∨ ∃ t, c.pending = some (t, r)

/-- The rows of a group come into the table one after the other: no row stands below one of its group
that is not yet committed. -/
def InTurn {γ : Type} (group : ρ → γ) (T : Table τ ρ) : Prop :=
  T.Pairwise fun c d => c.committed = none → ∀ r, c.Has r → ∀ r', d.Has r' → group r' ≠ group r

theorem has_of_sees (h : c.sees t = some r) : c.Has r :=
  (sees_eq_some.1 h).symm.imp And.right fun hp => ⟨t, hp⟩

omit [DecidableEq τ] in
theorem has_write (h : ({ c with pending := some (t, r) } : Cell τ ρ).Has r') :
    c.committed = some r' ∨ r' = r := by
  rcases h with h | ⟨u, h⟩
  · exact .inl h
  · cases h; exact .inr rfl

theorem has_commit (h : (c.commit t).Has r) : c.Has r := by
  rcases commit_cell t c with ⟨e, -⟩ | ⟨q, hq, e⟩ <;> rw [e] at h
  · exact h
  · rcases h with h | ⟨u, h⟩
    · cases h; exact .inr ⟨t, hq⟩
    · cases h

theorem has_rollback (h : (c.rollback t).Has r) : c.Has r := by
  rcases rollback_cell t c with ⟨e, -⟩ | ⟨q, hq, e⟩ <;> rw [e] at h
  · exact h
  · rcases h with h | ⟨u, h⟩
    · exact .inl h
    · cases h

theorem committed_of_commit (h : (c.commit t).committed = none) : c.committed = none := by
  rcases commit_cell t c with ⟨e, -⟩ | ⟨q, -, e⟩ <;> rw [e] at h
  · exact h
  · cases h

theorem committed_of_rollback (h : (c.rollback t).committed = none) : c.committed = none := by
  rcases rollback_cell t c with ⟨e, -⟩ | ⟨q, -, e⟩ <;> rw [e] at h <;> exact h

/-- Writing a row over. -/
theorem pairwise_set_of_imp {α : Type} {R : α → α → Prop} {l : List α} {i : Nat} {a b : α}
    (h : l.Pairwise R) (ha : l[i]? = some a) (hl : ∀ x, R x a → R x b) (hr : ∀ x, R a x → R b x) :
    (l.set i b).Pairwise R := by
  induction l generalizing i with
  | nil => exact h
  | cons x l ih =>
    obtain ⟨hx, h⟩ := List.pairwise_cons.1 h
    cases i with
    | zero =>
      obtain rfl : x = a := by simpa using ha
      exact List.pairwise_cons.2 ⟨fun y hy => hr y (hx y hy), h⟩
    | succ i =>
      have ha : l[i]? = some a := by simpa using ha
      refine List.pairwise_cons.2 ⟨fun y hy => ?_, ih h ha⟩
      rcases List.mem_or_eq_of_mem_set hy with hy | rfl
      · exact hx y hy
      · exact hl x (hx a (List.mem_of_getElem? ha))

section
variable {γ : Type} {group : ρ → γ}

/-- A unique index keeps the groups in turn: the new row collides with one of its group that is not
yet committed. -/
theorem InTurn.insert (h : InTurn group T) (hi : insert keys t r T = .ok T')
    (hkeys : ∀ c ∈ T, c.committed = none → ∀ q, c.Has q → group r = group q → clash keys q r = true) :
    InTurn group T' := by
  obtain ⟨rfl, hn⟩ := insert_cases hi
  refine List.pairwise_append.2 ⟨h, List.pairwise_singleton _ _, ?_⟩
  intro c hc d hd hnone q hq r' hr' e
  obtain rfl := List.mem_singleton.1 hd
  obtain rfl : r' = r := by
    rcases hr' with hr' | ⟨u, hr'⟩
    · cases hr'
    · cases hr'; rfl
  have hyes := hkeys c hc hnone q hq e
  rcases hq with hq | ⟨u, hq⟩
  · rw [hnone] at hq; cases hq
  · rw [(hn c hc).pending u t q r' hq rfl] at hyes; cases hyes

theorem InTurn.updateRow {p : ρ → Bool} {set : ρ → ρ} {i : Nat} (h : InTurn group T)
    (hset : ∀ r, group (set r) = group r) (hu : updateRow p set t T i = some T') :
    InTurn group T' := by
  obtain rfl | ⟨c, r, hc, -, hs, -, rfl⟩ := updateRow_cases hu
  · exact h
  have hr := has_of_sees hs
  refine pairwise_set_of_imp h hc (fun d hd hnone q hq r' hr' => ?_)
    fun d hd hnone q hq r' hr' => ?_
  · rcases has_write hr' with hcom | rfl
    · exact hd hnone q hq r' (.inl hcom)
    · rw [hset]; exact hd hnone q hq r hr
  · rcases has_write hq with hcom | rfl
    · rw [show c.committed = none from hnone] at hcom; cases hcom
    · rw [hset]; exact hd hnone r hr r' hr'

theorem InTurn.commit (h : InTurn group T) (t : τ) : InTurn group (commit t T) :=
  List.pairwise_map.2 (h.imp fun hcd hnone r hr r' hr' =>
    hcd (committed_of_commit hnone) r (has_commit hr) r' (has_commit hr'))

theorem InTurn.rollback (h : InTurn group T) (t : τ) : InTurn group (rollback t T) :=
  List.pairwise_map.2 (h.imp fun hcd hnone r hr r' hr' =>
    hcd (committed_of_rollback hnone) r (has_rollback hr) r' (has_rollback hr'))

end

/-! ## A transaction that has the table to itself -/

/-- Only `t` has written rows. -/
def Alone (t : τ) (T : Table τ ρ) : Prop := ∀ c ∈ T, c.blocks t = false

/-- What an update makes of a row. -/
def Cell.update (p : ρ → Bool) (set : ρ → ρ) (t : τ) (c : Cell τ ρ) : Cell τ ρ :=
  match c.sees t with
  | some r => if p r then { c with pending := some (t, set r) } else c
  | none => c

omit [DecidableEq κ] in
theorem Quiet.alone (h : Quiet T) (t : τ) : Alone t T := by
  intro c hc
  simp [Cell.blocks, h c hc]

omit [DecidableEq κ] in
theorem Quiet.sees (h : Quiet T) (t : τ) : T.filterMap (Cell.sees t) = rows T :=
  List.filterMap_congr fun c hc => by simp [Cell.sees, h c hc]

section
variable {p : ρ → Bool} {set : ρ → ρ} {T₀ : Table τ ρ} {row : Nat} {todo : List Nat}

omit [DecidableEq κ] in
theorem sees_update : (c.update p set t).sees t = (c.sees t).map fun r => if p r then set r else r := by
  unfold Cell.update
  cases hs : c.sees t with
  | none => simp [hs]
  | some r =>
    by_cases hp : p r = true
    · simp [hp, Cell.sees]
    · simp [hp, hs]

omit [DecidableEq κ] in
theorem committed_update : (c.update p set t).committed = c.committed := by
  unfold Cell.update
  split
  · split <;> rfl
  · rfl

omit [DecidableEq κ] in
theorem Alone.update (h : Alone t T) : Alone t (T.map (Cell.update p set t)) := by
  intro d hd
  obtain ⟨c, hc, rfl⟩ := List.mem_map.1 hd
  have hb := h c hc
  unfold Cell.update
  split
  · split
    · simp [Cell.blocks]
    · exact hb
  · exact hb

/-- The statement has gone through all rows but those of `todo`. -/
def Updated (p : ρ → Bool) (set : ρ → ρ) (t : τ) (todo : List Nat) (T₀ T : Table τ ρ) : Prop :=
  ∀ i : Nat, T[i]? = if i ∈ todo then T₀[i]? else T₀[i]?.map (Cell.update p set t)

omit [DecidableEq κ] in
theorem updated_candidates : Updated p set t (candidates p t T) T T := by
  intro i
  split
  · rfl
  · next hi =>
    cases hc : T[i]? with
    | none => rfl
    | some c =>
      have hsame : c.update p set t = c := by
        unfold Cell.update
        cases hs : c.sees t with
        | none => rfl
        | some r =>
          refine if_neg fun hp => hi (List.mem_filter.2 ⟨?_, ?_⟩)
          · exact List.mem_range.2 (lt_of_getElem?_eq_some hc)
          · simp [hc, hs, hp]
      rw [Option.map_some, hsame]

omit [DecidableEq κ] in
/-- It never has to wait. -/
theorem Updated.next (h : Updated p set t (row :: todo) T₀ T) (ht : Alone t T₀)
    (hrow : row ∈ candidates p t T₀) (hnew : row ∉ todo) :
    ∃ T', updateRow p set t T row = some T' ∧ Updated p set t todo T₀ T' := by
  obtain ⟨hlt, hany⟩ := List.mem_filter.1 hrow
  obtain ⟨c, hc⟩ : ∃ c, T₀[row]? = some c :=
    ⟨_, List.getElem?_eq_getElem (List.mem_range.1 hlt)⟩
  have hcT : T[row]? = some c := by rw [h row, if_pos List.mem_cons_self, hc]
  obtain ⟨r, hs, hp⟩ : ∃ r, c.sees t = some r ∧ p r = true := by
    simpa [hc, Option.any_eq_true] using hany
  have hb := ht c (List.mem_of_getElem? hc)
  refine ⟨T.set row { c with pending := some (t, set r) }, by simp [updateRow, hcT, hb, hs, hp], ?_⟩
  intro i
  by_cases hi : i = row
  · subst hi
    rw [List.getElem?_set_self (lt_of_getElem?_eq_some hcT), if_neg hnew, hc]
    simp [Cell.update, hs, hp]
  · rw [List.getElem?_set_ne (Ne.symm hi), h i]
    simp [hi]

omit [DecidableEq κ] in
theorem Updated.all (h : Updated p set t [] T₀ T) : T = T₀.map (Cell.update p set t) := by
  refine List.ext_getElem? fun i => ?_
  rw [h i, List.getElem?_map]
  rfl

omit [DecidableEq κ] in
/-- On a table where nobody writes, an update that has gone through is one map of the rows. -/
theorem Quiet.sees_update (h : Quiet T) : (T.map (Cell.update p set t)).filterMap (Cell.sees t) =
    (rows T).map fun r => if p r then set r else r := by
  rw [List.filterMap_map, ← h.sees t, List.map_filterMap]
  exact List.filterMap_congr fun c _ => ReadCommitted.sees_update

omit [DecidableEq κ] in
theorem rows_update : rows (T.map (Cell.update p set t)) = rows T := by
  rw [rows, List.filterMap_map]
  exact List.filterMap_congr fun c _ => committed_update

end

theorem insert_alone (h : Alone t T) : insert keys t r T =
    if (T.filterMap (Cell.sees t)).any (clash keys r) then .violation
    else .ok (T ++ [⟨none, some (t, r)⟩]) := by
  have hwait : ¬ (T.any fun c => c.blocks t &&
      (c.committed.any (clash keys r) || c.pending.any fun w => clash keys r w.2)) = true := by
    rw [Bool.not_eq_true, List.any_eq_false]
    intro c hc
    simp [h c hc]
  have hany : (T.any fun c => (c.sees t).any (clash keys r)) =
      (T.filterMap (Cell.sees t)).any (clash keys r) := by
    rw [List.any_filterMap]
    rfl
  rw [insert, if_neg hwait, hany]

/-- On a table where nobody writes, an insert is tested against what is committed. -/
theorem Quiet.insert (h : Quiet T) : insert keys t r T =
    if (rows T).any (clash keys r) then .violation else .ok (T ++ [⟨none, some (t, r)⟩]) := by
  rw [insert_alone (h.alone t), h.sees t]

omit [DecidableEq κ] in
theorem Alone.append (h : Alone t T) (r : ρ) : Alone t (T ++ [⟨none, some (t, r)⟩]) := by
  intro c hc
  rcases List.mem_append.1 hc with hc | hc
  · exact h c hc
  · rw [List.mem_singleton.1 hc]
    simp [Cell.blocks]

omit [DecidableEq κ] in
theorem sees_append (T : Table τ ρ) (r : ρ) :
    (T ++ [(⟨none, some (t, r)⟩ : Cell τ ρ)]).filterMap (Cell.sees t) =
      T.filterMap (Cell.sees t) ++ [r] := by
  simp [Cell.sees]

theorem quiet_commit (h : Alone t T) : Quiet (commit t T) := by
  intro d hd
  obtain ⟨c, hc, rfl⟩ := List.mem_map.1 hd
  rcases commit_cell t c with ⟨e, hn⟩ | ⟨q, -, e⟩ <;> rw [e]
  cases hp : c.pending with
  | none => rfl
  | some w =>
    obtain rfl := blocks_eq_false.1 (h c hc) w.1 w.2 hp
    exact absurd hp (hn w.2)

theorem quiet_rollback (h : Alone t T) : Quiet (rollback t T) := by
  intro d hd
  obtain ⟨c, hc, rfl⟩ := List.mem_map.1 hd
  rcases rollback_cell t c with ⟨e, hn⟩ | ⟨q, -, e⟩ <;> rw [e]
  cases hp : c.pending with
  | none => rfl
  | some w =>
    obtain rfl := blocks_eq_false.1 (h c hc) w.1 w.2 hp
    exact absurd hp (hn w.2)

/-! ## The rows an operation writes -/

theorem mem_updateRow {p : ρ → Bool} {set : ρ → ρ} {i : Nat}
    (h : updateRow p set t T i = some T') (hc : c ∈ T') : c ∈ T ∨
      ∃ d ∈ T, ∃ r, d.blocks t = false ∧ d.sees t = some r ∧ p r = true ∧
        c = { d with pending := some (t, set r) } := by
  obtain rfl | ⟨d, r, hd, hb, hs, hp, rfl⟩ := updateRow_cases h
  · exact .inl hc
  · rcases List.mem_or_eq_of_mem_set hc with hc | rfl
    · exact .inl hc
    · exact .inr ⟨d, List.mem_of_getElem? hd, r, hb, hs, hp, rfl⟩

theorem mem_insert (h : insert keys t r T = .ok T') : c ∈ T' ↔ c ∈ T ∨ c = ⟨none, some (t, r)⟩ := by
  simp [(insert_cases h).1]

/-- After a commit or a rollback a row is as it was, or free. -/
theorem mem_commit (hc : c ∈ commit t T) : c ∈ T ∨ c.pending = none := (releases_commit t).mem hc

theorem mem_rollback (hc : c ∈ rollback t T) : c ∈ T ∨ c.pending = none :=
  (releases_rollback t).mem hc

end

end ReadCommitted
