import DepositPortal.Patrol.Walk

/-!
# The patrol program (solution.py)

The program has no notion of a guard: the map itself holds her, as one of the marks `^ > v <` in
row `i` and column `j`. Each iteration of the loop of `main` either turns the mark, moves it one cell
on (and overwrites the old one with `X`), or finds that nothing moved and stops.

| here | there |
|---|---|
| `getStart`, `findObstacles`, `isOutOfBounds` | `get_start`, `find_obstacles`, `is_out_of_bounds` (:5-34) |
| `updateDistinctElementsList`, `moveForward` | `update_distinct_elements_list`, `move_forward` (:36-65) |
| `rotate` | :67-75 |
| `prepare`, `iterate`, `loop`, `main` | :77-100 |
-/
namespace DepositPortal.Patrol

/-! ## Lists of the language -/

inductive Thrown where
  | IndexError
  deriving DecidableEq

/-- Where the index `i` points in a list of `n`: below zero it counts from the end. -/
def place (n : Nat) (i : Int) : Except Thrown Nat :=
  let k := if i < 0 then i + n else i
  if 0 ≤ k ∧ k < n then .ok k.toNat else .error .IndexError

/-- `xs[i]` -/
def item {α : Type} (xs : List α) (i : Int) : Except Thrown α := do
  let k ← place xs.length i
  match xs[k]? with
  | some x => pure x
  | none => throw .IndexError

/-- `map[i][j]` -/
def read (map : Grid) (i j : Int) : Except Thrown Char := do
  let line ← item map i
  item line j

/-- `map[i][j] = c` -/
def write (map : Grid) (i j : Int) (c : Char) : Except Thrown Grid := do
  let line ← item map i
  let a ← place map.length i
  let b ← place line.length j
  pure (map.set a (line.set b c))

/-- `file.readlines()`: the lines of the text, each with its line feed. -/
def readlines : List Char → List (List Char)
  | [] => []
  | c :: cs =>
    if c = '\n' then ['\n'] :: readlines cs
    else match readlines cs with
      | [] => [[c]]
      | line :: lines => (c :: line) :: lines

/-- `line.strip("\n")` -/
def strip (line : List Char) : List Char :=
  ((line.dropWhile (· == '\n')).reverse.dropWhile (· == '\n')).reverse

/-! ## The functions of the program -/

/-- `for i, line in enumerate(map)` of `getStart`, from row `i` on. -/
def getStartFrom (i : Nat) : Grid → Int × Int
  | [] => (-1, -1)
  | line :: map => if '^' ∈ line then (i, line.idxOf '^') else getStartFrom (i + 1) map

/-- :5 -/
def getStart (map : Grid) : Int × Int := getStartFrom 0 map

/-- :28. `rows` and `columns` are the last indices, not the counts. -/
def isOutOfBounds (i j rows columns : Int) : Bool :=
  if ¬ (0 ≤ i ∧ i ≤ rows) then true
  else if ¬ (0 ≤ j ∧ j ≤ columns) then true
  else false

/-- `map[i][j] == mark and not isOutOfBounds(a, b, rows, columns) and ok(map[a][b])`, the condition
of every branch of `findObstacles` and `moveForward`. -/
def faces (map : Grid) (i j : Int) (mark : Char) (a b rows columns : Int) (ok : Char → Bool) :
    Except Thrown Bool := do
  if (← read map i j) ≠ mark then pure false
  else if isOutOfBounds a b rows columns then pure false
  else return ok (← read map a b)

/-- :12 -/
def findObstacles (map : Grid) (i j rows columns : Int) : Except Thrown Bool := do
  if ← faces map i j '^' (i - 1) j rows columns (· == '#') then pure true
  else if ← faces map i j '>' i (j + 1) rows columns (· == '#') then pure true
  else if ← faces map i j 'v' (i + 1) j rows columns (· == '#') then pure true
  else if ← faces map i j '<' i (j - 1) rows columns (· == '#') then pure true
  else pure false

/-- :36 -/
def updateDistinctElementsList (i j : Int) (elemList : List (Int × Int)) : List (Int × Int) :=
  if (i, j) ∉ elemList then elemList ++ [(i, j)] else elemList

/-- What `moveForward` leaves behind: the map, `distinctPositions` and the position returned. -/
structure Moved where
  map : Grid
  distinctPositions : List (Int × Int)
  newPos : Int × Int
  deriving DecidableEq

/-- The body of a branch of `moveForward`. -/
def advance (map : Grid) (i j : Int) (mark : Char) (a b : Int) (distinctPositions : List (Int × Int)) :
    Except Thrown Moved := do
  let distinctPositions := updateDistinctElementsList i j distinctPositions
  let map ← write map i j 'X'
  let map ← write map a b mark
  pure ⟨map, distinctPositions, (a, b)⟩

/-- :40 -/
def moveForward (map : Grid) (i j rows columns : Int) (distinctPositions : List (Int × Int)) :
    Except Thrown Moved := do
  if ← faces map i j '^' (i - 1) j rows columns (· != '#') then
    advance map i j '^' (i - 1) j distinctPositions
  else if ← faces map i j '>' i (j + 1) rows columns (· != '#') then
    advance map i j '>' i (j + 1) distinctPositions
  else if ← faces map i j 'v' (i + 1) j rows columns (· != '#') then
    advance map i j 'v' (i + 1) j distinctPositions
  else if ← faces map i j '<' i (j - 1) rows columns (· != '#') then
    advance map i j '<' i (j - 1) distinctPositions
  else pure ⟨map, distinctPositions, (i, j)⟩

/-- :67 -/
def rotate (map : Grid) (i j : Int) : Except Thrown Grid := do
  if (← read map i j) = '^' then write map i j '>'
  else if (← read map i j) = '>' then write map i j 'v'
  else if (← read map i j) = 'v' then write map i j '<'
  else if (← read map i j) = '<' then write map i j '^'
  else pure map

/-- The variables of `main`. -/
structure Locals where
  map : Grid
  distinctPositions : List (Int × Int)
  rows : Int
  columns : Int
  i : Int
  j : Int
  deriving DecidableEq

/-- After a number of iterations the loop goes on, or `break` has been met. -/
inductive Loop where
  | go (s : Locals)
  | broke (s : Locals)
  deriving DecidableEq

/-- `main` up to the loop (:82-90), on the text that `open` gives (line ends already made `\n`). -/
def prepare (text : List Char) : Except Thrown Locals := do
  let map := (readlines text).map strip
  let rows : Int := map.length - 1
  let columns : Int := (← item map 0).length - 1
  let start := getStart map
  pure ⟨map, [], rows, columns, start.1, start.2⟩

/-- The body of `while True` (:92-98). -/
def iterate (s : Locals) : Except Thrown Loop := do
  if ← findObstacles s.map s.i s.j s.rows s.columns then
    return .go { s with map := ← rotate s.map s.i s.j }
  else
    let moved ← moveForward s.map s.i s.j s.rows s.columns s.distinctPositions
    let s := { s with map := moved.map, distinctPositions := moved.distinctPositions }
    if moved.newPos = (s.i, s.j) then return .broke s
    else return .go { s with i := moved.newPos.1, j := moved.newPos.2 }

/-- At most `n` iterations. -/
def loop : Nat → Locals → Except Thrown Loop
  | 0, s => .ok (.go s)
  | n + 1, s => do
    match ← loop n s with
    | .go s => iterate s
    | .broke s => pure (.broke s)

inductive Printed where
  | count (n : Nat)
  | error (e : Thrown)
  deriving DecidableEq

/-- What the program prints, if its loop ends within `fuel` iterations. -/
def main (fuel : Nat) (text : List Char) : Option Printed :=
  match prepare text >>= loop fuel with
  | .error e => some (.error e)
  | .ok (.go _) => none
  | .ok (.broke s) => some (.count (s.distinctPositions.length + 1))

/-! ## What the list operations do inside the map -/

variable {map map' : Grid} {p q : Int × Int} {c d : Char}

@[simp] theorem ok_bind {ε α β : Type} {a : α} {f : α → Except ε β} : (Except.ok a >>= f) = f a := rfl

@[simp] theorem pure_ok {ε α : Type} {a : α} : (pure a : Except ε α) = .ok a := rfl

theorem place_nat {n k : Nat} (h : k < n) : place n k = .ok k := by
  simp [place, h, show ¬ (k : Int) < 0 by omega]

theorem item_nat {α : Type} {xs : List α} {k : Nat} {x : α} (h : xs[k]? = some x) :
    item xs k = .ok x := by
  obtain ⟨hk, -⟩ := List.getElem?_eq_some_iff.1 h
  simp only [item, place_nat hk, ok_bind, h, pure_ok]

/-- A cell of the map is at indices that are not below zero. -/
theorem cellAt_cases (h : cellAt map p = some c) :
    ∃ (a b : Nat) (row : List Char),
      p = ((a : Int), (b : Int)) ∧ map[a]? = some row ∧ row[b]? = some c := by
  obtain ⟨i, j⟩ := p
  simp only [cellAt] at h
  split at h
  · next hp =>
    obtain ⟨line, hline, hc⟩ := Option.bind_eq_some_iff.1 h
    exact ⟨i.toNat, j.toNat, line, by simp [hp.1, hp.2], hline, hc⟩
  · cases h

theorem read_cell (h : cellAt map p = some c) : read map p.1 p.2 = .ok c := by
  obtain ⟨a, b, line, rfl, hline, hc⟩ := cellAt_cases h
  simp only [read, item_nat hline, ok_bind]
  exact item_nat hc

theorem write_cell (h : cellAt map p = some c) (d : Char) :
    ∃ map', write map p.1 p.2 d = .ok map' ∧ cellAt map' p = some d ∧
      ∀ q, q ≠ p → cellAt map' q = cellAt map q := by
  obtain ⟨a, b, line, rfl, hline, hc⟩ := cellAt_cases h
  obtain ⟨ha, -⟩ := List.getElem?_eq_some_iff.1 hline
  obtain ⟨hb, -⟩ := List.getElem?_eq_some_iff.1 hc
  refine ⟨map.set a (line.set b d), ?_, ?_, ?_⟩
  · simp only [write, item_nat hline, place_nat ha, place_nat hb, ok_bind, pure_ok]
  · simp [ha, hb]
  · rintro ⟨i, j⟩ hq
    simp only [cellAt]
    split
    · next hpos =>
      by_cases hi : a = i.toNat
      · have hj : b ≠ j.toNat := by
          rintro rfl
          apply hq
          simp [hi, hpos.1, hpos.2]
        subst hi
        rw [List.getElem?_set_self ha, hline, Option.bind_some, Option.bind_some, List.getElem?_set_ne hj]
      · rw [List.getElem?_set_ne hi]
    · rfl

theorem isOutOfBounds_iff {lab : Lab} :
    isOutOfBounds p.1 p.2 (lab.rows.length - 1) (lab.width - 1) = true ↔ ¬ lab.Inside p := by
  simp only [isOutOfBounds, Lab.Inside]
  split
  · simp only [true_iff]
    omega
  · split
    · simp only [true_iff]
      omega
    · simp only [Bool.false_eq_true, false_iff, not_not]
      omega

/-! ## The map holds the guard -/

/-- The program's variables stand for the guard `g` of the walk. -/
structure Holds (lab : Lab) (s : Locals) (g : Guard) : Prop where
  pos : (s.i, s.j) = g.pos
  rows : s.rows = lab.rows.length - 1
  columns : s.columns = lab.width - 1
  inside : ∀ p, (cellAt s.map p).isSome ↔ lab.Inside p
  mark : cellAt s.map g.pos = some g.dir.mark
  only : ∀ p d, cellAt s.map p = some (Dir.mark d) → p = g.pos
  walls : ∀ p, cellAt s.map p = some '#' ↔ cellAt lab.rows p = some '#'

section
variable {lab : Lab} {s s' : Locals} {g g' : Guard} {d d' : Dir} {a b : Int} {ok : Char → Bool}
  {n : Nat}

theorem mark_inj (h : d.mark = d'.mark) : d = d' := by
  cases d <;> cases d' <;> simp [Dir.mark] at h ⊢

theorem mark_ne_wall : d.mark ≠ '#' := by
  cases d <;> decide

theorem Holds.read_eq (h : Holds lab s g) : read s.map s.i s.j = .ok g.dir.mark := by
  have hread := read_cell h.mark
  rwa [← h.pos] at hread

theorem Holds.faces_other (h : Holds lab s g) (hd : g.dir ≠ d) :
    faces s.map s.i s.j d.mark a b s.rows s.columns ok = .ok false := by
  have hne : g.dir.mark ≠ d.mark := fun he => hd (mark_inj he)
  simp [faces, h.read_eq, hne]

theorem Holds.faces_self (h : Holds lab s g) :
    faces s.map s.i s.j g.dir.mark g.ahead.1 g.ahead.2 s.rows s.columns ok =
      .ok ((cellAt s.map g.ahead).any ok) := by
  simp only [faces, h.read_eq, ok_bind, ne_eq, not_true_eq_false, if_false, h.rows, h.columns]
  cases hc : cellAt s.map g.ahead with
  | none =>
    have hout : ¬ lab.Inside g.ahead := by simp [← h.inside, hc]
    simp [isOutOfBounds_iff.2 hout]
  | some c =>
    have hin : lab.Inside g.ahead := by simp [← h.inside, hc]
    have hbound : isOutOfBounds g.ahead.1 g.ahead.2 (lab.rows.length - 1) (lab.width - 1) = false := by
      rw [Bool.eq_false_iff, ne_eq, isOutOfBounds_iff, not_not]
      exact hin
    simp [hbound, read_cell hc]

/-- The four conditions of `findObstacles` and of `moveForward`: only the one of the mark that is
there can hold. -/
theorem Holds.faces_marks (h : Holds lab s g) (ok : Char → Bool) :
    faces s.map s.i s.j '^' (s.i - 1) s.j s.rows s.columns ok =
      .ok (g.dir == .up && (cellAt s.map g.ahead).any ok) ∧
    faces s.map s.i s.j '>' s.i (s.j + 1) s.rows s.columns ok =
      .ok (g.dir == .right && (cellAt s.map g.ahead).any ok) ∧
    faces s.map s.i s.j 'v' (s.i + 1) s.j s.rows s.columns ok =
      .ok (g.dir == .down && (cellAt s.map g.ahead).any ok) ∧
    faces s.map s.i s.j '<' s.i (s.j - 1) s.rows s.columns ok =
      .ok (g.dir == .left && (cellAt s.map g.ahead).any ok) := by
  have key : ∀ d, faces s.map s.i s.j d.mark (Guard.mk (s.i, s.j) d).ahead.1
      (Guard.mk (s.i, s.j) d).ahead.2 s.rows s.columns ok =
        .ok (g.dir == d && (cellAt s.map g.ahead).any ok) := by
    intro d
    by_cases hd : g.dir = d
    · subst hd
      have hg : Guard.mk (s.i, s.j) g.dir = g := by rw [h.pos]
      simp [hg, h.faces_self]
    · simp [h.faces_other hd, hd]
  exact ⟨key .up, key .right, key .down, key .left⟩

theorem Holds.findObstacles_eq (h : Holds lab s g) :
    findObstacles s.map s.i s.j s.rows s.columns = .ok ((cellAt s.map g.ahead).any (· == '#')) := by
  obtain ⟨hup, hright, hdown, hleft⟩ := h.faces_marks (· == '#')
  simp only [findObstacles, hup, hright, hdown, hleft, ok_bind, pure_ok]
  cases g.dir <;> cases (cellAt s.map g.ahead).any (· == '#') <;> rfl

theorem Holds.moveForward_eq (h : Holds lab s g) :
    moveForward s.map s.i s.j s.rows s.columns s.distinctPositions =
      if (cellAt s.map g.ahead).any (· != '#') then
        advance s.map s.i s.j g.dir.mark g.ahead.1 g.ahead.2 s.distinctPositions
      else .ok ⟨s.map, s.distinctPositions, (s.i, s.j)⟩ := by
  obtain ⟨hup, hright, hdown, hleft⟩ := h.faces_marks (· != '#')
  simp only [moveForward, hup, hright, hdown, hleft, ok_bind, pure_ok]
  obtain ⟨pos, d⟩ := g
  obtain rfl : (s.i, s.j) = pos := h.pos
  cases d <;> cases (cellAt s.map _).any (· != '#') <;> rfl

/-- The mark is turned and the rest of the map stays. -/
theorem Holds.rotate_eq (h : Holds lab s g) :
    ∃ map', rotate s.map s.i s.j = .ok map' ∧ cellAt map' g.pos = some g.dir.turn.mark ∧
      ∀ p, p ≠ g.pos → cellAt map' p = cellAt s.map p := by
  obtain ⟨pos, d⟩ := g
  obtain rfl : (s.i, s.j) = pos := h.pos
  obtain ⟨map', hw, hmark, hrest⟩ := write_cell h.mark d.turn.mark
  refine ⟨map', ?_, hmark, hrest⟩
  simp only [rotate, read_cell h.mark, ok_bind]
  rw [← hw]
  cases d <;> rfl

/-- The guard's old cell becomes an `X`, the one in front of her takes the mark. -/
theorem Holds.advance_eq (h : Holds lab s g) (hin : lab.Inside g.ahead) :
    ∃ map', advance s.map s.i s.j g.dir.mark g.ahead.1 g.ahead.2 s.distinctPositions =
        .ok ⟨map', updateDistinctElementsList s.i s.j s.distinctPositions, g.ahead⟩ ∧
      cellAt map' g.ahead = some g.dir.mark ∧ cellAt map' g.pos = some 'X' ∧
      ∀ p, p ≠ g.pos → p ≠ g.ahead → cellAt map' p = cellAt s.map p := by
  obtain ⟨c, hc⟩ := Option.isSome_iff_exists.1 ((h.inside _).2 hin)
  obtain ⟨map₁, hw₁, hx, hrest₁⟩ := write_cell h.mark 'X'
  rw [← h.pos] at hw₁
  obtain ⟨map₂, hw₂, hmark, hrest₂⟩ := write_cell ((hrest₁ _ g.ahead_ne).trans hc) g.dir.mark
  refine ⟨map₂, ?_, hmark, ?_, ?_⟩
  · simp only [advance, hw₁, hw₂, ok_bind, pure_ok]
  · rw [hrest₂ _ g.ahead_ne.symm, hx]
  · intro p hp ha
    rw [hrest₂ p ha, hrest₁ p hp]

/-! ## One iteration -/

theorem Holds.obstacle_iff (h : Holds lab s g) :
    (cellAt s.map g.ahead).any (· == '#') = true ↔ cellAt lab.rows g.ahead = some '#' := by
  rw [← h.walls]
  cases cellAt s.map g.ahead <;> simp

theorem Holds.free_iff (h : Holds lab s g) (hw : cellAt lab.rows g.ahead ≠ some '#') :
    (cellAt s.map g.ahead).any (· != '#') = true ↔ lab.Inside g.ahead := by
  rw [ne_eq, ← h.walls] at hw
  rw [← h.inside]
  cases hc : cellAt s.map g.ahead <;> simp_all

/-- The cells of a map that differs from the held one only in places that are on the map. -/
theorem Holds.inside_of_eq {map' : Grid} {t : List (Int × Int)} (h : Holds lab s g)
    (ht : ∀ p ∈ t, (cellAt map' p).isSome ∧ (cellAt s.map p).isSome)
    (hrest : ∀ p, p ∉ t → cellAt map' p = cellAt s.map p) (p : Int × Int) :
    (cellAt map' p).isSome ↔ lab.Inside p := by
  rw [← h.inside]
  by_cases hp : p ∈ t
  · simp [ht p hp]
  · rw [hrest p hp]

theorem Holds.turned (h : Holds lab s g) (hw : cellAt lab.rows g.ahead = some '#') :
    ∃ s', iterate s = .ok (.go s') ∧ Holds lab s' ⟨g.pos, g.dir.turn⟩ ∧
      s'.distinctPositions = s.distinctPositions := by
  obtain ⟨map', hrot, hmark, hrest⟩ := h.rotate_eq
  refine ⟨{ s with map := map' }, ?_, ⟨h.pos, h.rows, h.columns, ?_, hmark, ?_, ?_⟩, rfl⟩
  · simp [iterate, h.findObstacles_eq, h.obstacle_iff.2 hw, hrot]
  · exact h.inside_of_eq (t := [g.pos]) (by simp [hmark, h.mark]) (by simpa using hrest)
  · intro p d hp
    by_contra hne
    exact hne (h.only p d ((hrest p hne).symm.trans hp))
  · intro p
    rw [← h.walls]
    by_cases hp : p = g.pos
    · simp [hp, hmark, h.mark, mark_ne_wall]
    · rw [hrest p hp]

theorem Holds.stepped (h : Holds lab s g) (hin : lab.Inside g.ahead)
    (hw : cellAt lab.rows g.ahead ≠ some '#') :
    ∃ s', iterate s = .ok (.go s') ∧ Holds lab s' ⟨g.ahead, g.dir⟩ ∧
      s'.distinctPositions = updateDistinctElementsList s.i s.j s.distinctPositions := by
  obtain ⟨map', hadv, hmark, hx, hrest⟩ := h.advance_eq hin
  have hobs : (cellAt s.map g.ahead).any (· == '#') = false := by
    rw [Bool.eq_false_iff, ne_eq, h.obstacle_iff]
    exact hw
  have hsome : (cellAt s.map g.ahead).isSome := (h.inside _).2 hin
  have hne : g.ahead ≠ (s.i, s.j) := h.pos ▸ g.ahead_ne
  refine ⟨{ s with
    map := map'
    distinctPositions := updateDistinctElementsList s.i s.j s.distinctPositions
    i := g.ahead.1
    j := g.ahead.2 }, ?_, ⟨rfl, h.rows, h.columns, ?_, hmark, ?_, ?_⟩, rfl⟩
  · simp [iterate, h.findObstacles_eq, hobs, h.moveForward_eq, (h.free_iff hw).2 hin, hadv, hne]
  · exact h.inside_of_eq (t := [g.pos, g.ahead]) (by simp [hmark, hx, h.mark, hsome])
      (by simpa using hrest)
  · intro p d hp
    by_contra ha
    by_cases hg : p = g.pos
    · rw [hg, hx] at hp
      cases d <;> simp [Dir.mark] at hp
    · exact hg (h.only p d ((hrest p hg ha).symm.trans hp))
  · intro p
    by_cases ha : p = g.ahead
    · simp [ha, hmark, mark_ne_wall, hw]
    · rw [← h.walls]
      by_cases hg : p = g.pos
      · simp [hg, hx, h.mark, mark_ne_wall]
      · rw [hrest p hg ha]

/-- While the guard stays on the map an iteration is one move of hers. -/
theorem Holds.iterate_go (h : Holds lab s g) (hn : lab.next g = some g') :
    ∃ s', iterate s = .ok (.go s') ∧ Holds lab s' g' ∧ s'.distinctPositions =
      if g'.pos = g.pos then s.distinctPositions
      else updateDistinctElementsList s.i s.j s.distinctPositions := by
  obtain ⟨hin, ⟨hw, rfl⟩ | ⟨hw, rfl⟩⟩ := Lab.next_cases hn
  · simpa using h.turned hw
  · simpa [g.ahead_ne] using h.stepped hin hw

/-- The loop is left where the next move would take the guard out of the map. -/
theorem Holds.iterate_broke (h : Holds lab s g) (hn : lab.next g = none) :
    iterate s = .ok (.broke s) := by
  have hout : ¬ lab.Inside g.ahead := Lab.next_eq_none.1 hn
  have hnone : cellAt s.map g.ahead = none := by
    rw [← Option.not_isSome_iff_eq_none, h.inside]
    exact hout
  simp [iterate, h.findObstacles_eq, h.moveForward_eq, hnone]

/-! ## Runs of the loop -/

theorem mem_update {l : List (Int × Int)} {i j : Int} {q : Int × Int} :
    q ∈ updateDistinctElementsList i j l ↔ q ∈ l ∨ q = (i, j) := by
  simp only [updateDistinctElementsList]
  split
  · simp
  · next h =>
    rw [not_not] at h
    constructor
    · exact .inl
    · rintro (hq | rfl)
      · exact hq
      · exact h

theorem nodup_update {l : List (Int × Int)} {i j : Int} (h : l.Nodup) :
    (updateDistinctElementsList i j l).Nodup := by
  simp only [updateDistinctElementsList]
  split
  · next hn => exact List.nodup_append.2 ⟨h, List.nodup_singleton _, by grind⟩
  · exact h

theorem loop_go (h₀ : Holds lab s lab.first) (hd : s.distinctPositions = [])
    (hn : lab.walk n = some g) :
    ∃ s', loop n s = .ok (.go s') ∧ Holds lab s' g ∧ s'.distinctPositions.Nodup ∧
      ∀ p, p ∈ s'.distinctPositions ↔ p ∈ lab.leftBy n := by
  induction n generalizing g with
  | zero =>
    obtain rfl : _ = g := Option.some.inj hn
    refine ⟨s, rfl, h₀, by simp [hd], ?_⟩
    simp [hd, Lab.leftBy]
  | succ n ih =>
    obtain ⟨g₀, hg₀, hnext⟩ := Option.bind_eq_some_iff.1 hn
    obtain ⟨s₁, hloop, hs₁, hnodup, hleft⟩ := ih (g := g₀) hg₀
    obtain ⟨s₂, hit, hs₂, hpos⟩ := hs₁.iterate_go hnext
    refine ⟨s₂, ?_, hs₂, ?_, ?_⟩
    · simp [loop, hloop, hit]
    · rw [hpos]
      split
      · exact hnodup
      · exact nodup_update hnodup
    · intro p
      rw [hpos, Lab.mem_leftBy_succ, ← hleft]
      split
      · next he =>
        refine ⟨.inl, ?_⟩
        rintro (hp | ⟨a, b, ha, hb, rfl, hne⟩)
        · exact hp
        · obtain rfl : g₀ = a := Option.some.inj (hg₀.symm.trans ha)
          obtain rfl : g = b := Option.some.inj (hnext.symm.trans hb)
          exact (hne he).elim
      · next hne =>
        rw [mem_update, hs₁.pos]
        refine or_congr_right ⟨?_, ?_⟩
        · rintro rfl
          exact ⟨g₀, g, hg₀, hnext, rfl, hne⟩
        · rintro ⟨a, -, ha, -, rfl, -⟩
          obtain rfl : g₀ = a := Option.some.inj (hg₀.symm.trans ha)
          rfl

/-- Once the guard's last place is known, nothing is left after it. -/
theorem left_eq_leftBy {N : Nat} (hN : lab.walk N = some g) (hg : lab.next g = none) :
    lab.left = lab.leftBy N := by
  ext p
  constructor
  · rintro ⟨n, k, -, a, b, ha, hb, hp⟩
    refine ⟨k, ?_, a, b, ha, hb, hp⟩
    by_contra hk
    rcases Nat.eq_or_lt_of_not_lt hk with rfl | hk
    · obtain rfl : a = g := Option.some.inj (ha.symm.trans hN)
      rw [hg] at hb
      cases hb
    · have hend := Walks.ended_mono ((Walks.walk_next hN).trans hg) hk
      rw [Lab.walk, hend] at ha
      cases ha
  · exact fun hp => ⟨N, hp⟩

theorem loop_broke (h₀ : Holds lab s lab.first) (hd : s.distinctPositions = [])
    (hl : lab.LeavesFrom g) (hn : lab.walk n = none) :
    ∃ s', loop n s = .ok (.broke s') ∧ s'.distinctPositions.Nodup ∧
      ∀ p, p ∈ s'.distinctPositions ↔ p ∈ lab.left := by
  obtain ⟨N, hN, hg⟩ := hl
  obtain ⟨s', hloop, hs', hnodup, hleft⟩ := loop_go h₀ hd hN
  rw [left_eq_leftBy hN hg]
  have hlt : N < n := by
    by_contra hle
    obtain ⟨a, ha⟩ := Walks.some_mono hN (Nat.le_of_not_lt hle)
    rw [Lab.walk, ha] at hn
    cases hn
  obtain ⟨d, rfl⟩ := Nat.exists_eq_add_of_lt hlt
  refine ⟨s', ?_, hnodup, hleft⟩
  clear hn hlt
  induction d with
  | zero => simp [loop, hloop, hs'.iterate_broke hg]
  | succ d ih => rw [loop, ← Nat.add_assoc, ih]; rfl

/-! ## The file of a map -/

/-- The text of a file of lines, whose last line feed may be missing. -/
def fileOf (final : Bool) : List (List Char) → List Char
  | [] => []
  | [line] => line ++ if final then ['\n'] else []
  | line :: lines => line ++ '\n' :: fileOf final lines

def Lab.text (lab : Lab) (final : Bool) : List Char := fileOf final lab.rows

theorem readlines_line {line rest : List Char} (h : '\n' ∉ line) :
    readlines (line ++ '\n' :: rest) = (line ++ ['\n']) :: readlines rest := by
  induction line with
  | nil => simp [readlines]
  | cons c line ih =>
    rw [List.mem_cons, not_or] at h
    simp [readlines, Ne.symm h.1, ih h.2]

theorem readlines_last {line : List Char} (h : '\n' ∉ line) (hne : line ≠ []) :
    readlines line = [line] := by
  induction line with
  | nil => exact (hne rfl).elim
  | cons c line ih =>
    rw [List.mem_cons, not_or] at h
    cases line with
    | nil => simp [readlines, Ne.symm h.1]
    | cons c' line => rw [readlines, if_neg (Ne.symm h.1), ih h.2 (List.cons_ne_nil _ _)]

theorem dropWhile_newline {line : List Char} (h : '\n' ∉ line) : line.dropWhile (· == '\n') = line := by
  cases line with
  | nil => rfl
  | cons c line =>
    rw [List.mem_cons, not_or] at h
    simp [Ne.symm h.1]

theorem strip_line {line : List Char} (h : '\n' ∉ line) : strip line = line := by
  have hrev : '\n' ∉ line.reverse := by simpa using h
  rw [strip, dropWhile_newline h, dropWhile_newline hrev, List.reverse_reverse]

theorem strip_line_feed {line : List Char} (h : '\n' ∉ line) (hne : line ≠ []) :
    strip (line ++ ['\n']) = line := by
  obtain ⟨c, rest, rfl⟩ := List.exists_cons_of_ne_nil hne
  rw [List.mem_cons, not_or] at h
  have hrev : '\n' ∉ (c :: rest).reverse := by simp [h.1, h.2]
  have hfirst : ((c :: rest) ++ ['\n']).dropWhile (· == '\n') = (c :: rest) ++ ['\n'] := by
    simp [Ne.symm h.1]
  rw [strip, hfirst, List.reverse_append, List.reverse_singleton, List.singleton_append,
    List.dropWhile_cons_of_pos (by simp), dropWhile_newline hrev, List.reverse_reverse]

/-- The program reads the lines that were written, with or without the last line feed. -/
theorem readlines_fileOf {final : Bool} {lines : List (List Char)}
    (h : ∀ line ∈ lines, '\n' ∉ line ∧ line ≠ []) :
    (readlines (fileOf final lines)).map strip = lines := by
  induction lines with
  | nil => rfl
  | cons line lines ih =>
    obtain ⟨hnl, hne⟩ := h line List.mem_cons_self
    cases lines with
    | nil =>
      cases final with
      | true => simp [fileOf, readlines_line hnl, strip_line_feed hnl hne, readlines]
      | false => simp [fileOf, readlines_last hnl hne, strip_line hnl]
    | cons line' lines =>
      rw [fileOf, readlines_line hnl, List.map_cons, strip_line_feed hnl hne,
        ih fun l hl => h l (List.mem_cons_of_mem _ hl)]
      simp

theorem getStartFrom_eq {k i : Nat} {map : Grid} {line : List Char} (hi : map[i]? = some line)
    (hline : '^' ∈ line) (hbefore : ∀ a < i, ∀ l, map[a]? = some l → '^' ∉ l) :
    getStartFrom k map = (((k + i : Nat) : Int), (line.idxOf '^' : Int)) := by
  induction map generalizing k i with
  | nil => simp at hi
  | cons l map ih =>
    cases i with
    | zero =>
      obtain rfl : l = line := by simpa using hi
      simp [getStartFrom, hline]
    | succ i =>
      have hl : '^' ∉ l := hbefore 0 i.succ_pos l rfl
      rw [getStartFrom, if_neg hl, ih (by simpa using hi) fun a ha l' hl' =>
        hbefore (a + 1) (Nat.succ_lt_succ ha) l' (by simpa using hl')]
      simp only [Nat.add_assoc, Nat.add_comm 1]

/-- What is known before the loop. -/
def Lab.locals (lab : Lab) : Locals :=
  ⟨lab.rows, [], lab.rows.length - 1, lab.width - 1, lab.start.1, lab.start.2⟩

theorem Lab.getStart_eq (lab : Lab) : getStart lab.rows = lab.first.pos := by
  obtain ⟨hi, hj⟩ := lab.start_in
  obtain ⟨line, hline, hlen⟩ := lab.row_of_lt hi
  have hat := (lab.one _ hi _ hj).2 rfl
  rw [hline, Option.bind_some] at hat
  have hmem : '^' ∈ line := List.mem_of_getElem? hat
  have hidx : line.idxOf '^' = lab.start.2 := by
    have hlt : line.idxOf '^' < line.length := List.idxOf_lt_length_of_mem hmem
    have := (lab.one _ hi _ (hlen ▸ hlt)).1 (by
      rw [hline, Option.bind_some, List.getElem?_eq_getElem hlt, List.getElem_idxOf])
    exact congrArg Prod.snd this
  rw [getStart, getStartFrom_eq hline hmem ?_, hidx, Nat.zero_add]
  · rfl
  · intro a ha l hl hl'
    obtain ⟨b, hb, hbe⟩ := List.mem_iff_getElem.1 hl'
    have hw : l.length = lab.width := lab.rect l (List.mem_of_getElem? hl)
    have := (lab.one a (ha.trans hi) b (hw ▸ hb)).1 (by
      rw [hl, Option.bind_some, List.getElem?_eq_getElem hb, hbe])
    exact absurd (congrArg Prod.fst this) (Nat.ne_of_lt ha)

theorem Lab.prepare_eq (lab : Lab) (final : Bool) : prepare (lab.text final) = .ok lab.locals := by
  have hread : (readlines (lab.text final)).map strip = lab.rows := by
    refine readlines_fileOf fun line hline => ⟨fun hc => ?_, fun hc => ?_⟩
    · rcases lab.cells line hline _ hc with h | h | h <;> simp at h
    · have := lab.rect line hline
      rw [hc, List.length_nil] at this
      exact absurd lab.start_in.2 (by omega)
  obtain ⟨line, hline, hlen⟩ := lab.row_of_lt (Nat.zero_lt_of_lt lab.start_in.1)
  have hitem : item lab.rows 0 = .ok line := item_nat hline
  simp [prepare, hread, hitem, hlen, Lab.locals, lab.getStart_eq, Lab.first]

theorem Lab.locals_hold (lab : Lab) : Holds lab lab.locals lab.first := by
  refine ⟨rfl, rfl, rfl, fun p => lab.cell_isSome, ?_, ?_, fun p => Iff.rfl⟩
  · simpa [Lab.locals, Lab.first, Dir.mark] using (lab.one _ lab.start_in.1 _ lab.start_in.2).2 rfl
  · intro p d hp
    obtain ⟨a, b, line, rfl, hline, hb⟩ := cellAt_cases hp
    obtain ⟨ha, -⟩ := List.getElem?_eq_some_iff.1 hline
    obtain ⟨hlt, -⟩ := List.getElem?_eq_some_iff.1 hb
    have hmem := List.mem_of_getElem? hline
    have hup : d.mark = '^' := by
      rcases lab.cells line hmem _ (List.mem_of_getElem? hb) with h | h | h <;>
        cases d <;> simp [Dir.mark] at h ⊢
    have hstart := (lab.one a ha b (lab.rect line hmem ▸ hlt)).1 (by
      rw [show lab.rows[a]? = some line from hline, Option.bind_some, hb, hup])
    simp [Lab.first, ← hstart]

/-! ## What the program does and prints -/

/-- After every number of iterations the variables stand for the guard of the walk, or the loop is
over and so is the walk. -/
theorem prepare_loop (lab : Lab) (final : Bool) (n : Nat) :
    (∃ s g, prepare (lab.text final) >>= loop n = .ok (.go s) ∧ lab.walk n = some g ∧ Holds lab s g) ∨
      ∃ s, prepare (lab.text final) >>= loop n = .ok (.broke s) ∧ lab.walk n = none ∧
        s.distinctPositions.Nodup ∧ ∀ p, p ∈ s.distinctPositions ↔ p ∈ lab.left := by
  simp only [lab.prepare_eq, ok_bind]
  cases hn : lab.walk n with
  | some g =>
    obtain ⟨s, hloop, hs, -, -⟩ := loop_go lab.locals_hold rfl hn
    exact .inl ⟨s, g, hloop, rfl, hs⟩
  | none =>
    obtain ⟨g, hg⟩ := Lab.leavesFrom_of_ended hn
    obtain ⟨s, hloop, hnodup, hleft⟩ := loop_broke lab.locals_hold rfl hg hn
    exact .inr ⟨s, hloop, rfl, hnodup, hleft⟩

theorem main_prints {fuel : Nat} (h : lab.LeavesFrom g) (final : Bool)
    (hfuel : 4 * lab.rows.length * lab.width ≤ fuel) :
    main fuel (lab.text final) = some (.count (lab.left.ncard + 1)) := by
  have hend : lab.walk fuel = none := Walks.ended_mono (Lab.walk_ended h) hfuel
  rcases prepare_loop lab final fuel with ⟨_, g', -, hg', -⟩ | ⟨s, hloop, -, hnodup, hleft⟩
  · rw [hend] at hg'
    cases hg'
  · have hset : lab.left = {p | p ∈ s.distinctPositions} := Set.ext fun p => (hleft p).symm
    have hcard : lab.left.ncard = s.distinctPositions.length := by
      rw [hset, ← List.coe_toFinset, Set.ncard_coe_finset, List.toFinset_card_of_nodup hnodup]
    simp only [main, hloop, hcard]

/-- The loop simulates the walk. The map always holds one mark, where the guard is and as she faces,
and the `#` it came with; no index is wrong; and a walk that leaves the map is over after at most
four iterations a cell. -/
theorem patrol_simulates (lab : Lab) (final : Bool) :
    (∀ n,
      (∃ s g, prepare (lab.text final) >>= loop n = .ok (.go s) ∧ lab.walk n = some g ∧
        (s.i, s.j) = g.pos ∧ cellAt s.map (s.i, s.j) = some g.dir.mark ∧
        (∀ p d, cellAt s.map p = some (Dir.mark d) → p = (s.i, s.j)) ∧
        ∀ p, cellAt s.map p = some '#' ↔ cellAt lab.rows p = some '#') ∨
      ∃ s, prepare (lab.text final) >>= loop n = .ok (.broke s) ∧ lab.walk n = none) ∧
    ((∃ g, lab.LeavesFrom g) →
      ∃ s, prepare (lab.text final) >>= loop (4 * lab.rows.length * lab.width + 1) =
        .ok (.broke s)) := by
  refine ⟨fun n => ?_, ?_⟩
  · rcases prepare_loop lab final n with ⟨s, g, hloop, hg, hs⟩ | ⟨s, hloop, hn, -⟩
    · exact .inl ⟨s, g, hloop, hg, hs.pos, hs.pos ▸ hs.mark, fun p d hp => hs.pos ▸ hs.only p d hp, hs.walls⟩
    · exact .inr ⟨s, hloop, hn⟩
  · rintro ⟨g, hg⟩
    have hend : lab.walk (4 * lab.rows.length * lab.width + 1) = none :=
      Walks.ended_mono (Lab.walk_ended hg) (Nat.le_succ _)
    rcases prepare_loop lab final (4 * lab.rows.length * lab.width + 1) with ⟨_, g', -, hg', -⟩ | ⟨s, hloop, -⟩
    · rw [hend] at hg'
      cases hg'
    · exact ⟨s, hloop⟩

/-- The program counts the cells that were left and adds one for the last. That is the number of the
cells of the walk exactly when the last one is new. -/
theorem counts_cells_iff (h : lab.LeavesFrom g) (final : Bool) :
    (∀ fuel, 4 * lab.rows.length * lab.width + 1 ≤ fuel →
      main fuel (lab.text final) = some (.count lab.occupied.ncard)) ↔ g.pos ∉ lab.left := by
  have hprints : ∀ fuel, 4 * lab.rows.length * lab.width + 1 ≤ fuel →
      main fuel (lab.text final) = some (.count (lab.left.ncard + 1)) := fun fuel hf =>
    main_prints h final (Nat.le_of_succ_le hf)
  have hfinite : lab.left.Finite := lab.left_finite
  constructor
  · intro hall hmem
    have heq := (hprints _ le_rfl).symm.trans (hall _ le_rfl)
    rw [Lab.occupied_eq h, Set.insert_eq_of_mem hmem] at heq
    simp at heq
  · intro hmem fuel hf
    rw [hprints fuel hf, Lab.occupied_eq h, Set.ncard_insert_of_notMem hmem hfinite]

end

/-- A guard who comes back to where she started, and leaves from there:
```
#..
..#
^..
.#.
``` -/
def corner : Lab where
  rows := ["#..".toList, "..#".toList, "^..".toList, ".#.".toList]
  width := 3
  start := (2, 0)
  rect := by decide
  cells := by simp
  start_in := by decide
  one := by decide

theorem corner_leaves : corner.LeavesFrom ⟨(2, 0), .left⟩ := ⟨7, by decide, by decide⟩

theorem corner_left : ((2, 0) : Int × Int) ∈ corner.left :=
  ⟨1, 0, Nat.one_pos, ⟨(2, 0), .up⟩, ⟨(1, 0), .up⟩, by decide, by decide, rfl, by decide⟩

/-- Four cells, and the program prints 5. -/
theorem corner_counted_twice :
    corner.LeavesFrom ⟨(2, 0), .left⟩ ∧ corner.occupied.ncard = 4 ∧
      main 49 (corner.text true) = some (.count 5) := by
  have hmain : main 49 (corner.text true) = some (.count 5) := by decide +kernel
  have hprints := (main_prints corner_leaves true (by decide : 4 * 4 * 3 ≤ 49)).symm.trans hmain
  have hcard : corner.left.ncard = 4 := by simpa using hprints
  refine ⟨corner_leaves, ?_, hmain⟩
  rw [Lab.occupied_eq corner_leaves, Set.insert_eq_of_mem corner_left, hcard]

/-- A guard who turns three times and crosses her way, and leaves by a new cell:
```
.#..
...#
....
.^#.
``` -/
def crossing : Lab where
  rows := [".#..".toList, "...#".toList, "....".toList, ".^#.".toList]
  width := 4
  start := (3, 1)
  rect := by decide
  cells := by simp
  start_in := by decide
  one := by decide

theorem crossing_leaves : crossing.LeavesFrom ⟨(2, 0), .left⟩ := ⟨9, by decide, by decide⟩

theorem counts_cells_iff_crossing :
    main 65 (crossing.text false) = some (.count 6) ∧
      ∀ fuel, 65 ≤ fuel → main fuel (crossing.text false) = some (.count crossing.occupied.ncard) := by
  refine ⟨by decide +kernel, (counts_cells_iff crossing_leaves false).2 ?_⟩
  rw [left_eq_leftBy (show crossing.walk 9 = some ⟨(2, 0), .left⟩ by decide) (by decide)]
  have hnew : ∀ k < 9, ((crossing.walk k).all fun g => decide (g.pos ≠ (2, 0))) = true := by decide
  rintro ⟨k, hk, a, b, ha, -, hp, -⟩
  have hne := hnew k hk
  rw [ha, Option.all_some, hp] at hne
  cases hne

end DepositPortal.Patrol
