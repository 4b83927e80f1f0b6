import MiniOB.Sql.Join
import MiniOB.Sql.Operator

/-!
# Joins by nested loops

`NestedLoopJoinPhysicalOperator` of `sql/operator/join_physical_operator.cpp` as an operator over
two others, trees of such joins, and the `JoinedTuple` that they deliver. A `JoinedTuple` points
at the tuples of the two children, so that it is a pair.
-/

namespace MiniOB.Sql

open PhysicalOperator

/-! ### The operator -/

namespace NestedLoopJoin

variable {α β : Type}

/-- The children and the fields of a `NestedLoopJoinPhysicalOperator`. Of `left_tuple_` and of
the right side of `joined_tuple_` it is kept whether they have been set. -/
structure State (L : PhysicalOperator α) (R : PhysicalOperator β) where
  left : L.State
  right : R.State
  leftTuple : Bool
  rightTuple : Bool
  roundDone : Bool
  rightClosed : Bool

variable (L : PhysicalOperator α) (R : PhysicalOperator β)

/-- `open`. -/
def open' (s : State L R) : Option (RC × State L R) := do
  let (rc, left) ← L.open' s.left
  return (rc, { s with left, rightClosed := true, roundDone := true })

/-- `left_next`. -/
def leftNext (s : State L R) : Option (RC × State L R) := do
  let (rc, left) ← L.next s.left
  if rc = .success then return (rc, { s with left, leftTuple := true })
  else return (rc, { s with left })

/-- The first step of a new round in `right_next`, which closes the right child. -/
def closeRound (s : State L R) : Option (RC × State L R) :=
  if s.rightClosed then some (.success, s)
  else do
    let (rc, right) ← R.close s.right
    return (rc, { s with right, rightClosed := true })

/-- The first part of `right_next`, which begins a new round where the last one is done. -/
def beginRound (s : State L R) : Option (RC × State L R) :=
  if s.roundDone then do
    let (rc, s) ← closeRound L R s
    if rc = .success then
      let (rc, right) ← R.open' s.right
      if rc = .success then return (rc, { s with right, rightClosed := false, roundDone := false })
      else return (rc, { s with right })
    else return (rc, s)
  else some (.success, s)

/-- `right_next`. -/
def rightNext (s : State L R) : Option (RC × State L R) := do
  let (rc, s) ← beginRound L R s
  if rc = .success then
    let (rc, right) ← R.next s.right
    if rc = .success then return (rc, { s with right, rightTuple := true })
    else return (rc, { s with right, roundDone := s.roundDone || rc = .recordEof })
  else return (rc, s)

/-- The last part of `next`, with the next row of the left child. -/
def leftStep (s : State L R) : Option (RC × State L R) := do
  let (rc, s) ← leftNext L R s
  if rc = .success then rightNext L R s else return (rc, s)

/-- `next`. Wherever it tests `left_need_step` this has been set, whatever it was at first. -/
def next (s : State L R) : Option (RC × State L R) :=
  if s.roundDone then leftStep L R s
  else do
    let (rc, s) ← rightNext L R s
    if rc = .recordEof then leftStep L R s else return (rc, s)

/-- `close`. -/
def close (s : State L R) : Option (RC × State L R) := do
  let (rc, left) ← L.close s.left
  if s.rightClosed then return (rc, { s with left })
  else
    let (rc, right) ← R.close s.right
    return (rc, { s with left, right, rightClosed := rc = .success })

/-- `current_tuple`. -/
def currentTuple (s : State L R) : Option (α × β) :=
  if s.leftTuple ∧ s.rightTuple then
    (L.currentTuple s.left).bind fun l => (R.currentTuple s.right).map fun r => (l, r)
  else none

end NestedLoopJoin

/-- `NestedLoopJoinPhysicalOperator`. -/
def NestedLoopJoinOperator {α β : Type} (L : PhysicalOperator α) (R : PhysicalOperator β) :
    PhysicalOperator (α × β) where
  State := NestedLoopJoin.State L R
  init := ⟨L.init, R.init, false, false, true, true⟩
  open' := NestedLoopJoin.open' L R
  next := NestedLoopJoin.next L R
  close := NestedLoopJoin.close L R
  currentTuple := NestedLoopJoin.currentTuple L R

/-! ### What a join promises -/

namespace NestedLoopJoin

variable {α β : Type} {L : PhysicalOperator α} {R : PhysicalOperator β} {left : List α}
  {right : List β} (A : L.Cursor left) (B : R.Cursor right)

/-- The right child is closed where the join says so, and open otherwise. -/
def RightKept (s : State L R) : Prop :=
  if s.rightClosed then B.Closed s.right else ∃ rest, B.At rest s.right

/-- Between two rounds: these rows of the left child are still to be paired. -/
structure Between (lefts : List α) (s : State L R) : Prop where
  left : A.At lefts s.left
  right : RightKept B s
  roundDone : s.roundDone = true

/-- In the round of a row of the left child: these rows of the right child are still to be paired
with it. -/
structure Within (l : α) (lefts : List α) (rights : List β) (s : State L R) : Prop where
  left : A.At lefts s.left
  right : B.At rights s.right
  roundDone : s.roundDone = false
  rightClosed : s.rightClosed = false
  leftTuple : s.leftTuple = true
  tuple : L.currentTuple s.left = some l

/-- The join is open, and these pairs are still to come. -/
def At (rest : List (α × β)) (s : State L R) : Prop :=
  (∃ lefts, Between A B lefts s ∧ rest = lefts ×ˢ right)
    ∨ ∃ l lefts rights, Within A B l lefts rights s
      ∧ rest = rights.map (l, ·) ++ lefts ×ˢ right

variable {A B} {s : State L R} {l : α} {r : β} {lefts : List α} {rights : List β}

theorem RightKept.closed (h : RightKept B s) (hclosed : s.rightClosed = true) :
  B.Closed s.right
  := by
  rw [RightKept, hclosed, if_pos rfl] at h
  exact h

theorem RightKept.opened (h : RightKept B s) (hclosed : s.rightClosed = false) :
  ∃ rest, B.At rest s.right
  := by
  rw [RightKept, hclosed, if_neg (by decide)] at h
  exact h

/-- A new round begins with the rows of the right child, and does not touch the left one. -/
theorem beginRound_eq (hs : RightKept B s) (hround : s.roundDone = true) :
  ∃ t, B.At right t ∧ beginRound L R s
    = some (.success, { s with right := t, rightClosed := false, roundDone := false })
  := by
  cases hclosed : s.rightClosed with
  | true =>
    obtain ⟨t, hopen, ht⟩ := B.open_closed (hs.closed hclosed)
    use t, ht
    simp [beginRound, closeRound, hround, hclosed, hopen]
  | false =>
    obtain ⟨rest, hs⟩ := hs.opened hclosed
    obtain ⟨t, hclose, ht⟩ := B.close_at hs
    obtain ⟨t', hopen, ht'⟩ := B.open_closed ht
    use t', ht'
    simp [beginRound, closeRound, hround, hclosed, hclose, hopen]

theorem beginRound_within (h : Within A B l lefts rights s) :
  beginRound L R s
    = some (.success, { s with right := s.right, rightClosed := false, roundDone := false })
  := by
  rw [beginRound, h.roundDone, if_neg (by decide)]
  obtain ⟨t, t', leftTuple, rightTuple, roundDone, rightClosed⟩ := s
  obtain rfl : roundDone = false := h.roundDone
  obtain rfl : rightClosed = false := h.rightClosed
  rfl

/-- In a round the next row of the right child makes a pair. -/
theorem rightNext_cons {t : R.State} (hbegin : beginRound L R s
      = some (.success, { s with right := t, rightClosed := false, roundDone := false }))
    (hleft : A.At lefts s.left) (hright : B.At (r :: rights) t) (hset : s.leftTuple = true)
    (htuple : L.currentTuple s.left = some l) :
  ∃ s', rightNext L R s = some (.success, s') ∧ currentTuple L R s' = some (l, r)
    ∧ Within A B l lefts rights s'
  := by
  obtain ⟨t', hnext, htuple', ht'⟩ := B.next_cons hright
  refine ⟨{ s with right := t', rightTuple := true, rightClosed := false, roundDone := false },
    ?_, ?_, ?_⟩
  · simp [rightNext, hbegin, hnext]
  · simp [currentTuple, hset, htuple, htuple']
  · exact ⟨hleft, ht', rfl, rfl, hset, htuple⟩

/-- The round is done after the last row of the right child. -/
theorem rightNext_nil {t : R.State} (hbegin : beginRound L R s
      = some (.success, { s with right := t, rightClosed := false, roundDone := false }))
    (hleft : A.At lefts s.left) (hright : B.At [] t) :
  ∃ s', rightNext L R s = some (.recordEof, s') ∧ Between A B lefts s'
  := by
  obtain ⟨t', hnext, ht'⟩ := B.next_nil hright
  refine ⟨{ s with right := t', rightClosed := false, roundDone := true }, ?_, hleft, ?_, rfl⟩
  · simp [rightNext, hbegin, hnext]
  · exact ⟨[], ht'⟩

/-- After the last row of the left child the join is at its end. -/
theorem leftStep_nil (h : Between A B [] s) :
  ∃ s', leftStep L R s = some (.recordEof, s') ∧ Between A B [] s'
  := by
  obtain ⟨t, hnext, ht⟩ := A.next_nil h.left
  refine ⟨{ s with left := t }, ?_, ht, h.right, h.roundDone⟩
  simp [leftStep, leftNext, hnext]

/-- The next row of the left child begins a round: with its first pair, or at its end. -/
theorem leftStep_cons (h : Between A B (l :: lefts) s) :
  (∀ r rights, right = r :: rights → ∃ s', leftStep L R s = some (.success, s')
      ∧ currentTuple L R s' = some (l, r) ∧ Within A B l lefts rights s')
    ∧ (right = [] → ∃ s', leftStep L R s = some (.recordEof, s') ∧ Between A B lefts s')
  := by
  obtain ⟨t, hnext, htuple, ht⟩ := A.next_cons h.left
  have hstep : leftStep L R s = rightNext L R { s with left := t, leftTuple := true } := by
    simp [leftStep, leftNext, hnext]
  obtain ⟨t', ht', hbegin⟩ :=
    beginRound_eq (s := { s with left := t, leftTuple := true }) h.right h.roundDone
  rw [hstep]
  constructor
  · rintro r rights rfl
    apply rightNext_cons hbegin ht ht' rfl htuple
  · rintro rfl
    apply rightNext_nil hbegin ht ht'

theorem next_between (h : Between A B lefts s) :
  next L R s = leftStep L R s
  := by
  rw [next, if_pos h.roundDone]

theorem next_within (h : Within A B l lefts (r :: rights) s) :
  ∃ s', next L R s = some (.success, s') ∧ currentTuple L R s' = some (l, r)
    ∧ Within A B l lefts rights s'
  := by
  obtain ⟨s', hnext, htuple, hs'⟩ := rightNext_cons (beginRound_within h) h.left h.right h.leftTuple h.tuple
  use s'
  constructor
  · simp [next, h.roundDone, hnext]
  · exact ⟨htuple, hs'⟩

theorem next_within_nil (h : Within A B l lefts [] s) :
  ∃ s', next L R s = leftStep L R s' ∧ Between A B lefts s'
  := by
  obtain ⟨s', hnext, hs'⟩ := rightNext_nil (beginRound_within h) h.left h.right
  use s'
  constructor
  · simp [next, h.roundDone, hnext]
  · exact hs'

/-- A step of the left child gives the next pair. -/
theorem leftStep_product {pair : α × β} {rest : List (α × β)} (h : Between A B lefts s)
    (hrest : pair :: rest = lefts ×ˢ right) :
  ∃ s', leftStep L R s = some (.success, s') ∧ currentTuple L R s' = some pair ∧ At A B rest s'
  := by
  cases lefts with
  | nil => cases hrest
  | cons l lefts =>
    cases right with
    | nil =>
      rw [List.product_nil] at hrest
      cases hrest
    | cons r rights =>
      rw [List.product_cons, List.map_cons, List.cons_append] at hrest
      obtain ⟨rfl, rfl⟩ := List.cons.inj hrest
      obtain ⟨s', hstep, htuple, hs'⟩ := (leftStep_cons h).1 r rights rfl
      exact ⟨s', hstep, htuple, .inr ⟨l, lefts, rights, hs', rfl⟩⟩

/-- Where no pairs are left it gives none. -/
theorem leftStep_product_nil (h : Between A B lefts s) (hrest : [] = lefts ×ˢ right) :
  ∃ s', leftStep L R s = some (.recordEof, s') ∧ At A B [] s'
  := by
  cases lefts with
  | nil =>
    obtain ⟨s', hstep, hs'⟩ := leftStep_nil h
    exact ⟨s', hstep, .inl ⟨[], hs', rfl⟩⟩
  | cons l lefts =>
    cases right with
    | nil =>
      obtain ⟨s', hstep, hs'⟩ := (leftStep_cons h).2 rfl
      exact ⟨s', hstep, .inl ⟨lefts, hs', (List.product_nil lefts).symm⟩⟩
    | cons r rights =>
      rw [List.product_cons, List.map_cons, List.cons_append] at hrest
      cases hrest

/-- The left child is open in an open join, and the right one where the join says so. -/
theorem At.kept {rest : List (α × β)} (h : At A B rest s) :
  (∃ lefts, A.At lefts s.left) ∧ RightKept B s
  := by
  obtain ⟨lefts, h, -⟩ | ⟨l, lefts, rights, h, -⟩ := h
  · exact ⟨⟨lefts, h.left⟩, h.right⟩
  · refine ⟨⟨lefts, h.left⟩, ?_⟩
    rw [RightKept, h.rightClosed]
    exact ⟨rights, h.right⟩

variable (A B)

/-- A join delivers the pairs of the rows of its children, those of the first left row first. -/
def cursor : (NestedLoopJoinOperator L R).Cursor (left ×ˢ right) where
  Closed s := A.Closed s.left ∧ B.Closed s.right
  At := At A B
  closed_init := ⟨A.closed_init, B.closed_init⟩
  open_closed {s} h := by
    obtain ⟨t, hopen, ht⟩ := A.open_closed h.1
    refine ⟨{ s with left := t, rightClosed := true, roundDone := true }, ?_, ?_⟩
    · simp [NestedLoopJoinOperator, open', hopen]
    · exact .inl ⟨left, ⟨ht, h.2, rfl⟩, rfl⟩
  next_cons {pair rest s} h := by
    obtain ⟨lefts, h, hrest⟩ | ⟨l, lefts, rights, h, hrest⟩ := h
    · obtain ⟨s', hstep, htuple, hs'⟩ := leftStep_product h hrest
      exact ⟨s', (next_between h).trans hstep, htuple, hs'⟩
    · cases rights with
      | nil =>
        obtain ⟨t, hnext, ht⟩ := next_within_nil h
        obtain ⟨s', hstep, htuple, hs'⟩ := leftStep_product ht hrest
        exact ⟨s', hnext.trans hstep, htuple, hs'⟩
      | cons r rights =>
        rw [List.map_cons, List.cons_append] at hrest
        obtain ⟨rfl, rfl⟩ := List.cons.inj hrest
        obtain ⟨s', hnext, htuple, hs'⟩ := next_within h
        exact ⟨s', hnext, htuple, .inr ⟨l, lefts, rights, hs', rfl⟩⟩
  next_nil {s} h := by
    obtain ⟨lefts, h, hrest⟩ | ⟨l, lefts, rights, h, hrest⟩ := h
    · obtain ⟨s', hstep, hs'⟩ := leftStep_product_nil h hrest
      exact ⟨s', (next_between h).trans hstep, hs'⟩
    · cases rights with
      | nil =>
        obtain ⟨t, hnext, ht⟩ := next_within_nil h
        obtain ⟨s', hstep, hs'⟩ := leftStep_product_nil ht hrest
        exact ⟨s', hnext.trans hstep, hs'⟩
      | cons r rights =>
        rw [List.map_cons, List.cons_append] at hrest
        cases hrest
  close_at {rest s} h := by
    obtain ⟨⟨lefts, hleft⟩, hright⟩ := At.kept h
    obtain ⟨t, hclose, ht⟩ := A.close_at hleft
    cases hclosed : s.rightClosed with
    | true =>
      refine ⟨{ s with left := t }, ?_, ht, hright.closed hclosed⟩
      simp [NestedLoopJoinOperator, close, hclose, hclosed]
    | false =>
      obtain ⟨rights, hright⟩ := hright.opened hclosed
      obtain ⟨t', hclose', ht'⟩ := B.close_at hright
      refine ⟨{ s with left := t, right := t', rightClosed := true }, ?_, ht, ht'⟩
      simp [NestedLoopJoinOperator, close, hclose, hclose', hclosed]

end NestedLoopJoin

/-! ### Trees of joins -/

/-- A tree of joins over operators that deliver the same rows at every opening. -/
inductive JoinTree : Type → Type 1 where
  | child {α : Type} (O : PhysicalOperator α) (rows : List α) (cursor : O.Cursor rows) : JoinTree α
  | join {α β : Type} (left : JoinTree α) (right : JoinTree β) : JoinTree (α × β)

namespace JoinTree

/-- The operator at the root. -/
def oper : {α : Type} → JoinTree α → PhysicalOperator α
  | _, child O _ _ => O
  | _, join left right => NestedLoopJoinOperator left.oper right.oper

/-- The cross product. -/
def rows : {α : Type} → JoinTree α → List α
  | _, child _ rows _ => rows
  | _, join left right => left.rows.flatMap fun l => right.rows.map fun r => (l, r)

/-- Every operator of a tree delivers its cross product. -/
def cursor : {α : Type} → (tree : JoinTree α) → tree.oper.Cursor tree.rows
  | _, child _ _ cursor => cursor
  | _, join left right => NestedLoopJoin.cursor left.cursor right.cursor

/-- However often a tree of joins is opened, and wherever it is closed again: every opening
delivers the pairs of the cross product in their order, and `RECORD_EOF` from then on. -/
theorem sessions_product {α : Type} (tree : JoinTree α) (ns : List Nat) :
  tree.oper.sessions ns tree.oper.init
    = some (ns.map fun n => ⟨.success, answers tree.rows n, .success⟩)
  := by
  apply tree.cursor.sessions_eq
  apply tree.cursor.closed_init

end JoinTree

/-! ### The tuples of a join -/

/-- The functions of `Tuple` by which expressions read the cells. -/
class TupleCells (α : Type) where
  cellNum : α → Nat
  cellAt : α → Nat → Except RC Value
  findCell : α → TupleCellSpec → Except RC Value

/-- `JoinedTuple`. -/
instance JoinedTuple {α β : Type} [TupleCells α] [TupleCells β] : TupleCells (α × β) where
  cellNum tuple := TupleCells.cellNum tuple.1 + TupleCells.cellNum tuple.2
  cellAt tuple index :=
    let leftCellNum := TupleCells.cellNum tuple.1
    if index < leftCellNum then TupleCells.cellAt tuple.1 index
    else if index < leftCellNum + TupleCells.cellNum tuple.2 then
      TupleCells.cellAt tuple.2 (index - leftCellNum)
    else .error .notfound
  findCell tuple spec :=
    match TupleCells.findCell tuple.1 spec with
    | .error .notfound => TupleCells.findCell tuple.2 spec
    | result => result

/-- A row of a tuple: as many cells as it has. -/
structure ShapedRow (shape : TupleShape) where
  cells : List Value
  length_cells : cells.length = shape.cellNum

namespace ShapedRow

/-- What `cell_at` answers outside the tuple. -/
def outside : TupleShape → RC
  | .row _ _ => .invalidArgument
  | .joined _ _ => .notfound
  | .cache _ => .notfound

instance {shape : TupleShape} : TupleCells (ShapedRow shape) where
  cellNum _ := shape.cellNum
  cellAt row index := TupleShape.cellAt (outside shape) row.cells index
  findCell row spec := shape.findCell row.cells spec

variable {a b : TupleShape}

/-- The cells of the left row, and behind them those of the right one. -/
def joined (pair : ShapedRow a × ShapedRow b) : ShapedRow (.joined a b) where
  cells := pair.1.cells ++ pair.2.cells
  length_cells := by
    rw [List.length_append, pair.1.length_cells, pair.2.length_cells, TupleShape.cellNum]

/-- A joined tuple reads the cells of both rows, one behind the other. -/
theorem cellAt_joined (pair : ShapedRow a × ShapedRow b) (index : Nat) :
  TupleCells.cellAt pair index = TupleCells.cellAt (joined pair) index
  := by
  obtain ⟨l, r⟩ := pair
  have hl := l.length_cells
  have hr := r.length_cells
  simp only [TupleCells.cellAt, TupleCells.cellNum, TupleShape.cellAt, joined, outside]
  split_ifs with hleft hright
  · rw [List.getElem?_append_left (by omega), List.getElem?_eq_getElem (by omega)]
  · rw [List.getElem?_append_right (by omega), hl, List.getElem?_eq_getElem (by omega)]
  · rw [List.getElem?_eq_none (by rw [List.length_append]; omega)]

theorem findCell_joined (pair : ShapedRow a × ShapedRow b) (spec : TupleCellSpec) :
  TupleCells.findCell pair spec = TupleCells.findCell (joined pair) spec
  := by
  obtain ⟨l, r⟩ := pair
  simp only [TupleCells.findCell, joined]
  rewrite [TupleShape.findCell, ← l.length_cells, List.take_left, List.drop_left]
  rfl

/-- The cells of rows. -/
def toRows (rows : List (ShapedRow a)) : Rows := ⟨a, rows.map (·.cells)⟩

/-- The pairs that the operator delivers have the cells of the rows of the join. -/
theorem run_toRows (left : List (ShapedRow a)) (right : List (ShapedRow b)) :
  NestedLoopJoin.run (toRows left) (toRows right) = toRows ((left ×ˢ right).map joined)
  := by
  have hproduct : left ×ˢ right = left.flatMap fun l => right.map fun r => (l, r) := rfl
  simp [NestedLoopJoin.run, toRows, hproduct, List.map_flatMap, List.flatMap_map, joined,
    Function.comp_def]

end ShapedRow

end MiniOB.Sql
