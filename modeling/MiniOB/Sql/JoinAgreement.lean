import MiniOB.Lib.Sorted
import MiniOB.Sql.Join

/-!
# When the join by a red-black tree delivers the rows of nested loops

The join looks for a cell of a left row by its name in a `CacheTuple`, which takes the first cell
whose alias is that of the name. No name in a plan has an alias, so this is the first cell of
the row, whatever the name is.
-/

namespace MiniOB.Sql

variable {F : Doubles} {condition : JoinCondition} {leftExpr rightExpr spec : TupleCellSpec}
  {cellSpecs : List TupleCellSpec} {left right nested : Rows} {leftOper rightOper : JoinOper}
  {shape : TupleShape} {table : HashTable} {rows : List (List Value)} {row l r : List Value}

/-! ### What the children deliver -/

/-- The first cell of a row. -/
def firstCell (row : List Value) : Value := row.headD .undefined

/-- What the rows of a plan are, given its schema. -/
structure Delivers (cellSpecs : List TupleCellSpec) (result : Rows) : Prop where
  nonempty : cellSpecs ≠ []
  unnamed : ∀ spec ∈ cellSpecs, spec.aliasName = ""
  cellNum : result.shape.cellNum = cellSpecs.length
  width : ∀ row ∈ result.rows, row.length = result.shape.cellNum
  first : ∀ row ∈ result.rows, ∃ n, row.head? = some (.ints n)

theorem Delivers.firstCell_eq (h : Delivers cellSpecs left) (hrow : row ∈ left.rows) :
  ∃ n, firstCell row = .ints n
  := by
  obtain ⟨n, hn⟩ := h.first row hrow
  exact ⟨n, by rw [firstCell, List.headD_eq_head?_getD, hn, Option.getD_some]⟩

/-- Whatever is looked for in a `CacheTuple` of a plan, its first cell is found. -/
theorem findCell_cache (hdelivers : Delivers cellSpecs left) (hrow : row ∈ left.rows)
    (hspec : spec.aliasName = "") :
  (TupleShape.cache cellSpecs).findCell row spec = .ok (firstCell row)
  := by
  obtain ⟨n, hn⟩ := hdelivers.first row hrow
  cases hspecs : cellSpecs with
  | nil => exact absurd hspecs hdelivers.nonempty
  | cons first rest =>
    have hfirst : first.aliasName = "" := hdelivers.unnamed first (by simp [hspecs])
    cases row with
    | nil => cases hn
    | cons cell cells => simp [TupleShape.findCell, hspec, hfirst, List.findIdx?_cons,
        TupleShape.cellAt, firstCell]

/-! ### The keys -/

theorem less_ints (m n : BitVec 32) :
  less F (.ints m) (.ints n) = decide (m.toInt < n.toInt)
  := by
  simp only [less, Value.compare, Value.getDouble, F.sign_ofInt, Int.sign_neg_iff,
    decide_eq_decide]
  omega

/-- An `int` is compared with a value as a double, or not at all. -/
theorem compare_ints (value : Value) :
  (∃ x, ∀ n, Value.compare F (.ints n) value = some (F.sign (F.ofInt n.toInt) x)
      ∧ Value.compare F value (.ints n) = some (F.sign x (F.ofInt n.toInt)))
    ∨ ∀ n, Value.compare F (.ints n) value = none ∧ Value.compare F value (.ints n) = none
  := by
  cases value with
  | undefined => exact .inr fun n => ⟨rfl, rfl⟩
  | nulls => exact .inr fun n => ⟨rfl, rfl⟩
  | chars s => exact .inl ⟨F.stod s, fun n => ⟨rfl, rfl⟩⟩
  | texts s => exact .inl ⟨F.stod s, fun n => ⟨rfl, rfl⟩⟩
  | ints m => exact .inl ⟨F.ofInt m.toInt, fun n => ⟨rfl, rfl⟩⟩
  | dates m => exact .inl ⟨F.ofInt m.toInt, fun n => ⟨rfl, rfl⟩⟩
  | floats bits => exact .inl ⟨F.ofFloat bits, fun n => ⟨rfl, rfl⟩⟩
  | booleans b => exact .inl ⟨F.ofInt (if b then 1 else 0), fun n => ⟨rfl, rfl⟩⟩

/-- What is above a key is above all smaller ones, and what is below it is below all larger
ones. -/
theorem less_mono {m n : BitVec 32} (value : Value) (h : m.toInt ≤ n.toInt) :
  (less F (.ints n) value → less F (.ints m) value)
    ∧ (less F value (.ints m) → less F value (.ints n))
  := by
  obtain ⟨x, hx⟩ | hnone := compare_ints (F := F) value
  · have hmono := F.sign_mono x h
    simp only [less, (hx _).1, (hx _).2, F.sign_swap _ x, decide_eq_true_eq]
    omega
  · simp [less, (hnone _).1, (hnone _).2]

/-! ### The hash table -/

/-- The keys of the table are numbers, and in order. -/
structure Ordered (table : HashTable) : Prop where
  ints : ∀ entry ∈ table, ∃ n, entry.1 = .ints n
  sorted : table.Pairwise fun a b => ∀ m n, a.1 = .ints m → b.1 = .ints n → m.toInt ≤ n.toInt

theorem insert_perm (entry : Value × List Value) :
  (table.insert F entry).Perm (entry :: table)
  := by
  have hmiddle := @List.perm_middle _ entry
    (table.takeWhile fun other => ¬ less F entry.1 other.1)
    (table.dropWhile fun other => ¬ less F entry.1 other.1)
  rwa [List.takeWhile_append_dropWhile] at hmiddle

theorem Ordered.insert (h : Ordered table) {n : BitVec 32} {cells : List Value} :
  Ordered (table.insert F (.ints n, cells))
  := by
  have hfront : table.Pairwise fun a b =>
      (decide ¬ less F (.ints n) b.1) → decide ¬ less F (.ints n) a.1 := by
    apply h.sorted.imp_of_mem
    intro a b ha hb hle
    obtain ⟨k, hk⟩ := h.ints a ha
    obtain ⟨m, hm⟩ := h.ints b hb
    have := hle k m hk hm
    simp only [hk, hm, less_ints, decide_eq_true_eq]
    omega
  constructor
  · intro entry hmem
    obtain rfl | hmem := List.mem_cons.mp ((insert_perm _).mem_iff.mp hmem)
    · exact ⟨n, rfl⟩
    · exact h.ints entry hmem
  · rw [HashTable.insert, Sorted.takeWhile_eq_filter hfront, Sorted.dropWhile_eq_filter hfront,
      List.pairwise_append, List.pairwise_cons]
    have hbefore : ∀ a ∈ table.filter (fun other => decide ¬ less F (.ints n) other.1),
        ∀ k, a.1 = .ints k → k.toInt ≤ n.toInt := by
      intro a ha k hk
      simp only [List.mem_filter, hk, less_ints] at ha
      simpa using ha.2
    have hbehind : ∀ b ∈ table.filter (fun other => !decide ¬ less F (.ints n) other.1),
        ∀ m, b.1 = .ints m → n.toInt ≤ m.toInt := by
      intro b hb m hm
      simp only [List.mem_filter, hm, less_ints] at hb
      have hlt : n.toInt < m.toInt := by simpa using hb.2
      omega
    refine ⟨h.sorted.filter _, ⟨?_, h.sorted.filter _⟩, ?_⟩
    · intro b hb k m hk hm
      cases hk
      exact hbehind b hb m hm
    · intro a ha b hb k m hk hm
      obtain rfl | hb := List.mem_cons.mp hb
      · cases hm
        exact hbefore a ha k hk
      · exact (hbefore a ha k hk).trans (hbehind b hb m hm)

/-- The range of a key holds the entries that are neither less nor greater. -/
theorem Ordered.equalRange_eq (h : Ordered table) (key : Value) :
  table.equalRange F key
    = table.filter fun entry => !less F entry.1 key && !less F key entry.1
  := by
  have hlower : table.Pairwise fun a b => less F b.1 key → less F a.1 key := by
    apply h.sorted.imp_of_mem
    intro a b ha hb hle
    obtain ⟨m, hm⟩ := h.ints a ha
    obtain ⟨n, hn⟩ := h.ints b hb
    rw [hm, hn]
    exact (less_mono key (hle m n hm hn)).1
  have hupper : table.Pairwise fun a b =>
      (decide ¬ less F key b.1) → decide ¬ less F key a.1 := by
    apply h.sorted.imp_of_mem
    intro a b ha hb hle
    obtain ⟨m, hm⟩ := h.ints a ha
    obtain ⟨n, hn⟩ := h.ints b hb
    rw [hm, hn, decide_eq_true_eq, decide_eq_true_eq]
    exact fun hnot hless => hnot ((less_mono key (hle m n hm hn)).2 hless)
  rw [HashTable.equalRange, Sorted.dropWhile_eq_filter hlower,
    Sorted.takeWhile_eq_filter (hupper.filter _), List.filter_filter]
  congr 1
  funext entry
  simp [Bool.and_comm]

/-- The hash table has the rows of the left child, each under its first cell. -/
theorem generateHashTable_ok (hdelivers : Delivers cellSpecs left)
    (hexpr : leftExpr.aliasName = "") (hordered : Ordered table)
    (hrows : ∀ row ∈ rows, row ∈ left.rows) :
  ∃ table', RbTreeEqJoin.generateHashTable F leftExpr cellSpecs left.shape table rows = .ok table'
    ∧ Ordered table' ∧ table'.Perm (table ++ rows.map fun row => (firstCell row, row))
  := by
  induction rows generalizing table with
  | nil => exact ⟨table, rfl, hordered, by simp⟩
  | cons row rows ih =>
    have hrow := hrows row List.mem_cons_self
    obtain ⟨n, hn⟩ := hdelivers.firstCell_eq hrow
    have hinsert : Ordered (table.insert F (firstCell row, row)) := by
      rw [hn]
      exact hordered.insert
    obtain ⟨table', hok, hordered', hperm⟩ := ih hinsert fun row' hmem =>
      hrows row' (List.mem_cons_of_mem _ hmem)
    refine ⟨table', ?_, hordered', ?_⟩
    · rw [RbTreeEqJoin.generateHashTable, cloneTuple, if_neg (not_not.mpr hdelivers.cellNum)]
      dsimp only
      rw [findCell_cache hdelivers hrow hexpr]
      exact hok
    · refine hperm.trans (((insert_perm _).append_right _).trans ?_)
      exact List.perm_middle.symm

/-! ### Pairs of rows -/

/-- The pairs of a left and a right row on which `p` is true. -/
def pairs (p : List Value → List Value → Bool) (left right : Rows) : List (List Value) :=
  left.rows.flatMap fun l => right.rows.flatMap fun r => if p l r then [l ++ r] else []

theorem mem_pairs {p : List Value → List Value → Bool} :
  row ∈ pairs p left right ↔ ∃ l ∈ left.rows, ∃ r ∈ right.rows, p l r ∧ row = l ++ r
  := by
  simp only [pairs, List.mem_flatMap, List.mem_ite_nil_right, List.mem_singleton]

/-- The rows of the left child have one length, so that a joined row tells its parts. -/
theorem append_mem_pairs {p : List Value → List Value → Bool} (hleft : Delivers cellSpecs left)
    (hl : l ∈ left.rows) (hr : r ∈ right.rows) :
  l ++ r ∈ pairs p left right ↔ p l r
  := by
  rw [mem_pairs]
  constructor
  · rintro ⟨l', hl', r', hr', hp, happend⟩
    have hlength : l.length = l'.length := by rw [hleft.width l hl, hleft.width l' hl']
    obtain ⟨rfl, rfl⟩ := List.append_inj happend hlength
    exact hp
  · intro hp
    exact ⟨l, hl, r, hr, hp, rfl⟩

/-- The same pairs come of two predicates exactly if these agree. -/
theorem pairs_perm_iff {p q : List Value → List Value → Bool} (hleft : Delivers cellSpecs left) :
  (pairs p left right).Perm (pairs q left right)
    ↔ ∀ l ∈ left.rows, ∀ r ∈ right.rows, p l r = q l r
  := by
  constructor
  · intro hperm l hl r hr
    have hmem := hperm.mem_iff (a := l ++ r)
    rw [append_mem_pairs hleft hl hr, append_mem_pairs hleft hl hr] at hmem
    exact Bool.eq_iff_iff.mpr hmem
  · intro hagree
    have heq : pairs p left right = pairs q left right := by
      apply List.flatMap_congr
      intro l hl
      apply List.flatMap_congr
      intro r hr
      rw [hagree l hl r hr]
    rw [heq]

/-- The condition is true of the pair. -/
def holds (F : Doubles) (condition : JoinCondition) (left right : TupleShape)
    (l r : List Value) : Bool :=
  condition.getValue F ((TupleShape.joined left right).findCell (l ++ r)) = .ok (some true)

/-- The key is neither less nor greater than what the right expression finds in the right row. -/
def keysMeet (F : Doubles) (rightExpr : TupleCellSpec) (shape : TupleShape) (key : Value)
    (r : List Value) : Bool :=
  match shape.findCell r rightExpr with
  | .ok value => !less F key value && !less F value key
  | .error _ => false

theorem PredicateOper.filter_eq {result : List (List Value)}
    (h : PredicateOper.filter F condition shape rows = .ok result) :
  result = rows.filter fun row => condition.getValue F (shape.findCell row) = .ok (some true)
  := by
  induction rows generalizing result with
  | nil =>
    cases h
    rfl
  | cons row rows ih =>
    rw [PredicateOper.filter] at h
    split at h
    · cases h
    · rename_i htrue
      cases hrest : PredicateOper.filter F condition shape rows with
      | error rc => simp [hrest, Except.map] at h
      | ok rest =>
        simp only [hrest, Except.map, Except.ok.injEq] at h
        rw [List.filter_cons_of_pos (by simpa using htrue), ← ih hrest, h]
    · rename_i value hvalue hnot
      rw [List.filter_cons_of_neg]
      · exact ih h
      · simpa [hnot] using hvalue

/-- Nested loops deliver the pairs on which the condition is true. -/
theorem nestedLoop_eq
    (h : PredicateOper.run F condition (NestedLoopJoin.run left right) = .ok nested) :
  nested.shape = .joined left.shape right.shape
    ∧ nested.rows = pairs (holds F condition left.shape right.shape) left right
  := by
  rw [PredicateOper.run] at h
  cases hfilter : PredicateOper.filter F condition (NestedLoopJoin.run left right).shape
    (NestedLoopJoin.run left right).rows with
  | error rc => simp [hfilter, Except.map] at h
  | ok result =>
    simp only [hfilter, Except.map, Except.ok.injEq] at h
    cases h
    refine ⟨rfl, ?_⟩
    rw [PredicateOper.filter_eq hfilter, NestedLoopJoin.run, List.filter_flatMap]
    apply List.flatMap_congr
    intro l hl
    rw [List.filter_map, Sorted.map_filter_eq_flatMap]
    rfl

/-! ### Probing -/

theorem next_resolves {result : List (List Value)}
    (h : RbTreeEqJoin.next F rightExpr shape table rows = .ok result) :
  ∀ r ∈ rows, ∃ value, shape.findCell r rightExpr = .ok value
  := by
  induction rows generalizing result with
  | nil => simp
  | cons row rows ih =>
    rw [RbTreeEqJoin.next] at h
    rw [List.forall_mem_cons]
    cases hvalue : shape.findCell row rightExpr with
    | error rc =>
      rw [hvalue] at h
      cases h
    | ok value =>
      refine ⟨⟨value, rfl⟩, ?_⟩
      cases hrest : RbTreeEqJoin.next F rightExpr shape table rows with
      | error rc => simp [hvalue, hrest, Except.map] at h
      | ok rest => exact ih hrest

theorem next_eq (hordered : Ordered table)
    (hresolves : ∀ r ∈ rows, ∃ value, shape.findCell r rightExpr = .ok value) :
  RbTreeEqJoin.next F rightExpr shape table rows = .ok (rows.flatMap fun r =>
    (table.filter fun entry => keysMeet F rightExpr shape entry.1 r).map fun entry => entry.2 ++ r)
  := by
  induction rows with
  | nil => rfl
  | cons row rows ih =>
    obtain ⟨⟨value, hvalue⟩, hrest⟩ := List.forall_mem_cons.mp hresolves
    rw [RbTreeEqJoin.next, hvalue, List.flatMap_cons]
    dsimp only
    rw [ih hrest, hordered.equalRange_eq]
    simp only [Except.map, keysMeet, hvalue]

/-- The right expression has to find a cell in each row of the right child. -/
theorem run_resolves {result : Rows}
    (h : RbTreeEqJoin.run F leftExpr rightExpr cellSpecs left right = .ok result) :
  ∀ r ∈ right.rows, ∃ value, right.shape.findCell r rightExpr = .ok value
  := by
  rw [RbTreeEqJoin.run] at h
  split at h
  · cases h
  · rename_i table _
    cases hnext : RbTreeEqJoin.next F rightExpr right.shape table right.rows with
    | error rc => simp [hnext, Except.map] at h
    | ok rows => exact next_resolves hnext

/-- If it does, the join delivers the pairs whose keys meet. -/
theorem run_perm (hleft : Delivers cellSpecs left) (hexpr : leftExpr.aliasName = "")
    (hresolves : ∀ r ∈ right.rows, ∃ value, right.shape.findCell r rightExpr = .ok value) :
  ∃ result, RbTreeEqJoin.run F leftExpr rightExpr cellSpecs left right = .ok result
    ∧ result.shape = .joined (.cache cellSpecs) right.shape
    ∧ result.rows.Perm
      (pairs (fun l r => keysMeet F rightExpr right.shape (firstCell l) r) left right)
  := by
  have hempty : Ordered [] := ⟨by simp, .nil⟩
  obtain ⟨table, htable, hordered, hperm⟩ := generateHashTable_ok hleft hexpr hempty
    fun row hrow => hrow
  have hrun : RbTreeEqJoin.run F leftExpr rightExpr cellSpecs left right = .ok {
      shape := .joined (.cache cellSpecs) right.shape
      rows := right.rows.flatMap fun r =>
        (table.filter fun entry => keysMeet F rightExpr right.shape entry.1 r).map
          fun entry => entry.2 ++ r } := by
    rw [RbTreeEqJoin.run, htable]
    dsimp only
    rw [next_eq hordered hresolves]
    rfl
  refine ⟨_, hrun, rfl, ?_⟩
  have hprobe : ∀ r ∈ right.rows,
      ((table.filter fun entry => keysMeet F rightExpr right.shape entry.1 r).map
          fun entry => entry.2 ++ r).Perm
        (left.rows.flatMap fun l =>
          if keysMeet F rightExpr right.shape (firstCell l) r then [l ++ r] else []) := by
    intro r _
    have hmap := (hperm.filter fun entry => keysMeet F rightExpr right.shape entry.1 r).map
      fun entry => entry.2 ++ r
    rw [List.nil_append, List.filter_map, List.map_map] at hmap
    rw [← Sorted.map_filter_eq_flatMap]
    exact hmap
  exact (List.Perm.flatMap_left _ hprobe).trans (Sorted.flatMap_flatMap_perm _ _ _)

/-- In a joined row, whatever is looked for is the first cell. -/
theorem findCell_joined (hleft : Delivers cellSpecs left) (hl : l ∈ left.rows)
    (hspec : spec.aliasName = "") :
  (TupleShape.joined (.cache cellSpecs) shape).findCell (l ++ r) spec = .ok (firstCell l)
  := by
  have hlength : l.length = (TupleShape.cache cellSpecs).cellNum := by
    rw [hleft.width l hl, hleft.cellNum]
    rfl
  rw [TupleShape.findCell, ← hlength, List.take_left, findCell_cache hleft hl hspec]

/-! ### Plans -/

theorem Delivers.pairs {result : Rows} {cellSpecs' : List TupleCellSpec}
    (hleft : Delivers cellSpecs left) (hright : Delivers cellSpecs' right)
    (hcellNum : result.shape.cellNum = left.shape.cellNum + right.shape.cellNum)
    (hrows : ∀ row ∈ result.rows, ∃ l ∈ left.rows, ∃ r ∈ right.rows, row = l ++ r) :
  Delivers (cellSpecs ++ cellSpecs') result
  where
  nonempty := by simp [hleft.nonempty]
  unnamed spec hspec := by
    obtain hspec | hspec := List.mem_append.mp hspec
    · exact hleft.unnamed spec hspec
    · exact hright.unnamed spec hspec
  cellNum := by rw [hcellNum, hleft.cellNum, hright.cellNum, List.length_append]
  width row hrow := by
    obtain ⟨l, hl, r, hr, rfl⟩ := hrows row hrow
    rw [List.length_append, hleft.width l hl, hright.width r hr, hcellNum]
  first row hrow := by
    obtain ⟨l, hl, r, hr, rfl⟩ := hrows row hrow
    obtain ⟨n, hn⟩ := hleft.first l hl
    exact ⟨n, by rw [List.head?_append, hn, Option.some_or]⟩

theorem aliasName_of_eqFields (h : condition.eqFields = some (leftExpr, rightExpr)) :
  leftExpr.aliasName = ""
  := by
  unfold JoinCondition.eqFields at h
  split at h
  · cases h
    rfl
  · cases h

theorem joinRows_delivers {joinCondition : Option JoinCondition} {result : Rows}
    {cellSpecs' : List TupleCellSpec} (hleft : Delivers cellSpecs left)
    (hright : Delivers cellSpecs' right)
    (h : joinRows F joinCondition cellSpecs left right = .ok result) :
  Delivers (cellSpecs ++ cellSpecs') result
  := by
  cases joinCondition with
  | none =>
    cases h
    apply hleft.pairs hright rfl
    intro row hrow
    obtain ⟨l, hl, hrow⟩ := List.mem_flatMap.mp hrow
    obtain ⟨r, hr, rfl⟩ := List.mem_map.mp hrow
    exact ⟨l, hl, r, hr, rfl⟩
  | some condition =>
    rw [joinRows] at h
    cases hfields : condition.eqFields with
    | none =>
      rw [hfields] at h
      obtain ⟨hshape, hrows⟩ := nestedLoop_eq h
      apply hleft.pairs hright (by rw [hshape]; rfl)
      intro row hrow
      rw [hrows, mem_pairs] at hrow
      obtain ⟨l, hl, r, hr, -, hrow⟩ := hrow
      exact ⟨l, hl, r, hr, hrow⟩
    | some exprs =>
      obtain ⟨leftExpr, rightExpr⟩ := exprs
      rw [hfields] at h
      obtain ⟨result', hrun, hshape, hperm⟩ :=
        run_perm (F := F) hleft (aliasName_of_eqFields hfields) (run_resolves h)
      cases h.symm.trans hrun
      apply hleft.pairs hright (by rw [hshape, TupleShape.cellNum, hleft.cellNum]; rfl)
      intro row hrow
      rw [hperm.mem_iff, mem_pairs] at hrow
      obtain ⟨l, hl, r, hr, -, hrow⟩ := hrow
      exact ⟨l, hl, r, hr, hrow⟩

/-- Each row that a plan delivers has the cells of its schema, of which the first is a number. -/
theorem JoinOper.run_delivers {oper : JoinOper} {result : Rows} (h : oper.run F = .ok result) :
  Delivers oper.getTupleSchema result
  := by
  induction oper generalizing result with
  | tableGet table =>
    cases h
    exact {
      nonempty := by simp [getTupleSchema, table.nonempty]
      unnamed := by simp [getTupleSchema]
      cellNum := by simp [getTupleSchema, TupleShape.cellNum]
      width := table.width
      first := table.first }
  | join leftOper rightOper condition ihleft ihright =>
    rw [JoinOper.run] at h
    cases hleft : leftOper.run F with
    | error rc => simp [hleft] at h
    | ok left =>
      cases hright : rightOper.run F with
      | error rc => simp [hleft, hright] at h
      | ok right =>
        rw [hleft, hright] at h
        exact joinRows_delivers (ihleft hleft) (ihright hright) h

/-! ### Agreement -/

/-- The right expression finds a cell in each row of the right child. A pair meets the condition
exactly if the first cell of its left row meets the right value, and then all columns of both
children have the value of that cell. -/
structure JoinsEqually (F : Doubles) (condition : JoinCondition) (rightExpr : TupleCellSpec)
    (columns : List TupleCellSpec) (left right : Rows) : Prop where
  resolves : ∀ r ∈ right.rows, ∃ value, right.shape.findCell r rightExpr = .ok value
  keys : ∀ l ∈ left.rows, ∀ r ∈ right.rows,
    keysMeet F rightExpr right.shape (firstCell l) r
      = holds F condition left.shape right.shape l r
  columns : ∀ l ∈ left.rows, ∀ r ∈ right.rows, holds F condition left.shape right.shape l r →
    ∀ spec ∈ columns,
      (TupleShape.joined left.shape right.shape).findCell (l ++ r) spec = .ok (firstCell l)

/-- For a condition that is planned as a join by a red-black tree, the plan delivers the rows of
nested loops, up to their order, in which each column has the same value. -/
theorem joinRows_perm_iff (hleft : leftOper.run F = .ok left) (hright : rightOper.run F = .ok right)
    (hfields : condition.eqFields = some (leftExpr, rightExpr))
    (hnested : PredicateOper.run F condition (NestedLoopJoin.run left right) = .ok nested) :
  (∃ result, (JoinOper.join leftOper rightOper (some condition)).run F = .ok result
      ∧ result.rows.Perm nested.rows
      ∧ ∀ row ∈ result.rows, ∀ spec ∈ leftOper.getTupleSchema ++ rightOper.getTupleSchema,
        result.shape.findCell row spec = nested.shape.findCell row spec)
    ↔ JoinsEqually F condition rightExpr (leftOper.getTupleSchema ++ rightOper.getTupleSchema)
      left right
  := by
  have hdelivers := JoinOper.run_delivers hleft
  have hexpr := aliasName_of_eqFields hfields
  have hunnamed : ∀ spec ∈ leftOper.getTupleSchema ++ rightOper.getTupleSchema,
      spec.aliasName = "" := by
    intro spec hspec
    obtain hspec | hspec := List.mem_append.mp hspec
    · exact hdelivers.unnamed spec hspec
    · exact (JoinOper.run_delivers hright).unnamed spec hspec
  have hrun : (JoinOper.join leftOper rightOper (some condition)).run F
      = RbTreeEqJoin.run F leftExpr rightExpr leftOper.getTupleSchema left right := by
    rw [JoinOper.run, hleft, hright]
    dsimp only
    rw [joinRows, hfields]
  obtain ⟨hshape, hrows⟩ := nestedLoop_eq hnested
  rw [hrun, hshape, hrows]
  constructor
  · rintro ⟨result, hok, hsame, hcolumns⟩
    have hresolves := run_resolves hok
    obtain ⟨result', hok', hshape', hperm⟩ := run_perm (F := F) hdelivers hexpr hresolves
    cases hok.symm.trans hok'
    have hkeys := (pairs_perm_iff hdelivers).mp (hperm.symm.trans hsame)
    refine ⟨hresolves, hkeys, ?_⟩
    intro l hl r hr hholds spec hspec
    have hmem : l ++ r ∈ result.rows := by
      rw [hsame.mem_iff, append_mem_pairs hdelivers hl hr]
      exact hholds
    rw [← hcolumns _ hmem spec hspec, hshape', findCell_joined hdelivers hl (hunnamed spec hspec)]
  · rintro ⟨hresolves, hkeys, hcolumns⟩
    obtain ⟨result, hok, hshape', hperm⟩ := run_perm (F := F) hdelivers hexpr hresolves
    have hsame := hperm.trans ((pairs_perm_iff hdelivers).mpr hkeys)
    refine ⟨result, hok, hsame, ?_⟩
    intro row hrow spec hspec
    rw [hsame.mem_iff, mem_pairs] at hrow
    obtain ⟨l, hl, r, hr, hholds, rfl⟩ := hrow
    rw [hshape', findCell_joined hdelivers hl (hunnamed spec hspec), hcolumns l hl r hr hholds spec hspec]

/-! ### A join of two tables -/

/-- A table with the column `id`, and with a row in which `id` is `1`. No column is `NULL`. -/
def idTable (tableName : String) : TableRows where
  tableName
  fieldNames := ["__null_bitmap", "id"]
  rows := [[.ints 0, .ints 1]]
  nonempty := by decide
  width := by decide
  first := by simp

/-- The condition `s.id = t.id`. -/
def sameId : JoinCondition := .comparison .equalTo (.field "s" "id") (.field "t" "id")

/-- What a scan of the table delivers. -/
def idRows (tableName : String) : Rows :=
  { shape := .row tableName ["__null_bitmap", "id"], rows := [[.ints 0, .ints 1]] }

theorem eqFields_sameId :
  sameId.eqFields = some (⟨"s", "id", ""⟩, ⟨"t", "id", ""⟩)
  := by rfl

theorem nestedLoop_idTable :
  PredicateOper.run exactDoubles sameId (NestedLoopJoin.run (idRows "s") (idRows "t"))
    = .ok ⟨.joined (idRows "s").shape (idRows "t").shape, [[.ints 0, .ints 1, .ints 0, .ints 1]]⟩
  := by decide +kernel

theorem run_idTable :
  (JoinOper.join (.tableGet (idTable "s")) (.tableGet (idTable "t")) (some sameId)).run exactDoubles
    = .ok ⟨.joined (.cache (JoinOper.tableGet (idTable "s")).getTupleSchema) (idRows "t").shape, []⟩
  := by decide +kernel

/-- Nested loops deliver the row with `1` twice. The join by a red-black tree takes the cell of
`__null_bitmap` for `s.id`, and delivers no row. -/
theorem joinRows_not_perm :
  ¬ ∀ (F : Doubles) (leftOper rightOper : JoinOper) (condition : JoinCondition)
      (leftExpr rightExpr : TupleCellSpec) (left right nested : Rows),
    leftOper.run F = .ok left → rightOper.run F = .ok right
    → condition.eqFields = some (leftExpr, rightExpr)
    → PredicateOper.run F condition (NestedLoopJoin.run left right) = .ok nested
    → ∃ result, (JoinOper.join leftOper rightOper (some condition)).run F = .ok result
      ∧ result.rows.Perm nested.rows
      ∧ ∀ row ∈ result.rows, ∀ spec ∈ leftOper.getTupleSchema ++ rightOper.getTupleSchema,
        result.shape.findCell row spec = nested.shape.findCell row spec
  := by
  intro h
  obtain ⟨result, hok, hsame, -⟩ := h exactDoubles (.tableGet (idTable "s"))
    (.tableGet (idTable "t")) sameId _ _ (idRows "s") (idRows "t") _ rfl rfl eqFields_sameId
    nestedLoop_idTable
  rw [run_idTable] at hok
  cases hok
  simp at hsame

theorem joinRows_perm_iff_idTable :
  ¬ JoinsEqually exactDoubles sameId ⟨"t", "id", ""⟩
      ((JoinOper.tableGet (idTable "s")).getTupleSchema
        ++ (JoinOper.tableGet (idTable "t")).getTupleSchema)
      (idRows "s") (idRows "t")
  := by
  intro hequally
  obtain ⟨result, hok, hsame, -⟩ := (@joinRows_perm_iff exactDoubles sameId _ _ (idRows "s")
    (idRows "t") _ (.tableGet (idTable "s")) (.tableGet (idTable "t")) rfl rfl eqFields_sameId
    nestedLoop_idTable).mpr hequally
  rw [run_idTable] at hok
  cases hok
  simp at hsame

end MiniOB.Sql
