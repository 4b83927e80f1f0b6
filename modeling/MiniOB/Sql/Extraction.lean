import MiniOB.Sql.Refactor

/-!
# Extracting aggregates and subqueries

What `ExpressionStructRefactor` is for: every call of an aggregate function and every subquery
becomes a reference to a cell, and the lists say for each of them what it was. The refactoring does
not come to the parameters of other functions and to the children of `IN`, and it does not clear
the cells of the aggregates.
-/

namespace MiniOB.Sql

variable {Q : Type}

/-- An extracted aggregate. -/
structure AggregateEntry (Q : Type) where
  type : AggregateType
  child : ExpressionSqlNode Q
  cell : Str

/-- An extracted subquery. -/
structure SubqueryEntry (Q : Type) where
  subquery : SubqueryExpressionSqlNode Q
  type : SubqueryType
  cell : Str

/-- What an aggregate is of: `count(*)` is that of a value. -/
def countedChild (aggregateType : AggregateType) (child : ExpressionSqlNode Q) :
    ExpressionSqlNode Q :=
  if ExpressionStructRefactor.isCountStar aggregateType child then .value [] (.ints 1) else child

/-- A reference in the place of a subquery. -/
inductive ExtractsPlace (type : SubqueryType) :
    SubqueryPlace Q → SubqueryPlace Q → List (SubqueryEntry Q) → Prop where
  | subquery {node : SubqueryExpressionSqlNode Q} {cell : Str} :
      ExtractsPlace type (.inl node) (.inr ⟨[], cell⟩) [⟨node, type, cell⟩]
  | cellRef {cell : TupleCellExpressionSqlNode} : ExtractsPlace type (.inr cell) (.inr cell) []

mutual

/-- `Extracts node node' aggregates subqueries`: references in the place of all aggregates and
subqueries of `node` make it `node'`, and these are the aggregates and the subqueries, those
within another aggregate before it. -/
inductive Extracts : ExpressionSqlNode Q → ExpressionSqlNode Q →
    List (AggregateEntry Q) → List (SubqueryEntry Q) → Prop where
  | field {name relationName attributeName : Str} :
      Extracts (.field name relationName attributeName) (.field name relationName attributeName)
        [] []
  | value {name : Str} {value : Value} : Extracts (.value name value) (.value name value) [] []
  | cellRef {cell : TupleCellExpressionSqlNode} : Extracts (.cellRef cell) (.cellRef cell) [] []
  | unary {kind : UnaryKind} {name : Str} {child child' : ExpressionSqlNode Q}
      {as : List (AggregateEntry Q)} {ss : List (SubqueryEntry Q)}
      (hchild : Extracts child child' as ss) :
      Extracts (.unary kind name child) (.unary kind name child') as ss
  | binary {kind : BinaryKind} {name : Str} {left left' right right' : ExpressionSqlNode Q}
      {as as' : List (AggregateEntry Q)} {ss ss' : List (SubqueryEntry Q)}
      (hleft : Extracts left left' as ss) (hright : Extracts right right' as' ss') :
      Extracts (.binary kind name left right) (.binary kind name left' right')
        (as ++ as') (ss ++ ss')
  | function {name functionName : Str} {params params' : List (ExpressionSqlNode Q)}
      {as : List (AggregateEntry Q)} {ss : List (SubqueryEntry Q)}
      (hother : isAggregateFunction functionName = false)
      (hparams : ExtractsAll params params' as ss) :
      Extracts (.function name functionName params) (.function name functionName params') as ss
  | call {name functionName cell : Str} {param child' : ExpressionSqlNode Q}
      {as : List (AggregateEntry Q)} {ss : List (SubqueryEntry Q)}
      (haggregate : isAggregateFunction functionName = true)
      (hchild : Extracts (countedChild (getAggregateType functionName) param) child' as ss) :
      Extracts (.function name functionName [param]) (.cellRef ⟨name, cell⟩)
        (as ++ [⟨getAggregateType functionName, child', cell⟩]) ss
  | aggregate {name cell : Str} {type : AggregateType} {child child' : ExpressionSqlNode Q}
      {as : List (AggregateEntry Q)} {ss : List (SubqueryEntry Q)}
      (hchild : Extracts (countedChild type child) child' as ss) :
      Extracts (.aggregate name type child) (.cellRef ⟨name, cell⟩)
        (as ++ [⟨type, child', cell⟩]) ss
  | subquery {node : SubqueryExpressionSqlNode Q} {cell : Str} :
      Extracts (.subquery node) (.cellRef ⟨[], cell⟩) [] [⟨node, .singleCell, cell⟩]
  | inSubquery {name : Str} {child child' : ExpressionSqlNode Q} {place place' : SubqueryPlace Q}
      {as : List (AggregateEntry Q)} {ss ss' : List (SubqueryEntry Q)}
      (hchild : Extracts child child' as ss) (hplace : ExtractsPlace .singleCol place place' ss') :
      Extracts (.inSubquery name child place) (.inSubquery name child' place') as (ss ++ ss')
  | inList {name : Str} {child child' : ExpressionSqlNode Q}
      {values values' : List (ExpressionSqlNode Q)}
      {as as' : List (AggregateEntry Q)} {ss ss' : List (SubqueryEntry Q)}
      (hchild : Extracts child child' as ss) (hvalues : ExtractsAll values values' as' ss') :
      Extracts (.inList name child values) (.inList name child' values') (as ++ as') (ss ++ ss')
  | exists {name : Str} {place place' : SubqueryPlace Q} {ss : List (SubqueryEntry Q)}
      (hplace : ExtractsPlace .exists place place' ss) :
      Extracts (.exists name place) (.exists name place') [] ss

/-- The same of several trees. -/
inductive ExtractsAll : List (ExpressionSqlNode Q) → List (ExpressionSqlNode Q) →
    List (AggregateEntry Q) → List (SubqueryEntry Q) → Prop where
  | nil : ExtractsAll [] [] [] []
  | cons {node node' : ExpressionSqlNode Q} {nodes nodes' : List (ExpressionSqlNode Q)}
      {as as' : List (AggregateEntry Q)} {ss ss' : List (SubqueryEntry Q)}
      (hhead : Extracts node node' as ss) (htail : ExtractsAll nodes nodes' as' ss') :
      ExtractsAll (node :: nodes) (node' :: nodes') (as ++ as') (ss ++ ss')

end

mutual

/-- There is no call of an aggregate function and no subquery anywhere in the tree. -/
def IsPlain : ExpressionSqlNode Q → Prop
  | .field _ _ _ => True
  | .value _ _ => True
  | .unary _ _ child => IsPlain child
  | .binary _ _ left right => IsPlain left ∧ IsPlain right
  | .function _ functionName params => isAggregateFunction functionName = false ∧ AllPlain params
  | .inSubquery _ child place => IsPlain child ∧ place.isRight
  | .inList _ child values => IsPlain child ∧ AllPlain values
  | .exists _ place => place.isRight
  | .aggregate _ _ _ => False
  | .subquery _ => False
  | .cellRef _ => True

def AllPlain : List (ExpressionSqlNode Q) → Prop
  | [] => True
  | node :: nodes => IsPlain node ∧ AllPlain nodes

end

mutual

/-- The parameters of the functions and the children of the `IN`s are plain, wherever the
refactoring comes. -/
def IsReached : ExpressionSqlNode Q → Prop
  | .unary _ _ child => IsReached child
  | .binary _ _ left right => IsReached left ∧ IsReached right
  | .function _ functionName params =>
    if isAggregateFunction functionName then AllReached params else AllPlain params
  | .inSubquery _ child _ => IsPlain child
  | .inList _ child values => IsPlain child ∧ AllReached values
  | .aggregate _ _ child => IsReached child
  | _ => True

def AllReached : List (ExpressionSqlNode Q) → Prop
  | [] => True
  | node :: nodes => IsReached node ∧ AllReached nodes

end

mutual

/-- How many aggregates the refactoring comes to. -/
def aggregateCalls : ExpressionSqlNode Q → Nat
  | .unary _ _ child => aggregateCalls child
  | .binary _ _ left right => aggregateCalls left + aggregateCalls right
  | .function _ functionName params =>
    if isAggregateFunction functionName then allAggregateCalls params + 1 else 0
  | .inList _ _ values => allAggregateCalls values
  | .aggregate _ _ child => aggregateCalls child + 1
  | _ => 0

def allAggregateCalls : List (ExpressionSqlNode Q) → Nat
  | [] => 0
  | node :: nodes => aggregateCalls node + allAggregateCalls nodes

end

theorem allPlain_iff : ∀ {nodes : List (ExpressionSqlNode Q)},
    AllPlain nodes ↔ ∀ node ∈ nodes, IsPlain node
  | [] => by simp [AllPlain]
  | node :: nodes => by rw [AllPlain, allPlain_iff, List.forall_mem_cons]

theorem allReached_iff : ∀ {nodes : List (ExpressionSqlNode Q)},
    AllReached nodes ↔ ∀ node ∈ nodes, IsReached node
  | [] => by simp [AllReached]
  | node :: nodes => by rw [AllReached, allReached_iff, List.forall_mem_cons]

/-! ### Plain trees -/

theorem extractsPlace_of_isRight {type : SubqueryType} {place : SubqueryPlace Q}
    (h : place.isRight = true) :
  ExtractsPlace type place place []
  := by
  obtain node | cell := place
  · cases h
  · exact .cellRef

mutual

/-- Nothing is extracted from a plain tree. -/
theorem extracts_of_isPlain : ∀ {node : ExpressionSqlNode Q}, IsPlain node →
    Extracts node node [] []
  | .field _ _ _, _ => .field
  | .value _ _, _ => .value
  | .unary _ _ _, h => .unary (extracts_of_isPlain h)
  | .binary _ _ _ _, h => .binary (extracts_of_isPlain h.1) (extracts_of_isPlain h.2)
  | .function _ _ _, h => .function h.1 (extractsAll_of_allPlain h.2)
  | .inSubquery _ _ _, h =>
    .inSubquery (extracts_of_isPlain h.1) (extractsPlace_of_isRight h.2)
  | .inList _ _ _, h => .inList (extracts_of_isPlain h.1) (extractsAll_of_allPlain h.2)
  | .exists _ _, h => .exists (extractsPlace_of_isRight h)
  | .cellRef _, _ => .cellRef

theorem extractsAll_of_allPlain : ∀ {nodes : List (ExpressionSqlNode Q)}, AllPlain nodes →
    ExtractsAll nodes nodes [] []
  | [], _ => .nil
  | _ :: _, h => .cons (extracts_of_isPlain h.1) (extractsAll_of_allPlain h.2)

end

/-! ### What the refactoring does -/

namespace ExpressionStructRefactor

variable {rand : Nat → Nat} {s s' : ExpressionStructRefactor Q} {node node' : ExpressionSqlNode Q}
  {nodes nodes' : List (ExpressionSqlNode Q)}

/-- The object after these have been extracted. -/
def push (s : ExpressionStructRefactor Q) (as : List (AggregateEntry Q))
    (ss : List (SubqueryEntry Q)) (rands : Nat) : ExpressionStructRefactor Q :=
  { s with
    aggregateTypes := s.aggregateTypes ++ as.map (·.type)
    aggregateChilds := s.aggregateChilds ++ as.map (·.child)
    aggregateCells := s.aggregateCells ++ as.map (·.cell)
    subqueries := s.subqueries ++ ss.map (·.subquery)
    subqueryTypes := s.subqueryTypes ++ ss.map (·.type)
    subqueryCells := s.subqueryCells ++ ss.map (·.cell)
    rands := rands }

theorem push_push (as as' : List (AggregateEntry Q)) (ss ss' : List (SubqueryEntry Q))
    (rands rands' : Nat) :
  (s.push as ss rands).push as' ss' rands' = s.push (as ++ as') (ss ++ ss') rands'
  := by
  simp [push]

theorem push_nil :
  s.push [] [] s.rands = s
  := by
  simp [push]

/-- The object is in the state in which all but the places of subqueries are visited. -/
theorem setSingleCell (h : s.currentSubqueryType = .singleCell) :
  { s with currentSubqueryType := .singleCell } = s
  := by
  rw [← h]

/-- Where a visit has not changed the type, it is the old one that is put back. -/
theorem setOld (h : s'.currentSubqueryType = s.currentSubqueryType) :
  { s' with currentSubqueryType := s.currentSubqueryType } = s'
  := by
  rw [← h]

/-- The lists have grown by so many aggregates. If the refactoring reaches everything, these and
the subqueries are what has been extracted; otherwise something is left, in the tree or below an
aggregate. -/
def Grows (s s' : ExpressionStructRefactor Q) (calls : Nat) (reached plain : Prop)
    (extracts : List (AggregateEntry Q) → List (SubqueryEntry Q) → Prop) : Prop :=
  ∃ as ss rands, s' = s.push as ss rands ∧ as.length = calls
    ∧ (reached → extracts as ss ∧ plain ∧ ∀ a ∈ as, IsPlain a.child)
    ∧ (plain → (∀ a ∈ as, IsPlain a.child) → reached)

section

variable {calls calls' : Nat} {reached reached' plain plain' : Prop}
  {extracts extracts' extracts'' : List (AggregateEntry Q) → List (SubqueryEntry Q) → Prop}
  {s₁ : ExpressionStructRefactor Q}

theorem Grows.currentSubqueryType_eq (h : Grows s s' calls reached plain extracts) :
  s'.currentSubqueryType = s.currentSubqueryType
  := by
  obtain ⟨as, ss, rands, rfl, -⟩ := h
  rfl

theorem Grows.imp (h : Grows s s' calls reached plain extracts)
    (hextracts : ∀ as ss, extracts as ss → extracts' as ss) :
  Grows s s' calls reached plain extracts'
  := by
  obtain ⟨as, ss, rands, hs', hlength, hreached, hplain⟩ := h
  refine ⟨as, ss, rands, hs', hlength, ?_, hplain⟩
  exact fun hr => ⟨hextracts as ss (hreached hr).1, (hreached hr).2⟩

/-- Where nothing is visited, what is there stays there. -/
theorem Grows.nothing (hplain : reached ↔ plain) (hextracts : reached → extracts [] []) :
  Grows s s 0 reached plain extracts
  := by
  refine ⟨[], [], s.rands, push_nil.symm, rfl, ?_, ?_⟩
  · exact fun hr => ⟨hextracts hr, hplain.mp hr, by simp⟩
  · exact fun hp _ => hplain.mpr hp

/-- One visit after the other. -/
theorem Grows.append (h : Grows s s₁ calls reached plain extracts)
    (h' : Grows s₁ s' calls' reached' plain' extracts')
    (hextracts : ∀ as as' ss ss', extracts as ss → extracts' as' ss' →
      extracts'' (as ++ as') (ss ++ ss')) :
  Grows s s' (calls + calls') (reached ∧ reached') (plain ∧ plain') extracts''
  := by
  obtain ⟨as, ss, rands, rfl, hlength, hreached, hplain⟩ := h
  obtain ⟨as', ss', rands', rfl, hlength', hreached', hplain'⟩ := h'
  refine ⟨as ++ as', ss ++ ss', rands', push_push .., ?_, ?_, ?_⟩
  · rw [List.length_append, hlength, hlength']
  · rintro ⟨hr, hr'⟩
    obtain ⟨he, hp, has⟩ := hreached hr
    obtain ⟨he', hp', has'⟩ := hreached' hr'
    exact ⟨hextracts _ _ _ _ he he', ⟨hp, hp'⟩, List.forall_mem_append.mpr ⟨has, has'⟩⟩
  · rintro ⟨hp, hp'⟩ hall
    obtain ⟨has, has'⟩ := List.forall_mem_append.mp hall
    exact ⟨hplain hp has, hplain' hp' has'⟩

theorem Grows.congr (h : Grows s s' calls reached plain extracts) (hreached : reached ↔ reached')
    (hplain : plain ↔ plain') :
  Grows s s' calls reached' plain' extracts
  := by
  rwa [← hreached, ← hplain]

theorem Grows.of_rands {rands : Nat}
    (h : Grows { s with rands := rands } s' calls reached plain extracts) :
  Grows s s' calls reached plain extracts
  := h

/-- A visit that passes a child by. -/
theorem Grows.passBy {child : ExpressionSqlNode Q} (h : Grows s s' calls reached plain extracts)
    (hextracts : ∀ as ss, Extracts child child [] [] → extracts as ss → extracts' as ss) :
  Grows s s' calls (IsPlain child ∧ reached) (IsPlain child ∧ plain) extracts'
  := by
  have hchild : Grows s s 0 (IsPlain child) (IsPlain child) fun as ss =>
      as = [] ∧ ss = [] ∧ Extracts child child [] [] :=
    .nothing Iff.rfl fun hplain => ⟨rfl, rfl, extracts_of_isPlain hplain⟩
  rw [← Nat.zero_add calls]
  apply hchild.append h
  rintro _ as' _ ss' ⟨rfl, rfl, hnone⟩ h
  exact hextracts as' ss' hnone h

/-- The aggregate above a child that has been visited. -/
theorem Grows.aggregate {child' : ExpressionSqlNode Q} {type : AggregateType} {cell : Str}
    (h : Grows s s' calls reached (IsPlain child') extracts)
    (hextracts : ∀ as ss, extracts as ss → extracts' (as ++ [⟨type, child', cell⟩]) ss) :
  Grows s
    { s' with
      aggregateTypes := s'.aggregateTypes ++ [type]
      aggregateChilds := s'.aggregateChilds ++ [child']
      aggregateCells := s'.aggregateCells ++ [cell] }
    (calls + 1) reached True extracts'
  := by
  obtain ⟨as, ss, rands, rfl, hlength, hreached, hplain⟩ := h
  refine ⟨as ++ [⟨type, child', cell⟩], ss, rands, ?_, ?_, ?_, ?_⟩
  · simp [push]
  · rw [List.length_append, hlength, List.length_singleton]
  · intro hr
    obtain ⟨he, hp, has⟩ := hreached hr
    refine ⟨hextracts as ss he, trivial, ?_⟩
    rw [List.forall_mem_append, List.forall_mem_singleton]
    exact ⟨has, hp⟩
  · intro _ hall
    rw [List.forall_mem_append, List.forall_mem_singleton] at hall
    exact hplain hall.2 hall.1

/-- A subquery. -/
theorem Grows.subquery {entry : SubqueryEntry Q} (hextracts : extracts [] [entry]) :
  Grows s (s.push [] [entry] s.rands) 0 True True extracts
  := ⟨[], [entry], s.rands, rfl, rfl, fun _ => ⟨hextracts, trivial, by simp⟩, fun _ _ => trivial⟩

end

theorem refactorSubquery_grows {node : SubqueryExpressionSqlNode Q}
    {cell : TupleCellExpressionSqlNode} (h : refactorSubquery node s = (cell, s')) :
  cell.name = [] ∧ Grows s s' 0 True True fun as ss =>
    as = [] ∧ ss = [⟨node, s.currentSubqueryType, cell.aliasName⟩]
  := by
  obtain ⟨rfl, rfl⟩ := h
  refine ⟨rfl, [], [⟨node, s.currentSubqueryType, cStr node.name⟩], s.rands, ?_⟩
  simp [push]

theorem refactorPlace_grows {type : SubqueryType} {place place' : SubqueryPlace Q}
    (h : refactorPlace type place s = some (place', s')) :
  place'.isRight = true
    ∧ Grows s s' 0 True True fun as ss => as = [] ∧ ExtractsPlace type place place' ss
  := by
  obtain node | cell := place
  · obtain ⟨rfl, rfl⟩ := h
    refine ⟨rfl, [], [⟨node, type, cStr node.name⟩], s.rands, ?_⟩
    simp [push, ExtractsPlace.subquery]
  · cases h

/-- The visit of what an aggregate is of. -/
def refactorCounted (rand : Nat → Nat) (type : AggregateType) (child : ExpressionSqlNode Q) :
    ExpressionStructRefactor Q → Option (ExpressionSqlNode Q × ExpressionStructRefactor Q) :=
  if isCountStar type child then fun s => some (.value [] (.ints 1), s)
  else refactorInternal rand child

/-- What the visit of this tree does. -/
def VisitGrows (rand : Nat → Nat) (node : ExpressionSqlNode Q) : Prop :=
  ∀ {s : ExpressionStructRefactor Q} {node' : ExpressionSqlNode Q}
    {s' : ExpressionStructRefactor Q},
    s.currentSubqueryType = .singleCell → refactorInternal rand node s = some (node', s') →
    Grows s s' (aggregateCalls node) (IsReached node) (IsPlain node') (Extracts node node')

theorem refactorCounted_grows {type : AggregateType} {child child' : ExpressionSqlNode Q}
    (hchild : VisitGrows rand child) (hs : s.currentSubqueryType = .singleCell)
    (h : refactorCounted rand type child s = some (child', s')) :
  Grows s s' (aggregateCalls child) (IsReached child) (IsPlain child')
    (Extracts (countedChild type child) child')
  := by
  rw [refactorCounted] at h
  rw [countedChild]
  split_ifs at h ⊢ with hstar
  · obtain ⟨rfl, rfl⟩ := h
    cases child with
    | field name relationName attributeName => exact .nothing Iff.rfl fun _ => .value
    | _ => cases type <;> cases hstar
  · exact hchild hs h

/-- The visit of an aggregate, by what the visit of its child does. -/
theorem refactorAggregate_grows {name : Str} {type : AggregateType} {child : ExpressionSqlNode Q}
    {extracts : ExpressionSqlNode Q → List (AggregateEntry Q) → List (SubqueryEntry Q) → Prop}
    (hs : s.currentSubqueryType = .singleCell) (hchild : VisitGrows rand child)
    (hextracts : ∀ child' cell as ss, Extracts (countedChild type child) child' as ss →
      extracts (.cellRef ⟨name, cell⟩) (as ++ [⟨type, child', cell⟩]) ss)
    (h : refactorAggregate rand name type (refactorCounted rand type child) s
      = some (node', s')) :
  Grows s s' (aggregateCalls child + 1) (IsReached child) (IsPlain node') (extracts node')
  := by
  rw [refactorAggregate] at h
  obtain ⟨⟨child', s₁⟩, hvisit, heq⟩ := Option.bind_eq_some_iff.mp h
  rw [← hs] at hvisit
  have hgrows := refactorCounted_grows (s := { s with rands := s.rands + 1 }) hchild hs hvisit
  dsimp only at heq
  rw [Option.pure_def, Option.some.injEq, Prod.mk.injEq] at heq
  obtain ⟨rfl, rfl⟩ := heq
  have hold : s₁.currentSubqueryType = s.currentSubqueryType := hgrows.currentSubqueryType_eq
  rw [← hold]
  exact hgrows.of_rands.aggregate (hextracts child' _)

/-- The visit of a call of an aggregate function. -/
theorem call_grows {name functionName : Str} {params : List (ExpressionSqlNode Q)}
    (hf : isAggregateFunction functionName = true) (hs : s.currentSubqueryType = .singleCell)
    (hparams : ∀ param, params = [param] → VisitGrows rand param)
    (h : refactorInternal rand (.function name functionName params) s = some (node', s')) :
  Grows s s' (allAggregateCalls params + 1) (AllReached params) (IsPlain node')
    (Extracts (.function name functionName params) node')
  := by
  obtain ⟨param, rfl⟩ | hne := em (∃ param, params = [param])
  · rw [refactorInternal, if_pos hf, setSingleCell hs] at h
    obtain ⟨⟨node', s₁⟩, hvisit, heq⟩ := Option.bind_eq_some_iff.mp h
    have hgrows : Grows s s₁ (aggregateCalls param + 1) (IsReached param) (IsPlain node')
        (Extracts (.function name functionName [param]) node') := by
      apply refactorAggregate_grows hs (hparams param rfl) _ hvisit
      exact fun _ _ _ _ => .call hf
    dsimp only at heq
    rw [setOld hgrows.currentSubqueryType_eq] at heq
    obtain ⟨rfl, rfl⟩ := heq
    rw [allAggregateCalls, AllReached]
    exact hgrows.congr (and_iff_left trivial).symm Iff.rfl
  · rw [refactorInternal, if_pos hf] at h
    · cases h
    · exact fun param hparam => hne ⟨param, hparam⟩

/-- Nothing happens to a call of another function. -/
theorem refactorInternal_function {name functionName : Str}
    {params : List (ExpressionSqlNode Q)} (hf : isAggregateFunction functionName = false) :
  refactorInternal rand (.function name functionName params) s
    = some (.function name functionName params, s)
  := by
  rw [refactorInternal.eq_def]
  dsimp only
  rw [if_neg (by rw [hf]; decide)]

mutual

/-- What a visit does. -/
theorem refactorInternal_grows : ∀ {node : ExpressionSqlNode Q} {s : ExpressionStructRefactor Q}
    {node' : ExpressionSqlNode Q} {s' : ExpressionStructRefactor Q},
    s.currentSubqueryType = .singleCell → refactorInternal rand node s = some (node', s') →
    Grows s s' (aggregateCalls node) (IsReached node) (IsPlain node') (Extracts node node')
  | .field name relationName attributeName, s, node', s', hs, h => by
    rw [refactorInternal, setSingleCell hs] at h
    obtain ⟨rfl, rfl⟩ := h
    exact .nothing Iff.rfl fun _ => .field
  | .value name value, s, node', s', hs, h => by
    rw [refactorInternal, setSingleCell hs] at h
    obtain ⟨rfl, rfl⟩ := h
    exact .nothing Iff.rfl fun _ => .value
  | .unary kind name child, s, node', s', hs, h => by
    rw [refactorInternal, setSingleCell hs] at h
    obtain ⟨⟨child', s₁⟩, hchild, heq⟩ := Option.bind_eq_some_iff.mp h
    have hgrows := refactorInternal_grows hs hchild
    dsimp only at heq
    rw [setOld hgrows.currentSubqueryType_eq] at heq
    obtain ⟨rfl, rfl⟩ := heq
    exact hgrows.imp fun _ _ => .unary
  | .binary kind name left right, s, node', s', hs, h => by
    rw [refactorInternal, setSingleCell hs] at h
    obtain ⟨⟨left', s₁⟩, hleft, h⟩ := Option.bind_eq_some_iff.mp h
    have hgrows := refactorInternal_grows hs hleft
    dsimp only at h
    rw [setOld hgrows.currentSubqueryType_eq] at h
    obtain ⟨⟨right', s₂⟩, hright, heq⟩ := Option.bind_eq_some_iff.mp h
    have hgrows' := refactorInternal_grows (hgrows.currentSubqueryType_eq.trans hs) hright
    dsimp only at heq
    rw [setOld (hgrows'.currentSubqueryType_eq.trans hgrows.currentSubqueryType_eq)] at heq
    obtain ⟨rfl, rfl⟩ := heq
    exact hgrows.append hgrows' fun _ _ _ _ => .binary
  | .function name functionName params, s, node', s', hs, h => by
    rw [IsReached, aggregateCalls]
    split_ifs with hf
    · apply call_grows hf hs _ h
      rintro param rfl
      exact refactorInternal_grows
    · rw [Bool.not_eq_true] at hf
      rw [refactorInternal_function hf] at h
      obtain ⟨rfl, rfl⟩ := h
      refine .nothing ?_ fun hplain => .function hf (extractsAll_of_allPlain hplain)
      rw [IsPlain]
      exact ⟨fun hplain => ⟨hf, hplain⟩, And.right⟩
  | .aggregate name type child, s, node', s', hs, h => by
    rw [refactorInternal] at h
    exact refactorAggregate_grows hs (refactorInternal_grows ) (fun _ _ _ _ => .aggregate) h
  | .subquery node, s, node', s', hs, h => by
    rw [refactorInternal] at h
    obtain ⟨rfl, rfl⟩ := h
    obtain ⟨-, hgrows⟩ := refactorSubquery_grows (rfl : refactorSubquery node s = _)
    apply hgrows.imp
    rintro _ _ ⟨rfl, rfl⟩
    rw [hs]
    exact .subquery
  | .inSubquery name child place, s, node', s', hs, h => by
    rw [refactorInternal] at h
    obtain ⟨⟨place', _⟩, hplace, heq⟩ := Option.bind_eq_some_iff.mp h
    obtain ⟨rfl, rfl⟩ := heq
    obtain ⟨hright, hgrows⟩ := refactorPlace_grows hplace
    have hpassed : Grows s s' 0 (IsPlain child ∧ True) (IsPlain child ∧ True)
        (Extracts (.inSubquery name child place) (.inSubquery name child place')) := by
      apply hgrows.passBy
      rintro _ ss hnone ⟨rfl, h⟩
      exact .inSubquery hnone h
    exact hpassed.congr (and_iff_left trivial) (and_congr_right fun _ => iff_of_true trivial hright)
  | .inList name child values, s, node', s', hs, h => by
    rw [refactorInternal, setSingleCell hs] at h
    obtain ⟨⟨values', s₁⟩, hvalues, heq⟩ := Option.bind_eq_some_iff.mp h
    have hgrows := refactorList_grows hs hvalues
    dsimp only at heq
    rw [setOld hgrows.currentSubqueryType_eq] at heq
    obtain ⟨rfl, rfl⟩ := heq
    exact hgrows.passBy fun _ _ => .inList
  | .exists name place, s, node', s', hs, h => by
    rw [refactorInternal] at h
    obtain ⟨⟨place', _⟩, hplace, heq⟩ := Option.bind_eq_some_iff.mp h
    obtain ⟨rfl, rfl⟩ := heq
    obtain ⟨hright, hgrows⟩ := refactorPlace_grows hplace
    have hexists : Grows s s' 0 True True
        (Extracts (.exists name place) (.exists name place')) := by
      apply hgrows.imp
      rintro _ ss ⟨rfl, h⟩
      exact .exists h
    exact hexists.congr Iff.rfl (iff_of_true trivial hright)
  | .cellRef cell, s, node', s', hs, h => by
    cases h

/-- What the visits of several trees do. -/
theorem refactorList_grows : ∀ {nodes : List (ExpressionSqlNode Q)}
    {s : ExpressionStructRefactor Q} {nodes' : List (ExpressionSqlNode Q)}
    {s' : ExpressionStructRefactor Q},
    s.currentSubqueryType = .singleCell → refactorList rand nodes s = some (nodes', s') →
    Grows s s' (allAggregateCalls nodes) (AllReached nodes) (AllPlain nodes')
      (ExtractsAll nodes nodes')
  | [], s, nodes', s', hs, h => by
    obtain ⟨rfl, rfl⟩ := h
    exact .nothing Iff.rfl fun _ => .nil
  | node :: nodes, s, nodes', s', hs, h => by
    rw [refactorList] at h
    obtain ⟨⟨node', s₁⟩, hnode, h⟩ := Option.bind_eq_some_iff.mp h
    have hgrows := refactorInternal_grows hs hnode
    obtain ⟨⟨nodes', s₂⟩, hnodes, heq⟩ := Option.bind_eq_some_iff.mp h
    have hgrows' := refactorList_grows (hgrows.currentSubqueryType_eq.trans hs) hnodes
    obtain ⟨rfl, rfl⟩ := heq
    exact hgrows.append hgrows' fun _ _ _ _ => .cons

end

/-! ### Complete extractions -/

/-- Nothing is left in the trees and below the aggregates, and the lists of the object are those of
the aggregates and the subqueries that have been replaced. -/
structure IsComplete (nodes nodes' : List (ExpressionSqlNode Q)) (s' : ExpressionStructRefactor Q) :
    Prop where
  plain : ∀ node ∈ nodes' ++ s'.aggregateChilds, IsPlain node
  extracts : ∃ as ss, ExtractsAll nodes nodes' as ss
    ∧ s'.aggregateTypes = as.map (·.type) ∧ s'.aggregateChilds = as.map (·.child)
    ∧ s'.aggregateCells = as.map (·.cell) ∧ s'.subqueries = ss.map (·.subquery)
    ∧ s'.subqueryTypes = ss.map (·.type) ∧ s'.subqueryCells = ss.map (·.cell)

/-- The lists of a complete extraction are equally long. -/
theorem IsComplete.length_eq (h : IsComplete nodes nodes' s') :
  s'.aggregateTypes.length = s'.aggregateChilds.length
    ∧ s'.aggregateChilds.length = s'.aggregateCells.length
    ∧ s'.subqueries.length = s'.subqueryTypes.length
    ∧ s'.subqueryTypes.length = s'.subqueryCells.length
  := by
  obtain ⟨as, ss, -, htypes, hchilds, hcells, hsubqueries, hsubqueryTypes, hsubqueryCells⟩ :=
    h.extracts
  simp [htypes, hchilds, hcells, hsubqueries, hsubqueryTypes, hsubqueryCells]

variable {attributes : Q → Nat} {rc : RC}

/-- What a call does: it fails before it has extracted anything, or it visits all trees with the
lists that `init` leaves. -/
theorem refactor_cases (h : refactor rand attributes nodes s = some (rc, nodes', s')) :
  (rc ≠ .success ∧ nodes' = nodes ∧ s' = s.init)
    ∨ rc = .success ∧ Grows s.init s' (allAggregateCalls nodes) (AllReached nodes)
      (AllPlain nodes') (ExtractsAll nodes nodes')
  := by
  have hne : ExpressionSqlNode.validateList attributes true true nodes ≠ .error (.rc .success) :=
    ExpressionSqlNode.validateList_ne_success nodes
  rw [refactor] at h
  cases hvalidate : ExpressionSqlNode.validateList attributes true true nodes with
  | error stop =>
    rw [hvalidate] at h hne
    cases stop with
    | rc rc' =>
      obtain ⟨rfl, rfl, rfl⟩ := h
      left
      refine ⟨?_, rfl, rfl⟩
      rintro rfl
      exact hne rfl
    | nullCast => cases h
    | assertion => cases h
  | ok =>
    rw [hvalidate] at h
    obtain ⟨⟨nodes', s'⟩, hrefactor, heq⟩ := Option.map_eq_some_iff.mp h
    obtain ⟨rfl, rfl, rfl⟩ := heq
    right
    exact ⟨rfl, refactorList_grows rfl hrefactor⟩

/-- A successful call extracts everything exactly if it reaches everything, and the object has no
cells left. -/
theorem isComplete_iff (h : refactor rand attributes nodes s = some (.success, nodes', s')) :
  IsComplete nodes nodes' s' ↔ (∀ node ∈ nodes, IsReached node) ∧ s.aggregateCells = []
  := by
  obtain ⟨hne, -⟩ | ⟨-, hgrows⟩ := refactor_cases h
  · exact absurd rfl hne
  obtain ⟨as, ss, rands, rfl, hlength, hreached, hplain⟩ := hgrows
  rw [← allReached_iff]
  constructor
  · intro hcomplete
    obtain ⟨hall, has⟩ := List.forall_mem_append.mp hcomplete.plain
    constructor
    · apply hplain (allPlain_iff.mpr hall)
      simpa [push, init] using has
    · -- there are as many new cells as types
      have hcells := hcomplete.length_eq
      simpa [push, init] using hcells
  · rintro ⟨hr, hcells⟩
    obtain ⟨hextracts, hp, has⟩ := hreached hr
    refine ⟨?_, as, ss, hextracts, ?_⟩
    · rw [List.forall_mem_append, ← allPlain_iff]
      refine ⟨hp, ?_⟩
      simpa [push, init] using has
    · simp [push, init, hcells]

/-! ### Several queries -/

/-- A use of the object: a call with its result, or `push_groupping`, which takes the aggregates
out. -/
inductive Use (Q : Type) where
  | refactor (nodes : List (ExpressionSqlNode Q)) (rc : RC)
  | fetchAggregates

/-- What a use does. -/
inductive Uses (rand : Nat → Nat) (attributes : Q → Nat) :
    ExpressionStructRefactor Q → Use Q → ExpressionStructRefactor Q → Prop where
  | refactor {s s' : ExpressionStructRefactor Q} {nodes nodes' : List (ExpressionSqlNode Q)}
      {rc : RC} (h : refactor rand attributes nodes s = some (rc, nodes', s')) :
      Uses rand attributes s (.refactor nodes rc) s'
  | fetchAggregates {s : ExpressionStructRefactor Q} :
      Uses rand attributes s .fetchAggregates { s with aggregateChilds := [], aggregateCells := [] }

/-- How many aggregates earlier calls have extracted that have not been taken out since then. -/
def unfetched : List (ExpressionStructRefactor Q × Use Q) → Nat
  | [] => 0
  | (_, .fetchAggregates) :: _ => 0
  | (_, .refactor nodes rc) :: history =>
    unfetched history + if rc = .success then allAggregateCalls nodes else 0

theorem length_aggregateCells_of_run {rands : Nat}
    {history : List (ExpressionStructRefactor Q × Use Q)}
    (hrun : Transition.Run (Uses rand attributes) { rands := rands } history s) :
  s.aggregateCells.length = unfetched history
  := by
  induction hrun with
  | refl => rfl
  | tail _ hlast ih =>
    cases hlast with
    | fetchAggregates => rfl
    | refactor h =>
      rw [unfetched, ← ih]
      obtain ⟨hne, -, rfl⟩ | ⟨rfl, as, ss, rands, rfl, hlength, -⟩ := refactor_cases h
      · rw [if_neg hne]
        rfl
      · rw [if_pos rfl, ← hlength]
        simp [push, init]

/-- An object that is used for several queries extracts everything of one of them exactly if it
reaches everything, and no aggregates of the others are left. -/
theorem isComplete_iff_of_run {rands : Nat}
    {history : List (ExpressionStructRefactor Q × Use Q)}
    (hrun : Transition.Run (Uses rand attributes) { rands := rands } history s)
    (h : refactor rand attributes nodes s = some (.success, nodes', s')) :
  IsComplete nodes nodes' s' ↔ (∀ node ∈ nodes, IsReached node) ∧ unfetched history = 0
  := by
  rw [isComplete_iff h, ← length_aggregateCells_of_run hrun, List.length_eq_zero_iff]

/-- The tree `length(max(x))`. -/
def lengthOfMax : ExpressionSqlNode Unit :=
  .function [] [108, 101, 110, 103, 116, 104]
    [.function [] [109, 97, 120] [.field [120] [] [120]]]

/-- The tree `count(*)`. -/
def countStar : ExpressionSqlNode Unit :=
  .function [] [99, 111, 117, 110, 116] [.field [42] [] [42]]

/-- A fresh object takes the aggregate out of `count(*)`. -/
theorem isComplete_countStar :
  ∃ nodes' s', refactor (fun n => n) (fun _ => 1) [countStar] {} = some (.success, nodes', s')
    ∧ IsComplete [countStar] nodes' s'
  := by
  obtain ⟨⟨nodes', s'⟩, h⟩ : ∃ result, refactor (fun n => n) (fun _ => 1) [countStar] {}
      = some (.success, result) := ⟨_, rfl⟩
  refine ⟨nodes', s', h, (isComplete_iff_of_run .refl h).mpr ⟨?_, rfl⟩⟩
  rw [List.forall_mem_singleton, countStar, IsReached, if_pos (by decide)]
  exact ⟨trivial, trivial⟩

/-- The call of `max` is left in `length(max(x))`. -/
theorem isComplete_fails :
  ∃ nodes' s', refactor (fun n => n) (fun _ => 1) [lengthOfMax] {} = some (.success, nodes', s')
    ∧ ¬ IsComplete [lengthOfMax] nodes' s'
  := by
  refine ⟨[lengthOfMax], {}, rfl, ?_⟩
  intro h
  have hplain := h.plain lengthOfMax (.head _)
  rw [lengthOfMax, IsPlain, AllPlain, IsPlain] at hplain
  exact absurd hplain.2.1.1 (by decide)

end ExpressionStructRefactor

end MiniOB.Sql
