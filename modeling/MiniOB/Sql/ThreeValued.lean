import MiniOB.Lib.Kleene
import MiniOB.Sql.Date

/-!
# Conditions in three-valued logic

What `get_value` makes of a condition, against Kleene's logic, where a `NULL` is what is not known,
and so is a date beside a string that names none. A condition is a tree of comparisons,
conjunctions, negations and tests for `NULL` over operands of any kind, and the loop of a
conjunction does not depend on the order of the children.
-/

namespace MiniOB.Sql

open Calendar (Date)
open Kleene (Truth)

/-- The value of a condition of this truth. -/
def valueOf : Truth → Value
  | .false => .booleans false
  | .unknown => .nulls
  | .true => .booleans true

/-- The truth of a value. -/
def Value.truth (F : Doubles) (v : Value) : Truth := .ofOption (v.getBoolean F)

/-- What a conjunction makes of the truths of its children. -/
def ConjunctionType.join : ConjunctionType → List Truth → Truth
  | .and => .conjunction
  | .or => .disjunction

theorem truth_valueOf (F : Doubles) (t : Truth) : (valueOf t).truth F = t := by
  cases t <;> rfl

theorem map_truth_valueOf (F : Doubles) (truths : List Truth) :
  (truths.map valueOf).map (Value.truth F) = truths
  := by
  rw [List.map_map]
  calc truths.map (Value.truth F ∘ valueOf)
      = truths.map id := List.map_congr_left fun t _ => truth_valueOf F t
    _ = truths := List.map_id truths

theorem truthValue_eq (truth : Option Bool) : truthValue truth = valueOf (.ofOption truth) := by
  obtain _ | _ | _ := truth <;> rfl

theorem ConjunctionType.join_perm {truths truths' : List Truth} (type : ConjunctionType)
    (h : truths.Perm truths') :
  type.join truths = type.join truths'
  := by
  cases type with
  | and => exact Truth.conjunction_perm h
  | or => exact Truth.disjunction_perm h

/-! ### The loop of a conjunction -/

section

variable {E : Environment} {tuple : E.Tuple}

/-- A `NULL` that the loop has met counts like one that it meets. -/
theorem getConjunction_of_getValues (type : ConjunctionType) : ∀ (containNull : Bool)
    {children : List (Expression E)} {values : List Value},
    Expression.getValues tuple children = .ok values →
    Expression.getConjunction tuple type containNull children
      = .ok (valueOf (type.join ((if containNull then [.unknown] else [])
          ++ values.map (Value.truth E.library.doubles))))
  | containNull, [], _, h => by
    cases h
    cases containNull <;> cases type <;> rfl
  | containNull, child :: children, values, h => by
    obtain ⟨v, rest, rfl, hchild, hchildren⟩ := Expression.getValues_cons h
    have ih := fun b => getConjunction_of_getValues type b hchildren
    rw [Expression.getConjunction, hchild, List.map_cons, Value.truth]
    dsimp only [bind, Except.bind]
    cases v.getBoolean E.library.doubles with
    | none =>
      dsimp only
      rw [ih true]
      cases containNull <;> cases type <;> simp [ConjunctionType.join, Truth.ofOption]
    | some boolValue =>
      dsimp only
      rw [ih containNull]
      -- false decides an AND, true decides an OR, and neither counts in the other
      cases containNull <;> cases type <;> cases boolValue <;>
        simp [ConjunctionType.join, Truth.ofOption, valueOf, pure, Except.pure]

end

/-! ### Comparisons -/

/-- The comparison says this of two members of an order. -/
def CompOp.holds {α : Type} [LinearOrder α] (comp : CompOp) (a b : α) : Bool :=
  match comp with
  | .equalTo => a = b
  | .lessEqual => a ≤ b
  | .notEqual => a ≠ b
  | .lessThan => a < b
  | .greatEqual => b ≤ a
  | .greatThan => b < a

/-- The bytes of a string as numbers. Strings are ordered by these like words. -/
def letters (s : Str) : List Nat := s.map BitVec.toNat

/-- The string that a value is. -/
def Value.str : Value → Option Str
  | .chars s => some s
  | .texts s => some s
  | _ => none

/-- The comparisons between two integers, two dates, two strings, a date and a string, or with
a `NULL`. -/
inductive Value.Comparable : Value → Value → Prop where
  | nullLeft {w : Value} (h : w ≠ .undefined) : Comparable .nulls w
  | nullRight {v : Value} (h : v ≠ .undefined) : Comparable v .nulls
  | ints (m n : BitVec 32) : Comparable (.ints m) (.ints n)
  | dates (m n : BitVec 32) : Comparable (.dates m) (.dates n)
  | strings {v w : Value} {s t : Str} (hv : v.str = some s) (hw : w.str = some t) : Comparable v w
  | dateString (m : BitVec 32) {w : Value} {s : Str} (hw : w.str = some s) : Comparable (.dates m) w
  | stringDate {v : Value} {s : Str} (hv : v.str = some s) (n : BitVec 32) : Comparable v (.dates n)

open Classical in
/-- The number of the date that a string names. -/
noncomputable def named (s : Str) : Option Int :=
  if h : ∃ date, Names s date then some (code h.choose) else none

theorem named_of_names {s : Str} {date : Date} (h : Names s date) : named s = some (code date : Int)
  := by
  have hexists : ∃ date, Names s date := ⟨date, h⟩
  rw [named, dif_pos hexists, names_unique hexists.choose_spec h]

theorem named_eq_none_iff {s : Str} : named s = none ↔ ¬ ∃ date, Names s date := by
  unfold named
  split <;> simp_all

/-- The truth of a comparison. It is not known for a `NULL`, and for a date and a string that names
none. -/
noncomputable def compareTruth (comp : CompOp) : Value → Value → Truth
  | .ints m, .ints n => .ofBool (comp.holds m.toInt n.toInt)
  | .dates m, .dates n => .ofBool (comp.holds m.toInt n.toInt)
  | .chars s, .chars t => .ofBool (comp.holds (letters s) (letters t))
  | .chars s, .texts t => .ofBool (comp.holds (letters s) (letters t))
  | .texts s, .chars t => .ofBool (comp.holds (letters s) (letters t))
  | .texts s, .texts t => .ofBool (comp.holds (letters s) (letters t))
  | .dates m, .chars s => .ofOption ((named s).map fun n => comp.holds m.toInt n)
  | .dates m, .texts s => .ofOption ((named s).map fun n => comp.holds m.toInt n)
  | .chars s, .dates n => .ofOption ((named s).map fun m => comp.holds m n.toInt)
  | .texts s, .dates n => .ofOption ((named s).map fun m => comp.holds m n.toInt)
  | _, _ => .unknown

/-- The sign of a comparison tells the order of two members. -/
structure IsOrderOf {α : Type} [LinearOrder α] (cmp : Int) (a b : α) : Prop where
  neg : cmp < 0 ↔ a < b
  zero : cmp = 0 ↔ a = b

theorem isOrderOf_sign (m n : Int) : IsOrderOf (m - n).sign m n where
  neg := by
    rw [Int.sign_neg_iff]
    omega
  zero := by
    rw [Int.sign_eq_zero_iff_zero]
    omega

theorem compareStr_neg : ∀ s t : Str, compareStr s t < 0 ↔ letters s < letters t
  | [], [] => by simp [compareStr]
  | [], _ :: _ => by simp [compareStr, letters, List.nil_lt_cons]
  | _ :: _, [] => by simp [compareStr, letters]
  | a :: s, b :: t => by
    have ih := compareStr_neg s t
    rw [compareStr]
    simp only [letters, List.map_cons, List.cons_lt_cons_iff, BitVec.lt_def] at ih ⊢
    split_ifs with hlt hgt
    · exact iff_of_true (by decide) (.inl hlt)
    · apply iff_of_false (by decide)
      omega
    · rw [ih]
      constructor
      · intro h
        exact .inr ⟨by omega, h⟩
      · rintro (h | ⟨-, h⟩)
        · exact absurd h hlt
        · exact h

theorem isOrderOf_compareStr (s t : Str) : IsOrderOf (compareStr s t) (letters s) (letters t) where
  neg := compareStr_neg s t
  zero := by
    rw [compareStr_eq_zero]
    exact (List.map_injective_iff.mpr fun _ _ => BitVec.eq_of_toNat_eq).eq_iff.symm

theorem isOrderOf_ofInt (F : Doubles) (m n : BitVec 32) :
  IsOrderOf (F.sign (F.ofInt m.toInt) (F.ofInt n.toInt)) m.toInt n.toInt
  := by
  rw [F.sign_ofInt]
  exact isOrderOf_sign _ _

theorem compareValue_eq (F : Doubles) (comp : CompOp) (v w : Value) :
  compareValue F comp v w = (v.compare F w).map fun cmp => comp.holds cmp 0
  := by
  cases comp <;> rfl

/-- What is made of the sign is what the comparison says of the two members. -/
theorem holds_of_isOrderOf {α : Type} [LinearOrder α] {cmp : Int} {a b : α} (comp : CompOp)
    (horder : IsOrderOf cmp a b) :
  comp.holds cmp 0 = comp.holds a b
  := by
  have hgt : 0 < cmp ↔ b < a := by
    rw [← not_le, ← not_le, le_iff_lt_or_eq, le_iff_lt_or_eq, horder.neg, horder.zero]
  cases comp <;> simp only [CompOp.holds, ← not_lt, hgt, horder.neg, horder.zero, ne_eq]

theorem compareValue_of_isOrderOf {α : Type} [LinearOrder α] {F : Doubles} {v w : Value} {cmp : Int}
    {a b : α} (comp : CompOp) (hcompare : v.compare F w = some cmp) (horder : IsOrderOf cmp a b) :
  compareValue F comp v w = some (comp.holds a b)
  := by
  rw [compareValue_eq, hcompare, Option.map_some, holds_of_isOrderOf comp horder]

/-- What `compare_value` makes of a comparison. -/
def comparedTruth (F : Doubles) (comp : CompOp) (v w : Value) : Truth :=
  .ofOption (compareValue F comp v w)

/-- A string that is compared with a date as one is read without an overflow. -/
def Value.NoOverflow : Value → Value → Prop
  | .dates _, .chars s => Sql.NoOverflow s
  | .chars s, .dates _ => Sql.NoOverflow s
  | _, _ => True

/-- A string beside a date is sound. A long text, which is compared by the number with which it
begins, names a date, and the comparison says the same of the two numbers. -/
def Value.Sound (F : Doubles) (comp : CompOp) : Value → Value → Prop
  | .dates _, .chars s => IsSound s
  | .chars s, .dates _ => IsSound s
  | .dates m, .texts s => ∃ date, Names s date
    ∧ comp.holds (F.sign (F.ofInt m.toInt) (F.stod s)) 0 = comp.holds m.toInt (code date)
  | .texts s, .dates n => ∃ date, Names s date
    ∧ comp.holds (F.sign (F.stod s) (F.ofInt n.toInt)) 0 = comp.holds (code date : Int) n.toInt
  | _, _ => True

/-- A sound string is taken for the date that it names. -/
theorem dateOf_of_isSound {s : Str} (h : IsSound s) :
  (dateOf s).map BitVec.toInt = named s
  := by
  rw [dateOf]
  split
  · rename_i hzero
    rw [Option.map_none, eq_comm, named_eq_none_iff, ← h.parseDate_ne_zero_iff, hzero]
    simp
  · rename_i hne
    obtain ⟨date, hnames⟩ := h.parseDate_ne_zero_iff.mp hne
    rw [Option.map_some, named_of_names hnames,
      (parseDate_of_names hnames (h.year_le date hnames)).2]

/-- A comparison with a string that is taken for a date is right exactly for a sound one. -/
theorem isSound_iff {s : Str} (test : Int → Bool) :
  (Truth.ofOption ((dateOf s).map fun n => test n.toInt) = .ofOption ((named s).map test)
    ∧ NoOverflow s)
    ↔ IsSound s
  := by
  constructor
  · rintro ⟨heq, hoverflow⟩
    apply isSound_of_noOverflow hoverflow
    intro hne
    by_contra hnot
    rw [named_eq_none_iff.mpr hnot, Option.map_none, eq_comm, dateOf, if_neg hne] at heq
    have hnone := Truth.ofOption_eq_unknown.mp heq.symm
    cases hnone
  · intro h
    refine ⟨?_, h.noOverflow⟩
    rw [← dateOf_of_isSound h, Option.map_map]
    rfl

/-- A comparison with a string that is compared as a number. -/
theorem named_iff {s : Str} (test : Int → Bool) (b : Bool) :
  Truth.ofOption (some b) = .ofOption ((named s).map test)
    ↔ ∃ date, Names s date ∧ b = test (code date)
  := by
  constructor
  · intro heq
    obtain ⟨date, hnames⟩ : ∃ date, Names s date := by
      by_contra hnot
      rw [named_eq_none_iff.mpr hnot] at heq
      cases Truth.ofOption_eq_unknown.mp heq
    rw [named_of_names hnames, Option.map_some] at heq
    refine ⟨date, hnames, ?_⟩
    cases b <;> cases hb : test (code date) <;> first | rfl | (rw [hb] at heq; cases heq)
  · rintro ⟨date, hnames, rfl⟩
    rw [named_of_names hnames]
    rfl

/-- A comparison is what it should be exactly if its strings are sound. -/
theorem comparedTruth_eq_iff {F : Doubles} {v w : Value} (comp : CompOp) (h : v.Comparable w) :
  (comparedTruth F comp v w = compareTruth comp v w ∧ v.NoOverflow w) ↔ v.Sound F comp w
  := by
  rw [comparedTruth]
  cases h with
  | nullLeft h => cases w <;> exact iff_of_true ⟨rfl, trivial⟩ trivial
  | nullRight h => cases v <;> exact iff_of_true ⟨rfl, trivial⟩ trivial
  | ints m n =>
    rw [compareValue_of_isOrderOf comp rfl (isOrderOf_ofInt F m n)]
    exact iff_of_true ⟨rfl, trivial⟩ trivial
  | dates m n =>
    rw [compareValue_of_isOrderOf comp rfl (isOrderOf_ofInt F m n)]
    exact iff_of_true ⟨rfl, trivial⟩ trivial
  | @strings _ _ s t hv hw =>
    have horder := isOrderOf_compareStr s t
    cases v <;> cases hv <;> cases w <;> cases hw <;>
      rw [compareValue_of_isOrderOf comp rfl horder] <;>
      exact iff_of_true ⟨rfl, trivial⟩ trivial
  | @dateString m _ s hw =>
    cases w <;> cases hw
    · rw [compareValue_eq, Value.compare, Option.map_map]
      simp only [Function.comp_def, holds_of_isOrderOf comp (isOrderOf_ofInt F m _)]
      apply isSound_iff fun n => comp.holds m.toInt n
    · rw [compareValue_eq]
      apply (and_iff_left trivial).trans
      apply named_iff fun n => comp.holds m.toInt n
  | @stringDate _ s hv n =>
    cases v <;> cases hv
    · rw [compareValue_eq, Value.compare, Option.map_map]
      simp only [Function.comp_def, holds_of_isOrderOf comp (isOrderOf_ofInt F _ n)]
      apply isSound_iff fun m => comp.holds m n.toInt
    · rw [compareValue_eq]
      apply (and_iff_left trivial).trans
      apply named_iff fun m => comp.holds m n.toInt

/-- One of the two is a `NULL`, or they are a date and a string that names none. -/
def Value.Undecided (v w : Value) : Prop :=
  v = .nulls ∨ w = .nulls
    ∨ (∃ m s, v = .dates m ∧ w.str = some s ∧ ¬ ∃ date, Names s date)
    ∨ ∃ s n, v.str = some s ∧ w = .dates n ∧ ¬ ∃ date, Names s date

theorem compareTruth_eq_unknown {v w : Value} (comp : CompOp) (h : v.Comparable w) :
  compareTruth comp v w = .unknown ↔ v.Undecided w
  := by
  rw [Value.Undecided]
  cases h with
  | nullLeft h => exact iff_of_true (by cases w <;> rfl) (.inl rfl)
  | nullRight h => exact iff_of_true (by cases v <;> rfl) (.inr (.inl rfl))
  | ints m n => simp [compareTruth, Truth.ofBool, Truth.ofOption_eq_unknown, Value.str]
  | dates m n => simp [compareTruth, Truth.ofBool, Truth.ofOption_eq_unknown, Value.str]
  | strings hv hw =>
    cases v <;> cases hv <;> cases w <;> cases hw <;>
      simp [compareTruth, Truth.ofBool, Truth.ofOption_eq_unknown]
  | dateString m hw =>
    cases w <;> cases hw <;>
      simp [compareTruth, Truth.ofOption_eq_unknown, named_eq_none_iff, Value.str]
  | stringDate hv n =>
    cases v <;> cases hv <;>
      simp [compareTruth, Truth.ofOption_eq_unknown, named_eq_none_iff, Value.str]

/-! ### Conditions -/

/-- A condition over operands of any kind. -/
inductive Condition (E : Environment) where
  | comparison (comp : CompOp) (left right : Expression E)
  | operandIsNull (operand : Expression E)
  | conjunction (type : ConjunctionType) (children : List (Condition E))
  | not (child : Condition E)
  | isNull (child : Condition E)

namespace Condition

variable {E : Environment} (tuple : E.Tuple)

mutual

/-- The expression of a condition. -/
def expression : Condition E → Expression E
  | comparison comp left right => .comparison comp left right
  | operandIsNull operand => .isNull operand
  | conjunction type children => .conjunction type (expressions children)
  | not child => .not child.expression
  | isNull child => .isNull child.expression

def expressions : List (Condition E) → List (Expression E)
  | [] => []
  | child :: children => child.expression :: expressions children

end

mutual

/-- The truth of a condition in Kleene's logic, where its operands have the values that they
have on the tuple, and `compare` tells the truth of a comparison. -/
def truthBy (compare : CompOp → Value → Value → Truth) : Condition E → Truth
  | comparison comp left right =>
    match left.getValue tuple, right.getValue tuple with
    | .ok v, .ok w => compare comp v w
    | _, _ => .unknown
  | operandIsNull operand => .ofBool (operand.getValue tuple = .ok .nulls)
  | conjunction type children => type.join (truthsBy compare children)
  | not child => (child.truthBy compare).neg
  | isNull child => .ofBool (child.truthBy compare = .unknown)

def truthsBy (compare : CompOp → Value → Value → Truth) : List (Condition E) → List Truth
  | [] => []
  | child :: children => child.truthBy compare :: truthsBy compare children

end

/-- The truth of a condition in Kleene's logic. -/
noncomputable def truth (c : Condition E) : Truth := c.truthBy tuple compareTruth

mutual

/-- The operands have values, those of a comparison can be compared, and no conjunction is
empty. -/
def Covered : Condition E → Prop
  | comparison _ left right =>
    ∃ v w, left.getValue tuple = .ok v ∧ right.getValue tuple = .ok w ∧ v.Comparable w
  | operandIsNull operand => ∃ v, operand.getValue tuple = .ok v
  | conjunction _ children => children ≠ [] ∧ AllCovered children
  | not child => child.Covered
  | isNull child => child.Covered

def AllCovered : List (Condition E) → Prop
  | [] => True
  | child :: children => child.Covered ∧ AllCovered children

end

/-- The first condition is a part of the second. -/
inductive Within : Condition E → Condition E → Prop where
  | refl (c : Condition E) : Within c c
  | conjunction (type : ConjunctionType) {children : List (Condition E)} {c child : Condition E}
      (hmem : child ∈ children) (h : Within c child) : Within c (conjunction type children)
  | not {c child : Condition E} (h : Within c child) : Within c (not child)
  | isNull {c child : Condition E} (h : Within c child) : Within c (isNull child)

/-- The strings that a comparison takes for dates are read without an overflow. -/
def NoOverflow : Condition E → Prop
  | comparison _ left right =>
    ∀ v w, left.getValue tuple = .ok v → right.getValue tuple = .ok w → v.NoOverflow w
  | _ => True

/-- `get_value` computes Kleene's logic for the condition and its parts. -/
def ComputesKleene (c : Condition E) : Prop :=
  ∀ part, Within part c → part.expression.getValue tuple = .ok (valueOf (part.truth tuple))
    ∧ part.NoOverflow tuple

variable {tuple}

mutual

/-- A condition has the value of its truth, with the comparisons of `compare_value`. -/
theorem getValue_expression : ∀ c : Condition E, c.Covered tuple →
    c.expression.getValue tuple
      = .ok (valueOf (c.truthBy tuple (comparedTruth E.library.doubles)))
  | comparison comp left right, ⟨v, w, hleft, hright, h⟩ => by
    rw [expression, Expression.getValue, truthBy, hleft, hright]
    dsimp only [bind, Except.bind, pure, Except.pure]
    rw [truthValue_eq, comparedTruth]
  | operandIsNull operand, ⟨v, hv⟩ => by
    rw [expression, Expression.getValue, truthBy, hv]
    cases v <;> rfl
  | conjunction type [], ⟨hne, _⟩ => absurd rfl hne
  | conjunction type (child :: children), ⟨_, hcovered⟩ => by
    have hvalues := getValues_expressions (child :: children) hcovered
    rw [expression, expressions, Expression.getValue, ← expressions,
      getConjunction_of_getValues type false hvalues, map_truth_valueOf, truthBy]
    rfl
  | not child, h => by
    rw [expression, Expression.getValue, getValue_expression child h, truthBy]
    cases child.truthBy tuple (comparedTruth E.library.doubles) <;> rfl
  | isNull child, h => by
    rw [expression, Expression.getValue, getValue_expression child h, truthBy]
    cases child.truthBy tuple (comparedTruth E.library.doubles) <;> rfl

theorem getValues_expressions : ∀ children : List (Condition E), AllCovered tuple children →
    Expression.getValues tuple (expressions children)
      = .ok ((truthsBy tuple (comparedTruth E.library.doubles) children).map valueOf)
  | [], _ => rfl
  | child :: children, ⟨hchild, hchildren⟩ => by
    rw [expressions, Expression.getValues, getValue_expression child hchild,
      getValues_expressions children hchildren]
    rfl

end

theorem truthsBy_eq_map (compare : CompOp → Value → Value → Truth) :
    ∀ children : List (Condition E),
      truthsBy tuple compare children = children.map (truthBy tuple compare)
  | [] => rfl
  | child :: children => by rw [truthsBy, truthsBy_eq_map compare children, List.map_cons]

theorem allCovered_iff : ∀ children : List (Condition E),
    AllCovered tuple children ↔ ∀ child ∈ children, child.Covered tuple
  | [] => by simp [AllCovered]
  | child :: children => by rw [AllCovered, allCovered_iff children, List.forall_mem_cons]

/-! ### The parts of a condition -/

variable {c c' part : Condition E}

theorem Within.trans {c₁ c₂ c₃ : Condition E} (h : Within c₁ c₂) (h' : Within c₂ c₃) :
  Within c₁ c₃
  := by
  induction h' with
  | refl c => exact h
  | conjunction type hmem _ ih => exact .conjunction type hmem (ih h)
  | not _ ih => exact .not (ih h)
  | isNull _ ih => exact .isNull (ih h)

theorem Within.covered (h : Within part c) (hc : c.Covered tuple) :
  part.Covered tuple
  := by
  induction h with
  | refl c => exact hc
  | conjunction type hmem _ ih => exact ih ((allCovered_iff _).mp hc.2 _ hmem)
  | not _ ih => exact ih hc
  | isNull _ ih => exact ih hc

/-- The truth of a condition rests on that of its comparisons. -/
theorem truthBy_congr {compare compare' : CompOp → Value → Value → Truth} :
    ∀ c : Condition E, (∀ comp left right v w, Within (comparison comp left right) c →
      left.getValue tuple = .ok v → right.getValue tuple = .ok w →
      compare comp v w = compare' comp v w) →
    c.truthBy tuple compare = c.truthBy tuple compare'
  | comparison comp left right, h => by
    rw [truthBy, truthBy]
    split
    · rename_i v w hleft hright
      exact h comp left right v w (.refl _) hleft hright
    · rfl
  | operandIsNull operand, _ => by rw [truthBy, truthBy]
  | conjunction type children, h => by
    rw [truthBy, truthBy, truthsBy_eq_map, truthsBy_eq_map]
    congr 1
    apply List.map_congr_left
    intro child hmem
    exact truthBy_congr child fun comp left right v w hwithin =>
      h comp left right v w (.conjunction type hmem hwithin)
  | not child, h => by
    rw [truthBy, truthBy, truthBy_congr child fun comp left right v w hwithin =>
      h comp left right v w (.not hwithin)]
  | isNull child, h => by
    rw [truthBy, truthBy, truthBy_congr child fun comp left right v w hwithin =>
      h comp left right v w (.isNull hwithin)]

theorem valueOf_injective : Function.Injective valueOf := by
  intro t u h
  cases t <;> cases u <;> first | rfl | cases h

/-- Kleene's logic is computed exactly if the comparisons in the condition are right. -/
theorem computesKleene_iff (hc : c.Covered tuple) :
  c.ComputesKleene tuple ↔ ∀ comp left right v w, Within (comparison comp left right) c →
    left.getValue tuple = .ok v → right.getValue tuple = .ok w →
    v.Sound E.library.doubles comp w
  := by
  constructor
  · intro h comp left right v w hwithin hleft hright
    obtain ⟨hvalue, hoverflow⟩ := h _ hwithin
    have hcovered := hwithin.covered hc
    rw [getValue_expression _ hcovered, truth, truthBy, truthBy, hleft, hright] at hvalue
    obtain ⟨v', w', hleft', hright', hcomparable⟩ := hcovered
    rw [hleft] at hleft'
    rw [hright] at hright'
    cases hleft'
    cases hright'
    exact (comparedTruth_eq_iff comp hcomparable).mp
      ⟨valueOf_injective (Except.ok.inj hvalue), hoverflow v w hleft hright⟩
  · intro h part hwithin
    have hright : ∀ comp left right v w, Within (comparison comp left right) part →
        left.getValue tuple = .ok v → right.getValue tuple = .ok w →
        comparedTruth E.library.doubles comp v w = compareTruth comp v w ∧ v.NoOverflow w := by
      intro comp left right v w hcomparison hleft hright
      have hwithin' := hcomparison.trans hwithin
      obtain ⟨v', w', hleft', hright', hcomparable⟩ := hwithin'.covered hc
      rw [hleft] at hleft'
      rw [hright] at hright'
      cases hleft'
      cases hright'
      exact (comparedTruth_eq_iff comp hcomparable).mpr
        (h comp left right v w hwithin' hleft hright)
    constructor
    · rw [getValue_expression part (hwithin.covered hc), truth, truthBy_congr part]
      intro comp left right v w hcomparison hleft hright'
      exact (hright comp left right v w hcomparison hleft hright').1
    · cases part with
      | comparison comp left right =>
        intro v w hleft hright'
        exact (hright comp left right v w (.refl _) hleft hright').2
      | _ => trivial

/-! ### The order of the children -/

/-- The two conditions differ in the order of the children of their conjunctions. -/
inductive Reordered : Condition E → Condition E → Prop where
  | refl (c : Condition E) : Reordered c c
  | trans {c c' c'' : Condition E} (h : Reordered c c') (h' : Reordered c' c'') : Reordered c c''
  | perm (type : ConjunctionType) {children children' : List (Condition E)}
      (h : children.Perm children') :
      Reordered (conjunction type children) (conjunction type children')
  | child (type : ConjunctionType) (front rest : List (Condition E)) {c c' : Condition E}
      (h : Reordered c c') :
      Reordered (conjunction type (front ++ c :: rest)) (conjunction type (front ++ c' :: rest))
  | not {c c' : Condition E} (h : Reordered c c') : Reordered (not c) (not c')
  | isNull {c c' : Condition E} (h : Reordered c c') : Reordered (isNull c) (isNull c')

theorem Reordered.truthBy_eq {c c' : Condition E} (h : Reordered c c')
    (compare : CompOp → Value → Value → Truth) :
  c.truthBy tuple compare = c'.truthBy tuple compare
  := by
  induction h with
  | refl c => rfl
  | trans h h' ih ih' => rw [ih, ih']
  | perm type h =>
    rw [truthBy, truthBy, truthsBy_eq_map, truthsBy_eq_map]
    exact type.join_perm (h.map _)
  | child type front rest h ih =>
    rw [truthBy, truthBy, truthsBy_eq_map, truthsBy_eq_map]
    simp only [List.map_append, List.map_cons, ih]
  | not h ih => rw [truthBy, truthBy, ih]
  | isNull h ih => rw [truthBy, truthBy, ih]

theorem Reordered.covered {c c' : Condition E} (h : Reordered c c') (hc : c.Covered tuple) :
  c'.Covered tuple
  := by
  induction h with
  | refl c => exact hc
  | trans h h' ih ih' => exact ih' (ih hc)
  | perm type h =>
    rw [Covered, allCovered_iff] at hc ⊢
    obtain ⟨hne, hall⟩ := hc
    constructor
    · intro hnil
      rw [hnil] at h
      exact hne h.eq_nil
    · intro child hmem
      exact hall child (h.mem_iff.mpr hmem)
  | @child type front rest c c' h ih =>
    rw [Covered, allCovered_iff] at hc ⊢
    obtain ⟨-, hall⟩ := hc
    simp only [List.forall_mem_append, List.forall_mem_cons] at hall ⊢
    exact ⟨by simp, hall.1, ih hall.2.1, hall.2.2⟩
  | not h ih => exact ih hc
  | isNull h ih => exact ih hc

/-- The string `2024-01-31`. -/
def january31 : Str := [50, 48, 50, 52, 45, 48, 49, 45, 51, 49]

theorem names_january31 :
  Names january31 (Calendar.IsDate.toDate (by decide : Calendar.IsDate 2024 1 31))
  := ⟨[50, 48, 50, 52], [48, 49], [51, 49], rfl, ⟨by decide, by decide, by decide⟩,
    ⟨by decide, by decide, by decide⟩, ⟨by decide, by decide, by decide⟩⟩

/-- A letter is no date. -/
theorem isSound_letter :
  IsSound [120]
  := by
  constructor
  · intro date hnames
    obtain hb | hb := isDigit_or_dash_of_names hnames 120 (by decide)
    · cases hb
    · cases hb
  · intro date hbegins
    cases (reads_iff_begins.mpr hbegins).2

end Condition

end MiniOB.Sql
