import MiniOB.Sql.Join
import MiniOB.Sql.ThreeValued

/-!
# Values as keys

`std::less` of `Value` and of `vector<Value>` of `sql/parser/value.h`, by which maps and sets are
ordered, and `Value::operator==`.
-/

namespace MiniOB.Sql

/-- `Value::operator==`. -/
def Value.equal (F : Doubles) (v w : Value) : Bool :=
  if v.attrType = .nulls ∧ w.attrType = .nulls then true
  else
    match v.compare F w with
    | some cmp => cmp = 0
    | none => false

variable (F : Doubles)

/-- The loop of `std::less<vector<Value>>` over the components of two keys. -/
def lessComponents : List Value → List Value → Bool
  | v :: lhs, w :: rhs => if v.equal F w then lessComponents lhs rhs else less F v w
  | _, _ => false

/-- `std::less<vector<Value>>`. -/
def lessKeys (lhs rhs : List Value) : Bool :=
  if lhs.length ≠ rhs.length then lhs.length < rhs.length else lessComponents F lhs rhs

/-- `operator==` of two keys. -/
def equalKeys : List Value → List Value → Bool
  | [], [] => true
  | v :: lhs, w :: rhs => v.equal F w && equalKeys lhs rhs
  | _, _ => false

/-! ### What a map asks of its keys -/

/-- The order is a strict weak one on these keys, and those of which none is less are the equal
ones. -/
structure IsKeyOrder {κ : Type} (less equal : κ → κ → Bool) (keys : Set κ) : Prop where
  strictWeak : IsStrictWeakOrder keys fun a b => less a b = true
  incomparable : ∀ a ∈ keys, ∀ b ∈ keys,
    (less a b = false ∧ less b a = false) ↔ equal a b = true

/-- An order by ranks is one. -/
theorem isKeyOrder_of_rank {κ ι : Type} [LinearOrder ι] {less equal : κ → κ → Bool} {keys : Set κ}
    (rank : κ → ι) (hless : ∀ a ∈ keys, ∀ b ∈ keys, less a b = true ↔ rank a < rank b)
    (hequal : ∀ a ∈ keys, ∀ b ∈ keys, equal a b = true ↔ rank a = rank b) :
  IsKeyOrder less equal keys
  := by
  constructor
  · have hrel : (fun a b : keys => less a b = true)
        = Order.Preimage (fun a : keys => rank a) (· < ·) := by
      ext a b
      exact hless a a.2 b b.2
    have hlt : IsStrictWeakOrder ι (· < ·) := isStrictWeakOrder_of_isOrderConnected
    rw [hrel]
    infer_instance
  · intro a ha b hb
    rw [hequal a ha b hb, ← Bool.not_eq_true, ← Bool.not_eq_true, hless a ha b hb,
      hless b hb a ha]
    constructor
    · rintro ⟨hab, hba⟩
      exact le_antisymm (not_lt.mp hba) (not_lt.mp hab)
    · intro h
      rw [h]
      exact ⟨lt_irrefl _, lt_irrefl _⟩

/-! ### The rank of a value -/

/-- The number of a value of `INTS`, `BOOLEANS` or `DATES`. -/
def Value.number : Value → Option (BitVec 32)
  | ints n => some n
  | booleans b => some (if b then 1 else 0)
  | dates n => some n
  | _ => none

/-- The place of a value among those of its type: `NULL` first, then the numbers and the strings
in their order. -/
def Value.rank : Value → WithBot (ℤ ×ₗ List ℕ)
  | chars s => (toLex (0, letters s) : ℤ ×ₗ List ℕ)
  | v =>
    match v.number with
    | some n => (toLex (n.toInt, []) : ℤ ×ₗ List ℕ)
    | none => ⊥

variable {F} {v w : Value}

/-- The sign of a comparison tells the order of the ranks. -/
def IsRanked (F : Doubles) (v w : Value) : Prop :=
  ∃ cmp, v.compare F w = some cmp ∧ IsOrderOf cmp v.rank w.rank

theorem isOrderOf_toLex {cmp : Int} {m n : Int} (h : IsOrderOf cmp m n) (s : List ℕ) :
  IsOrderOf cmp ((toLex (m, s) : ℤ ×ₗ List ℕ) : WithBot (ℤ ×ₗ List ℕ))
    (toLex (n, s) : ℤ ×ₗ List ℕ)
  := by
  constructor
  · rw [h.neg, WithBot.coe_lt_coe, Prod.Lex.toLex_lt_toLex]
    simp
  · rw [h.zero, WithBot.coe_inj, toLex_inj, Prod.mk.injEq]
    simp

theorem rank_of_number {n : BitVec 32} (h : v.number = some n) :
  v.rank = (toLex (n.toInt, []) : ℤ ×ₗ List ℕ)
  := by
  cases v <;> cases h <;> rfl

theorem getDouble_of_number {n : BitVec 32} (h : v.number = some n) :
  v.getDouble F = some (F.ofInt n.toInt)
  := by
  cases v with
  | ints m => cases h; rfl
  | dates m => cases h; rfl
  | booleans b => cases h; cases b <;> rfl
  | _ => cases h

theorem compare_of_number {m n : BitVec 32} (hv : v.number = some m) (hw : w.number = some n) :
  v.compare F w = some (F.sign (F.ofInt m.toInt) (F.ofInt n.toInt))
  := by
  have hleft := getDouble_of_number (F := F) hv
  have hright := getDouble_of_number (F := F) hw
  cases v <;> cases hv <;> cases w <;> cases hw <;> simp only [Value.compare, hleft, hright]

/-- Two numbers are compared as such, whatever their types. -/
theorem isRanked_number {m n : BitVec 32} (hv : v.number = some m) (hw : w.number = some n) :
  IsRanked F v w
  := by
  refine ⟨_, compare_of_number hv hw, ?_⟩
  rw [rank_of_number hv, rank_of_number hw]
  exact isOrderOf_toLex (isOrderOf_ofInt F m n) []

/-- So are two strings. -/
theorem isRanked_chars (s t : Str) :
  IsRanked F (.chars s) (.chars t)
  := by
  have horder := isOrderOf_compareStr s t
  refine ⟨compareStr s t, rfl, ?_, ?_⟩
  · rw [horder.neg, Value.rank, Value.rank, WithBot.coe_lt_coe, Prod.Lex.toLex_lt_toLex]
    simp
  · rw [horder.zero, Value.rank, Value.rank, WithBot.coe_inj, toLex_inj, Prod.mk.injEq]
    simp

theorem less_of_isRanked (h : IsRanked F v w) :
  less F v w = true ↔ v.rank < w.rank
  := by
  obtain ⟨cmp, hcompare, horder⟩ := h
  rw [less, hcompare, ← horder.neg]
  simp

theorem equal_of_isRanked (h : IsRanked F v w) :
  v.equal F w = true ↔ v.rank = w.rank
  := by
  obtain ⟨cmp, hcompare, horder⟩ := h
  have hnulls : ¬ (v.attrType = .nulls ∧ w.attrType = .nulls) := by
    rintro ⟨hv, -⟩
    cases v <;> cases hv
    cases w <;> cases hcompare
  rw [Value.equal, if_neg hnulls, hcompare, ← horder.zero]
  simp

/-! ### The orders of values -/

/-- The types of keys: `INTS`, `BOOLEANS`, `DATES`, `CHARS` and `NULLS`. -/
def keyTypes : Set AttrType := {.ints, .booleans, .dates, .chars, .nulls}

/-- Numbers, strings and `NULL`s are not mixed. -/
def Unmixed (types : Set AttrType) : Prop :=
  types ⊆ {.ints, .booleans, .dates} ∨ types ⊆ {.chars} ∨ types ⊆ {.nulls}

theorem number_of_attrType (h : v.attrType ∈ ({.ints, .booleans, .dates} : Set AttrType)) :
  ∃ n, v.number = some n
  := by
  cases v with
  | ints n => exact ⟨n, rfl⟩
  | booleans b => exact ⟨_, rfl⟩
  | dates n => exact ⟨n, rfl⟩
  | _ => simp [Value.attrType] at h

theorem chars_of_attrType (h : v.attrType = .chars) :
  ∃ s, v = .chars s
  := by
  cases v <;> cases h
  exact ⟨_, rfl⟩

theorem isRanked_of_unmixed {types : Set AttrType} (h : Unmixed types) (hv : v.attrType ∈ types)
    (hw : w.attrType ∈ types) :
  IsRanked F v w ∨ v = .nulls ∧ w = .nulls
  := by
  obtain h | h | h := h
  · obtain ⟨m, hm⟩ := number_of_attrType (h hv)
    obtain ⟨n, hn⟩ := number_of_attrType (h hw)
    left
    exact isRanked_number hm hn
  · obtain ⟨s, rfl⟩ := chars_of_attrType (h hv)
    obtain ⟨t, rfl⟩ := chars_of_attrType (h hw)
    left
    exact isRanked_chars s t
  · right
    exact ⟨Value.eq_nulls (h hv), Value.eq_nulls (h hw)⟩

theorem isKeyOrder_of_unmixed {types : Set AttrType} (h : Unmixed types) :
  IsKeyOrder (less F) (Value.equal F) {v | v.attrType ∈ types}
  := by
  apply isKeyOrder_of_rank Value.rank
  · intro v hv w hw
    obtain hranked | ⟨rfl, rfl⟩ := isRanked_of_unmixed h hv hw
    · exact less_of_isRanked hranked
    · exact iff_of_false Bool.false_ne_true (lt_irrefl _)
  · intro v hv w hw
    obtain hranked | ⟨rfl, rfl⟩ := isRanked_of_unmixed h hv hw
    · exact equal_of_isRanked hranked
    · exact iff_of_true rfl rfl

/-- Two values that cannot be compared are no keys of one map, but for two `NULL`s. -/
theorem not_isKeyOrder_of_compare {values : Set Value} (hv : v ∈ values) (hw : w ∈ values)
    (hcompare : v.compare F w = none) (hcompare' : w.compare F v = none) (hne : v ≠ .nulls) :
  ¬ IsKeyOrder (less F) (Value.equal F) values
  := by
  intro h
  have hequal := (h.incomparable v hv w hw).mp ⟨by rw [less, hcompare], by rw [less, hcompare']⟩
  rw [Value.equal, hcompare, if_neg] at hequal
  · cases hequal
  · rintro ⟨hnulls, -⟩
    exact hne (Value.eq_nulls hnulls)

theorem compare_nulls (v : Value) :
  v.compare F .nulls = none ∧ Value.nulls.compare F v = none
  := by
  cases v <;> exact ⟨rfl, rfl⟩

/-- `std::stod` reads the number one from both strings. -/
structure ReadsOne (F : Doubles) : Prop where
  one : F.stod [49] = F.ofInt 1
  zeroOne : F.stod [48, 49] = F.ofInt 1

/-- A number between two strings that are read as it. -/
theorem not_isKeyOrder_of_number {values : Set Value} (hF : ReadsOne F)
    (hone : .chars [49] ∈ values) (hzeroOne : .chars [48, 49] ∈ values) (hv : v ∈ values)
    (hnumber : v = .ints 1 ∨ v = .booleans true) :
  ¬ IsKeyOrder (less F) (Value.equal F) values
  := by
  intro h
  have hsign : F.sign (F.ofInt 1) (F.ofInt 1) = 0 := F.sign_ofInt 1 1
  have hless : ∀ s, F.stod s = F.ofInt 1 →
      less F (.chars s) v = false ∧ less F v (.chars s) = false := by
    intro s hs
    obtain rfl | rfl := hnumber
    · constructor
      · change decide (F.sign (F.stod s) (F.ofInt 1) < 0) = false
        rw [hs, hsign]
        rfl
      · change decide (F.sign (F.ofInt 1) (F.stod s) < 0) = false
        rw [hs, hsign]
        rfl
    · constructor
      · change decide (F.sign (F.stod s) (F.ofInt 1) < 0) = false
        rw [hs, hsign]
        rfl
      · change decide (F.sign (F.ofInt 1) (F.stod s) < 0) = false
        rw [hs, hsign]
        rfl
  obtain ⟨hleft, hleft'⟩ := hless _ hF.one
  obtain ⟨hright, hright'⟩ := hless _ hF.zeroOne
  have htrans := h.strictWeak.incomp_trans ⟨_, hone⟩ ⟨v, hv⟩ ⟨_, hzeroOne⟩
    ⟨ne_true_of_eq_false hleft, ne_true_of_eq_false hleft'⟩
    ⟨ne_true_of_eq_false hright', ne_true_of_eq_false hright⟩
  exact htrans.2 rfl

/-- The types of a map of values have to be unmixed. -/
theorem unmixed_of_isKeyOrder {types : Set AttrType} (hF : ReadsOne F) (htypes : types ⊆ keyTypes)
    (h : IsKeyOrder (less F) (Value.equal F) {v | v.attrType ∈ types}) :
  Unmixed types
  := by
  have hvalue : ∀ type ∈ types, ∃ v : Value, v.attrType = type := by
    intro type htype
    obtain rfl | rfl | rfl | rfl | rfl := htypes htype
    · exact ⟨.ints 0, rfl⟩
    · exact ⟨.booleans true, rfl⟩
    · exact ⟨.dates 0, rfl⟩
    · exact ⟨.chars [], rfl⟩
    · exact ⟨.nulls, rfl⟩
  obtain hnulls | hnulls := em (.nulls ∈ types)
  · right; right
    intro type htype
    by_contra hne
    obtain ⟨v, rfl⟩ := hvalue type htype
    apply not_isKeyOrder_of_compare htype hnulls (compare_nulls v).1 (compare_nulls v).2 _ h
    rintro rfl
    exact hne rfl
  obtain hchars | hchars := em (.chars ∈ types)
  · right; left
    intro type htype
    obtain rfl | rfl | rfl | rfl | rfl := htypes htype
    · exact absurd h (not_isKeyOrder_of_number hF hchars hchars htype (.inl rfl))
    · exact absurd h (not_isKeyOrder_of_number hF hchars hchars htype (.inr rfl))
    · apply absurd h
      apply not_isKeyOrder_of_compare (v := .dates 0) (w := .chars [97]) htype hchars rfl rfl
      intro hdates
      cases hdates
    · rfl
    · exact absurd htype hnulls
  · left
    intro type htype
    obtain rfl | rfl | rfl | rfl | rfl := htypes htype
    · simp
    · simp
    · simp
    · exact absurd htype hchars
    · exact absurd htype hnulls

/-! ### The orders of vectors -/

/-- The types of the columns of a key. -/
def columnTypes : Set AttrType := {.ints, .booleans, .dates, .chars}

/-- The values of a key have the types of the columns or are `NULL`. -/
def InColumns (types : Nat → AttrType) (key : List Value) : Prop :=
  ∀ i, ∀ v ∈ key[i]?, v.attrType = types i ∨ v = .nulls

/-- Where the two first differ, one of them has a `NULL`. -/
def NullApart : List Value → List Value → Prop
  | v :: a, w :: b => if v = w then NullApart a b else v = .nulls ∨ w = .nulls
  | _, _ => False

variable {type : AttrType} {types : Nat → AttrType} {a b : List Value}

theorem isRanked_of_attrType (htype : type ∈ columnTypes) (hv : v.attrType = type)
    (hw : w.attrType = type) :
  IsRanked F v w
  := by
  have hunmixed : Unmixed {type} := by
    obtain rfl | rfl | rfl | rfl := htype
    · left; simp
    · left; simp
    · left; simp
    · right; left; rfl
  obtain h | ⟨rfl, -⟩ := isRanked_of_unmixed (F := F) hunmixed hv hw
  · exact h
  · subst hv
    simp [columnTypes, Value.attrType] at htype

theorem rank_ne_bot (htype : type ∈ columnTypes) (hv : v.attrType = type) :
  v.rank ≠ ⊥
  := by
  cases v with
  | ints n => exact WithBot.coe_ne_bot
  | booleans b => exact WithBot.coe_ne_bot
  | dates n => exact WithBot.coe_ne_bot
  | chars s => exact WithBot.coe_ne_bot
  | _ => subst hv; simp [columnTypes, Value.attrType] at htype

theorem toLex_coe_inj {m n : ℤ} {s t : List ℕ}
    (h : ((toLex (m, s) : ℤ ×ₗ List ℕ) : WithBot (ℤ ×ₗ List ℕ)) = (toLex (n, t) : ℤ ×ₗ List ℕ)) :
  m = n ∧ s = t
  := Prod.mk.inj (toLex_inj.mp (WithBot.coe_inj.mp h))

/-- Values of one type are told apart by their ranks. -/
theorem eq_of_rank (htype : type ∈ columnTypes) (hv : v.attrType = type) (hw : w.attrType = type)
    (h : v.rank = w.rank) :
  v = w
  := by
  subst hv
  cases v with
  | ints m =>
    cases w <;> cases hw
    rw [BitVec.eq_of_toInt_eq (toLex_coe_inj h).1]
  | booleans b =>
    cases w <;> cases hw
    rename_i c
    cases b <;> cases c <;> first | rfl | exact absurd (toLex_coe_inj h).1 (by decide)
  | dates m =>
    cases w <;> cases hw
    rw [BitVec.eq_of_toInt_eq (toLex_coe_inj h).1]
  | chars s =>
    cases w <;> cases hw
    rw [List.map_injective_iff.mpr (fun _ _ => BitVec.eq_of_toNat_eq) (toLex_coe_inj h).2]
  | _ => simp [columnTypes, Value.attrType] at htype

theorem InColumns.cons (h : InColumns types (v :: a)) :
  (v.attrType = types 0 ∨ v = .nulls) ∧ InColumns (fun i => types (i + 1)) a
  := by
  constructor
  · exact h 0 v rfl
  · intro i w hw
    apply h (i + 1) w
    rwa [List.getElem?_cons_succ]

/-- Two values of a column are equal in every sense at once. -/
theorem equal_iff_of_column (htype : type ∈ columnTypes) (hv : v.attrType = type ∨ v = .nulls)
    (hw : w.attrType = type ∨ w = .nulls) :
  (v.equal F w = true ↔ v = w) ∧ (v.rank = w.rank ↔ v = w)
  := by
  have hnull : ∀ u : Value, u.attrType = type → u ≠ .nulls := by
    rintro u hu rfl
    exact rank_ne_bot htype hu rfl
  obtain hv | rfl := hv
  · obtain hw | rfl := hw
    · have hranked := isRanked_of_attrType (F := F) htype hv hw
      have hrank : v.rank = w.rank ↔ v = w := by
        constructor
        · exact eq_of_rank htype hv hw
        · rintro rfl
          rfl
      exact ⟨(equal_of_isRanked hranked).trans hrank, hrank⟩
    · constructor
      · rw [Value.equal, (compare_nulls v).1, if_neg]
        · exact iff_of_false (by simp) (hnull v hv)
        · rintro ⟨hnulls, -⟩
          exact hnull v hv (Value.eq_nulls hnulls)
      · exact iff_of_false (rank_ne_bot htype hv) (hnull v hv)
  · obtain hw | rfl := hw
    · constructor
      · rw [Value.equal, (compare_nulls w).2, if_neg]
        · exact iff_of_false (by simp) (hnull w hw).symm
        · rintro ⟨-, hnulls⟩
          exact hnull w hw (Value.eq_nulls hnulls)
      · exact iff_of_false (rank_ne_bot htype hw).symm (hnull w hw).symm
    · exact ⟨iff_of_true rfl rfl, iff_of_true rfl rfl⟩

theorem equalKeys_iff : ∀ {a b : List Value} {types : Nat → AttrType},
    (∀ i, types i ∈ columnTypes) → InColumns types a → InColumns types b →
    (equalKeys F a b = true ↔ a.map Value.rank = b.map Value.rank)
  | [], [], _, _, _, _ => iff_of_true rfl rfl
  | [], _ :: _, _, _, _, _ => iff_of_false Bool.false_ne_true (by simp)
  | _ :: _, [], _, _, _, _ => iff_of_false Bool.false_ne_true (by simp)
  | v :: a, w :: b, types, htypes, ha, hb => by
    have ih := equalKeys_iff (fun i => htypes (i + 1)) ha.cons.2 hb.cons.2
    obtain ⟨hequal, hrank⟩ := equal_iff_of_column (F := F) (htypes 0) ha.cons.1 hb.cons.1
    rw [equalKeys, Bool.and_eq_true, hequal, ih, List.map_cons, List.map_cons, List.cons.injEq,
      hrank]

/-- Without a `NULL` at the first difference the keys are ordered like the ranks. -/
theorem lessComponents_iff : ∀ {a b : List Value} {types : Nat → AttrType},
    (∀ i, types i ∈ columnTypes) → InColumns types a → InColumns types b →
    a.length = b.length → ¬ NullApart a b →
    (lessComponents F a b = true ↔ a.map Value.rank < b.map Value.rank)
  | [], [], _, _, _, _, _, _ => iff_of_false Bool.false_ne_true (by simp)
  | [], _ :: _, _, _, _, _, hlen, _ => by simp at hlen
  | _ :: _, [], _, _, _, _, hlen, _ => by simp at hlen
  | v :: a, w :: b, types, htypes, ha, hb, hlen, hnull => by
    obtain ⟨hequal, hrank⟩ := equal_iff_of_column (F := F) (htypes 0) ha.cons.1 hb.cons.1
    rw [lessComponents, List.map_cons, List.map_cons, List.cons_lt_cons_iff, hrank]
    rw [NullApart] at hnull
    obtain rfl | hne := eq_or_ne v w
    · rw [if_pos rfl] at hnull
      have ih := lessComponents_iff (fun i => htypes (i + 1)) ha.cons.2 hb.cons.2
        (Nat.succ.inj hlen) hnull
      rw [if_pos (hequal.mpr rfl), ih]
      simp
    · rw [if_neg hne, not_or] at hnull
      have hranked := isRanked_of_attrType (F := F) (htypes 0)
        (ha.cons.1.resolve_right hnull.1) (hb.cons.1.resolve_right hnull.2)
      rw [if_neg (fun h => hne (hequal.mp h)), less_of_isRanked hranked]
      simp [hne]

/-- With a `NULL` there, none of the two keys is less, and they are not equal. -/
theorem not_less_of_nullApart : ∀ {a b : List Value} {types : Nat → AttrType},
    (∀ i, types i ∈ columnTypes) → InColumns types a → InColumns types b → NullApart a b →
    lessComponents F a b = false ∧ lessComponents F b a = false ∧ equalKeys F a b = false
  | [], _, _, _, _, _, h => by simp [NullApart] at h
  | _ :: _, [], _, _, _, _, h => by simp [NullApart] at h
  | v :: a, w :: b, types, htypes, ha, hb, h => by
    have hequal := (equal_iff_of_column (F := F) (htypes 0) ha.cons.1 hb.cons.1).1
    have hequal' := (equal_iff_of_column (F := F) (htypes 0) hb.cons.1 ha.cons.1).1
    rw [NullApart] at h
    rw [lessComponents, lessComponents, equalKeys]
    obtain rfl | hne := eq_or_ne v w
    · rw [if_pos rfl] at h
      obtain ⟨hless, hless', hkeys⟩ :=
        not_less_of_nullApart (fun i => htypes (i + 1)) ha.cons.2 hb.cons.2 h
      rw [if_pos (hequal.mpr rfl), if_pos (hequal.mpr rfl), hless, hless', hkeys, Bool.and_false]
      exact ⟨rfl, rfl, rfl⟩
    · rw [if_neg hne] at h
      have hcompare : v.compare F w = none ∧ w.compare F v = none := by
        obtain rfl | rfl := h
        · exact ⟨(compare_nulls w).2, (compare_nulls w).1⟩
        · exact compare_nulls v
      have hfalse : v.equal F w = false := by
        rw [← Bool.not_eq_true, hequal]
        exact hne
      rw [if_neg (fun h => hne (hequal.mp h)), if_neg (fun h => hne (hequal'.mp h).symm), hfalse,
        less, less, hcompare.1, hcompare.2]
      exact ⟨rfl, rfl, rfl⟩

/-- A set of vectors with the same columns is ordered like a map asks exactly if no two of them
that are as long first differ where one of them has a `NULL`. -/
theorem isKeyOrder_lessKeys_iff {keys : Set (List Value)} (htypes : ∀ i, types i ∈ columnTypes)
    (hkeys : ∀ key ∈ keys, InColumns types key) :
  IsKeyOrder (lessKeys F) (equalKeys F) keys
    ↔ ∀ a ∈ keys, ∀ b ∈ keys, a.length = b.length → ¬ NullApart a b
  := by
  constructor
  · intro h a ha b hb hlen hnull
    obtain ⟨hless, hless', hequal⟩ :=
      not_less_of_nullApart (F := F) htypes (hkeys a ha) (hkeys b hb) hnull
    have hincomparable := (h.incomparable a ha b hb).mp
      ⟨by rw [lessKeys, if_neg (not_not.mpr hlen), hless],
        by rw [lessKeys, if_neg (not_not.mpr hlen.symm), hless']⟩
    rw [hequal] at hincomparable
    cases hincomparable
  · intro h
    apply isKeyOrder_of_rank
      fun key => (toLex (key.length, key.map Value.rank) : ℕ ×ₗ List (WithBot (ℤ ×ₗ List ℕ)))
    · intro a ha b hb
      rw [lessKeys, Prod.Lex.toLex_lt_toLex]
      obtain hlen | hlen := eq_or_ne a.length b.length
      · rw [if_neg (not_not.mpr hlen), lessComponents_iff htypes (hkeys a ha) (hkeys b hb) hlen
          (h a ha b hb hlen)]
        simp [hlen]
      · rw [if_pos hlen]
        simp [hlen]
    · intro a ha b hb
      rw [equalKeys_iff htypes (hkeys a ha) (hkeys b hb), toLex_inj, Prod.mk.injEq]
      constructor
      · intro hmap
        have hlen := congrArg List.length hmap
        rw [List.length_map, List.length_map] at hlen
        exact ⟨hlen, hmap⟩
      · exact And.right

/-- The orders of values and of vectors are those that a map asks for, exactly if numbers,
strings and `NULL`s are not mixed, and a `NULL` is no first difference. -/
theorem isKeyOrder_iff (hF : ReadsOne F) :
  (∀ types : Set AttrType, types ⊆ keyTypes →
    (IsKeyOrder (less F) (Value.equal F) {v | v.attrType ∈ types} ↔ Unmixed types))
    ∧ ∀ (types : Nat → AttrType) (keys : Set (List Value)), (∀ i, types i ∈ columnTypes) →
      (∀ key ∈ keys, InColumns types key) →
      (IsKeyOrder (lessKeys F) (equalKeys F) keys
        ↔ ∀ a ∈ keys, ∀ b ∈ keys, a.length = b.length → ¬ NullApart a b)
  := by
  constructor
  · intro types htypes
    exact ⟨unmixed_of_isKeyOrder hF htypes, isKeyOrder_of_unmixed⟩
  · intro types keys htypes hkeys
    apply isKeyOrder_lessKeys_iff htypes hkeys

theorem readsOne_exactDoubles :
  ReadsOne exactDoubles
  where
  one := rfl
  zeroOne := rfl

/-- Numbers of different types, and keys that are not as long. -/
theorem isKeyOrder_iff_exactDoubles :
  IsKeyOrder (less exactDoubles) (Value.equal exactDoubles)
      {v | v.attrType ∈ ({.ints, .dates} : Set AttrType)}
    ∧ IsKeyOrder (lessKeys exactDoubles) (equalKeys exactDoubles) {[.nulls], [.nulls, .ints 1]}
  := by
  obtain ⟨hvalues, hkeys⟩ := isKeyOrder_iff readsOne_exactDoubles
  constructor
  · rw [hvalues]
    · left
      rintro type (rfl | rfl) <;> simp
    · rintro type (rfl | rfl) <;> simp [keyTypes]
  · rw [hkeys fun _ => .ints]
    · rintro a (rfl | rfl) b (rfl | rfl) hlen
      · simp [NullApart]
      · simp at hlen
      · simp at hlen
      · simp [NullApart]
    · simp [columnTypes]
    · rintro key (rfl | rfl) i v hv
      · match i, hv with
        | 0, rfl => right; rfl
      · match i, hv with
        | 0, rfl => right; rfl
        | 1, rfl => left; rfl

/-- A `NULL` and a number are told apart by `operator==` alone. -/
theorem isKeyOrder_fails :
  ¬ IsKeyOrder (less exactDoubles) (Value.equal exactDoubles) {v | v.attrType ∈ keyTypes}
  := by
  apply not_isKeyOrder_of_compare (v := .ints 0) (w := .nulls)
  · simp [keyTypes, Value.attrType]
  · simp [keyTypes, Value.attrType]
  · rfl
  · rfl
  · intro h
    cases h

end MiniOB.Sql
