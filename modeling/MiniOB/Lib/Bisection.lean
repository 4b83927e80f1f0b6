import MiniOB.Lib.LowerBound

/-!
# Bisection

The search for the first of `n` positions at which a sign is not negative, which ends at once
where the sign is zero. It is right if the signs ascend: negative ones come first, and zero
occurs at most once. Signs ascend if they compare the elements of an increasing sequence with a
value.
-/

namespace Bisection

universe u v

/-! ### Searching -/

/-- Search the `count` positions from `first` on. The second component says whether the sign is
zero at the position that is found. -/
def search (sign : Nat → Int) (first count : Nat) : Nat × Bool :=
  if 0 < count then
    let middle := first + count / 2
    if sign middle = 0 then (middle, true)
    else if sign middle < 0 then search sign (middle + 1) (count - (count / 2 + 1))
    else search sign first (count / 2)
  else (first, false)
termination_by count
decreasing_by all_goals omega

/-- The signs before `m` are negative, those behind it positive. -/
structure Parts (sign : Nat → Int) (n m : Nat) : Prop where
  le : m ≤ n
  before : ∀ i < m, sign i < 0
  here : m < n → 0 ≤ sign m
  behind : ∀ i, m < i → i < n → 0 < sign i

/-- Before a sign that is not positive all signs are negative. -/
def Ascending (sign : Nat → Int) (n : Nat) : Prop :=
  ∀ i j, i < j → j < n → sign j ≤ 0 → sign i < 0

section Search

variable {sign : Nat → Int} {n m first count : Nat}

theorem Ascending.exists_parts (h : Ascending sign n) : ∃ m, Parts sign n m := by
  induction n with
  | zero => exact ⟨0, Nat.le_refl 0, by simp, by simp, by simp⟩
  | succ n ih =>
    obtain ⟨m, hm⟩ := ih fun i j hij hj => h i j hij (Nat.lt_succ_of_lt hj)
    obtain rfl | hlt := Nat.eq_or_lt_of_le hm.le
    · by_cases hneg : sign m < 0
      · -- the new sign is negative like all the others
        refine ⟨m + 1, Nat.le_refl _, ?_, by simp, by omega⟩
        intro i hi
        obtain rfl | hi := Nat.eq_or_lt_of_le (Nat.le_of_lt_succ hi)
        · exact hneg
        · exact hm.before i hi
      · exact ⟨m, Nat.le_succ m, hm.before, fun _ => not_lt.mp hneg, by omega⟩
    · refine ⟨m, hm.le.trans (Nat.le_succ n), hm.before, fun _ => hm.here hlt, ?_⟩
      intro i hi hin
      by_contra hneg
      exact absurd (h m i hi hin (not_lt.mp hneg)) (not_lt.mpr (hm.here hlt))

/-- The parts of the positions from 1 on. -/
theorem Parts.from_one (h : Parts (fun i => sign (1 + i)) (n - 1) m) :
  (∀ i, 1 ≤ i → i < m + 1 → sign i < 0) ∧ (m + 1 < n → 0 ≤ sign (m + 1))
    ∧ ∀ i, m + 1 < i → i < n → 0 < sign i
  := by
  refine ⟨?_, ?_, ?_⟩
  · intro i hi hlt
    have hneg := h.before (i - 1) (by omega)
    rwa [Nat.add_sub_cancel' hi] at hneg
  · intro hlt
    have hnonneg := h.here (by omega)
    rwa [Nat.add_comm 1 m] at hnonneg
  · intro i hi hlt
    have hpos := h.behind (i - 1) (by omega) (by omega)
    rwa [Nat.add_sub_cancel' (by omega)] at hpos

/-- The search finds where the signs part, as long as that is among the positions searched. -/
theorem Parts.search_eq (h : Parts sign n m) (hfirst : first ≤ m) (hlast : m ≤ first + count)
    (hn : first + count ≤ n) (hzero : m < n → sign m = 0 → m < first + count) :
  search sign first count = (m, decide (m < n ∧ sign m = 0))
  := by
  induction count using Nat.strongRecOn generalizing first with
  | ind count ih =>
    rw [search]
    split
    · rename_i hcount
      simp only
      split_ifs with heq hneg
      · -- only at `m` the sign is zero
        have hmiddle : first + count / 2 = m := by
          obtain hlt | hmiddle | hgt := Nat.lt_trichotomy (first + count / 2) m
          · exact absurd heq (h.before _ hlt).ne
          · exact hmiddle
          · exact absurd heq (h.behind _ hgt (by omega)).ne'
        rw [hmiddle] at heq ⊢
        rw [decide_eq_true ⟨by omega, heq⟩]
      · have hlt : first + count / 2 < m := by
          by_contra hle
          obtain hmiddle | hgt := Nat.eq_or_lt_of_le (not_lt.mp hle)
          · have hnonneg := h.here (by omega)
            rw [hmiddle] at hnonneg
            omega
          · have hpos := h.behind _ hgt (by omega)
            omega
        apply ih _ (by omega) (by omega) (by omega) (by omega)
        intro hm hzero'
        have := hzero hm hzero'
        omega
      · have hle : m ≤ first + count / 2 := by
          by_contra hlt
          exact hneg (h.before _ (by omega))
        apply ih _ (by omega) hfirst hle (by omega)
        intro hm hzero'
        apply Nat.lt_of_le_of_ne hle
        rintro rfl
        exact heq hzero'
    · have hm : m = first := by omega
      have hnone : ¬ (m < n ∧ sign m = 0) := by
        rintro ⟨hmn, hzero'⟩
        have := hzero hmn hzero'
        omega
      rw [decide_eq_false hnone, hm]

/-- The search does not leave the positions searched. -/
theorem search_le (sign : Nat → Int) (first count : Nat) :
  (search sign first count).1 ≤ first + count
  := by
  induction count using Nat.strongRecOn generalizing first with
  | ind count ih =>
    rw [search]
    simp only
    split_ifs
    · simp only
      omega
    · have := ih (count - (count / 2 + 1)) (by omega) (first + count / 2 + 1)
      omega
    · have := ih (count / 2) (by omega) first
      omega
    · exact Nat.le_add_right first count

/-- All negative signs are before `m`. -/
theorem Parts.card_neg (h : Parts sign n m) :
  ((Finset.range n).filter fun i => sign i < 0).card = m
  := by
  have hfilter : ((Finset.range n).filter fun i => sign i < 0) = Finset.range m := by
    ext i
    rw [Finset.mem_filter, Finset.mem_range, Finset.mem_range]
    constructor
    · rintro ⟨hin, hneg⟩
      by_contra hle
      obtain rfl | hgt := Nat.eq_or_lt_of_le (not_lt.mp hle)
      · exact absurd hneg (not_lt.mpr (h.here hin))
      · exact absurd hneg (h.behind i hgt hin).le.not_gt
    · intro hlt
      exact ⟨hlt.trans_le h.le, h.before i hlt⟩
  rw [hfilter, Finset.card_range]

/-- The sign is zero at `m` or nowhere. -/
theorem Parts.exists_zero_iff (h : Parts sign n m) :
  (∃ i < n, sign i = 0) ↔ m < n ∧ sign m = 0
  := by
  constructor
  · rintro ⟨i, hin, hzero⟩
    obtain hlt | rfl | hgt := Nat.lt_trichotomy i m
    · exact absurd hzero (h.before i hlt).ne
    · exact ⟨hin, hzero⟩
    · exact absurd hzero (h.behind i hgt hin).ne'
  · rintro ⟨hmn, hzero⟩
    exact ⟨m, hmn, hzero⟩

theorem Parts.exists_zero_from_one_iff (h : Parts (fun i => sign (1 + i)) (n - 1) m) :
  (∃ i, 1 ≤ i ∧ i < n ∧ sign i = 0) ↔ m < n - 1 ∧ sign (1 + m) = 0
  := by
  rw [← h.exists_zero_iff]
  constructor
  · rintro ⟨i, hi, hlt, hzero⟩
    refine ⟨i - 1, by omega, ?_⟩
    rwa [Nat.add_sub_cancel' hi]
  · rintro ⟨i, hi, hzero⟩
    exact ⟨1 + i, by omega, by omega, hzero⟩

end Search

/-! ### Comparing -/

/-- `comp` compares the elements with `P` by an order in which different elements can be equal. -/
structure IsOrder {α : Type u} (P : α → Prop) (comp : α → α → Int) : Prop where
  swap : ∀ a b, P a → P b → (comp a b < 0 ↔ 0 < comp b a)
  trans : ∀ a b c, P a → P b → P c → comp a b ≤ 0 → comp b c ≤ 0 → comp a c ≤ 0

section Compare

variable {α : Type u} {P : α → Prop} {comp : α → α → Int} {a b c : α} {x : Nat → α} {n : Nat}

theorem IsOrder.lt_of_lt_of_le (h : IsOrder P comp) (ha : P a) (hb : P b) (hc : P c)
    (hab : comp a b < 0) (hbc : comp b c ≤ 0) :
  comp a c < 0
  := by
  by_contra hac
  have hca : comp c a ≤ 0 := by
    have hswap := h.swap c a hc ha
    have hswap' := h.swap a c ha hc
    omega
  have hba := h.trans b c a hb hc ha hbc hca
  have hswap := h.swap a b ha hb
  omega

/-- In a sequence that increases from each element to the next one all elements increase. -/
theorem IsOrder.increasing (h : IsOrder P comp) (hx : ∀ i < n, P (x i))
    (hstep : ∀ i, i + 1 < n → comp (x i) (x (i + 1)) < 0) :
  ∀ i j, i < j → j < n → comp (x i) (x j) < 0
  := by
  intro i j hij
  induction j, hij using Nat.le_induction with
  | base => exact hstep i
  | succ j hij ih =>
    intro hj
    have hlt := ih (by omega)
    exact h.lt_of_lt_of_le (hx i (by omega)) (hx j (by omega)) (hx (j + 1) hj) hlt
      (hstep j hj).le

/-- The signs of an increasing sequence ascend. -/
theorem IsOrder.ascending (h : IsOrder P comp) (hx : ∀ i < n, P (x i)) (ha : P a)
    (hstep : ∀ i, i + 1 < n → comp (x i) (x (i + 1)) < 0) :
  Ascending (fun i => comp (x i) a) n
  := by
  intro i j hij hj hle
  exact h.lt_of_lt_of_le (hx i (by omega)) (hx j hj) ha (h.increasing hx hstep i j hij hj) hle

/-- Comparing what elements are mapped to. -/
theorem IsOrder.comap {β : Type u} {Q : β → Prop} {f : β → α} (h : IsOrder P comp)
    (hf : ∀ b, Q b → P (f b)) :
  IsOrder Q fun b b' => comp (f b) (f b')
  where
  swap b b' hb hb' := h.swap _ _ (hf b hb) (hf b' hb')
  trans b b' b'' hb hb' hb'' := h.trans _ _ _ (hf b hb) (hf b' hb') (hf b'' hb'')

/-- Comparing by one order, and where the elements are equal in it by another one. -/
theorem IsOrder.lex {comp' : α → α → Int} (h : IsOrder P comp) (h' : IsOrder P comp') :
  IsOrder P fun a b => if comp a b ≠ 0 then comp a b else comp' a b
  := by
  constructor
  · intro a b ha hb
    have hswap := h.swap a b ha hb
    have hback := h.swap b a hb ha
    have hswap' := h'.swap a b ha hb
    split_ifs <;> omega
  · intro a b c ha hb hc hab hbc
    have htrans := h.trans a b c ha hb hc
    have hswap := h.swap a b ha hb
    have hswap' := h.swap b a hb ha
    have hcab := h.trans c a b hc ha hb
    have hbca := h.trans b c a hb hc ha
    have hac := h.swap a c ha hc
    have hca := h.swap c a hc ha
    have hbc' := h.swap b c hb hc
    have hcb := h.swap c b hc hb
    have htrans' := h'.trans a b c ha hb hc
    split_ifs at hab hbc ⊢ <;> omega

theorem IsOrder.lt_of_le_of_lt (h : IsOrder P comp) (ha : P a) (hb : P b) (hc : P c)
    (hab : comp a b ≤ 0) (hbc : comp b c < 0) :
  comp a c < 0
  := by
  by_contra hac
  have hca : comp c a ≤ 0 := by
    have hswap := h.swap c a hc ha
    have hswap' := h.swap a c ha hc
    omega
  have hcb := h.trans c a b hc ha hb hca hab
  have hswap := h.swap b c hb hc
  omega

/-- Comparing what the elements are mapped to in a linear order. -/
theorem isOrder_of_map {β : Type v} [LinearOrder β] {f : α → β}
    (hneg : ∀ a b, comp a b < 0 ↔ f a < f b) (hzero : ∀ a b, comp a b = 0 ↔ f a = f b) :
  IsOrder P comp
  := by
  have hle : ∀ a b, comp a b ≤ 0 ↔ f a ≤ f b := by
    intro a b
    rw [le_iff_lt_or_eq, hneg, hzero, le_iff_lt_or_eq]
  constructor
  · intro a b _ _
    rw [hneg, ← not_le, ← not_le, hle]
  · intro a b c _ _ _ hab hbc
    rw [hle] at hab hbc ⊢
    exact hab.trans hbc

/-- Comparing by a linear order. -/
theorem isOrder_of_linearOrder [LinearOrder α] (hneg : ∀ a b, comp a b < 0 ↔ a < b)
    (hzero : ∀ a b, comp a b = 0 ↔ a = b) :
  IsOrder P comp
  := isOrder_of_map hneg hzero

/-- In a list of a linear order the search is that of a lower bound. -/
theorem loop_eq_search {β : Type} [LinearOrder β] {xs : List β} {val : β} {sign : Nat → Int}
    {fuel first count : Nat}
    (hsign : ∀ i y, xs[i]? = some y → (sign i < 0 ↔ y < val) ∧ (sign i = 0 ↔ y = val))
    (hfuel : count ≤ fuel) (hlen : first + count ≤ xs.length) :
  LowerBound.loop xs val fuel first count = search sign first count
  := by
  induction fuel generalizing first count with
  | zero =>
    have hcount : count = 0 := by omega
    rw [LowerBound.loop, search, hcount]
    rfl
  | succ fuel ih =>
    rw [LowerBound.loop, search]
    by_cases hcount : count = 0
    · rw [if_pos hcount, if_neg (by omega)]
    · obtain ⟨y, hy⟩ := LowerBound.exists_middle hcount hlen
      obtain ⟨hneg, hzero⟩ := hsign _ y hy
      rw [if_neg hcount, if_pos (by omega), hy]
      simp only
      obtain hlt | heq | hgt := lt_trichotomy y val
      · rw [hlt.cmp_eq_lt, if_neg (fun h => hlt.ne (hzero.mp h)), if_pos (hneg.mpr hlt)]
        exact ih (by omega) (by omega)
      · rw [heq, cmp_self_eq_eq, if_pos (hzero.mpr heq)]
      · rw [hgt.cmp_eq_gt, if_neg (fun h => hgt.ne' (hzero.mp h)),
          if_neg (fun h => hgt.not_gt (hneg.mp h))]
        exact ih (by omega) (by omega)

end Compare

end Bisection
