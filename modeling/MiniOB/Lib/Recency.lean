import Mathlib

/-!
# Recency lists

The entries of a map in the order of their last use, the most recent one first. Keys are
compared by an equivalence. Looking up a key and writing an entry are uses of it.

Histories list the operations with the newest one first, as runs do.
-/

namespace Recency

universe u v w

/-- An operation on the map. -/
inductive Op (K : Type u) (V : Type v) where
  | get (key : K)
  | put (key : K) (value : V)
  | remove (key : K)

variable {K : Type u} {V : Type v} [BEq K]

/-- The entry of a key. -/
def find (l : List (K × V)) (key : K) : Option (K × V) := l.find? fun e => e.1 == key

/-- The entries of the other keys. -/
def without (l : List (K × V)) (key : K) : List (K × V) := l.filter fun e => !(e.1 == key)

/-- The list after an operation. The entry that is used goes to the front and keeps the key
that it has been made with. -/
def apply (l : List (K × V)) : Op K V → List (K × V)
  | .get key =>
    match find l key with
    | some e => e :: without l key
    | none => l
  | .put key value =>
    match find l key with
    | some e => (e.1, value) :: without l key
    | none => (key, value) :: l
  | .remove key => without l key

/-- The list after all operations of a history. -/
def run (h : List (Op K V)) : List (K × V) := h.foldr (fun op l => apply l op) []

/-- The value last put under a key since it was last removed. -/
def lastPut (key : K) : List (Op K V) → Option V
  | [] => none
  | .get _ :: h => lastPut key h
  | .put key' value :: h => if key' == key then some value else lastPut key h
  | .remove key' :: h => if key' == key then none else lastPut key h

/-- The operation uses the entry of a key. -/
def Op.uses (key : K) : Op K V → Bool
  | .get key' => key' == key
  | .put key' _ => key' == key
  | .remove _ => false

/-- How many operations ago the entry of a key was used. -/
def age (h : List (Op K V)) (key : K) : Nat := h.findIdx (Op.uses key)

/-- Visit the entries of a list in turn as long as `func` answers `true`. -/
def visit {σ : Type w} (func : K → V → σ → Bool × σ) : List (K × V) → σ → σ
  | [], acc => acc
  | e :: l, acc =>
    match func e.1 e.2 acc with
    | (true, acc) => visit func l acc
    | (false, acc) => acc

/-- No two entries have the same key. -/
def Distinct (l : List (K × V)) : Prop := l.Pairwise fun e e' => (e.1 == e'.1) = false

variable {l : List (K × V)} {e : K × V} {key key' : K}

theorem find_cons (e : K × V) (l : List (K × V)) (key : K) :
  find (e :: l) key = if e.1 == key then some e else find l key
  := by
  rw [find, List.find?_cons]
  cases e.1 == key <;> rfl

theorem key_of_find (h : find l key = some e) : (e.1 == key) = true := by
  rw [find] at h
  simpa using List.find?_some h

theorem mem_of_find (h : find l key = some e) : e ∈ l := List.mem_of_find?_eq_some h

theorem mem_without : e ∈ without l key ↔ e ∈ l ∧ (e.1 == key) = false := by
  rw [without, List.mem_filter, Bool.not_eq_true']

theorem without_of_find_none (h : find l key = none) : without l key = l := by
  rw [without, List.filter_eq_self]
  intro e he
  rw [Bool.not_eq_true', Bool.eq_false_iff]
  exact List.find?_eq_none.mp h e he

/-- A key that has just been looked up is removed like any other. -/
theorem remove_get (l : List (K × V)) (key : K) :
  apply (apply l (.get key)) (.remove key) = without l key
  := by
  simp only [apply]
  cases hfind : find l key with
  | none => rfl
  | some e =>
    rw [without, List.filter_cons_of_neg (by simp [key_of_find hfind]), without,
      List.filter_filter]
    simp only [Bool.and_self]

section Equivalence

variable [EquivBEq K]

/-- Equal keys have the same entry. -/
theorem find_congr (h : (key == key') = true) : find l key = find l key' := by
  rw [find, find]
  congr 1
  funext e
  rw [Bool.eq_iff_iff]
  exact ⟨fun he => BEq.trans he h, fun he => BEq.trans he (BEq.symm h)⟩

theorem find_without (l : List (K × V)) (key key' : K) :
  find (without l key') key = if key' == key then none else find l key
  := by
  induction l with
  | nil => split <;> rfl
  | cons e l ih =>
    rw [without] at ih
    rw [without, List.filter_cons, find_cons]
    by_cases hkey : (key' == key) = true
    · rw [if_pos hkey] at ih ⊢
      split
      · rename_i he
        rw [find_cons, ih, if_neg]
        intro he'
        rw [BEq.trans he' (BEq.symm hkey)] at he
        contradiction
      · exact ih
    · rw [if_neg hkey] at ih ⊢
      split
      · rw [find_cons, ih]
      · rename_i he
        rw [ih, if_neg]
        intro he'
        simp only [Bool.not_eq_true', Bool.not_eq_false] at he
        exact hkey (BEq.trans (BEq.symm he) he')

/-- What is found after an operation. -/
theorem find_apply (l : List (K × V)) (op : Op K V) (key : K) :
  (find (apply l op) key).map Prod.snd
    = match op with
      | .get _ => (find l key).map Prod.snd
      | .put key' value => if key' == key then some value else (find l key).map Prod.snd
      | .remove key' => if key' == key then none else (find l key).map Prod.snd
  := by
  cases op with
  | get key' =>
    simp only [apply]
    cases hfind : find l key' with
    | none => rfl
    | some e =>
      have he := key_of_find hfind
      simp only
      rw [find_cons, find_without]
      by_cases hkey : (key' == key) = true
      · rw [if_pos (BEq.trans he hkey), ← find_congr hkey, hfind]
      · rw [if_neg hkey, if_neg fun he' => hkey (BEq.trans (BEq.symm he) he')]
  | put key' value =>
    simp only [apply]
    cases hfind : find l key' with
    | none =>
      simp only [find_cons]
      split <;> rfl
    | some e =>
      have he := key_of_find hfind
      simp only [find_cons, find_without]
      by_cases hkey : (key' == key) = true
      · rw [if_pos (BEq.trans he hkey), if_pos hkey]
        rfl
      · rw [if_neg hkey, if_neg hkey, if_neg fun he' => hkey (BEq.trans (BEq.symm he) he')]
  | remove key' =>
    simp only [apply, find_without]
    split <;> rfl

/-- The value of a key is the one last put under it since it was last removed. -/
theorem find_run (h : List (Op K V)) (key : K) :
  (find (run h) key).map Prod.snd = lastPut key h
  := by
  induction h with
  | nil => rfl
  | cons op h ih =>
    rw [run, List.foldr_cons, ← run, find_apply]
    cases op <;> simp only [lastPut, ih]

omit [EquivBEq K] in
theorem Distinct.without (h : Distinct l) (key : K) : Distinct (without l key) :=
  List.Pairwise.filter _ h

/-- The entry of a key that goes to the front is the only one of its key. -/
theorem Distinct.front (h : Distinct l) (hfind : find l key = some e) (value : V) :
  Distinct ((e.1, value) :: Recency.without l key)
  := by
  have hkey := key_of_find hfind
  refine List.Pairwise.cons ?_ (h.without key)
  intro e' he'
  have hne := (mem_without.mp he').2
  rw [Bool.eq_false_iff] at hne ⊢
  intro heq
  exact hne (BEq.trans (BEq.symm heq) hkey)

theorem Distinct.perm {l' : List (K × V)} (h : Distinct l) (hperm : l.Perm l') : Distinct l' := by
  apply hperm.pairwise h
  intro e e' hne
  rw [← hne]
  exact BEq.comm

theorem ne_of_find_none (h : find l key = none) (he : e ∈ l) : (key == e.1) = false := by
  rw [Bool.eq_false_iff]
  intro heq
  exact List.find?_eq_none.mp h e he (BEq.symm heq)

/-- The entry of a key among those of other keys. -/
theorem Distinct.split {A B : List (K × V)} (h : Distinct (A ++ e :: B))
    (hkey : (e.1 == key) = true) :
  Recency.find (A ++ e :: B) key = some e ∧ Recency.without (A ++ e :: B) key = A ++ B
  := by
  have hothers : ∀ e' ∈ A ++ B, (e'.1 == key) = false := by
    have hfront := List.pairwise_cons.mp (h.perm List.perm_middle)
    intro e' he'
    have hne := hfront.1 e' he'
    rw [Bool.eq_false_iff] at hne ⊢
    exact fun heq => hne (BEq.trans hkey (BEq.symm heq))
  constructor
  · rw [Recency.find, List.find?_append, List.find?_eq_none.mpr, Option.none_or, ← Recency.find,
      find_cons, if_pos hkey]
    intro e' he'
    rw [hothers e' (List.mem_append_left B he')]
    exact Bool.false_ne_true
  · rw [Recency.without, List.filter_append, List.filter_cons_of_neg (by simp [hkey]),
      ← List.filter_append, List.filter_eq_self]
    intro e' he'
    rw [hothers e' he']
    rfl

/-- An operation leaves one entry for each key. -/
theorem Distinct.apply (h : Distinct l) (op : Op K V) : Distinct (apply l op) := by
  cases op with
  | get key =>
    simp only [Recency.apply]
    cases hfind : find l key with
    | none => exact h
    | some e => exact h.front hfind e.2
  | put key value =>
    simp only [Recency.apply]
    cases hfind : find l key with
    | none => exact List.Pairwise.cons (fun e he => ne_of_find_none hfind he) h
    | some e => exact h.front hfind value
  | remove key => exact h.without key

/-! ### The order of the entries -/

variable {h : List (Op K V)} {op : Op K V}

omit [EquivBEq K] in
theorem age_cons (op : Op K V) (h : List (Op K V)) (key : K) :
  age (op :: h) key = if op.uses key then 0 else age h key + 1
  := by
  rw [age, List.findIdx_cons, ← age]
  cases op.uses key <;> rfl

/-- The entries are in the order of their last uses, the most recent one first. -/
def Aged (h : List (Op K V)) (l : List (K × V)) : Prop :=
  l.Pairwise fun e e' => age h e.1 < age h e'.1

omit [EquivBEq K] in
/-- Entries that are not used all get older. -/
theorem Aged.keep (hl : Aged h l) (huses : ∀ e ∈ l, op.uses e.1 = false) : Aged (op :: h) l := by
  apply hl.imp_of_mem
  intro e e' he he' hlt
  rw [age_cons, age_cons, huses e he, huses e' he']
  simpa using hlt

omit [EquivBEq K] in
/-- The entry that is used is the youngest. -/
theorem Aged.front (hl : Aged h l) (he : op.uses e.1 = true)
    (huses : ∀ e ∈ l, op.uses e.1 = false) :
  Aged (op :: h) (e :: l)
  := by
  refine List.Pairwise.cons ?_ (hl.keep huses)
  intro e' he'
  rw [age_cons, age_cons, he, huses e' he']
  simp

omit [EquivBEq K] in
theorem Aged.without (hl : Aged h l) (key : K) : Aged h (without l key) :=
  List.Pairwise.filter _ hl

theorem ne_of_mem_without (he : e ∈ without l key) : (key == e.1) = false := by
  rw [← (mem_without.mp he).2]
  exact BEq.comm

theorem aged_run (h : List (Op K V)) : Aged h (run h) := by
  induction h with
  | nil => exact List.Pairwise.nil
  | cons op h ih =>
    rw [run, List.foldr_cons, ← run]
    cases op with
    | get key =>
      simp only [apply]
      cases hfind : find (run h) key with
      | none => exact ih.keep fun e he => ne_of_find_none hfind he
      | some e =>
        have huses := BEq.symm (key_of_find hfind)
        exact (ih.without key).front huses fun e he => ne_of_mem_without he
    | put key value =>
      simp only [apply]
      cases hfind : find (run h) key with
      | none => exact ih.front BEq.rfl fun e he => ne_of_find_none hfind he
      | some e =>
        have huses := BEq.symm (key_of_find hfind)
        exact (ih.without key).front huses fun e he => ne_of_mem_without he
    | remove key => exact (ih.without key).keep fun _ _ => rfl

end Equivalence

end Recency
