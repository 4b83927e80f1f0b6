import Mathlib

/-!
# Levels of a search tree

A balanced search tree whose inner nodes live on numbered pages, described level by level.
A level is the list of its nodes from left to right; it is listed by its entries, the page
of each node with a lower bound of the keys below it. The items of the nodes of the level
above, read from left to right, are these entries.

The leftmost node of every level has the bound `⊥`. The key that such a node has in the
first slot of its parent is of no consequence, so an item has a key and a bound, which is
`⊥` or the key.
-/

namespace Levels

variable {K : Type}

/-- The lower bound of a node, and its page. -/
abbrev Entry (K : Type) := WithBot K × Int

/-- An item of an inner node: the key that is stored, the bound that it stands for, and the
page of the child. -/
structure Item (K : Type) where
  key : K
  bound : WithBot K
  child : Int
  bound_eq : bound = ⊥ ∨ bound = key

/-- The item of a key that is its own bound. -/
def Item.ofKey (key : K) (child : Int) : Item K := ⟨key, key, child, .inr rfl⟩

/-- The first item of a leftmost node. -/
def Item.ofBot (key : K) (child : Int) : Item K := ⟨key, ⊥, child, .inl rfl⟩

/-- The entry that an item makes for its child. -/
def Item.entry (item : Item K) : Entry K := (item.bound, item.child)

/-- What is stored of an item. -/
def Item.slot (item : Item K) : K × Int := (item.key, item.child)

/-- An inner node. -/
structure Branch (K : Type) where
  page : Int
  items : List (Item K)

/-- The lower bound of a node is the one of its first item. -/
def Branch.bound (n : Branch K) : WithBot K := (n.items.head?.map Item.bound).getD ⊥

def Branch.entry (n : Branch K) : Entry K := (n.bound, n.page)

def Branch.children (n : Branch K) : List Int := n.items.map Item.child

def Branch.slots (n : Branch K) : List (K × Int) := n.items.map Item.slot

/-- The inner nodes of one level. -/
abbrev Level (K : Type) := List (Branch K)

/-- The items of a level. -/
def Level.items (U : Level K) : List (Item K) := U.flatMap Branch.items

/-- The entries that a level makes for the level below. -/
def Level.below (U : Level K) : List (Entry K) := U.items.map Item.entry

/-- The entries of the nodes of a level. -/
def Level.entries (U : Level K) : List (Entry K) := U.map Branch.entry

/-- The levels `Us`, the lowest first, stand one upon the other and upon the nodes with the
entries `below`, and the topmost one has a single node. -/
def Tower (max : Nat) : List (Entry K) → List (Level K) → Prop
  | below, [] => ∃ page, below = [(⊥, page)]
  | below, U :: Us => Level.below U = below
    ∧ (∀ n ∈ U, n.items.length ≤ max ∧ 2 ≤ n.items.length ∧ (Us ≠ [] → max / 2 ≤ n.items.length))
    ∧ Tower max (Level.entries U) Us

/-- The page of the root. -/
def top : List (Entry K) → List (Level K) → Int
  | below, [] => (below.head?.map Prod.snd).getD 0
  | _, U :: Us => top (Level.entries U) Us

/-- The pages of a list of entries. -/
def entryPages (es : List (Entry K)) : List Int := es.map Prod.snd

/-- The pages of the inner nodes. -/
def pages (Us : List (Level K)) : List Int := Us.flatten.map Branch.page

/-- The bounds of the entries grow from left to right. -/
def Ascending [LinearOrder K] (es : List (Entry K)) : Prop := (es.map Prod.fst).Pairwise (· < ·)

/-! ### Entries -/

section Entries

variable {U U' : Level K} {n : Branch K} {A B : Level K}

@[simp]
theorem Item.ofKey_entry (key : K) (child : Int) : (Item.ofKey key child).entry = (↑key, child) := rfl

@[simp]
theorem Item.ofKey_slot (key : K) (child : Int) : (Item.ofKey key child).slot = (key, child) := rfl

@[simp]
theorem Item.ofKey_child (key : K) (child : Int) : (Item.ofKey key child).child = child := rfl

@[simp]
theorem Branch.entry_snd (n : Branch K) : n.entry.2 = n.page := rfl

@[simp]
theorem Item.entry_snd (item : Item K) : item.entry.2 = item.child := rfl

@[simp]
theorem entryPages_append (es es' : List (Entry K)) :
  entryPages (es ++ es') = entryPages es ++ entryPages es'
  := List.map_append

@[simp]
theorem entryPages_nil : entryPages ([] : List (Entry K)) = [] := rfl

@[simp]
theorem entryPages_cons (e : Entry K) (es : List (Entry K)) :
  entryPages (e :: es) = e.2 :: entryPages es
  := rfl

@[simp]
theorem Level.items_append : Level.items (U ++ U') = Level.items U ++ Level.items U' :=
  List.flatMap_append

@[simp]
theorem Level.items_cons : Level.items (n :: U) = n.items ++ Level.items U := List.flatMap_cons

@[simp]
theorem Level.below_append : Level.below (U ++ U') = Level.below U ++ Level.below U' := by
  simp [Level.below]

@[simp]
theorem Level.below_cons : Level.below (n :: U) = n.items.map Item.entry ++ Level.below U := by
  simp [Level.below]

@[simp]
theorem Level.entries_append : Level.entries (U ++ U') = Level.entries U ++ Level.entries U' :=
  List.map_append

@[simp]
theorem Level.entries_cons : Level.entries (n :: U) = n.entry :: Level.entries U := rfl

@[simp]
theorem entryPages_entries : entryPages (Level.entries U) = U.map Branch.page := by
  simp [entryPages, Level.entries]

@[simp]
theorem entryPages_items (items : List (Item K)) :
  entryPages (items.map Item.entry) = items.map Item.child
  := by
  simp [entryPages]

theorem entryPages_below : entryPages (Level.below U) = U.flatMap Branch.children := by
  rw [Level.below, entryPages_items, Level.items, List.map_flatMap]
  rfl

@[simp]
theorem pages_nil : pages ([] : List (Level K)) = [] := rfl

@[simp]
theorem pages_cons (U : Level K) (Us : List (Level K)) :
  pages (U :: Us) = U.map Branch.page ++ pages Us
  := by
  simp [pages]

theorem Branch.length_slots (n : Branch K) : n.slots.length = n.items.length := List.length_map _

/-- The entry of a node depends on its first item only. -/
theorem Branch.entry_eq_of_head {n' : Branch K} (hpage : n'.page = n.page)
    (hhead : n'.items.head? = n.items.head?) :
  n'.entry = n.entry
  := by
  rw [Branch.entry, Branch.entry, Branch.bound, Branch.bound, hpage, hhead]

/-- A level with a single entry has a single node. -/
theorem singleton_of_entries {x : Entry K}
    (h : Level.entries A ++ n.entry :: Level.entries B = [x]) :
  A = [] ∧ B = []
  := by
  have hlen := congrArg List.length h
  simp only [Level.entries, List.length_append, List.length_map, List.length_cons,
    List.length_nil] at hlen
  constructor <;> apply List.eq_nil_of_length_eq_zero <;> omega

/-- The item `i` of the node `n` makes the entry `e` among the entries `L ++ e :: R` that the
level `U` makes. -/
structure Located (U : Level K) (L : List (Entry K)) (e : Entry K) (R : List (Entry K))
    (A : Level K) (n : Branch K) (B : Level K) (C : List (Item K)) (i : Item K)
    (D : List (Item K)) : Prop where
  level : U = A ++ n :: B
  items : n.items = C ++ i :: D
  entry : i.entry = e
  left : L = Level.below A ++ C.map Item.entry
  right : R = D.map Item.entry ++ Level.below B

/-- An entry below a level is made by an item of one of its nodes. -/
theorem exists_located {L R : List (Entry K)} {e : Entry K} (h : Level.below U = L ++ e :: R) :
  ∃ A n B C i D, Located U L e R A n B C i D
  := by
  induction U generalizing L with
  | nil => simp [Level.below, Level.items] at h
  | cons m U ih =>
    rw [Level.below_cons, List.append_eq_append_iff] at h
    obtain ⟨L', hL, hrest⟩ | ⟨D', hm, hrest⟩ := h
    · obtain ⟨A, n, B, C, i, D, hloc⟩ := ih hrest
      refine ⟨m :: A, n, B, C, i, D, ?_, hloc.items, hloc.entry, ?_, hloc.right⟩
      · rw [hloc.level, List.cons_append]
      · rw [hL, hloc.left, Level.below_cons, List.append_assoc]
    · cases D' with
      | nil =>
        obtain ⟨A, n, B, C, i, D, hloc⟩ := ih (L := []) (by simpa using hrest.symm)
        obtain ⟨hA, hC⟩ := List.append_eq_nil_iff.mp hloc.left.symm
        refine ⟨m :: A, n, B, C, i, D, ?_, hloc.items, hloc.entry, ?_, hloc.right⟩
        · rw [hloc.level, List.cons_append]
        · rw [Level.below_cons, hA, hC, hm, List.append_nil, List.append_nil, List.append_nil]
      | cons e' D' =>
        simp only [List.cons_append, List.cons.injEq] at hrest
        obtain ⟨rfl, rfl⟩ := hrest
        obtain ⟨C, rest, hitems, hC, hrest⟩ := List.map_eq_append_iff.mp hm
        obtain ⟨i, D, rfl, hi, hD⟩ := List.map_eq_cons_iff.mp hrest
        refine ⟨[], m, U, C, i, D, rfl, hitems, hi, ?_, ?_⟩
        · simp [← hC, Level.below, Level.items]
        · rw [hD]

section Located

variable {L R : List (Entry K)} {e : Entry K} {C D : List (Item K)} {i : Item K}

theorem Located.mem (h : Located U L e R A n B C i D) : n ∈ U := by
  rw [h.level]
  simp

theorem Located.mem_left (h : Located U L e R A n B C i D) {m : Branch K} (hm : m ∈ A) : m ∈ U := by
  rw [h.level]
  apply List.mem_append_left _ hm

theorem Located.mem_right (h : Located U L e R A n B C i D) {m : Branch K} (hm : m ∈ B) : m ∈ U := by
  rw [h.level]
  apply List.mem_append_right _ (List.mem_cons_of_mem _ hm)

theorem Located.child_eq (h : Located U L e R A n B C i D) : i.child = e.2 := by
  rw [← h.entry, Item.entry_snd]

theorem Located.child_mem (h : Located U L e R A n B C i D) : i.child ∈ n.children := by
  rw [Branch.children, h.items]
  simp

/-- What the level makes when the node has other items. -/
theorem Located.below_replace (h : Located U L e R A n B C i D) (page : Int) (M : List (Item K)) :
  Level.below (A ++ ⟨page, C ++ i :: (M ++ D)⟩ :: B) = L ++ e :: (M.map Item.entry ++ R)
  := by
  simp [h.left, h.right, h.entry]

/-- The entries of the level when the node has other items after the first. -/
theorem Located.entries_replace (h : Located U L e R A n B C i D) (M : List (Item K)) :
  Level.entries (A ++ ⟨n.page, C ++ i :: M⟩ :: B) = Level.entries U
  := by
  rw [h.level, Level.entries_append, Level.entries_append, Level.entries_cons,
    Level.entries_cons]
  have hentry : Branch.entry ⟨n.page, C ++ i :: M⟩ = n.entry := by
    apply Branch.entry_eq_of_head
    · rfl
    · rw [h.items]
      cases C <;> rfl
  rw [hentry]

theorem Located.page_not_mem (h : Located U L e R A n B C i D) {Us : List (Level K)}
    (hnodup : (pages (U :: Us)).Nodup) :
  n.page ∉ A.map Branch.page ++ (B.map Branch.page ++ pages Us)
  := by
  rw [pages_cons, h.level, List.map_append, List.map_cons, List.append_assoc, List.cons_append,
    List.nodup_middle, List.nodup_cons] at hnodup
  apply hnodup.1

end Located

end Entries

/-! ### Towers -/

section Towers

variable {max : Nat} {below : List (Entry K)} {U : Level K} {Us : List (Level K)} {n : Branch K}

theorem Tower.ne_nil_of_mem {U : Level K} (h : Tower max below (U :: Us)) (hn : n ∈ U) :
  n.items ≠ []
  := by
  have hsize := (h.2.1 n hn).2.1
  intro hnil
  rw [hnil] at hsize
  simp at hsize

theorem Tower.length_items_le (h : Tower max below Us) (hn : n ∈ Us.flatten) :
  n.items.length ≤ max
  := by
  induction Us generalizing below with
  | nil => simp at hn
  | cons U Us ih =>
    rw [List.flatten_cons, List.mem_append] at hn
    obtain hn | hn := hn
    · exact (h.2.1 n hn).1
    · exact ih h.2.2 hn

/-- The leftmost node of a level has the bound `⊥`. -/
theorem Tower.head_eq (h : Tower max below Us) : ∃ page rest, below = (⊥, page) :: rest := by
  induction Us generalizing below with
  | nil =>
    obtain ⟨page, rfl⟩ := h
    exact ⟨page, [], rfl⟩
  | cons U Us ih =>
    obtain ⟨page, rest, hU⟩ := ih h.2.2
    cases U with
    | nil => simp [Level.entries] at hU
    | cons n U =>
      have hne := h.ne_nil_of_mem List.mem_cons_self
      obtain ⟨i, items, hitems⟩ := List.exists_cons_of_ne_nil hne
      simp only [Level.entries_cons, List.cons.injEq, Branch.entry, Branch.bound, hitems,
        List.head?_cons, Option.map_some, Option.getD_some, Prod.mk.injEq] at hU
      refine ⟨i.child, items.map Item.entry ++ Level.below U, ?_⟩
      rw [← h.1, Level.below_cons, hitems, List.map_cons, List.cons_append, Item.entry, hU.1.1]

theorem Tower.level_ne_nil (h : Tower max below (U :: Us)) : U ≠ [] := by
  obtain ⟨page, rest, hU⟩ := h.2.2.head_eq
  rintro rfl
  simp [Level.entries] at hU

/-- The children of the nodes are the nodes below and the nodes of the tower. -/
theorem Tower.child_mem (h : Tower max below Us) (hn : n ∈ Us.flatten) {child : Int}
    (hchild : child ∈ n.children) :
  child ∈ entryPages below ∨ child ∈ pages Us
  := by
  induction Us generalizing below with
  | nil => simp at hn
  | cons U Us ih =>
    rw [List.flatten_cons, List.mem_append] at hn
    obtain hn | hn := hn
    · left
      rw [← h.1, entryPages_below]
      exact List.mem_flatMap.mpr ⟨n, hn, hchild⟩
    · right
      rw [pages_cons, List.mem_append, ← entryPages_entries]
      apply ih h.2.2 hn

theorem Tower.top_mem (h : Tower max below Us) : top below Us ∈ entryPages below ++ pages Us := by
  induction Us generalizing below with
  | nil =>
    obtain ⟨page, rfl⟩ := h
    simp [top, entryPages]
  | cons U Us ih =>
    have htop := ih h.2.2
    rw [entryPages_entries, ← pages_cons] at htop
    rw [top, List.mem_append]
    right
    apply htop

theorem Tower.length_le (h : Tower max below Us) : Us.length ≤ (pages Us).length := by
  induction Us generalizing below with
  | nil => simp
  | cons U Us ih =>
    have hU := List.length_pos_iff.mpr h.level_ne_nil
    have hUs := ih h.2.2
    rw [pages_cons, List.length_cons, List.length_append, List.length_map]
    omega

end Towers

/-! ### Ascending entries -/

section Ascending

variable [LinearOrder K] {es es' : List (Entry K)}

theorem Ascending.sublist (h : Ascending es) (hsub : es'.Sublist es) : Ascending es' := by
  apply List.Pairwise.sublist (hsub.map Prod.fst) h

omit [LinearOrder K] in
/-- The entries of a level are among the entries that it makes, as far as the bounds go. -/
theorem bounds_sublist {U : Level K} (hne : ∀ n ∈ U, n.items ≠ []) :
  ((Level.entries U).map Prod.fst).Sublist ((Level.below U).map Prod.fst)
  := by
  induction U with
  | nil => simp [Level.entries]
  | cons n U ih =>
    have htail := ih fun m hm => hne m (List.mem_cons_of_mem _ hm)
    obtain ⟨i, items, hitems⟩ := List.exists_cons_of_ne_nil (hne n List.mem_cons_self)
    rw [Level.entries_cons, Level.below_cons, hitems, List.map_cons, List.map_cons,
      List.cons_append, List.map_cons, List.map_append]
    have hbound : n.entry.1 = i.entry.1 := by
      simp [Branch.entry, Branch.bound, Item.entry, hitems]
    rw [hbound]
    apply List.Sublist.cons_cons
    apply htail.trans (List.sublist_append_right _ _)

theorem Ascending.entries {U : Level K} (h : Ascending (Level.below U))
    (hne : ∀ n ∈ U, n.items ≠ []) :
  Ascending (Level.entries U)
  := by
  apply List.Pairwise.sublist (bounds_sublist hne) h

/-- The items of one node make a part of the entries below. -/
theorem Located.ascending {U A B : Level K} {L R : List (Entry K)} {e : Entry K} {n : Branch K}
    {C D : List (Item K)} {i : Item K} (h : Located U L e R A n B C i D) (M : List (Item K))
    (hasc : Ascending (L ++ e :: (M.map Item.entry ++ R))) :
  Ascending ((C ++ i :: (M ++ D)).map Item.entry)
  := by
  apply hasc.sublist
  have hsplit : L ++ e :: (M.map Item.entry ++ R)
      = Level.below A ++ (C ++ i :: (M ++ D)).map Item.entry ++ Level.below B := by
    simp [h.left, h.right, h.entry]
  rw [hsplit]
  apply List.Sublist.trans (List.sublist_append_right (Level.below A) _)
  apply List.sublist_append_left

end Ascending

/-! ### The first slots -/

/-- The items that stand for the bound `⊥` have the key `zeroKey`. -/
def Zeroed (zeroKey : K) (Us : List (Level K)) : Prop :=
  ∀ U ∈ Us, ∀ i ∈ Level.items U, i.bound = ⊥ → i.key = zeroKey

section Zeroed

variable {zeroKey : K} {U U' W : Level K} {Us : List (Level K)} {A B : Level K}
  {l r l' r' q : Branch K} {C D : List (Item K)} {i j : Item K}

theorem Zeroed.nil : Zeroed zeroKey ([] : List (Level K)) := fun _ hU => absurd hU List.not_mem_nil

theorem Zeroed.head (h : Zeroed zeroKey (U :: Us)) :
  ∀ i ∈ Level.items U, i.bound = ⊥ → i.key = zeroKey
  := h U List.mem_cons_self

theorem Zeroed.tail (h : Zeroed zeroKey (U :: Us)) : Zeroed zeroKey Us :=
  fun W hW => h W (List.mem_cons_of_mem U hW)

theorem Zeroed.cons (hU : ∀ i ∈ Level.items U, i.bound = ⊥ → i.key = zeroKey)
    (hUs : Zeroed zeroKey Us) :
  Zeroed zeroKey (U :: Us)
  := by
  intro W hW
  rw [List.mem_cons] at hW
  obtain rfl | hW := hW
  · exact hU
  · apply hUs W hW

/-- A level that has the items of another one, apart from keys that are their own bound. -/
theorem Zeroed.of_items (h : Zeroed zeroKey (U :: Us)) {Us' : List (Level K)}
    (hitems : ∀ i ∈ Level.items U', i ∈ Level.items U ∨ i.bound ≠ ⊥) (hUs' : Zeroed zeroKey Us') :
  Zeroed zeroKey (U' :: Us')
  := by
  apply Zeroed.cons _ hUs'
  intro i hi hbot
  obtain hold | hne := hitems i hi
  · apply h.head i hold hbot
  · contradiction

/-- Items have moved between two neighbours. -/
theorem Zeroed.moved (h : Zeroed zeroKey ((A ++ l :: r :: B) :: Us))
    (hitems : l'.items ++ r'.items = l.items ++ r.items) {Us' : List (Level K)}
    (hUs' : Zeroed zeroKey Us') :
  Zeroed zeroKey ((A ++ l' :: r' :: B) :: Us')
  := by
  have hlevel : Level.items (A ++ l' :: r' :: B) = Level.items (A ++ l :: r :: B) := by
    simp only [Level.items_append, Level.items_cons]
    rw [← List.append_assoc l'.items, hitems, List.append_assoc]
  apply h.of_items _ hUs'
  intro x hx
  rw [hlevel] at hx
  exact .inl hx

/-- Two neighbours have been merged. -/
theorem Zeroed.merged (h : Zeroed zeroKey ((A ++ l :: r :: B) :: Us)) {Us' : List (Level K)}
    (hUs' : Zeroed zeroKey Us') :
  Zeroed zeroKey ((A ++ ⟨l.page, l.items ++ r.items⟩ :: B) :: Us')
  := by
  apply h.of_items _ hUs'
  intro x hx
  left
  simpa using hx

/-- A node has other items after one that it keeps. -/
theorem Zeroed.replace {L R : List (Entry K)} {e : Entry K} (h : Zeroed zeroKey (W :: Us))
    (hloc : Located W L e R A q B C i D) {M : List (Item K)}
    (hM : ∀ x ∈ M, x ∈ D ∨ x.bound ≠ ⊥) :
  Zeroed zeroKey ((A ++ ⟨q.page, C ++ i :: M⟩ :: B) :: Us)
  := by
  apply h.of_items _ h.tail
  intro x hx
  rw [hloc.level]
  simp only [Level.items_append, Level.items_cons, hloc.items, List.mem_append,
    List.mem_cons] at hx ⊢
  obtain hx | (hx | hx | hx) | hx := hx
  · exact .inl (.inl hx)
  · exact .inl (.inr (.inl (.inl hx)))
  · exact .inl (.inr (.inl (.inr (.inl hx))))
  · obtain hD | hne := hM x hx
    · exact .inl (.inr (.inl (.inr (.inr hD))))
    · exact .inr hne
  · exact .inl (.inr (.inr hx))

/-- A node has a new item after one that it keeps. -/
theorem Zeroed.ofKey {L R : List (Entry K)} {e : Entry K} (h : Zeroed zeroKey (W :: Us))
    (hloc : Located W L e R A q B C i D) {key : K} {child : Int} {M : List (Item K)}
    (hM : M ⊆ D) :
  Zeroed zeroKey ((A ++ ⟨q.page, C ++ i :: Item.ofKey key child :: M⟩ :: B) :: Us)
  := by
  apply h.replace hloc
  intro x hx
  rw [List.mem_cons] at hx
  obtain rfl | hx := hx
  · exact .inr WithBot.coe_ne_bot
  · exact .inl (hM hx)

end Zeroed

/-- The items that stand for the bound `⊥` have a key below all the other bounds. -/
structure Anchored [LT K] (zeroKey : K) (below : List (Entry K)) (Us : List (Level K)) : Prop where
  zeroed : Zeroed zeroKey Us
  lt : ∀ e ∈ below, e.1 ≠ ⊥ → (zeroKey : WithBot K) < e.1

section Anchored

variable [LT K] {zeroKey : K} {U : Level K} {Us : List (Level K)} {L R : List (Entry K)}
  {e e' : Entry K} {A B : Level K} {q : Branch K} {C D : List (Item K)} {i j : Item K}

/-- The levels above a level. -/
theorem Anchored.tail (h : Anchored zeroKey (Level.below U) (U :: Us))
    (hne : ∀ n ∈ U, n.items ≠ []) :
  Anchored zeroKey (Level.entries U) Us
  := by
  refine ⟨h.zeroed.tail, ?_⟩
  intro e he
  have hmem := (bounds_sublist hne).subset (List.mem_map_of_mem he)
  obtain ⟨e', he', heq⟩ := List.mem_map.mp hmem
  rw [← heq]
  apply h.lt e' he'

/-- An entry below the levels has been taken away. -/
theorem Anchored.remove (h : Anchored zeroKey (L ++ e :: e' :: R) (U :: Us))
    (hloc : Located U L e (e' :: R) A q B C i (j :: D)) :
  Anchored zeroKey (L ++ e :: R) ((A ++ ⟨q.page, C ++ i :: D⟩ :: B) :: Us)
  := by
  constructor
  · apply h.zeroed.replace hloc
    intro x hx
    exact .inl (List.mem_cons_of_mem j hx)
  · intro x hx
    apply h.lt
    rw [List.mem_append, List.mem_cons] at hx
    rw [List.mem_append, List.mem_cons, List.mem_cons]
    exact hx.imp_right (.imp_right .inr)

end Anchored

end Levels
