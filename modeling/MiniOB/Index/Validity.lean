import MiniOB.Index.Refinement

/-!
# Valid trees

What `validate_tree` and `validate_leaf_link` look for, and more: the shape of the tree, the
parents, the keys between the children, the links of the leaves and the sizes of the nodes.
All of it is stated on the pages of the tree.
-/

namespace MiniOB.BplusTree

open LowerBound Levels

variable {K V : Type}

/-! ### Valid trees -/

/-- The page `child` is a child of the node on `page`. -/
def Tree.Child (t : Tree K V) (page child : Int) : Prop :=
  ∃ items, t.body page = some (.internal items) ∧ child ∈ items.map Prod.snd

/-- The page `page` is `depth` steps below the page `top`. -/
inductive Tree.Below (t : Tree K V) (top : Int) : Nat → Int → Prop where
  | refl : Below t top 0 top
  | step {depth : Nat} {page child : Int} (below : Below t top depth page)
      (last : t.Child page child) : Below t top (depth + 1) child

/-- The pages on the way from the root to the leftmost leaf. -/
inductive Tree.LeftmostSpine (t : Tree K V) : Int → Prop where
  | root : LeftmostSpine t t.rootPage
  | first {page child : Int} {key : K} {items : List (K × Int)} (spine : LeftmostSpine t page)
      (body : t.body page = some (.internal ((key, child) :: items))) : LeftmostSpine t child

/-- The leaves below a page, from left to right. -/
def Tree.leavesBelow (t : Tree K V) : Nat → Int → List Int
  | 0, _ => []
  | fuel + 1, page =>
    match t.body page with
    | some (.internal items) => items.flatMap fun item => t.leavesBelow fuel item.2
    | some (.leaf ..) => [page]
    | none => []

/-- The pages are leaves, each linked to the next one, and the last one to no page. -/
def Tree.LeafLinks (t : Tree K V) : List Int → Prop
  | [] => True
  | page :: pages => (∃ items, t.body page = some (.leaf (pages.head?.getD invalidPageNum) items))
    ∧ t.LeafLinks pages

/-- A key of a leaf below a page. -/
def Tree.KeyBelow (t : Tree K V) (page : Int) (key : K) : Prop :=
  ∃ depth leaf nextBrother items, t.Below page depth leaf
    ∧ t.body leaf = some (.leaf nextBrother items) ∧ key ∈ items.map Prod.fst

/-- A valid tree that is not empty. -/
structure Tree.Valid [LinearOrder K] (c : Parameters K) (t : Tree K V) : Prop where
  /-- Every page below the root is a node. -/
  node : ∀ depth page, t.Below t.rootPage depth page → (t.body page).isSome
  /-- All leaves have the same depth. -/
  depth : ∃ height, ∀ depth page nextBrother items, t.Below t.rootPage depth page →
    t.body page = some (.leaf nextBrother items) → depth = height
  /-- Every node names the node that holds it as its parent, and the root names none. -/
  parent : ∀ depth page child, t.Below t.rootPage depth page → t.Child page child →
    t.parent child = some page
  parent_root : t.parent t.rootPage = some invalidPageNum
  /-- The keys from the second one on separate the keys below the children. -/
  separates : ∀ depth page items index key child key' child',
    t.Below t.rootPage depth page → t.body page = some (.internal items) →
    items[index]? = some (key', child') → items[index + 1]? = some (key, child) →
    (∀ k, t.KeyBelow child' k → k < key) ∧ ∀ k, t.KeyBelow child k → key ≤ k
  /-- The first key of an internal child is the key that its parent has for it. -/
  firstKey : ∀ depth page items index key child childItems,
    t.Below t.rootPage depth page → t.body page = some (.internal items) →
    items[index]? = some (key, child) → t.body child = some (.internal childItems) →
    (1 ≤ index ∨ ¬ t.LeftmostSpine page) → childItems.head?.map Prod.fst = some key
  /-- The links go through the leaves from left to right. -/
  links : ∃ fuel, t.LeafLinks (t.leavesBelow fuel t.rootPage)
    ∧ (∀ depth page nextBrother items, t.Below t.rootPage depth page →
      t.body page = some (.leaf nextBrother items) → page ∈ t.leavesBelow fuel t.rootPage)
    ∧ leftMostPage t = .ok (t.leavesBelow fuel t.rootPage).head? t
  /-- No node is too large, and none but the root is too small. -/
  size_le : ∀ depth page body, t.Below t.rootPage depth page → t.body page = some body →
    body.size ≤ body.maxSize c
  le_size : ∀ depth page body, t.Below t.rootPage depth page → page ≠ t.rootPage →
    t.body page = some body → body.maxSize c / 2 ≤ body.size
  root_size : ∀ items, t.body t.rootPage = some (.internal items) → 2 ≤ items.length
  /-- The header page names the root. -/
  header : t.header = some t.rootPage

/-! ### Rows of nodes -/

section Rows

variable {t : Tree K V} {max : Nat} {below : List (Entry K)} {U : Level K} {Us : List (Level K)}
  {n : Branch K} {i : Nat} {child page : Int} {depth : Nat}

/-- The children of the nodes of a level are on the level below. -/
theorem tower_child (h : Tower max below Us) (hU : Us[i]? = some U) (hn : n ∈ U)
    (hchild : child ∈ n.children) :
  (i = 0 ∧ child ∈ entryPages below)
    ∨ ∃ j U', i = j + 1 ∧ Us[j]? = some U' ∧ ∃ m ∈ U', m.page = child
  := by
  induction Us generalizing below i with
  | nil => simp at hU
  | cons W Us ih =>
    cases i with
    | zero =>
      rw [List.getElem?_cons_zero, Option.some.injEq] at hU
      subst hU
      refine .inl ⟨rfl, ?_⟩
      rw [← h.1, entryPages_below]
      exact List.mem_flatMap.mpr ⟨n, hn, hchild⟩
    | succ i =>
      rw [List.getElem?_cons_succ] at hU
      right
      obtain ⟨rfl, hmem⟩ | ⟨j, U', rfl, hU', hmem⟩ := ih h.2.2 hU
      · rw [entryPages_entries] at hmem
        exact ⟨0, W, rfl, rfl, List.mem_map.mp hmem⟩
      · exact ⟨j + 1, U', rfl, hU', hmem⟩

/-- The root is the only node of the highest level. -/
theorem tower_top (h : Tower max below Us) :
  (Us = [] ∧ top below Us ∈ entryPages below)
    ∨ ∃ j U, Us.length = j + 1 ∧ Us[j]? = some U ∧ ∃ m ∈ U, m.page = top below Us
  := by
  induction Us generalizing below with
  | nil =>
    obtain ⟨page, rfl⟩ := h
    exact .inl ⟨rfl, List.mem_cons_self⟩
  | cons W Us ih =>
    right
    obtain ⟨rfl, hmem⟩ | ⟨j, U, hlen, hU, hmem⟩ := ih h.2.2
    · rw [entryPages_entries] at hmem
      exact ⟨0, W, rfl, rfl, List.mem_map.mp hmem⟩
    · exact ⟨j + 1, U, by rw [List.length_cons, hlen], hU, hmem⟩

theorem tower_size (h : Tower max below Us) (hU : Us[i]? = some U) (hn : n ∈ U) :
  n.items.length ≤ max ∧ 2 ≤ n.items.length ∧ (i + 1 < Us.length → max / 2 ≤ n.items.length)
  := by
  induction Us generalizing below i with
  | nil => simp at hU
  | cons W Us ih =>
    cases i with
    | zero =>
      rw [List.getElem?_cons_zero, Option.some.injEq] at hU
      subst hU
      obtain ⟨hle, htwo, hhalf⟩ := h.2.1 n hn
      refine ⟨hle, htwo, fun hlen => hhalf ?_⟩
      rintro rfl
      simp at hlen
    | succ i =>
      rw [List.getElem?_cons_succ] at hU
      obtain ⟨hle, htwo, hhalf⟩ := ih h.2.2 hU
      refine ⟨hle, htwo, fun hlen => hhalf ?_⟩
      rw [List.length_cons] at hlen
      omega

theorem mem_flatten_of_row (hU : Us[i]? = some U) (hn : n ∈ U) : n ∈ Us.flatten :=
  List.mem_flatten.mpr ⟨U, List.mem_of_getElem? hU, hn⟩

/-- The pages below the root are the pages of the levels, and in the end those of the
leaves. -/
theorem Stands.below_row (h : Stands t max below Us)
    (hleaf : ∀ p ∈ entryPages below, ∀ items, t.body p ≠ some (.internal items))
    (hbelow : t.Below t.rootPage depth page) :
  (depth = Us.length ∧ page ∈ entryPages below)
    ∨ ∃ j U n, depth + j + 1 = Us.length ∧ Us[j]? = some U ∧ n ∈ U ∧ n.page = page
  := by
  induction hbelow with
  | refl =>
    rw [h.root]
    obtain ⟨rfl, hmem⟩ | ⟨j, U, hlen, hU, m, hm, hpage⟩ := tower_top h.tower
    · exact .inl ⟨rfl, hmem⟩
    · exact .inr ⟨j, U, m, by omega, hU, hm, hpage⟩
  | step _ hchild ih =>
    obtain ⟨items, hbody, hmem⟩ := hchild
    obtain ⟨_, hpage⟩ | ⟨j, U, n, hlen, hU, hn, rfl⟩ := ih
    · exact absurd hbody (hleaf _ hpage items)
    · have hholds := h.holds n (mem_flatten_of_row hU hn)
      rw [hholds.body, Option.some.injEq, Body.internal.injEq] at hbody
      rw [← hbody, Branch.slots, List.map_map] at hmem
      obtain ⟨rfl, hmem⟩ | ⟨i, U', rfl, hU', m, hm, hpage⟩ := tower_child h.tower hU hn hmem
      · exact .inl ⟨by omega, hmem⟩
      · exact .inr ⟨i, U', m, by omega, hU', hm, hpage⟩

end Rows

/-! ### Keys between the children -/

section Keys

variable [LinearOrder K] {t : Tree K V} {max : Nat} {es : List (Entry K)} {U : Level K}
  {Us : List (Level K)} {n : Branch K}

/-- The keys below an entry are not smaller than its bound, and smaller than the bounds of
the later entries. -/
def Bounding (t : Tree K V) (es : List (Entry K)) : Prop :=
  ∀ (L : List (Entry K)) (e : Entry K) (R : List (Entry K)), es = L ++ e :: R →
    ∀ key, t.KeyBelow e.2 key →
    e.1 ≤ key ∧ ∀ x ∈ R, (key : WithBot K) < x.1

omit [LinearOrder K] in
/-- A page below another one is that page, or below one of its children. -/
theorem Tree.Below.cases_child {page page' : Int} {depth : Nat} (h : t.Below page depth page') :
  page' = page ∨ ∃ child depth', t.Child page child ∧ t.Below child depth' page'
  := by
  induction h with
  | refl => exact .inl rfl
  | step _ hlast ih =>
    right
    obtain rfl | ⟨child, depth', hchild, hbelow⟩ := ih
    · exact ⟨_, 0, hlast, .refl⟩
    · exact ⟨child, depth' + 1, hchild, hbelow.step hlast⟩

omit [LinearOrder K] in
/-- A key below an internal node is below one of its children. -/
theorem Holds.keyBelow (hn : Holds t n) {key : K} (h : t.KeyBelow n.page key) :
  ∃ i ∈ n.items, t.KeyBelow i.child key
  := by
  obtain ⟨depth, leaf, next, items, hbelow, hbody, hkey⟩ := h
  obtain rfl | ⟨child, depth', ⟨items', hbody', hmem⟩, hbelow'⟩ := hbelow.cases_child
  · rw [hn.body] at hbody
    cases hbody
  · rw [hn.body, Option.some.injEq, Body.internal.injEq] at hbody'
    rw [← hbody', Branch.slots, map_snd_slots] at hmem
    obtain ⟨i, hi, rfl⟩ := List.mem_map.mp hmem
    exact ⟨i, hi, depth', leaf, next, items, hbelow', hbody, hkey⟩

/-- The keys are between the bounds of a level if they are between those below it. -/
theorem Bounding.up (h : Bounding t (Level.below U)) (hasc : Ascending (Level.below U))
    (hholds : ∀ n ∈ U, Holds t n) (hne : ∀ n ∈ U, n.items ≠ []) :
  Bounding t (Level.entries U)
  := by
  intro L e R hsplit key hkey
  obtain ⟨A, U', rfl, rfl, hU'⟩ := List.map_eq_append_iff.mp hsplit
  obtain ⟨n, B, rfl, rfl, rfl⟩ := List.map_eq_cons_iff.mp hU'
  have hn := hholds n (by simp)
  obtain ⟨i, hi, hkey⟩ := hn.keyBelow hkey
  obtain ⟨C, D, hitems⟩ := List.append_of_mem hi
  have hloc : Located (A ++ n :: B) (Level.below A ++ C.map Item.entry) i.entry
      (D.map Item.entry ++ Level.below B) A n B C i D := ⟨rfl, hitems, rfl, rfl, rfl⟩
  have hbelow : Level.below (A ++ n :: B)
      = (Level.below A ++ C.map Item.entry) ++ i.entry :: (D.map Item.entry ++ Level.below B) := by
    rw [Level.below_append, Level.below_cons, hitems]
    simp
  obtain ⟨hle, hlt⟩ := h _ _ _ hbelow key hkey
  have hcovers : Covers key (Level.below A ++ C.map Item.entry) i.entry
      (D.map Item.entry ++ Level.below B) := ⟨hbelow ▸ hasc, hle, hlt⟩
  have hup := hcovers.up hloc hne
  exact ⟨hup.le, hup.lt⟩

/-- The keys below the children of every node are between its keys. -/
theorem Stands.separates (h : Stands t max es Us) (hes : Bounding t es) (hasc : Ascending es)
    (hn : n ∈ Us.flatten) {C D : List (Item K)} {i j : Item K} (hitems : n.items = C ++ i :: j :: D) :
  (∀ k, t.KeyBelow i.child k → k < j.key) ∧ ∀ k, t.KeyBelow j.child k → j.key ≤ k
  := by
  induction Us generalizing es with
  | nil => simp at hn
  | cons U Us ih =>
    have hbelow := h.tower.1
    rw [List.flatten_cons, List.mem_append] at hn
    obtain hn | hn := hn
    · obtain ⟨A, B, rfl⟩ := List.append_of_mem hn
      have hsplit : es = (Level.below A ++ C.map Item.entry) ++ i.entry :: j.entry
          :: (D.map Item.entry ++ Level.below B) := by
        rw [← hbelow, Level.below_append, Level.below_cons, hitems]
        simp
      have hsplit' : es = (Level.below A ++ C.map Item.entry ++ [i.entry]) ++ j.entry
          :: (D.map Item.entry ++ Level.below B) := by
        rw [hsplit]
        simp
      have hj : j.bound = j.key := by
        apply bound_of_not_first (A := C ++ [i]) (B := j :: D) _ (by simp) List.mem_cons_self
        apply hasc.sublist
        rw [hsplit, List.append_assoc (Level.below A)]
        apply List.Sublist.trans _ (List.sublist_append_right (Level.below A) _)
        have hpart : (C ++ [i] ++ j :: D).map Item.entry ++ Level.below B
            = C.map Item.entry ++ i.entry :: j.entry :: (D.map Item.entry ++ Level.below B) := by
          simp
        rw [← hpart]
        apply List.sublist_append_left
      constructor
      · intro k hk
        have hlt := (hes _ _ _ hsplit k hk).2 j.entry List.mem_cons_self
        rw [Item.entry, hj] at hlt
        apply WithBot.coe_lt_coe.mp hlt
      · intro k hk
        have hle := (hes _ _ _ hsplit' k hk).1
        rw [Item.entry, hj] at hle
        apply WithBot.coe_le_coe.mp hle
    · have hne : ∀ n ∈ U, n.items ≠ [] := fun n hn => h.tower.ne_nil_of_mem hn
      rw [← hbelow] at hes hasc
      apply ih h.tail (hes.up hasc (fun n hn => h.holds_head hn) hne) (hasc.entries hne) hn

end Keys

/-! ### First keys -/

section FirstKeys

variable [LinearOrder K] {t : Tree K V} {max : Nat} {es : List (Entry K)} {U : Level K}
  {Us : List (Level K)} {n : Branch K}

omit [LinearOrder K] in
/-- The first node of every level is on the leftmost spine. -/
theorem Stands.head_spine (h : Stands t max es Us) :
  ∃ e es', es = e :: es' ∧ t.LeftmostSpine e.2
  := by
  induction Us generalizing es with
  | nil =>
    obtain ⟨page, rfl⟩ := h.tower
    refine ⟨(⊥, page), [], rfl, ?_⟩
    have hroot : t.rootPage = page := h.root
    rw [← hroot]
    apply Tree.LeftmostSpine.root
  | cons U Us ih =>
    obtain ⟨e, es', hU, hspine⟩ := ih h.tail
    obtain ⟨m, U, rfl, rfl, _⟩ := List.map_eq_cons_iff.mp hU
    obtain ⟨i, items, hitems⟩ := List.exists_cons_of_ne_nil
      (h.tower.ne_nil_of_mem List.mem_cons_self)
    have hbody := (h.holds_head List.mem_cons_self).body
    rw [Branch.slots, hitems, List.map_cons] at hbody
    refine ⟨i.entry, items.map Item.entry ++ Level.below U, ?_, hspine.first hbody⟩
    rw [← h.tower.1, Level.below_cons, hitems, List.map_cons, List.cons_append]

/-- The bound of an entry is the first key of the node, if the node is an internal one. -/
def FirstKeys (t : Tree K V) (es : List (Entry K)) : Prop :=
  ∀ e ∈ es, ∀ items, t.body e.2 = some (.internal items) → e.1 ≠ ⊥ →
    ∃ key : K, e.1 = key ∧ items.head?.map Prod.fst = some key

omit [LinearOrder K] in
theorem firstKeys_entries (hholds : ∀ n ∈ U, Holds t n) (hne : ∀ n ∈ U, n.items ≠ []) :
  FirstKeys t (Level.entries U)
  := by
  intro e he items hbody hbot
  obtain ⟨n, hn, rfl⟩ := List.mem_map.mp he
  obtain ⟨i, rest, hitems⟩ := List.exists_cons_of_ne_nil (hne n hn)
  rw [Branch.entry_snd, (hholds n hn).body, Option.some.injEq, Body.internal.injEq] at hbody
  have hbound : n.entry.1 = i.bound := by
    simp [Branch.entry, Branch.bound, hitems]
  rw [hbound] at hbot ⊢
  refine ⟨i.key, (coe_key_of_bound_ne hbot).symm, ?_⟩
  rw [← hbody, Branch.slots, hitems]
  rfl

/-- The first key of an internal child is the key that its parent has for it. -/
theorem Stands.firstKey (h : Stands t max es Us) (hes : FirstKeys t es) (hasc : Ascending es)
    (hn : n ∈ Us.flatten) {C D : List (Item K)} {i : Item K} {items : List (K × Int)}
    (hitems : n.items = C ++ i :: D) (hbody : t.body i.child = some (.internal items))
    (hnot : C ≠ [] ∨ ¬ t.LeftmostSpine n.page) :
  items.head?.map Prod.fst = some i.key
  := by
  induction Us generalizing es with
  | nil => simp at hn
  | cons U Us ih =>
    have hne : ∀ n ∈ U, n.items ≠ [] := fun n hn => h.tower.ne_nil_of_mem hn
    rw [List.flatten_cons, List.mem_append] at hn
    obtain hn | hn := hn
    · obtain ⟨A, B, rfl⟩ := List.append_of_mem hn
      have hsplit : es = (Level.below A ++ C.map Item.entry) ++ i.entry
          :: (D.map Item.entry ++ Level.below B) := by
        rw [← h.tower.1, Level.below_append, Level.below_cons, hitems]
        simp
      -- the item is not the first one of its level
      have hleft : Level.below A ++ C.map Item.entry ≠ [] := by
        obtain hC | hspine := hnot
        · simp [hC]
        · intro hnil
          obtain ⟨hA, _⟩ := List.append_eq_nil_iff.mp hnil
          apply hspine
          obtain ⟨e, es', hU, hhead⟩ := h.tail.head_spine
          cases A with
          | nil =>
            rw [List.nil_append, Level.entries_cons, List.cons.injEq] at hU
            rwa [← hU.1] at hhead
          | cons a A =>
            rw [Level.below_cons, List.append_eq_nil_iff, List.map_eq_nil_iff] at hA
            exact absurd hA.1 (hne a (by simp))
      have hbot : i.bound ≠ ⊥ := by
        obtain ⟨e, L, hL⟩ := List.exists_cons_of_ne_nil hleft
        rw [hsplit, hL, Ascending, List.cons_append, List.map_cons] at hasc
        have hlt : e.1 < i.bound := by
          apply (List.pairwise_cons.mp hasc).1
          simp [Item.entry]
        apply ne_bot_of_gt hlt
      obtain ⟨key, hkey, hhead⟩ := hes i.entry (by simp [hsplit]) items hbody hbot
      change i.bound = key at hkey
      rw [← coe_key_of_bound_ne hbot, WithBot.coe_inj] at hkey
      rw [hhead, hkey]
    · have hholds : ∀ n ∈ U, Holds t n := fun n hn => h.holds_head hn
      rw [← h.tower.1] at hasc
      apply ih h.tail (firstKeys_entries hholds hne) (hasc.entries hne) hn

end FirstKeys

/-! ### The leaves from left to right -/

section Links

variable {t : Tree K V} {max : Nat} {es : List (Entry K)} {Us : List (Level K)}
  {ls : List (Leaf K V)}

/-- The leaves below the root are the leaves below the entries. -/
theorem Stands.leavesBelow (h : Stands t max es Us) (fuel : Nat) :
  t.leavesBelow (Us.length + fuel) (top es Us) = (entryPages es).flatMap (t.leavesBelow fuel)
  := by
  induction Us generalizing es fuel with
  | nil =>
    obtain ⟨page, rfl⟩ := h.tower
    simp [top]
  | cons U Us ih =>
    have hlength : (U :: Us).length + fuel = Us.length + (fuel + 1) := by
      rw [List.length_cons]
      omega
    rw [top, hlength, ih h.tail (fuel + 1), entryPages_entries, ← h.tower.1, entryPages_below,
      List.flatMap_map, List.flatMap_assoc]
    apply List.flatMap_congr
    intro n hn
    rw [Tree.leavesBelow, (h.holds_head hn).body, Branch.children, Branch.slots]
    simp only [List.flatMap_map]
    rfl

theorem Linked.leafLinks (h : Linked t invalidPageNum ls) : t.LeafLinks (ls.map Leaf.page) := by
  induction ls with
  | nil => trivial
  | cons l ls ih =>
    refine ⟨⟨l.items, ?_⟩, ih h.2⟩
    have hfirst : firstPage invalidPageNum ls = (ls.map Leaf.page).head?.getD invalidPageNum := by
      cases ls <;> rfl
    rw [← hfirst]
    apply h.1

end Links

/-! ### Reachable trees -/

section Valid

variable [LinearOrder K] {c : Parameters K} {t : Tree K V} {ls : List (Leaf K V)}
  {Us : List (Level K)} {depth : Nat} {page : Int} {items : List (K × Int)}

/-- A page below the root is a leaf or an inner node. -/
theorem Represents.below_cases (h : Represents c t ls Us) (hbelow : t.Below t.rootPage depth page) :
  (∃ l ∈ ls, l.page = page ∧ depth = Us.length)
    ∨ ∃ j U n, depth + j + 1 = Us.length ∧ Us[j]? = some U ∧ n ∈ U ∧ n.page = page
  := by
  have hleaf : ∀ p ∈ entryPages (ls.map Leaf.entry), ∀ items, t.body p ≠ some (.internal items) := by
    intro p hp items hbody
    rw [entryPages_leaves] at hp
    obtain ⟨l, hl, rfl⟩ := List.mem_map.mp hp
    obtain ⟨A, B, rfl⟩ := List.append_of_mem hl
    rw [h.linked.body] at hbody
    cases hbody
  obtain ⟨hdepth, hpage⟩ | hinner := h.stands.below_row hleaf hbelow
  · rw [entryPages_leaves] at hpage
    obtain ⟨l, hl, rfl⟩ := List.mem_map.mp hpage
    exact .inl ⟨l, hl, rfl, hdepth⟩
  · exact .inr hinner

theorem Represents.leaf_body (h : Represents c t ls Us) {l : Leaf K V} (hl : l ∈ ls) :
  ∃ next, t.body l.page = some (.leaf next l.items)
  := by
  obtain ⟨A, B, rfl⟩ := List.append_of_mem hl
  exact ⟨_, h.linked.body⟩

/-- The inner node on a page below the root. -/
theorem Represents.exists_branch (h : Represents c t ls Us)
    (hbelow : t.Below t.rootPage depth page) (hbody : t.body page = some (.internal items)) :
  ∃ j U n, depth + j + 1 = Us.length ∧ Us[j]? = some U ∧ n ∈ U ∧ n.page = page
    ∧ items = n.slots ∧ n ∈ Us.flatten
  := by
  obtain ⟨l, hl, rfl, _⟩ | ⟨j, U, n, hlen, hU, hn, rfl⟩ := h.below_cases hbelow
  · obtain ⟨next, hleaf⟩ := h.leaf_body hl
    rw [hleaf] at hbody
    cases hbody
  · have hflat := mem_flatten_of_row hU hn
    rw [(h.stands.holds n hflat).body, Option.some.injEq, Body.internal.injEq] at hbody
    exact ⟨j, U, n, hlen, hU, hn, rfl, hbody.symm, hflat⟩

/-- The leaf on a page below the root. -/
theorem Represents.exists_leaf (h : Represents c t ls Us) {next : Int} {leafItems : List (K × V)}
    (hbelow : t.Below t.rootPage depth page) (hbody : t.body page = some (.leaf next leafItems)) :
  ∃ l ∈ ls, l.page = page ∧ leafItems = l.items ∧ depth = Us.length
  := by
  obtain ⟨l, hl, rfl, hdepth⟩ | ⟨j, U, n, _, hU, hn, rfl⟩ := h.below_cases hbelow
  · obtain ⟨next', hleaf⟩ := h.leaf_body hl
    rw [hleaf, Option.some.injEq, Body.leaf.injEq] at hbody
    exact ⟨l, hl, rfl, hbody.2.symm, hdepth⟩
  · rw [(h.stands.holds n (mem_flatten_of_row hU hn)).body] at hbody
    cases hbody

omit [LinearOrder K] in
theorem exists_item {n : Branch K} {index : Nat} {key : K} {child : Int}
    (h : n.slots[index]? = some (key, child)) :
  ∃ C i D, n.items = C ++ i :: D ∧ C.length = index ∧ i.key = key ∧ i.child = child
  := by
  rw [Branch.slots, List.getElem?_map, Option.map_eq_some_iff] at h
  obtain ⟨i, hi, hslot⟩ := h
  obtain ⟨hlt, rfl⟩ := List.getElem?_eq_some_iff.mp hi
  refine ⟨n.items.take index, n.items[index], n.items.drop (index + 1), ?_, ?_, ?_, ?_⟩
  · rw [List.getElem_cons_drop, List.take_append_drop]
  · apply List.length_take_of_le hlt.le
  · apply congrArg Prod.fst hslot
  · apply congrArg Prod.snd hslot

/-- The keys of the leaves are between the bounds. -/
theorem Represents.bounding (h : Represents c t ls Us) : Bounding t (ls.map Leaf.entry) := by
  intro L e R hsplit key hkey
  obtain ⟨A, ls', rfl, rfl, hls'⟩ := List.map_eq_append_iff.mp hsplit
  obtain ⟨l, B, rfl, rfl, rfl⟩ := List.map_eq_cons_iff.mp hls'
  obtain ⟨depth, leaf, next, items, hbelow, hbody, hmem⟩ := hkey
  rw [Leaf.entry_snd] at hbelow
  obtain rfl | ⟨child, depth', ⟨items', hbody', _⟩, _⟩ := hbelow.cases_child
  · rw [h.linked.body, Option.some.injEq, Body.leaf.injEq] at hbody
    obtain ⟨item, hitem, rfl⟩ := List.mem_map.mp hmem
    rw [← hbody.2] at hitem
    have hmarks := h.ordered
    rw [Ordered, marks_append, marks_cons] at hmarks
    have htail := List.pairwise_cons.mp (List.pairwise_append.mp hmarks).2.1
    constructor
    · apply htail.1 _ (List.mem_append_left _ (mem_itemMarks hitem))
    · intro x hx
      obtain ⟨r, hr, rfl⟩ := List.mem_map.mp hx
      apply (List.pairwise_append.mp htail.2).2.2 _ (mem_itemMarks hitem) _ (mem_marks_bound hr)
  · rw [h.linked.body] at hbody'
    cases hbody'

/-- The leaves below the root, from left to right. -/
theorem Represents.leavesBelow (h : Represents c t ls Us) :
  t.leavesBelow (Us.length + 1) t.rootPage = ls.map Leaf.page
  := by
  rw [h.stands.root, h.stands.leavesBelow, entryPages_leaves, List.flatMap_map]
  have hone : ∀ l ∈ ls, t.leavesBelow 1 l.page = [l.page] := by
    intro l hl
    obtain ⟨next, hbody⟩ := h.leaf_body hl
    rw [Tree.leavesBelow, hbody]
  rw [List.flatMap_congr hone, List.map_eq_flatMap]

/-- A tree with leaves and levels is valid. -/
theorem Represents.valid (h : Represents c t ls Us) : t.Valid c where
  node := by
    intro depth page hbelow
    obtain ⟨l, hl, rfl, _⟩ | ⟨j, U, n, _, hU, hn, rfl⟩ := h.below_cases hbelow
    · apply h.stands.leaf_isSome hl
    · apply h.stands.isSome_pages (mem_pages (mem_flatten_of_row hU hn))
  depth := by
    refine ⟨Us.length, ?_⟩
    intro depth page next items hbelow hbody
    obtain ⟨l, _, _, _, hdepth⟩ := h.exists_leaf hbelow hbody
    apply hdepth
  parent := by
    intro depth page child hbelow ⟨items, hbody, hmem⟩
    obtain ⟨j, U, n, _, _, _, rfl, rfl, hflat⟩ := h.exists_branch hbelow hbody
    apply (h.stands.holds n hflat).parent
    rwa [Branch.slots, map_snd_slots] at hmem
  parent_root := by
    rw [h.stands.root]
    apply h.stands.parent
  separates := by
    intro depth page items index key child key' child' hbelow hbody hindex' hindex
    obtain ⟨j, U, n, _, _, _, rfl, rfl, hflat⟩ := h.exists_branch hbelow hbody
    obtain ⟨C, i, D, hitems, rfl, rfl, rfl⟩ := exists_item hindex'
    obtain ⟨C', i', D', hitems', hlen, rfl, rfl⟩ := exists_item hindex
    obtain ⟨rfl, hrest⟩ : C' = C ++ [i] ∧ i' :: D' = D := by
      rw [hitems'] at hitems
      have hsplit : C' ++ i' :: D' = (C ++ [i]) ++ D := by
        rw [hitems]
        simp
      apply List.append_inj hsplit
      simp [hlen]
    rw [← hrest] at hitems
    apply h.stands.separates h.bounding h.ordered.ascending hflat hitems
  firstKey := by
    intro depth page items index key child childItems hbelow hbody hindex hchild hnot
    obtain ⟨j, U, n, _, _, _, rfl, rfl, hflat⟩ := h.exists_branch hbelow hbody
    obtain ⟨C, i, D, hitems, rfl, rfl, rfl⟩ := exists_item hindex
    have hes : FirstKeys t (ls.map Leaf.entry) := by
      intro e he items hbody
      obtain ⟨l, hl, rfl⟩ := List.mem_map.mp he
      obtain ⟨next, hleaf⟩ := h.leaf_body hl
      rw [Leaf.entry_snd, hleaf] at hbody
      cases hbody
    apply h.stands.firstKey hes h.ordered.ascending hflat hitems hchild
    apply hnot.imp_left
    intro hpos
    apply List.ne_nil_of_length_pos hpos
  links := by
    refine ⟨Us.length + 1, ?_⟩
    rw [h.leavesBelow]
    refine ⟨h.linked.leafLinks, ?_, ?_⟩
    · intro depth page next items hbelow hbody
      obtain ⟨l, hl, rfl, _⟩ := h.exists_leaf hbelow hbody
      apply List.mem_map_of_mem hl
    · obtain ⟨l, ls', rfl, _⟩ := h.exists_first
      apply h.leftMostPage
  size_le := by
    intro depth page body hbelow hbody
    obtain ⟨next, items⟩ | items := body
    · obtain ⟨l, hl, rfl, rfl, _⟩ := h.exists_leaf hbelow hbody
      apply (h.sizes l hl).1
    · obtain ⟨j, U, n, _, hU, hn, rfl, rfl, _⟩ := h.exists_branch hbelow hbody
      rw [size_slots]
      apply (tower_size h.stands.tower hU hn).1
  le_size := by
    intro depth page body hbelow hroot hbody
    have hdepth : depth ≠ 0 := by
      rintro rfl
      cases hbelow
      contradiction
    obtain ⟨next, items⟩ | items := body
    · obtain ⟨l, hl, rfl, rfl, rfl⟩ := h.exists_leaf hbelow hbody
      apply (h.sizes l hl).2.2
      apply List.ne_nil_of_length_pos
      omega
    · obtain ⟨j, U, n, hlen, hU, hn, rfl, rfl, _⟩ := h.exists_branch hbelow hbody
      rw [size_slots]
      apply (tower_size h.stands.tower hU hn).2.2
      omega
  root_size := by
    intro items hbody
    obtain ⟨j, U, n, _, hU, hn, _, rfl, _⟩ := h.exists_branch .refl hbody
    rw [Branch.length_slots]
    apply (tower_size h.stands.tower hU hn).2.1
  header := by
    rw [h.stands.header, h.stands.root]

end Valid

/-- Every tree that calls on a new tree lead to is valid, or it is empty and both headers say
so. -/
theorem bplusTree_valid {U : Type} [LinearOrder (Key U)] (c : Parameters (Key U))
    (hleafMax : 4 ≤ c.leafMaxSize) (hmax : 6 ≤ c.internalMaxSize) (calls : List (Call U)) :
  ∃ rcs t, execAll c calls Tree.create = .ok rcs t
    ∧ (t.rootPage = invalidPageNum ↔ (applyAll calls (∅ : Finset (Key U))).2 = ∅)
    ∧ t.header = some t.rootPage ∧ (t.rootPage ≠ invalidPageNum → t.Valid c)
  := by
  obtain ⟨t, hrun, hrefines⟩ := (create_refines (c := c)).execAll hmax hleafMax calls
  refine ⟨_, t, hrun, ?_⟩
  obtain ⟨hvacant, hempty⟩ | ⟨ls, Us, hrep, _, hne⟩ := hrefines
  · refine ⟨?_, ?_, fun hroot => absurd hvacant.root hroot⟩
    · simp [hvacant.root, hempty]
    · rw [hvacant.header, hvacant.root]
  · have hroot : t.rootPage ≠ invalidPageNum := by
      rw [hrep.stands.root]
      apply ne_invalid_of_body (hrep.stands.isSome hrep.stands.tower.top_mem)
    refine ⟨?_, hrep.valid.header, fun _ => hrep.valid⟩
    simp [hroot, hne]

/-- The tree after nine insertions and three deletions. -/
theorem bplusTree_valid_nine :
  ∃ rcs t, @execAll Nat Key.lexOrder ⟨6, 4, ⟨0, ⟨0, 0⟩⟩⟩
      (((List.range 9).map fun k => Call.insertEntry k ⟨1, 0⟩)
        ++ (List.range 3).map fun k => Call.deleteEntry k ⟨1, 0⟩) Tree.create = .ok rcs t
    ∧ @Tree.Valid _ _ Key.lexOrder ⟨6, 4, ⟨0, ⟨0, 0⟩⟩⟩ t
  := by
  obtain ⟨rcs, t, hrun, hempty, _, hvalid⟩ := @bplusTree_valid Nat Key.lexOrder ⟨6, 4, ⟨0, ⟨0, 0⟩⟩⟩
    (by decide) (by decide) (((List.range 9).map fun k => Call.insertEntry k ⟨1, 0⟩)
      ++ (List.range 3).map fun k => Call.deleteEntry k ⟨1, 0⟩)
  refine ⟨rcs, t, hrun, hvalid ?_⟩
  rw [ne_eq, hempty]
  decide +kernel

end MiniOB.BplusTree
