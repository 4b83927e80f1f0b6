import MiniOB.Index.Effects
import MiniOB.Lib.Levels

/-!
# Trees that stand on their levels

A tree holds the inner nodes of a tower of levels on its pages: every node has the items of
its branch, and is the parent of its children.
-/

namespace MiniOB.BplusTree

open LowerBound Levels

variable {K V : Type}

/-! ### Searching the items of a node -/

section Lookup

theorem tail_slots_keys (items : List (Item K)) :
  (items.map Item.slot).tail.map Prod.fst = items.tail.map Item.key
  := by
  cases items <;> simp [Item.slot, Function.comp_def]

theorem coe_key_of_bound_ne {item : Item K} (h : item.bound ≠ ⊥) :
  (item.key : WithBot K) = item.bound
  := by
  obtain hbot | hkey := item.bound_eq
  · contradiction
  · apply hkey.symm

variable [LinearOrder K] {C D : List (Item K)} {i : Item K} {key : K}

theorem bound_lt_of_ascending (hasc : Ascending ((C ++ i :: D).map Item.entry)) {c : Item K}
    (hc : c ∈ C) :
  c.bound < i.bound
  := by
  simp only [Ascending, List.map_append, List.map_cons, List.map_map] at hasc
  apply (List.pairwise_append.mp hasc).2.2
  · exact List.mem_map.mpr ⟨c, hc, rfl⟩
  · apply List.mem_cons_self

theorem bound_lt_of_ascending_right (hasc : Ascending ((C ++ i :: D).map Item.entry)) {d : Item K}
    (hd : d ∈ D) :
  i.bound < d.bound
  := by
  simp only [Ascending, List.map_append, List.map_cons, List.map_map] at hasc
  apply (List.pairwise_cons.mp (List.pairwise_append.mp hasc).2.1).1
  exact List.mem_map.mpr ⟨d, hd, rfl⟩

/-- The items after the first one have their key as their bound. -/
theorem coe_key_of_mem_tail {first item : Item K}
    (hasc : Ascending ((first :: D).map Item.entry)) (hitem : item ∈ D) :
  (item.key : WithBot K) = item.bound
  := by
  apply coe_key_of_bound_ne
  apply ne_bot_of_gt (bound_lt_of_ascending_right (C := []) hasc hitem)

/-- The bound of an item that is not the first one of a node. -/
theorem bound_of_not_first {A B : List (Item K)} {j : Item K}
    (hasc : Ascending ((A ++ B).map Item.entry)) (hA : A ≠ []) (hj : j ∈ B) :
  j.bound = j.key
  := by
  obtain ⟨a, A, rfl⟩ := List.exists_cons_of_ne_nil hA
  symm
  apply coe_key_of_mem_tail (D := A ++ B) hasc
  apply List.mem_append_right _ hj

theorem key_lt_of_bound_lt {item : Item K} (h : (key : WithBot K) < item.bound) : key < item.key := by
  rw [← coe_key_of_bound_ne (ne_bot_of_gt h)] at h
  apply WithBot.coe_lt_coe.mp h

/-- A key that is not among the bounds goes between the smaller and the larger ones. -/
theorem insertPosition_eq (hasc : Ascending ((C ++ i :: D).map Item.entry))
    (hi : i.bound < key ∨ C = []) (hD : ∀ d ∈ D, (key : WithBot K) < d.bound) :
  insertPosition ((C ++ i :: D).map Item.slot) key = C.length + 1
  := by
  have hlarge : ∀ k ∈ D.map Item.key, key < k := by
    intro k hk
    obtain ⟨d, hd, rfl⟩ := List.mem_map.mp hk
    apply key_lt_of_bound_lt (hD d hd)
  rw [insertPosition, tail_slots_keys]
  cases C with
  | nil =>
    rw [List.nil_append, List.tail_cons, ← List.nil_append (D.map Item.key),
      lowerBound_absent (by simp) hlarge]
    rfl
  | cons c C =>
    have hi : i.bound < key := by simpa using hi
    have hsmall : ∀ k ∈ (C ++ [i]).map Item.key, k < key := by
      intro k hk
      obtain ⟨x, hx, rfl⟩ := List.mem_map.mp hk
      have hxkey : (x.key : WithBot K) = x.bound := by
        apply coe_key_of_mem_tail (D := C ++ i :: D) hasc
        rw [List.mem_append, List.mem_singleton] at hx
        rw [List.mem_append, List.mem_cons]
        tauto
      rw [List.mem_append, List.mem_singleton] at hx
      rw [← WithBot.coe_lt_coe, hxkey]
      obtain hx | rfl := hx
      · apply (bound_lt_of_ascending hasc (List.mem_cons_of_mem _ hx)).trans hi
      · apply hi
    have hsplit : (c :: C ++ i :: D).tail.map Item.key
        = (C ++ [i]).map Item.key ++ D.map Item.key := by simp
    rw [hsplit, lowerBound_absent hsmall hlarge]
    simp

/-- A key that is a bound is found there. -/
theorem insertPosition_of_eq {c : Item K} (hasc : Ascending ((c :: C ++ i :: D).map Item.entry)) :
  insertPosition ((c :: C ++ i :: D).map Item.slot) i.key = C.length + 1
  := by
  have hikey : (i.key : WithBot K) = i.bound := by
    apply coe_key_of_mem_tail hasc
    simp
  have hlarge : ∀ k ∈ D.map Item.key, i.key < k := by
    intro k hk
    obtain ⟨d, hd, rfl⟩ := List.mem_map.mp hk
    apply key_lt_of_bound_lt
    rw [hikey]
    apply bound_lt_of_ascending_right hasc hd
  have hsmall : ∀ k ∈ C.map Item.key, k < i.key := by
    intro k hk
    obtain ⟨x, hx, rfl⟩ := List.mem_map.mp hk
    have hxkey : (x.key : WithBot K) = x.bound := by
      apply coe_key_of_mem_tail hasc
      apply List.mem_append_left _ hx
    rw [← WithBot.coe_lt_coe, hxkey, hikey]
    apply bound_lt_of_ascending hasc (List.mem_cons_of_mem _ hx)
  rw [insertPosition, tail_slots_keys]
  have hsplit : (c :: C ++ i :: D).tail.map Item.key
      = C.map Item.key ++ i.key :: D.map Item.key := by simp
  rw [hsplit, lowerBound_present hsmall hlarge]
  simp

/-- The child that a key belongs to is the last one whose bound the key has reached. -/
theorem internalLookup_eq (hasc : Ascending ((C ++ i :: D).map Item.entry))
    (hi : i.bound ≤ key) (hD : ∀ d ∈ D, (key : WithBot K) < d.bound) :
  internalLookup ((C ++ i :: D).map Item.slot) key = C.length
  := by
  by_cases hlt : i.bound < key ∨ C = []
  · simp only [internalLookup, insertPosition_eq hasc hlt hD]
    have hnext : ((C ++ i :: D).map Item.slot)[C.length + 1]? = (D.map Item.slot).head? := by
      simp [List.getElem?_append_right, List.head?_eq_getElem?]
    rw [hnext]
    cases D with
    | nil => rfl
    | cons d D =>
      have hkey := key_lt_of_bound_lt (hD d List.mem_cons_self)
      simp only [List.map_cons, List.head?_cons, Item.slot, if_pos hkey]
      rfl
  · rw [not_or] at hlt
    obtain ⟨hnlt, hC⟩ := hlt
    have heq : i.bound = key := le_antisymm hi (not_lt.mp hnlt)
    have hikey : i.key = key := by
      have hne : i.bound ≠ ⊥ := by simp [heq]
      rw [← coe_key_of_bound_ne hne, WithBot.coe_inj] at heq
      apply heq
    obtain ⟨c, C, rfl⟩ := List.exists_cons_of_ne_nil hC
    subst hikey
    simp only [internalLookup, insertPosition_of_eq hasc]
    have hthis : ((c :: C ++ i :: D).map Item.slot)[C.length + 1]? = some i.slot := by
      simp
    rw [hthis]
    simp [Item.slot]

end Lookup

/-! ### Standing on levels -/

/-- The tree holds a node: its items are on its page, and its children know it. -/
structure Holds (t : Tree K V) (n : Branch K) : Prop where
  body : t.body n.page = some (.internal n.slots)
  parent : ∀ child ∈ n.children, t.parent child = some n.page

/-- The tree holds the levels `Us`, which stand on the nodes with the entries `below`. -/
structure Stands (t : Tree K V) (max : Nat) (below : List (Entry K)) (Us : List (Level K)) :
    Prop where
  tower : Tower max below Us
  holds : ∀ n ∈ Us.flatten, Holds t n
  parent : t.parent (top below Us) = some invalidPageNum
  root : t.rootPage = top below Us
  header : t.header = some (top below Us)
  nodup : (entryPages below ++ pages Us).Nodup

section Stands

variable {t t' : Tree K V} {max : Nat} {below : List (Entry K)} {U : Level K} {Us : List (Level K)}
  {n : Branch K}

theorem Holds.congr (h : Holds t n) (hbody : t'.body n.page = t.body n.page)
    (hparent : ∀ child ∈ n.children, t'.parent child = t.parent child) :
  Holds t' n
  := by
  constructor
  · rw [hbody, h.body]
  · intro child hchild
    rw [hparent child hchild, h.parent child hchild]

theorem Holds.isSome_slots (h : Holds t n) : ∀ slot ∈ n.slots, (t.body slot.2).isSome := by
  intro slot hslot
  obtain ⟨item, hitem, rfl⟩ := List.mem_map.mp hslot
  apply isSome_body_of_parent (h.parent item.child (List.mem_map_of_mem hitem))

theorem mem_pages (hn : n ∈ Us.flatten) : n.page ∈ pages Us := List.mem_map_of_mem hn

/-- A tree that has changed elsewhere only stands on the same levels. -/
theorem Stands.congr (h : Stands t max below Us) (hbody : ∀ p ∈ pages Us, t'.body p = t.body p)
    (hparent : ∀ p ∈ entryPages below ++ pages Us, t'.parent p = t.parent p)
    (hroot : t'.rootPage = t.rootPage) (hheader : t'.header = t.header) :
  Stands t' max below Us
  := by
  refine ⟨h.tower, ?_, ?_, hroot.trans h.root, hheader.trans h.header, h.nodup⟩
  · intro n hn
    apply (h.holds n hn).congr (hbody _ (mem_pages hn))
    intro child hchild
    apply hparent
    rw [List.mem_append]
    apply h.tower.child_mem hn hchild
  · rw [hparent _ h.tower.top_mem, h.parent]

theorem Stands.tail (h : Stands t max below (U :: Us)) : Stands t max (Level.entries U) Us := by
  refine ⟨h.tower.2.2, ?_, h.parent, h.root, h.header, ?_⟩
  · intro n hn
    apply h.holds
    rw [List.flatten_cons]
    apply List.mem_append_right _ hn
  · rw [entryPages_entries, ← pages_cons]
    apply h.nodup.of_append_right

theorem Stands.cons (h : Stands t max (Level.entries U) Us) (hbelow : Level.below U = below)
    (hsize : ∀ n ∈ U, n.items.length ≤ max ∧ 2 ≤ n.items.length
      ∧ (Us ≠ [] → max / 2 ≤ n.items.length))
    (hholds : ∀ n ∈ U, Holds t n) (hnodup : (entryPages below ++ pages (U :: Us)).Nodup) :
  Stands t max below (U :: Us)
  := by
  refine ⟨⟨hbelow, hsize, h.tower⟩, ?_, h.parent, h.root, h.header, hnodup⟩
  intro n hn
  rw [List.flatten_cons, List.mem_append] at hn
  obtain hn | hn := hn
  · apply hholds n hn
  · apply h.holds n hn

theorem Stands.holds_head (h : Stands t max below (U :: Us)) (hn : n ∈ U) : Holds t n := by
  apply h.holds
  rw [List.flatten_cons]
  apply List.mem_append_left _ hn

theorem Stands.child_mem_below (h : Stands t max below (U :: Us)) (hn : n ∈ U) {child : Int}
    (hchild : child ∈ n.children) :
  child ∈ entryPages below
  := by
  rw [← h.tower.1, entryPages_below]
  exact List.mem_flatMap.mpr ⟨n, hn, hchild⟩

/-- All the pages of the levels, and those below, hold nodes. -/
theorem Stands.isSome (h : Stands t max below Us) {p : Int}
    (hp : p ∈ entryPages below ++ pages Us) :
  (t.body p).isSome
  := by
  rw [List.mem_append] at hp
  obtain hp | hp := hp
  · cases Us with
    | nil =>
      obtain ⟨page, rfl⟩ := h.tower
      have hparent := h.parent
      simp only [top, List.head?_cons, Option.map_some, Option.getD_some] at hparent
      simp only [entryPages, List.map_cons, List.map_nil, List.mem_singleton] at hp
      rw [hp]
      apply isSome_body_of_parent hparent
    | cons U Us =>
      rw [← h.tower.1, entryPages_below] at hp
      obtain ⟨n, hn, hchild⟩ := List.mem_flatMap.mp hp
      apply isSome_body_of_parent ((h.holds_head hn).parent p hchild)
  · obtain ⟨n, hn, rfl⟩ := List.mem_map.mp hp
    apply isSome_body_of_eq (h.holds n hn).body

theorem Stands.isSome_below (h : Stands t max below Us) {p : Int} (hp : p ∈ entryPages below) :
  (t.body p).isSome
  := h.isSome (List.mem_append_left _ hp)

theorem Stands.isSome_pages (h : Stands t max below Us) {p : Int} (hp : p ∈ pages Us) :
  (t.body p).isSome
  := h.isSome (List.mem_append_right _ hp)

/-- The tower is not higher than the file is long. -/
theorem Stands.length_lt (h : Stands t max below Us) : Us.length < t.pages.length := by
  have hlen := length_le_pages h.nodup fun p hp => h.isSome hp
  have hUs := h.tower.length_le
  obtain ⟨page, rest, hbelow⟩ := h.tower.head_eq
  rw [List.length_append, hbelow, entryPages_cons, List.length_cons] at hlen
  omega

theorem Stands.header_isSome (h : Stands t max below Us) : t.header.isSome := by
  rw [h.header, Option.isSome_some]

end Stands

end MiniOB.BplusTree
