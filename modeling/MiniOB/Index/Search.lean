import MiniOB.Index.Standing
import MiniOB.Lib.Leaves

/-!
# Trees with their leaves

A tree that is not empty has a list of leaves, each linked to the next one, and the levels
of its inner nodes stand on them. The search for a key ends at the leaf that covers it.
-/

namespace MiniOB.BplusTree

open LowerBound Levels

variable {K V : Type} {t t' : Tree K V}

/-! ### Linked leaves -/

/-- The page of the first leaf of a list that is followed by the page `next`. -/
def firstPage (next : Int) (ls : List (Leaf K V)) : Int := (ls.head?.map Leaf.page).getD next

/-- The leaves are on their pages, and each one names the page of the next. -/
def Linked (t : Tree K V) (next : Int) : List (Leaf K V) → Prop
  | [] => True
  | l :: ls => t.body l.page = some (.leaf (firstPage next ls) l.items) ∧ Linked t next ls

section Linked

variable {next : Int} {ls A B : List (Leaf K V)} {l : Leaf K V}

@[simp]
theorem firstPage_nil : firstPage next ([] : List (Leaf K V)) = next := rfl

@[simp]
theorem firstPage_cons : firstPage next (l :: ls) = l.page := rfl

theorem firstPage_append : firstPage next (A ++ B) = firstPage (firstPage next B) A := by
  cases A <;> rfl

theorem linked_append : Linked t next (A ++ B) ↔ Linked t (firstPage next B) A ∧ Linked t next B := by
  induction A with
  | nil => simp [Linked]
  | cons l A ih => rw [List.cons_append, Linked, Linked, ih, firstPage_append, and_assoc]

theorem Linked.congr (h : Linked t next ls) (hbody : ∀ l ∈ ls, t'.body l.page = t.body l.page) :
  Linked t' next ls
  := by
  induction ls with
  | nil => trivial
  | cons l ls ih =>
    constructor
    · rw [hbody l List.mem_cons_self, h.1]
    · apply ih h.2
      intro l' hl'
      apply hbody l' (List.mem_cons_of_mem _ hl')

/-- The body of a leaf among linked leaves. -/
theorem Linked.body (h : Linked t next (A ++ l :: B)) :
  t.body l.page = some (.leaf (firstPage next B) l.items)
  := (linked_append.mp h).2.1

theorem Linked.isSome (h : Linked t next ls) (hl : l ∈ ls) : (t.body l.page).isSome := by
  obtain ⟨A, B, rfl⟩ := List.append_of_mem hl
  apply isSome_body_of_eq h.body

end Linked

/-- The tree has the leaves `ls` and above them the levels `Us`. -/
structure Represents [LinearOrder K] (c : Parameters K) (t : Tree K V) (ls : List (Leaf K V))
    (Us : List (Level K)) : Prop where
  stands : Stands t c.internalMaxSize (ls.map Leaf.entry) Us
  linked : Linked t invalidPageNum ls
  ordered : Ordered ls
  sizes : ∀ l ∈ ls, l.items.length ≤ c.leafMaxSize ∧ 1 ≤ l.items.length
    ∧ (Us ≠ [] → c.leafMaxSize / 2 ≤ l.items.length)
  disposed : t.disposedPages = []

/-! ### The way down -/

section Descend

variable {max : Nat} {L R : List (Entry K)} {e : Entry K} {Us : List (Level K)}

/-- A way down from the root that at each level takes the child with an entry in `P`. -/
theorem descend_top {childPageGetter : List (K × Int) → Option Int}
    {P : List (Entry K) → Entry K → List (Entry K) → Prop}
    (hstep : ∀ {U L e R A n B C i D}, Located U L e R A n B C i D → (∀ m ∈ U, m.items ≠ []) →
      P L e R → childPageGetter n.slots = some i.child
        ∧ P (Level.entries A) n.entry (Level.entries B))
    (h : Stands t max (L ++ e :: R) Us) (hP : P L e R) (fuel : Nat) :
  descend childPageGetter (Us.length + fuel) (top (L ++ e :: R) Us) t
    = descend childPageGetter fuel e.2 t
  := by
  induction Us generalizing L e R fuel with
  | nil =>
    obtain ⟨page, hbelow⟩ := h.tower
    have hL : L = [] := by
      cases L <;> simp_all
    subst hL
    simp [top]
  | cons U Us ih =>
    obtain ⟨A, n, B, C, i, D, hloc⟩ := exists_located h.tower.1
    obtain ⟨hget, hup⟩ := hstep hloc (fun m hm => h.tower.ne_nil_of_mem hm) hP
    have hlevel : Level.entries U = Level.entries A ++ n.entry :: Level.entries B := by
      rw [hloc.level, Level.entries_append, Level.entries_cons]
    have htail := h.tail
    rw [hlevel] at htail
    obtain ⟨parent, hnode, _⟩ := node_of_body (h.holds_head hloc.mem).body
    have hlength : (U :: Us).length + fuel = Us.length + (fuel + 1) := by
      rw [List.length_cons]
      omega
    rw [top, hlevel, hlength, ih htail hup (fuel + 1), Branch.entry_snd, descend,
      run_bind (getNode_eq hnode)]
    simp only [hget]
    rw [run_bind (item_some _), hloc.child_eq]

theorem findLeafInternal_eq {childPageGetter : List (K × Int) → Option Int} {next : Int}
    {items : List (K × V)} {P : List (Entry K) → Entry K → List (Entry K) → Prop}
    (hstep : ∀ {U L e R A n B C i D}, Located U L e R A n B C i D → (∀ m ∈ U, m.items ≠ []) →
      P L e R → childPageGetter n.slots = some i.child
        ∧ P (Level.entries A) n.entry (Level.entries B))
    (h : Stands t max (L ++ e :: R) Us) (hP : P L e R)
    (hleaf : t.body e.2 = some (.leaf next items)) :
  findLeafInternal childPageGetter t = .ok (some e.2) t
  := by
  have hroot : t.rootPage ≠ invalidPageNum := by
    rw [h.root]
    apply ne_invalid_of_body (h.isSome h.tower.top_mem)
  obtain ⟨fuel, hfuel⟩ : ∃ fuel, t.pages.length = Us.length + (fuel + 1) :=
    Nat.exists_eq_add_of_lt h.length_lt
  obtain ⟨parent, hnode, _⟩ := node_of_body hleaf
  have hdescend : descend childPageGetter t.pages.length t.rootPage t = .ok e.2 t := by
    rw [hfuel, h.root, descend_top hstep h hP, descend, run_bind (getNode_eq hnode)]
    rfl
  rw [findLeafInternal, run_bind run_get]
  simp only [if_neg hroot]
  rw [run_bind hdescend]
  rfl

theorem leftMostPage_eq {next : Int} {items : List (K × V)} (h : Stands t max (e :: R) Us)
    (hleaf : t.body e.2 = some (.leaf next items)) :
  leftMostPage t = .ok (some e.2) t
  := by
  apply findLeafInternal_eq (P := fun L _ _ => L = []) (L := []) _ h rfl hleaf
  intro U L e R A n B C i D hloc hne hL
  have hleft := hloc.left
  rw [hL] at hleft
  obtain ⟨hA, hC⟩ := List.append_eq_nil_iff.mp hleft.symm
  rw [List.map_eq_nil_iff] at hC
  constructor
  · rw [Branch.slots, hloc.items, hC]
    rfl
  · cases A with
    | nil => rfl
    | cons a A =>
      rw [Level.below_cons, List.append_eq_nil_iff, List.map_eq_nil_iff] at hA
      exact absurd hA.1 (hne a (hloc.mem_left List.mem_cons_self))

variable [LinearOrder K] {key : K}

/-- The entries `L ++ e :: R` are ascending, and the key belongs to `e`. -/
structure Covers (key : K) (L : List (Entry K)) (e : Entry K) (R : List (Entry K)) : Prop where
  ascending : Ascending (L ++ e :: R)
  le : e.1 ≤ key
  lt : ∀ x ∈ R, (key : WithBot K) < x.1

omit [LinearOrder K] in
/-- The bound of a node that is not empty is among the bounds below it. -/
theorem exists_bound {n : Branch K} (h : n.items ≠ []) : ∃ i ∈ n.items, i.bound = n.bound := by
  obtain ⟨i, items, hitems⟩ := List.exists_cons_of_ne_nil h
  refine ⟨i, by simp [hitems], ?_⟩
  simp [Branch.bound, hitems]

theorem bound_le_of_ascending {n : Branch K} {C D : List (Item K)} {i : Item K}
    (hitems : n.items = C ++ i :: D) (hasc : Ascending ((C ++ i :: D).map Item.entry)) :
  n.bound ≤ i.bound
  := by
  cases C with
  | nil => simp [Branch.bound, hitems]
  | cons c C =>
    have hbound : n.bound = c.bound := by simp [Branch.bound, hitems]
    rw [hbound]
    apply (bound_lt_of_ascending hasc List.mem_cons_self).le

/-- The items of the node that makes an entry which covers a key. -/
theorem Covers.items {U A B : Level K} {n : Branch K} {C D : List (Item K)} {i : Item K}
    (h : Covers key L e R) (hloc : Located U L e R A n B C i D) :
  Ascending ((C ++ i :: D).map Item.entry) ∧ i.bound ≤ key
    ∧ ∀ d ∈ D, (key : WithBot K) < d.bound
  := by
  refine ⟨hloc.ascending [] h.ascending, ?_, ?_⟩
  · have hle := h.le
    rw [← hloc.entry] at hle
    apply hle
  · intro d hd
    apply h.lt d.entry
    rw [hloc.right]
    apply List.mem_append_left _ (List.mem_map_of_mem hd)

/-- The node that makes an entry which covers a key covers the key. -/
theorem Covers.up {U A B : Level K} {n : Branch K} {C D : List (Item K)} {i : Item K}
    (h : Covers key L e R) (hloc : Located U L e R A n B C i D) (hne : ∀ m ∈ U, m.items ≠ []) :
  Covers key (Level.entries A) n.entry (Level.entries B)
  := by
  obtain ⟨hasc, hi, _⟩ := h.items hloc
  constructor
  · have hlevel : Level.entries A ++ n.entry :: Level.entries B = Level.entries U := by
      rw [hloc.level, Level.entries_append, Level.entries_cons]
    rw [hlevel]
    apply Ascending.entries _ hne
    have hbelow := hloc.below_replace n.page []
    rw [List.nil_append, ← hloc.items, ← hloc.level] at hbelow
    rw [hbelow]
    apply h.ascending
  · apply (bound_le_of_ascending hloc.items hasc).trans hi
  · intro x hx
    obtain ⟨m, hm, rfl⟩ := List.mem_map.mp hx
    obtain ⟨j, hj, hbound⟩ := exists_bound (hne m (hloc.mem_right hm))
    change _ < m.bound
    rw [← hbound]
    apply h.lt j.entry
    rw [hloc.right]
    apply List.mem_append_right
    exact List.mem_map_of_mem (List.mem_flatMap.mpr ⟨m, hm, hj⟩)

theorem findLeaf_eq {next : Int} {items : List (K × V)} (h : Stands t max (L ++ e :: R) Us)
    (hcovers : Covers key L e R) (hleaf : t.body e.2 = some (.leaf next items)) :
  findLeaf key t = .ok (some e.2) t
  := by
  apply findLeafInternal_eq (P := Covers key) _ h hcovers hleaf
  intro U L e R A n B C i D hloc hne hcovers
  obtain ⟨hasc, hi, hD⟩ := hcovers.items hloc
  refine ⟨?_, hcovers.up hloc hne⟩
  rw [Branch.slots, hloc.items, internalLookup_eq hasc hi hD]
  simp [Item.slot]

end Descend

/-! ### Finding a leaf -/

section Represents

variable [LinearOrder K] {c : Parameters K} {ls : List (Leaf K V)} {Us : List (Level K)}

/-- There is a first leaf, and it has the bound `⊥`. -/
theorem Represents.exists_first (h : Represents c t ls Us) :
  ∃ l ls', ls = l :: ls' ∧ l.bound = ⊥
  := by
  obtain ⟨page, rest, hbelow⟩ := h.stands.tower.head_eq
  obtain ⟨l, ls', rfl, hl, _⟩ := List.map_eq_cons_iff.mp hbelow
  refine ⟨l, ls', rfl, ?_⟩
  rw [← Leaf.entry_fst, hl]

/-- A key that no key of the leaves is below is below all the bounds other than `⊥`. -/
theorem Represents.anchored (h : Represents c t ls Us) {zeroKey : K} (hzeroed : Zeroed zeroKey Us)
    (hle : ∀ item ∈ contents ls, zeroKey ≤ item.1) :
  Anchored zeroKey (ls.map Leaf.entry) Us
  := by
  refine ⟨hzeroed, ?_⟩
  intro e he hne
  obtain ⟨l, hl, rfl⟩ := List.mem_map.mp he
  obtain ⟨first, ls', rfl, hfirst⟩ := h.exists_first
  have hpos := (h.sizes first List.mem_cons_self).2.1
  obtain ⟨item, hitem⟩ := List.exists_mem_of_length_pos hpos
  rw [List.mem_cons] at hl
  obtain rfl | hl := hl
  · contradiction
  · have hmarks := h.ordered
    rw [Ordered, marks_cons] at hmarks
    have hlt : (item.1 : WithBot K) < l.bound :=
      (List.pairwise_append.mp (List.pairwise_cons.mp hmarks).2).2.2 _ (mem_itemMarks hitem) _
        (mem_marks_bound hl)
    apply lt_of_le_of_lt _ hlt
    apply WithBot.coe_le_coe.mpr
    apply hle item
    rw [contents_cons]
    apply List.mem_append_left _ hitem

theorem Represents.leftMostPage (h : Represents c t ls Us) :
  leftMostPage t = .ok (some (firstPage invalidPageNum ls)) t
  := by
  obtain ⟨l, ls', rfl, _⟩ := h.exists_first
  apply leftMostPage_eq (e := l.entry) h.stands h.linked.1

/-- The search for a key ends at the leaf that covers it. -/
theorem Represents.findLeaf (h : Represents c t ls Us) (key : K) :
  ∃ A l B, ls = A ++ l :: B ∧ Covers key (A.map Leaf.entry) l.entry (B.map Leaf.entry)
    ∧ findLeaf key t = .ok (some l.page) t
  := by
  obtain ⟨first, ls', rfl, hfirst⟩ := h.exists_first
  have hle : first.bound ≤ key := by
    rw [hfirst]
    apply bot_le
  obtain ⟨A, l, B, hsplit, hl, hB⟩ := exists_covering h.ordered.ascending hle
  have hmap : (first :: ls').map Leaf.entry
      = A.map Leaf.entry ++ l.entry :: B.map Leaf.entry := by
    rw [hsplit, List.map_append, List.map_cons]
  have hcovers : Covers key (A.map Leaf.entry) l.entry (B.map Leaf.entry) := by
    refine ⟨?_, hl, ?_⟩
    · rw [← hmap]
      apply h.ordered.ascending
    · intro x hx
      obtain ⟨r, hr, rfl⟩ := List.mem_map.mp hx
      apply hB r hr
  have hstands := h.stands
  have hlinked := h.linked
  rw [hmap] at hstands
  rw [hsplit] at hlinked
  exact ⟨A, l, B, hsplit, hcovers, findLeaf_eq hstands hcovers hlinked.body⟩

end Represents

end MiniOB.BplusTree
