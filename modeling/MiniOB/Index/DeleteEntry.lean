import MiniOB.Index.InsertEntry
import MiniOB.Index.Shrink

/-!
# Deleting an entry

The leaf that covers the key loses its item. A leaf that has become too small is filled up
from a neighbour, or merged with it, which takes an item from the levels above. The pages
that are not needed any more are disposed of in the end.
-/

namespace MiniOB.BplusTree

open LowerBound Levels

variable {K V : Type} {t t₁ t₂ t' : Tree K V}

/-! ### Moving items between leaves -/

section Moves

variable {left right next : Int} {items others X Y : List (K × V)} {x y : K × V} {q : Branch K}
  {C D : List (Item K)} {i j : Item K}

/-- The left leaf gets the first item of the right one. -/
theorem redistribute_first_leaf (hleft : t.body left = some (.leaf right items))
    (hright : t.body right = some (.leaf next (x :: y :: Y))) (hq : Holds t q)
    (hne : left ≠ right) (hql : q.page ≠ left) (hqr : q.page ≠ right)
    (hitems : q.items = i :: j :: D) :
  ∃ t₁ t', redistribute right left q.page 0 t = .ok () t'
    ∧ Sets t (Function.update (Function.update t.body left (some (.leaf right (items ++ [x]))))
        right (some (.leaf next (y :: Y)))) t.parent t₁
    ∧ Sets t₁ (Function.update t₁.body q.page
        (some (.internal ((i :: Item.ofKey y.1 j.child :: D).map Item.slot)))) t₁.parent t'
  := by
  obtain ⟨t₁, hrun₁, hsets₁⟩ := moveFirstToEnd_leaf hne hright hleft
  have hright₁ : t₁.body right = some (.leaf next (y :: Y)) := by
    rw [hsets₁.body, Function.update_self]
  have hq₁ : t₁.body q.page = some (.internal q.slots) := by
    rw [hsets₁.body, Function.update_of_ne hqr, Function.update_of_ne hql, hq.body]
  obtain ⟨t', hrun', hsets'⟩ := rekey_run (C := []) hright₁ rfl hq₁ hitems
  refine ⟨t₁, t', ?_, hsets₁, hsets'⟩
  rw [redistribute, if_pos rfl, run_bind hrun₁]
  apply hrun'

/-- The right leaf gets the last item of the left one. -/
theorem redistribute_last_leaf (hleft : t.body left = some (.leaf right (X ++ [x])))
    (hright : t.body right = some (.leaf next items)) (hq : Holds t q)
    (hne : left ≠ right) (hql : q.page ≠ left) (hqr : q.page ≠ right)
    (hitems : q.items = C ++ i :: j :: D) :
  ∃ t₁ t', redistribute left right q.page (C.length + 1) t = .ok () t'
    ∧ Sets t (Function.update (Function.update t.body left (some (.leaf right X)))
        right (some (.leaf next (x :: items)))) t.parent t₁
    ∧ Sets t₁ (Function.update t₁.body q.page
        (some (.internal ((C ++ i :: Item.ofKey x.1 j.child :: D).map Item.slot)))) t₁.parent t'
  := by
  obtain ⟨t₁, hrun₁, hsets₁⟩ := moveLastToFront_leaf hne.symm hleft hright
  rw [Function.update_comm hne.symm] at hsets₁
  have hright₁ : t₁.body right = some (.leaf next (x :: items)) := by
    rw [hsets₁.body, Function.update_self]
  have hq₁ : t₁.body q.page = some (.internal q.slots) := by
    rw [hsets₁.body, Function.update_of_ne hqr, Function.update_of_ne hql, hq.body]
  obtain ⟨t', hrun', hsets'⟩ := rekey_run hright₁ rfl hq₁ hitems
  refine ⟨t₁, t', ?_, hsets₁, hsets'⟩
  rw [redistribute, if_neg (Nat.succ_ne_zero _), run_bind hrun₁]
  apply hrun'

/-- The right leaf is merged into the left one. -/
theorem coalesce_leaf (checkParent : Int → Mtr K V Unit)
    (hleft : t.body left = some (.leaf right items))
    (hright : t.body right = some (.leaf next others)) (hq : Holds t q)
    (hne : left ≠ right) (hql : q.page ≠ left) (hqr : q.page ≠ right)
    (hitems : q.items = C ++ i :: j :: D) :
  ∃ t₁ t₂, Sets t (Function.update t.body q.page
        (some (.internal ((C ++ i :: D).map Item.slot)))) t.parent t₁
    ∧ Sets t₁ (Function.update (Function.update t₁.body left
        (some (.leaf next (items ++ others)))) right (some (.leaf next []))) t₁.parent t₂
    ∧ coalesce checkParent left right q.page (C.length + 1) t
      = checkParent q.page { t₂ with disposedPages := t₂.disposedPages ++ [right] }
  := by
  have hindex : C.length + 1 < q.slots.length := by
    rw [Branch.length_slots, hitems, List.length_append, List.length_cons, List.length_cons]
    omega
  obtain ⟨t₁, hrun₁, hsets₁⟩ := internalRemove_sets hq.body hindex
  rw [Branch.slots, hitems, eraseIdx_slot] at hsets₁
  have hleft₁ : t₁.body left = some (.leaf right items) := by
    rw [hsets₁.body, Function.update_of_ne hql.symm, hleft]
  have hright₁ : t₁.body right = some (.leaf next others) := by
    rw [hsets₁.body, Function.update_of_ne hqr.symm, hright]
  obtain ⟨t₂, hrun₂, hsets₂⟩ := moveTo_leaf hne hright₁ hleft₁
  have hleft₂ : t₂.body left = some (.leaf next (items ++ others)) := by
    rw [hsets₂.body, Function.update_of_ne hne, Function.update_self]
  have hright₂ : t₂.body right = some (.leaf next []) := by
    rw [hsets₂.body, Function.update_self]
  obtain ⟨t₃, hrun₃, hsets₃⟩ := setNextPage_sets hleft₂ next
  -- the link of the left leaf is set twice
  rw [hsets₂.body, hsets₂.parent, Function.update_comm hne, Function.update_idem,
    Function.update_comm hne.symm] at hsets₃
  obtain ⟨_, hnode, _⟩ := node_of_body hleft₂
  refine ⟨t₁, t₃, hsets₁, hsets₂.trans hsets₃, ?_⟩
  simp only [coalesce, Nat.add_one_ne_zero, if_false]
  rw [run_bind hrun₁, run_bind hrun₂, run_bind (getNode_eq hnode)]
  have hisLeaf : (Body.leaf next (items ++ others) : Body K V).isLeaf = true := rfl
  simp only [if_pos hisLeaf]
  rw [run_bind (getLeaf_eq hright₂)]
  simp only
  rw [run_bind hrun₃]
  rfl

end Moves

/-! ### Two neighbours -/

/-- The tree has the leaves `ls` and above them the levels `Us`, whatever the sizes of the
leaves. -/
structure Bears [LinearOrder K] (t : Tree K V) (max : Nat) (ls : List (Leaf K V))
    (Us : List (Level K)) : Prop where
  stands : Stands t max (ls.map Leaf.entry) Us
  linked : Linked t invalidPageNum ls
  ordered : Ordered ls

section Pair

variable [LinearOrder K] {max : Nat} {W : Level K} {Us : List (Level K)} {A B : List (Leaf K V)}
  {A' B' : Level K} {l r : Leaf K V} {q : Branch K} {C D : List (Item K)} {i j : Item K}
  {X Y : List (K × V)} {y : K × V} {zeroKey : K}

theorem Bears.bodies (h : Bears t max (A ++ l :: r :: B) Us) :
  t.body l.page = some (.leaf r.page l.items)
    ∧ t.body r.page = some (.leaf (firstPage invalidPageNum B) r.items)
  := by
  obtain ⟨hl, hr, _⟩ := (linked_append.mp h.linked).2
  exact ⟨hl, hr⟩

/-- The two leaves and the other ones are on different pages. -/
theorem Bears.pages_ne (h : Bears t max (A ++ l :: r :: B) Us) :
  l.page ≠ r.page ∧ ∀ m ∈ A ++ B, m.page ≠ l.page ∧ m.page ≠ r.page
  := by
  have hnodup := h.stands.leaves_nodup
  have hperm : (A ++ l :: r :: B).Perm (l :: r :: (A ++ B)) := by
    apply List.perm_middle.trans
    apply List.Perm.cons
    apply List.perm_middle
  rw [(hperm.map Leaf.page).nodup_iff, List.map_cons, List.map_cons, List.nodup_cons,
    List.nodup_cons, List.mem_cons, not_or] at hnodup
  refine ⟨hnodup.1.1, fun m hm => ⟨?_, ?_⟩⟩
  · intro heq
    apply hnodup.1.2
    exact List.mem_map.mpr ⟨m, hm, heq⟩
  · intro heq
    apply hnodup.2.1
    exact List.mem_map.mpr ⟨m, hm, heq⟩

theorem Bears.page_ne (h : Bears t max (A ++ l :: r :: B) (W :: Us)) (hq : q ∈ W) :
  q.page ≠ l.page ∧ q.page ≠ r.page ∧ ∀ m ∈ A ++ B, m.page ≠ q.page
  := by
  have hmem : q.page ∈ pages (W :: Us) := by
    rw [pages_cons]
    apply List.mem_append_left _ (List.mem_map_of_mem hq)
  have hne : ∀ m ∈ A ++ l :: r :: B, m.page ≠ q.page := by
    intro m hm heq
    apply h.stands.leaf_not_mem hm
    rwa [heq]
  refine ⟨(hne l (by simp)).symm, (hne r (by simp)).symm, ?_⟩
  intro m hm
  apply hne
  simp only [List.mem_append, List.mem_cons] at hm ⊢
  tauto

/-- The levels stand when other items have been written to two leaves. -/
theorem Bears.stands_moved (h : Bears t max (A ++ l :: r :: B) Us) {body body' : Body K V}
    (hsets : Sets t (Function.update (Function.update t.body l.page (some body)) r.page
      (some body')) t.parent t') :
  Stands t' max (A.map Leaf.entry ++ l.entry :: r.entry :: B.map Leaf.entry) Us
  := by
  have hstands := h.stands
  rw [List.map_append, List.map_cons, List.map_cons] at hstands
  apply hstands.congr _ _ hsets.rootPage hsets.header
  · intro p hp
    have hpl : p ≠ l.page := by
      rintro rfl
      apply h.stands.leaf_not_mem (l := l) (by simp) hp
    have hpr : p ≠ r.page := by
      rintro rfl
      apply h.stands.leaf_not_mem (l := r) (by simp) hp
    rw [hsets.body, Function.update_of_ne hpr, Function.update_of_ne hpl]
  · intro p _
    rw [hsets.parent]

/-- Items have moved between two leaves, and their parent has the new key. -/
theorem Bears.rekey (h : Bears t max (A ++ l :: r :: B) (W :: Us))
    (hloc : Located W (A.map Leaf.entry) l.entry (r.entry :: B.map Leaf.entry) A' q B' C i (j :: D))
    (hsets₁ : Sets t (Function.update (Function.update t.body l.page (some (.leaf r.page X))) r.page
      (some (.leaf (firstPage invalidPageNum B) (y :: Y)))) t.parent t₁)
    (hsets : Sets t₁ (Function.update t₁.body q.page (some (.internal
        ((C ++ i :: Item.ofKey y.1 j.child :: D).map Item.slot)))) t₁.parent t')
    (hitems : X ++ y :: Y = l.items ++ r.items) (hX : X ≠ []) :
  ∃ W', Bears t' max (A ++ ⟨l.page, l.bound, X⟩ :: ⟨r.page, y.1, y :: Y⟩ :: B) (W' :: Us)
    ∧ (Zeroed zeroKey (W :: Us) → Zeroed zeroKey (W' :: Us))
  := by
  obtain ⟨hne, hothers⟩ := h.pages_ne
  obtain ⟨hql, hqr, hq⟩ := h.page_ne hloc.mem
  have hstands' := (h.stands_moved hsets₁).rekey hloc hsets
  refine ⟨A' ++ ⟨q.page, C ++ i :: Item.ofKey y.1 j.child :: D⟩ :: B', ⟨?_, ?_, ?_⟩,
    fun hzeroed => hzeroed.ofKey hloc (List.subset_cons_self j D)⟩
  · rw [List.map_append, List.map_cons, List.map_cons]
    apply hstands'
  · apply Linked.replace (M := [l, r]) (N := [⟨l.page, l.bound, X⟩, ⟨r.page, y.1, y :: Y⟩])
      h.linked rfl
    · intro m hm
      obtain ⟨hml, hmr⟩ := hothers m hm
      rw [hsets.body, Function.update_of_ne (hq m hm), hsets₁.body, Function.update_of_ne hmr,
        Function.update_of_ne hml]
    · refine ⟨?_, ?_, trivial⟩
      · rw [hsets.body, Function.update_of_ne hql.symm, hsets₁.body, Function.update_of_ne hne,
          Function.update_self]
        rfl
      · change t'.body r.page = _
        rw [hsets.body, Function.update_of_ne hqr.symm, hsets₁.body, Function.update_self]
        rfl
  · apply Ordered.divide _ hX
    rw [hitems]
    apply h.ordered.merge

/-- Two leaves are being merged: their parent has lost an item. -/
theorem Bears.wanting (h : Bears t max (A ++ l :: r :: B) (W :: Us))
    (hloc : Located W (A.map Leaf.entry) l.entry (r.entry :: B.map Leaf.entry) A' q B' C i (j :: D))
    (hsets₁ : Sets t (Function.update t.body q.page (some (.internal
        ((C ++ i :: D).map Item.slot)))) t.parent t₁) {body body' : Body K V}
    (hsets : Sets t₁ (Function.update (Function.update t₁.body l.page (some body)) r.page
      (some body')) t₁.parent t₂) :
  Wanting t₂ max (A.map Leaf.entry ++ l.entry :: B.map Leaf.entry) A' ⟨q.page, C ++ i :: D⟩ B' Us
  := by
  have hstands := h.stands
  rw [List.map_append, List.map_cons, List.map_cons] at hstands
  apply (hstands.remove hloc hsets₁).congr _ _ hsets.rootPage hsets.header
  · intro p hp
    rw [Located.pages_replace hloc] at hp
    have hpl : p ≠ l.page := by
      rintro rfl
      apply h.stands.leaf_not_mem (l := l) (by simp) hp
    have hpr : p ≠ r.page := by
      rintro rfl
      apply h.stands.leaf_not_mem (l := r) (by simp) hp
    rw [hsets.body, Function.update_of_ne hpr, Function.update_of_ne hpl]
  · intro p _
    rw [hsets.parent]

/-- Two leaves have been merged, and the levels above have been rebalanced. -/
theorem Bears.merge (h : Bears t max (A ++ l :: r :: B) (W :: Us))
    (hloc : Located W (A.map Leaf.entry) l.entry (r.entry :: B.map Leaf.entry) A' q B' C i (j :: D))
    (hsets₁ : Sets t (Function.update t.body q.page (some (.internal
        ((C ++ i :: D).map Item.slot)))) t.parent t₁) {body' : Body K V}
    (hsets : Sets t₁ (Function.update (Function.update t₁.body l.page
      (some (.leaf (firstPage invalidPageNum B) (l.items ++ r.items)))) r.page
      (some body')) t₁.parent t₂) {Us' : List (Level K)}
    (hstands : Stands t' max (A.map Leaf.entry ++ l.entry :: B.map Leaf.entry) Us')
    (hshrunk : Shrunk { t₂ with disposedPages := t₂.disposedPages ++ [r.page] } t'
      (A.map Leaf.entry ++ l.entry :: B.map Leaf.entry)
      (pages ((A' ++ ⟨q.page, C ++ i :: D⟩ :: B') :: Us)) (pages Us')) :
  Bears t' max (A ++ ⟨l.page, l.bound, l.items ++ r.items⟩ :: B) Us'
    ∧ ∃ ds, t'.disposedPages = t.disposedPages ++ ds ∧ ∀ d ∈ ds, (t.body d).isSome
      ∧ d ∉ (A ++ ⟨l.page, l.bound, l.items ++ r.items⟩ :: B).map Leaf.page ++ pages Us'
  := by
  rw [Located.pages_replace hloc] at hshrunk
  obtain ⟨hne, hothers⟩ := h.pages_ne
  obtain ⟨hql, hqr, hq⟩ := h.page_ne hloc.mem
  have hmap : (A ++ ⟨l.page, l.bound, l.items ++ r.items⟩ :: B).map Leaf.page
      = A.map Leaf.page ++ l.page :: B.map Leaf.page := by
    rw [List.map_append, List.map_cons]
  have hbody : ∀ m ∈ A ++ l :: r :: B, t'.body m.page = t₂.body m.page := by
    intro m hm
    apply hshrunk.body
    apply h.stands.leaf_not_mem hm
  refine ⟨⟨?_, ?_, h.ordered.merge⟩, ?_⟩
  · rw [List.map_append, List.map_cons]
    apply hstands
  · apply Linked.replace (M := [l, r]) (N := [⟨l.page, l.bound, l.items ++ r.items⟩]) h.linked rfl
    · intro m hm
      obtain ⟨hml, hmr⟩ := hothers m hm
      have hmem : m ∈ A ++ l :: r :: B := by
        simp only [List.mem_append, List.mem_cons] at hm ⊢
        tauto
      rw [hbody m hmem, hsets.body, Function.update_of_ne hmr, Function.update_of_ne hml,
        hsets₁.body, Function.update_of_ne (hq m hm)]
    · refine ⟨?_, trivial⟩
      rw [hbody l (by simp), hsets.body, Function.update_of_ne hne, Function.update_self]
      rfl
  · obtain ⟨ds, hdisposed, hds⟩ := hshrunk.disposed
    refine ⟨r.page :: ds, ?_, ?_⟩
    · rw [hdisposed]
      change t₂.disposedPages ++ [r.page] ++ ds = _
      rw [hsets.disposed, hsets₁.disposed, List.append_assoc]
      rfl
    · intro d hd
      rw [List.mem_append, not_or, hmap]
      rw [List.mem_cons] at hd
      obtain rfl | hd := hd
      · refine ⟨h.stands.leaf_isSome (by simp), ?_, ?_⟩
        · intro hmem
          rw [← List.map_cons, ← List.map_append] at hmem
          obtain ⟨m, hm, heq⟩ := List.mem_map.mp hmem
          rw [List.mem_append, List.mem_cons] at hm
          obtain hm | rfl | hm := hm
          · apply (hothers m (List.mem_append_left _ hm)).2 heq
          · apply hne heq
          · apply (hothers m (List.mem_append_right _ hm)).2 heq
        · intro hmem
          apply h.stands.leaf_not_mem (l := r) (by simp) (hshrunk.pages _ hmem)
      · obtain ⟨hdW, hdUs⟩ := hds d hd
        refine ⟨h.stands.isSome_pages hdW, ?_, hdUs⟩
        intro hmem
        rw [← List.map_cons, ← List.map_append] at hmem
        obtain ⟨m, hm, rfl⟩ := List.mem_map.mp hmem
        apply h.stands.leaf_not_mem (l := m) _ hdW
        simp only [List.mem_append, List.mem_cons] at hm ⊢
        tauto

end Pair

/-! ### A leaf that is too small -/

/-- After a deletion the tree has the leaves `ls` and the levels `Us`, and it will dispose of
pages that are not among theirs. -/
structure Balanced [LinearOrder K] (c : Parameters K) (t t' : Tree K V) (ls : List (Leaf K V))
    (Us : List (Level K)) : Prop where
  bears : Bears t' c.internalMaxSize ls Us
  sizes : ∀ l ∈ ls, l.items.length ≤ c.leafMaxSize ∧ 1 ≤ l.items.length
    ∧ (Us ≠ [] → c.leafMaxSize / 2 ≤ l.items.length)
  disposed : ∃ ds, t'.disposedPages = t.disposedPages ++ ds
    ∧ ∀ d ∈ ds, (t.body d).isSome ∧ d ∉ ls.map Leaf.page ++ pages Us

section Rebalance

variable [LinearOrder K] {c : Parameters K} {W : Level K} {Us : List (Level K)}
  {A B : List (Leaf K V)} {A' B' : Level K} {l r : Leaf K V} {q : Branch K} {C D : List (Item K)}
  {i j : Item K} {fuel : Nat} {zeroKey : K}

/-- The left one of two leaves lacks items and gets one from the right one. -/
theorem Bears.redistribute_first (h : Bears t c.internalMaxSize (A ++ l :: r :: B) (W :: Us))
    (hloc : Located W (A.map Leaf.entry) l.entry (r.entry :: B.map Leaf.entry) A' q B' [] i (j :: D))
    (hmax : 4 ≤ c.leafMaxSize)
    (hsizes : ∀ m ∈ A ++ B, m.items.length ≤ c.leafMaxSize ∧ c.leafMaxSize / 2 ≤ m.items.length)
    (hl : c.leafMaxSize / 2 ≤ l.items.length + 1)
    (hsmall : l.items.length < c.leafMaxSize - c.leafMaxSize / 2)
    (hr : r.items.length ≤ c.leafMaxSize)
    (hsum : c.leafMaxSize < l.items.length + r.items.length) :
  ∃ t' ls Us', redistribute r.page l.page q.page 0 t = .ok () t' ∧ Balanced c t t' ls Us'
    ∧ contents ls = contents (A ++ l :: r :: B)
    ∧ (Zeroed zeroKey (W :: Us) → Zeroed zeroKey Us')
  := by
  obtain ⟨x, y, Y, hright⟩ : ∃ x y Y, r.items = x :: y :: Y := by
    match hitems : r.items with
    | [] =>
      rw [hitems, List.length_nil] at hsum
      omega
    | [_] =>
      rw [hitems, List.length_singleton] at hsum
      omega
    | x :: y :: Y => exact ⟨x, y, Y, rfl⟩
  obtain ⟨hne, _⟩ := h.pages_ne
  obtain ⟨hql, hqr, _⟩ := h.page_ne hloc.mem
  obtain ⟨hlbody, hrbody⟩ := h.bodies
  rw [hright] at hrbody
  obtain ⟨t₁, t', hrun, hsets₁, hsets⟩ := redistribute_first_leaf hlbody hrbody
    (h.stands.holds_head hloc.mem) hne hql hqr hloc.items
  obtain ⟨W', hbears, hzeroed⟩ := h.rekey hloc hsets₁ hsets (by simp [hright]) (by simp)
  refine ⟨t', _, _, hrun, ⟨hbears, ?_, [], ?_, by simp⟩, ?_, hzeroed⟩
  · intro m hm
    have hm' : m.items.length ≤ c.leafMaxSize ∧ c.leafMaxSize / 2 ≤ m.items.length := by
      rw [List.mem_append, List.mem_cons, List.mem_cons] at hm
      obtain hm | rfl | rfl | hm := hm
      · apply hsizes m (List.mem_append_left _ hm)
      · simp only [List.length_append, List.length_singleton]
        omega
      · simp only [hright, List.length_cons] at hsum hr ⊢
        omega
      · apply hsizes m (List.mem_append_right _ hm)
    exact ⟨hm'.1, by omega, fun _ => hm'.2⟩
  · rw [hsets.disposed, hsets₁.disposed, List.append_nil]
  · simp [hright]

/-- The right one of two leaves lacks items and gets one from the left one. -/
theorem Bears.redistribute_last (h : Bears t c.internalMaxSize (A ++ l :: r :: B) (W :: Us))
    (hloc : Located W (A.map Leaf.entry) l.entry (r.entry :: B.map Leaf.entry) A' q B' C i (j :: D))
    (hmax : 4 ≤ c.leafMaxSize)
    (hsizes : ∀ m ∈ A ++ B, m.items.length ≤ c.leafMaxSize ∧ c.leafMaxSize / 2 ≤ m.items.length)
    (hr : c.leafMaxSize / 2 ≤ r.items.length + 1)
    (hsmall : r.items.length < c.leafMaxSize - c.leafMaxSize / 2)
    (hl : l.items.length ≤ c.leafMaxSize)
    (hsum : c.leafMaxSize < r.items.length + l.items.length) :
  ∃ t' ls Us', redistribute l.page r.page q.page (C.length + 1) t = .ok () t'
    ∧ Balanced c t t' ls Us' ∧ contents ls = contents (A ++ l :: r :: B)
    ∧ (Zeroed zeroKey (W :: Us) → Zeroed zeroKey Us')
  := by
  obtain ⟨X, x, hleft⟩ : ∃ X x, l.items = X ++ [x] := by
    obtain hnil | ⟨X, x, hleft⟩ := List.eq_nil_or_concat l.items
    · rw [hnil, List.length_nil] at hsum
      omega
    · rw [List.concat_eq_append] at hleft
      exact ⟨X, x, hleft⟩
  have hlen : l.items.length = X.length + 1 := by
    rw [hleft, List.length_append, List.length_singleton]
  have hXne : X ≠ [] := by
    apply List.ne_nil_of_length_pos
    omega
  obtain ⟨hne, _⟩ := h.pages_ne
  obtain ⟨hql, hqr, _⟩ := h.page_ne hloc.mem
  obtain ⟨hlbody, hrbody⟩ := h.bodies
  rw [hleft] at hlbody
  obtain ⟨t₁, t', hrun, hsets₁, hsets⟩ := redistribute_last_leaf hlbody hrbody
    (h.stands.holds_head hloc.mem) hne hql hqr hloc.items
  obtain ⟨W', hbears, hzeroed⟩ := h.rekey hloc hsets₁ hsets (by simp [hleft]) hXne
  refine ⟨t', _, _, hrun, ⟨hbears, ?_, [], ?_, by simp⟩, ?_, hzeroed⟩
  · intro m hm
    have hm' : m.items.length ≤ c.leafMaxSize ∧ c.leafMaxSize / 2 ≤ m.items.length := by
      rw [List.mem_append, List.mem_cons, List.mem_cons] at hm
      obtain hm | rfl | rfl | hm := hm
      · apply hsizes m (List.mem_append_left _ hm)
      · change X.length ≤ c.leafMaxSize ∧ c.leafMaxSize / 2 ≤ X.length
        omega
      · simp only [List.length_cons]
        omega
      · apply hsizes m (List.mem_append_right _ hm)
    exact ⟨hm'.1, by omega, fun _ => hm'.2⟩
  · rw [hsets.disposed, hsets₁.disposed, List.append_nil]
  · simp [hleft]

/-- Two leaves are merged, and the levels above are rebalanced. -/
theorem Bears.coalesce (h : Bears t c.internalMaxSize (A ++ l :: r :: B) (W :: Us))
    (hloc : Located W (A.map Leaf.entry) l.entry (r.entry :: B.map Leaf.entry) A' q B' C i (j :: D))
    (hmax : 4 ≤ c.internalMaxSize) (hleafMax : 4 ≤ c.leafMaxSize)
    (htell : 6 ≤ c.internalMaxSize
      ∨ Anchored zeroKey (A.map Leaf.entry ++ l.entry :: r.entry :: B.map Leaf.entry) (W :: Us))
    (hfuel : Us.length < fuel)
    (hsizes : ∀ m ∈ A ++ B, m.items.length ≤ c.leafMaxSize ∧ c.leafMaxSize / 2 ≤ m.items.length)
    (hl : c.leafMaxSize / 2 ≤ l.items.length + 1) (hr : c.leafMaxSize / 2 ≤ r.items.length + 1)
    (hsum : l.items.length + r.items.length ≤ c.leafMaxSize) :
  ∃ t' ls Us', coalesce (coalesceOrRedistribute c fuel) l.page r.page q.page (C.length + 1) t
      = .ok () t'
    ∧ Balanced c t t' ls Us' ∧ contents ls = contents (A ++ l :: r :: B)
    ∧ (Zeroed zeroKey (W :: Us) → Zeroed zeroKey Us')
  := by
  obtain ⟨hne, _⟩ := h.pages_ne
  obtain ⟨hql, hqr, _⟩ := h.page_ne hloc.mem
  obtain ⟨hlbody, hrbody⟩ := h.bodies
  obtain ⟨t₁, t₂, hsets₁, hsets, hrun⟩ := coalesce_leaf (coalesceOrRedistribute c fuel) hlbody hrbody
    (h.stands.holds_head hloc.mem) hne hql hqr hloc.items
  have hwanting := (h.wanting hloc hsets₁ hsets).dispose (t₂.disposedPages ++ [r.page])
  have hasc : Ascending (A.map Leaf.entry ++ l.entry :: B.map Leaf.entry) := by
    apply h.ordered.ascending.sublist
    rw [List.map_append, List.map_cons, List.map_cons]
    apply List.Sublist.append_left
    apply List.Sublist.cons_cons
    apply List.sublist_cons_self
  obtain ⟨t', Us', hrun', hstands', hshrunk', hzeroed'⟩ := hwanting.rebalance hmax hasc
    (htell.imp_right fun hanchored => hanchored.remove hloc) hfuel
  obtain ⟨hbears, hdisposed⟩ := h.merge hloc hsets₁ hsets hstands' hshrunk'
  refine ⟨t', _, _, hrun.trans hrun', ⟨hbears, ?_, hdisposed⟩, by simp, fun hzeroed =>
    hzeroed' (hzeroed.replace hloc fun _ hx => .inl (List.mem_cons_of_mem j hx))⟩
  intro m hm
  have hm' : m.items.length ≤ c.leafMaxSize ∧ c.leafMaxSize / 2 ≤ m.items.length := by
    rw [List.mem_append, List.mem_cons] at hm
    obtain hm | rfl | hm := hm
    · apply hsizes m (List.mem_append_left _ hm)
    · simp only [List.length_append]
      omega
    · apply hsizes m (List.mem_append_right _ hm)
  exact ⟨hm'.1, by omega, fun _ => hm'.2⟩

/-- The last key of a leaf belongs to the leaf. -/
theorem exists_lastKey_leaf (hordered : Ordered (A ++ l :: B)) (hne : l.items ≠ []) (next : Int) :
  ∃ key, (Body.leaf next l.items).keyAt ((Body.leaf next l.items).size - 1) = some key
    ∧ Covers key (A.map Leaf.entry) l.entry (B.map Leaf.entry)
  := by
  obtain ⟨X, x, hitems⟩ : ∃ X x, l.items = X ++ [x] := by
    obtain hnil | ⟨X, x, hitems⟩ := List.eq_nil_or_concat l.items
    · contradiction
    · rw [List.concat_eq_append] at hitems
      exact ⟨X, x, hitems⟩
  have hmarks := hordered
  rw [Ordered, marks_append, marks_cons] at hmarks
  have htail := List.pairwise_cons.mp (List.pairwise_append.mp hmarks).2.1
  have hx : Mark.key x.1 ∈ itemMarks l.items := by
    apply mem_itemMarks
    rw [hitems]
    simp
  refine ⟨x.1, ?_, ?_, ?_, ?_⟩
  · simp [Body.keyAt, Body.size, hitems]
  · have hasc := hordered.ascending
    rwa [List.map_append, List.map_cons] at hasc
  · apply htail.1 _ (List.mem_append_left _ hx)
  · intro e he
    obtain ⟨r, hr, rfl⟩ := List.mem_map.mp he
    apply (List.pairwise_append.mp htail.2).2.2 _ hx _ (mem_marks_bound hr)

/-- A leaf below other levels lacks items. -/
theorem Bears.rebalance (h : Bears t c.internalMaxSize (A ++ l :: B) (W :: Us))
    (hmax : 4 ≤ c.internalMaxSize) (hleafMax : 4 ≤ c.leafMaxSize)
    (htell : 6 ≤ c.internalMaxSize ∨ Anchored zeroKey ((A ++ l :: B).map Leaf.entry) (W :: Us))
    (hfuel : Us.length < fuel)
    (hsizes : ∀ m ∈ A ++ B, m.items.length ≤ c.leafMaxSize ∧ c.leafMaxSize / 2 ≤ m.items.length)
    (hl : c.leafMaxSize / 2 ≤ l.items.length + 1)
    (hsmall : l.items.length < c.leafMaxSize - c.leafMaxSize / 2) :
  ∃ t' ls Us', coalesceOrRedistribute c (fuel + 1) l.page t = .ok () t' ∧ Balanced c t t' ls Us'
    ∧ contents ls = contents (A ++ l :: B) ∧ (Zeroed zeroKey (W :: Us) → Zeroed zeroKey Us')
  := by
  have hne : l.items ≠ [] := by
    apply List.ne_nil_of_length_pos
    omega
  have hlbody := h.linked.body
  have hmin : (Body.leaf (firstPage invalidPageNum B) l.items).size
      < (Body.leaf (firstPage invalidPageNum B) l.items).minSize c := hsmall
  obtain ⟨key, hkey, hcovers⟩ := exists_lastKey_leaf h.ordered hne (firstPage invalidPageNum B)
  have hstands := h.stands
  rw [List.map_append, List.map_cons] at hstands htell
  obtain ⟨A', q, B', C, i, D, hloc⟩ := exists_located hstands.tower.1
  have hq := hstands.holds_head hloc.mem
  have htwo := (hstands.tower.2.1 q hloc.mem).2.1
  obtain ⟨hasci, hi, hD⟩ := hcovers.items hloc
  have hic : i.child = l.page := by rw [hloc.child_eq, Leaf.entry_snd]
  obtain ⟨j, D, R, rfl, rfl, hR⟩ | ⟨C, j, L, rfl, hL, hlocj⟩ := located_neighbour hloc htwo
  · -- the neighbour is on the right
    obtain ⟨r, B, rfl, hr, rfl⟩ := List.map_eq_cons_iff.mp hR
    rw [List.map_cons] at hloc
    have hjc : j.child = r.page := by rw [← Item.entry_snd, ← hr, Leaf.entry_snd]
    obtain ⟨_, hrbody⟩ := h.bodies
    have hrsize := hsizes r (by simp)
    have hothers : ∀ m ∈ A ++ B, m.items.length ≤ c.leafMaxSize
        ∧ c.leafMaxSize / 2 ≤ m.items.length := by
      intro m hm
      apply hsizes
      simp only [List.mem_append, List.mem_cons] at hm ⊢
      tauto
    have hrun := coalesceOrRedistribute_right (c := c) fuel hq hloc.items (hic ▸ hlbody)
      hmin hkey hasci hi hD (hjc ▸ hrbody)
    rw [hic, hjc] at hrun
    rw [hrun]
    by_cases hsum : c.leafMaxSize < l.items.length + r.items.length
    · rw [if_pos (by exact hsum)]
      apply h.redistribute_first hloc hleafMax hothers hl hsmall hrsize.1 hsum
    · rw [if_neg (by exact hsum), coalesce_right]
      apply h.coalesce (C := []) hloc hmax hleafMax htell hfuel hothers hl (by omega) (not_lt.mp hsum)
  · -- the neighbour is on the left
    obtain ⟨A, A₁, rfl, rfl, hA₁⟩ := List.map_eq_append_iff.mp hL
    obtain ⟨r, A₁, rfl, hr, hnil⟩ := List.map_eq_cons_iff.mp hA₁
    obtain rfl := List.map_eq_nil_iff.mp hnil
    rw [← hr] at hlocj
    have hjc : j.child = r.page := by rw [← Item.entry_snd, ← hr, Leaf.entry_snd]
    have hlevel : A ++ [r] ++ l :: B = A ++ r :: l :: B := by simp
    rw [hlevel] at h ⊢
    obtain ⟨hrbody, _⟩ := h.bodies
    have hrsize := hsizes r (by simp)
    have hothers : ∀ m ∈ A ++ B, m.items.length ≤ c.leafMaxSize
        ∧ c.leafMaxSize / 2 ≤ m.items.length := by
      intro m hm
      apply hsizes
      simp only [List.mem_append, List.mem_cons] at hm ⊢
      tauto
    rw [List.append_assoc, List.singleton_append] at hasci
    have hrun := coalesceOrRedistribute_left (c := c) fuel hq hlocj.items (hic ▸ hlbody)
      hmin hkey hasci hi hD (hjc ▸ hrbody)
    rw [hic, hjc] at hrun
    rw [hrun]
    by_cases hsum : c.leafMaxSize < l.items.length + r.items.length
    · rw [if_pos (by exact hsum)]
      apply h.redistribute_last hlocj hleafMax hothers hl hsmall hrsize.1 hsum
    · rw [if_neg (by exact hsum)]
      rw [List.map_append, List.append_assoc, List.map_singleton, List.singleton_append] at htell
      apply h.coalesce hlocj hmax hleafMax htell hfuel hothers (by omega) hl (by omega)

end Rebalance

/-! ### The tree -/

section Tree

variable [LinearOrder K] {c : Parameters K} {ls : List (Leaf K V)} {Us : List (Level K)}
  {A B : List (Leaf K V)} {l : Leaf K V} {P Q : List (K × V)} {key : K} {value : V} {zeroKey : K}

omit [LinearOrder K] in
/-- The header page does not hold a node. -/
theorem body_firstIndexPage (h : t.header.isSome) : t.body firstIndexPage = none := by
  rw [Tree.header] at h
  split at h
  · rename_i hget
    rw [Tree.body, Tree.node, hget]
    rfl
  · contradiction

omit [LinearOrder K] in
theorem release_of_nil (h : t.disposedPages = []) : release t = .ok () t := by
  rw [release, h]
  cases t
  cases h
  rfl

/-- The tree after the pages that are not needed any more have been disposed of. -/
theorem Balanced.release (h : Balanced c t t' ls Us) (hdisposed : t.disposedPages = [])
    (hheader : t.header.isSome) :
  ∃ t'', release t' = .ok () t'' ∧ Represents c t'' ls Us
  := by
  obtain ⟨ds, hds, hdisjoint⟩ := h.disposed
  rw [hdisposed, List.nil_append] at hds
  obtain ⟨t'', hrun, hroot, hempty, hnode, hheader'⟩ := release_run (t := t')
  rw [hds] at hnode hheader'
  have hnot : ∀ p ∈ ls.map Leaf.page ++ pages Us, p ∉ ds := by
    intro p hp hmem
    apply (hdisjoint p hmem).2 hp
  have hindex : firstIndexPage ∉ ds := by
    intro hmem
    have hsome := (hdisjoint _ hmem).1
    rw [body_firstIndexPage hheader] at hsome
    contradiction
  refine ⟨t'', hrun, ?_, ?_, h.bears.ordered, h.sizes, hempty⟩
  · apply h.bears.stands.congr _ _ hroot (hheader' hindex)
    · intro p hp
      apply (hnode p (hnot p (List.mem_append_right _ hp))).1
    · intro p hp
      rw [entryPages_leaves] at hp
      apply (hnode p (hnot p hp)).2
  · apply h.bears.linked.congr
    intro l hl
    apply (hnode _ (hnot _ (List.mem_append_left _ (List.mem_map_of_mem hl)))).1

/-- The item has been taken out of its leaf. -/
theorem Represents.erase (h : Represents c t (A ++ l :: B) Us)
    (hitems : l.items = P ++ (key, value) :: Q)
    (hsets : Sets t (Function.update t.body l.page
      (some (.leaf (firstPage invalidPageNum B) (P ++ Q)))) t.parent t₁) :
  Bears t₁ c.internalMaxSize (A ++ ⟨l.page, l.bound, P ++ Q⟩ :: B) Us
  := by
  refine ⟨h.stands.write_leaf hsets _, h.linked.write_leaf h.stands.leaves_nodup hsets, ?_⟩
  have hordered := h.ordered
  have hl : l = ⟨l.page, l.bound, P ++ (key, value) :: Q⟩ := by rw [← hitems]
  rw [hl] at hordered
  apply hordered.erase

/-- A tree that is balanced after an item has been taken out of a leaf. -/
theorem Balanced.of_erase {body : Body K V} (h : Balanced c t₁ t' ls Us)
    (hbody : (t.body l.page).isSome)
    (hsets : Sets t (Function.update t.body l.page (some body)) t.parent t₁) :
  Balanced c t t' ls Us
  := by
  obtain ⟨ds, hds, hdisjoint⟩ := h.disposed
  refine ⟨h.bears, h.sizes, ds, ?_, ?_⟩
  · rw [hds, hsets.disposed]
  · intro d hd
    obtain ⟨hsome, hnot⟩ := hdisjoint d hd
    refine ⟨?_, hnot⟩
    by_cases hdl : d = l.page
    · rwa [hdl]
    · rwa [hsets.body, Function.update_of_ne hdl] at hsome

/-- The leaf that has lost an item has enough of them. -/
theorem Represents.erase_enough (h : Represents c t (A ++ l :: B) Us)
    (hitems : l.items = P ++ (key, value) :: Q)
    (hsets : Sets t (Function.update t.body l.page
      (some (.leaf (firstPage invalidPageNum B) (P ++ Q)))) t.parent t₁)
    (hpos : 1 ≤ (P ++ Q).length) (henough : Us ≠ [] → c.leafMaxSize / 2 ≤ (P ++ Q).length) :
  Balanced c t t₁ (A ++ ⟨l.page, l.bound, P ++ Q⟩ :: B) Us
  := by
  refine ⟨h.erase hitems hsets, ?_, [], ?_, by simp⟩
  · intro m hm
    rw [List.mem_append, List.mem_cons] at hm
    obtain hm | rfl | hm := hm
    · apply h.sizes m (by simp [hm])
    · have hsize := (h.sizes l (by simp)).1
      rw [hitems] at hsize
      simp only [List.length_append, List.length_cons] at hsize hpos henough ⊢
      exact ⟨by omega, hpos, henough⟩
    · apply h.sizes m (by simp [hm])
  · rw [hsets.disposed, List.append_nil]

/-- The only leaf has lost an item, and is too small. -/
theorem Represents.erase_root (h : Represents c t (A ++ l :: B) [])
    (hitems : l.items = P ++ (key, value) :: Q)
    (hsets : Sets t (Function.update t.body l.page
      (some (.leaf (firstPage invalidPageNum B) (P ++ Q)))) t.parent t₁)
    (hsmall : (P ++ Q).length < c.leafMaxSize - c.leafMaxSize / 2) (fuel : Nat) :
  ∃ t', coalesceOrRedistribute c (fuel + 1) l.page t₁ = .ok () t'
    ∧ (Balanced c t t' (A ++ ⟨l.page, l.bound, P ++ Q⟩ :: B) []
      ∨ contents A ++ (P ++ Q) ++ contents B = [] ∧ t'.rootPage = invalidPageNum
        ∧ t'.header = some invalidPageNum ∧ t'.disposedPages = [l.page])
  := by
  have hbears := h.erase hitems hsets
  obtain ⟨rfl, rfl⟩ := h.stands.only_leaf
  have hparent : t₁.parent l.page = some invalidPageNum := hbears.stands.parent
  obtain ⟨body, hnode, hbody⟩ := node_of_parent hparent
  rw [hsets.body, Function.update_self, Option.some.injEq] at hbody
  subst hbody
  rw [firstPage_nil] at hnode
  have hmin : ¬ (Body.leaf invalidPageNum (P ++ Q)).minSize c
      ≤ (Body.leaf invalidPageNum (P ++ Q)).size := by
    rw [not_le]
    apply hsmall
  have hkeep : ∀ x X, P ++ Q = x :: X → Balanced c t t₁ ([] ++ [⟨l.page, l.bound, P ++ Q⟩]) [] := by
    intro x X hPQ
    apply h.erase_enough hitems hsets
    · rw [hPQ, List.length_cons]
      omega
    · intro hne
      contradiction
  have hheader : t₁.header.isSome := hbears.stands.header_isSome
  rw [coalesceOrRedistribute, run_bind (getNode_eq hnode), if_neg hmin, if_pos rfl]
  by_cases hone : 1 < (P ++ Q).length
  · rw [if_pos (by exact hone)]
    obtain ⟨x, X, hPQ⟩ := List.exists_cons_of_ne_nil
      (List.ne_nil_of_length_pos (Nat.zero_lt_of_lt hone))
    exact ⟨t₁, rfl, .inl (hkeep x X hPQ)⟩
  · rw [if_neg (by exact hone), adjustRoot, run_bind (getNode_eq hnode)]
    cases hPQ : P ++ Q with
    | cons x X =>
      refine ⟨t₁, rfl, .inl ?_⟩
      rw [← hPQ]
      apply hkeep x X hPQ
    | nil =>
      obtain ⟨t₂, hrun₂, _, _, hroot₂, hheader₂, hdisposed₂⟩ :=
        updateRootPageNum_run hheader invalidPageNum
      refine ⟨{ t₂ with disposedPages := t₂.disposedPages ++ [l.page] }, ?_, .inr ⟨rfl, hroot₂,
        hheader₂, ?_⟩⟩
      · simp only
        rw [run_bind hrun₂]
        rfl
      · change t₂.disposedPages ++ [l.page] = _
        rw [hdisposed₂, hsets.disposed, h.disposed, List.nil_append]

/-- Deleting an entry from the leaf that has it. -/
theorem Represents.deleteEntryInternal (h : Represents c t (A ++ l :: B) Us)
    (hmax : 4 ≤ c.internalMaxSize) (hleafMax : 4 ≤ c.leafMaxSize)
    (htell : 6 ≤ c.internalMaxSize ∨ Anchored zeroKey ((A ++ l :: B).map Leaf.entry) Us)
    (hitems : l.items = P ++ (key, value) :: Q) (hP : ∀ k ∈ P.map Prod.fst, k < key)
    (hQ : ∀ k ∈ Q.map Prod.fst, key < k) :
  ∃ t', deleteEntryInternal c l.page key t = .ok .success t'
    ∧ ((∃ ls Us', Balanced c t t' ls Us' ∧ contents ls = contents A ++ (P ++ Q) ++ contents B
        ∧ (Zeroed zeroKey Us → Zeroed zeroKey Us'))
      ∨ contents A ++ (P ++ Q) ++ contents B = [] ∧ t'.rootPage = invalidPageNum
        ∧ t'.header = some invalidPageNum ∧ t'.disposedPages = [l.page])
  := by
  have hbody := h.linked.body
  have hsize := h.sizes l (by simp)
  rw [hitems] at hbody hsize
  simp only [List.length_append, List.length_cons] at hsize
  obtain ⟨t₁, hrun₁, hsets₁⟩ := setLeafItems_sets hbody (P ++ Q)
  have hbody₁ : t₁.body l.page = some (.leaf (firstPage invalidPageNum B) (P ++ Q)) := by
    rw [hsets₁.body, Function.update_self]
  obtain ⟨_, hnode₁, _⟩ := node_of_body hbody₁
  have herase : (P ++ (key, value) :: Q).eraseIdx P.length = P ++ Q := by
    rw [List.eraseIdx_append_of_length_le (Nat.le_refl _), Nat.sub_self, List.eraseIdx_cons_zero]
  have hbears := h.erase hitems hsets₁
  have hlen : (P ++ Q).length = P.length + Q.length := List.length_append
  rw [BplusTree.deleteEntryInternal, run_bind (getLeaf_eq hbody)]
  simp only [leafLookup_present hP hQ, herase]
  simp only [if_true]
  rw [run_bind hrun₁, run_bind (getNode_eq hnode₁)]
  simp only
  by_cases henough : c.leafMaxSize - c.leafMaxSize / 2 ≤ (P ++ Q).length
  · rw [if_pos (by exact henough)]
    refine ⟨t₁, rfl, .inl ⟨_, Us, h.erase_enough hitems hsets₁ (by omega) (fun _ => by omega), ?_,
      id⟩⟩
    simp
  · rw [if_neg (by exact henough), run_bind run_get]
    obtain ⟨fuel, hfuel⟩ : ∃ fuel, t₁.pages.length = fuel + 1 :=
      Nat.exists_eq_add_one.mpr (Nat.zero_lt_of_lt hbears.stands.length_lt)
    rw [hfuel]
    cases Us with
    | nil =>
      obtain ⟨t', hrun', hresult⟩ := h.erase_root hitems hsets₁ (not_le.mp henough) fuel
      refine ⟨t', ?_, hresult.imp_left fun hbalanced => ⟨_, _, hbalanced, by simp, id⟩⟩
      rw [run_bind hrun']
      rfl
    | cons W Us =>
      have hlength := hbears.stands.length_lt
      rw [hfuel, List.length_cons] at hlength
      have hhalf := hsize.2.2 (List.cons_ne_nil W Us)
      have hothers : ∀ m ∈ A ++ B, m.items.length ≤ c.leafMaxSize
          ∧ c.leafMaxSize / 2 ≤ m.items.length := by
        intro m hm
        have hm' := h.sizes m (by
          simp only [List.mem_append, List.mem_cons] at hm ⊢
          tauto)
        exact ⟨hm'.1, hm'.2.2 (List.cons_ne_nil W Us)⟩
      have hwants : c.leafMaxSize / 2 ≤ (P ++ Q).length + 1 := by omega
      have hentries : (A ++ ⟨l.page, l.bound, P ++ Q⟩ :: B).map Leaf.entry
          = (A ++ l :: B).map Leaf.entry := by
        simp [Leaf.entry]
      rw [← hentries] at htell
      obtain ⟨t', ls, Us', hrun', hbalanced, hcontents, hzeroed⟩ := hbears.rebalance hmax hleafMax
        htell (Nat.lt_of_succ_lt_succ hlength) hothers hwants (not_le.mp henough)
      refine ⟨t', ?_, .inl ⟨ls, Us', hbalanced.of_erase (isSome_body_of_eq hbody) hsets₁, ?_,
        hzeroed⟩⟩
      · rw [run_bind hrun']
        rfl
      · rw [hcontents]
        simp

/-- Deleting an entry: it is not there, or it is taken out of its place. -/
theorem Represents.deleteEntry (h : Represents c t ls Us) (hmax : 4 ≤ c.internalMaxSize)
    (hleafMax : 4 ≤ c.leafMaxSize)
    (htell : 6 ≤ c.internalMaxSize ∨ Anchored zeroKey (ls.map Leaf.entry) Us) (key : K) :
  (key ∉ (contents ls).map Prod.fst ∧ deleteEntry c key t = .ok .recordNotExist t)
    ∨ ∃ t' P value Q, deleteEntry c key t = .ok .success t'
      ∧ contents ls = P ++ (key, value) :: Q
      ∧ ((∃ ls' Us', Represents c t' ls' Us' ∧ contents ls' = P ++ Q
          ∧ (Zeroed zeroKey Us → Zeroed zeroKey Us'))
        ∨ Vacant t' ∧ P ++ Q = [])
  := by
  obtain ⟨A, l, B, rfl, hcovers, hfind⟩ := h.findLeaf key
  have hsorted : (l.items.map Prod.fst).Pairwise (· < ·) := by
    apply List.Pairwise.sublist _ h.ordered.sorted
    apply List.Sublist.map
    rw [contents_append, contents_cons]
    apply List.Sublist.trans (List.sublist_append_left _ _) (List.sublist_append_right _ _)
  have hbody := h.linked.body
  have hheader := h.stands.header_isSome
  obtain ⟨P, Q, hitems | ⟨value, hitems⟩, hP, hQ⟩ := exists_position key hsorted
  · left
    constructor
    · apply h.ordered.not_mem_keys hcovers.le
      · intro r hr
        apply hcovers.lt r.entry (List.mem_map_of_mem hr)
      · rw [hitems, List.map_append, List.mem_append]
        rintro (hk | hk)
        · apply (hP key hk).false
        · apply (hQ key hk).false
    · rw [hitems] at hbody
      rw [BplusTree.deleteEntry, run_bind hfind]
      simp only
      have hrun : BplusTree.deleteEntryInternal c l.page key t = .ok .recordNotExist t := by
        rw [BplusTree.deleteEntryInternal, run_bind (getLeaf_eq hbody)]
        simp only [leafLookup_absent hP hQ]
        simp only [Bool.false_eq_true, if_false]
        rfl
      rw [run_bind hrun, run_bind (release_of_nil h.disposed)]
      rfl
  · right
    obtain ⟨t₁, hrun₁, hresult⟩ := h.deleteEntryInternal hmax hleafMax htell hitems hP hQ
    have hcontents : contents (A ++ l :: B)
        = (contents A ++ P) ++ (key, value) :: (Q ++ contents B) := by
      simp [hitems]
    obtain ⟨ls, Us', hbalanced, hls, hzeroed⟩ | ⟨hempty, hroot, hheader', hdisposed⟩ := hresult
    · obtain ⟨t', hrun', hrep⟩ := hbalanced.release h.disposed hheader
      refine ⟨t', _, value, _, ?_, hcontents, .inl ⟨ls, Us', hrep, ?_, hzeroed⟩⟩
      · rw [BplusTree.deleteEntry, run_bind hfind]
        simp only
        rw [run_bind hrun₁, run_bind hrun']
        rfl
      · rw [hls]
        simp
    · obtain ⟨t', hrun', hroot', hdisposed', _, hheader''⟩ := release_run (t := t₁)
      refine ⟨t', _, value, _, ?_, hcontents, .inr ⟨⟨hroot'.trans hroot, ?_, hdisposed'⟩, ?_⟩⟩
      · rw [BplusTree.deleteEntry, run_bind hfind]
        simp only
        rw [run_bind hrun₁, run_bind hrun']
        rfl
      · rw [hheader'', hheader']
        rw [hdisposed, List.mem_singleton]
        intro heq
        rw [← heq, body_firstIndexPage hheader] at hbody
        contradiction
      · simpa using hempty

end Tree

end MiniOB.BplusTree
