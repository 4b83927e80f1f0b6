import MiniOB.Index.Search

/-!
# Deletion from the levels

A node that has become too small is filled up from a neighbour, or merged with it. A merge
takes an item from the parent, which may become too small in turn. In the end the levels
stand on the same entries again.
-/

namespace MiniOB.BplusTree

open LowerBound Levels

variable {K V : Type} {t t' : Tree K V}

/-! ### Rewriting a node -/

section Replace

variable {max : Nat} {L R : List (Entry K)} {e : Entry K} {W : Level K} {Us : List (Level K)}
  {A B : Level K} {q : Branch K} {C D : List (Item K)} {i : Item K}

/-- The levels above a node stand when the node gets other items after the item `i`. -/
theorem Stands.tail_replace (h : Stands t max (L ++ e :: R) (W :: Us))
    (hloc : Located W L e R A q B C i D) (M : List (Item K))
    (hbody : ∀ p, p ≠ q.page → t'.body p = t.body p)
    (hparent : ∀ p ∈ pages (W :: Us), t'.parent p = t.parent p)
    (hroot : t'.rootPage = t.rootPage) (hheader : t'.header = t.header) :
  Stands t' max (Level.entries (A ++ ⟨q.page, C ++ i :: M⟩ :: B)) Us
  := by
  have hpage := hloc.page_not_mem (List.nodup_append.mp h.nodup).2.1
  rw [hloc.entries_replace]
  apply h.tail.congr _ _ hroot hheader
  · intro p hp
    apply hbody
    rintro rfl
    apply hpage
    apply List.mem_append_right _ (List.mem_append_right _ hp)
  · intro p hp
    apply hparent
    rwa [pages_cons, ← entryPages_entries]

/-- The nodes of the level are held when one of them gets other items after the item `i`. -/
theorem Stands.holds_replace (h : Stands t max (L ++ e :: R) (W :: Us))
    (hloc : Located W L e R A q B C i D) (M : List (Item K))
    (hbody : t'.body = Function.update t.body q.page
      (some (.internal ((C ++ i :: M).map Item.slot))))
    (hparent : ∀ p ∈ entryPages (L ++ e :: R), t'.parent p = t.parent p)
    (hM : ∀ m ∈ M, t'.parent m.child = some q.page) :
  ∀ m ∈ A ++ ⟨q.page, C ++ i :: M⟩ :: B, Holds t' m
  := by
  have hpage := hloc.page_not_mem (List.nodup_append.mp h.nodup).2.1
  have hold : ∀ m ∈ W, m.page ≠ q.page → Holds t' m := by
    intro m hm hne
    apply (h.holds_head hm).congr
    · rw [hbody, Function.update_of_ne hne]
    · intro p hp
      apply hparent p (h.child_mem_below hm hp)
  intro m hm
  rw [List.mem_append, List.mem_cons] at hm
  obtain hm | rfl | hm := hm
  · apply hold m (hloc.mem_left hm)
    intro heq
    apply hpage (List.mem_append_left _ (List.mem_map.mpr ⟨m, hm, heq⟩))
  · constructor
    · rw [hbody, Function.update_self]
      rfl
    · intro p hp
      have hold' : ∀ item ∈ C ++ i :: D, t'.parent item.child = some q.page := by
        intro item hitem
        have hmem : item.child ∈ q.children := by
          rw [Branch.children, hloc.items]
          apply List.mem_map_of_mem hitem
        rw [hparent _ (h.child_mem_below hloc.mem hmem)]
        apply (h.holds_head hloc.mem).parent _ hmem
      obtain ⟨item, hitem, rfl⟩ := List.mem_map.mp hp
      rw [List.mem_append, List.mem_cons] at hitem
      obtain hitem | rfl | hitem := hitem
      · apply hold' _ (by simp [hitem])
      · apply hold' _ (by simp)
      · apply hM item hitem
  · apply hold m (hloc.mem_right hm)
    intro heq
    apply hpage
    apply List.mem_append_right _ (List.mem_append_left _ (List.mem_map.mpr ⟨m, hm, heq⟩))

theorem Located.pages_replace (hloc : Located W L e R A q B C i D) (M : List (Item K)) :
  pages ((A ++ ⟨q.page, M⟩ :: B) :: Us) = pages (W :: Us)
  := by
  simp [hloc.level]

end Replace

/-! ### Nodes that are too small -/

/-- The levels `A ++ n :: B` and `Us` stand on the entries `below`, but the node `n` may lack
an item. -/
structure Wanting (t : Tree K V) (max : Nat) (below : List (Entry K)) (A : Level K) (n : Branch K)
    (B : Level K) (Us : List (Level K)) : Prop where
  stands : Stands t max (Level.entries (A ++ n :: B)) Us
  below_eq : Level.below (A ++ n :: B) = below
  size : n.items.length ≤ max ∧ 1 ≤ n.items.length ∧ (Us ≠ [] → max / 2 ≤ n.items.length + 1)
  sizes : ∀ m ∈ A ++ B, m.items.length ≤ max ∧ 2 ≤ m.items.length
    ∧ (Us ≠ [] → max / 2 ≤ m.items.length)
  holds : ∀ m ∈ A ++ n :: B, Holds t m
  nodup : (entryPages below ++ pages ((A ++ n :: B) :: Us)).Nodup

/-- A deletion has turned the pages `ps` of the levels on the entries `below` into `ps'`, and
has disposed of some that are not needed any more. -/
structure Shrunk (t t' : Tree K V) (below : List (Entry K)) (ps ps' : List Int) : Prop where
  body : ∀ p, p ∉ ps → t'.body p = t.body p
  parent : ∀ p, p ∉ entryPages below → p ∉ ps → t'.parent p = t.parent p
  pages : ∀ p ∈ ps', p ∈ ps
  disposed : ∃ ds, t'.disposedPages = t.disposedPages ++ ds ∧ ∀ d ∈ ds, d ∈ ps ∧ d ∉ ps'

section Pairs

variable {max : Nat} {L R : List (Entry K)} {e e' : Entry K} {W : Level K} {Us : List (Level K)}
  {A B : Level K} {q : Branch K} {C D : List (Item K)} {i j : Item K}

/-- A node of the parent's level has got another key for a child that is not its first. -/
theorem Stands.rekey (h : Stands t max (L ++ e :: e' :: R) (W :: Us))
    (hloc : Located W L e (e' :: R) A q B C i (j :: D)) {key : K}
    (hsets : Sets t (Function.update t.body q.page (some (.internal
        ((C ++ i :: Item.ofKey key j.child :: D).map Item.slot)))) t.parent t') :
  Stands t' max (L ++ e :: (↑key, e'.2) :: R)
    ((A ++ ⟨q.page, C ++ i :: Item.ofKey key j.child :: D⟩ :: B) :: Us)
  := by
  have hright := hloc.right
  rw [List.map_cons, List.cons_append, List.cons.injEq] at hright
  have hj : j.child = e'.2 := by rw [hright.1, Item.entry_snd]
  have htail : Stands t' max (Level.entries
      (A ++ ⟨q.page, C ++ i :: Item.ofKey key j.child :: D⟩ :: B)) Us :=
    h.tail_replace hloc (Item.ofKey key j.child :: D)
      (fun p hp => by rw [hsets.body, Function.update_of_ne hp])
      (fun p _ => by rw [hsets.parent]) hsets.rootPage hsets.header
  apply htail.cons
  · rw [Level.below_append, Level.below_cons, hloc.left, hright.2, ← hj, ← hloc.entry]
    simp
  · intro m hm
    rw [List.mem_append, List.mem_cons] at hm
    obtain hm | rfl | hm := hm
    · apply h.tower.2.1 m (hloc.mem_left hm)
    · have hsize := h.tower.2.1 q hloc.mem
      rw [hloc.items] at hsize
      simpa using hsize
    · apply h.tower.2.1 m (hloc.mem_right hm)
  · apply h.holds_replace hloc _ hsets.body (fun p _ => by rw [hsets.parent])
    have hold : ∀ m ∈ j :: D, t'.parent m.child = some q.page := by
      intro m hm
      rw [hsets.parent]
      apply (h.holds_head hloc.mem).parent
      rw [Branch.children, hloc.items]
      apply List.mem_map_of_mem
      apply List.mem_append_right _ (List.mem_cons_of_mem _ hm)
    intro m hm
    rw [List.mem_cons] at hm
    obtain rfl | hm := hm
    · apply hold j List.mem_cons_self
    · apply hold m (List.mem_cons_of_mem _ hm)
  · have hnodup := h.nodup
    rw [Located.pages_replace hloc]
    simpa using hnodup

/-- A node of the parent's level has lost a child that is not its first. -/
theorem Stands.remove (h : Stands t max (L ++ e :: e' :: R) (W :: Us))
    (hloc : Located W L e (e' :: R) A q B C i (j :: D))
    (hsets : Sets t (Function.update t.body q.page (some (.internal
        ((C ++ i :: D).map Item.slot)))) t.parent t') :
  Wanting t' max (L ++ e :: R) A ⟨q.page, C ++ i :: D⟩ B Us
  := by
  have hright := hloc.right
  rw [List.map_cons, List.cons_append, List.cons.injEq] at hright
  have hsize := h.tower.2.1 q hloc.mem
  rw [hloc.items] at hsize
  simp only [List.length_append, List.length_cons] at hsize
  constructor
  · apply h.tail_replace hloc D (fun p hp => by rw [hsets.body, Function.update_of_ne hp])
      (fun p _ => by rw [hsets.parent]) hsets.rootPage hsets.header
  · rw [Level.below_append, Level.below_cons, hloc.left, hright.2, ← hloc.entry]
    simp
  · simp only [List.length_append, List.length_cons]
    refine ⟨by omega, by omega, fun hUs => ?_⟩
    have hhalf := hsize.2.2 hUs
    omega
  · intro m hm
    rw [List.mem_append] at hm
    obtain hm | hm := hm
    · apply h.tower.2.1 m (hloc.mem_left hm)
    · apply h.tower.2.1 m (hloc.mem_right hm)
  · apply h.holds_replace hloc _ hsets.body (fun p _ => by rw [hsets.parent])
    intro m hm
    rw [hsets.parent]
    apply (h.holds_head hloc.mem).parent
    rw [Branch.children, hloc.items]
    apply List.mem_map_of_mem
    apply List.mem_append_right _ (List.mem_cons_of_mem _ (List.mem_cons_of_mem _ hm))
  · have hnodup := h.nodup
    rw [Located.pages_replace hloc]
    apply List.Nodup.sublist _ hnodup
    apply List.Sublist.append_right
    simp only [entryPages_append, entryPages_cons]
    apply List.Sublist.append_left
    apply List.Sublist.cons_cons
    apply List.sublist_cons_self

end Pairs

/-! ### The neighbour -/

section Neighbour

variable [LinearOrder K] {c : Parameters K} {q : Branch K} {C D : List (Item K)} {i j : Item K}
  {body neighbor : Body K V} {key : K} {fuel : Nat}

omit [LinearOrder K] in
theorem getElem?_slots (hitems : q.items = C ++ i :: D) : q.slots[C.length]? = some i.slot := by
  rw [Branch.slots, hitems]
  simp

omit [LinearOrder K] in
theorem slot_snd (i : Item K) : i.slot.2 = i.child := rfl

/-- A node that is not its parent's first child turns to its left neighbour. -/
theorem coalesceOrRedistribute_left (fuel : Nat) (hq : Holds t q) (hitems : q.items = C ++ i :: j :: D)
    (hbody : t.body j.child = some body) (hsmall : body.size < body.minSize c)
    (hkey : body.keyAt (body.size - 1) = some key)
    (hasc : Ascending ((C ++ i :: j :: D).map Item.entry)) (hj : j.bound ≤ key)
    (hD : ∀ d ∈ D, (key : WithBot K) < d.bound) (hneighbor : t.body i.child = some neighbor) :
  coalesceOrRedistribute c (fuel + 1) j.child t
    = (if body.maxSize c < body.size + neighbor.size then
        redistribute i.child j.child q.page (C.length + 1)
      else coalesce (coalesceOrRedistribute c fuel) i.child j.child q.page (C.length + 1)
        : Mtr K V Unit) t
  := by
  have hsplit : C ++ i :: j :: D = (C ++ [i]) ++ j :: D := by simp
  have hlookup : internalLookup q.slots key = C.length + 1 := by
    rw [Branch.slots, hitems, hsplit, internalLookup_eq (hsplit ▸ hasc) hj hD]
    simp
  have hslot : q.slots[C.length + 1]? = some j.slot := by
    have hslot := getElem?_slots (hitems.trans hsplit)
    simpa using hslot
  have hleft : q.slots[C.length]? = some i.slot := getElem?_slots hitems
  have hmem : j.child ∈ q.children := by
    rw [Branch.children, hitems]
    simp
  obtain ⟨parent, hnode, hparent⟩ := node_of_body hbody
  rw [hq.parent _ hmem, Option.some.injEq] at hparent
  subst hparent
  obtain ⟨_, hnode', _⟩ := node_of_body hneighbor
  have hvalid := ne_invalid_of_body (isSome_body_of_eq hq.body)
  rw [coalesceOrRedistribute, run_bind (getNode_eq hnode)]
  simp only [if_neg (not_le.mpr hsmall), if_neg hvalid, hkey]
  rw [run_bind (getInternal_eq hq.body), run_bind (item_some _)]
  simp only [hlookup, hslot]
  rw [run_bind (item_some _)]
  simp only [if_neg (not_not.mpr (slot_snd j)), Nat.add_one_ne_zero, if_false,
    Nat.add_one_sub_one, hleft]
  rw [run_bind (item_some _), slot_snd, run_bind (getNode_eq hnode')]

/-- The first child of a node turns to its right neighbour. -/
theorem coalesceOrRedistribute_right (fuel : Nat) (hq : Holds t q) (hitems : q.items = i :: j :: D)
    (hbody : t.body i.child = some body) (hsmall : body.size < body.minSize c)
    (hkey : body.keyAt (body.size - 1) = some key)
    (hasc : Ascending ((i :: j :: D).map Item.entry)) (hi : i.bound ≤ key)
    (hD : ∀ d ∈ j :: D, (key : WithBot K) < d.bound)
    (hneighbor : t.body j.child = some neighbor) :
  coalesceOrRedistribute c (fuel + 1) i.child t
    = (if body.maxSize c < body.size + neighbor.size then redistribute j.child i.child q.page 0
      else coalesce (coalesceOrRedistribute c fuel) j.child i.child q.page 0 : Mtr K V Unit) t
  := by
  have hlookup : internalLookup q.slots key = 0 := by
    rw [Branch.slots, hitems]
    apply internalLookup_eq (C := []) hasc hi hD
  have hslot : q.slots[0]? = some i.slot := getElem?_slots (C := []) hitems
  have hright : q.slots[1]? = some j.slot := getElem?_slots (C := [i]) hitems
  have hmem : i.child ∈ q.children := by
    rw [Branch.children, hitems]
    simp
  obtain ⟨parent, hnode, hparent⟩ := node_of_body hbody
  rw [hq.parent _ hmem, Option.some.injEq] at hparent
  subst hparent
  obtain ⟨_, hnode', _⟩ := node_of_body hneighbor
  have hvalid := ne_invalid_of_body (isSome_body_of_eq hq.body)
  rw [coalesceOrRedistribute, run_bind (getNode_eq hnode)]
  simp only [if_neg (not_le.mpr hsmall), if_neg hvalid, hkey]
  rw [run_bind (getInternal_eq hq.body), run_bind (item_some _)]
  simp only [hlookup, hslot]
  rw [run_bind (item_some _)]
  simp only [if_neg (not_not.mpr (slot_snd i)), if_true, hright]
  rw [run_bind (item_some _), slot_snd, run_bind (getNode_eq hnode')]

omit [LinearOrder K] in
/-- A merge with the right neighbour is the merge of the right neighbour with its left one. -/
theorem coalesce_right (checkParent : Int → Mtr K V Unit) (left right parent : Int) :
  coalesce checkParent right left parent 0 = coalesce checkParent left right parent 1
  := rfl

end Neighbour

/-! ### Moving items between inner nodes -/

/-- The neighbours `l` and `r` have become `l'` and `r'`, which are on the same pages and have
the same items between them. -/
structure Moved (t t' : Tree K V) (l r l' r' : Branch K) : Prop where
  items : l'.items ++ r'.items = l.items ++ r.items
  page_left : l'.page = l.page
  page_right : r'.page = r.page
  holds_left : Holds t' l'
  holds_right : Holds t' r'
  body : ∀ p, p ≠ l.page → p ≠ r.page → t'.body p = t.body p
  parent : ∀ p, p ∉ l.children → p ∉ r.children → t'.parent p = t.parent p
  rootPage : t'.rootPage = t.rootPage
  header : t'.header = t.header
  disposed : t'.disposedPages = t.disposedPages

section Moved

variable {l r q : Branch K} {X Y M C D : List (Item K)} {i j x y : Item K}

theorem map_snd_slots (items : List (Item K)) :
  (items.map Item.slot).map Prod.snd = items.map Item.child
  := by
  rw [List.map_map]
  rfl

/-- The items `M` have gone from the right neighbour to the left one. -/
theorem moved_left (hl : Holds t l) (hr : Holds t r) (hne : l.page ≠ r.page)
    (hnodup : (l.children ++ r.children).Nodup) (hitems : r.items = M ++ Y)
    (hsets : Sets t (Function.update (Function.update t.body l.page
        (some (.internal (l.slots ++ M.map Item.slot)))) r.page
        (some (.internal (Y.map Item.slot))))
        (adopt t.parent l.page ((M.map Item.slot).map Prod.snd)) t') :
  Moved t t' l r ⟨l.page, l.items ++ M⟩ ⟨r.page, Y⟩
  := by
  have hchildren : r.children = M.map Item.child ++ Y.map Item.child := by
    rw [Branch.children, hitems, List.map_append]
  rw [hchildren] at hnodup
  have hleft := (List.nodup_append.mp hnodup).2.2
  have hright := (List.nodup_append.mp (List.nodup_append.mp hnodup).2.1).2.2
  rw [map_snd_slots] at hsets
  refine ⟨by simp [hitems], rfl, rfl, ⟨?_, ?_⟩, ⟨?_, ?_⟩, ?_, ?_, hsets.rootPage, hsets.header,
    hsets.disposed⟩
  · rw [hsets.body, Function.update_of_ne hne, Function.update_self, Branch.slots, Branch.slots,
      List.map_append]
  · intro p hp
    rw [hsets.parent]
    by_cases hM : p ∈ M.map Item.child
    · rw [adopt_of_mem hM]
    · rw [adopt_of_not_mem hM]
      apply hl.parent
      rw [Branch.children, List.map_append, List.mem_append] at hp
      apply hp.resolve_right hM
  · rw [hsets.body, Function.update_self]
    rfl
  · intro p hp
    have hM : p ∉ M.map Item.child := fun hM => hright p hM p hp rfl
    rw [hsets.parent, adopt_of_not_mem hM]
    apply hr.parent
    rw [hchildren]
    apply List.mem_append_right _ hp
  · intro p hpl hpr
    rw [hsets.body, Function.update_of_ne hpr, Function.update_of_ne hpl]
  · intro p hpl hpr
    rw [hchildren, List.mem_append, not_or] at hpr
    rw [hsets.parent, adopt_of_not_mem hpr.1]

/-- The last item of the left neighbour has gone to the right one. -/
theorem moved_right (hl : Holds t l) (hr : Holds t r) (hne : l.page ≠ r.page)
    (hnodup : (l.children ++ r.children).Nodup) (hitems : l.items = X ++ [x])
    (hsets : Sets t (Function.update (Function.update t.body r.page
        (some (.internal (x.slot :: r.slots)))) l.page (some (.internal (X.map Item.slot))))
        (adopt t.parent r.page [x.child]) t') :
  Moved t t' l r ⟨l.page, X⟩ ⟨r.page, x :: r.items⟩
  := by
  have hchildren : l.children = X.map Item.child ++ [x.child] := by
    rw [Branch.children, hitems, List.map_append, List.map_singleton]
  rw [hchildren] at hnodup
  have hleft := (List.nodup_append.mp (List.nodup_append.mp hnodup).1).2.2
  refine ⟨by simp [hitems], rfl, rfl, ⟨?_, ?_⟩, ⟨?_, ?_⟩, ?_, ?_, hsets.rootPage, hsets.header,
    hsets.disposed⟩
  · rw [hsets.body, Function.update_self]
    rfl
  · intro p hp
    have hpx : p ∉ [x.child] := fun hpx => hleft p hp p hpx rfl
    rw [hsets.parent, adopt_of_not_mem hpx]
    apply hl.parent
    rw [hchildren]
    apply List.mem_append_left _ hp
  · change t'.body r.page = _
    rw [hsets.body, Function.update_of_ne hne.symm, Function.update_self]
    rfl
  · intro p hp
    rw [hsets.parent]
    by_cases hpx : p ∈ [x.child]
    · rw [adopt_of_mem hpx]
    · rw [adopt_of_not_mem hpx]
      apply hr.parent
      rw [Branch.children, List.map_cons, List.mem_cons] at hp
      apply hp.resolve_left
      rwa [List.mem_singleton] at hpx
  · intro p hpl hpr
    rw [hsets.body, Function.update_of_ne hpl, Function.update_of_ne hpr]
  · intro p hpl hpr
    rw [hchildren, List.mem_append, not_or] at hpl
    rw [hsets.parent, adopt_of_not_mem hpl.2]

theorem set_slot (key : K) :
  ((C ++ i :: j :: D).map Item.slot).set (C.length + 1) (key, j.slot.2)
    = (C ++ i :: Item.ofKey key j.child :: D).map Item.slot
  := by
  simp [slot_snd]

theorem eraseIdx_slot :
  ((C ++ i :: j :: D).map Item.slot).eraseIdx (C.length + 1) = (C ++ i :: D).map Item.slot
  := by
  have herase := List.eraseIdx_append_of_length_le (l := (C ++ [i]).map Item.slot)
    (k := C.length + 1) (by simp) ((j :: D).map Item.slot)
  simpa using herase

/-- The first key of the right neighbour goes into the parent. -/
theorem rekey_run {page : Int} {body : Body K V} {key : K} (hbody : t.body page = some body)
    (hkey : body.keyAt 0 = some key) (hq : t.body q.page = some (.internal q.slots))
    (hitems : q.items = C ++ i :: j :: D) :
  ∃ t', (do
      let firstKey ← item ((← getNode page).body.keyAt 0)
      setKeyAt q.page (C.length + 1) firstKey : Mtr K V Unit) t = .ok () t'
    ∧ Sets t (Function.update t.body q.page
        (some (.internal ((C ++ i :: Item.ofKey key j.child :: D).map Item.slot)))) t.parent t'
  := by
  have hsplit : q.items = (C ++ [i]) ++ j :: D := by simp [hitems]
  have hslot : q.slots[C.length + 1]? = some j.slot := by
    have hslot := getElem?_slots hsplit
    simpa using hslot
  obtain ⟨_, hnode, _⟩ := node_of_body hbody
  obtain ⟨t', hrun, hsets⟩ := setKeyAt_sets hq hslot key
  rw [Branch.slots, hitems, set_slot] at hsets
  refine ⟨t', ?_, hsets⟩
  rw [run_bind (getNode_eq hnode)]
  simp only [hkey]
  rw [run_bind (item_some _)]
  apply hrun

/-- The left neighbour gets the first item of the right one. -/
theorem redistribute_first (hl : Holds t l) (hr : Holds t r) (hq : Holds t q)
    (hne : l.page ≠ r.page) (hql : q.page ≠ l.page) (hqr : q.page ≠ r.page)
    (hnodup : (l.children ++ r.children).Nodup) (hitems : q.items = i :: j :: D)
    (hright : r.items = x :: y :: Y) :
  ∃ t₁ t', redistribute r.page l.page q.page 0 t = .ok () t'
    ∧ Moved t t₁ l r ⟨l.page, l.items ++ [x]⟩ ⟨r.page, y :: Y⟩
    ∧ Sets t₁ (Function.update t₁.body q.page
        (some (.internal ((i :: Item.ofKey y.key j.child :: D).map Item.slot)))) t₁.parent t'
  := by
  have hbody := hr.body
  rw [Branch.slots, hright, List.map_cons] at hbody
  have hx : (t.body x.slot.2).isSome := by
    apply hr.isSome_slots
    rw [Branch.slots, hright]
    simp
  obtain ⟨t₁, hrun₁, hsets₁⟩ := moveFirstToEnd_internal hne hbody hl.body hx
  have hmoved : Moved t t₁ l r ⟨l.page, l.items ++ [x]⟩ ⟨r.page, y :: Y⟩ :=
    moved_left hl hr hne hnodup hright hsets₁
  have hq₁ : t₁.body q.page = some (.internal q.slots) := by
    rw [hmoved.body _ hql hqr, hq.body]
  obtain ⟨t', hrun', hsets'⟩ := rekey_run (C := []) hmoved.holds_right.body rfl hq₁ hitems
  refine ⟨t₁, t', ?_, hmoved, hsets'⟩
  rw [redistribute, if_pos rfl, run_bind hrun₁]
  apply hrun'

/-- The right neighbour gets the last item of the left one. -/
theorem redistribute_last (hl : Holds t l) (hr : Holds t r) (hq : Holds t q)
    (hne : l.page ≠ r.page) (hql : q.page ≠ l.page) (hqr : q.page ≠ r.page)
    (hnodup : (l.children ++ r.children).Nodup) (hitems : q.items = C ++ i :: j :: D)
    (hleft : l.items = X ++ [x]) :
  ∃ t₁ t', redistribute l.page r.page q.page (C.length + 1) t = .ok () t'
    ∧ Moved t t₁ l r ⟨l.page, X⟩ ⟨r.page, x :: r.items⟩
    ∧ Sets t₁ (Function.update t₁.body q.page
        (some (.internal ((C ++ i :: Item.ofKey x.key j.child :: D).map Item.slot)))) t₁.parent t'
  := by
  have hbody := hl.body
  rw [Branch.slots, hleft, List.map_append, List.map_singleton] at hbody
  have hx : (t.body x.slot.2).isSome := by
    apply hl.isSome_slots
    rw [Branch.slots, hleft]
    simp
  obtain ⟨t₁, hrun₁, hsets₁⟩ := moveLastToFront_internal hne.symm hbody hr.body hx
  have hmoved : Moved t t₁ l r ⟨l.page, X⟩ ⟨r.page, x :: r.items⟩ :=
    moved_right hl hr hne hnodup hleft hsets₁
  have hq₁ : t₁.body q.page = some (.internal q.slots) := by
    rw [hmoved.body _ hql hqr, hq.body]
  obtain ⟨t', hrun', hsets'⟩ := rekey_run hmoved.holds_right.body rfl hq₁ hitems
  refine ⟨t₁, t', ?_, hmoved, hsets'⟩
  rw [redistribute, if_neg (Nat.succ_ne_zero _), run_bind hrun₁]
  apply hrun'

/-- The right neighbour is merged into the left one. -/
theorem coalesce_internal (checkParent : Int → Mtr K V Unit) (hl : Holds t l) (hr : Holds t r)
    (hq : Holds t q) (hne : l.page ≠ r.page) (hql : q.page ≠ l.page) (hqr : q.page ≠ r.page)
    (hnodup : (l.children ++ r.children).Nodup) (hitems : q.items = C ++ i :: j :: D) :
  ∃ t₁ t₂, Sets t (Function.update t.body q.page
        (some (.internal ((C ++ i :: D).map Item.slot)))) t.parent t₁
    ∧ Moved t₁ t₂ l r ⟨l.page, l.items ++ r.items⟩ ⟨r.page, []⟩
    ∧ coalesce checkParent l.page r.page q.page (C.length + 1) t
      = checkParent q.page { t₂ with disposedPages := t₂.disposedPages ++ [r.page] }
  := by
  have hindex : C.length + 1 < q.slots.length := by
    rw [Branch.length_slots, hitems, List.length_append, List.length_cons, List.length_cons]
    omega
  obtain ⟨t₁, hrun₁, hsets₁⟩ := internalRemove_sets hq.body hindex
  rw [Branch.slots, hitems, eraseIdx_slot] at hsets₁
  have hl₁ : Holds t₁ l := by
    apply hl.congr
    · rw [hsets₁.body, Function.update_of_ne hql.symm]
    · intro p _
      rw [hsets₁.parent]
  have hr₁ : Holds t₁ r := by
    apply hr.congr
    · rw [hsets₁.body, Function.update_of_ne hqr.symm]
    · intro p _
      rw [hsets₁.parent]
  obtain ⟨t₂, hrun₂, hsets₂⟩ := moveTo_internal hne hr₁.body hl₁.body hr₁.isSome_slots
  have hmoved : Moved t₁ t₂ l r ⟨l.page, l.items ++ r.items⟩ ⟨r.page, []⟩ := by
    apply moved_left (M := r.items) (Y := []) hl₁ hr₁ hne hnodup _ hsets₂
    rw [List.append_nil]
  obtain ⟨_, hnode, _⟩ := node_of_body hmoved.holds_left.body
  refine ⟨t₁, t₂, hsets₁, hmoved, ?_⟩
  simp only [coalesce, Nat.add_one_ne_zero, if_false]
  rw [run_bind hrun₁, run_bind hrun₂, run_bind (getNode_eq hnode)]
  rfl

end Moved

end MiniOB.BplusTree
