import MiniOB.Index.BplusTree

/-!
# The effect of the node operations

What the operations on the nodes of a B+ tree do, seen through two maps: the one from the
pages to what the nodes on them hold, and the one to the parents of the nodes.
-/

namespace MiniOB.BplusTree

open LowerBound

variable {K V α β : Type} {t t' t'' : Tree K V}

/-! ### Running computations -/

theorem run_bind {x : Mtr K V α} {f : α → Mtr K V β} {a : α} (h : x t = .ok a t') :
  (x >>= f) t = f a t'
  := by
  simp only [bind, EStateM.bind, h]

theorem run_get : (get : Mtr K V (Tree K V)) t = .ok t t := rfl

theorem item_some (a : α) : (item (some a) : Mtr K V α) t = .ok a t := rfl

/-! ### The maps of a tree -/

/-- What the node on a page holds. -/
def Tree.body (t : Tree K V) (page : Int) : Option (Body K V) := (t.node page).map IndexNode.body

/-- The parent of the node on a page. -/
def Tree.parent (t : Tree K V) (page : Int) : Option Int := (t.node page).map IndexNode.parent

/-- The root that the header page names. -/
def Tree.header (t : Tree K V) : Option Int :=
  match t.pages.get firstIndexPage with
  | some (.indexHeader rootPage) => some rootPage
  | _ => none

section Maps

variable {page : Int} {body : Body K V} {parent : Int}

theorem node_of_body (h : t.body page = some body) :
  ∃ parent, t.node page = some ⟨parent, body⟩ ∧ t.parent page = some parent
  := by
  obtain ⟨⟨parent, _⟩, hnode, rfl⟩ := Option.map_eq_some_iff.mp h
  refine ⟨parent, hnode, ?_⟩
  rw [Tree.parent, hnode, Option.map_some]

theorem node_of_parent (h : t.parent page = some parent) :
  ∃ body, t.node page = some ⟨parent, body⟩ ∧ t.body page = some body
  := by
  obtain ⟨⟨_, body⟩, hnode, rfl⟩ := Option.map_eq_some_iff.mp h
  refine ⟨body, hnode, ?_⟩
  rw [Tree.body, hnode, Option.map_some]

theorem isSome_body_iff : (t.body page).isSome ↔ (t.parent page).isSome := by
  simp [Tree.body, Tree.parent]

theorem isSome_body_of_eq (h : t.body page = some body) : (t.body page).isSome := by
  rw [h, Option.isSome_some]

theorem isSome_body_of_parent (h : t.parent page = some parent) : (t.body page).isSome := by
  rw [isSome_body_iff, h, Option.isSome_some]

theorem ne_of_body_none {page' : Int} (hnone : t.body page = none)
    (hsome : (t.body page').isSome) :
  page' ≠ page
  := by
  rintro rfl
  rw [hnone] at hsome
  contradiction

theorem get_of_node {node : IndexNode K V} (h : t.node page = some node) :
  t.pages.get page = some (.node node)
  := by
  rw [Tree.node] at h
  split at h
  · rename_i hget
    cases h
    apply hget
  · contradiction

theorem get_of_body (h : (t.body page).isSome) : ∃ node, t.pages.get page = some (.node node) := by
  obtain ⟨body, hbody⟩ := Option.isSome_iff_exists.mp h
  obtain ⟨parent, hnode, _⟩ := node_of_body hbody
  exact ⟨_, get_of_node hnode⟩

theorem nonneg_of_body (h : (t.body page).isSome) : 0 ≤ page := by
  obtain ⟨node, hget⟩ := get_of_body h
  apply PageFile.nonneg_of_get hget

theorem ne_invalid_of_body (h : (t.body page).isSome) : page ≠ invalidPageNum := by
  have hpos := nonneg_of_body h
  rw [invalidPageNum]
  omega

/-- The file is at least as long as the number of its nodes. -/
theorem length_le_pages {ps : List Int} (hnodup : ps.Nodup) (hsome : ∀ p ∈ ps, (t.body p).isSome) :
  ps.length ≤ t.pages.length
  := by
  have hsub : ps ⊆ (List.range t.pages.length).map Int.ofNat := by
    intro p hp
    have hpos := nonneg_of_body (hsome p hp)
    obtain ⟨node, hget⟩ := get_of_body (hsome p hp)
    rw [PageFile.get, if_neg (by omega)] at hget
    have hlt : p.toNat < t.pages.length := by
      by_contra hge
      rw [List.getElem?_eq_none (by omega)] at hget
      contradiction
    exact List.mem_map.mpr ⟨p.toNat, List.mem_range.mpr hlt, by simpa using hpos⟩
  have hlen := (List.subperm_of_subset hnodup hsub).length_le
  simpa using hlen

end Maps

/-- The tree `t'` has the maps `body` and `parent`, and the rest from `t`. -/
structure Sets (t : Tree K V) (body : Int → Option (Body K V)) (parent : Int → Option Int)
    (t' : Tree K V) : Prop where
  body : t'.body = body
  parent : t'.parent = parent
  rootPage : t'.rootPage = t.rootPage
  header : t'.header = t.header
  disposed : t'.disposedPages = t.disposedPages

section Sets

variable {B B' : Int → Option (Body K V)} {P P' : Int → Option Int}

theorem Sets.refl (t : Tree K V) : Sets t t.body t.parent t := ⟨rfl, rfl, rfl, rfl, rfl⟩

theorem Sets.trans (h : Sets t B P t') (h' : Sets t' B' P' t'') : Sets t B' P' t'' where
  body := h'.body
  parent := h'.parent
  rootPage := h'.rootPage.trans h.rootPage
  header := h'.header.trans h.header
  disposed := h'.disposed.trans h.disposed

end Sets

/-! ### Pages -/

section Pages

variable {page : Int} {body : Body K V} {node : IndexNode K V}

theorem getNode_eq (h : t.node page = some node) : getNode page t = .ok node t := by
  simp only [getNode, h]

theorem putNode_sets (h : t.node page = some node) (node' : IndexNode K V) :
  ∃ t', putNode page node' t = .ok () t'
    ∧ Sets t (Function.update t.body page (some node'.body))
        (Function.update t.parent page (some node'.parent)) t'
  := by
  have hget := get_of_node h
  have hnode : ∀ p, Tree.node { t with pages := t.pages.set page (some (.node node')) } p
      = if p = page then some node' else t.node p := by
    intro p
    by_cases hp : p = page
    · simp only [Tree.node, hp, PageFile.get_set_self hget, if_true]
    · simp only [Tree.node, PageFile.get_set_of_ne hp, if_neg hp]
  refine ⟨_, rfl, ?_⟩
  constructor
  · funext p
    simp only [Tree.body, hnode, Function.update_apply]
    split <;> rfl
  · funext p
    simp only [Tree.parent, hnode, Function.update_apply]
    split <;> rfl
  · rfl
  · by_cases hp : firstIndexPage = page
    · subst hp
      simp only [Tree.header, PageFile.get_set_self hget, hget]
    · simp only [Tree.header, PageFile.get_set_of_ne hp]
  · rfl

theorem setBody_sets (h : (t.body page).isSome) (body : Body K V) :
  ∃ t', setBody page body t = .ok () t'
    ∧ Sets t (Function.update t.body page (some body)) t.parent t'
  := by
  obtain ⟨old, hold⟩ := Option.isSome_iff_exists.mp h
  obtain ⟨parent, hnode, hparent⟩ := node_of_body hold
  obtain ⟨t', hrun, hsets⟩ := putNode_sets hnode ⟨parent, body⟩
  refine ⟨t', ?_, ?_⟩
  · rw [setBody, run_bind (getNode_eq hnode), hrun]
  · convert hsets
    rw [← hparent, Function.update_eq_self]

theorem setParentPageNum_sets (h : (t.body page).isSome) (parent : Int) :
  ∃ t', setParentPageNum page parent t = .ok () t'
    ∧ Sets t t.body (Function.update t.parent page (some parent)) t'
  := by
  obtain ⟨body, hbody⟩ := Option.isSome_iff_exists.mp h
  obtain ⟨old, hnode, _⟩ := node_of_body hbody
  obtain ⟨t', hrun, hsets⟩ := putNode_sets hnode ⟨parent, body⟩
  refine ⟨t', ?_, ?_⟩
  · rw [setParentPageNum, run_bind (getNode_eq hnode), hrun]
  · convert hsets
    rw [← hbody, Function.update_eq_self]

theorem allocatePage_sets (hheader : t.header.isSome) (body : Body K V) :
  ∃ page t', allocatePage body t = .ok page t' ∧ t.body page = none
    ∧ Sets t (Function.update t.body page (some body))
        (Function.update t.parent page (some invalidPageNum)) t'
  := by
  have hfree : t.node t.pages.next = none := by
    rw [Tree.node, PageFile.get_next]
  have hnode : ∀ p, Tree.node
      { t with pages := t.pages.allocate (.node ⟨invalidPageNum, body⟩) } p
      = if p = t.pages.next then some ⟨invalidPageNum, body⟩ else t.node p := by
    intro p
    by_cases hp : p = t.pages.next
    · simp only [Tree.node, hp, PageFile.get_allocate_next, if_true]
    · simp only [Tree.node, PageFile.get_allocate_of_ne hp, if_neg hp]
  refine ⟨t.pages.next, _, rfl, ?_, ?_⟩
  · rw [Tree.body, hfree, Option.map_none]
  constructor
  · funext p
    simp only [Tree.body, hnode, Function.update_apply]
    split <;> rfl
  · funext p
    simp only [Tree.parent, hnode, Function.update_apply]
    split <;> rfl
  · rfl
  · have hne : firstIndexPage ≠ t.pages.next := by
      intro heq
      rw [Tree.header, heq, PageFile.get_next] at hheader
      contradiction
    simp only [Tree.header, PageFile.get_allocate_of_ne hne]
  · rfl

theorem updateRootPageNum_run (hheader : t.header.isSome) (rootPage : Int) :
  ∃ t', updateRootPageNum rootPage t = .ok () t' ∧ t'.body = t.body ∧ t'.parent = t.parent
    ∧ t'.rootPage = rootPage ∧ t'.header = some rootPage ∧ t'.disposedPages = t.disposedPages
  := by
  rw [Tree.header] at hheader
  split at hheader
  · rename_i old hget
    have hnode : Tree.node { t with
        pages := t.pages.set firstIndexPage (some (.indexHeader rootPage))
        rootPage := rootPage } = t.node := by
      funext p
      by_cases hp : p = firstIndexPage
      · simp only [Tree.node, hp, PageFile.get_set_self hget, hget]
      · simp only [Tree.node, PageFile.get_set_of_ne hp]
    refine ⟨{ t with
        pages := t.pages.set firstIndexPage (some (.indexHeader rootPage))
        rootPage := rootPage }, ?_, ?_, ?_, rfl, ?_, rfl⟩
    · simp only [updateRootPageNum, hget]
    · funext p
      simp only [Tree.body, hnode]
    · funext p
      simp only [Tree.parent, hnode]
    · simp only [Tree.header, PageFile.get_set_self hget]
  · contradiction

/-- Ending the mini-transaction frees the pages that it has disposed of. -/
theorem release_run :
  ∃ t', release t = .ok () t' ∧ t'.rootPage = t.rootPage ∧ t'.disposedPages = []
    ∧ (∀ p, p ∉ t.disposedPages → t'.body p = t.body p ∧ t'.parent p = t.parent p)
    ∧ (firstIndexPage ∉ t.disposedPages → t'.header = t.header)
  := by
  have hget : ∀ p, p ∉ t.disposedPages →
      (t.disposedPages.foldl (fun pages page => pages.set page none) t.pages).get p
        = t.pages.get p := by
    intro p hp
    rw [PageFile.get_foldl_set_none, if_neg hp]
  refine ⟨_, rfl, rfl, rfl, ?_, ?_⟩
  · intro p hp
    simp only [Tree.body, Tree.parent, Tree.node, hget p hp, and_self]
  · intro hp
    simp only [Tree.header, hget _ hp]

end Pages

/-! ### Leaves -/

section Leaves

variable {page nextBrother : Int} {items : List (K × V)}

theorem getLeaf_eq (h : t.body page = some (.leaf nextBrother items)) :
  getLeaf page t = .ok (nextBrother, items) t
  := by
  obtain ⟨parent, hnode, _⟩ := node_of_body h
  rw [getLeaf, run_bind (getNode_eq hnode)]
  rfl

theorem setNextPage_sets (h : t.body page = some (.leaf nextBrother items)) (nextPage : Int) :
  ∃ t', setNextPage page nextPage t = .ok () t'
    ∧ Sets t (Function.update t.body page (some (.leaf nextPage items))) t.parent t'
  := by
  rw [setNextPage, run_bind (getLeaf_eq h)]
  apply setBody_sets (isSome_body_of_eq h)

theorem setLeafItems_sets (h : t.body page = some (.leaf nextBrother items))
    (items' : List (K × V)) :
  ∃ t', setLeafItems page items' t = .ok () t'
    ∧ Sets t (Function.update t.body page (some (.leaf nextBrother items'))) t.parent t'
  := by
  rw [setLeafItems, run_bind (getLeaf_eq h)]
  apply setBody_sets (isSome_body_of_eq h)

theorem leafInsert_sets (h : t.body page = some (.leaf nextBrother items)) (index : Nat)
    (key : K) (value : V) :
  ∃ t', leafInsert page index key value t = .ok () t'
    ∧ Sets t (Function.update t.body page
        (some (.leaf nextBrother (items.insertIdx index (key, value))))) t.parent t'
  := by
  rw [leafInsert, run_bind (getLeaf_eq h)]
  apply setLeafItems_sets h

theorem leafAppend_sets (h : t.body page = some (.leaf nextBrother items))
    (moved : List (K × V)) :
  ∃ t', leafAppend page moved t = .ok () t'
    ∧ Sets t (Function.update t.body page (some (.leaf nextBrother (items ++ moved)))) t.parent t'
  := by
  rw [leafAppend, run_bind (getLeaf_eq h)]
  apply setLeafItems_sets h

theorem leafPreappend_sets (h : t.body page = some (.leaf nextBrother items)) (moved : K × V) :
  ∃ t', leafPreappend page moved t = .ok () t'
    ∧ Sets t (Function.update t.body page (some (.leaf nextBrother (moved :: items)))) t.parent t'
  := by
  rw [leafPreappend, run_bind (getLeaf_eq h)]
  apply setLeafItems_sets h

end Leaves

/-! ### Internal nodes -/

/-- The map of parents after the nodes on `children` have got the parent `page`. -/
def adopt (parent : Int → Option Int) (page : Int) (children : List Int) (p : Int) : Option Int :=
  if p ∈ children then some page else parent p

section Internal

variable {page : Int} {items : List (K × Int)}

theorem adopt_of_mem {parent : Int → Option Int} {children : List Int} {p : Int}
    (h : p ∈ children) :
  adopt parent page children p = some page
  := if_pos h

theorem adopt_of_not_mem {parent : Int → Option Int} {children : List Int} {p : Int}
    (h : p ∉ children) :
  adopt parent page children p = parent p
  := if_neg h

theorem adopt_cons (parent : Int → Option Int) (child : Int) (children : List Int) :
  adopt parent page (child :: children)
    = adopt (Function.update parent child (some page)) page children
  := by
  funext p
  by_cases hmem : p ∈ children
  · rw [adopt_of_mem hmem, adopt_of_mem (List.mem_cons_of_mem _ hmem)]
  · rw [adopt_of_not_mem hmem, Function.update_apply]
    split
    · rename_i hp
      rw [hp, adopt_of_mem List.mem_cons_self]
    · rename_i hp
      rw [adopt_of_not_mem (List.not_mem_cons_of_ne_of_not_mem hp hmem)]

theorem getInternal_eq (h : t.body page = some (.internal items)) :
  getInternal page t = .ok items t
  := by
  obtain ⟨parent, hnode, _⟩ := node_of_body h
  rw [getInternal, run_bind (getNode_eq hnode)]
  rfl

theorem setInternalItems_sets (h : t.body page = some (.internal items))
    (items' : List (K × Int)) :
  ∃ t', setInternalItems page items' t = .ok () t'
    ∧ Sets t (Function.update t.body page (some (.internal items'))) t.parent t'
  := by
  rw [setInternalItems, run_bind (getInternal_eq h)]
  apply setBody_sets (isSome_body_of_eq h)

theorem internalInsert_sets [LinearOrder K] (h : t.body page = some (.internal items)) (key : K)
    (child : Int) :
  ∃ t', internalInsert page key child t = .ok () t'
    ∧ Sets t (Function.update t.body page
        (some (.internal (items.insertIdx (insertPosition items key) (key, child))))) t.parent t'
  := by
  rw [internalInsert, run_bind (getInternal_eq h)]
  apply setInternalItems_sets h

theorem internalRemove_sets (h : t.body page = some (.internal items)) {index : Nat}
    (hindex : index < items.length) :
  ∃ t', internalRemove page index t = .ok () t'
    ∧ Sets t (Function.update t.body page (some (.internal (items.eraseIdx index)))) t.parent t'
  := by
  rw [internalRemove, run_bind (getInternal_eq h), List.getElem?_eq_getElem hindex,
    run_bind (item_some _)]
  apply setInternalItems_sets h

theorem setKeyAt_sets (h : t.body page = some (.internal items)) {index : Nat} {slot : K × Int}
    (hindex : items[index]? = some slot) (key : K) :
  ∃ t', setKeyAt page index key t = .ok () t'
    ∧ Sets t (Function.update t.body page (some (.internal (items.set index (key, slot.2)))))
        t.parent t'
  := by
  rw [setKeyAt, run_bind (getInternal_eq h), hindex, run_bind (item_some _)]
  apply setInternalItems_sets h

theorem setParents_sets (page : Int) (hchildren : ∀ i ∈ items, (t.body i.2).isSome) :
  ∃ t', setParents page items t = .ok () t'
    ∧ Sets t t.body (adopt t.parent page (items.map Prod.snd)) t'
  := by
  induction items generalizing t with
  | nil =>
    refine ⟨t, rfl, ?_⟩
    convert Sets.refl t
    funext p
    simp [adopt]
  | cons i items ih =>
    obtain ⟨t₁, hrun₁, hsets₁⟩ := setParentPageNum_sets (hchildren i List.mem_cons_self) page
    have htail : ∀ i ∈ items, (t₁.body i.2).isSome := by
      intro i' hi'
      rw [hsets₁.body]
      apply hchildren i' (List.mem_cons_of_mem _ hi')
    obtain ⟨t₂, hrun₂, hsets₂⟩ := ih htail
    refine ⟨t₂, ?_, ?_⟩
    · rw [setParents, run_bind hrun₁, hrun₂]
    · convert hsets₁.trans hsets₂ using 1
      · rw [hsets₁.body]
      · rw [hsets₁.parent, List.map_cons, adopt_cons]

/-- New items of a node, some of them moved to it. -/
theorem insertItems_sets (h : t.body page = some (.internal items))
    (items' moved : List (K × Int)) (hmoved : ∀ i ∈ moved, (t.body i.2).isSome) :
  ∃ t', (do setInternalItems page items'; setParents page moved : Mtr K V Unit) t = .ok () t'
    ∧ Sets t (Function.update t.body page (some (.internal items')))
        (adopt t.parent page (moved.map Prod.snd)) t'
  := by
  obtain ⟨t₁, hrun₁, hsets₁⟩ := setInternalItems_sets h items'
  have hmoved₁ : ∀ i ∈ moved, (t₁.body i.2).isSome := by
    intro i hi
    rw [hsets₁.body, Function.update_apply]
    split
    · rfl
    · apply hmoved i hi
  obtain ⟨t₂, hrun₂, hsets₂⟩ := setParents_sets page hmoved₁
  refine ⟨t₂, ?_, ?_⟩
  · rw [run_bind hrun₁, hrun₂]
  · rw [hsets₁.body, hsets₁.parent] at hsets₂
    apply hsets₁.trans hsets₂

theorem internalAppend_sets (h : t.body page = some (.internal items)) {moved : List (K × Int)}
    (hmoved : ∀ i ∈ moved, (t.body i.2).isSome) :
  ∃ t', internalAppend page moved t = .ok () t'
    ∧ Sets t (Function.update t.body page (some (.internal (items ++ moved))))
        (adopt t.parent page (moved.map Prod.snd)) t'
  := by
  rw [internalAppend, run_bind (getInternal_eq h)]
  apply insertItems_sets h _ _ hmoved

theorem internalPreappend_sets (h : t.body page = some (.internal items)) {moved : K × Int}
    (hmoved : (t.body moved.2).isSome) :
  ∃ t', internalPreappend page moved t = .ok () t'
    ∧ Sets t (Function.update t.body page (some (.internal (moved :: items))))
        (adopt t.parent page [moved.2]) t'
  := by
  rw [internalPreappend, run_bind (getInternal_eq h)]
  apply insertItems_sets h (moved :: items) [moved]
  simpa using hmoved

end Internal

/-! ### Moving items between nodes -/

section Moves

variable {page other nextBrother nextOther : Int}

/-- The two steps of a move between leaves: `other` gets items, and `page` loses them. -/
theorem move_leaf {items items' others' : List (K × V)} (hne : other ≠ page)
    (h : t.body page = some (.leaf nextBrother items))
    {x : Mtr K V Unit} (hx : ∃ t', x t = .ok () t'
      ∧ Sets t (Function.update t.body other (some (.leaf nextOther others'))) t.parent t') :
  ∃ t', (do x; setLeafItems page items' : Mtr K V Unit) t = .ok () t'
    ∧ Sets t (Function.update (Function.update t.body other (some (.leaf nextOther others')))
        page (some (.leaf nextBrother items'))) t.parent t'
  := by
  obtain ⟨t₁, hrun₁, hsets₁⟩ := hx
  have h₁ : t₁.body page = some (.leaf nextBrother items) := by
    rw [hsets₁.body, Function.update_of_ne hne.symm, h]
  obtain ⟨t₂, hrun₂, hsets₂⟩ := setLeafItems_sets h₁ items'
  refine ⟨t₂, ?_, ?_⟩
  · rw [run_bind hrun₁, hrun₂]
  · rw [hsets₁.body, hsets₁.parent] at hsets₂
    apply hsets₁.trans hsets₂

/-- The two steps of a move between internal nodes. -/
theorem move_internal {items items' others' : List (K × Int)} {P : Int → Option Int}
    (hne : other ≠ page) (h : t.body page = some (.internal items))
    {x : Mtr K V Unit} (hx : ∃ t', x t = .ok () t'
      ∧ Sets t (Function.update t.body other (some (.internal others'))) P t') :
  ∃ t', (do x; setInternalItems page items' : Mtr K V Unit) t = .ok () t'
    ∧ Sets t (Function.update (Function.update t.body other (some (.internal others')))
        page (some (.internal items'))) P t'
  := by
  obtain ⟨t₁, hrun₁, hsets₁⟩ := hx
  have h₁ : t₁.body page = some (.internal items) := by
    rw [hsets₁.body, Function.update_of_ne hne.symm, h]
  obtain ⟨t₂, hrun₂, hsets₂⟩ := setInternalItems_sets h₁ items'
  refine ⟨t₂, ?_, ?_⟩
  · rw [run_bind hrun₁, hrun₂]
  · rw [hsets₁.body, hsets₁.parent] at hsets₂
    apply hsets₁.trans hsets₂

theorem moveHalfTo_leaf {items : List (K × V)} (hne : other ≠ page)
    (h : t.body page = some (.leaf nextBrother items))
    (hother : t.body other = some (.leaf nextOther [])) :
  ∃ t', moveHalfTo page other t = .ok () t'
    ∧ Sets t (Function.update (Function.update t.body other
        (some (.leaf nextOther (items.drop (items.length / 2))))) page
        (some (.leaf nextBrother (items.take (items.length / 2))))) t.parent t'
  := by
  obtain ⟨parent, hnode, _⟩ := node_of_body h
  rw [moveHalfTo, run_bind (getNode_eq hnode)]
  apply move_leaf hne h (leafAppend_sets hother _)

theorem moveHalfTo_internal {items : List (K × Int)} (hne : other ≠ page)
    (h : t.body page = some (.internal items)) (hother : t.body other = some (.internal []))
    (hchildren : ∀ i ∈ items, (t.body i.2).isSome) :
  ∃ t', moveHalfTo page other t = .ok () t'
    ∧ Sets t (Function.update (Function.update t.body other
        (some (.internal (items.drop (items.length / 2))))) page
        (some (.internal (items.take (items.length / 2)))))
        (adopt t.parent other ((items.drop (items.length / 2)).map Prod.snd)) t'
  := by
  obtain ⟨parent, hnode, _⟩ := node_of_body h
  rw [moveHalfTo, run_bind (getNode_eq hnode)]
  apply move_internal hne h (internalAppend_sets hother _)
  intro i hi
  apply hchildren i (List.mem_of_mem_drop hi)

theorem moveTo_leaf {items others : List (K × V)} (hne : other ≠ page)
    (h : t.body page = some (.leaf nextBrother items))
    (hother : t.body other = some (.leaf nextOther others)) :
  ∃ t', moveTo page other t = .ok () t'
    ∧ Sets t (Function.update (Function.update t.body other
        (some (.leaf nextBrother (others ++ items)))) page
        (some (.leaf nextBrother []))) t.parent t'
  := by
  obtain ⟨parent, hnode, _⟩ := node_of_body h
  obtain ⟨t₁, hrun₁, hsets₁⟩ := leafAppend_sets hother items
  have h₁ : t₁.body other = some (.leaf nextOther (others ++ items)) := by
    rw [hsets₁.body, Function.update_self]
  obtain ⟨t₂, hrun₂, hsets₂⟩ := setNextPage_sets h₁ nextBrother
  rw [hsets₁.body, hsets₁.parent, Function.update_idem] at hsets₂
  rw [moveTo, run_bind (getNode_eq hnode)]
  simp only
  rw [← bind_assoc]
  apply move_leaf hne h
  refine ⟨t₂, ?_, hsets₁.trans hsets₂⟩
  rw [run_bind hrun₁, hrun₂]

theorem moveTo_internal {items others : List (K × Int)} (hne : other ≠ page)
    (h : t.body page = some (.internal items)) (hother : t.body other = some (.internal others))
    (hchildren : ∀ i ∈ items, (t.body i.2).isSome) :
  ∃ t', moveTo page other t = .ok () t'
    ∧ Sets t (Function.update (Function.update t.body other
        (some (.internal (others ++ items)))) page (some (.internal [])))
        (adopt t.parent other (items.map Prod.snd)) t'
  := by
  obtain ⟨parent, hnode, _⟩ := node_of_body h
  rw [moveTo, run_bind (getNode_eq hnode)]
  apply move_internal hne h (internalAppend_sets hother hchildren)

theorem moveFirstToEnd_leaf {first : K × V} {items others : List (K × V)} (hne : other ≠ page)
    (h : t.body page = some (.leaf nextBrother (first :: items)))
    (hother : t.body other = some (.leaf nextOther others)) :
  ∃ t', moveFirstToEnd page other t = .ok () t'
    ∧ Sets t (Function.update (Function.update t.body other
        (some (.leaf nextOther (others ++ [first])))) page
        (some (.leaf nextBrother items))) t.parent t'
  := by
  obtain ⟨parent, hnode, _⟩ := node_of_body h
  rw [moveFirstToEnd, run_bind (getNode_eq hnode)]
  simp only [List.head?_cons, List.tail_cons]
  rw [run_bind (item_some _)]
  apply move_leaf hne h (leafAppend_sets hother _)

theorem moveFirstToEnd_internal {first : K × Int} {items others : List (K × Int)}
    (hne : other ≠ page) (h : t.body page = some (.internal (first :: items)))
    (hother : t.body other = some (.internal others)) (hchild : (t.body first.2).isSome) :
  ∃ t', moveFirstToEnd page other t = .ok () t'
    ∧ Sets t (Function.update (Function.update t.body other
        (some (.internal (others ++ [first])))) page (some (.internal items)))
        (adopt t.parent other [first.2]) t'
  := by
  obtain ⟨parent, hnode, _⟩ := node_of_body h
  rw [moveFirstToEnd, run_bind (getNode_eq hnode)]
  simp only [List.head?_cons, List.tail_cons]
  rw [run_bind (item_some _)]
  apply move_internal hne h (internalAppend_sets hother _)
  simpa using hchild

theorem moveLastToFront_leaf {last : K × V} {items others : List (K × V)} (hne : other ≠ page)
    (h : t.body page = some (.leaf nextBrother (items ++ [last])))
    (hother : t.body other = some (.leaf nextOther others)) :
  ∃ t', moveLastToFront page other t = .ok () t'
    ∧ Sets t (Function.update (Function.update t.body other
        (some (.leaf nextOther (last :: others)))) page
        (some (.leaf nextBrother items))) t.parent t'
  := by
  obtain ⟨parent, hnode, _⟩ := node_of_body h
  rw [moveLastToFront, run_bind (getNode_eq hnode)]
  simp only [List.getLast?_concat, List.dropLast_concat]
  rw [run_bind (item_some _)]
  apply move_leaf hne h (leafPreappend_sets hother _)

theorem moveLastToFront_internal {last : K × Int} {items others : List (K × Int)}
    (hne : other ≠ page) (h : t.body page = some (.internal (items ++ [last])))
    (hother : t.body other = some (.internal others)) (hchild : (t.body last.2).isSome) :
  ∃ t', moveLastToFront page other t = .ok () t'
    ∧ Sets t (Function.update (Function.update t.body other
        (some (.internal (last :: others)))) page (some (.internal items)))
        (adopt t.parent other [last.2]) t'
  := by
  obtain ⟨parent, hnode, _⟩ := node_of_body h
  rw [moveLastToFront, run_bind (getNode_eq hnode)]
  simp only [List.getLast?_concat, List.dropLast_concat]
  rw [run_bind (item_some _)]
  apply move_internal hne h (internalPreappend_sets hother hchild)

end Moves

/-! ### Splitting -/

section Split

variable {page nextBrother parent : Int}

/-- The first steps of `split`: a new node of the same kind beside the old one. -/
theorem split_start {body : Body K V} (h : t.body page = some body)
    (hparent : t.parent page = some parent) (hheader : t.header.isSome) :
  ∃ newPage t', split page t = (do moveHalfTo page newPage; pure newPage : Mtr K V Int) t'
    ∧ t.body newPage = none
    ∧ Sets t (Function.update t.body newPage (some body.empty))
        (Function.update t.parent newPage (some parent)) t'
  := by
  obtain ⟨parent', hnode, hparent'⟩ := node_of_body h
  rw [hparent, Option.some.injEq] at hparent'
  obtain ⟨newPage, t₁, hrun₁, hfree, hsets₁⟩ := allocatePage_sets hheader body.empty
  have hnew : (t₁.body newPage).isSome := by
    rw [hsets₁.body, Function.update_self]
    rfl
  obtain ⟨t₂, hrun₂, hsets₂⟩ := setParentPageNum_sets hnew parent
  refine ⟨newPage, t₂, ?_, hfree, ?_⟩
  · rw [split, run_bind (getNode_eq hnode), run_bind hrun₁, ← hparent', run_bind hrun₂]
  · rw [hsets₁.body, hsets₁.parent, Function.update_idem] at hsets₂
    apply hsets₁.trans hsets₂

theorem split_leaf {items : List (K × V)} (h : t.body page = some (.leaf nextBrother items))
    (hparent : t.parent page = some parent) (hheader : t.header.isSome) :
  ∃ newPage t', split page t = .ok newPage t' ∧ t.body newPage = none
    ∧ Sets t (Function.update (Function.update t.body newPage
        (some (.leaf invalidPageNum (items.drop (items.length / 2))))) page
        (some (.leaf nextBrother (items.take (items.length / 2)))))
        (Function.update t.parent newPage (some parent)) t'
  := by
  obtain ⟨newPage, t₁, hrun₁, hfree, hsets₁⟩ := split_start h hparent hheader
  have hne : newPage ≠ page := (ne_of_body_none hfree (isSome_body_of_eq h)).symm
  have h₁ : t₁.body page = some (.leaf nextBrother items) := by
    rw [hsets₁.body, Function.update_of_ne hne.symm, h]
  have hnew : t₁.body newPage = some (.leaf invalidPageNum []) := by
    rw [hsets₁.body, Function.update_self]
    rfl
  obtain ⟨t₂, hrun₂, hsets₂⟩ := moveHalfTo_leaf hne h₁ hnew
  refine ⟨newPage, t₂, ?_, hfree, ?_⟩
  · rw [hrun₁, run_bind hrun₂]
    rfl
  · rw [hsets₁.body, hsets₁.parent, Function.update_idem] at hsets₂
    apply hsets₁.trans hsets₂

theorem split_internal {items : List (K × Int)} (h : t.body page = some (.internal items))
    (hparent : t.parent page = some parent) (hheader : t.header.isSome)
    (hchildren : ∀ i ∈ items, (t.body i.2).isSome) :
  ∃ newPage t', split page t = .ok newPage t' ∧ t.body newPage = none
    ∧ Sets t (Function.update (Function.update t.body newPage
        (some (.internal (items.drop (items.length / 2))))) page
        (some (.internal (items.take (items.length / 2)))))
        (adopt (Function.update t.parent newPage (some parent)) newPage
          ((items.drop (items.length / 2)).map Prod.snd)) t'
  := by
  obtain ⟨newPage, t₁, hrun₁, hfree, hsets₁⟩ := split_start h hparent hheader
  have hne : newPage ≠ page := (ne_of_body_none hfree (isSome_body_of_eq h)).symm
  have h₁ : t₁.body page = some (.internal items) := by
    rw [hsets₁.body, Function.update_of_ne hne.symm, h]
  have hnew : t₁.body newPage = some (.internal []) := by
    rw [hsets₁.body, Function.update_self]
    rfl
  have hchildren₁ : ∀ i ∈ items, (t₁.body i.2).isSome := by
    intro i hi
    rw [hsets₁.body, Function.update_of_ne (ne_of_body_none hfree (hchildren i hi))]
    apply hchildren i hi
  obtain ⟨t₂, hrun₂, hsets₂⟩ := moveHalfTo_internal hne h₁ hnew hchildren₁
  refine ⟨newPage, t₂, ?_, hfree, ?_⟩
  · rw [hrun₁, run_bind hrun₂]
    rfl
  · rw [hsets₁.body, hsets₁.parent, Function.update_idem] at hsets₂
    apply hsets₁.trans hsets₂

end Split

end MiniOB.BplusTree
