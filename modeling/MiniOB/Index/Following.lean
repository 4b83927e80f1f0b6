import MiniOB.Index.MiniTransaction

/-!
# Following a relation along the operations

A relation between the states of a mini-transaction that holds across every change of a
single page, and across what is changed in the bookkeeping of the mini-transaction, is
followed by the insertion and the deletion of an entry, however they end.
-/

namespace MiniOB.BplusTree

open Stateful

variable {K V α : Type} {c : Format K V}
  {R : MiniTransaction K V → MiniTransaction K V → Prop} {page : Int}

/-! ### Single changes -/

/-- The changes of a node that are logged, with the operations they are logged as. -/
inductive Change (c : Format K V) : IndexNode K V → LogOperation → IndexNode K V → Prop where
  | setParentPage (node : IndexNode K V) (parent : Int) :
    Change c node (.setParentPage parent node.parent) { node with parent := parent }
  | setNextPage (parent oldBrother nextBrother : Int) (items : List (K × V)) :
    Change c ⟨parent, .leaf oldBrother items⟩ (.leafSetNextPage nextBrother oldBrother)
      ⟨parent, .leaf nextBrother items⟩
  | insertLeafItems (parent nextBrother : Int) {index : Nat} {moved items items' : List (K × V)}
      (h : recoverInsertItems index moved items = some items') :
    Change c ⟨parent, .leaf nextBrother items⟩
      (.nodeInsert index moved.length (c.leafBytes moved)) ⟨parent, .leaf nextBrother items'⟩
  | removeLeafItems (parent nextBrother : Int) {index num : Nat} {items items' : List (K × V)}
      (h : recoverRemoveItems index num items = some items') :
    Change c ⟨parent, .leaf nextBrother items⟩
      (.nodeRemove index num (c.leafBytes ((items.drop index).take num)))
      ⟨parent, .leaf nextBrother items'⟩
  | insertInternalItems (parent : Int) {index : Nat} {moved items items' : List (K × Int)}
      (h : recoverInsertItems index moved items = some items') :
    Change c ⟨parent, .internal items⟩
      (.nodeInsert index moved.length (c.internalBytes moved)) ⟨parent, .internal items'⟩
  | removeInternalItems (parent : Int) {index num : Nat} {items items' : List (K × Int)}
      (h : recoverRemoveItems index num items = some items') :
    Change c ⟨parent, .internal items⟩
      (.nodeRemove index num (c.internalBytes ((items.drop index).take num)))
      ⟨parent, .internal items'⟩
  | createNewRoot (parent firstPage secondPage : Int) (key : K) :
    Change c ⟨parent, .internal []⟩
      (.internalCreateNewRoot firstPage (c.encodeKey key) secondPage)
      ⟨parent, .internal [(c.zeroKey, firstPage), (key, secondPage)]⟩
  | updateKey (parent : Int) {index : Nat} {items : List (K × Int)} {oldKey : K} {child : Int}
      (key : K) (h : items[index]? = some (oldKey, child)) :
    Change c ⟨parent, .internal items⟩
      (.internalUpdateKey index (c.encodeKey key) (c.encodeKey oldKey))
      ⟨parent, .internal (items.set index (key, child))⟩

/-- What `init_empty` is logged as. -/
def initOperation (isLeaf : Bool) : LogOperation :=
  if isLeaf then .leafInitEmpty else .internalInitEmpty

/-- The relation `R` holds across every single change. -/
structure Steps (c : Format K V) (R : MiniTransaction K V → MiniTransaction K V → Prop) : Prop
    extends Composes R where
  request : ∀ s requests, R s { s with requests := requests }
  markDirty : ∀ s page, R s { s with dirty := page :: s.dirty }
  disposePage : ∀ s page, (s.tree.node page).isSome →
    R s { s with tree := { s.tree with disposedPages := s.tree.disposedPages ++ [page] } }
  allocate : ∀ s isLeaf, IsInt32 s.tree.pages.next →
    R s ((s.appendLogEntry s.tree.pages.next (initOperation isLeaf)).setPages
      (s.tree.pages.allocate (.node ⟨invalidPageNum, Mini.emptyBody isLeaf⟩)))
  change : ∀ s page node operation node', s.tree.node page = some node → node'.Fits c →
    Change c node operation node' →
    R s ((s.appendLogEntry page operation).setPages (s.tree.pages.set page (some (.node node'))))
  setRootPage : ∀ s oldPage rootPage,
    s.tree.pages.get firstIndexPage = some (.indexHeader oldPage) → IsInt32 rootPage →
    R s ((s.appendLogEntry firstIndexPage (.updateRootPage rootPage oldPage)).setRootPage rootPage)

/-- The relation `R` holds along every action on a single page. -/
structure Follows (c : Format K V) (R : MiniTransaction K V → MiniTransaction K V → Prop) : Prop
    extends Composes R where
  request : Along R (Mini.request : Mini K V Unit)
  markDirty : ∀ page, Along R (Mini.markDirty page : Mini K V Unit)
  disposePage : ∀ s page, (s.tree.node page).isSome →
    R s (final ((Mini.disposePage page : Mini K V Unit) s))
  allocateNode : ∀ isLeaf, Along R (Mini.allocateNode isLeaf : Mini K V Int)
  setParentPageNum : ∀ page parent, Along R (Mini.setParentPageNum c page parent)
  setNextPage : ∀ page nextBrother, Along R (Mini.setNextPage c page nextBrother)
  insertLeafItems : ∀ page index moved, Along R (Mini.insertLeafItems c page index moved)
  removeLeafItems : ∀ page index num, Along R (Mini.removeLeafItems c page index num)
  insertInternalItems : ∀ page index moved, Along R (Mini.insertInternalItems c page index moved)
  removeInternalItems : ∀ page index num, Along R (Mini.removeInternalItems c page index num)
  createNewRoot : ∀ page firstPage key secondPage,
    Along R (Mini.createNewRoot c page firstPage key secondPage)
  setKeyAt : ∀ page index key, Along R (Mini.setKeyAt c page index key)
  updateRootPageNum : ∀ rootPage, Along R (Mini.updateRootPageNum rootPage)

/-! ### Calls -/

theorem along_ignoringRc {x : Mini K V Unit} (hx : Along R x) : Along R (Mini.ignoringRc x) := by
  intro s
  have hs := hx s
  rw [Mini.ignoringRc]
  split
  · rename_i heq
    rwa [heq] at hs
  · apply hs

theorem along_followed {x : Mini K V Unit} (hx : Along R x) : Along R (Mini.followed x) := by
  intro s
  have hs := hx s
  rw [Mini.followed]
  split
  · rename_i heq
    rwa [heq] at hs
  · apply hs

theorem along_notExist {x : Mini K V α} (hx : Along R x) : Along R (Mini.notExist x) := by
  intro s
  have hs := hx s
  rw [Mini.notExist]
  split
  · rename_i heq
    rwa [heq] at hs
  · apply hs

theorem along_item (hR : Composes R) (x : Option α) : Along R (Mini.item x : Mini K V α) := by
  cases x with
  | none => apply Along.throw hR
  | some a => apply Along.pure hR

theorem along_node (hR : Composes R) : Along R (Mini.node page : Mini K V (IndexNode K V)) := by
  apply Along.of_final_eq hR
  intro s
  rw [Mini.node]
  split <;> rfl

/-- A node that is read and changed. -/
theorem along_node_bind (hR : Composes R) {f : IndexNode K V → Mini K V α}
    (hf : ∀ s node, s.tree.node page = some node → R s (final (f node s))) :
  Along R (Mini.node page >>= f)
  := by
  intro s
  have hbind : (Mini.node page >>= f) s = EStateM.bind (Mini.node page) f s := rfl
  rw [hbind, EStateM.bind, Mini.node]
  cases hnode : s.tree.node page with
  | none => apply hR.refl
  | some node => apply hf s node hnode

theorem along_leaf (hR : Composes R) :
  Along R (Mini.leaf page : Mini K V (Int × List (K × V)))
  := by
  apply Along.bind hR (along_node hR)
  rintro ⟨parent, ⟨nextBrother, items⟩ | items⟩
  · apply Along.pure hR
  · apply Along.throw hR

theorem along_internal (hR : Composes R) :
  Along R (Mini.internal page : Mini K V (List (K × Int)))
  := by
  apply Along.bind hR (along_node hR)
  rintro ⟨parent, ⟨nextBrother, items⟩ | items⟩
  · apply Along.throw hR
  · apply Along.pure hR

/-! ### Actions -/

namespace Steps

theorem along_request (hR : Steps c R) : Along R (Mini.request : Mini K V Unit) := by
  intro s
  rw [Mini.request]
  split_ifs
  · apply hR.request
  · apply hR.request

theorem change_of (hR : Steps c R) {s : MiniTransaction K V} {node node' : IndexNode K V}
    {operation : LogOperation} (hnode : s.tree.node page = some node)
    (hchange : Change c node operation node') :
  R s (final (Mini.change c page operation node' s))
  := by
  rw [Mini.change]
  split_ifs with hfits
  · apply hR.change s page node operation node' hnode hfits hchange
  · apply hR.refl

theorem within_bind (hR : Steps c R) {β : Type} {x : Option (List β)} {f : List β → Mini K V α}
    {s : MiniTransaction K V} (hf : ∀ items, x = some items → R s (final (f items s))) :
  R s (final ((Mini.within x >>= f) s))
  := by
  cases x with
  | none => apply hR.refl
  | some items => apply hf items rfl

theorem item_bind (hR : Steps c R) {β : Type} {x : Option β} {f : β → Mini K V α}
    {s : MiniTransaction K V} (hf : ∀ a, x = some a → R s (final (f a s))) :
  R s (final ((Mini.item x >>= f) s))
  := by
  cases x with
  | none => apply hR.refl
  | some a => apply hf a rfl

theorem allocateNode (hR : Steps c R) (isLeaf : Bool) :
  Along R (Mini.allocateNode isLeaf : Mini K V Int)
  := by
  apply Along.bind hR.toComposes hR.along_request
  intro _ s
  change R s (final ((if ¬ IsInt32 (s.tree.pages.next : Int) then _ else _ : Mini K V Int) s))
  by_cases hpage : IsInt32 s.tree.pages.next
  · rw [if_neg (not_not.mpr hpage)]
    apply hR.allocate s isLeaf hpage
  · rw [if_pos hpage]
    apply hR.refl

theorem updateRootPageNum (hR : Steps c R) (rootPage : Int) :
  Along R (Mini.updateRootPageNum rootPage : Mini K V Unit)
  := by
  apply Along.bind hR.toComposes
  · apply along_followed
    apply Along.bind hR.toComposes hR.along_request
    intro _
    apply Along.bind hR.toComposes (Along.get hR.toComposes)
    intro s
    apply Along.ite
    · apply Along.throw hR.toComposes
    · apply Along.pure hR.toComposes
  intro _ s
  have hget : ∀ f : MiniTransaction K V → Mini K V Unit, (get >>= f) s = f s s := fun _ => rfl
  rw [hget]
  cases hheader : s.tree.pages.get firstIndexPage with
  | none => apply hR.refl
  | some page =>
    cases page with
    | fileHeader => apply hR.refl
    | node node => apply hR.refl
    | indexHeader oldPage =>
      change R s (final ((if ¬ IsInt32 rootPage then _ else _ : Mini K V Unit) s))
      by_cases hroot : IsInt32 rootPage
      · rw [if_neg (not_not.mpr hroot)]
        apply hR.trans (hR.setRootPage s oldPage rootPage hheader hroot)
        apply hR.markDirty
      · rw [if_pos hroot]
        apply hR.refl

/-- The relation is followed. -/
theorem follows (hR : Steps c R) : Follows c R where
  toComposes := hR.toComposes
  request := hR.along_request
  markDirty page := fun s => hR.markDirty s page
  disposePage := hR.disposePage
  allocateNode := hR.allocateNode
  updateRootPageNum := hR.updateRootPageNum
  setParentPageNum page parent := by
    apply along_node_bind hR.toComposes
    intro s node hnode
    apply hR.change_of hnode (.setParentPage node parent)
  setNextPage page nextBrother := by
    apply along_node_bind hR.toComposes
    rintro s ⟨parent, ⟨oldBrother, items⟩ | items⟩ hnode
    · apply hR.change_of hnode (.setNextPage parent oldBrother nextBrother items)
    · apply hR.refl
  insertLeafItems page index moved := by
    apply along_node_bind hR.toComposes
    rintro s ⟨parent, ⟨nextBrother, items⟩ | items⟩ hnode
    · apply hR.within_bind
      intro items' hitems
      apply hR.change_of hnode (.insertLeafItems parent nextBrother hitems)
    · apply hR.refl
  removeLeafItems page index num := by
    apply along_node_bind hR.toComposes
    rintro s ⟨parent, ⟨nextBrother, items⟩ | items⟩ hnode
    · apply hR.within_bind
      intro items' hitems
      apply hR.change_of hnode (.removeLeafItems parent nextBrother hitems)
    · apply hR.refl
  insertInternalItems page index moved := by
    apply along_node_bind hR.toComposes
    rintro s ⟨parent, ⟨nextBrother, items⟩ | items⟩ hnode
    · apply hR.refl
    · apply hR.within_bind
      intro items' hitems
      apply hR.change_of hnode (.insertInternalItems parent hitems)
  removeInternalItems page index num := by
    apply along_node_bind hR.toComposes
    rintro s ⟨parent, ⟨nextBrother, items⟩ | items⟩ hnode
    · apply hR.refl
    · apply hR.within_bind
      intro items' hitems
      apply hR.change_of hnode (.removeInternalItems parent hitems)
  createNewRoot page firstPage key secondPage := by
    apply along_node_bind hR.toComposes
    rintro s ⟨parent, ⟨nextBrother, items⟩ | items⟩ hnode
    · apply hR.refl
    · cases items with
      | nil => apply hR.change_of hnode (.createNewRoot parent firstPage secondPage key)
      | cons item items => apply hR.refl
  setKeyAt page index key := by
    apply along_node_bind hR.toComposes
    rintro s ⟨parent, ⟨nextBrother, items⟩ | items⟩ hnode
    · apply hR.refl
    · apply hR.item_bind
      rintro ⟨oldKey, child⟩ hitem
      apply hR.change_of hnode (.updateKey parent key hitem)

end Steps

/-! ### Nodes that stay -/

/-- What is a node remains one. -/
def NodesStay (s s' : MiniTransaction K V) : Prop :=
  ∀ page, (s.tree.node page).isSome → (s'.tree.node page).isSome

theorem tree_appendLogEntry (s : MiniTransaction K V) (page : Int) (operation : LogOperation) :
  (s.appendLogEntry page operation).tree = s.tree
  := by
  rw [MiniTransaction.appendLogEntry]
  split <;> rfl

theorem Tree.node_eq_some {tree : Tree K V} {node : IndexNode K V} (h : tree.node page = some node) :
  tree.pages.get page = some (.node node)
  := by
  rw [Tree.node] at h
  split at h
  · rename_i heq
    cases h
    exact heq
  · cases h

/-- The pages in which a node is written keep their nodes. -/
theorem nodesStay_of_pages {s s' : MiniTransaction K V}
    (h : ∀ other node, s.tree.pages.get other = some (.node node) →
      ∃ node', s'.tree.pages.get other = some (.node node')) :
  NodesStay s s'
  := by
  intro other hsome
  obtain ⟨node, hnode⟩ := Option.isSome_iff_exists.mp hsome
  obtain ⟨node', hnode'⟩ := h other node (Tree.node_eq_some hnode)
  rw [Tree.node, hnode']
  rfl

theorem steps_nodesStay : Steps c NodesStay where
  refl _ _ hsome := hsome
  trans h h' page hsome := h' page (h page hsome)
  request _ _ _ hsome := hsome
  markDirty _ _ _ hsome := hsome
  disposePage _ _ _ _ hsome := hsome
  allocate s isLeaf _ := by
    apply nodesStay_of_pages
    intro other node hget
    have hne : other ≠ (s.tree.pages.next : Int) := by
      rintro rfl
      rw [PageFile.get_next] at hget
      cases hget
    exact ⟨node, by rw [← hget]; exact PageFile.get_allocate_of_ne hne⟩
  change s page node operation node' hnode _ _ := by
    apply nodesStay_of_pages
    intro other node'' hget
    by_cases heq : other = page
    · rw [heq]
      exact ⟨node', PageFile.get_set_self (Tree.node_eq_some hnode) _⟩
    · exact ⟨node'', by rw [← hget]; exact PageFile.get_set_of_ne heq _⟩
  setRootPage s oldPage rootPage hheader _ := by
    apply nodesStay_of_pages
    intro other node hget
    have hne : other ≠ firstIndexPage := by
      rintro rfl
      rw [hheader] at hget
      cases hget
    refine ⟨node, ?_⟩
    rw [← hget, MiniTransaction.setRootPage, tree_appendLogEntry]
    exact PageFile.get_set_of_ne hne _

/-- A computation that succeeds has read the node it reads first. -/
theorem node_of_bind {β : Type} {f : IndexNode K V → Mini K V β} {b : β}
    {s s' : MiniTransaction K V} (h : (Mini.node page >>= f) s = .ok b s') :
  (s.tree.node page).isSome
  := by
  cases hnode : s.tree.node page with
  | some node => rfl
  | none =>
    change EStateM.bind (Mini.node page) f s = _ at h
    rw [EStateM.bind, Mini.node, hnode] at h
    cases h

namespace Follows

/-! ### Nodes -/

theorem getPage (hR : Follows c R) (page : Int) : Along R (Mini.getPage page : Mini K V Unit) := by
  apply Along.bind hR.toComposes hR.request
  rintro ⟨⟩
  apply Along.bind hR.toComposes (Along.get hR.toComposes)
  intro s
  apply Along.ite
  · apply Along.throw hR.toComposes
  · apply Along.pure hR.toComposes

/-- A computation in front of one that needs a node. -/
theorem stays_bind (hR : Follows c R) {β : Type} {x : Mini K V α} {f : α → Mini K V β}
    (hx : Along R x) (hstays : Along NodesStay x) {s : MiniTransaction K V}
    (hpage : (s.tree.node page).isSome)
    (hf : ∀ a s', (s'.tree.node page).isSome → R s' (final (f a s'))) :
  R s (final ((x >>= f) s))
  := by
  apply Along.bind_of_ok hR.toComposes (hx s)
  intro a s' hrun
  exact hf a s' (hstays.ok hrun page hpage)

theorem leafInsert (hR : Follows c R) (index : Nat) (key : K) (value : V) :
  Along R (Mini.leafInsert c page index key value)
  := hR.insertLeafItems _ _ _

theorem leafRemove (hR : Follows c R) (index : Nat) : Along R (Mini.leafRemove c page index) := by
  apply Along.bind hR.toComposes (along_leaf hR.toComposes)
  rintro ⟨_, items⟩
  apply Along.bind hR.toComposes (along_item hR.toComposes _)
  intro _
  apply hR.removeLeafItems

theorem leafAppend (hR : Follows c R) (moved : List (K × V)) :
  Along R (Mini.leafAppend c page moved)
  := by
  apply Along.bind hR.toComposes (along_leaf hR.toComposes)
  rintro ⟨_, items⟩
  apply hR.insertLeafItems

theorem leafMoveHalfTo (hR : Follows c R) (other : Int) :
  Along R (Mini.leafMoveHalfTo c page other)
  := by
  apply Along.bind hR.toComposes (along_leaf hR.toComposes)
  rintro ⟨_, items⟩
  apply Along.bind hR.toComposes (hR.leafAppend _)
  intro _
  apply hR.removeLeafItems

theorem leafMoveFirstToEnd (hR : Follows c R) (other : Int) :
  Along R (Mini.leafMoveFirstToEnd c page other)
  := by
  apply Along.bind hR.toComposes (along_leaf hR.toComposes)
  rintro ⟨_, items⟩
  apply Along.bind hR.toComposes (along_item hR.toComposes _)
  intro first
  apply Along.bind hR.toComposes (hR.leafAppend _)
  intro _
  apply hR.leafRemove

theorem leafMoveLastToFront (hR : Follows c R) (other : Int) :
  Along R (Mini.leafMoveLastToFront c page other)
  := by
  apply Along.bind hR.toComposes (along_leaf hR.toComposes)
  rintro ⟨_, items⟩
  apply Along.bind hR.toComposes (along_item hR.toComposes _)
  intro last
  apply Along.bind hR.toComposes (hR.leafInsert _ _ _)
  intro _
  apply hR.leafRemove

theorem leafMoveTo (hR : Follows c R) (other : Int) : Along R (Mini.leafMoveTo c page other) := by
  apply Along.bind hR.toComposes (along_leaf hR.toComposes)
  rintro ⟨nextBrother, items⟩
  apply Along.bind hR.toComposes (hR.leafAppend _)
  intro _
  apply Along.bind hR.toComposes (hR.setNextPage _ _)
  intro _
  apply hR.removeLeafItems

theorem setParents (hR : Follows c R) (parent : Int) (items : List (K × Int)) :
  Along R (Mini.setParents c parent items)
  := by
  induction items with
  | nil => apply Along.pure hR.toComposes
  | cons item items ih =>
    apply Along.bind hR.toComposes (hR.getPage _)
    intro _
    apply Along.bind hR.toComposes (hR.setParentPageNum _ _)
    intro _
    apply Along.bind hR.toComposes (hR.markDirty _)
    intro _
    apply ih

theorem insertItems (hR : Follows c R) (index : Nat) (moved : List (K × Int)) :
  Along R (Mini.insertItems c page index moved)
  := by
  apply Along.bind hR.toComposes (hR.insertInternalItems _ _ _)
  intro _
  apply hR.setParents

theorem internalRemove (hR : Follows c R) (index : Nat) :
  Along R (Mini.internalRemove c page index)
  := by
  apply Along.bind hR.toComposes (along_internal hR.toComposes)
  intro items
  apply Along.bind hR.toComposes (along_item hR.toComposes _)
  intro _
  apply hR.removeInternalItems

theorem internalAppend (hR : Follows c R) (moved : List (K × Int)) :
  Along R (Mini.internalAppend c page moved)
  := by
  apply Along.bind hR.toComposes (along_internal hR.toComposes)
  intro items
  apply hR.insertItems

theorem internalMoveHalfTo (hR : Follows c R) (other : Int) :
  Along R (Mini.internalMoveHalfTo c page other)
  := by
  apply Along.bind hR.toComposes (along_internal hR.toComposes)
  intro items
  apply Along.bind hR.toComposes (hR.internalAppend _)
  intro _
  apply hR.removeInternalItems

theorem internalMoveTo (hR : Follows c R) (other : Int) :
  Along R (Mini.internalMoveTo c page other)
  := by
  apply Along.bind hR.toComposes (along_internal hR.toComposes)
  intro items
  apply Along.bind hR.toComposes (hR.internalAppend _)
  intro _
  apply hR.removeInternalItems

theorem internalMoveFirstToEnd (hR : Follows c R) (other : Int) :
  Along R (Mini.internalMoveFirstToEnd c page other)
  := by
  apply Along.bind hR.toComposes (along_internal hR.toComposes)
  intro items
  apply Along.bind hR.toComposes (along_item hR.toComposes _)
  intro first
  apply Along.bind hR.toComposes (hR.internalAppend _)
  intro _
  apply hR.internalRemove

theorem internalMoveLastToFront (hR : Follows c R) (other : Int) :
  Along R (Mini.internalMoveLastToFront c page other)
  := by
  apply Along.bind hR.toComposes (along_internal hR.toComposes)
  intro items
  apply Along.bind hR.toComposes (along_item hR.toComposes _)
  intro last
  apply Along.bind hR.toComposes (hR.insertItems _ _)
  intro _
  apply hR.removeInternalItems

theorem moveHalfTo (hR : Follows c R) (isLeaf : Bool) (other : Int) :
  Along R (Mini.moveHalfTo c isLeaf page other)
  := Along.ite (hR.leafMoveHalfTo other) (hR.internalMoveHalfTo other)

theorem moveTo (hR : Follows c R) (isLeaf : Bool) (other : Int) :
  Along R (Mini.moveTo c isLeaf page other)
  := Along.ite (hR.leafMoveTo other) (hR.internalMoveTo other)

theorem moveFirstToEnd (hR : Follows c R) (isLeaf : Bool) (other : Int) :
  Along R (Mini.moveFirstToEnd c isLeaf page other)
  := Along.ite (hR.leafMoveFirstToEnd other) (hR.internalMoveFirstToEnd other)

theorem moveLastToFront (hR : Follows c R) (isLeaf : Bool) (other : Int) :
  Along R (Mini.moveLastToFront c isLeaf page other)
  := Along.ite (hR.leafMoveLastToFront other) (hR.internalMoveLastToFront other)

theorem descend (hR : Follows c R) (childPageGetter : List (K × Int) → Option Int) (fuel : Nat) :
  Along R (Mini.descend childPageGetter fuel page : Mini K V Int)
  := by
  induction fuel generalizing page with
  | zero => apply Along.throw hR.toComposes
  | succ fuel ih =>
    apply Along.bind hR.toComposes (along_node hR.toComposes)
    rintro ⟨parent, ⟨nextBrother, items⟩ | items⟩
    · apply Along.pure hR.toComposes
    · apply Along.bind hR.toComposes (along_item hR.toComposes _)
      intro child
      apply Along.bind hR.toComposes (hR.getPage _)
      intro _
      apply ih

variable [LinearOrder K]

theorem internalInsert (hR : Follows c R) (key : K) (child : Int) :
  Along R (Mini.internalInsert c page key child)
  := by
  apply Along.bind hR.toComposes (along_internal hR.toComposes)
  intro items
  apply hR.insertInternalItems

theorem findLeaf (hR : Follows c R) (key : K) : Along R (Mini.findLeaf key : Mini K V Int) := by
  apply Along.bind hR.toComposes (Along.get hR.toComposes)
  intro s
  apply Along.ite
  · apply Along.throw hR.toComposes
  · apply Along.bind hR.toComposes (hR.getPage _)
    intro _
    apply hR.descend

/-! ### Insertion -/

omit [LinearOrder K] in
theorem split (hR : Follows c R) (isLeaf : Bool) : Along R (Mini.split c isLeaf page) := by
  apply Along.bind hR.toComposes (hR.allocateNode _)
  intro newPage
  apply Along.bind hR.toComposes (along_node hR.toComposes)
  intro node
  apply Along.bind hR.toComposes (hR.setParentPageNum _ _)
  intro _
  apply Along.bind hR.toComposes (along_ignoringRc (hR.moveHalfTo _ _))
  intro _
  apply Along.bind hR.toComposes (hR.markDirty _)
  intro _
  apply Along.bind hR.toComposes (hR.markDirty _)
  intro _
  apply Along.pure hR.toComposes

theorem insertEntryIntoParent (hR : Follows c R) (fuel : Nat) (newPage : Int) (key : K) :
  Along R (Mini.insertEntryIntoParent c fuel page newPage key)
  := by
  induction fuel generalizing page newPage key with
  | zero => apply Along.throw hR.toComposes
  | succ fuel ih =>
    apply Along.bind hR.toComposes (along_node hR.toComposes)
    intro node
    apply Along.ite
    · apply Along.bind hR.toComposes (hR.allocateNode _)
      intro root
      apply Along.bind hR.toComposes (hR.createNewRoot _ _ _ _)
      intro _
      apply Along.bind hR.toComposes (hR.setParentPageNum _ _)
      intro _
      apply Along.bind hR.toComposes (hR.setParentPageNum _ _)
      intro _
      apply Along.bind hR.toComposes (hR.markDirty _)
      intro _
      apply Along.bind hR.toComposes (hR.markDirty _)
      intro _
      apply Along.bind hR.toComposes (hR.updateRootPageNum _)
      intro _
      apply hR.markDirty
    · apply Along.bind hR.toComposes (hR.getPage _)
      intro _
      apply Along.bind hR.toComposes (along_internal hR.toComposes)
      intro items
      apply Along.ite
      · apply Along.bind hR.toComposes (hR.internalInsert _ _)
        intro _
        apply Along.bind hR.toComposes (hR.setParentPageNum _ _)
        intro _
        apply Along.bind hR.toComposes (hR.markDirty _)
        intro _
        apply Along.bind hR.toComposes (hR.markDirty _)
        intro _
        apply hR.markDirty
      · apply Along.bind hR.toComposes (hR.split _)
        intro newParentPage
        apply Along.bind hR.toComposes (along_node hR.toComposes)
        intro newParent
        apply Along.bind hR.toComposes (along_item hR.toComposes _)
        intro firstKey
        -- the code joins again after the choice of the node that takes the entry
        have hrest : Along R (do
            let firstKey ← Mini.item ((← Mini.node newParentPage).body.keyAt 0)
            Mini.insertEntryIntoParent c fuel node.parent newParentPage firstKey) := by
          apply Along.bind hR.toComposes (along_node hR.toComposes)
          intro newParent
          apply Along.bind hR.toComposes (along_item hR.toComposes _)
          intro firstKey
          apply ih
        apply Along.ite
        · apply Along.bind hR.toComposes (hR.internalInsert _ _)
          intro _
          apply Along.bind hR.toComposes (hR.setParentPageNum _ _)
          intro _
          apply hrest
        · apply Along.bind hR.toComposes (hR.internalInsert _ _)
          intro _
          apply Along.bind hR.toComposes (hR.setParentPageNum _ _)
          intro _
          apply hrest

/-- What is done to a leaf that has been split. -/
theorem afterSplit (hR : Follows c R) (newPage : Int) (position : Nat) (key : K) (value : V) :
  Along R (do
    let (nextBrother, left) ← Mini.leaf page
    Mini.setNextPage c newPage nextBrother
    Mini.setParentPageNum c newPage (← Mini.node page).parent
    Mini.setNextPage c page newPage
    if position < left.length then Mini.leafInsert c page position key value
    else Mini.leafInsert c newPage (position - left.length) key value
    let firstKey ← Mini.item ((← Mini.node newPage).body.keyAt 0)
    Mini.insertEntryIntoParent c (← get).tree.pages.length page newPage firstKey)
  := by
  apply Along.bind hR.toComposes (along_leaf hR.toComposes)
  rintro ⟨nextBrother, left⟩
  apply Along.bind hR.toComposes (hR.setNextPage _ _)
  intro _
  apply Along.bind hR.toComposes (along_node hR.toComposes)
  intro node
  apply Along.bind hR.toComposes (hR.setParentPageNum _ _)
  intro _
  apply Along.bind hR.toComposes (hR.setNextPage _ _)
  intro _
  have hrest : Along R (do
      let firstKey ← Mini.item ((← Mini.node newPage).body.keyAt 0)
      Mini.insertEntryIntoParent c (← get).tree.pages.length page newPage firstKey) := by
    apply Along.bind hR.toComposes (along_node hR.toComposes)
    intro node
    apply Along.bind hR.toComposes (along_item hR.toComposes _)
    intro firstKey
    apply Along.bind hR.toComposes (Along.get hR.toComposes)
    intro s
    apply hR.insertEntryIntoParent
  apply Along.ite
  · apply Along.bind hR.toComposes (hR.leafInsert _ _ _)
    intro _
    apply hrest
  · apply Along.bind hR.toComposes (hR.leafInsert _ _ _)
    intro _
    apply hrest

theorem insertEntryIntoLeafNode (hR : Follows c R) (key : K) (value : V) :
  Along R (Mini.insertEntryIntoLeafNode c page key value)
  := by
  apply Along.bind hR.toComposes (along_leaf hR.toComposes)
  rintro ⟨_, items⟩
  apply Along.ite
  · apply Along.throw hR.toComposes
  · apply Along.ite
    · apply Along.bind hR.toComposes (hR.leafInsert _ _ _)
      intro _
      apply hR.markDirty
    · apply Along.bind hR.toComposes (hR.split _)
      intro newPage
      apply hR.afterSplit

omit [LinearOrder K] in
theorem createNewTree (hR : Follows c R) (key : K) (value : V) :
  Along R (Mini.createNewTree c key value)
  := by
  apply Along.bind hR.toComposes (Along.get hR.toComposes)
  intro s
  apply Along.ite
  · apply Along.throw hR.toComposes
  · apply Along.bind hR.toComposes (hR.allocateNode _)
    intro page
    apply Along.bind hR.toComposes (hR.leafInsert _ _ _)
    intro _
    apply Along.bind hR.toComposes (hR.updateRootPageNum _)
    intro _
    apply hR.markDirty

theorem insertEntry (hR : Follows c R) (key : K) (value : V) :
  Along R (Mini.insertEntry c key value)
  := by
  apply Along.bind hR.toComposes (Along.get hR.toComposes)
  intro s
  apply Along.ite
  · apply hR.createNewTree
  · apply Along.bind hR.toComposes (hR.findLeaf _)
    intro page
    apply hR.insertEntryIntoLeafNode

/-! ### Deletion -/

omit [LinearOrder K] in
theorem adjustRoot (hR : Follows c R) : Along R (Mini.adjustRoot c page) := by
  have hstay := Steps.follows (c := c) steps_nodesStay
  apply along_node_bind hR.toComposes
  rintro s ⟨parent, ⟨nextBrother, items⟩ | items⟩ hnode
  · have hpage : (s.tree.node page).isSome := by rw [hnode]; rfl
    cases items with
    | nil =>
      apply hR.stays_bind (hR.updateRootPageNum _) (hstay.updateRootPageNum _) hpage
      intro _ s' hpage'
      apply hR.disposePage s' page hpage'
    | cons item items => apply hR.markDirty
  · have hpage : (s.tree.node page).isSome := by rw [hnode]; rfl
    apply hR.stays_bind (along_item hR.toComposes _) (along_item hstay.toComposes _) hpage
    rintro ⟨_, child⟩ s₁ hpage
    apply hR.stays_bind (hR.getPage _) (hstay.getPage _) hpage
    intro _ s₂ hpage
    apply hR.stays_bind (hR.setParentPageNum _ _) (hstay.setParentPageNum _ _) hpage
    intro _ s₃ hpage
    apply hR.stays_bind (hR.updateRootPageNum _) (hstay.updateRootPageNum _) hpage
    intro _ s₄ hpage
    apply hR.disposePage s₄ page hpage

omit [LinearOrder K] in
theorem redistribute (hR : Follows c R) (isLeaf : Bool) (neighborPage parentPage : Int)
    (index : Nat) :
  Along R (Mini.redistribute c isLeaf neighborPage page parentPage index)
  := by
  have hmarks : Along R (do
      Mini.markDirty neighborPage; Mini.markDirty page; Mini.markDirty parentPage :
      Mini K V Unit) := by
    apply Along.bind hR.toComposes (hR.markDirty _)
    intro _
    apply Along.bind hR.toComposes (hR.markDirty _)
    intro _
    apply hR.markDirty
  apply Along.ite
  · apply Along.bind hR.toComposes (along_ignoringRc (hR.moveFirstToEnd _ _))
    intro _
    apply Along.bind hR.toComposes (along_node hR.toComposes)
    intro node
    apply Along.bind hR.toComposes (along_item hR.toComposes _)
    intro firstKey
    apply Along.bind hR.toComposes (hR.setKeyAt _ _ _)
    intro _
    apply hmarks
  · apply Along.bind hR.toComposes (along_ignoringRc (hR.moveLastToFront _ _))
    intro _
    apply Along.bind hR.toComposes (along_node hR.toComposes)
    intro node
    apply Along.bind hR.toComposes (along_item hR.toComposes _)
    intro firstKey
    apply Along.bind hR.toComposes (hR.setKeyAt _ _ _)
    intro _
    apply hmarks

omit [LinearOrder K] in
/-- The node whose items are moved is there. -/
theorem node_of_moveTo {isLeaf : Bool} {other : Int} {u : Unit} {s s' : MiniTransaction K V}
    (h : Mini.moveTo c isLeaf page other s = .ok u s') :
  (s.tree.node page).isSome
  := by
  cases isLeaf with
  | true =>
    change (Mini.leafMoveTo c page other) s = _ at h
    rw [Mini.leafMoveTo, Mini.leaf, bind_assoc] at h
    exact node_of_bind h
  | false =>
    change (Mini.internalMoveTo c page other) s = _ at h
    rw [Mini.internalMoveTo, Mini.internal, bind_assoc] at h
    exact node_of_bind h

omit [LinearOrder K] in
theorem coalesce (hR : Follows c R) (isLeaf : Bool) {checkParent : Int → Mini K V Unit}
    (hcheck : ∀ page, Along R (checkParent page)) (neighborPage parentPage : Int) (index : Nat) :
  Along R (Mini.coalesce c isLeaf checkParent neighborPage page parentPage index)
  := by
  have hstay := Steps.follows (c := c) steps_nodesStay
  rw [Mini.coalesce]
  generalize (if index = 0 then (page, neighborPage, 1) else (neighborPage, page, index)) = sides
  obtain ⟨left, right, index⟩ := sides
  apply Along.bind hR.toComposes (hR.internalRemove _)
  intro _ s
  apply Along.bind_of_ok hR.toComposes (hR.moveTo _ _ s)
  intro _ s₁ hmove
  have hright := (hstay.moveTo isLeaf left).ok hmove right (node_of_moveTo hmove)
  have hrest : ∀ s : MiniTransaction K V, (s.tree.node right).isSome →
      R s (final ((do Mini.disposePage right; checkParent parentPage : Mini K V Unit) s)) := by
    intro s hright
    apply Along.bind_of_ok hR.toComposes (hR.disposePage s right hright)
    intro _ s' _
    apply hcheck
  apply hR.stays_bind (along_node hR.toComposes) (along_node hstay.toComposes) hright
  intro node s₂ hright
  cases node.body.isLeaf with
  | true =>
    apply hR.stays_bind (along_leaf hR.toComposes) (along_leaf hstay.toComposes) hright
    rintro ⟨nextBrother, _⟩ s₃ hright
    apply hR.stays_bind (hR.setNextPage _ _) (hstay.setNextPage _ _) hright
    intro _ s₄ hright
    apply hrest s₄ hright
  | false => apply hrest s₂ hright

theorem coalesceOrRedistribute (hR : Follows c R) (fuel : Nat) (isLeaf : Bool) :
  Along R (Mini.coalesceOrRedistribute c fuel isLeaf page)
  := by
  induction fuel generalizing isLeaf page with
  | zero => apply Along.throw hR.toComposes
  | succ fuel ih =>
    apply Along.bind hR.toComposes (along_node hR.toComposes)
    intro this
    apply Along.ite
    · apply Along.pure hR.toComposes
    apply Along.ite
    · apply Along.ite
      · apply Along.pure hR.toComposes
      · apply along_ignoringRc hR.adjustRoot
    apply Along.bind hR.toComposes (hR.getPage _)
    intro _
    apply Along.bind hR.toComposes (along_internal hR.toComposes)
    intro items
    apply Along.bind hR.toComposes (along_item hR.toComposes _)
    intro lastKey
    apply Along.bind hR.toComposes (along_item hR.toComposes _)
    rintro ⟨_, found⟩
    apply Along.ite
    · apply Along.throw hR.toComposes
    apply Along.bind hR.toComposes (along_item hR.toComposes _)
    rintro ⟨_, neighborPage⟩
    apply Along.bind hR.toComposes (hR.getPage _)
    intro _
    apply Along.bind hR.toComposes (along_node hR.toComposes)
    intro neighbor
    apply Along.ite
    · apply hR.redistribute
    · apply hR.coalesce
      intro page
      apply ih

theorem deleteEntryInternal (hR : Follows c R) (key : K) :
  Along R (Mini.deleteEntryInternal c page key)
  := by
  apply Along.bind hR.toComposes (along_leaf hR.toComposes)
  rintro ⟨_, items⟩
  apply Along.ite
  · apply Along.bind hR.toComposes (hR.leafRemove _)
    intro _
    apply Along.bind hR.toComposes (hR.markDirty _)
    intro _
    apply Along.bind hR.toComposes (along_node hR.toComposes)
    intro this
    apply Along.ite
    · apply Along.pure hR.toComposes
    · apply Along.bind hR.toComposes (Along.get hR.toComposes)
      intro s
      apply hR.coalesceOrRedistribute
  · apply Along.throw hR.toComposes

theorem deleteEntry (hR : Follows c R) (key : K) : Along R (Mini.deleteEntry c key) := by
  apply Along.bind hR.toComposes (along_notExist (hR.findLeaf _))
  intro page
  apply hR.deleteEntryInternal

theorem operation (hR : Follows c R) (operation : Operation K V) :
  Along R (operation.body c)
  := by
  cases operation with
  | insertEntry key value => apply hR.insertEntry
  | deleteEntry key => apply hR.deleteEntry

end Follows

end MiniOB.BplusTree
