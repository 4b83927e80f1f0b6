import MiniOB.Index.Fitting

/-!
# Dirty marks

`Frame::mark_dirty` is called by hand, apart from the changes of the pages. An insertion that
succeeds has marked every page that it has changed, and so has a deletion that disposes of no page:
`coalesce` and `adjust_root` do not mark all of the nodes that they leave. What has been marked is
not lost when its frame is evicted.
-/

namespace MiniOB.BplusTree

open Stateful

variable {K V α β : Type} {c : Format K V} {s s' s'' : MiniTransaction K V} {page other : Int}
  {owed owed' : Set Int}

/-- What is changed has been marked dirty, or is among the pages whose mark is owed. -/
structure Marks (owed : Set Int) (s s' : MiniTransaction K V) : Prop where
  dirty : ∀ page ∈ s.dirty, page ∈ s'.dirty
  changed : ∀ page, s'.tree.pages.get page ≠ s.tree.pages.get page → page ∈ s'.dirty ∨ page ∈ owed
  disposed : s'.tree.disposedPages = s.tree.disposedPages

namespace Marks

theorem of_eq (htree : s'.tree = s.tree) (hdirty : s'.dirty = s.dirty) :
  Marks owed s s'
  := by
  refine ⟨?_, ?_, ?_⟩
  · rw [hdirty]
    exact fun _ hmem => hmem
  · intro page hne
    rw [htree] at hne
    exact absurd rfl hne
  · rw [htree]

theorem refl (s : MiniTransaction K V) : Marks owed s s := of_eq rfl rfl

theorem trans (h : Marks owed s s') (h' : Marks owed s' s'') : Marks owed s s'' where
  dirty page hmem := h'.dirty page (h.dirty page hmem)
  changed page hne := by
    by_cases hlater : s''.tree.pages.get page = s'.tree.pages.get page
    · rw [hlater] at hne
      exact (h.changed page hne).imp_left (h'.dirty page)
    · exact h'.changed page hlater
  disposed := h'.disposed.trans h.disposed

/-- A mark that is owed is made up for by one that is there. -/
theorem settle (h : Marks owed s s') (howed : ∀ page ∈ owed, page ∈ s'.dirty ∨ page ∈ owed') :
  Marks owed' s s'
  where
  dirty := h.dirty
  changed page hne := by
    obtain hdirty | hmem := h.changed page hne
    · exact .inl hdirty
    · exact howed page hmem
  disposed := h.disposed

theorem mono (h : Marks owed s s') (hsub : owed ⊆ owed') : Marks owed' s s' :=
  h.settle fun _ hmem => .inr (hsub hmem)

theorem composes : Composes (Marks owed : MiniTransaction K V → MiniTransaction K V → Prop) where
  refl := refl
  trans := trans

end Marks

theorem Along.marks_mono {x : Mini K V α} (hx : Along (Marks owed) x) (hsub : owed ⊆ owed') :
  Along (Marks owed') x
  := fun s => (hx s).mono hsub

/-! ### Changes of one page -/

theorem along_within (hR : Composes (Marks owed : MiniTransaction K V → _ → Prop))
    (x : Option (List β)) :
  Along (Marks owed) (Mini.within x : Mini K V (List β))
  := by
  cases x with
  | none => apply Along.throw hR
  | some items => apply Along.pure hR

/-- An entry for the log does not touch the marks. -/
theorem dirty_appendLogEntry (s : MiniTransaction K V) (page : Int) (operation : LogOperation) :
  (s.appendLogEntry page operation).dirty = s.dirty
  := by
  rw [MiniTransaction.appendLogEntry]
  split_ifs <;> rfl

/-- A change owes the mark of its page. -/
theorem marks_change (page : Int) (operation : LogOperation) (node : IndexNode K V) :
  Along (Marks {page}) (Mini.change c page operation node)
  := by
  intro s
  rw [Mini.change]
  split_ifs
  · refine ⟨?_, ?_, ?_⟩
    · intro other hmem
      change other ∈ (s.appendLogEntry page operation).dirty
      rw [dirty_appendLogEntry]
      exact hmem
    · intro other hne
      right
      by_contra hother
      exact hne (PageFile.get_set_of_ne hother _)
    · change (s.appendLogEntry page operation).tree.disposedPages = _
      rw [tree_appendLogEntry]
  · exact Marks.refl s

theorem marks_request : Along (Marks owed) (Mini.request : Mini K V Unit) := by
  intro s
  rw [Mini.request]
  split_ifs <;> exact Marks.of_eq rfl rfl

theorem marks_getPage (page : Int) : Along (Marks owed) (Mini.getPage page : Mini K V Unit) := by
  apply Along.bind Marks.composes marks_request
  intro _
  apply Along.bind Marks.composes (Along.get Marks.composes)
  intro s
  apply Along.ite
  · apply Along.throw Marks.composes
  · apply Along.pure Marks.composes

theorem marks_markDirty (page : Int) : Along (Marks owed) (Mini.markDirty page : Mini K V Unit) :=
  fun _ => ⟨fun _ hmem => List.mem_cons_of_mem _ hmem, fun _ hne => absurd rfl hne, rfl⟩

theorem marks_setParentPageNum (page parent : Int) :
  Along (Marks {page}) (Mini.setParentPageNum c page parent)
  := by
  apply Along.bind Marks.composes (along_node Marks.composes)
  intro node
  apply marks_change

theorem marks_setNextPage (page nextBrother : Int) :
  Along (Marks {page}) (Mini.setNextPage c page nextBrother)
  := by
  apply Along.bind Marks.composes (along_node Marks.composes)
  rintro ⟨parent, ⟨oldBrother, items⟩ | items⟩
  · apply marks_change
  · apply Along.throw Marks.composes

theorem marks_insertLeafItems (page : Int) (index : Nat) (moved : List (K × V)) :
  Along (Marks {page}) (Mini.insertLeafItems c page index moved)
  := by
  apply Along.bind Marks.composes (along_node Marks.composes)
  rintro ⟨parent, ⟨nextBrother, items⟩ | items⟩
  · apply Along.bind Marks.composes (along_within Marks.composes _)
    intro items'
    apply marks_change
  · apply Along.throw Marks.composes

theorem marks_removeLeafItems (page : Int) (index num : Nat) :
  Along (Marks {page}) (Mini.removeLeafItems c page index num)
  := by
  apply Along.bind Marks.composes (along_node Marks.composes)
  rintro ⟨parent, ⟨nextBrother, items⟩ | items⟩
  · apply Along.bind Marks.composes (along_within Marks.composes _)
    intro items'
    apply marks_change
  · apply Along.throw Marks.composes

theorem marks_insertInternalItems (page : Int) (index : Nat) (moved : List (K × Int)) :
  Along (Marks {page}) (Mini.insertInternalItems c page index moved)
  := by
  apply Along.bind Marks.composes (along_node Marks.composes)
  rintro ⟨parent, ⟨nextBrother, items⟩ | items⟩
  · apply Along.throw Marks.composes
  · apply Along.bind Marks.composes (along_within Marks.composes _)
    intro items'
    apply marks_change

theorem marks_removeInternalItems (page : Int) (index num : Nat) :
  Along (Marks {page}) (Mini.removeInternalItems c page index num)
  := by
  apply Along.bind Marks.composes (along_node Marks.composes)
  rintro ⟨parent, ⟨nextBrother, items⟩ | items⟩
  · apply Along.throw Marks.composes
  · apply Along.bind Marks.composes (along_within Marks.composes _)
    intro items'
    apply marks_change

theorem marks_createNewRoot (page firstPage : Int) (key : K) (secondPage : Int) :
  Along (Marks {page}) (Mini.createNewRoot c page firstPage key secondPage)
  := by
  apply Along.bind Marks.composes (along_node Marks.composes)
  rintro ⟨parent, ⟨nextBrother, items⟩ | _ | ⟨item, items⟩⟩
  · apply Along.throw Marks.composes
  · apply marks_change
  · apply Along.throw Marks.composes

/-! ### Moving items -/

/-- Where the parent of a node cannot be set, nothing is changed. -/
theorem setParentPageNum_error {parent : Int} {e : Stop}
    (h : Mini.setParentPageNum c page parent s = .error e s') :
  s' = s
  := by
  change EStateM.bind (Mini.node page) _ s = _ at h
  rw [EStateM.bind, Mini.node] at h
  cases hnode : s.tree.node page with
  | none =>
    rw [hnode] at h
    cases h
    rfl
  | some node =>
    rw [hnode] at h
    dsimp only at h
    rw [Mini.change] at h
    split_ifs at h
    cases h
    rfl

/-- The children are marked one by one. -/
theorem marks_setParents (parent : Int) (items : List (K × Int)) :
  Along (Marks owed) (Mini.setParents c parent items)
  := by
  induction items with
  | nil => apply Along.pure Marks.composes
  | cons item items ih =>
    apply Along.bind Marks.composes (marks_getPage _)
    intro _ s
    have hset := marks_setParentPageNum (c := c) item.2 parent s
    change Marks owed s (final (EStateM.bind (Mini.setParentPageNum c item.2 parent) _ s))
    rw [EStateM.bind]
    cases hrun : Mini.setParentPageNum c item.2 parent s with
    | error e s' =>
      rw [setParentPageNum_error hrun]
      exact Marks.refl s
    | ok u s' =>
      rw [hrun] at hset
      have hmark : Marks owed s { s' with dirty := item.2 :: s'.dirty } := by
        have hboth : Marks {item.2} s { s' with dirty := item.2 :: s'.dirty } :=
          Marks.trans hset (marks_markDirty item.2 s')
        apply hboth.settle
        intro page hmem
        left
        rw [Set.mem_singleton_iff.mp hmem]
        exact List.mem_cons_self
      exact hmark.trans (ih _)

theorem marks_insertItems (page : Int) (index : Nat) (moved : List (K × Int)) :
  Along (Marks {page}) (Mini.insertItems c page index moved)
  := by
  apply Along.bind Marks.composes (marks_insertInternalItems page index moved)
  intro _
  apply marks_setParents

theorem marks_leafMoveHalfTo (page other : Int) :
  Along (Marks {page, other}) (Mini.leafMoveHalfTo c page other)
  := by
  apply Along.bind Marks.composes (along_leaf Marks.composes)
  rintro ⟨nextBrother, items⟩
  apply Along.bind Marks.composes
  · apply Along.bind Marks.composes (along_leaf Marks.composes)
    rintro ⟨nextBrother', items'⟩
    exact Along.marks_mono (marks_insertLeafItems other _ _) (by simp)
  · intro _
    exact Along.marks_mono (marks_removeLeafItems page _ _) (by simp)

theorem marks_internalMoveHalfTo (page other : Int) :
  Along (Marks {page, other}) (Mini.internalMoveHalfTo c page other)
  := by
  apply Along.bind Marks.composes (along_internal Marks.composes)
  intro items
  apply Along.bind Marks.composes
  · apply Along.bind Marks.composes (along_internal Marks.composes)
    intro items'
    exact Along.marks_mono (marks_insertItems other _ _) (by simp)
  · intro _
    exact Along.marks_mono (marks_removeInternalItems page _ _) (by simp)

theorem marks_moveHalfTo (isLeaf : Bool) (page other : Int) :
  Along (Marks {page, other}) (Mini.moveHalfTo c isLeaf page other)
  := by
  cases isLeaf with
  | true => exact marks_leafMoveHalfTo page other
  | false => exact marks_internalMoveHalfTo page other

theorem marks_leafRemove (page : Int) (index : Nat) :
  Along (Marks {page}) (Mini.leafRemove c page index)
  := by
  apply Along.bind Marks.composes (along_leaf Marks.composes)
  rintro ⟨nextBrother, items⟩
  apply Along.bind Marks.composes (along_item Marks.composes _)
  intro _
  apply marks_removeLeafItems

theorem marks_internalRemove (page : Int) (index : Nat) :
  Along (Marks {page}) (Mini.internalRemove c page index)
  := by
  apply Along.bind Marks.composes (along_internal Marks.composes)
  intro items
  apply Along.bind Marks.composes (along_item Marks.composes _)
  intro _
  apply marks_removeInternalItems

theorem marks_moveFirstToEnd (isLeaf : Bool) (page other : Int) :
  Along (Marks {page, other}) (Mini.moveFirstToEnd c isLeaf page other)
  := by
  cases isLeaf with
  | true =>
    apply Along.bind Marks.composes (along_leaf Marks.composes)
    rintro ⟨nextBrother, items⟩
    apply Along.bind Marks.composes (along_item Marks.composes _)
    intro first
    apply Along.bind Marks.composes
    · apply Along.bind Marks.composes (along_leaf Marks.composes)
      rintro ⟨nextBrother', items'⟩
      exact Along.marks_mono (marks_insertLeafItems other _ _) (by simp)
    · intro _
      exact Along.marks_mono (marks_leafRemove page _) (by simp)
  | false =>
    apply Along.bind Marks.composes (along_internal Marks.composes)
    intro items
    apply Along.bind Marks.composes (along_item Marks.composes _)
    intro first
    apply Along.bind Marks.composes
    · apply Along.bind Marks.composes (along_internal Marks.composes)
      intro items'
      exact Along.marks_mono (marks_insertItems other _ _) (by simp)
    · intro _
      exact Along.marks_mono (marks_internalRemove page _) (by simp)

theorem marks_moveLastToFront (isLeaf : Bool) (page other : Int) :
  Along (Marks {page, other}) (Mini.moveLastToFront c isLeaf page other)
  := by
  cases isLeaf with
  | true =>
    apply Along.bind Marks.composes (along_leaf Marks.composes)
    rintro ⟨nextBrother, items⟩
    apply Along.bind Marks.composes (along_item Marks.composes _)
    intro last
    apply Along.bind Marks.composes
    · exact Along.marks_mono (marks_insertLeafItems other _ _) (by simp)
    · intro _
      exact Along.marks_mono (marks_leafRemove page _) (by simp)
  | false =>
    apply Along.bind Marks.composes (along_internal Marks.composes)
    intro items
    apply Along.bind Marks.composes (along_item Marks.composes _)
    intro last
    apply Along.bind Marks.composes
    · exact Along.marks_mono (marks_insertItems other _ _) (by simp)
    · intro _
      exact Along.marks_mono (marks_removeInternalItems page _ _) (by simp)

theorem marks_setKeyAt (page : Int) (index : Nat) (key : K) :
  Along (Marks {page}) (Mini.setKeyAt c page index key)
  := by
  apply Along.bind Marks.composes (along_node Marks.composes)
  rintro ⟨parent, ⟨nextBrother, items⟩ | items⟩
  · apply Along.throw Marks.composes
  · apply Along.bind Marks.composes (along_item Marks.composes _)
    rintro ⟨oldKey, child⟩
    apply marks_change

/-! ### What has succeeded -/

/-- A mark that is made at the end is not owed. -/
theorem Marks.marked {u : Unit} (h : Marks owed s s')
    (hrun : (Mini.markDirty page : Mini K V Unit) s' = .ok u s'') :
  Marks owed s s'' ∧ page ∈ s''.dirty
  := by
  cases hrun
  exact ⟨h.trans (marks_markDirty page s'), List.mem_cons_self⟩

theorem marks_of_allocateNode {isLeaf : Bool}
    (hrun : (Mini.allocateNode isLeaf : Mini K V Int) s = .ok page s') :
  Marks {page} s s'
  := by
  obtain ⟨_, s₁, hrequest, hrest⟩ := bind_eq_ok hrun
  have hrequested : Marks {page} s s₁ := marks_request.ok hrequest
  apply hrequested.trans
  obtain ⟨_, _, hget, hrest⟩ := bind_eq_ok hrest
  cases hget
  change ((if ¬ IsInt32 (s₁.tree.pages.next : Int) then _ else _ : Mini K V Int) s₁) = _ at hrest
  by_cases hnext : IsInt32 s₁.tree.pages.next
  · rw [if_neg (not_not.mpr hnext)] at hrest
    cases hrest
    refine ⟨?_, ?_, ?_⟩
    · intro other hmem
      change other ∈ (s₁.appendLogEntry _ _).dirty
      rw [dirty_appendLogEntry]
      exact hmem
    · intro other hne
      right
      by_contra hother
      apply hne
      change (s₁.tree.pages.allocate _).get other = _
      exact PageFile.get_allocate_of_ne hother
    · change (s₁.appendLogEntry _ _).tree.disposedPages = _
      rw [tree_appendLogEntry]
  · rw [if_pos hnext] at hrest
    cases hrest

theorem marks_of_updateRootPageNum {rootPage : Int} {u : Unit}
    (hrun : (Mini.updateRootPageNum rootPage : Mini K V Unit) s = .ok u s') :
  Marks owed s s'
  := by
  obtain ⟨_, s₁, hget, hrest⟩ := bind_eq_ok hrun
  have hgot : Marks owed s s₁ := (along_followed (marks_getPage firstIndexPage)).ok hget
  apply hgot.trans
  obtain ⟨_, _, hget, hrest⟩ := bind_eq_ok hrest
  cases hget
  cases hheader : s₁.tree.pages.get firstIndexPage with
  | none =>
    rw [hheader] at hrest
    cases hrest
  | some x =>
    rw [hheader] at hrest
    cases x with
    | fileHeader => cases hrest
    | node node => cases hrest
    | indexHeader oldPage =>
      change ((if ¬ IsInt32 rootPage then _ else _ : Mini K V Unit) s₁) = _ at hrest
      by_cases hroot : IsInt32 rootPage
      · rw [if_neg (not_not.mpr hroot)] at hrest
        cases hrest
        refine ⟨?_, ?_, ?_⟩
        · intro other hmem
          right
          change other ∈ (s₁.appendLogEntry _ _).dirty
          rw [dirty_appendLogEntry]
          exact hmem
        · intro other hne
          left
          have hother : other = firstIndexPage := by
            by_contra hother
            apply hne
            change PageFile.get (MiniTransaction.setRootPage _ _).tree.pages other = _
            rw [MiniTransaction.setRootPage, tree_appendLogEntry]
            exact PageFile.get_set_of_ne hother _
          rw [hother]
          exact List.mem_cons_self
        · change (MiniTransaction.setRootPage _ _).tree.disposedPages = _
          rw [MiniTransaction.setRootPage, tree_appendLogEntry]
      · rw [if_pos hroot] at hrest
        cases hrest

/-! ### Insertion -/

/-- A split marks both of its pages. -/
theorem marks_of_split {isLeaf : Bool} {newPage : Int}
    (hrun : Mini.split c isLeaf page s = .ok newPage s') :
  Marks owed s s' ∧ page ∈ s'.dirty ∧ newPage ∈ s'.dirty
  := by
  obtain ⟨newPage, s₁, hallocate, hrest⟩ := bind_eq_ok hrun
  obtain ⟨this, s₂, hnode, hrest⟩ := bind_eq_ok hrest
  obtain ⟨_, s₃, hset, hrest⟩ := bind_eq_ok hrest
  obtain ⟨_, s₄, hmove, hrest⟩ := bind_eq_ok hrest
  obtain ⟨_, s₅, hmark, hrest⟩ := bind_eq_ok hrest
  obtain ⟨_, s₆, hmark', hrest⟩ := bind_eq_ok hrest
  cases hrest
  have hboth : Marks {page, newPage} s s₄ := by
    have h₁ := (marks_of_allocateNode hallocate).mono
      (show {newPage} ⊆ ({page, newPage} : Set Int) by simp)
    have h₂ : Marks {page, newPage} s₁ s₂ := (along_node Marks.composes).ok hnode
    have h₃ := ((marks_setParentPageNum newPage this.parent).ok hset).mono
      (show {newPage} ⊆ ({page, newPage} : Set Int) by simp)
    have h₄ := (along_ignoringRc (marks_moveHalfTo isLeaf page newPage)).ok hmove
    exact ((h₁.trans h₂).trans h₃).trans h₄
  obtain ⟨hmarks, hpage⟩ := hboth.marked hmark
  obtain ⟨hmarks, hnew⟩ := hmarks.marked hmark'
  have hlast : Marks owed s₅ s' := (marks_markDirty newPage).ok hmark'
  have hpage' := hlast.dirty page hpage
  refine ⟨hmarks.settle ?_, hpage', hnew⟩
  rintro other (rfl | hother)
  · exact .inl hpage'
  · rw [Set.mem_singleton_iff.mp hother]
    exact .inl hnew

/-- A change of a page that has been marked owes nothing. -/
theorem Marks.of_mem (h : Marks {page} s s') (hmem : page ∈ s.dirty) :
  Marks owed s s'
  := by
  apply h.settle
  intro other hother
  left
  rw [Set.mem_singleton_iff.mp hother]
  exact h.dirty page hmem

section Insertion

variable [LinearOrder K] {newPage : Int} {key : K} {value : V} {u : Unit}

theorem marks_internalInsert (page : Int) (key : K) (child : Int) :
  Along (Marks {page}) (Mini.internalInsert c page key child)
  := by
  apply Along.bind Marks.composes (along_internal Marks.composes)
  intro items
  apply marks_insertInternalItems

/-- What an insertion puts into the parents of a split node is marked, if both halves of the node
have been. -/
theorem marks_of_insertEntryIntoParent {fuel : Nat} (hpage : page ∈ s.dirty)
    (hnew : newPage ∈ s.dirty)
    (hrun : Mini.insertEntryIntoParent c fuel page newPage key s = .ok u s') :
  Marks owed s s'
  := by
  induction fuel generalizing page newPage key s with
  | zero => cases hrun
  | succ fuel ih =>
    obtain ⟨this, s₁, hnode, hrest⟩ := bind_eq_ok hrun
    have h₁ : Marks owed s s₁ := (along_node Marks.composes).ok hnode
    apply h₁.trans
    replace hpage := h₁.dirty page hpage
    replace hnew := h₁.dirty newPage hnew
    dsimp only at hrest
    split at hrest
    · -- a new root
      obtain ⟨root, s₂, hallocate, hrest⟩ := bind_eq_ok hrest
      obtain ⟨_, s₃, hcreate, hrest⟩ := bind_eq_ok hrest
      obtain ⟨_, s₄, hset, hrest⟩ := bind_eq_ok hrest
      obtain ⟨_, s₅, hset', hrest⟩ := bind_eq_ok hrest
      obtain ⟨_, s₆, hmark, hrest⟩ := bind_eq_ok hrest
      obtain ⟨_, s₇, hmark', hrest⟩ := bind_eq_ok hrest
      obtain ⟨_, s₈, hroot, hrest⟩ := bind_eq_ok hrest
      have h₂ := marks_of_allocateNode hallocate
      have h₃ : Marks {root} s₂ s₃ := (marks_createNewRoot _ _ _ _).ok hcreate
      have h₄ : Marks {root} s₃ s₄ := ((marks_setParentPageNum _ _).ok hset).of_mem
        ((h₂.trans h₃).dirty page hpage)
      have h₅ : Marks {root} s₄ s₅ := ((marks_setParentPageNum _ _).ok hset').of_mem
        (((h₂.trans h₃).trans h₄).dirty newPage hnew)
      have h₆ : Marks {root} s₅ s₆ := (marks_markDirty page).ok hmark
      have h₇ : Marks {root} s₆ s₇ := (marks_markDirty newPage).ok hmark'
      have h₈ : Marks {root} s₇ s₈ := marks_of_updateRootPageNum hroot
      have hall := (((((h₂.trans h₃).trans h₄).trans h₅).trans h₆).trans h₇).trans h₈
      obtain ⟨hmarks, hmem⟩ := hall.marked hrest
      apply hmarks.settle
      intro other hother
      left
      rw [Set.mem_singleton_iff.mp hother]
      exact hmem
    · obtain ⟨_, s₂, hget, hrest⟩ := bind_eq_ok hrest
      obtain ⟨items, s₃, hitems, hrest⟩ := bind_eq_ok hrest
      have h₂ : Marks owed s₁ s₂ := (marks_getPage _).ok hget
      have h₃ : Marks owed s₂ s₃ := (along_internal Marks.composes).ok hitems
      apply (h₂.trans h₃).trans
      replace hpage := (h₂.trans h₃).dirty page hpage
      replace hnew := (h₂.trans h₃).dirty newPage hnew
      split at hrest
      · -- the parent has room
        obtain ⟨_, s₄, hinsert, hrest⟩ := bind_eq_ok hrest
        obtain ⟨_, s₅, hset, hrest⟩ := bind_eq_ok hrest
        obtain ⟨_, s₆, hmark, hrest⟩ := bind_eq_ok hrest
        obtain ⟨_, s₇, hmark', hrest⟩ := bind_eq_ok hrest
        have h₄ : Marks {this.parent} s₃ s₄ := (marks_internalInsert _ _ _).ok hinsert
        have h₅ : Marks {this.parent} s₄ s₅ := ((marks_setParentPageNum _ _).ok hset).of_mem
          (h₄.dirty newPage hnew)
        have h₆ : Marks {this.parent} s₅ s₆ := (marks_markDirty page).ok hmark
        have h₇ : Marks {this.parent} s₆ s₇ := (marks_markDirty newPage).ok hmark'
        obtain ⟨hmarks, hmem⟩ := (((h₄.trans h₅).trans h₆).trans h₇).marked hrest
        apply hmarks.settle
        intro other hother
        left
        rw [Set.mem_singleton_iff.mp hother]
        exact hmem
      · -- the parent is split, and the new node goes into one of the halves
        obtain ⟨newParent, s₄, hsplit, hrest⟩ := bind_eq_ok hrest
        obtain ⟨h₄, hparent, hnewParent⟩ := @marks_of_split _ _ c _ _ _ owed _ _ hsplit
        apply h₄.trans
        replace hnew := h₄.dirty newPage hnew
        obtain ⟨that, s₅, hnode', hrest⟩ := bind_eq_ok hrest
        obtain ⟨firstKey, s₆, hfirst, hrest⟩ := bind_eq_ok hrest
        have h₅ : Marks owed s₄ s₅ := (along_node Marks.composes).ok hnode'
        have h₆ : Marks owed s₅ s₆ := (along_item Marks.composes _).ok hfirst
        apply (h₅.trans h₆).trans
        replace hnew := (h₅.trans h₆).dirty newPage hnew
        replace hparent := (h₅.trans h₆).dirty _ hparent
        replace hnewParent := (h₅.trans h₆).dirty _ hnewParent
        have hhalf : ∀ half, half ∈ s₆.dirty → (do
            Mini.internalInsert c half key newPage
            Mini.setParentPageNum c newPage half
            let firstKey ← Mini.item ((← Mini.node newParent).body.keyAt 0)
            Mini.insertEntryIntoParent c fuel this.parent newParent firstKey :
              Mini K V Unit) s₆ = .ok u s' → Marks owed s₆ s' := by
          intro half hhalf hrest
          obtain ⟨_, s₇, hinsert, hrest⟩ := bind_eq_ok hrest
          obtain ⟨_, s₈, hset, hrest⟩ := bind_eq_ok hrest
          obtain ⟨_, s₉, hnode, hrest⟩ := bind_eq_ok hrest
          obtain ⟨_, s₁₀, hfirst, hrest⟩ := bind_eq_ok hrest
          have h₇ : Marks owed s₆ s₇ := ((marks_internalInsert _ _ _).ok hinsert).of_mem hhalf
          have h₈ : Marks owed s₇ s₈ := ((marks_setParentPageNum _ _).ok hset).of_mem
            (h₇.dirty newPage hnew)
          have h₉ : Marks owed s₈ s₉ := (along_node Marks.composes).ok hnode
          have h₁₀ : Marks owed s₉ s₁₀ := (along_item Marks.composes _).ok hfirst
          have hall := ((h₇.trans h₈).trans h₉).trans h₁₀
          exact hall.trans (ih (hall.dirty _ hparent) (hall.dirty _ hnewParent) hrest)
        split at hrest
        · exact hhalf newParent hnewParent hrest
        · exact hhalf this.parent hparent hrest

theorem marks_of_insertEntryIntoLeafNode
    (hrun : Mini.insertEntryIntoLeafNode c page key value s = .ok u s') :
  Marks owed s s'
  := by
  obtain ⟨⟨nextBrother, items⟩, s₁, hleaf, hrest⟩ := bind_eq_ok hrun
  have h₁ : Marks owed s s₁ := (along_leaf Marks.composes).ok hleaf
  apply h₁.trans
  dsimp only at hrest
  split at hrest
  · cases hrest
  split at hrest
  · -- the leaf has room
    obtain ⟨_, s₂, hinsert, hrest⟩ := bind_eq_ok hrest
    have h₂ : Marks {page} s₁ s₂ := (marks_insertLeafItems _ _ _).ok hinsert
    obtain ⟨hmarks, hmem⟩ := h₂.marked hrest
    apply hmarks.settle
    intro other hother
    left
    rw [Set.mem_singleton_iff.mp hother]
    exact hmem
  · -- the leaf is split
    obtain ⟨newPage, s₂, hsplit, hrest⟩ := bind_eq_ok hrest
    obtain ⟨h₂, hpage, hnew⟩ := @marks_of_split _ _ c _ _ _ owed _ _ hsplit
    apply h₂.trans
    obtain ⟨⟨nextBrother', left⟩, s₃, hleaf', hrest⟩ := bind_eq_ok hrest
    obtain ⟨_, s₄, hnext, hrest⟩ := bind_eq_ok hrest
    obtain ⟨this, s₅, hnode, hrest⟩ := bind_eq_ok hrest
    obtain ⟨_, s₆, hset, hrest⟩ := bind_eq_ok hrest
    obtain ⟨_, s₇, hnext', hrest⟩ := bind_eq_ok hrest
    have h₃ : Marks owed s₂ s₃ := (along_leaf Marks.composes).ok hleaf'
    have h₄ := h₃.trans (((marks_setNextPage _ _).ok hnext).of_mem (h₃.dirty _ hnew))
    have h₅ := h₄.trans ((along_node Marks.composes).ok hnode)
    have h₆ := h₅.trans (((marks_setParentPageNum _ _).ok hset).of_mem (h₅.dirty _ hnew))
    have h₇ := h₆.trans (((marks_setNextPage _ _).ok hnext').of_mem (h₆.dirty _ hpage))
    apply h₇.trans
    replace hpage := h₇.dirty page hpage
    replace hnew := h₇.dirty newPage hnew
    have hhalf : ∀ half (index : Nat), half ∈ s₇.dirty → (do
        Mini.leafInsert c half index key value
        let firstKey ← Mini.item ((← Mini.node newPage).body.keyAt 0)
        Mini.insertEntryIntoParent c (← get).tree.pages.length page newPage firstKey :
          Mini K V Unit) s₇ = .ok u s' → Marks owed s₇ s' := by
      intro half index hhalf hrest
      obtain ⟨_, s₈, hinsert, hrest⟩ := bind_eq_ok hrest
      obtain ⟨_, s₉, hnode, hrest⟩ := bind_eq_ok hrest
      obtain ⟨_, s₁₀, hfirst, hrest⟩ := bind_eq_ok hrest
      obtain ⟨_, _, hget, hrest⟩ := bind_eq_ok hrest
      cases hget
      have h₈ : Marks owed s₇ s₈ := ((marks_insertLeafItems _ _ _).ok hinsert).of_mem hhalf
      have h₉ := h₈.trans ((along_node Marks.composes).ok hnode)
      have h₁₀ := h₉.trans ((along_item Marks.composes _).ok hfirst)
      exact h₁₀.trans (marks_of_insertEntryIntoParent (h₁₀.dirty _ hpage) (h₁₀.dirty _ hnew) hrest)
    split at hrest
    · exact hhalf page _ hpage hrest
    · exact hhalf newPage _ hnew hrest

omit [LinearOrder K] in
theorem marks_of_createNewTree (hrun : Mini.createNewTree c key value s = .ok u s') :
  Marks owed s s'
  := by
  obtain ⟨_, _, hget, hrest⟩ := bind_eq_ok hrun
  cases hget
  split at hrest
  · cases hrest
  obtain ⟨page, s₁, hallocate, hrest⟩ := bind_eq_ok hrest
  obtain ⟨_, s₂, hinsert, hrest⟩ := bind_eq_ok hrest
  obtain ⟨_, s₃, hroot, hrest⟩ := bind_eq_ok hrest
  have h₁ := marks_of_allocateNode hallocate
  have h₂ := h₁.trans ((marks_insertLeafItems _ _ _).ok hinsert)
  have h₃ := h₂.trans (marks_of_updateRootPageNum hroot)
  obtain ⟨hmarks, hmem⟩ := h₃.marked hrest
  apply hmarks.settle
  intro other hother
  left
  rw [Set.mem_singleton_iff.mp hother]
  exact hmem

omit [LinearOrder K] in
theorem marks_descend (childPageGetter : List (K × Int) → Option Int) (fuel : Nat) (page : Int) :
  Along (Marks owed) (Mini.descend childPageGetter fuel page : Mini K V Int)
  := by
  induction fuel generalizing page with
  | zero => apply Along.throw Marks.composes
  | succ fuel ih =>
    apply Along.bind Marks.composes (along_node Marks.composes)
    rintro ⟨parent, ⟨nextBrother, items⟩ | items⟩
    · apply Along.pure Marks.composes
    · apply Along.bind Marks.composes (along_item Marks.composes _)
      intro child
      apply Along.bind Marks.composes (marks_getPage child)
      intro _
      apply ih

theorem marks_findLeaf (key : K) : Along (Marks owed) (Mini.findLeaf key : Mini K V Int) := by
  apply Along.bind Marks.composes (Along.get Marks.composes)
  intro s
  apply Along.ite
  · apply Along.throw Marks.composes
  · apply Along.bind Marks.composes (marks_getPage _)
    intro _
    apply marks_descend

/-- An insertion that succeeds has marked every page that it has changed. -/
theorem marks_of_insertEntry (hrun : Mini.insertEntry c key value s = .ok u s') :
  Marks owed s s'
  := by
  obtain ⟨_, _, hget, hrest⟩ := bind_eq_ok hrun
  cases hget
  split at hrest
  · exact marks_of_createNewTree hrest
  · obtain ⟨page, s₁, hfind, hrest⟩ := bind_eq_ok hrest
    exact ((marks_findLeaf key).ok hfind).trans (marks_of_insertEntryIntoLeafNode hrest)

end Insertion

/-! ### Deletion -/

section Deletion

/-- Where the root cannot be set, the program crashes. -/
theorem updateRootPageNum_error {rootPage : Int} {e : Stop}
    (hrun : (Mini.updateRootPageNum rootPage : Mini K V Unit) s = .error e s') :
  ∃ crash, e = .crash crash
  := by
  obtain hget | ⟨_, s₁, -, hrest⟩ := bind_eq_error hrun
  · rw [Mini.followed] at hget
    split at hget
    · cases hget
      exact ⟨_, rfl⟩
    · rename_i hne
      cases e with
      | crash crash => exact ⟨crash, rfl⟩
      | returns rc => exact absurd hget (hne rc s')
  · obtain hget | ⟨_, _, hget, hrest⟩ := bind_eq_error hrest
    · cases hget
    cases hget
    cases hheader : s₁.tree.pages.get firstIndexPage with
    | none =>
      rw [hheader] at hrest
      cases hrest
      exact ⟨_, rfl⟩
    | some x =>
      rw [hheader] at hrest
      cases x with
      | fileHeader =>
        cases hrest
        exact ⟨_, rfl⟩
      | node node =>
        cases hrest
        exact ⟨_, rfl⟩
      | indexHeader oldPage =>
        change ((if ¬ IsInt32 rootPage then _ else _ : Mini K V Unit) s₁) = _ at hrest
        by_cases hroot : IsInt32 rootPage
        · rw [if_neg (not_not.mpr hroot)] at hrest
          cases hrest
        · rw [if_pos hroot] at hrest
          cases hrest
          exact ⟨_, rfl⟩

/-- Across an action, no page that has been disposed of is forgotten. -/
def Disposes (s s' : MiniTransaction K V) : Prop :=
  s.tree.disposedPages.length ≤ s'.tree.disposedPages.length

theorem steps_disposes : Steps c (Disposes : MiniTransaction K V → MiniTransaction K V → Prop) where
  refl s := le_refl _
  trans h h' := le_trans h h'
  request _ _ := le_refl _
  markDirty _ _ := le_refl _
  disposePage s page _ := by
    change _ ≤ (s.tree.disposedPages ++ [page]).length
    rw [List.length_append]
    exact Nat.le_add_right _ _
  allocate s _ _ := by
    rw [Disposes, MiniTransaction.setPages, tree_appendLogEntry]
  change s page node operation node' _ _ _ := by
    rw [Disposes, MiniTransaction.setPages, tree_appendLogEntry]
  setRootPage s oldPage rootPage _ _ := by
    rw [Disposes, MiniTransaction.setRootPage, tree_appendLogEntry]

/-- Where a new root cannot be set up, nothing is changed. -/
theorem marks_of_adjustRoot_error {rc : RC}
    (hrun : Mini.adjustRoot c page s = .error (.returns rc) s') :
  Marks owed s s'
  := by
  obtain hnode | ⟨⟨parent, body⟩, s₁, hnode, hrest⟩ := bind_eq_error hrun
  · exact (along_node Marks.composes).error hnode
  have h₁ : Marks owed s s₁ := (along_node Marks.composes).ok hnode
  apply h₁.trans
  obtain ⟨nextBrother, _ | ⟨item, items⟩⟩ | items := body
  · obtain hroot | ⟨_, s₂, -, hdispose⟩ := bind_eq_error hrest
    · obtain ⟨crash, hcrash⟩ := updateRootPageNum_error hroot
      cases hcrash
    · cases hdispose
  · cases hrest
  · obtain hitem | ⟨⟨key, child⟩, s₂, hitem, hrest⟩ := bind_eq_error hrest
    · exact (along_item Marks.composes _).error hitem
    have h₂ : Marks owed s₁ s₂ := (along_item Marks.composes _).ok hitem
    apply h₂.trans
    obtain hget | ⟨_, s₃, hget, hrest⟩ := bind_eq_error hrest
    · exact (marks_getPage child).error hget
    have h₃ : Marks owed s₂ s₃ := (marks_getPage child).ok hget
    apply h₃.trans
    obtain hset | ⟨_, s₄, -, hrest⟩ := bind_eq_error hrest
    · rw [setParentPageNum_error hset]
      exact Marks.refl s₃
    obtain hroot | ⟨_, s₅, -, hdispose⟩ := bind_eq_error hrest
    · obtain ⟨crash, hcrash⟩ := updateRootPageNum_error hroot
      cases hcrash
    · cases hdispose

/-- Setting up a new root and giving up the last node dispose of a page. -/
theorem marks_of_adjustRoot {u : Unit} (hrun : Mini.adjustRoot c page s = .ok u s')
    (hdisposed : s'.tree.disposedPages.length ≤ s.tree.disposedPages.length) :
  Marks owed s s'
  := by
  have hfollows := Steps.follows (c := c) steps_disposes
  have hlater : ∀ {s₁ : MiniTransaction K V}, Disposes s s₁ →
      (Mini.disposePage page : Mini K V Unit) s₁ = .ok u s' → False := by
    intro s₁ hle hdispose
    cases hdispose
    change (s₁.tree.disposedPages ++ [page]).length ≤ _ at hdisposed
    rw [List.length_append, List.length_singleton] at hdisposed
    rw [Disposes] at hle
    omega
  obtain ⟨⟨parent, body⟩, s₁, hnode, hrest⟩ := bind_eq_ok hrun
  have h₁ : Disposes s s₁ := (along_node hfollows.toComposes).ok hnode
  obtain ⟨nextBrother, _ | ⟨item, items⟩⟩ | items := body
  · obtain ⟨_, s₂, hroot, hdispose⟩ := bind_eq_ok hrest
    have h₂ : Disposes s₁ s₂ := (hfollows.updateRootPageNum _).ok hroot
    exact (hlater (h₁.trans h₂) hdispose).elim
  · have hmarked : Marks owed s s₁ := (along_node Marks.composes).ok hnode
    exact hmarked.trans ((marks_markDirty page).ok hrest)
  · obtain ⟨⟨key, child⟩, s₂, hitem, hrest⟩ := bind_eq_ok hrest
    obtain ⟨_, s₃, hget, hrest⟩ := bind_eq_ok hrest
    obtain ⟨_, s₄, hset, hrest⟩ := bind_eq_ok hrest
    obtain ⟨_, s₅, hroot, hdispose⟩ := bind_eq_ok hrest
    have h₂ := h₁.trans ((along_item hfollows.toComposes _).ok hitem)
    have h₃ := h₂.trans ((hfollows.getPage _).ok hget)
    have h₄ := h₃.trans ((hfollows.setParentPageNum _ _).ok hset)
    have h₅ := h₄.trans ((hfollows.updateRootPageNum _).ok hroot)
    exact (hlater h₅ hdispose).elim

theorem marks_of_redistribute {isLeaf : Bool} {neighborPage parentPage : Int} {index : Nat}
    {u : Unit} (hrun : Mini.redistribute c isLeaf neighborPage page parentPage index s = .ok u s') :
  Marks owed s s'
  := by
  have hend : ∀ {s₁ : MiniTransaction K V}, Marks {neighborPage, page, parentPage} s s₁ → (do
      Mini.markDirty neighborPage; Mini.markDirty page; Mini.markDirty parentPage :
        Mini K V Unit) s₁ = .ok u s' → Marks owed s s' := by
    intro s₁ hmarks hrest
    cases hrest
    have hmarked : Marks {neighborPage, page, parentPage} s
        { s₁ with dirty := parentPage :: page :: neighborPage :: s₁.dirty } :=
      ((hmarks.trans (marks_markDirty neighborPage _)).trans (marks_markDirty page _)).trans
        (marks_markDirty parentPage _)
    apply hmarked.settle
    rintro other (rfl | rfl | rfl) <;> simp
  have hmoved : ∀ {s₁ s₂ s₃ s₄ : MiniTransaction K V} {first : Option K} {firstKey : K} {slot : Nat}
      {sibling : Int} {node : IndexNode K V}, Marks {neighborPage, page} s s₁ →
      Mini.node sibling s₁ = .ok node s₂ → Mini.item first s₂ = .ok firstKey s₃ →
      Mini.setKeyAt c parentPage slot firstKey s₃ = .ok () s₄ →
      Marks {neighborPage, page, parentPage} s s₄ := by
    intro s₁ s₂ s₃ s₄ first firstKey slot from_ node h₁ hnode hfirst hset
    have h₂ := h₁.trans ((along_node Marks.composes).ok hnode)
    have h₃ := h₂.trans ((along_item Marks.composes _).ok hfirst)
    have hsub : ({neighborPage, page} : Set Int) ⊆ {neighborPage, page, parentPage} := by
      rintro other (rfl | rfl) <;> simp
    exact (h₃.mono hsub).trans (((marks_setKeyAt _ _ _).ok hset).mono (by simp))
  rw [Mini.redistribute] at hrun
  split_ifs at hrun
  · obtain ⟨_, s₁, hmove, hrest⟩ := bind_eq_ok hrun
    obtain ⟨node, s₂, hnode, hrest⟩ := bind_eq_ok hrest
    obtain ⟨firstKey, s₃, hfirst, hrest⟩ := bind_eq_ok hrest
    obtain ⟨_, s₄, hset, hrest⟩ := bind_eq_ok hrest
    have h₁ := (along_ignoringRc (marks_moveFirstToEnd isLeaf neighborPage page)).ok hmove
    exact hend (hmoved h₁ hnode hfirst hset) hrest
  · obtain ⟨_, s₁, hmove, hrest⟩ := bind_eq_ok hrun
    obtain ⟨node, s₂, hnode, hrest⟩ := bind_eq_ok hrest
    obtain ⟨firstKey, s₃, hfirst, hrest⟩ := bind_eq_ok hrest
    obtain ⟨_, s₄, hset, hrest⟩ := bind_eq_ok hrest
    have h₁ := (along_ignoringRc (marks_moveLastToFront isLeaf neighborPage page)).ok hmove
    exact hend (hmoved h₁ hnode hfirst hset) hrest

/-- Of two nodes that are merged, one is disposed of. -/
theorem disposes_of_coalesce {isLeaf : Bool} {checkParent : Int → Mini K V Unit}
    (hcheck : ∀ page, Along Disposes (checkParent page)) {neighborPage parentPage : Int}
    {index : Nat} {u : Unit}
    (hrun : Mini.coalesce c isLeaf checkParent neighborPage page parentPage index s = .ok u s') :
  s.tree.disposedPages.length < s'.tree.disposedPages.length
  := by
  have hfollows := Steps.follows (c := c) steps_disposes
  rw [Mini.coalesce] at hrun
  generalize (if index = 0 then (page, neighborPage, 1) else (neighborPage, page, index)) = sides
    at hrun
  obtain ⟨left, right, index⟩ := sides
  obtain ⟨_, s₁, hremove, hrest⟩ := bind_eq_ok hrun
  obtain ⟨_, s₂, hmove, hrest⟩ := bind_eq_ok hrest
  obtain ⟨node, s₃, hnode, hrest⟩ := bind_eq_ok hrest
  have h₁ : Disposes s s₁ := (hfollows.internalRemove _).ok hremove
  have h₂ := h₁.trans ((hfollows.moveTo _ _).ok hmove)
  have h₃ := h₂.trans ((along_node hfollows.toComposes).ok hnode)
  have hlast : ∀ {s₄ : MiniTransaction K V}, Disposes s s₄ → (do
      Mini.disposePage right; checkParent parentPage : Mini K V Unit) s₄ = .ok u s' →
      s.tree.disposedPages.length < s'.tree.disposedPages.length := by
    intro s₄ h₄ hrest
    obtain ⟨_, s₅, hdispose, hparent⟩ := bind_eq_ok hrest
    have h₆ := (hcheck parentPage).ok hparent
    cases hdispose
    rw [Disposes] at h₄ h₆
    change (s₄.tree.disposedPages ++ [right]).length ≤ _ at h₆
    rw [List.length_append, List.length_singleton] at h₆
    omega
  dsimp only at hrest
  split at hrest
  · obtain ⟨⟨nextBrother, items⟩, s₄, hleaf, hrest⟩ := bind_eq_ok hrest
    obtain ⟨_, s₅, hnext, hrest⟩ := bind_eq_ok hrest
    have h₄ := h₃.trans ((along_leaf hfollows.toComposes).ok hleaf)
    exact hlast (h₄.trans ((hfollows.setNextPage _ _).ok hnext)) hrest
  · exact hlast h₃ hrest

variable [LinearOrder K] {u : Unit} {key : K}

theorem marks_of_coalesceOrRedistribute {fuel : Nat} {isLeaf : Bool}
    (hrun : Mini.coalesceOrRedistribute c fuel isLeaf page s = .ok u s')
    (hdisposed : s'.tree.disposedPages.length ≤ s.tree.disposedPages.length) :
  Marks owed s s'
  := by
  have hfollows := Steps.follows (c := c) steps_disposes
  cases fuel with
  | zero => cases hrun
  | succ fuel =>
    obtain ⟨this, s₁, hnode, hrest⟩ := bind_eq_ok hrun
    have h₁ : Marks owed s s₁ := (along_node Marks.composes).ok hnode
    rw [← h₁.disposed] at hdisposed
    apply h₁.trans
    dsimp only at hrest
    split at hrest
    · cases hrest
      exact Marks.refl _
    split at hrest
    · split at hrest
      · cases hrest
        exact Marks.refl _
      · rw [Mini.ignoringRc] at hrest
        split at hrest
        · rename_i rc s₂ hadjust
          cases hrest
          exact marks_of_adjustRoot_error hadjust
        · exact marks_of_adjustRoot hrest hdisposed
    obtain ⟨_, s₂, hget, hrest⟩ := bind_eq_ok hrest
    obtain ⟨items, s₃, hitems, hrest⟩ := bind_eq_ok hrest
    obtain ⟨lastKey, s₄, hlast, hrest⟩ := bind_eq_ok hrest
    obtain ⟨⟨foundKey, found⟩, s₅, hfound, hrest⟩ := bind_eq_ok hrest
    have h₂ : Marks owed s₁ s₂ := (marks_getPage _).ok hget
    have h₃ := h₂.trans ((along_internal Marks.composes).ok hitems)
    have h₄ := h₃.trans ((along_item Marks.composes _).ok hlast)
    have h₅ := h₄.trans ((along_item Marks.composes _).ok hfound)
    dsimp only at hrest
    split at hrest
    · cases hrest
    obtain ⟨⟨neighborKey, neighborPage⟩, s₆, hneighbor, hrest⟩ := bind_eq_ok hrest
    obtain ⟨_, s₇, hget', hrest⟩ := bind_eq_ok hrest
    obtain ⟨neighbor, s₈, hnode', hrest⟩ := bind_eq_ok hrest
    have h₆ := h₅.trans ((along_item Marks.composes _).ok hneighbor)
    have h₇ := h₆.trans ((marks_getPage _).ok hget')
    have h₈ := h₇.trans ((along_node Marks.composes).ok hnode')
    rw [← h₈.disposed] at hdisposed
    split at hrest
    · exact h₈.trans (marks_of_redistribute hrest)
    · have hcheck := fun page : Int => @Follows.coalesceOrRedistribute _ _ c _ page _ hfollows fuel false
      have hlt := disposes_of_coalesce hcheck hrest
      omega

/-- A deletion that succeeds without disposing of a page has marked every page that it has
changed. -/
theorem marks_of_deleteEntry (hrun : Mini.deleteEntry c key s = .ok u s')
    (hdisposed : s'.tree.disposedPages = s.tree.disposedPages) :
  Marks owed s s'
  := by
  obtain ⟨page, s₁, hfind, hrest⟩ := bind_eq_ok hrun
  have h₁ : Marks owed s s₁ := (along_notExist (marks_findLeaf key)).ok hfind
  rw [← h₁.disposed] at hdisposed
  apply h₁.trans
  obtain ⟨⟨nextBrother, items⟩, s₂, hleaf, hrest⟩ := bind_eq_ok hrest
  have h₂ : Marks owed s₁ s₂ := (along_leaf Marks.composes).ok hleaf
  rw [← h₂.disposed] at hdisposed
  apply h₂.trans
  dsimp only at hrest
  split at hrest
  · obtain ⟨_, s₃, hremove, hrest⟩ := bind_eq_ok hrest
    obtain ⟨_, s₄, hmark, hrest⟩ := bind_eq_ok hrest
    obtain ⟨this, s₅, hnode, hrest⟩ := bind_eq_ok hrest
    have h₃ : Marks {page} s₂ s₃ := (marks_leafRemove _ _).ok hremove
    obtain ⟨hmarks, hmem⟩ := h₃.marked hmark
    have h₄ : Marks owed s₂ s₄ := by
      apply hmarks.settle
      intro other hother
      left
      rw [Set.mem_singleton_iff.mp hother]
      exact hmem
    have h₅ := h₄.trans ((along_node Marks.composes).ok hnode)
    rw [← h₅.disposed] at hdisposed
    apply h₅.trans
    split at hrest
    · cases hrest
      exact Marks.refl _
    · obtain ⟨_, _, hget, hrest⟩ := bind_eq_ok hrest
      cases hget
      exact marks_of_coalesceOrRedistribute hrest (congrArg List.length hdisposed).le
  · cases hrest

end Deletion

/-! ### Evictions -/

/-- A tree whose frames come and go: its pages as the frames hold them, the frames that have been
marked, and what is read of a page that has no frame. -/
structure Paged (K V : Type) where
  tree : Tree K V
  dirty : List Int
  disk : Int → Option (Page K V)

namespace Paged

/-- `DiskBufferPool::flush_page`, which takes the mark away. -/
def flush (s : Paged K V) (page : Int) : Paged K V where
  tree := s.tree
  dirty := s.dirty.filter (· ≠ page)
  disk := Function.update s.disk page (s.tree.pages.get page)

/-- The purger of `DiskBufferPool::allocate_frame`, which writes a page only if its frame has been
marked. -/
def purge (s : Paged K V) (page : Int) : Paged K V := if page ∈ s.dirty then s.flush page else s

/-- `DiskBufferPool::get_this_page`, for a page that has no frame. -/
def load (s : Paged K V) (page : Int) : Paged K V :=
  { s with tree := { s.tree with pages := s.tree.pages.set page (s.disk page) } }

/-- Every page whose frame has not been marked is on the disk. -/
structure Faithful (s : Paged K V) : Prop where
  disk : ∀ page ∉ s.dirty, s.disk page = s.tree.pages.get page
  disposed : s.tree.disposedPages = []

variable {p : Paged K V}

theorem Faithful.flush (h : p.Faithful) (page : Int) : (p.flush page).Faithful where
  disposed := h.disposed
  disk other hmem := by
    by_cases heq : other = page
    · rw [heq]
      exact Function.update_self ..
    · have hclean : other ∉ p.dirty := by
        intro hdirty
        exact hmem (List.mem_filter.mpr ⟨hdirty, by simpa using heq⟩)
      exact (Function.update_of_ne heq _ _).trans (h.disk other hclean)

theorem Faithful.purge (h : p.Faithful) (page : Int) : (p.purge page).Faithful := by
  rw [Paged.purge]
  split_ifs
  · exact h.flush page
  · exact h

theorem tree_purge (p : Paged K V) (page : Int) : (p.purge page).tree = p.tree := by
  rw [purge]
  split_ifs <;> rfl

/-- A page is on the disk when it has been purged. -/
theorem Faithful.disk_purge (h : p.Faithful) (page : Int) :
  (p.purge page).disk page = p.tree.pages.get page
  := by
  rw [Paged.purge]
  split_ifs with hmem
  · exact Function.update_self ..
  · exact h.disk page hmem

theorem Faithful.load_purge (h : p.Faithful) (page : Int) :
  (p.purge page).load page = p.purge page
  := by
  have hpages : (p.purge page).tree.pages.set page ((p.purge page).disk page)
      = (p.purge page).tree.pages := by
    rw [h.disk_purge, tree_purge, PageFile.set_get]
  rw [load, hpages]

variable [LinearOrder K]

/-- The state behind an operation that has succeeded. -/
def finish (p : Paged K V) (s : MiniTransaction K V) : Paged K V :=
  { p with tree := (final ((Mini.release : Mini K V Unit) s)).tree, dirty := s.dirty }

omit [LinearOrder K] in
/-- An operation that has marked what it has changed. -/
theorem Faithful.finish (h : p.Faithful) {answer : Nat → RC}
    (hmarks : Marks ∅ (MiniTransaction.start p.tree p.dirty answer) s) :
  (p.finish s).Faithful
  := by
  have hdisposed : s.tree.disposedPages = [] := hmarks.disposed.trans h.disposed
  have hpages : (p.finish s).tree.pages = s.tree.pages := by
    change s.tree.disposedPages.foldl _ _ = _
    rw [hdisposed]
    rfl
  refine ⟨?_, rfl⟩
  intro page hclean
  have hbefore : page ∉ p.dirty := fun hmem => hclean (hmarks.dirty page hmem)
  rw [hpages]
  change p.disk page = _
  rw [h.disk page hbefore]
  by_contra hne
  obtain hdirty | howed := hmarks.changed page (Ne.symm hne)
  · exact hclean hdirty
  · exact howed

/-- The runs of insertions that succeed, and of deletions that succeed without merging nodes or
taking the root away, while pages are written and frames are evicted. The creation of an index
writes its first pages. -/
inductive Run (c : Format K V) : Paged K V → Prop where
  | create : Run c ⟨Tree.create, [], Tree.create.pages.get⟩
  | insertEntry {p : Paged K V} {key : K} {value : V} {answer : Nat → RC}
      {s : MiniTransaction K V} (h : Run c p)
      (hrun : (Operation.insertEntry key value).body c (MiniTransaction.start p.tree p.dirty answer)
        = .ok () s) : Run c (p.finish s)
  | deleteEntry {p : Paged K V} {key : K} {answer : Nat → RC} {s : MiniTransaction K V}
      (h : Run c p)
      (hrun : (Operation.deleteEntry key).body c (MiniTransaction.start p.tree p.dirty answer)
        = .ok () s) (hdisposed : s.tree.disposedPages = []) : Run c (p.finish s)
  | flush {p : Paged K V} (page : Int) (h : Run c p) : Run c (p.flush page)
  | evict {p : Paged K V} (page : Int) (h : Run c p) : Run c ((p.purge page).load page)

theorem Run.faithful (h : Run c p) : p.Faithful := by
  induction h with
  | create => exact ⟨fun _ _ => rfl, rfl⟩
  | insertEntry h hrun ih => exact ih.finish (marks_of_insertEntry hrun)
  | deleteEntry h hrun hdisposed ih =>
    exact ih.finish (marks_of_deleteEntry hrun (hdisposed.trans ih.disposed.symm))
  | flush page h ih => exact ih.flush page
  | evict page h ih =>
    rw [ih.load_purge]
    exact ih.purge page

/-- In every run of them, a page that is evicted and loaded again is what it was. -/
theorem Run.tree_evict (h : Run c p) (page : Int) :
  ((p.purge page).load page).tree = p.tree
  := by
  rw [h.faithful.load_purge, tree_purge]

theorem Run.tree_evict_first :
  ∃ s, (Operation.insertEntry 7 9).body charFormat
      (MiniTransaction.start Tree.create [] fun _ => .success) = .ok () s
    ∧ ((((⟨Tree.create, [], Tree.create.pages.get⟩ : Paged _ _).finish s).purge 2).load 2).tree
      = (Paged.finish ⟨Tree.create, [], Tree.create.pages.get⟩ s).tree
  := by
  obtain ⟨s, hrun⟩ : ∃ s, (Operation.insertEntry 7 9).body charFormat
      (MiniTransaction.start Tree.create [] fun _ => .success) = .ok () s := ⟨_, rfl⟩
  exact ⟨s, hrun, Run.tree_evict (.insertEntry .create hrun) 2⟩

end Paged

end MiniOB.BplusTree
