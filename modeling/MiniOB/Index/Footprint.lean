import MiniOB.Index.Effects
import MiniOB.Index.Latch
import MiniOB.Lib.Along

/-!
# Footprints

What the steps of an operation may change: the contents of which nodes, the parents of which
nodes, and whether the root. The rest of the tree stays as it is, whether the step succeeds or
fails.
-/

namespace MiniOB.BplusTree

open Stateful

variable {K V α β : Type}

/-- From `t` to `t'`, at most the nodes in `W` have changed what they hold, at most those in `P`
their parent, and the root has changed only if it is in `W`. Pages that have been free may be in
use. -/
structure Writes (W : Latched → Prop) (P : Int → Prop) (t t' : Tree K V) : Prop where
  isSome : ∀ p, (t.body p).isSome → (t'.body p).isSome
  body : ∀ p, (t.body p).isSome → ¬ W (.page p) → t'.body p = t.body p
  parent : ∀ p, (t.body p).isSome → ¬ P p → t'.parent p = t.parent p
  rootPage : ¬ W .rootLock → t'.rootPage = t.rootPage
  disposed : ∀ p ∈ t'.disposedPages, p ∈ t.disposedPages ∨ W (.page p)

variable {W W' : Latched → Prop} {P P' : Int → Prop} {t t' t'' : Tree K V} {page other : Int}

theorem Writes.refl (t : Tree K V) : Writes W P t t :=
  ⟨fun _ h => h, fun _ _ _ => rfl, fun _ _ _ => rfl, fun _ => rfl, fun _ h => .inl h⟩

theorem Writes.trans (h : Writes W P t t') (h' : Writes W P t' t'') : Writes W P t t'' where
  isSome p hp := h'.isSome p (h.isSome p hp)
  body p hp hW := (h'.body p (h.isSome p hp) hW).trans (h.body p hp hW)
  parent p hp hP := (h'.parent p (h.isSome p hp) hP).trans (h.parent p hp hP)
  rootPage hW := (h'.rootPage hW).trans (h.rootPage hW)
  disposed p hp := by
    obtain hp | hp := h'.disposed p hp
    · apply h.disposed p hp
    · exact .inr hp

theorem Writes.mono (h : Writes W P t t') (hW : ∀ x, W x → W' x) (hP : ∀ p, P p → P' p) :
  Writes W' P' t t'
  where
  isSome := h.isSome
  body p hp hp' := h.body p hp fun hmem => hp' (hW _ hmem)
  parent p hp hp' := h.parent p hp fun hmem => hp' (hP _ hmem)
  rootPage hroot := h.rootPage fun hmem => hroot (hW _ hmem)
  disposed p hp := (h.disposed p hp).imp_right (hW _)

theorem writes_composes : Composes (Writes W P : Tree K V → Tree K V → Prop) where
  refl := Writes.refl
  trans := Writes.trans

/-! ### Single steps -/

section Steps

theorem writes_getNode : Along (Writes W P) (getNode page : Mtr K V (IndexNode K V)) := by
  apply Along.of_final_eq writes_composes
  intro t
  rw [getNode]
  split <;> rfl

theorem writes_item (x : Option α) : Along (Writes W P) (item x : Mtr K V α) := by
  cases x with
  | none => apply Along.throw writes_composes
  | some x => apply Along.pure writes_composes

theorem writes_bind_item {x : Option α} {f : α → Mtr K V β}
    (hf : ∀ a, x = some a → Along (Writes W P) (f a)) :
  Along (Writes W P) (item x >>= f)
  := by
  cases x with
  | none => apply Along.throw writes_composes
  | some a => apply hf a rfl

theorem writes_setBody (hW : W (.page page)) (body : Body K V) :
  Along (Writes W P) (setBody page body)
  := by
  intro t
  cases hbody : t.body page with
  | none =>
    have hnode : t.node page = none := Option.map_eq_none_iff.mp hbody
    have hrun : getNode page t = .error (.page page) t := by
      simp only [getNode, hnode]
    change Writes W P t (final (EStateM.bind (getNode page) _ t))
    rw [EStateM.bind, hrun]
    apply Writes.refl
  | some old =>
    obtain ⟨t', hrun, hsets⟩ := setBody_sets (isSome_body_of_eq hbody) body
    rw [hrun]
    refine ⟨?_, ?_, ?_, fun _ => hsets.rootPage, ?_⟩
    · intro p hp
      change (t'.body p).isSome
      rw [hsets.body, Function.update_apply]
      split
      · rfl
      · exact hp
    · intro p _ hp
      change t'.body p = _
      rw [hsets.body, Function.update_of_ne]
      rintro rfl
      contradiction
    · intro p _ _
      change t'.parent p = _
      rw [hsets.parent]
    · intro p hp
      change p ∈ t'.disposedPages at hp
      rw [hsets.disposed] at hp
      exact .inl hp

theorem writes_setParentPageNum (hP : P page) (parent : Int) :
  Along (Writes W P) (setParentPageNum page parent : Mtr K V Unit)
  := by
  intro t
  cases hbody : t.body page with
  | none =>
    have hnode : t.node page = none := Option.map_eq_none_iff.mp hbody
    have hrun : getNode page t = .error (.page page) t := by
      simp only [getNode, hnode]
    change Writes W P t (final (EStateM.bind (getNode page) _ t))
    rw [EStateM.bind, hrun]
    apply Writes.refl
  | some old =>
    obtain ⟨t', hrun, hsets⟩ := setParentPageNum_sets (isSome_body_of_eq hbody) parent
    rw [hrun]
    refine ⟨?_, ?_, ?_, fun _ => hsets.rootPage, ?_⟩
    · intro p hp
      change (t'.body p).isSome
      rw [hsets.body]
      exact hp
    · intro p _ _
      change t'.body p = _
      rw [hsets.body]
    · intro p _ hp
      change t'.parent p = _
      rw [hsets.parent, Function.update_of_ne]
      rintro rfl
      contradiction
    · intro p hp
      change p ∈ t'.disposedPages at hp
      rw [hsets.disposed] at hp
      exact .inl hp

theorem writes_allocatePage (body : Body K V) : Along (Writes W P) (allocatePage body) := by
  intro t
  have hfree : t.body t.pages.next = none := by
    rw [Tree.body, Tree.node, PageFile.get_next]
    rfl
  have hnode : ∀ p, (t.body p).isSome → Tree.node
      { t with pages := t.pages.allocate (.node ⟨invalidPageNum, body⟩) } p = t.node p := by
    intro p hp
    have hne := ne_of_body_none hfree hp
    simp only [Tree.node, PageFile.get_allocate_of_ne hne]
  refine ⟨?_, ?_, ?_, fun _ => rfl, fun _ hp => .inl hp⟩
  · intro p hp
    change (Tree.body { t with pages := _ } p).isSome
    rw [Tree.body, hnode p hp]
    exact hp
  · intro p hp _
    change Tree.body { t with pages := _ } p = _
    rw [Tree.body, hnode p hp]
    rfl
  · intro p hp _
    change Tree.parent { t with pages := _ } p = _
    rw [Tree.parent, hnode p hp]
    rfl

theorem writes_disposePage (hW : W (.page page)) :
  Along (Writes W P) (disposePage page : Mtr K V Unit)
  := by
  intro t
  refine ⟨fun _ h => h, fun _ _ _ => rfl, fun _ _ _ => rfl, fun _ => rfl, ?_⟩
  intro p hp
  change p ∈ t.disposedPages ++ [page] at hp
  rw [List.mem_append, List.mem_singleton] at hp
  obtain hp | rfl := hp
  · exact .inl hp
  · exact .inr hW

theorem writes_updateRootPageNum (hW : W .rootLock) (rootPage : Int) :
  Along (Writes W P) (updateRootPageNum rootPage : Mtr K V Unit)
  := by
  intro t
  by_cases hheader : t.header.isSome
  · obtain ⟨t', hrun, hbody, hparent, hroot, -, hdisposed⟩ :=
      updateRootPageNum_run hheader rootPage
    rw [hrun]
    refine ⟨?_, ?_, ?_, fun h => absurd hW h, ?_⟩
    · intro p hp
      change (t'.body p).isSome
      rw [hbody]
      exact hp
    · intro p _ _
      exact congrFun hbody p
    · intro p _ _
      exact congrFun hparent p
    · intro p hp
      change p ∈ t'.disposedPages at hp
      rw [hdisposed] at hp
      exact .inl hp
  · have hrun : updateRootPageNum rootPage t = .error (.kind firstIndexPage) t := by
      rw [updateRootPageNum]
      cases hget : t.pages.get firstIndexPage with
      | none => rfl
      | some page =>
        cases page with
        | fileHeader => rfl
        | indexHeader old => exact absurd (by simp [Tree.header, hget]) hheader
        | node node => rfl
    rw [hrun]
    apply Writes.refl

end Steps

/-! ### Nodes -/

section Nodes

theorem getNode_ok {node : IndexNode K V} (h : getNode page t = .ok node t') :
  t.node page = some node ∧ t' = t
  := by
  rw [getNode] at h
  split at h
  · rename_i hnode
    cases h
    exact ⟨hnode, rfl⟩
  · contradiction

theorem writes_getLeaf : Along (Writes W P) (getLeaf page : Mtr K V (Int × List (K × V))) := by
  apply Along.bind writes_composes writes_getNode
  intro node
  cases node.body with
  | leaf => apply Along.pure writes_composes
  | internal => apply Along.throw writes_composes

theorem writes_getInternal : Along (Writes W P) (getInternal page : Mtr K V (List (K × Int))) := by
  apply Along.bind writes_composes writes_getNode
  intro node
  cases node.body with
  | leaf => apply Along.throw writes_composes
  | internal => apply Along.pure writes_composes

theorem writes_setNextPage (hW : W (.page page)) (nextBrother : Int) :
  Along (Writes W P) (setNextPage page nextBrother : Mtr K V Unit)
  := by
  apply Along.bind writes_composes writes_getLeaf
  intro _
  apply writes_setBody hW

theorem writes_setLeafItems (hW : W (.page page)) (items : List (K × V)) :
  Along (Writes W P) (setLeafItems page items)
  := by
  apply Along.bind writes_composes writes_getLeaf
  intro _
  apply writes_setBody hW

theorem writes_setInternalItems (hW : W (.page page)) (items : List (K × Int)) :
  Along (Writes W P) (setInternalItems page items : Mtr K V Unit)
  := by
  apply Along.bind writes_composes writes_getInternal
  intro _
  apply writes_setBody hW

theorem writes_leafInsert (hW : W (.page page)) (index : Nat) (key : K) (value : V) :
  Along (Writes W P) (leafInsert page index key value)
  := by
  apply Along.bind writes_composes writes_getLeaf
  intro _
  apply writes_setLeafItems hW

theorem writes_leafAppend (hW : W (.page page)) (moved : List (K × V)) :
  Along (Writes W P) (leafAppend page moved)
  := by
  apply Along.bind writes_composes writes_getLeaf
  intro _
  apply writes_setLeafItems hW

theorem writes_leafPreappend (hW : W (.page page)) (moved : K × V) :
  Along (Writes W P) (leafPreappend page moved)
  := by
  apply Along.bind writes_composes writes_getLeaf
  intro _
  apply writes_setLeafItems hW

theorem writes_internalInsert [LinearOrder K] (hW : W (.page page)) (key : K) (child : Int) :
  Along (Writes W P) (internalInsert page key child : Mtr K V Unit)
  := by
  apply Along.bind writes_composes writes_getInternal
  intro _
  apply writes_setInternalItems hW

theorem writes_internalRemove (hW : W (.page page)) (index : Nat) :
  Along (Writes W P) (internalRemove page index : Mtr K V Unit)
  := by
  apply Along.bind writes_composes writes_getInternal
  intro _
  apply Along.bind writes_composes (writes_item _)
  intro _
  apply writes_setInternalItems hW

theorem writes_setKeyAt (hW : W (.page page)) (index : Nat) (key : K) :
  Along (Writes W P) (setKeyAt page index key : Mtr K V Unit)
  := by
  apply Along.bind writes_composes writes_getInternal
  intro _
  apply Along.bind writes_composes (writes_item _)
  intro _
  apply writes_setInternalItems hW

theorem writes_setParents {items : List (K × Int)} (hP : ∀ i ∈ items, P i.2) :
  Along (Writes W P) (setParents page items : Mtr K V Unit)
  := by
  induction items with
  | nil => apply Along.pure writes_composes
  | cons i items ih =>
    apply Along.bind writes_composes
    · apply writes_setParentPageNum (hP i List.mem_cons_self)
    · intro _
      apply ih
      intro j hj
      apply hP j (List.mem_cons_of_mem _ hj)

theorem writes_internalAppend (hW : W (.page page)) {moved : List (K × Int)}
    (hP : ∀ i ∈ moved, P i.2) :
  Along (Writes W P) (internalAppend page moved : Mtr K V Unit)
  := by
  apply Along.bind writes_composes writes_getInternal
  intro _
  apply Along.bind writes_composes (writes_setInternalItems hW _)
  intro _
  apply writes_setParents hP

theorem writes_internalPreappend (hW : W (.page page)) {moved : K × Int} (hP : P moved.2) :
  Along (Writes W P) (internalPreappend page moved : Mtr K V Unit)
  := by
  apply Along.bind writes_composes writes_getInternal
  intro _
  apply Along.bind writes_composes (writes_setInternalItems hW _)
  intro _
  apply writes_setParents
  simpa using hP

end Nodes

/-! ### Moving items -/

section Moving

/-- The children of the node on a page are in `P`. -/
def ChildrenIn (P : Int → Prop) (t : Tree K V) (page : Int) : Prop :=
  ∀ items, t.body page = some (.internal items) → ∀ i ∈ items, P i.2

/-- A computation that starts by looking at a node. -/
theorem writes_body {f : IndexNode K V → Mtr K V α} (hP : ChildrenIn P t page)
    (hleaf : ∀ parent nextBrother items, Along (Writes W P) (f ⟨parent, .leaf nextBrother items⟩))
    (hinternal : ∀ parent items, (∀ i ∈ items, P i.2) →
      Along (Writes W P) (f ⟨parent, .internal items⟩)) :
  Writes W P t (final ((getNode page >>= f) t))
  := by
  apply Along.bind_of_ok writes_composes (writes_getNode t)
  intro node s hrun
  obtain ⟨hnode, rfl⟩ := getNode_ok hrun
  obtain ⟨parent, ⟨nextBrother, items⟩ | items⟩ := node
  · apply hleaf
  · apply hinternal
    apply hP
    rw [Tree.body, hnode]
    rfl

theorem writes_moveHalfTo (hpage : W (.page page)) (hother : W (.page other))
    (hP : ChildrenIn P t page) :
  Writes W P t (final (moveHalfTo page other t))
  := by
  apply writes_body hP
  · intro parent nextBrother items
    apply Along.bind writes_composes (writes_leafAppend hother _)
    intro _
    apply writes_setLeafItems hpage
  · intro parent items hitems
    apply Along.bind writes_composes
    · apply writes_internalAppend hother
      intro i hi
      apply hitems i (List.mem_of_mem_drop hi)
    · intro _
      apply writes_setInternalItems hpage

theorem writes_moveTo (hpage : W (.page page)) (hother : W (.page other))
    (hP : ChildrenIn P t page) :
  Writes W P t (final (moveTo page other t))
  := by
  apply writes_body hP
  · intro parent nextBrother items
    apply Along.bind writes_composes (writes_leafAppend hother _)
    intro _
    apply Along.bind writes_composes (writes_setNextPage hother _)
    intro _
    apply writes_setLeafItems hpage
  · intro parent items hitems
    apply Along.bind writes_composes (writes_internalAppend hother hitems)
    intro _
    apply writes_setInternalItems hpage

theorem writes_moveFirstToEnd (hpage : W (.page page)) (hother : W (.page other))
    (hP : ChildrenIn P t page) :
  Writes W P t (final (moveFirstToEnd page other t))
  := by
  apply writes_body hP
  · intro parent nextBrother items
    apply Along.bind writes_composes (writes_item _)
    intro _
    apply Along.bind writes_composes (writes_leafAppend hother _)
    intro _
    apply writes_setLeafItems hpage
  · intro parent items hitems
    apply writes_bind_item
    intro first hfirst
    apply Along.bind writes_composes
    · apply writes_internalAppend hother
      intro i hi
      rw [List.mem_singleton] at hi
      rw [hi]
      apply hitems first (List.mem_of_mem_head? hfirst)
    · intro _
      apply writes_setInternalItems hpage

theorem writes_moveLastToFront (hpage : W (.page page)) (hother : W (.page other))
    (hP : ChildrenIn P t page) :
  Writes W P t (final (moveLastToFront page other t))
  := by
  apply writes_body hP
  · intro parent nextBrother items
    apply Along.bind writes_composes (writes_item _)
    intro _
    apply Along.bind writes_composes (writes_leafPreappend hother _)
    intro _
    apply writes_setLeafItems hpage
  · intro parent items hitems
    apply writes_bind_item
    intro last hlast
    apply Along.bind writes_composes
    · apply writes_internalPreappend hother
      apply hitems last (List.mem_of_getLast? hlast)
    · intro _
      apply writes_setInternalItems hpage

end Moving

/-! ### Steps of the operations -/

section Operations

theorem ok_of_bind {x : Mtr K V α} {f : α → Mtr K V β} {b : β} (h : (x >>= f) t = .ok b t') :
  ∃ a s, x t = .ok a s ∧ f a s = .ok b t'
  := by
  change EStateM.bind x f t = _ at h
  rw [EStateM.bind] at h
  split at h
  · rename_i a s heq
    exact ⟨a, s, heq, h⟩
  · contradiction

theorem item_ok {x : Option α} {a : α} (h : (item x : Mtr K V α) t = .ok a t') :
  x = some a ∧ t' = t
  := by
  cases x with
  | none => contradiction
  | some _ =>
    cases h
    exact ⟨rfl, rfl⟩

theorem getInternal_ok {items : List (K × Int)} (h : getInternal page t = .ok items t') :
  t.body page = some (.internal items) ∧ t' = t
  := by
  obtain ⟨⟨parent, ⟨nextBrother, leafItems⟩ | items'⟩, s, hget, hrest⟩ := ok_of_bind h
  · contradiction
  · obtain ⟨hnode, rfl⟩ := getNode_ok hget
    cases hrest
    refine ⟨?_, rfl⟩
    rw [Tree.body, hnode]
    rfl

theorem getLeaf_ok {nextBrother : Int} {items : List (K × V)}
    (h : getLeaf page t = .ok (nextBrother, items) t') :
  t.body page = some (.leaf nextBrother items) ∧ t' = t
  := by
  obtain ⟨⟨parent, ⟨_, _⟩ | _⟩, s, hget, hrest⟩ := ok_of_bind h
  · obtain ⟨hnode, rfl⟩ := getNode_ok hget
    cases hrest
    refine ⟨?_, rfl⟩
    rw [Tree.body, hnode]
    rfl
  · contradiction

/-- What a computation does where it succeeds. -/
theorem writes_of_ok {x : Mtr K V α} {a : α} (h : Writes W P t (final (x t)))
    (hrun : x t = .ok a t') :
  Writes W P t t'
  := by
  rw [hrun] at h
  exact h

theorem ChildrenIn.congr (h : ChildrenIn P t page) (hbody : t'.body page = t.body page) :
  ChildrenIn P t' page
  := by
  intro items hitems
  rw [hbody] at hitems
  apply h items hitems

/-- Splitting a node writes it and a new one. -/
theorem split_ok {newPage : Int} (hrun : split page t = .ok newPage t')
    (hpage : W (.page page)) (hnew : t.body newPage = none → W (.page newPage) ∧ P newPage)
    (hP : ChildrenIn P t page) :
  t.body newPage = none ∧ Writes W P t t'
  := by
  obtain ⟨node, s, hget, hrest⟩ := ok_of_bind hrun
  obtain ⟨hnode, rfl⟩ := getNode_ok hget
  obtain ⟨newPage', t₁, halloc, hrest₁⟩ := ok_of_bind hrest
  obtain ⟨_, t₂, hset, hrest₂⟩ := ok_of_bind hrest₁
  obtain ⟨_, t₃, hmove, hrest₃⟩ := ok_of_bind hrest₂
  cases hrest₃
  have hfresh : s.body newPage = none := by
    cases halloc
    rw [Tree.body, Tree.node, PageFile.get_next]
    rfl
  obtain ⟨hWnew, hPnew⟩ := hnew hfresh
  have hsome : (s.body page).isSome := by
    rw [Tree.body, hnode]
    rfl
  have h₁ : Writes (fun x => x = .page newPage) (fun p => p = newPage) s t₂ :=
    (writes_of_ok (writes_allocatePage _ s) halloc).trans
      (writes_of_ok (writes_setParentPageNum (P := fun p => p = newPage) rfl _ t₁) hset)
  have hbody : t₂.body page = s.body page := by
    apply h₁.body page hsome
    intro heq
    cases heq
    rw [hfresh] at hsome
    contradiction
  refine ⟨hfresh, (h₁.mono ?_ ?_).trans
    (writes_of_ok (writes_moveHalfTo hpage hWnew (hP.congr hbody)) hmove)⟩
  · rintro x rfl
    exact hWnew
  · rintro p rfl
    exact hPnew

theorem writes_redistribute {neighborPage parentPage : Int} (index : Nat)
    (hneighbor : W (.page neighborPage)) (hpage : W (.page page)) (hparent : W (.page parentPage))
    (hP : ChildrenIn P t neighborPage) :
  Writes W P t (final (redistribute neighborPage page parentPage index t))
  := by
  have hkey : ∀ (page' : Int) (index : Nat), Along (Writes W P) (do
      let firstKey ← item ((← getNode page').body.keyAt 0)
      setKeyAt parentPage index firstKey : Mtr K V Unit) := by
    intro page' index
    apply Along.bind writes_composes writes_getNode
    intro _
    apply Along.bind writes_composes (writes_item _)
    intro _
    apply writes_setKeyAt hparent
  rw [redistribute]
  split_ifs
  · apply Along.bind_of_ok writes_composes (writes_moveFirstToEnd hneighbor hpage hP)
    intro _ s _
    apply hkey
  · apply Along.bind_of_ok writes_composes (writes_moveLastToFront hneighbor hpage hP)
    intro _ s _
    apply hkey

/-- Removing a child. -/
theorem internalRemove_ok {items : List (K × Int)} {index : Nat}
    (hbody : t.body page = some (.internal items)) (hrun : internalRemove page index t = .ok () t') :
  index < items.length ∧ t'.body page = some (.internal (items.eraseIdx index))
  := by
  by_cases hlt : index < items.length
  · obtain ⟨t₁, hrun₁, hsets⟩ := internalRemove_sets hbody hlt
    rw [hrun₁] at hrun
    cases hrun
    refine ⟨hlt, ?_⟩
    rw [hsets.body, Function.update_self]
  · obtain ⟨items', s, hget, hrest⟩ := ok_of_bind hrun
    obtain ⟨hbody', rfl⟩ := getInternal_ok hget
    obtain ⟨slot, s', hitem, -⟩ := ok_of_bind hrest
    rw [hbody, Option.some.injEq, Body.internal.injEq] at hbody'
    rw [← hbody', List.getElem?_eq_none (not_lt.mp hlt)] at hitem
    contradiction

/-- Merging two nodes, and then the call that checks their parent. -/
theorem coalesce_eq (check : Int → Mtr K V Unit) (neighborPage page parentPage : Int)
    (index : Nat) :
  coalesce check neighborPage page parentPage index
    = (do
      coalesce (fun _ => pure ()) neighborPage page parentPage index
      check parentPage)
  := by
  rw [coalesce, coalesce]
  split_ifs
  all_goals
    simp only [bind_assoc]
    apply bind_congr
    intro _
    apply bind_congr
    intro _
    apply bind_congr
    intro node
    split_ifs <;> simp only [bind_assoc, pure_bind]

/-- Merging two nodes, of which this is the left one, takes the right one out of their parent. -/
theorem mergeNodes_ok {left right parentPage : Int} {position : Nat} {items : List (K × Int)}
    (hrun : (do
        internalRemove parentPage position
        moveTo right left
        if (← getNode left).body.isLeaf then
          let (nextBrother, _) ← getLeaf right
          setNextPage left nextBrother
        disposePage right
        pure () : Mtr K V Unit) t = .ok () t')
    (hbody : t.body parentPage = some (.internal items)) (hleft : left ≠ parentPage)
    (hright : right ≠ parentPage) (hsome : (t.body right).isSome) (hP : ChildrenIn P t right) :
  position < items.length ∧ t'.body parentPage = some (.internal (items.eraseIdx position))
    ∧ Writes (fun x => x = .page parentPage ∨ x = .page left ∨ x = .page right) P t t'
  := by
  obtain ⟨_, t₁, hremove, hrest₁⟩ := ok_of_bind hrun
  obtain ⟨hlt, hbody₁⟩ := internalRemove_ok hbody hremove
  have hwrites₁ : Writes (fun x => x = .page parentPage) P t t₁ :=
    writes_of_ok (writes_internalRemove (W := fun x => x = .page parentPage) rfl _ t) hremove
  have hP₁ : ChildrenIn P t₁ right := by
    apply hP.congr
    apply hwrites₁.body right hsome
    intro heq
    cases heq
    contradiction
  have hwrites₂ : Writes (fun x => x = .page left ∨ x = .page right) P t₁ t' := by
    apply writes_of_ok _ hrest₁
    apply Along.bind_of_ok writes_composes (writes_moveTo (.inr rfl) (.inl rfl) hP₁)
    intro _ s _
    apply Along.bind writes_composes writes_getNode
    intro node
    split_ifs
    · apply Along.bind writes_composes writes_getLeaf
      intro _
      apply Along.bind writes_composes (writes_setNextPage (.inl rfl) _)
      intro _
      apply Along.bind writes_composes (writes_disposePage (.inr rfl))
      intro _
      apply Along.pure writes_composes
    · apply Along.bind writes_composes (writes_disposePage (.inr rfl))
      intro _
      apply Along.pure writes_composes
  refine ⟨hlt, ?_, ?_⟩
  · rw [hwrites₂.body parentPage (isSome_body_of_eq hbody₁), hbody₁]
    rintro (heq | heq)
    · cases heq
      contradiction
    · cases heq
      contradiction
  · exact (hwrites₁.mono (fun x hx => .inl hx) fun _ hp => hp).trans
      (hwrites₂.mono (fun x hx => .inr hx) fun _ hp => hp)

/-- Merging two nodes takes one of them out of their parent. -/
theorem coalesce_ok {neighborPage parentPage : Int} {index : Nat} {items : List (K × Int)}
    (hrun : coalesce (fun _ => pure ()) neighborPage page parentPage index t = .ok () t')
    (hbody : t.body parentPage = some (.internal items)) (hne : neighborPage ≠ parentPage)
    (hne' : page ≠ parentPage) (hsome : (t.body neighborPage).isSome)
    (hsome' : (t.body page).isSome) (hP : ChildrenIn P t neighborPage) (hP' : ChildrenIn P t page) :
  ∃ position < items.length, t'.body parentPage = some (.internal (items.eraseIdx position))
    ∧ Writes (fun x => x = .page parentPage ∨ x = .page neighborPage ∨ x = .page page) P t t'
  := by
  rw [coalesce] at hrun
  split_ifs at hrun with hindex
  · obtain ⟨hlt, hbody', hwrites⟩ := mergeNodes_ok hrun hbody hne' hne hsome hP
    refine ⟨_, hlt, hbody', hwrites.mono ?_ fun _ hp => hp⟩
    rintro x (hx | hx | hx)
    · exact .inl hx
    · exact .inr (.inr hx)
    · exact .inr (.inl hx)
  · obtain ⟨hlt, hbody', hwrites⟩ := mergeNodes_ok hrun hbody hne hne' hsome' hP'
    exact ⟨_, hlt, hbody', hwrites⟩

end Operations

end MiniOB.BplusTree
