import MiniOB.Index.Climbing
import MiniOB.Index.Refinement

/-!
# Latches cover every write

On its way down an operation holds on to the ancestors that its changes may come up to, and on
its way up it latches the neighbours. So it holds whatever it writes until it ends.
-/

namespace MiniOB.BplusTree

open Stateful Crabbing LowerBound Levels

variable {K V : Type} {c : Parameters K} {op : BplusTreeOperationType} {t t' : Tree K V}


/-! ### The way down -/

section Descent

variable {memo : LatchMemo} {page leaf : Int} {fuel : Nat} {qs : List Int} {S : Int → Prop}
  {childPageGetter : List (K × Int) → Option Int} {node : IndexNode K V}

theorem latchType_eq (hop : op ≠ .read) : op.latchType = .exclusive := by
  cases op with
  | read => contradiction
  | insert => rfl
  | delete => rfl

/-- Fetching a page latches it, and gives up all other latches if the node is safe. -/
theorem crabingProtocalFetchPage_ok (c : Parameters K) (memo : LatchMemo) (hop : op ≠ .read) (hnode : t.node page = some node) :
  ∃ memo', crabingProtocalFetchPage c op page (t.parent page = some invalidPageNum) memo t
      = .ok (node, memo') t
    ∧ memo'.exclusives
      = fetch (fun x => safeLatched c op t x = true) memo.exclusives (.page page)
  := by
  have hsafe : safeLatched c op t (.page page)
      = node.body.isSafe c op (t.parent page = some invalidPageNum) := by
    simp only [safeLatched, Tree.parent, hnode, Option.map_some, Option.some.injEq]
  have hstart : crabingProtocalFetchPage c op page (t.parent page = some invalidPageNum) memo t
      = (do
        if node.body.isSafe c op (t.parent page = some invalidPageNum) then releaseTo memo.length
        pure node : Latching K V (IndexNode K V))
          (memo ++ [⟨.pin, .page page⟩, ⟨.exclusive, .page page⟩]) t := by
    have hget : (get : Latching K V LatchMemo) memo t = .ok (memo, memo) t := rfl
    rw [crabingProtocalFetchPage, latching_bind hget, pinPage_bind, latch_bind,
      lift_bind (getNode_eq hnode), latchType_eq hop, List.append_assoc]
    rfl
  rw [hstart, fetch, hsafe]
  split_ifs
  · refine ⟨[⟨.pin, .page page⟩, ⟨.exclusive, .page page⟩], ?_, rfl⟩
    change EStateM.Result.ok (node, List.drop memo.length _) t = _
    rw [List.drop_left]
  · refine ⟨memo ++ [⟨.pin, .page page⟩, ⟨.exclusive, .page page⟩], rfl, ?_⟩
    rw [exclusives_append]
    rfl

/-- The way down to a leaf: it is held at the end, and so is what its changes may come up to. -/
theorem latchedDescend_ok (memo : LatchMemo) (hop : op ≠ .read)
    (hgetter : ∀ items child, childPageGetter items = some child → ∃ i ∈ items, i.2 = child)
    (hcons : Consistent t S qs) (hpage : S page) (hanc : Ancestors t page qs)
    (hcovered : Covered (parentLatched t) (fun x => safeLatched c op t x = true) memo.exclusives)
    (hheld : parentLatched t (.page page) ∈ memo.exclusives)
    (hrun : descend childPageGetter fuel page t = .ok leaf t') :
  t' = t ∧ ∃ held qs', latchedDescend c op childPageGetter fuel page
      (t.parent page = some invalidPageNum) memo t = .ok (leaf, held) t
    ∧ Covered (parentLatched t) (fun x => safeLatched c op t x = true) held.exclusives
    ∧ .page leaf ∈ held.exclusives ∧ Consistent t S qs' ∧ Ancestors t leaf qs'
  := by
  induction fuel generalizing page qs memo with
  | zero => contradiction
  | succ fuel ih =>
    rw [descend] at hrun
    obtain ⟨node, s, hget, hrest⟩ := ok_of_bind hrun
    obtain ⟨hnode, rfl⟩ := getNode_ok hget
    obtain ⟨memo', hfetch, hmemo'⟩ := crabingProtocalFetchPage_ok c memo hop hnode
    have hcovered' := hcovered.fetch hheld
    have hmem : Latched.page page ∈ memo'.exclusives := by
      rw [hmemo']
      apply mem_fetch
    rw [← hmemo'] at hcovered'
    rw [latchedDescend, latching_bind hfetch]
    obtain ⟨parent, ⟨nextBrother, items⟩ | items⟩ := node
    · cases hrest
      exact ⟨rfl, memo', qs, rfl, hcovered', hmem, hcons, hanc⟩
    · obtain ⟨child, s', hitem, hrest'⟩ := ok_of_bind hrest
      obtain ⟨hchild, rfl⟩ := item_ok hitem
      obtain ⟨i, hi, rfl⟩ := hgetter items child hchild
      have hbody : s'.body page = some (.internal items) := by
        rw [Tree.body, hnode]
        rfl
      have hvalid := ne_invalid_of_body (isSome_body_of_eq hbody)
      have hparent : s'.parent i.2 = some page := hcons.parent page hpage items hbody i hi
      have hcons' : Consistent s' S (page :: qs) := by
        refine ⟨hcons.child, hcons.parent, ?_⟩
        intro q hq
        rw [List.mem_cons] at hq
        obtain rfl | hq := hq
        · exact hpage
        · exact hcons.mem q hq
      have hheld' : parentLatched s' (.page i.2) ∈ memo'.exclusives := by
        rw [parentLatched_up hparent hvalid]
        exact hmem
      obtain ⟨ht, held, qs', hdescend, hrest⟩ := ih memo' hcons' (hcons.child page hpage items hbody i hi)
        (.up hparent hvalid hanc) hcovered' hheld' hrest'
      refine ⟨ht, held, qs', ?_, hrest⟩
      have hnotroot : decide (s'.parent i.2 = some invalidPageNum) = false := by
        rw [hparent, decide_eq_false_iff_not, Option.some.injEq]
        exact hvalid
      rw [hnotroot] at hdescend
      dsimp only
      rw [lift_bind hitem, hdescend]

variable [LinearOrder K] {key : K} {ls : List (Leaf K V)} {Us : List (Level K)}

/-- The nodes of a tree that is not empty. -/
theorem Represents.consistent (h : Represents c t ls Us) :
  Consistent t (fun p => p ∈ entryPages (ls.map Leaf.entry) ++ pages Us) []
  := by
  -- a page with an internal node is one of the pages of the levels
  have hbranch : ∀ q ∈ entryPages (ls.map Leaf.entry) ++ pages Us, ∀ items,
      t.body q = some (.internal items) → ∃ n ∈ Us.flatten, n.page = q ∧ n.slots = items := by
    intro q hq items hitems
    rw [List.mem_append] at hq
    obtain hq | hq := hq
    · obtain ⟨e, he, rfl⟩ := List.mem_map.mp hq
      obtain ⟨l, hl, rfl⟩ := List.mem_map.mp he
      obtain ⟨A, B, rfl⟩ := List.append_of_mem hl
      rw [Leaf.entry_snd, h.linked.body] at hitems
      cases hitems
    · obtain ⟨n, hn, rfl⟩ := List.mem_map.mp hq
      rw [(h.stands.holds n hn).body, Option.some.injEq, Body.internal.injEq] at hitems
      exact ⟨n, hn, rfl, hitems⟩
  refine ⟨?_, ?_, by simp⟩
  · intro q hq items hitems i hi
    obtain ⟨n, hn, rfl, rfl⟩ := hbranch q hq items hitems
    obtain ⟨item, hitem, rfl⟩ := List.mem_map.mp hi
    rw [List.mem_append]
    apply h.stands.tower.child_mem hn (List.mem_map_of_mem hitem)
  · intro q hq items hitems i hi
    obtain ⟨n, hn, rfl, rfl⟩ := hbranch q hq items hitems
    obtain ⟨item, hitem, rfl⟩ := List.mem_map.mp hi
    apply (h.stands.holds n hn).parent _ (List.mem_map_of_mem hitem)

/-- The search for a leaf with its latches. -/
theorem Represents.latchedFindLeaf (h : Represents c t ls Us) (hop : op ≠ .read)
    (hrun : BplusTree.findLeaf key t = .ok (some leaf) t') :
  t' = t ∧ ∃ held S qs, latchedFindLeaf c op key [] t = .ok (some leaf, held) t
    ∧ Covered (parentLatched t) (fun x => safeLatched c op t x = true) held.exclusives
    ∧ .page leaf ∈ held.exclusives ∧ Consistent t S qs ∧ Ancestors t leaf qs
  := by
  rw [BplusTree.findLeaf, findLeafInternal, run_bind run_get] at hrun
  split_ifs at hrun with hroot
  · cases hrun
  obtain ⟨page, s, hdescend, hrest⟩ := ok_of_bind hrun
  cases hrest
  have hparent : t.parent t.rootPage = some invalidPageNum := by
    rw [h.stands.root, h.stands.parent]
  have hmem : t.rootPage ∈ entryPages (ls.map Leaf.entry) ++ pages Us := by
    rw [h.stands.root]
    apply h.stands.tower.top_mem
  obtain ⟨ht, held, qs, hlatched, hcovered, hleaf, hcons, hanc⟩ :=
    latchedDescend_ok (c := c) [⟨.exclusive, .rootLock⟩] hop
      (fun items child hchild => by
        obtain ⟨i, hi, rfl⟩ := Option.map_eq_some_iff.mp hchild
        exact ⟨i, List.mem_of_getElem? hi, rfl⟩)
      h.consistent hmem (.root hparent)
      (by
        intro x hx hnotsafe
        obtain rfl := List.mem_singleton.mp hx
        exact absurd rfl hnotsafe)
      (by
        rw [parentLatched_root hparent]
        exact List.mem_singleton_self _)
      hdescend
  refine ⟨ht, held, _, qs, ?_, hcovered, hleaf, hcons, hanc⟩
  have hisroot : decide (t.parent t.rootPage = some invalidPageNum) = true := decide_eq_true hparent
  rw [hisroot] at hlatched
  rw [BplusTree.latchedFindLeaf, latchedFindLeafInternal, latch_bind, lift_bind run_get,
    if_neg hroot, latchType_eq hop]
  rw [List.nil_append, latching_bind hlatched]
  rfl

end Descent

/-! ### Whole operations -/

section Operations

/-- What the operation has changed from `t` to `t'` is held at its end. -/
structure Latches (t t' : Tree K V) (memo : LatchMemo) : Prop where
  page : ∀ page, (t.body page).isSome → t'.body page ≠ t.body page → .page page ∈ memo.exclusives
  rootLock : t'.rootPage ≠ t.rootPage → .rootLock ∈ memo.exclusives

/-- What is written is held. -/
theorem Writes.latches {W : Latched → Prop} {P : Int → Prop} (h : Writes W P t t')
    (memo : LatchMemo) (hW : ∀ x, W x → x ∈ memo.exclusives ∨ ∃ p, x = .page p ∧ t.body p = none) :
  Latches t t' memo
  := by
  constructor
  · intro page hsome hne
    by_contra hnot
    apply hne (h.body page hsome _)
    intro hmem
    obtain hheld | ⟨p, heq, hnone⟩ := hW _ hmem
    · contradiction
    · cases heq
      rw [hnone] at hsome
      contradiction
  · intro hne
    by_contra hnot
    apply hne (h.rootPage _)
    intro hmem
    obtain hheld | ⟨p, heq, -⟩ := hW _ hmem
    · contradiction
    · cases heq

variable [LinearOrder K] {key : K} {value : V} {rc : RC} {leaf : Int} {ls : List (Leaf K V)}
  {Us : List (Level K)}

omit [LinearOrder K] in
/-- The first entry of a tree writes a new leaf and the root. -/
theorem createNewTree_ok (hrun : createNewTree key value t = .ok rc t') :
  Writes (fun x => x = .rootLock ∨ ∃ p, x = .page p ∧ t.body p = none) (fun _ => True) t t'
  := by
  rw [createNewTree, run_bind run_get] at hrun
  split_ifs at hrun with hroot
  · cases hrun
    apply Writes.refl
  · obtain ⟨page, t₁, halloc, hrest⟩ := ok_of_bind hrun
    have hfree : t.body page = none := by
      cases halloc
      rw [Tree.body, Tree.node, PageFile.get_next]
      rfl
    apply (writes_of_ok (writes_allocatePage _ t) halloc).trans
    apply writes_of_ok _ hrest
    apply Along.bind writes_composes
    · apply writes_leafInsert
      exact .inr ⟨page, rfl, hfree⟩
    · intro _
      apply Along.bind writes_composes
      · apply writes_updateRootPageNum
        exact .inl rfl
      · intro _
        apply Along.pure writes_composes

theorem Represents.root_ne (h : Represents c t ls Us) : t.rootPage ≠ invalidPageNum := by
  rw [h.stands.root]
  apply ne_invalid_of_body (h.stands.isSome h.stands.tower.top_mem)

/-- Insertion into a tree that is not empty holds what it changes. -/
theorem Represents.latchedInsertEntry (h : Represents c t ls Us)
    (hrun : BplusTree.insertEntry c key value t = .ok rc t') :
  ∃ leaf held, BplusTree.latchedFindLeaf c .insert key [] t = .ok (some leaf, held) t
    ∧ BplusTree.latchedInsertEntry c key value [] t = .ok (rc, held) t' ∧ Latches t t' held
  := by
  obtain ⟨A, l, B, -, -, hfind⟩ := h.findLeaf key
  obtain ⟨-, held, S, qs, hlatched, hcovered, hleaf, hcons, hanc⟩ :=
    h.latchedFindLeaf (show BplusTreeOperationType.insert ≠ .read by decide) hfind
  have hroot := h.root_ne
  rw [BplusTree.insertEntry, run_bind run_get, if_neg hroot, run_bind hfind] at hrun
  refine ⟨l.page, held, hlatched, ?_, (writes_insertEntryIntoLeafNode hcons hanc hrun).latches held ?_⟩
  · rw [BplusTree.latchedInsertEntry, lift_bind run_get, if_neg hroot, latching_bind hlatched]
    exact lift_ok hrun
  · rintro x (hreaches | hfree)
    · exact .inl (hcovered.climbs hleaf hreaches)
    · exact .inr hfree

/-- Deletion from a tree that is not empty holds what it changes. -/
theorem Represents.latchedDeleteEntry (h : Represents c t ls Us)
    (hrun : BplusTree.deleteEntry c key t = .ok rc t') :
  ∃ leaf held more, BplusTree.latchedFindLeaf c .delete key [] t = .ok (some leaf, held) t
    ∧ BplusTree.latchedDeleteEntry c key [] t = .ok (rc, held ++ more) t'
    ∧ Latches t t' (held ++ more)
  := by
  obtain ⟨A, l, B, -, -, hfind⟩ := h.findLeaf key
  obtain ⟨-, held, S, qs, hlatched, hcovered, hleaf, hcons, hanc⟩ :=
    h.latchedFindLeaf (show BplusTreeOperationType.delete ≠ .read by decide) hfind
  rw [BplusTree.deleteEntry, run_bind hfind] at hrun
  obtain ⟨rc', t₁, hdelete, hrest⟩ := ok_of_bind hrun
  obtain ⟨_, t₂, hrelease, hrest'⟩ := ok_of_bind hrest
  cases hrest'
  obtain ⟨more, hlatched', hwrites⟩ := latched_deleteEntryInternal hcons hanc hdelete held
  refine ⟨l.page, held, more, hlatched, ?_, ?_⟩
  · rw [BplusTree.latchedDeleteEntry, latching_bind hlatched]
    dsimp only
    rw [latching_bind hlatched', lift_bind hrelease]
    rfl
  · have hheld : ∀ x, Reaches c .delete t l.page x ∨ x ∈ more.exclusives →
        x ∈ (held ++ more).exclusives := by
      intro x hx
      rw [exclusives_append, List.mem_append]
      apply hx.imp_left
      apply hcovered.climbs hleaf
    have hlatches := hwrites.latches (held ++ more) fun x hx => .inl (hheld x hx)
    obtain ⟨t₃, hrelease', hroot, -, hbody, -⟩ := release_run (t := t₁)
    rw [hrelease] at hrelease'
    cases hrelease'
    constructor
    · intro page hsome hne
      by_cases hdisposed : page ∈ t₁.disposedPages
      · obtain hmem | hmem := hwrites.disposed page hdisposed
        · rw [h.disposed] at hmem
          contradiction
        · exact hheld _ hmem
      · rw [(hbody page hdisposed).1] at hne
        apply hlatches.page page hsome hne
    · intro hne
      rw [hroot] at hne
      apply hlatches.rootLock hne

end Operations

/-! ### Every call -/

section Calls

variable {U : Type} [LinearOrder (Key U)]

/-- The way down of a call, with its latches. -/
def Call.latchedFindLeaf (c : Parameters (Key U)) : Call U → Latching (Key U) RID (Option Int)
  | .insertEntry userKey rid => BplusTree.latchedFindLeaf c .insert ⟨userKey, rid⟩
  | .deleteEntry userKey rid => BplusTree.latchedFindLeaf c .delete ⟨userKey, rid⟩

/-- The call, with its latches. -/
def Call.latchedExec (c : Parameters (Key U)) : Call U → Latching (Key U) RID RC
  | .insertEntry userKey rid => latchedInsertEntry c ⟨userKey, rid⟩ rid
  | .deleteEntry userKey rid => latchedDeleteEntry c ⟨userKey, rid⟩

variable {c : Parameters (Key U)} {t t' : Tree (Key U) RID} {call : Call U} {rc : RC}

/-- A call of an empty tree holds the lock of the root. -/
theorem Vacant.latchedExec (h : Vacant t) (hrun : call.exec c t = .ok rc t') :
  call.latchedExec c [] t = .ok (rc, [⟨.exclusive, .rootLock⟩]) t'
  := by
  cases call with
  | insertEntry userKey rid =>
    rw [Call.exec, BplusTree.insertEntry, run_bind run_get, if_pos h.root] at hrun
    rw [Call.latchedExec, latchedInsertEntry, lift_bind run_get, if_pos h.root, latch_bind]
    exact lift_ok hrun
  | deleteEntry userKey rid =>
    rw [Call.exec, h.deleteEntry] at hrun
    cases hrun
    have hfind : BplusTree.latchedFindLeaf c .delete ⟨userKey, rid⟩ [] t
        = .ok (none, [⟨.exclusive, .rootLock⟩]) t := by
      rw [BplusTree.latchedFindLeaf, latchedFindLeafInternal, latch_bind, lift_bind run_get,
        if_pos h.root]
      rfl
    rw [Call.latchedExec, latchedDeleteEntry, latching_bind hfind]
    rfl

theorem Vacant.latches (h : Vacant t) (hrun : call.exec c t = .ok rc t') :
  Latches t t' [⟨.exclusive, .rootLock⟩]
  := by
  cases call with
  | insertEntry userKey rid =>
    rw [Call.exec, BplusTree.insertEntry, run_bind run_get, if_pos h.root] at hrun
    apply (createNewTree_ok hrun).latches [⟨.exclusive, .rootLock⟩]
    rintro x (rfl | hfree)
    · exact .inl (List.mem_singleton_self _)
    · exact .inr hfree
  | deleteEntry userKey rid =>
    rw [Call.exec, h.deleteEntry] at hrun
    cases hrun
    exact ⟨fun _ _ hne => absurd rfl hne, fun hne => absurd rfl hne⟩

/-- After any calls on a new tree, whatever a further call changes of the nodes that there are
is latched exclusively from its way down, or the fetching of a neighbour, to its end, and so is
the root if it changes. -/
theorem latches_cover_writes (c : Parameters (Key U)) (hleafMax : 4 ≤ c.leafMaxSize)
    (hmax : 6 ≤ c.internalMaxSize) (calls : List (Call U)) (call : Call U) :
  ∃ rcs t rc t' held more, execAll c calls Tree.create = .ok rcs t ∧ call.exec c t = .ok rc t'
    ∧ call.latchedExec c [] t = .ok (rc, held ++ more) t'
    ∧ (t.rootPage ≠ invalidPageNum →
      ∃ leaf, call.latchedFindLeaf c [] t = .ok (some leaf, held) t)
    ∧ Latches t t' (held ++ more)
  := by
  obtain ⟨t, hrun, hrefines⟩ := (create_refines (c := c)).execAll hmax hleafMax calls
  obtain ⟨t', hexec, -, -⟩ := hrefines.exec hmax hleafMax call
  refine ⟨(applyAll calls ∅).1, t, (call.apply (applyAll calls ∅).2).1, t', ?_⟩
  obtain ⟨hvacant, -⟩ | ⟨ls, Us, hrep, -, -⟩ := hrefines
  · have hroot : ¬ t.rootPage ≠ invalidPageNum := not_not.mpr hvacant.root
    refine ⟨[⟨.exclusive, .rootLock⟩], [], hrun, hexec, ?_, fun hne => absurd hne hroot, ?_⟩
    · rw [List.append_nil]
      apply hvacant.latchedExec hexec
    · rw [List.append_nil]
      apply hvacant.latches hexec
  · cases call with
    | insertEntry userKey rid =>
      obtain ⟨leaf, held, hfind, hlatched, hlatches⟩ := hrep.latchedInsertEntry hexec
      refine ⟨held, [], hrun, hexec, ?_, fun _ => ⟨leaf, hfind⟩, ?_⟩
      · rw [List.append_nil]
        exact hlatched
      · rw [List.append_nil]
        exact hlatches
    | deleteEntry userKey rid =>
      obtain ⟨leaf, held, more, hfind, hlatched, hlatches⟩ := hrep.latchedDeleteEntry hexec
      exact ⟨held, more, hrun, hexec, hlatched, fun _ => ⟨leaf, hfind⟩, hlatches⟩

/-- The sixth entry of a tree with leaves of four entries. -/
theorem latches_cover_writes_six :
  ∃ rcs t rc t' held more, @execAll Nat Key.lexOrder ⟨6, 4, ⟨0, ⟨0, 0⟩⟩⟩
      [.insertEntry 1 ⟨1, 1⟩, .insertEntry 2 ⟨1, 2⟩, .insertEntry 3 ⟨1, 3⟩, .insertEntry 4 ⟨1, 4⟩,
        .insertEntry 5 ⟨1, 5⟩] Tree.create = .ok rcs t
    ∧ @Call.latchedExec Nat Key.lexOrder ⟨6, 4, ⟨0, ⟨0, 0⟩⟩⟩ (.insertEntry 6 ⟨1, 6⟩) [] t
      = .ok (rc, held ++ more) t'
    ∧ Latches t t' (held ++ more)
  := by
  obtain ⟨rcs, t, rc, t', held, more, hrun, -, hlatched, -, hlatches⟩ :=
    @latches_cover_writes Nat Key.lexOrder ⟨6, 4, ⟨0, ⟨0, 0⟩⟩⟩ (by decide) (by decide)
      [.insertEntry 1 ⟨1, 1⟩, .insertEntry 2 ⟨1, 2⟩, .insertEntry 3 ⟨1, 3⟩, .insertEntry 4 ⟨1, 4⟩,
        .insertEntry 5 ⟨1, 5⟩] (.insertEntry 6 ⟨1, 6⟩)
  exact ⟨rcs, t, rc, t', held, more, hrun, hlatched, hlatches⟩

end Calls

end MiniOB.BplusTree
