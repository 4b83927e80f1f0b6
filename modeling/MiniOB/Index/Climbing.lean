import MiniOB.Index.Footprint

/-!
# How far changes climb

An operation changes a leaf, and from there the ancestors, one after the other, as long as the
node that it comes from was not safe before.
-/

namespace MiniOB.BplusTree

open Stateful Crabbing

variable {K V α : Type} {t t₀ t₁ t' : Tree K V} {page q x : Int} {qs : List Int}

/-! ### Ancestors -/

/-- The ancestors of a node, up to the root. -/
inductive Ancestors (t : Tree K V) : Int → List Int → Prop
  | root {page : Int} : t.parent page = some invalidPageNum → Ancestors t page []
  | up {page q : Int} {qs : List Int} : t.parent page = some q → q ≠ invalidPageNum →
    Ancestors t q qs → Ancestors t page (q :: qs)

/-- The nodes on the pages `S`, the nodes `qs` among them, have their children there, and the
children have them as their parents. -/
structure Consistent (t : Tree K V) (S : Int → Prop) (qs : List Int) : Prop where
  child : ∀ q, S q → ChildrenIn S t q
  parent : ∀ q, S q → ChildrenIn (fun x => t.parent x = some q) t q
  mem : ∀ q ∈ qs, S q

theorem Consistent.tail {S : Int → Prop} (h : Consistent t S (q :: qs)) : Consistent t S qs :=
  ⟨h.child, h.parent, fun x hx => h.mem x (List.mem_cons_of_mem _ hx)⟩

theorem Consistent.head {S : Int → Prop} (h : Consistent t S (q :: qs)) : S q :=
  h.mem q List.mem_cons_self

namespace Ancestors

theorem unique {qs' : List Int} (h : Ancestors t page qs) (h' : Ancestors t page qs') : qs = qs' := by
  induction h generalizing qs' with
  | root hparent =>
    cases h' with
    | root => rfl
    | up hparent' hvalid' =>
      rw [hparent, Option.some.injEq] at hparent'
      exact absurd hparent'.symm hvalid'
  | up hparent hvalid _ ih =>
    cases h' with
    | root hparent' =>
      rw [hparent, Option.some.injEq] at hparent'
      contradiction
    | up hparent' _ h' =>
      rw [hparent, Option.some.injEq] at hparent'
      subst hparent'
      rw [ih h']

/-- The ancestors of an ancestor. -/
theorem of_mem (h : Ancestors t page qs) (hx : x ∈ qs) :
  ∃ xs, Ancestors t x xs ∧ xs.length < qs.length ∧ xs ⊆ qs
  := by
  induction h with
  | root => contradiction
  | @up page q qs _ _ h ih =>
    rw [List.mem_cons] at hx
    obtain rfl | hx := hx
    · exact ⟨qs, h, by simp, List.subset_cons_self _ _⟩
    · obtain ⟨xs, hxs, hlt, hsub⟩ := ih hx
      refine ⟨xs, hxs, ?_, List.subset_cons_of_subset _ hsub⟩
      rw [List.length_cons]
      omega

/-- A node is not among its ancestors. -/
theorem not_mem (h : Ancestors t page qs) : page ∉ qs := by
  intro hmem
  obtain ⟨xs, hxs, hlt, -⟩ := h.of_mem hmem
  rw [hxs.unique h] at hlt
  exact absurd hlt (lt_irrefl _)

theorem mem_of_parent (h : Ancestors t page qs) (hparent : t.parent page = some q)
    (hq : q ≠ invalidPageNum) :
  q ∈ qs
  := by
  cases h with
  | root hroot =>
    rw [hparent, Option.some.injEq] at hroot
    contradiction
  | up hparent' =>
    rw [hparent, Option.some.injEq] at hparent'
    subst hparent'
    apply List.mem_cons_self

/-- Upwards of an ancestor there are ancestors. -/
theorem parent_mem (h : Ancestors t page qs) (hx : x ∈ qs) (hparent : t.parent x = some q)
    (hq : q ≠ invalidPageNum) :
  q ∈ qs
  := by
  obtain ⟨xs, hxs, -, hsub⟩ := h.of_mem hx
  cases hxs with
  | root hroot =>
    rw [hparent, Option.some.injEq] at hroot
    contradiction
  | up hparent' =>
    rw [hparent, Option.some.injEq] at hparent'
    subst hparent'
    apply hsub List.mem_cons_self

/-- A node is not its own parent. -/
theorem parent_ne (h : Ancestors t page qs) (hpage : page ≠ invalidPageNum) :
  t.parent page ≠ some page
  := fun hself => h.not_mem (h.mem_of_parent hself hpage)

theorem isSome (h : Ancestors t page qs) (hx : x ∈ qs) : (t.body x).isSome := by
  obtain ⟨xs, hxs, -, -⟩ := h.of_mem hx
  cases hxs with
  | root hparent => apply isSome_body_of_parent hparent
  | up hparent => apply isSome_body_of_parent hparent

end Ancestors

/-! ### What is above -/

/-- The node is one of the nodes `qs`, or a child of one. -/
def Above (t : Tree K V) (qs : List Int) (x : Int) : Prop := x ∈ qs ∨ ∃ q ∈ qs, t.parent x = some q

theorem Above.isSome (h : Above t qs x) (hanc : Ancestors t page qs) : (t.body x).isSome := by
  obtain hx | ⟨q, _, hparent⟩ := h
  · apply hanc.isSome hx
  · apply isSome_body_of_parent hparent

theorem Above.cons (h : Above t qs x) : Above t (q :: qs) x :=
  h.imp (List.mem_cons_of_mem _) fun ⟨q, hq, hparent⟩ => ⟨q, List.mem_cons_of_mem _ hq, hparent⟩

/-- A node is not above itself. -/
theorem not_above_self (h : Ancestors t page (q :: qs)) : ¬ Above t qs page := by
  have hnot := h.not_mem
  cases h with
  | up hparent _ h =>
    rintro (hmem | ⟨q', hq', hparent'⟩)
    · apply hnot (List.mem_cons_of_mem _ hmem)
    · rw [hparent, Option.some.injEq] at hparent'
      subst hparent'
      apply h.not_mem hq'

/-- What hangs below a node that is not among the ancestors is not above. -/
theorem not_above_of_parent {r : Int} (h : Ancestors t q qs) (hparent : t.parent x = some r)
    (hr : r ≠ invalidPageNum) (hnot : r ∉ qs) :
  ¬ Above t qs x
  := by
  rintro (hmem | ⟨q', hq', hparent'⟩)
  · apply hnot (h.parent_mem hmem hparent hr)
  · rw [hparent, Option.some.injEq] at hparent'
    subst hparent'
    contradiction

/-- From `t₀` to `t` nothing has changed above the node `page`, whose ancestors are `qs`. -/
structure Untouched (t₀ t : Tree K V) (page : Int) (qs : List Int) : Prop where
  isSome : ∀ x, (t₀.body x).isSome → (t.body x).isSome
  body : ∀ x, Above t₀ qs x → x ≠ page → t.body x = t₀.body x
  parent : ∀ x, Above t₀ qs x → t.parent x = t₀.parent x
  self : t.parent page = t₀.parent page

/-- Whatever has been written at a node and below it, nothing has changed above. -/
theorem Untouched.up {W : Latched → Prop} {P : Int → Prop} (h : Untouched t₀ t page (q :: qs))
    (hanc : Ancestors t₀ page (q :: qs)) (hwrites : Writes W P t t₁)
    (hW : ∀ x, Above t₀ qs x → x ≠ q → ¬ W (.page x)) (hP : ∀ x, Above t₀ qs x → ¬ P x)
    (hq : ¬ P q) :
  Untouched t₀ t₁ q qs
  := by
  have hsome : ∀ x, Above t₀ (q :: qs) x → (t.body x).isSome := by
    intro x hx
    apply h.isSome x (hx.isSome hanc)
  have hqabove : Above t₀ (q :: qs) q := .inl List.mem_cons_self
  refine ⟨fun x hx => hwrites.isSome x (h.isSome x hx), ?_, ?_, ?_⟩
  · intro x hx hne
    rw [hwrites.body x (hsome x hx.cons) (hW x hx hne), h.body x hx.cons]
    rintro rfl
    apply not_above_self hanc hx
  · intro x hx
    rw [hwrites.parent x (hsome x hx.cons) (hP x hx), h.parent x hx.cons]
  · rw [hwrites.parent q (hsome q hqabove) hq, h.parent q hqabove]

/-! ### What is written -/

/-- The parent of a node; that of the root is the lock. -/
def parentLatched (t : Tree K V) : Latched → Latched
  | .rootLock => .rootLock
  | .page page =>
    match t.parent page with
    | none => .rootLock
    | some q => if q = invalidPageNum then .rootLock else .page q

/-- Is a node safe, where it is? -/
def safeLatched (c : Parameters K) (op : BplusTreeOperationType) (t : Tree K V) : Latched → Bool
  | .rootLock => true
  | .page page =>
    match t.node page with
    | none => true
    | some node => node.body.isSafe c op (node.parent = invalidPageNum)

/-- The changes at a leaf come up to the node or the lock. -/
abbrev Reaches (c : Parameters K) (op : BplusTreeOperationType) (t : Tree K V) (leaf : Int) :
    Latched → Prop :=
  Climbs (parentLatched t) (fun x => safeLatched c op t x = true) (.page leaf)

section Reaches

variable {c : Parameters K} {op : BplusTreeOperationType} {leaf : Int} {body : Body K V}

theorem parentLatched_root (h : t.parent page = some invalidPageNum) :
  parentLatched t (.page page) = .rootLock
  := by
  simp only [parentLatched, h, if_true]

theorem parentLatched_up (h : t.parent page = some q) (hq : q ≠ invalidPageNum) :
  parentLatched t (.page page) = .page q
  := by
  simp only [parentLatched, h, if_neg hq]

theorem Reaches.root (h : Reaches c op t leaf (.page page))
    (hnotsafe : ¬ safeLatched c op t (.page page) = true)
    (hparent : t.parent page = some invalidPageNum) :
  Reaches c op t leaf .rootLock
  := by
  have hup := h.up hnotsafe
  rwa [parentLatched_root hparent] at hup

theorem Reaches.parent (h : Reaches c op t leaf (.page page))
    (hnotsafe : ¬ safeLatched c op t (.page page) = true)
    (hparent : t.parent page = some q) (hq : q ≠ invalidPageNum) :
  Reaches c op t leaf (.page q)
  := by
  have hup := h.up hnotsafe
  rwa [parentLatched_up hparent hq] at hup

theorem safeLatched_eq (hbody : t.body page = some body) (hparent : t.parent page = some q) :
  safeLatched c op t (.page page) = body.isSafe c op (q = invalidPageNum)
  := by
  obtain ⟨parent, hnode, hparent'⟩ := node_of_body hbody
  rw [hparent, Option.some.injEq] at hparent'
  subst hparent'
  simp only [safeLatched, hnode]

/-- A node is safe for insertion if it has room. -/
theorem not_safe_insert (hbody : t.body page = some body) (hparent : t.parent page = some q)
    (hfull : body.maxSize c ≤ body.size) :
  ¬ safeLatched c .insert t (.page page) = true
  := by
  rw [safeLatched_eq hbody hparent, Body.isSafe, decide_eq_true_eq]
  omega

end Reaches

/-! ### Insertion -/

section Insertion

variable [LinearOrder K] {c : Parameters K} {leaf newPage : Int} {key : K} {fuel : Nat}

omit [LinearOrder K] in
/-- What is done while a node is split, and its parent with it, does not come up further. -/
theorem Untouched.split {W : Latched → Prop} {P : Int → Prop}
    (h : Untouched t₀ t page (q :: qs)) (hanc : Ancestors t₀ page (q :: qs))
    (hwrites : Writes W P t t₁) (hW : ∀ x, W (.page x) → x = q ∨ t₀.body x = none)
    (hP : ∀ x, P x → t₀.parent x = some q ∨ t₀.body x = none) :
  Untouched t₀ t₁ q qs
  := by
  have hq : Ancestors t₀ q qs ∧ q ≠ invalidPageNum := by
    cases hanc with
    | up _ hvalid hanc => exact ⟨hanc, hvalid⟩
  have hsome : (t₀.body q).isSome := hanc.isSome List.mem_cons_self
  apply h.up hanc hwrites
  · intro x hx hne hmem
    obtain rfl | hnone := hW x hmem
    · contradiction
    · have hxsome := hx.isSome hq.1
      rw [hnone] at hxsome
      contradiction
  · intro x hx hmem
    obtain hparent | hnone := hP x hmem
    · exact not_above_of_parent hq.1 hparent hq.2 hq.1.not_mem hx
    · have hxsome := hx.isSome hq.1
      rw [hnone] at hxsome
      contradiction
  · intro hmem
    obtain hparent | hnone := hP q hmem
    · exact hq.1.parent_ne hq.2 hparent
    · rw [hnone] at hsome
      contradiction

/-- What the changes at a leaf come up to, and pages that have been free. -/
def ReachesOrFree (c : Parameters K) (t₀ : Tree K V) (leaf : Int) (x : Latched) : Prop :=
  Reaches c .insert t₀ leaf x ∨ ∃ p, x = .page p ∧ t₀.body p = none

omit [LinearOrder K] in
theorem ReachesOrFree.free (h : t₀.body page = none) : ReachesOrFree c t₀ leaf (.page page) :=
  .inr ⟨page, rfl, h⟩

/-- Entering a new node into one of the halves of a node that has been split. -/
theorem enter_half_ok {W : Latched → Prop} {P : Int → Prop} {newParent z : Int}
    (hrun : (do
      internalInsert z key newPage
      setParentPageNum newPage z
      let firstKey ← item ((← getNode newParent).body.keyAt 0)
      insertEntryIntoParent c fuel q newParent firstKey : Mtr K V Unit) t = .ok () t')
    (hz : W (.page z)) (hnew : P newPage) :
  ∃ key' t₁, Writes W P t t₁ ∧ insertEntryIntoParent c fuel q newParent key' t₁ = .ok () t'
  := by
  obtain ⟨_, t₁, hinsert, hrest₁⟩ := ok_of_bind hrun
  obtain ⟨_, t₂, hset, hrest₂⟩ := ok_of_bind hrest₁
  obtain ⟨node, s, hget, hrest₃⟩ := ok_of_bind hrest₂
  obtain ⟨-, rfl⟩ := getNode_ok hget
  obtain ⟨firstKey, s', hitem, hrest₄⟩ := ok_of_bind hrest₃
  obtain ⟨-, rfl⟩ := item_ok hitem
  exact ⟨firstKey, s', (writes_of_ok (writes_internalInsert hz _ _ t) hinsert).trans
    (writes_of_ok (writes_setParentPageNum hnew _ t₁) hset), hrest₄⟩

/-- What entering a node into its parent does: a new root, a new item in the parent, or two
halves of the parent, the right one of which is to be entered in turn. -/
theorem insertEntryIntoParent_ok (hrun : insertEntryIntoParent c (fuel + 1) page newPage key t
      = .ok () t') :
  (t.parent page = some invalidPageNum ∧ Writes (fun x => x = .rootLock) (fun _ => True) t t')
    ∨ ∃ q items, t.parent page = some q ∧ t.body q = some (.internal items)
      ∧ (Writes (fun x => x = .page q) (fun _ => True) t t'
        ∨ c.internalMaxSize ≤ items.length ∧ ∃ newParent key' t₁, t.body newParent = none
          ∧ Writes (fun x => x = .page q ∨ x = .page newParent)
              (fun x => x = newParent ∨ x = newPage ∨ ∃ i ∈ items, i.2 = x) t t₁
          ∧ insertEntryIntoParent c fuel q newParent key' t₁ = .ok () t')
  := by
  rw [insertEntryIntoParent] at hrun
  obtain ⟨node, s, hget, hrest⟩ := ok_of_bind hrun
  obtain ⟨hnode, rfl⟩ := getNode_ok hget
  have hparent : s.parent page = some node.parent := by
    rw [Tree.parent, hnode]
    rfl
  dsimp only at hrest
  split_ifs at hrest with hroot
  · left
    refine ⟨by rw [hparent, hroot], writes_of_ok ?_ hrest⟩
    apply Along.bind writes_composes (writes_allocatePage _)
    intro _
    apply Along.bind writes_composes (writes_setParentPageNum trivial _)
    intro _
    apply Along.bind writes_composes (writes_setParentPageNum trivial _)
    intro _
    apply writes_updateRootPageNum
    rfl
  · right
    obtain ⟨items, s', hget', hrest'⟩ := ok_of_bind hrest
    obtain ⟨hbody, rfl⟩ := getInternal_ok hget'
    refine ⟨node.parent, items, hparent, hbody, ?_⟩
    split_ifs at hrest' with hroom
    · left
      apply writes_of_ok _ hrest'
      apply Along.bind writes_composes
      · apply writes_internalInsert
        rfl
      · intro _
        apply writes_setParentPageNum trivial
    · right
      refine ⟨not_lt.mp hroom, ?_⟩
      obtain ⟨newParent, t₁, hsplit, hrest₁⟩ := ok_of_bind hrest'
      let W : Latched → Prop := fun x => x = .page node.parent ∨ x = .page newParent
      let P : Int → Prop := fun x => x = newParent ∨ x = newPage ∨ ∃ i ∈ items, i.2 = x
      have hP : ChildrenIn P s' node.parent := by
        intro items' hitems' i hi
        rw [hbody, Option.some.injEq, Body.internal.injEq] at hitems'
        subst hitems'
        exact .inr (.inr ⟨i, hi, rfl⟩)
      obtain ⟨hfresh, hwrites₁⟩ := split_ok (W := W) hsplit (.inl rfl)
        (fun _ => ⟨.inr rfl, .inl rfl⟩) hP
      obtain ⟨node', s, hget₁, hrest₂⟩ := ok_of_bind hrest₁
      obtain ⟨-, rfl⟩ := getNode_ok hget₁
      obtain ⟨firstKey, s, hitem, hrest₃⟩ := ok_of_bind hrest₂
      obtain ⟨-, rfl⟩ := item_ok hitem
      split_ifs at hrest₃
      · obtain ⟨key', t₂, hwrites₂, hrun'⟩ := enter_half_ok (W := W) (P := P) hrest₃
          (.inr rfl) (.inr (.inl rfl))
        exact ⟨newParent, key', t₂, hfresh, hwrites₁.trans hwrites₂, hrun'⟩
      · obtain ⟨key', t₂, hwrites₂, hrun'⟩ := enter_half_ok (W := W) (P := P) hrest₃
          (.inl rfl) (.inr (.inl rfl))
        exact ⟨newParent, key', t₂, hfresh, hwrites₁.trans hwrites₂, hrun'⟩

/-- Entering a node into its parent, and so on upwards. -/
theorem writes_insertEntryIntoParent {S : Int → Prop} (hcons : Consistent t₀ S qs)
    (hanc : Ancestors t₀ page qs)
    (huntouched : Untouched t₀ t page qs) (hreaches : Reaches c .insert t₀ leaf (.page page))
    (hnotsafe : ¬ safeLatched c .insert t₀ (.page page) = true) (hnew : t₀.body newPage = none)
    (hrun : insertEntryIntoParent c fuel page newPage key t = .ok () t') :
  Writes (ReachesOrFree c t₀ leaf) (fun _ => True) t t'
  := by
  induction fuel generalizing t page newPage key qs with
  | zero => contradiction
  | succ fuel ih =>
    obtain ⟨hroot, hwrites⟩ | ⟨q, items, hparent, hbody, hcases⟩ := insertEntryIntoParent_ok hrun
    · rw [huntouched.self] at hroot
      apply hwrites.mono _ fun _ _ => trivial
      rintro x rfl
      exact .inl (hreaches.root hnotsafe hroot)
    · rw [huntouched.self] at hparent
      have hvalid := ne_invalid_of_body (isSome_body_of_eq hbody)
      have hq : Reaches c .insert t₀ leaf (.page q) := hreaches.parent hnotsafe hparent hvalid
      obtain hwrites | ⟨hfull, newParent, key', t₁, hfresh, hwrites, hrun'⟩ := hcases
      · apply hwrites.mono _ fun _ _ => trivial
        rintro x rfl
        exact .inl hq
      · have hanc' := hanc
        cases hanc with
        | root hroot =>
          rw [hparent, Option.some.injEq] at hroot
          contradiction
        | @up _ q' qs hup _ hanc =>
          rw [hparent, Option.some.injEq] at hup
          subst hup
          have hbody₀ : t₀.body q = some (.internal items) := by
            rw [← huntouched.body q (.inl List.mem_cons_self), hbody]
            rintro rfl
            apply hanc'.not_mem List.mem_cons_self
          have hfree : t₀.body newParent = none := by
            by_contra hsome
            have hsome' := huntouched.isSome newParent (Option.isSome_iff_ne_none.mpr hsome)
            rw [hfresh] at hsome'
            contradiction
          have huntouched' : Untouched t₀ t₁ q qs := by
            apply huntouched.split hanc' hwrites
            · rintro x (hx | hx)
              · cases hx
                exact .inl rfl
              · cases hx
                exact .inr hfree
            · rintro x (rfl | rfl | ⟨i, hi, rfl⟩)
              · exact .inr hfree
              · exact .inr hnew
              · exact .inl (hcons.parent q hcons.head items hbody₀ i hi)
          obtain ⟨w, -, hw⟩ := node_of_body hbody₀
          have hnotsafe' := not_safe_insert (c := c) hbody₀ hw hfull
          apply Writes.trans _ (ih hcons.tail hanc huntouched' hq hnotsafe' hfree hrun')
          apply hwrites.mono _ fun _ _ => trivial
          rintro x (rfl | rfl)
          · exact .inl hq
          · exact .free hfree

/-- Entering an entry into one of the halves of a leaf that has been split. -/
theorem enter_leaf_ok {W : Latched → Prop} {P : Int → Prop} {z : Int} {index : Nat} {value : V}
    {rc : RC} (hrun : (do
      leafInsert z index key value
      let firstKey ← item ((← getNode newPage).body.keyAt 0)
      insertEntryIntoParent c (← get).pages.length page newPage firstKey
      pure .success : Mtr K V RC) t = .ok rc t')
    (hz : W (.page z)) :
  ∃ key' fuel t₁, Writes W P t t₁ ∧ insertEntryIntoParent c fuel page newPage key' t₁ = .ok () t'
  := by
  obtain ⟨_, t₁, hinsert, hrest₁⟩ := ok_of_bind hrun
  obtain ⟨node, s, hget, hrest₂⟩ := ok_of_bind hrest₁
  obtain ⟨-, rfl⟩ := getNode_ok hget
  obtain ⟨firstKey, s', hitem, hrest₃⟩ := ok_of_bind hrest₂
  obtain ⟨-, rfl⟩ := item_ok hitem
  obtain ⟨t₂, s'', hget', hrest₄⟩ := ok_of_bind hrest₃
  cases hget'
  obtain ⟨_, t₃, henter, hrest₅⟩ := ok_of_bind hrest₄
  cases hrest₅
  exact ⟨firstKey, _, s', writes_of_ok (writes_leafInsert hz _ _ _ t) hinsert, henter⟩

/-- What entering an entry into a leaf does: nothing, a new item, or two halves of the leaf, the
right one of which is to be entered into the parent. -/
theorem insertEntryIntoLeafNode_ok {value : V} {rc : RC}
    (hrun : insertEntryIntoLeafNode c page key value t = .ok rc t') :
  ∃ nextBrother items, t.body page = some (.leaf nextBrother items)
    ∧ (Writes (fun x => x = .page page) (fun _ => False) t t'
      ∨ c.leafMaxSize ≤ items.length ∧ ∃ newPage key' fuel t₁, t.body newPage = none
        ∧ Writes (fun x => x = .page page ∨ x = .page newPage) (fun x => x = newPage) t t₁
        ∧ insertEntryIntoParent c fuel page newPage key' t₁ = .ok () t')
  := by
  rw [insertEntryIntoLeafNode] at hrun
  obtain ⟨⟨nextBrother, items⟩, s, hget, hrest⟩ := ok_of_bind hrun
  obtain ⟨hbody, rfl⟩ := getLeaf_ok hget
  refine ⟨nextBrother, items, hbody, ?_⟩
  dsimp only at hrest
  split_ifs at hrest with hfound hroom
  · left
    apply writes_of_ok _ hrest
    apply Along.pure writes_composes
  · left
    apply writes_of_ok _ hrest
    apply Along.bind writes_composes
    · apply writes_leafInsert
      rfl
    · intro _
      apply Along.pure writes_composes
  · right
    refine ⟨not_lt.mp hroom, ?_⟩
    obtain ⟨newPage, t₁, hsplit, hrest₁⟩ := ok_of_bind hrest
    let W : Latched → Prop := fun x => x = .page page ∨ x = .page newPage
    let P : Int → Prop := fun x => x = newPage
    have hP : ChildrenIn P s page := by
      intro items' hitems'
      rw [hbody] at hitems'
      cases hitems'
    obtain ⟨hfresh, hwrites₁⟩ := split_ok (W := W) (P := P) hsplit (.inl rfl)
      (fun _ => ⟨.inr rfl, rfl⟩) hP
    obtain ⟨⟨next, left⟩, s₁, hget₁, hrest₂⟩ := ok_of_bind hrest₁
    obtain ⟨-, rfl⟩ := getLeaf_ok hget₁
    obtain ⟨_, t₂, hnext, hrest₃⟩ := ok_of_bind hrest₂
    obtain ⟨node, s₂, hget₂, hrest₄⟩ := ok_of_bind hrest₃
    obtain ⟨-, rfl⟩ := getNode_ok hget₂
    obtain ⟨_, t₃, hparent, hrest₅⟩ := ok_of_bind hrest₄
    obtain ⟨_, t₄, hnext', hrest₆⟩ := ok_of_bind hrest₅
    have hwrites₂ : Writes W P s₁ s₂ := writes_of_ok (writes_setNextPage (.inr rfl) _ _) hnext
    have hwrites₃ : Writes W P s₂ t₃ :=
      writes_of_ok (writes_setParentPageNum (P := P) rfl _ _) hparent
    have hwrites₄ : Writes W P t₃ t₄ := writes_of_ok (writes_setNextPage (.inl rfl) _ _) hnext'
    have hwrites : Writes W P s t₄ := ((hwrites₁.trans hwrites₂).trans hwrites₃).trans hwrites₄
    split_ifs at hrest₆
    · obtain ⟨key', fuel, t₅, hwrites₅, hrun'⟩ := enter_leaf_ok (W := W) (P := P) hrest₆ (.inl rfl)
      exact ⟨newPage, key', fuel, t₅, hfresh, hwrites.trans hwrites₅, hrun'⟩
    · obtain ⟨key', fuel, t₅, hwrites₅, hrun'⟩ := enter_leaf_ok (W := W) (P := P) hrest₆ (.inr rfl)
      exact ⟨newPage, key', fuel, t₅, hfresh, hwrites.trans hwrites₅, hrun'⟩

/-- Entering an entry into a leaf writes nodes that its changes come up to, and new ones. -/
theorem writes_insertEntryIntoLeafNode {value : V} {rc : RC} {S : Int → Prop}
    (hcons : Consistent t S qs)
    (hanc : Ancestors t page qs) (hrun : insertEntryIntoLeafNode c page key value t = .ok rc t') :
  Writes (ReachesOrFree c t page) (fun _ => True) t t'
  := by
  obtain ⟨nextBrother, items, hbody, hwrites | ⟨hfull, newPage, key', fuel, t₁, hfresh, hwrites,
    hrun'⟩⟩ := insertEntryIntoLeafNode_ok hrun
  · apply hwrites.mono _ fun _ _ => trivial
    rintro x rfl
    exact .inl .refl
  · have hne : ∀ {x}, (t.body x).isSome → x ≠ newPage := ne_of_body_none hfresh
    have huntouched : Untouched t t₁ page qs := by
      refine ⟨hwrites.isSome, ?_, ?_, ?_⟩
      · intro x hx hxpage
        apply hwrites.body x (hx.isSome hanc)
        rintro (heq | heq)
        · cases heq
          contradiction
        · cases heq
          apply hne (hx.isSome hanc) rfl
      · intro x hx
        apply hwrites.parent x (hx.isSome hanc) (hne (hx.isSome hanc))
      · apply hwrites.parent page (isSome_body_of_eq hbody) (hne (isSome_body_of_eq hbody))
    obtain ⟨w, -, hw⟩ := node_of_body hbody
    have hnotsafe := not_safe_insert (c := c) hbody hw hfull
    apply Writes.trans _ (writes_insertEntryIntoParent hcons hanc huntouched .refl hnotsafe hfresh hrun')
    apply hwrites.mono _ fun _ _ => trivial
    rintro x (rfl | rfl)
    · exact .inl .refl
    · exact .free hfresh

end Insertion

/-! ### Deletion -/

section Deletion

variable {c : Parameters K} {leaf neighborPage : Int} {fuel index : Nat} {memo more : LatchMemo}
  {items : List (K × Int)} {body body₀ : Body K V}

/-- What `coalesce_or_redistribute` adds to the memo when it fetches a neighbour. -/
def neighborLatches (parentPage neighborPage : Int) : LatchMemo :=
  [⟨.pin, .page parentPage⟩, ⟨.pin, .page neighborPage⟩, ⟨.exclusive, .page neighborPage⟩]

theorem exclusives_append (memo more : LatchMemo) :
  LatchMemo.exclusives (memo ++ more) = memo.exclusives ++ more.exclusives
  := List.filterMap_append

theorem mem_neighborLatches : Latched.page neighborPage ∈ (neighborLatches q neighborPage).exclusives
  := by
  rw [LatchMemo.exclusives]
  simp [neighborLatches]

theorem lift_ok {x : Mtr K V α} {a : α} (h : x t = .ok a t') :
  (StateT.lift x : Latching K V α) memo t = .ok (a, memo) t'
  := by
  change EStateM.bind x (fun a => pure (a, memo)) t = _
  rw [EStateM.bind, h]
  rfl

theorem latching_bind {β : Type} {x : Latching K V α} {f : α → Latching K V β} {a : α}
    {memo' : LatchMemo} (h : x memo t = .ok (a, memo') t') :
  (x >>= f) memo t = f a memo' t'
  := by
  change EStateM.bind (x memo) _ t = _
  rw [EStateM.bind, h]

theorem lift_bind {β : Type} {x : Mtr K V α} {f : α → Latching K V β} {a : α}
    (h : x t = .ok a t') :
  (StateT.lift x >>= f) memo t = f a memo t'
  := latching_bind (lift_ok h)

theorem pinPage_bind {β : Type} {f : Unit → Latching K V β} :
  (pinPage page >>= f) memo t = f () (memo ++ [⟨.pin, .page page⟩]) t
  := rfl

theorem latch_bind {β : Type} {type : LatchMemoType} {latched : Latched}
    {f : Unit → Latching K V β} :
  (latch type latched >>= f) memo t = f () (memo ++ [⟨type, latched⟩]) t
  := rfl

theorem writes_adjustRoot {W : Latched → Prop} (hpage : W (.page page))
    (hroot : (∀ nextBrother i items, t.body page ≠ some (.leaf nextBrother (i :: items))) →
      W .rootLock) :
  Writes W (fun _ => True) t (final (adjustRoot page t))
  := by
  apply Along.bind_of_ok writes_composes (writes_getNode t)
  intro node s hget
  obtain ⟨hnode, rfl⟩ := getNode_ok hget
  have hbody : s.body page = some node.body := by
    rw [Tree.body, hnode]
    rfl
  obtain ⟨parent, ⟨nextBrother, _ | ⟨i, items⟩⟩ | items⟩ := node
  · apply Along.bind writes_composes
    · apply writes_updateRootPageNum
      apply hroot
      intro _ _ _ hbody'
      rw [hbody] at hbody'
      cases hbody'
    · intro _
      apply writes_disposePage hpage
  · apply Along.pure writes_composes
  · apply Along.bind writes_composes (writes_item _)
    intro _
    apply Along.bind writes_composes (writes_setParentPageNum trivial _)
    intro _
    apply Along.bind writes_composes
    · apply writes_updateRootPageNum
      apply hroot
      intro _ _ _ hbody'
      rw [hbody] at hbody'
      cases hbody'
    · intro _
      apply writes_disposePage hpage

variable [LinearOrder K]

/-- What dealing with a node that may lack an item does, and what it latches. -/
theorem coalesceOrRedistribute_ok (hrun : coalesceOrRedistribute c (fuel + 1) page t = .ok () t') :
  ∃ node, t.node page = some node
    ∧ ((t' = t ∧ ∀ memo, latchedCoalesceOrRedistribute c (fuel + 1) page memo t = .ok ((), memo) t')
      ∨ node.parent = invalidPageNum ∧ node.body.size ≤ 1 ∧ adjustRoot page t = .ok () t'
        ∧ (∀ memo, latchedCoalesceOrRedistribute c (fuel + 1) page memo t = .ok ((), memo) t')
      ∨ node.body.size < node.body.minSize c ∧ ∃ items neighborPage index,
        t.body node.parent = some (.internal items) ∧ (∃ i ∈ items, i.2 = neighborPage)
        ∧ (t.body neighborPage).isSome
        ∧ (redistribute neighborPage page node.parent index t = .ok () t'
            ∧ (∀ memo, latchedCoalesceOrRedistribute c (fuel + 1) page memo t
              = .ok ((), memo ++ neighborLatches node.parent neighborPage) t')
          ∨ ∃ t₁, coalesce (fun _ => pure ()) neighborPage page node.parent index t = .ok () t₁
            ∧ coalesceOrRedistribute c fuel node.parent t₁ = .ok () t'
            ∧ ∀ memo, latchedCoalesceOrRedistribute c (fuel + 1) page memo t
              = latchedCoalesceOrRedistribute c fuel node.parent
                (memo ++ neighborLatches node.parent neighborPage) t₁))
  := by
  rw [coalesceOrRedistribute] at hrun
  obtain ⟨node, s, hget, hrest⟩ := ok_of_bind hrun
  obtain ⟨hnode, rfl⟩ := getNode_ok hget
  refine ⟨node, hnode, ?_⟩
  split_ifs at hrest with henough hroot hmany
  · cases hrest
    refine .inl ⟨rfl, fun memo => ?_⟩
    rw [latchedCoalesceOrRedistribute, lift_bind (getNode_eq hnode), if_pos henough]
    rfl
  · cases hrest
    refine .inl ⟨rfl, fun memo => ?_⟩
    rw [latchedCoalesceOrRedistribute, lift_bind (getNode_eq hnode), if_neg henough, if_pos hroot,
      if_pos hmany]
    rfl
  · refine .inr (.inl ⟨hroot, not_lt.mp hmany, hrest, fun memo => ?_⟩)
    rw [latchedCoalesceOrRedistribute, lift_bind (getNode_eq hnode), if_neg henough, if_pos hroot,
      if_neg hmany, lift_ok hrest]
  · obtain ⟨items, s₁, hget₁, hrest₁⟩ := ok_of_bind hrest
    obtain ⟨hbody, rfl⟩ := getInternal_ok hget₁
    obtain ⟨lastKey, s₂, hitem₂, hrest₂⟩ := ok_of_bind hrest₁
    obtain ⟨hlast, rfl⟩ := item_ok hitem₂
    dsimp only at hrest₂
    obtain ⟨⟨_, found⟩, s₃, hitem₃, hrest₃⟩ := ok_of_bind hrest₂
    obtain ⟨hfound, rfl⟩ := item_ok hitem₃
    dsimp only at hrest₃
    by_cases hne : found ≠ page
    · rw [if_pos hne] at hrest₃
      contradiction
    rw [if_neg hne] at hrest₃
    obtain ⟨⟨_, neighborPage⟩, s₄, hitem₄, hrest₄⟩ := ok_of_bind hrest₃
    obtain ⟨hneighbor, rfl⟩ := item_ok hitem₄
    dsimp only at hrest₄
    obtain ⟨neighbor, s₅, hget₅, hrest₅⟩ := ok_of_bind hrest₄
    obtain ⟨hnode', rfl⟩ := getNode_ok hget₅
    have hmem : ∃ i ∈ items, i.2 = neighborPage := by
      split_ifs at hneighbor
      · exact ⟨_, List.mem_of_getElem? hneighbor, rfl⟩
      · exact ⟨_, List.mem_of_getElem? hneighbor, rfl⟩
    have hsome : (s₅.body neighborPage).isSome := by
      rw [Tree.body, hnode']
      rfl
    refine .inr (.inr ⟨not_le.mp henough, items, neighborPage,
      internalLookup items lastKey, hbody, hmem, hsome, ?_⟩)
    have hstart : ∀ memo, latchedCoalesceOrRedistribute c (fuel + 1) page memo s₅
        = (if node.body.maxSize c < node.body.size + neighbor.body.size then
            StateT.lift (redistribute neighborPage page node.parent (internalLookup items lastKey))
          else do
            StateT.lift (coalesce (fun _ => pure ()) neighborPage page node.parent
              (internalLookup items lastKey))
            latchedCoalesceOrRedistribute c fuel node.parent : Latching K V Unit)
          (memo ++ neighborLatches node.parent neighborPage) s₅ := by
      intro memo
      rw [latchedCoalesceOrRedistribute, lift_bind (getNode_eq hnode), if_neg henough,
        if_neg hroot, pinPage_bind, lift_bind hget₁, lift_bind hitem₂]
      dsimp only
      rw [lift_bind hitem₃]
      dsimp only
      rw [if_neg hne, lift_bind hitem₄]
      dsimp only
      rw [pinPage_bind, latch_bind, lift_bind hget₅, neighborLatches]
      simp only [List.append_assoc, List.cons_append, List.nil_append]
    split_ifs at hrest₅ with hsum
    · refine .inl ⟨hrest₅, fun memo => ?_⟩
      rw [hstart, if_pos hsum, lift_ok hrest₅]
    · rw [coalesce_eq] at hrest₅
      obtain ⟨_, t₁, hcoalesce, hrest₆⟩ := ok_of_bind hrest₅
      refine .inr ⟨t₁, hcoalesce, hrest₆, fun memo => ?_⟩
      rw [hstart, if_neg hsum, lift_bind hcoalesce]

omit [LinearOrder K] in
/-- The node has lost an item since `t₀`, and has got no new child. -/
structure Lost (t₀ t : Tree K V) (page : Int) (body : Body K V) : Prop where
  now : t.body page = some body
  before : ∃ body₀, t₀.body page = some body₀ ∧ body₀.isLeaf = body.isLeaf
    ∧ body₀.size = body.size + 1
  children : ChildrenIn (fun x => t₀.parent x = some page) t page

omit [LinearOrder K] in
theorem minSize_congr (h : body₀.isLeaf = body.isLeaf) : body₀.minSize c = body.minSize c := by
  cases body₀ <;> cases body <;> first | rfl | cases h

omit [LinearOrder K] in
/-- A node that lacks an item now was not safe. -/
theorem Lost.not_safe (h : Lost t₀ t page body) (hparent : t₀.parent page = some q)
    (hq : q ≠ invalidPageNum) (hsmall : body.size < body.minSize c) :
  ¬ safeLatched c .delete t₀ (.page page) = true
  := by
  obtain ⟨body₀, hbody₀, hleaf, hsize⟩ := h.before
  have hmin := minSize_congr (c := c) hleaf
  rw [safeLatched_eq hbody₀ hparent, Body.isSafe, decide_eq_false hq, if_neg (by simp),
    decide_eq_true_eq]
  omega

omit [LinearOrder K] in
/-- A root that is given up now was not safe. -/
theorem Lost.not_safe_root (h : Lost t₀ t page body) (hparent : t₀.parent page = some invalidPageNum)
    (hsmall : body.size ≤ 1) (hnot : ∀ nextBrother i items, body ≠ .leaf nextBrother (i :: items)) :
  ¬ safeLatched c .delete t₀ (.page page) = true
  := by
  obtain ⟨body₀, hbody₀, hleaf, hsize⟩ := h.before
  rw [safeLatched_eq hbody₀ hparent, Body.isSafe, decide_eq_true rfl, if_pos rfl, hleaf, hsize]
  obtain ⟨nextBrother, _ | ⟨i, items⟩⟩ | items := body
  · simp [Body.isLeaf, Body.size]
  · exact absurd rfl (hnot nextBrother i items)
  · rw [Body.size] at hsmall ⊢
    simp only [Body.isLeaf, Bool.false_eq_true, if_false, decide_eq_true_eq]
    omega

omit [LinearOrder K] in
/-- What is done while two neighbours are merged does not come up further than to their parent. -/
theorem Untouched.merge (h : Untouched t₀ t page (q :: qs))
    (hanc : Ancestors t₀ page (q :: qs)) (hneighbor : t₀.parent neighborPage = some q)
    (hwrites : Writes (fun x => x = .page q ∨ x = .page neighborPage ∨ x = .page page)
      (fun x => t₀.parent x = some page ∨ t₀.parent x = some neighborPage) t t₁) :
  Untouched t₀ t₁ q qs
  := by
  have hanc' := hanc
  cases hanc' with
  | up hparent hvalid hq =>
    have hpage := ne_invalid_of_body (isSome_body_of_parent hparent)
    have hneighborPage := ne_invalid_of_body (isSome_body_of_parent hneighbor)
    -- neither of the two is an ancestor of their parent
    have hnot : page ∉ qs := fun hmem => hanc.not_mem (List.mem_cons_of_mem _ hmem)
    have hnot' : neighborPage ∉ qs := fun hmem =>
      hq.not_mem (hq.parent_mem hmem hneighbor hvalid)
    apply h.up hanc hwrites
    · rintro x hx hne (heq | heq | heq)
      · cases heq
        contradiction
      · cases heq
        exact not_above_of_parent hq hneighbor hvalid hq.not_mem hx
      · cases heq
        exact not_above_self hanc hx
    · rintro x hx (hchild | hchild)
      · exact not_above_of_parent hq hchild hpage hnot hx
      · exact not_above_of_parent hq hchild hneighborPage hnot' hx
    · rintro (hchild | hchild)
      · exact hnot (hq.mem_of_parent hchild hpage)
      · exact hnot' (hq.mem_of_parent hchild hneighborPage)

/-- Dealing with a node that may lack an item writes nodes that the changes come up to, and
neighbours that it latches. -/
theorem latched_coalesceOrRedistribute {S : Int → Prop} (hcons : Consistent t₀ S qs)
    (hanc : Ancestors t₀ page qs)
    (huntouched : Untouched t₀ t page qs) (hreaches : Reaches c .delete t₀ leaf (.page page))
    (hlost : Lost t₀ t page body) (hrun : coalesceOrRedistribute c fuel page t = .ok () t')
    (memo : LatchMemo) :
  ∃ more, latchedCoalesceOrRedistribute c fuel page memo t = .ok ((), memo ++ more) t'
    ∧ Writes (fun x => Reaches c .delete t₀ leaf x ∨ x ∈ more.exclusives) (fun _ => True) t t'
  := by
  induction fuel generalizing t page qs body memo with
  | zero => contradiction
  | succ fuel ih =>
    obtain ⟨node, hnode, hcases⟩ := coalesceOrRedistribute_ok hrun
    have hbody : t.body page = some node.body := by
      rw [Tree.body, hnode]
      rfl
    have hparent : t₀.parent page = some node.parent := by
      rw [← huntouched.self, Tree.parent, hnode]
      rfl
    have heq := hlost.now
    rw [hbody, Option.some.injEq] at heq
    subst heq
    obtain ⟨rfl, hlatched⟩ | ⟨hroot, hsize, hadjust, hlatched⟩ | ⟨hsmall, items, neighborPage, index,
      hitems, ⟨i, hi, rfl⟩, hsome, hcases⟩ := hcases
    · refine ⟨[], ?_, Writes.refl t'⟩
      rw [hlatched, List.append_nil]
    · refine ⟨[], ?_, writes_of_ok ?_ hadjust⟩
      · rw [hlatched, List.append_nil]
      · apply writes_adjustRoot (.inl hreaches)
        intro hnot
        rw [hroot] at hparent
        apply Or.inl (hreaches.root (hlost.not_safe_root hparent hsize _) hparent)
        intro nextBrother i items heq
        apply hnot nextBrother i items
        rw [hbody, heq]
    · have hvalid := ne_invalid_of_body (isSome_body_of_eq hitems)
      have hq : Reaches c .delete t₀ leaf (.page node.parent) :=
        hreaches.parent (hlost.not_safe hparent hvalid hsmall) hparent hvalid
      cases hanc with
      | root hroot =>
        rw [hparent, Option.some.injEq] at hroot
        contradiction
      | @up _ q qs hup _ hanc =>
        rw [hparent, Option.some.injEq] at hup
        subst hup
        have hanc' : Ancestors t₀ page (node.parent :: qs) := .up hparent hvalid hanc
        have hitems₀ : t₀.body node.parent = some (.internal items) := by
          rw [← huntouched.body _ (.inl List.mem_cons_self), hitems]
          rintro rfl
          apply hanc'.not_mem List.mem_cons_self
        have hchild := hcons.parent _ hcons.head items hitems₀ i hi
        obtain ⟨hredistribute, hlatched⟩ | ⟨t₁, hcoalesce, hrun', hlatched⟩ := hcases
        · refine ⟨neighborLatches node.parent i.2, hlatched memo, writes_of_ok ?_ hredistribute⟩
          apply writes_redistribute index (.inr mem_neighborLatches) (.inl hreaches) (.inl hq)
          exact fun _ _ _ _ => trivial
        · have hne : i.2 ≠ node.parent := by
            intro heq
            rw [heq] at hchild
            exact hanc.parent_ne hvalid hchild
          have hne' : page ≠ node.parent := by
            intro heq
            apply hanc'.not_mem
            rw [heq]
            apply List.mem_cons_self
          let P : Int → Prop := fun x => t₀.parent x = some page ∨ t₀.parent x = some i.2
          have hP' : ChildrenIn P t page := fun items' hitems' j hj =>
            .inl (hlost.children items' hitems' j hj)
          have hP : ChildrenIn P t i.2 := by
            by_cases hself : i.2 = page
            · rw [hself]
              exact hP'
            · have hsame := huntouched.body i.2 (.inr ⟨_, List.mem_cons_self, hchild⟩) hself
              intro items' hitems' j hj
              rw [hsame] at hitems'
              exact .inr (hcons.parent _ (hcons.child _ hcons.head items hitems₀ i hi) items' hitems' j hj)
          obtain ⟨position, hlt, hbody₁, hwrites⟩ := coalesce_ok hcoalesce hitems hne hne' hsome
            (isSome_body_of_eq hbody) hP hP'
          have hlost₁ : Lost t₀ t₁ node.parent (.internal (items.eraseIdx position)) := by
            refine ⟨hbody₁, ⟨_, hitems₀, rfl, ?_⟩, ?_⟩
            · rw [Body.size, Body.size, List.length_eraseIdx_of_lt hlt]
              omega
            · intro items' hitems' j hj
              rw [hbody₁, Option.some.injEq, Body.internal.injEq] at hitems'
              subst hitems'
              exact hcons.parent _ hcons.head items hitems₀ j (List.mem_of_mem_eraseIdx hj)
          obtain ⟨more, hrun₁, hwrites₁⟩ 
            := ih hcons.tail hanc (huntouched.merge hanc' hchild hwrites) hq hlost₁ hrun' (memo ++ neighborLatches node.parent i.2)
          refine ⟨neighborLatches node.parent i.2 ++ more, ?_, Writes.trans (hwrites.mono ?_ ?_)
            (hwrites₁.mono ?_ fun _ _ => trivial)⟩
          · rw [hlatched, hrun₁, List.append_assoc]
          · rintro x (rfl | rfl | rfl)
            · exact .inl hq
            · right
              rw [exclusives_append]
              apply List.mem_append_left _ mem_neighborLatches
            · exact .inl hreaches
          · exact fun _ _ => trivial
          · rintro x (hx | hx)
            · exact .inl hx
            · right
              rw [exclusives_append]
              apply List.mem_append_right _ hx

/-- Deleting an entry from a leaf writes nodes that its changes come up to, and neighbours that
it latches. -/
theorem latched_deleteEntryInternal {S : Int → Prop} {key : K} {rc : RC}
    (hcons : Consistent t S qs) (hanc : Ancestors t page qs)
    (hrun : deleteEntryInternal c page key t = .ok rc t') (memo : LatchMemo) :
  ∃ more, latchedDeleteEntryInternal c page key memo t = .ok (rc, memo ++ more) t'
    ∧ Writes (fun x => Reaches c .delete t page x ∨ x ∈ more.exclusives) (fun _ => True) t t'
  := by
  rw [deleteEntryInternal] at hrun
  obtain ⟨⟨nextBrother, items⟩, s, hget, hrest⟩ := ok_of_bind hrun
  obtain ⟨hbody, rfl⟩ := getLeaf_ok hget
  dsimp only at hrest
  split_ifs at hrest with hfound
  · obtain ⟨_, t₁, hset, hrest₁⟩ := ok_of_bind hrest
    obtain ⟨node, s₁, hget₁, hrest₂⟩ := ok_of_bind hrest₁
    obtain ⟨hnode, rfl⟩ := getNode_ok hget₁
    -- the leaf has lost an item, and nothing else has changed
    obtain ⟨s₂, hset', hsets⟩ := setLeafItems_sets hbody (items.eraseIdx (leafLookup items key).1)
    rw [hset] at hset'
    cases hset'
    have hbody₁ : s₁.body page
        = some (.leaf nextBrother (items.eraseIdx (leafLookup items key).1)) := by
      rw [hsets.body, Function.update_self]
    have hnodebody : s₁.body page = some node.body := by
      rw [Tree.body, hnode]
      rfl
    rw [hbody₁, Option.some.injEq] at hnodebody
    have hlt : (leafLookup items key).1 < items.length := by
      have hlt := LowerBound.lowerBound_found hfound
      rwa [List.length_map] at hlt
    have hlost : Lost s s₁ page node.body := by
      refine ⟨hnodebody ▸ hbody₁, ⟨_, hbody, ?_, ?_⟩, ?_⟩
      · rw [← hnodebody]
        rfl
      · rw [← hnodebody, Body.size, Body.size, List.length_eraseIdx_of_lt hlt]
        omega
      · intro items' hitems'
        rw [hbody₁] at hitems'
        cases hitems'
    have hsame : ∀ x, x ≠ page → s₁.body x = s.body x := by
      intro x hx
      rw [hsets.body, Function.update_of_ne hx]
    have huntouched : Untouched s s₁ page qs := by
      refine ⟨?_, fun x _ hx => hsame x hx, fun x _ => congrFun hsets.parent x,
        congrFun hsets.parent page⟩
      intro x hx
      by_cases hpage : x = page
      · rw [hpage]
        apply isSome_body_of_eq hbody₁
      · rwa [hsame x hpage]
    have hwrites : Writes (fun x => x = .page page) (fun _ => True) s s₁ :=
      writes_of_ok (writes_setLeafItems (W := fun x => x = .page page) rfl _ s) hset
    have hstart : latchedDeleteEntryInternal c page key memo s
        = (if node.body.minSize c ≤ node.body.size then pure .success
          else do
            let t ← StateT.lift get
            latchedCoalesceOrRedistribute c t.pages.length page
            pure .success : Latching K V RC) memo s₁ := by
      rw [latchedDeleteEntryInternal, lift_bind hget]
      dsimp only
      rw [if_pos hfound, lift_bind hset, lift_bind hget₁]
    split_ifs at hrest₂ with henough
    · cases hrest₂
      refine ⟨[], ?_, hwrites.mono ?_ fun _ _ => trivial⟩
      · rw [hstart, if_pos henough, List.append_nil]
        rfl
      · rintro x rfl
        exact .inl .refl
    · obtain ⟨t₂, s₃, hget₂, hrest₃⟩ := ok_of_bind hrest₂
      cases hget₂
      obtain ⟨_, t₄, hrun₄, hrest₄⟩ := ok_of_bind hrest₃
      cases hrest₄
      obtain ⟨more, hlatched, hwrites₁⟩ := latched_coalesceOrRedistribute hcons hanc huntouched .refl
        hlost hrun₄ memo
      refine ⟨more, ?_, (hwrites.mono ?_ fun _ _ => trivial).trans hwrites₁⟩
      · rw [hstart, if_neg henough, lift_bind run_get, latching_bind hlatched]
        rfl
      · rintro x rfl
        exact .inl .refl
  · cases hrest
    refine ⟨[], ?_, Writes.refl t'⟩
    rw [latchedDeleteEntryInternal, lift_bind hget]
    dsimp only
    rw [if_neg hfound, List.append_nil]
    rfl

end Deletion

end MiniOB.BplusTree
