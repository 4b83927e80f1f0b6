import MiniOB.Index.Standing

/-!
# Insertion

A node that has been split is entered into its parent, which may have to be split in turn.
The levels above the node then stand on the new node as well.
-/

namespace MiniOB.BplusTree

open LowerBound Levels

variable {K V : Type} [LinearOrder K] {c : Parameters K} {t t' : Tree K V}

omit [LinearOrder K] in
theorem insertIdx_length {α : Type} (xs ys : List α) (x : α) :
  (xs ++ ys).insertIdx xs.length x = xs ++ x :: ys
  := by
  induction xs with
  | nil => rfl
  | cons y xs ih =>
    rw [List.cons_append, List.length_cons, List.insertIdx_succ_cons, ih, List.cons_append]

/-! ### Entering one item -/

section Enter

variable {C D : List (Item K)} {i : Item K} {key : K} {child page : Int}

omit [LinearOrder K] in
theorem insertIdx_slot (i' : Item K) :
  ((C ++ i :: D).map Item.slot).insertIdx (C.length + 1) i'.slot
    = (C ++ i :: i' :: D).map Item.slot
  := by
  have hinsert := insertIdx_length ((C ++ [i]).map Item.slot) (D.map Item.slot) i'.slot
  simpa using hinsert

/-- The bounds around a new item. -/
theorem bounds_of_ascending (hasc : Ascending ((C ++ i :: Item.ofKey key child :: D).map Item.entry)) :
  i.bound < key ∧ ∀ d ∈ D, (key : WithBot K) < d.bound
  := by
  constructor
  · apply bound_lt_of_ascending_right hasc List.mem_cons_self
  · intro d hd
    have hasc' : Ascending (((C ++ [i]) ++ Item.ofKey key child :: D).map Item.entry) := by
      simpa using hasc
    apply bound_lt_of_ascending_right hasc' hd

theorem ascending_erase (hasc : Ascending ((C ++ i :: Item.ofKey key child :: D).map Item.entry)) :
  Ascending ((C ++ i :: D).map Item.entry)
  := by
  apply hasc.sublist
  apply List.Sublist.map
  apply List.Sublist.append_left
  apply List.Sublist.cons_cons
  apply List.sublist_cons_self

/-- Enter a child into an internal node that has room. -/
theorem enter_run (hbody : t.body page = some (.internal ((C ++ i :: D).map Item.slot)))
    (hasc : Ascending ((C ++ i :: Item.ofKey key child :: D).map Item.entry))
    (hchild : (t.body child).isSome) :
  ∃ t₁ t₂, internalInsert page key child t = .ok () t₁
    ∧ setParentPageNum child page t₁ = .ok () t₂
    ∧ Sets t (Function.update t.body page
        (some (.internal ((C ++ i :: Item.ofKey key child :: D).map Item.slot))))
        (Function.update t.parent child (some page)) t₂
  := by
  have hbounds := bounds_of_ascending hasc
  obtain ⟨t₁, hrun₁, hsets₁⟩ := internalInsert_sets hbody key child
  rw [insertPosition_eq (ascending_erase hasc) (.inl hbounds.1) hbounds.2,
    ← Item.ofKey_slot key child, insertIdx_slot] at hsets₁
  have hchild₁ : (t₁.body child).isSome := by
    rw [hsets₁.body, Function.update_apply]
    split
    · rfl
    · apply hchild
  obtain ⟨t₂, hrun₂, hsets₂⟩ := setParentPageNum_sets hchild₁ page
  rw [hsets₁.body, hsets₁.parent] at hsets₂
  exact ⟨t₁, t₂, hrun₁, hrun₂, hsets₁.trans hsets₂⟩

end Enter

/-! ### Splitting the parent -/

/-- The node `n` of `t` has become the nodes `n₁` and `n₂` of `t'`, which have the items `X`
between them. -/
structure Halves (t t' : Tree K V) (n n₁ n₂ : Branch K) (X : List (Item K)) : Prop where
  items : n₁.items ++ n₂.items = X
  page : n₁.page = n.page
  fresh : t.body n₂.page = none
  head : n₁.items.head? = n.items.head?
  left_ge : n.items.length / 2 ≤ n₁.items.length
  left_le : n₁.items.length ≤ n.items.length
  right_ge : n.items.length / 2 ≤ n₂.items.length
  right_le : n₂.items.length ≤ n.items.length
  holds_left : Holds t' n₁
  holds_right : Holds t' n₂
  body : ∀ p, p ≠ n.page → p ≠ n₂.page → t'.body p = t.body p
  parent : ∀ p, p ∉ X.map Item.child → p ≠ n₂.page → t'.parent p = t.parent p
  rootPage : t'.rootPage = t.rootPage
  header : t'.header = t.header
  disposed : t'.disposedPages = t.disposedPages

section Split

variable {n : Branch K} {C D : List (Item K)} {i : Item K} {key : K} {child w : Int} {fuel : Nat}

omit [LinearOrder K] in
theorem keyAt_zero (items : List (Item K)) :
  (Body.internal (items.map Item.slot) : Body K V).keyAt 0 = items.head?.map Item.key
  := by
  cases items <;> rfl

omit [LinearOrder K] in
/-- The halves of a node, after the new child has been entered on the page `z`. -/
theorem halves_of_sets {I₁ I₂ I₁' I₂' : List (Item K)} {newPage z : Int} (hn : Holds t n)
    (hnodup : n.children.Nodup) (hitems : n.items = I₁ ++ I₂)
    (hI₁ : I₁.length = n.items.length / 2) (htwo : 2 ≤ n.items.length)
    (hhead : I₁'.head? = I₁.head?) (hchild : (t.body child).isSome) (hnot : child ∉ n.children)
    (hfresh : t.body newPage = none)
    (hlen₁ : I₁.length ≤ I₁'.length) (hlen₂ : I₂.length ≤ I₂'.length)
    (hlen : I₁'.length + I₂'.length = n.items.length + 1)
    (h₁ : ∀ p ∈ I₁'.map Item.child, p ∈ I₁.map Item.child ∨ p = child ∧ z = n.page)
    (h₂ : ∀ p ∈ I₂'.map Item.child, p ∈ I₂.map Item.child ∨ p = child ∧ z = newPage)
    (hX : ∀ p ∈ I₂.map Item.child, p ∈ I₂'.map Item.child)
    (hchildX : child ∈ I₁'.map Item.child ++ I₂'.map Item.child)
    (hsets : Sets t (Function.update (Function.update t.body newPage
        (some (.internal (I₂'.map Item.slot)))) n.page (some (.internal (I₁'.map Item.slot))))
        (Function.update (adopt (Function.update t.parent newPage (some w)) newPage
          (I₂.map Item.child)) child (some z)) t') :
  Halves t t' n ⟨n.page, I₁'⟩ ⟨newPage, I₂'⟩ (I₁' ++ I₂')
  := by
  have hne : newPage ≠ n.page := (ne_of_body_none hfresh (isSome_body_of_eq hn.body)).symm
  have hsum : I₁.length + I₂.length = n.items.length := by
    rw [hitems, List.length_append]
  have hchildren : n.children = I₁.map Item.child ++ I₂.map Item.child := by
    rw [Branch.children, hitems, List.map_append]
  have hdisjoint := (List.nodup_append.mp (hchildren ▸ hnodup)).2.2
  refine ⟨rfl, rfl, hfresh, ?_, ?_, ?_, ?_, ?_, ⟨?_, ?_⟩, ⟨?_, ?_⟩, ?_, ?_, hsets.rootPage,
    hsets.header, hsets.disposed⟩
  · rw [hitems, List.head?_append, hhead]
    cases I₁ with
    | nil =>
      rw [List.length_nil] at hI₁
      omega
    | cons _ _ => rfl
  · change n.items.length / 2 ≤ I₁'.length
    omega
  · change I₁'.length ≤ n.items.length
    omega
  · change n.items.length / 2 ≤ I₂'.length
    omega
  · change I₂'.length ≤ n.items.length
    omega
  · rw [hsets.body, Function.update_self]
    rfl
  · intro p hp
    rw [hsets.parent]
    obtain hp | ⟨rfl, rfl⟩ := h₁ p hp
    · have hmem : p ∈ n.children := hchildren ▸ List.mem_append_left _ hp
      have hpchild : p ≠ child := fun heq => hnot (heq ▸ hmem)
      have hpnew : p ≠ newPage :=
        ne_of_body_none hfresh (isSome_body_of_parent (hn.parent p hmem))
      have hp₂ : p ∉ I₂.map Item.child := fun hp₂ => hdisjoint p hp p hp₂ rfl
      rw [Function.update_of_ne hpchild, adopt_of_not_mem hp₂, Function.update_of_ne hpnew]
      apply hn.parent p hmem
    · rw [Function.update_self]
  · change t'.body newPage = _
    rw [hsets.body, Function.update_of_ne hne, Function.update_self]
    rfl
  · intro p hp
    rw [hsets.parent]
    obtain hp | ⟨rfl, rfl⟩ := h₂ p hp
    · have hmem : p ∈ n.children := hchildren ▸ List.mem_append_right _ hp
      have hpchild : p ≠ child := fun heq => hnot (heq ▸ hmem)
      rw [Function.update_of_ne hpchild, adopt_of_mem hp]
    · rw [Function.update_self]
  · intro p hp hpnew
    rw [hsets.body, Function.update_of_ne hp, Function.update_of_ne hpnew]
  · intro p hp hpnew
    rw [List.map_append] at hp
    have hpchild : p ≠ child := fun heq => hp (heq ▸ hchildX)
    have hp₂ : p ∉ I₂.map Item.child := fun hp₂ => hp (List.mem_append_right _ (hX p hp₂))
    rw [hsets.parent, Function.update_of_ne hpchild, adopt_of_not_mem hp₂,
      Function.update_of_ne hpnew]

/-- The new item goes into the right half. -/
theorem split_enter_right {C₁ C₂ : List (Item K)} {t₁ : Tree K V} {newPage : Int}
    (hn : Holds t n) (hnodup : n.children.Nodup) (hitems : n.items = C₁ ++ (C₂ ++ i :: D))
    (hhalf : C₁.length = n.items.length / 2) (htwo : 2 ≤ n.items.length)
    (hasc : Ascending ((C₁ ++ (C₂ ++ i :: Item.ofKey key child :: D)).map Item.entry))
    (hchild : (t.body child).isSome) (hnot : child ∉ n.children) (hfresh : t.body newPage = none)
    (hsets : Sets t (Function.update (Function.update t.body newPage
        (some (.internal ((C₂ ++ i :: D).map Item.slot)))) n.page
        (some (.internal (C₁.map Item.slot))))
        (adopt (Function.update t.parent newPage (some w)) newPage
          ((C₂ ++ i :: D).map Item.child)) t₁) :
  ∃ j : Item K, ∃ t₂ t₃, j.bound = j.key ∧ j.key < key
    ∧ (∀ E, (C₂ ++ i :: E).head? = some j)
    ∧ internalInsert newPage key child t₁ = .ok () t₂
    ∧ setParentPageNum child newPage t₂ = .ok () t₃
    ∧ Halves t t₃ n ⟨n.page, C₁⟩ ⟨newPage, C₂ ++ i :: Item.ofKey key child :: D⟩
        (C₁ ++ (C₂ ++ i :: Item.ofKey key child :: D))
  := by
  have hne : newPage ≠ n.page := (ne_of_body_none hfresh (isSome_body_of_eq hn.body)).symm
  have hchildne : child ≠ newPage := ne_of_body_none hfresh hchild
  have hC₁ : C₁ ≠ [] := by
    rintro rfl
    rw [List.length_nil] at hhalf
    omega
  have hasc₂ : Ascending ((C₂ ++ i :: Item.ofKey key child :: D).map Item.entry) := by
    apply hasc.sublist
    apply List.Sublist.map
    apply List.sublist_append_right
  have hbody₁ : t₁.body newPage = some (.internal ((C₂ ++ i :: D).map Item.slot)) := by
    rw [hsets.body, Function.update_of_ne hne, Function.update_self]
  have hchild₁ : (t₁.body child).isSome := by
    rw [hsets.body, Function.update_apply]
    split
    · rfl
    · rw [Function.update_of_ne hchildne]
      apply hchild
  obtain ⟨t₂, t₃, hrun₂, hrun₃, hsets₃⟩ := enter_run hbody₁ hasc₂ hchild₁
  rw [hsets.body, hsets.parent, Function.update_comm hne, Function.update_idem,
    Function.update_comm hne.symm] at hsets₃
  obtain ⟨j, hj⟩ : ∃ j, ∀ E, (C₂ ++ i :: E).head? = some j := by
    cases C₂ with
    | nil => exact ⟨i, fun _ => rfl⟩
    | cons j C₂ => exact ⟨j, fun _ => rfl⟩
  have hbound := bound_of_not_first hasc hC₁ (List.mem_of_head? (hj _))
  have hlt : j.key < key := by
    rw [← WithBot.coe_lt_coe, ← hbound]
    have hi := (bounds_of_ascending hasc₂).1
    have hmem := List.mem_of_head? (hj [])
    rw [List.mem_append, List.mem_singleton] at hmem
    obtain hmem | rfl := hmem
    · apply (bound_lt_of_ascending hasc₂ hmem).trans hi
    · apply hi
  refine ⟨j, t₂, t₃, hbound, hlt, hj, hrun₂, hrun₃, ?_⟩
  refine halves_of_sets (z := newPage) hn hnodup hitems hhalf htwo rfl hchild hnot hfresh le_rfl
    ?_ ?_ (fun p hp => .inl hp) ?_ ?_ ?_ (hsets.trans hsets₃)
  · simp
  · rw [hitems]
    simp
    omega
  · intro p hp
    simp only [List.map_append, List.map_cons, List.mem_append, List.mem_cons,
      Item.ofKey_child] at hp ⊢
    tauto
  · intro p hp
    simp only [List.map_append, List.map_cons, List.mem_append, List.mem_cons] at hp ⊢
    tauto
  · simp

/-- The new item goes into the left half. -/
theorem split_enter_left {D₁ D₂ : List (Item K)} {j : Item K} {t₁ : Tree K V} {newPage : Int}
    (hn : Holds t n) (hnodup : n.children.Nodup)
    (hitems : n.items = (C ++ i :: D₁) ++ j :: D₂)
    (hhalf : (C ++ i :: D₁).length = n.items.length / 2) (htwo : 2 ≤ n.items.length)
    (hasc : Ascending (((C ++ i :: Item.ofKey key child :: D₁) ++ j :: D₂).map Item.entry))
    (hchild : (t.body child).isSome) (hnot : child ∉ n.children) (hfresh : t.body newPage = none)
    (hsets : Sets t (Function.update (Function.update t.body newPage
        (some (.internal ((j :: D₂).map Item.slot)))) n.page
        (some (.internal ((C ++ i :: D₁).map Item.slot))))
        (adopt (Function.update t.parent newPage (some w)) newPage
          ((j :: D₂).map Item.child)) t₁) :
  j.bound = j.key ∧ ¬ j.key < key ∧ ∃ t₂ t₃, internalInsert n.page key child t₁ = .ok () t₂
    ∧ setParentPageNum child n.page t₂ = .ok () t₃
    ∧ Halves t t₃ n ⟨n.page, C ++ i :: Item.ofKey key child :: D₁⟩ ⟨newPage, j :: D₂⟩
        ((C ++ i :: Item.ofKey key child :: D₁) ++ j :: D₂)
  := by
  have hne : newPage ≠ n.page := (ne_of_body_none hfresh (isSome_body_of_eq hn.body)).symm
  have hchildne : child ≠ newPage := ne_of_body_none hfresh hchild
  have hasc₁ : Ascending ((C ++ i :: Item.ofKey key child :: D₁).map Item.entry) := by
    apply hasc.sublist
    apply List.Sublist.map
    apply List.sublist_append_left
  have hbody₁ : t₁.body n.page = some (.internal ((C ++ i :: D₁).map Item.slot)) := by
    rw [hsets.body, Function.update_self]
  have hchild₁ : (t₁.body child).isSome := by
    rw [hsets.body, Function.update_apply]
    split
    · rfl
    · rw [Function.update_of_ne hchildne]
      apply hchild
  obtain ⟨t₂, t₃, hrun₂, hrun₃, hsets₃⟩ := enter_run hbody₁ hasc₁ hchild₁
  rw [hsets.body, hsets.parent, Function.update_idem] at hsets₃
  have hbound : j.bound = j.key := by
    apply bound_of_not_first hasc _ List.mem_cons_self
    simp
  have hlt : (key : WithBot K) < j.bound := by
    have hasc' : Ascending ((C ++ i :: Item.ofKey key child :: (D₁ ++ j :: D₂)).map Item.entry) := by
      simpa using hasc
    apply (bounds_of_ascending hasc').2
    apply List.mem_append_right _ List.mem_cons_self
  refine ⟨hbound, ?_, t₂, t₃, hrun₂, hrun₃, ?_⟩
  · rw [hbound, WithBot.coe_lt_coe] at hlt
    apply hlt.not_gt
  refine halves_of_sets (z := n.page) hn hnodup hitems hhalf htwo ?_ hchild hnot hfresh ?_ le_rfl
    ?_ ?_ (fun p hp => .inl hp) (fun p hp => hp) ?_ (hsets.trans hsets₃)
  · rw [List.head?_append, List.head?_append]
    rfl
  · simp
  · rw [hitems]
    simp
    omega
  · intro p hp
    simp only [List.map_append, List.map_cons, List.mem_append, List.mem_cons,
      Item.ofKey_child] at hp ⊢
    tauto
  · simp

/-- The full parent of a node is split, and the new node is entered into one of the halves. -/
theorem insertEntryIntoParent_full (fuel : Nat) (hn : Holds t n) (hnodup : n.children.Nodup)
    (hitems : n.items = C ++ i :: D)
    (hfull : c.internalMaxSize ≤ n.items.length) (htwo : 2 ≤ n.items.length)
    (hparent : t.parent n.page = some w) (hheader : t.header.isSome)
    (hasc : Ascending ((C ++ i :: Item.ofKey key child :: D).map Item.entry))
    (hchild : (t.body child).isSome) (hnot : child ∉ n.children) :
  ∃ (n₁ n₂ : Branch K) (key' : K) (t' : Tree K V),
    insertEntryIntoParent c (fuel + 1) i.child child key t
      = insertEntryIntoParent c fuel n.page n₂.page key' t'
    ∧ n₂.bound = key' ∧ Halves t t' n n₁ n₂ (C ++ i :: Item.ofKey key child :: D)
  := by
  have hmem : i.child ∈ n.children := by
    rw [Branch.children, hitems]
    simp
  obtain ⟨body, hnode, _⟩ := node_of_parent (hn.parent i.child hmem)
  have hvalid := ne_invalid_of_body (isSome_body_of_eq hn.body)
  obtain ⟨newPage, t₁, hsplit, hfresh, hsets⟩ :=
    split_internal hn.body hparent hheader hn.isSome_slots
  have hne : newPage ≠ n.page := (ne_of_body_none hfresh (isSome_body_of_eq hn.body)).symm
  have hlen : C.length + 1 + D.length = n.items.length := by
    rw [hitems, List.length_append, List.length_cons]
    omega
  have hslots : n.slots.length = n.items.length := Branch.length_slots n
  have hsnd : Prod.snd ∘ Item.slot = (Item.child : Item K → Int) := rfl
  rw [hslots, Branch.slots, ← List.map_drop, ← List.map_take, List.map_map, hsnd] at hsets
  -- the run up to the split
  have hstart : insertEntryIntoParent c (fuel + 1) i.child child key t
      = (do
          let firstKey ← item ((← getNode newPage).body.keyAt 0)
          if firstKey < key then
            internalInsert newPage key child
            setParentPageNum child newPage
          else
            internalInsert n.page key child
            setParentPageNum child n.page
          let firstKey ← item ((← getNode newPage).body.keyAt 0)
          insertEntryIntoParent c fuel n.page newPage firstKey : Mtr K V Unit) t₁ := by
    rw [insertEntryIntoParent, run_bind (getNode_eq hnode)]
    simp only [if_neg hvalid]
    rw [run_bind (getInternal_eq hn.body), hslots, if_neg (by omega), run_bind hsplit]
  rw [hstart]
  by_cases hC : n.items.length / 2 ≤ C.length
  · obtain ⟨C₁, C₂, rfl, hC₁⟩ : ∃ C₁ C₂, C = C₁ ++ C₂ ∧ C₁.length = n.items.length / 2 :=
      ⟨C.take _, C.drop _, (List.take_append_drop _ C).symm, List.length_take_of_le hC⟩
    rw [List.append_assoc] at hitems hasc ⊢
    have htake : n.items.take (n.items.length / 2) = C₁ := by
      rw [← hC₁, hitems, List.take_left]
    have hdrop : n.items.drop (n.items.length / 2) = C₂ ++ i :: D := by
      rw [← hC₁, hitems, List.drop_left]
    rw [htake, hdrop] at hsets
    obtain ⟨j, t₂, t₃, hbound, hlt, hj, hrun₂, hrun₃, hhalves⟩ := split_enter_right hn hnodup
      hitems hC₁ htwo hasc hchild hnot hfresh hsets
    have hbody₁ : t₁.body newPage = some (.internal ((C₂ ++ i :: D).map Item.slot)) := by
      rw [hsets.body, Function.update_of_ne hne, Function.update_self]
    obtain ⟨_, hnode₁, _⟩ := node_of_body hbody₁
    obtain ⟨_, hnode₃, _⟩ := node_of_body hhalves.holds_right.body
    refine ⟨_, _, j.key, t₃, ?_, ?_, hhalves⟩
    · rw [run_bind (getNode_eq hnode₁)]
      simp only [keyAt_zero, hj, Option.map_some]
      rw [run_bind (item_some _)]
      simp only [if_pos hlt]
      rw [run_bind hrun₂, run_bind hrun₃, run_bind (getNode_eq hnode₃)]
      simp only [Branch.slots, keyAt_zero, hj, Option.map_some]
      rw [run_bind (item_some _)]
    · simp only [Branch.bound, hj, Option.map_some, Option.getD_some, hbound]
  · obtain ⟨D₁, D₂, rfl, hD₁⟩ :
        ∃ D₁ D₂, D = D₁ ++ D₂ ∧ (C ++ i :: D₁).length = n.items.length / 2 := by
      refine ⟨D.take (n.items.length / 2 - C.length - 1), D.drop (n.items.length / 2 - C.length - 1),
        (List.take_append_drop _ D).symm, ?_⟩
      rw [List.length_append, List.length_cons, List.length_take]
      omega
    have hsplitC : C ++ i :: (D₁ ++ D₂) = (C ++ i :: D₁) ++ D₂ := by simp
    rw [hsplitC] at hitems
    have htake : n.items.take (n.items.length / 2) = C ++ i :: D₁ := by
      rw [← hD₁, hitems, List.take_left]
    have hdrop : n.items.drop (n.items.length / 2) = D₂ := by
      rw [← hD₁, hitems, List.drop_left]
    rw [htake, hdrop] at hsets
    obtain ⟨j, D₂, rfl⟩ : ∃ j J, D₂ = j :: J := by
      apply List.exists_cons_of_ne_nil
      rintro rfl
      rw [List.append_nil] at hitems
      rw [← hitems] at hD₁
      omega
    have hsplitX : C ++ i :: Item.ofKey key child :: (D₁ ++ j :: D₂)
        = (C ++ i :: Item.ofKey key child :: D₁) ++ j :: D₂ := by simp
    rw [hsplitX] at hasc ⊢
    obtain ⟨hbound, hlt, t₂, t₃, hrun₂, hrun₃, hhalves⟩ := split_enter_left hn hnodup
      hitems hD₁ htwo hasc hchild hnot hfresh hsets
    have hbody₁ : t₁.body newPage = some (.internal ((j :: D₂).map Item.slot)) := by
      rw [hsets.body, Function.update_of_ne hne, Function.update_self]
    obtain ⟨_, hnode₁, _⟩ := node_of_body hbody₁
    obtain ⟨_, hnode₃, _⟩ := node_of_body hhalves.holds_right.body
    refine ⟨_, _, j.key, t₃, ?_, ?_, hhalves⟩
    · rw [run_bind (getNode_eq hnode₁)]
      simp only [keyAt_zero, List.head?_cons, Option.map_some]
      rw [run_bind (item_some _)]
      simp only [if_neg hlt]
      rw [run_bind hrun₂, run_bind hrun₃, run_bind (getNode_eq hnode₃)]
      simp only [Branch.slots, keyAt_zero, List.head?_cons, Option.map_some]
      rw [run_bind (item_some _)]
    · simp only [Branch.bound, List.head?_cons, Option.map_some, Option.getD_some, hbound]

end Split

/-! ### Entering a new node -/

section Steps

variable {n : Branch K} {C D : List (Item K)} {i : Item K} {key : K} {child page : Int} {fuel : Nat}

/-- The parent of a node has room for the new node. -/
theorem insertEntryIntoParent_room (fuel : Nat) (hn : Holds t n) (hitems : n.items = C ++ i :: D)
    (hroom : n.items.length < c.internalMaxSize)
    (hasc : Ascending ((C ++ i :: Item.ofKey key child :: D).map Item.entry))
    (hchild : (t.body child).isSome) :
  ∃ t', insertEntryIntoParent c (fuel + 1) i.child child key t = .ok () t'
    ∧ Sets t (Function.update t.body n.page
        (some (.internal ((C ++ i :: Item.ofKey key child :: D).map Item.slot))))
        (Function.update t.parent child (some n.page)) t'
  := by
  have hmem : i.child ∈ n.children := by
    rw [Branch.children, hitems]
    simp
  obtain ⟨body, hnode, _⟩ := node_of_parent (hn.parent i.child hmem)
  have hvalid := ne_invalid_of_body (isSome_body_of_eq hn.body)
  have hbody := hn.body
  rw [Branch.slots, hitems] at hbody
  obtain ⟨t₁, t₂, hrun₁, hrun₂, hsets⟩ := enter_run hbody hasc hchild
  refine ⟨t₂, ?_, hsets⟩
  rw [insertEntryIntoParent, run_bind (getNode_eq hnode)]
  simp only [if_neg hvalid]
  rw [run_bind (getInternal_eq hn.body), Branch.length_slots, if_pos hroom, run_bind hrun₁, hrun₂]

/-- The root has been split: the two nodes get a new root. -/
theorem insertEntryIntoParent_root (c : Parameters K) (key : K) (fuel : Nat)
    (hparent : t.parent page = some invalidPageNum) (hchild : (t.body child).isSome) (hheader : t.header.isSome) :
  ∃ root t', insertEntryIntoParent c (fuel + 1) page child key t = .ok () t'
    ∧ t.body root = none
    ∧ t'.body = Function.update t.body root (some (.internal [(c.zeroKey, page), (key, child)]))
    ∧ t'.parent = Function.update (Function.update
        (Function.update t.parent root (some invalidPageNum)) page (some root)) child (some root)
    ∧ t'.rootPage = root ∧ t'.header = some root ∧ t'.disposedPages = t.disposedPages
  := by
  obtain ⟨body, hnode, hbody⟩ := node_of_parent hparent
  obtain ⟨root, t₁, hrun₁, hfresh, hsets₁⟩ :=
    allocatePage_sets hheader (.internal [(c.zeroKey, page), (key, child)])
  have hpage₁ : (t₁.body page).isSome := by
    rw [hsets₁.body, Function.update_of_ne (ne_of_body_none hfresh (isSome_body_of_eq hbody))]
    apply isSome_body_of_eq hbody
  obtain ⟨t₂, hrun₂, hsets₂⟩ := setParentPageNum_sets hpage₁ root
  have hchild₂ : (t₂.body child).isSome := by
    rw [hsets₂.body, hsets₁.body, Function.update_of_ne (ne_of_body_none hfresh hchild)]
    apply hchild
  obtain ⟨t₃, hrun₃, hsets₃⟩ := setParentPageNum_sets hchild₂ root
  have hheader₃ : t₃.header.isSome := by
    rw [hsets₃.header, hsets₂.header, hsets₁.header]
    apply hheader
  obtain ⟨t₄, hrun₄, hbody₄, hparent₄, hroot₄, hheader₄, hdisposed₄⟩ :=
    updateRootPageNum_run hheader₃ root
  refine ⟨root, t₄, ?_, hfresh, ?_, ?_, hroot₄, hheader₄, ?_⟩
  · rw [insertEntryIntoParent, run_bind (getNode_eq hnode)]
    simp only [if_true]
    rw [run_bind hrun₁, run_bind hrun₂, run_bind hrun₃, hrun₄]
  · rw [hbody₄, hsets₃.body, hsets₂.body, hsets₁.body]
  · rw [hparent₄, hsets₃.parent, hsets₂.parent, hsets₁.parent]
  · rw [hdisposed₄, hsets₃.disposed, hsets₂.disposed, hsets₁.disposed]

end Steps

/-- The levels `Us` on the nodes with the entries `below` have become `Us'`: nothing else has
changed, and the new pages were free. -/
structure Grown (t t' : Tree K V) (below : List (Entry K)) (Us Us' : List (Level K)) : Prop where
  body : ∀ p, (t.body p).isSome → p ∉ pages Us → t'.body p = t.body p
  parent : ∀ p, (t.body p).isSome → p ∉ entryPages below → p ∉ pages Us →
    t'.parent p = t.parent p
  pages : ∀ p ∈ pages Us', p ∈ Levels.pages Us ∨ t.body p = none
  disposed : t'.disposedPages = t.disposedPages

section Grown

variable {max : Nat} {L R below : List (Entry K)} {e : Entry K} {key : K} {child : Int}
  {U : Level K} {Us : List (Level K)} {fuel : Nat}

omit [LinearOrder K] in
theorem nodup_insert {ps : List Int} (h : (entryPages (L ++ e :: R) ++ ps).Nodup) (x : Entry K)
    (hx : x.2 ∉ entryPages (L ++ e :: R) ++ ps) :
  (entryPages (L ++ e :: x :: R) ++ ps).Nodup
  := by
  simp only [entryPages_append, entryPages_cons, List.append_assoc, List.cons_append] at h hx ⊢
  rw [← List.singleton_append, ← List.append_assoc, List.nodup_middle, List.nodup_cons,
    List.append_assoc]
  exact ⟨hx, h⟩

omit [LinearOrder K] in
theorem Stands.children_nodup (h : Stands t max below (U :: Us)) {n : Branch K} (hn : n ∈ U) :
  n.children.Nodup
  := by
  have hnodup := (List.nodup_append.mp h.nodup).1
  rw [← h.tower.1, entryPages_below] at hnodup
  apply (List.nodup_flatMap.mp hnodup).1 n hn

/-- Entering the new node when there is no level above. -/
theorem Stands.enter_root (h : Stands t max (L ++ e :: R) []) (hmax : 2 ≤ max)
    (hchild : (t.body child).isSome) (hnot : child ∉ entryPages (L ++ e :: R)) :
  ∃ t' Us', insertEntryIntoParent c (fuel + 1) e.2 child key t = .ok () t'
    ∧ Stands t' max (L ++ e :: (↑key, child) :: R) Us'
    ∧ Grown t t' (L ++ e :: (↑key, child) :: R) [] Us' ∧ Zeroed c.zeroKey Us'
  := by
  obtain ⟨page, hbelow⟩ := h.tower
  obtain ⟨rfl, rfl, rfl⟩ : L = [] ∧ e = (⊥, page) ∧ R = [] := by
    cases L <;> simp_all
  have hparent : t.parent page = some invalidPageNum := h.parent
  have hpage := isSome_body_of_parent hparent
  have hne : child ≠ page := by simpa [entryPages] using hnot
  obtain ⟨root, t', hrun, hfresh, hbody', hparent', hroot', hheader', hdisposed'⟩ :=
    insertEntryIntoParent_root c key fuel hparent hchild h.header_isSome
  have hpageroot := ne_of_body_none hfresh hpage
  have hchildroot := ne_of_body_none hfresh hchild
  have htop : Stands t' max (Level.entries
      [⟨root, [Item.ofBot c.zeroKey page, Item.ofKey key child]⟩]) [] := by
    refine ⟨⟨root, rfl⟩, by simp, ?_, hroot', hheader', by simp [entryPages, Level.entries]⟩
    change t'.parent root = _
    rw [hparent', Function.update_of_ne hchildroot.symm, Function.update_of_ne hpageroot.symm,
      Function.update_self]
  refine ⟨t', _, hrun, htop.cons ?_ ?_ ?_ ?_, ?_, ?_⟩
  · rfl
  · intro n hn
    rw [List.mem_singleton] at hn
    subst hn
    simpa using hmax
  · intro n hn
    rw [List.mem_singleton] at hn
    subst hn
    constructor
    · rw [hbody', Function.update_self]
      rfl
    · intro p hp
      simp only [Branch.children, List.map_cons, List.map_nil, List.mem_cons, List.not_mem_nil,
        or_false] at hp
      obtain rfl | rfl := hp
      · rw [hparent', Function.update_of_ne (by exact hne.symm), Function.update_self]
      · rw [hparent', Function.update_self]
  · simp [entryPages, hne.symm, hpageroot, hchildroot]
  · constructor
    · intro p hp _
      rw [hbody', Function.update_of_ne (ne_of_body_none hfresh hp)]
    · intro p hp hbelow _
      simp only [List.nil_append, entryPages_cons, List.mem_cons, not_or] at hbelow
      rw [hparent', Function.update_of_ne hbelow.2.1, Function.update_of_ne hbelow.1,
        Function.update_of_ne (ne_of_body_none hfresh hp)]
    · intro p hp
      simp only [pages_cons, List.map_cons, List.map_nil, pages_nil, List.append_nil,
        List.mem_singleton] at hp
      rw [hp]
      exact .inr hfresh
    · apply hdisposed'
  · apply Zeroed.cons _ Zeroed.nil
    intro i hi hbot
    simp only [Level.items, List.flatMap_singleton, List.mem_cons, List.not_mem_nil,
      or_false] at hi
    obtain rfl | rfl := hi
    · rfl
    · contradiction

section Located

variable {A B : Level K} {n : Branch K} {C D : List (Item K)} {i : Item K}

/-- Entering the new node when its parent has room. -/
theorem Stands.enter_room (h : Stands t c.internalMaxSize (L ++ e :: R) (U :: Us))
    (hloc : Located U L e R A n B C i D) (hroom : n.items.length < c.internalMaxSize)
    (hchild : (t.body child).isSome)
    (hnot : child ∉ entryPages (L ++ e :: R) ++ pages (U :: Us))
    (hasc : Ascending (L ++ e :: (↑key, child) :: R)) :
  ∃ t' Us', insertEntryIntoParent c (fuel + 1) e.2 child key t = .ok () t'
    ∧ Stands t' c.internalMaxSize (L ++ e :: (↑key, child) :: R) Us'
    ∧ Grown t t' (L ++ e :: (↑key, child) :: R) (U :: Us) Us'
    ∧ (Zeroed c.zeroKey (U :: Us) → Zeroed c.zeroKey Us')
  := by
  have hn := h.holds_head hloc.mem
  obtain ⟨t', hrun, hsets⟩ := insertEntryIntoParent_room fuel hn hloc.items
    hroom (hloc.ascending [Item.ofKey key child] hasc) hchild
  rw [hloc.child_eq] at hrun
  have hpage := hloc.page_not_mem (List.nodup_append.mp h.nodup).2.1
  have hbody : ∀ p, p ≠ n.page → t'.body p = t.body p := by
    intro p hp
    rw [hsets.body, Function.update_of_ne hp]
  have hparent : ∀ p, p ≠ child → t'.parent p = t.parent p := by
    intro p hp
    rw [hsets.parent, Function.update_of_ne hp]
  have hentries := hloc.entries_replace (Item.ofKey key child :: D)
  have hpages : pages ((A ++ ⟨n.page, C ++ i :: Item.ofKey key child :: D⟩ :: B) :: Us)
      = pages (U :: Us) := by
    simp [hloc.level]
  have htail : Stands t' c.internalMaxSize
      (Level.entries (A ++ ⟨n.page, C ++ i :: Item.ofKey key child :: D⟩ :: B)) Us := by
    rw [hentries]
    apply h.tail.congr _ _ hsets.rootPage hsets.header
    · intro p hp
      apply hbody
      rintro rfl
      simp_all
    · intro p hp
      apply hparent
      rintro rfl
      simp_all
  refine ⟨t', _, hrun, htail.cons ?_ ?_ ?_ ?_, ?_, ?_⟩
  · apply hloc.below_replace n.page [Item.ofKey key child]
  · intro m hm
    rw [List.mem_append, List.mem_cons] at hm
    obtain hm | rfl | hm := hm
    · apply h.tower.2.1 m (hloc.mem_left hm)
    · have hsize := h.tower.2.1 n hloc.mem
      rw [hloc.items] at hroom hsize
      simp only [List.length_append, List.length_cons] at hroom hsize ⊢
      refine ⟨by omega, by omega, fun hUs => ?_⟩
      have hhalf := hsize.2.2 hUs
      omega
    · apply h.tower.2.1 m (hloc.mem_right hm)
  · have hold : ∀ m ∈ U, m.page ≠ n.page → Holds t' m := by
      intro m hm hne
      apply (h.holds_head hm).congr (hbody _ hne)
      intro p hp
      apply hparent
      rintro rfl
      apply hnot (List.mem_append_left _ (h.child_mem_below hm hp))
    intro m hm
    rw [List.mem_append, List.mem_cons] at hm
    obtain hm | rfl | hm := hm
    · apply hold m (hloc.mem_left hm)
      intro hne
      apply hpage (List.mem_append_left _ (List.mem_map.mpr ⟨m, hm, hne⟩))
    · constructor
      · rw [hsets.body, Function.update_self]
        rfl
      · intro p hp
        by_cases hpchild : p = child
        · rw [hpchild, hsets.parent, Function.update_self]
        · rw [hparent p hpchild]
          apply hn.parent
          rw [Branch.children, hloc.items]
          simp only [Branch.children, List.map_append, List.map_cons, List.mem_append,
            List.mem_cons, Item.ofKey_child] at hp ⊢
          tauto
    · apply hold m (hloc.mem_right hm)
      intro hne
      apply hpage
      apply List.mem_append_right _ (List.mem_append_left _ (List.mem_map.mpr ⟨m, hm, hne⟩))
  · rw [hpages]
    apply nodup_insert h.nodup _ hnot
  · constructor
    · intro p _ hp
      apply hbody
      rintro rfl
      apply hp
      rw [pages_cons]
      apply List.mem_append_left _ (List.mem_map_of_mem hloc.mem)
    · intro p _ hp _
      apply hparent
      rintro rfl
      simp at hp
    · intro p hp
      rw [hpages] at hp
      exact .inl hp
    · apply hsets.disposed
  · intro hzeroed
    apply hzeroed.ofKey hloc (List.Subset.refl D)

omit [LinearOrder K] in
/-- The levels above a node that has been split still stand on the undivided node. -/
theorem Stands.tail_halves (h : Stands t max below (U :: Us)) {n₁ n₂ : Branch K}
    {X : List (Item K)} (hhalves : Halves t t' n n₁ n₂ X) (hpage : n.page ∉ pages Us)
    (hX : ∀ p ∈ X.map Item.child, p ∉ pages (U :: Us)) :
  Stands t' max (Level.entries U) Us
  := by
  apply h.tail.congr _ _ hhalves.rootPage hhalves.header
  · intro p hp
    apply hhalves.body
    · rintro rfl
      contradiction
    · apply ne_of_body_none hhalves.fresh (h.tail.isSome_pages hp)
  · intro p hp
    apply hhalves.parent
    · intro hmem
      apply hX p hmem
      rwa [pages_cons, ← entryPages_entries]
    · apply ne_of_body_none hhalves.fresh (h.tail.isSome hp)

omit [LinearOrder K] in
theorem Halves.isSome {n₁ n₂ : Branch K} {X : List (Item K)} (h : Halves t t' n n₁ n₂ X) {p : Int}
    (hp : (t.body p).isSome) :
  (t'.body p).isSome
  := by
  by_cases hpage : p = n.page
  · rw [hpage, ← h.page]
    apply isSome_body_of_eq h.holds_left.body
  · rw [h.body p hpage (ne_of_body_none h.fresh hp)]
    apply hp

omit [LinearOrder K] in
/-- The level with the two halves of a node in its place. -/
theorem halves_below (hloc : Located U L e R A n B C i D) {n₁ n₂ : Branch K}
    {x : Item K} (hhalves : Halves t t' n n₁ n₂ (C ++ i :: x :: D)) :
  Level.below (A ++ n₁ :: n₂ :: B) = L ++ e :: x.entry :: R
  := by
  have hreplace := hloc.below_replace n.page [x]
  rw [Level.below_append, Level.below_cons] at hreplace
  rw [Level.below_append, Level.below_cons, Level.below_cons, ← List.append_assoc (List.map _ _),
    ← List.map_append, hhalves.items]
  apply hreplace

omit [LinearOrder K] in
theorem halves_entries {n₁ n₂ : Branch K} {X : List (Item K)} (hhalves : Halves t t' n n₁ n₂ X) (hbound : n₂.bound = key) :
  Level.entries (A ++ n₁ :: n₂ :: B)
    = Level.entries A ++ n.entry :: (↑key, n₂.page) :: Level.entries B
  := by
  rw [Level.entries_append, Level.entries_cons, Level.entries_cons,
    Branch.entry_eq_of_head hhalves.page hhalves.head, ← hbound]
  rfl

omit [LinearOrder K] in
/-- The pages of the level with the two halves. -/
theorem halves_pages (hloc : Located U L e R A n B C i D) {n₁ n₂ : Branch K}
    {X : List (Item K)} (hhalves : Halves t t' n n₁ n₂ X) {p : Int}
    (hp : p ∈ entryPages (Level.entries (A ++ n₁ :: n₂ :: B))) :
  p ∈ U.map Branch.page ∨ p = n₂.page
  := by
  rw [hloc.level]
  simp only [entryPages_entries, List.map_append, List.map_cons, List.mem_append, List.mem_cons,
    hhalves.page] at hp ⊢
  tauto

omit [LinearOrder K] in
/-- The nodes of a level with two halves have the sizes of nodes that are not the root. -/
theorem Stands.sizes_halves {max : Nat} (h : Stands t max (L ++ e :: R) (U :: Us))
    (hloc : Located U L e R A n B C i D) (hmax : 4 ≤ max) (hfull : max ≤ n.items.length)
    {n₁ n₂ : Branch K} {X : List (Item K)} (hhalves : Halves t t' n n₁ n₂ X) :
  ∀ m ∈ A ++ n₁ :: n₂ :: B, m.items.length ≤ max ∧ 2 ≤ m.items.length ∧ max / 2 ≤ m.items.length
  := by
  have hsize := h.tower.2.1 n hloc.mem
  have hleft := hhalves.left_ge
  have hleft' := hhalves.left_le
  have hright := hhalves.right_ge
  have hright' := hhalves.right_le
  -- a node beside `n` is not the root
  have hall : ∀ m ∈ U, m ∈ A ∨ m ∈ B →
      m.items.length ≤ max ∧ 2 ≤ m.items.length ∧ max / 2 ≤ m.items.length := by
    intro m hm hAB
    have hmsize := h.tower.2.1 m hm
    refine ⟨hmsize.1, hmsize.2.1, hmsize.2.2 ?_⟩
    rintro rfl
    obtain ⟨p, hp⟩ := h.tower.2.2
    rw [hloc.level, Level.entries_append, Level.entries_cons] at hp
    obtain ⟨hA, hB⟩ := singleton_of_entries hp
    rw [hA, hB] at hAB
    simp at hAB
  intro m hm
  rw [List.mem_append, List.mem_cons, List.mem_cons] at hm
  obtain hm | rfl | rfl | hm := hm
  · apply hall m (hloc.mem_left hm) (.inl hm)
  · exact ⟨by omega, by omega, by omega⟩
  · exact ⟨by omega, by omega, by omega⟩
  · apply hall m (hloc.mem_right hm) (.inr hm)

omit [LinearOrder K] in
/-- What the levels above leave of the parents after they have taken up a half. -/
theorem Grown.parent_halves (hloc : Located U L e R A n B C i D) {t₁ : Tree K V}
    {n₁ n₂ : Branch K} {X : List (Item K)} (hhalves : Halves t t₁ n n₁ n₂ X)
    {Us' : List (Level K)} (hgrown : Grown t₁ t' (Level.entries (A ++ n₁ :: n₂ :: B)) Us Us')
    {p : Int} (hp : (t.body p).isSome) (hmem : p ∉ Levels.pages (U :: Us)) :
  t'.parent p = t₁.parent p
  := by
  rw [pages_cons, List.mem_append, not_or] at hmem
  apply hgrown.parent p (hhalves.isSome hp) _ hmem.2
  intro hlevels
  obtain hU | rfl := halves_pages hloc hhalves hlevels
  · apply hmem.1 hU
  · rw [hhalves.fresh] at hp
    contradiction

omit [LinearOrder K] in
/-- A level with two halves and the levels that have taken up the new one have grown together. -/
theorem Grown.halves (hloc : Located U L e R A n B C i D) {t₁ : Tree K V} {n₁ n₂ : Branch K}
    {X : List (Item K)} (hhalves : Halves t t₁ n n₁ n₂ X) {Us' : List (Level K)}
    (hgrown : Grown t₁ t' (Level.entries (A ++ n₁ :: n₂ :: B)) Us Us')
    (hX : ∀ p ∈ X.map Item.child, p ∈ entryPages below) :
  Grown t t' below (U :: Us) ((A ++ n₁ :: n₂ :: B) :: Us')
  where
  body := by
    intro p hp hmem
    rw [pages_cons, List.mem_append, not_or] at hmem
    rw [hgrown.body p (hhalves.isSome hp) hmem.2, hhalves.body p _
      (ne_of_body_none hhalves.fresh hp)]
    rintro rfl
    exact hmem.1 (List.mem_map_of_mem hloc.mem)
  parent := by
    intro p hp hpbelow hmem
    rw [hgrown.parent_halves hloc hhalves hp hmem, hhalves.parent p (fun hpX => hpbelow (hX p hpX))
      (ne_of_body_none hhalves.fresh hp)]
  pages := by
    intro p hp
    rw [pages_cons, ← entryPages_entries, List.mem_append] at hp
    rw [pages_cons, List.mem_append]
    obtain hp | hp := hp
    · obtain hU | rfl := halves_pages hloc hhalves hp
      · exact .inl (.inl hU)
      · exact .inr hhalves.fresh
    · obtain hp | hp := hgrown.pages p hp
      · exact .inl (.inr hp)
      · right
        by_contra hnone
        have hpsome := hhalves.isSome (Option.isSome_iff_ne_none.mpr hnone)
        rw [hp] at hpsome
        contradiction
  disposed := by rw [hgrown.disposed, hhalves.disposed]

omit [LinearOrder K] in
/-- The nodes below are not on the pages of a level with two halves and of the levels that have
taken up the new one. -/
theorem Grown.disjoint_halves (hloc : Located U L e R A n B C i D) {t₁ : Tree K V}
    {n₁ n₂ : Branch K} {X : List (Item K)} (hhalves : Halves t t₁ n n₁ n₂ X)
    {Us' : List (Level K)} (hgrown : Grown t₁ t' (Level.entries (A ++ n₁ :: n₂ :: B)) Us Us')
    {p : Int} (hp : (t.body p).isSome) (hmem : p ∉ Levels.pages (U :: Us)) :
  p ∉ Levels.pages ((A ++ n₁ :: n₂ :: B) :: Us')
  := by
  rw [pages_cons, List.mem_append, not_or] at hmem
  rw [pages_cons, ← entryPages_entries, List.mem_append, not_or]
  constructor
  · intro hlevel
    obtain hU | rfl := halves_pages hloc hhalves hlevel
    · exact hmem.1 hU
    · rw [hhalves.fresh] at hp
      contradiction
  · intro hlevels
    obtain hq | hq := hgrown.pages p hlevels
    · exact hmem.2 hq
    · have hpsome := hhalves.isSome hp
      rw [hq] at hpsome
      contradiction

omit [LinearOrder K] in
/-- A node beside the one that has been split stands as before. -/
theorem Stands.holds_beside {max : Nat} (h : Stands t max (L ++ e :: R) (U :: Us))
    (hloc : Located U L e R A n B C i D) {t₁ : Tree K V} {n₁ n₂ : Branch K} {X : List (Item K)}
    (hhalves : Halves t t₁ n n₁ n₂ X) {Us' : List (Level K)}
    (hgrown : Grown t₁ t' (Level.entries (A ++ n₁ :: n₂ :: B)) Us Us') {m : Branch K} (hm : m ∈ U)
    (hpage : m.page ≠ n.page) (hX : ∀ p ∈ m.children, p ∉ X.map Item.child) :
  Holds t' m
  := by
  have hmUs : m.page ∉ pages Us := by
    have hnodup := (List.nodup_append.mp h.nodup).2.1
    rw [pages_cons] at hnodup
    intro hmem
    exact (List.nodup_append.mp hnodup).2.2 _ (List.mem_map_of_mem hm) _ hmem rfl
  have hmsome := isSome_body_of_eq (h.holds_head hm).body
  apply (h.holds_head hm).congr
  · rw [hgrown.body _ (hhalves.isSome hmsome) hmUs,
      hhalves.body _ hpage (ne_of_body_none hhalves.fresh hmsome)]
  · intro p hp
    have hpbelow := h.child_mem_below hm hp
    have hpsome := h.isSome_below hpbelow
    have hpU : p ∉ pages (U :: Us) := fun hmem =>
      (List.nodup_append.mp h.nodup).2.2 p hpbelow p hmem rfl
    rw [hgrown.parent_halves hloc hhalves hpsome hpU, hhalves.parent p (hX p hp)
      (ne_of_body_none hhalves.fresh hpsome)]

omit [LinearOrder K] in
/-- The children of the two halves are below the level. -/
theorem halves_child_mem (hloc : Located U L e R A n B C i D) {n₁ n₂ : Branch K} {x : Item K}
    (hhalves : Halves t t' n n₁ n₂ (C ++ i :: x :: D)) {p : Int}
    (hp : p ∈ (C ++ i :: x :: D).map Item.child) :
  p ∈ entryPages (L ++ e :: x.entry :: R)
  := by
  rw [← halves_below hloc hhalves, entryPages_below, List.mem_flatMap]
  rw [← hhalves.items, List.map_append, List.mem_append] at hp
  obtain hp | hp := hp
  · exact ⟨n₁, by simp, hp⟩
  · exact ⟨n₂, by simp, hp⟩

omit [LinearOrder K] in
/-- A node beside the two halves has none of their children. -/
theorem halves_children_beside (hloc : Located U L e R A n B C i D) {n₁ n₂ m : Branch K}
    {x : Item K} (hhalves : Halves t t' n n₁ n₂ (C ++ i :: x :: D))
    (hnodup : (entryPages (L ++ e :: x.entry :: R)).Nodup) (hm : m ∈ A ∨ m ∈ B) {p : Int}
    (hp : p ∈ m.children) :
  p ∉ (C ++ i :: x :: D).map Item.child
  := by
  have hparts : Level.below A ++ ((C ++ i :: x :: D).map Item.entry ++ Level.below B)
      = L ++ e :: x.entry :: R := by
    rw [← halves_below hloc hhalves, ← hhalves.items]
    simp
  rw [← hparts, entryPages_append, entryPages_append, entryPages_items] at hnodup
  obtain ⟨-, hnodupB, hnodupA⟩ := List.nodup_append.mp hnodup
  intro hpX
  obtain hm | hm := hm
  · apply hnodupA p _ p (List.mem_append_left _ hpX) rfl
    rw [entryPages_below]
    exact List.mem_flatMap.mpr ⟨m, hm, hp⟩
  · apply (List.nodup_append.mp hnodupB).2.2 p hpX p _ rfl
    rw [entryPages_below]
    exact List.mem_flatMap.mpr ⟨m, hm, hp⟩

omit [LinearOrder K] in
/-- The nodes of the level with two halves stand after the levels above have taken up the new
one. -/
theorem Stands.holds_halves {max : Nat} (h : Stands t max (L ++ e :: R) (U :: Us))
    (hloc : Located U L e R A n B C i D) {t₁ : Tree K V} {n₁ n₂ : Branch K} {x : Item K}
    (hhalves : Halves t t₁ n n₁ n₂ (C ++ i :: x :: D)) {Us' : List (Level K)}
    (hgrown : Grown t₁ t' (Level.entries (A ++ n₁ :: n₂ :: B)) Us Us')
    (hnodup : (entryPages (L ++ e :: x.entry :: R) ++ pages (U :: Us)).Nodup)
    (hsome : ∀ p ∈ entryPages (L ++ e :: x.entry :: R), (t.body p).isSome) :
  ∀ m ∈ A ++ n₁ :: n₂ :: B, Holds t' m
  := by
  have hpage := hloc.page_not_mem (List.nodup_append.mp h.nodup).2.1
  have hfresh : n₂.page ∉ pages Us := fun hmem =>
    ne_of_body_none hhalves.fresh (h.tail.isSome_pages hmem) rfl
  -- a half, which the levels above have left alone
  have hnew : ∀ m, Holds t₁ m → m.page ∉ pages Us →
      (∀ p ∈ m.children, p ∈ (C ++ i :: x :: D).map Item.child) → Holds t' m := by
    intro m hm hmUs hmX
    apply hm.congr (hgrown.body _ (isSome_body_of_eq hm.body) hmUs)
    intro p hp
    have hpbelow := halves_child_mem hloc hhalves (hmX p hp)
    apply hgrown.parent_halves hloc hhalves (hsome p hpbelow)
    intro hmem
    exact (List.nodup_append.mp hnodup).2.2 p hpbelow p hmem rfl
  have hbeside := fun {m : Branch K} (hm : m ∈ A ∨ m ∈ B) (p : Int) (hp : p ∈ m.children) =>
    halves_children_beside hloc hhalves (List.nodup_append.mp hnodup).1 hm hp
  intro m hm
  rw [List.mem_append, List.mem_cons, List.mem_cons] at hm
  obtain hm | rfl | rfl | hm := hm
  · apply h.holds_beside hloc hhalves hgrown (hloc.mem_left hm) _ (hbeside (.inl hm))
    intro heq
    apply hpage (List.mem_append_left _ (List.mem_map.mpr ⟨m, hm, heq⟩))
  · apply hnew _ hhalves.holds_left
    · rw [hhalves.page]
      intro hmem
      apply hpage
      apply List.mem_append_right _ (List.mem_append_right _ hmem)
    · intro p hp
      rw [← hhalves.items, List.map_append]
      apply List.mem_append_left _ hp
  · apply hnew _ hhalves.holds_right hfresh
    intro p hp
    rw [← hhalves.items, List.map_append]
    apply List.mem_append_right _ hp
  · apply h.holds_beside hloc hhalves hgrown (hloc.mem_right hm) _ (hbeside (.inr hm))
    intro heq
    apply hpage
    apply List.mem_append_right _ (List.mem_append_left _ (List.mem_map.mpr ⟨m, hm, heq⟩))

/-- Entering the new node when its parent is full. The levels above take up the new half of
the parent. -/
theorem Stands.enter_full (h : Stands t c.internalMaxSize (L ++ e :: R) (U :: Us))
    (hloc : Located U L e R A n B C i D) (hmax : 4 ≤ c.internalMaxSize)
    (hfull : c.internalMaxSize ≤ n.items.length) (hchild : (t.body child).isSome)
    (hnot : child ∉ entryPages (L ++ e :: R) ++ pages (U :: Us))
    (hasc : Ascending (L ++ e :: (↑key, child) :: R))
    (hup : ∀ (t₁ : Tree K V) (key' : K) (newPage : Int),
      Stands t₁ c.internalMaxSize (Level.entries A ++ n.entry :: Level.entries B) Us →
      (t₁.body newPage).isSome →
      newPage ∉ entryPages (Level.entries A ++ n.entry :: Level.entries B) ++ pages Us →
      Ascending (Level.entries A ++ n.entry :: (↑key', newPage) :: Level.entries B) →
      ∃ t' Us', insertEntryIntoParent c fuel n.page newPage key' t₁ = .ok () t'
        ∧ Stands t' c.internalMaxSize
            (Level.entries A ++ n.entry :: (↑key', newPage) :: Level.entries B) Us'
        ∧ Grown t₁ t' (Level.entries A ++ n.entry :: (↑key', newPage) :: Level.entries B) Us Us'
        ∧ (Zeroed c.zeroKey Us → Zeroed c.zeroKey Us')) :
  ∃ t' Us', insertEntryIntoParent c (fuel + 1) e.2 child key t = .ok () t'
    ∧ Stands t' c.internalMaxSize (L ++ e :: (↑key, child) :: R) Us'
    ∧ Grown t t' (L ++ e :: (↑key, child) :: R) (U :: Us) Us'
    ∧ (Zeroed c.zeroKey (U :: Us) → Zeroed c.zeroKey Us')
  := by
  have hn := h.holds_head hloc.mem
  have hsize := h.tower.2.1 n hloc.mem
  obtain ⟨w, _, hw⟩ := node_of_body hn.body
  have hchildnot : child ∉ n.children := fun hmem =>
    hnot (List.mem_append_left _ (h.child_mem_below hloc.mem hmem))
  obtain ⟨n₁, n₂, key', t₁, hrun₁, hbound, hhalves⟩ := insertEntryIntoParent_full fuel
    hn (h.children_nodup hloc.mem) hloc.items hfull hsize.2.1 hw h.header_isSome
    (hloc.ascending [Item.ofKey key child] hasc) hchild hchildnot
  rw [hloc.child_eq] at hrun₁
  have hpage := hloc.page_not_mem (List.nodup_append.mp h.nodup).2.1
  have hpageUs : n.page ∉ pages Us := fun hmem => by simp_all
  have hnodup := nodup_insert h.nodup (↑key, child) hnot
  have hbelow := halves_below hloc hhalves
  have hentries := halves_entries (A := A) (B := B) hhalves hbound
  rw [Item.ofKey_entry] at hbelow
  -- the nodes below, with the new one, are not on the pages of the levels
  have hsome : ∀ p ∈ entryPages (L ++ e :: (↑key, child) :: R), (t.body p).isSome := by
    intro p hp
    by_cases hpchild : p = child
    · rwa [hpchild]
    · apply h.isSome_below
      simp only [entryPages_append, entryPages_cons, List.mem_append, List.mem_cons] at hp ⊢
      tauto
  have hdisjoint : ∀ p ∈ entryPages (L ++ e :: (↑key, child) :: R), p ∉ pages (U :: Us) := by
    intro p hp hmem
    apply (List.nodup_append.mp hnodup).2.2 p hp p hmem rfl
  have hX : ∀ p ∈ (C ++ i :: Item.ofKey key child :: D).map Item.child,
      p ∈ entryPages (L ++ e :: (↑key, child) :: R) := fun p hp =>
    halves_child_mem hloc hhalves hp
  -- the levels above take up the new half
  have hlevel : Level.entries U = Level.entries A ++ n.entry :: Level.entries B := by
    rw [hloc.level, Level.entries_append, Level.entries_cons]
  have hfresh : n₂.page ∉ pages (U :: Us) := fun hmem =>
    ne_of_body_none hhalves.fresh (h.isSome_pages hmem) rfl
  have hsizes := h.sizes_halves hloc hmax hfull hhalves
  have hne : ∀ m ∈ A ++ n₁ :: n₂ :: B, m.items ≠ [] := by
    intro m hm
    have htwo := (hsizes m hm).2.1
    apply List.ne_nil_of_length_pos
    omega
  have hstands₁ : Stands t₁ c.internalMaxSize (Level.entries A ++ n.entry :: Level.entries B)
      Us := by
    rw [← hlevel]
    apply h.tail_halves hhalves hpageUs
    intro p hp
    apply hdisjoint p (hX p hp)
  have hfreshUs : n₂.page ∉ entryPages (Level.entries A ++ n.entry :: Level.entries B) ++ pages Us := by
    rw [← hlevel, entryPages_entries, ← pages_cons]
    apply hfresh
  have hasc' : Ascending (Level.entries A ++ n.entry :: (↑key', n₂.page) :: Level.entries B) := by
    rw [← hentries]
    apply Ascending.entries _ hne
    rw [hbelow]
    apply hasc
  obtain ⟨t', Us', hrun₂, hstands', hgrown, hzeroed'⟩ := hup t₁ key' n₂.page hstands₁
    (isSome_body_of_eq hhalves.holds_right.body) hfreshUs hasc'
  rw [← hentries] at hstands' hgrown
  refine ⟨t', (A ++ n₁ :: n₂ :: B) :: Us', hrun₁.trans hrun₂, hstands'.cons hbelow ?_ ?_ ?_, ?_,
    ?_⟩
  · intro m hm
    obtain ⟨hle, htwo, hhalf⟩ := hsizes m hm
    exact ⟨hle, htwo, fun _ => hhalf⟩
  · exact h.holds_halves hloc hhalves hgrown hnodup hsome
  · rw [List.nodup_append]
    refine ⟨(List.nodup_append.mp hnodup).1, ?_, ?_⟩
    · rw [pages_cons, ← entryPages_entries]
      apply hstands'.nodup
    · rintro p hp q hq rfl
      exact hgrown.disjoint_halves hloc hhalves (hsome p hp) (hdisjoint p hp) hq
  · exact hgrown.halves hloc hhalves hX
  · intro hzeroed
    have hitems : Level.items (A ++ n₁ :: n₂ :: B)
        = Level.items (A ++ ⟨n.page, C ++ i :: Item.ofKey key child :: D⟩ :: B) := by
      simp only [Level.items_append, Level.items_cons, ← hhalves.items, List.append_assoc]
    have hinserted : Zeroed c.zeroKey
        ((A ++ ⟨n.page, C ++ i :: Item.ofKey key child :: D⟩ :: B) :: Us) :=
      hzeroed.ofKey hloc (List.Subset.refl D)
    apply hinserted.of_items _ (hzeroed' hzeroed.tail)
    intro x hx
    rw [hitems] at hx
    exact .inl hx

end Located

/-- The levels above a node that has been split take up the new node. -/
theorem Stands.enter (hmax : 4 ≤ c.internalMaxSize)
    (h : Stands t c.internalMaxSize (L ++ e :: R) Us) (hfuel : Us.length < fuel)
    (hchild : (t.body child).isSome) (hnot : child ∉ entryPages (L ++ e :: R) ++ pages Us)
    (hasc : Ascending (L ++ e :: (↑key, child) :: R)) :
  ∃ t' Us', insertEntryIntoParent c fuel e.2 child key t = .ok () t'
    ∧ Stands t' c.internalMaxSize (L ++ e :: (↑key, child) :: R) Us'
    ∧ Grown t t' (L ++ e :: (↑key, child) :: R) Us Us'
    ∧ (Zeroed c.zeroKey Us → Zeroed c.zeroKey Us')
  := by
  induction Us generalizing fuel t L e R key child with
  | nil =>
    obtain ⟨fuel, rfl⟩ := Nat.exists_eq_add_one.mpr hfuel
    have hmaxTwo : 2 ≤ c.internalMaxSize := by omega
    have hnotBelow : child ∉ entryPages (L ++ e :: R) := by simpa using hnot
    obtain ⟨t', Us', hrun, hstands, hgrown, hzeroed⟩ := h.enter_root hmaxTwo hchild hnotBelow
    exact ⟨t', Us', hrun, hstands, hgrown, fun _ => hzeroed⟩
  | cons U Us ih =>
    obtain ⟨fuel, rfl⟩ := Nat.exists_eq_add_one.mpr (Nat.zero_lt_of_lt hfuel)
    obtain ⟨A, n, B, C, i, D, hloc⟩ := exists_located h.tower.1
    by_cases hroom : n.items.length < c.internalMaxSize
    · apply h.enter_room hloc hroom hchild hnot hasc
    · apply h.enter_full hloc hmax (not_lt.mp hroom) hchild hnot hasc
      intro t₁ key' newPage hstands hsome hnew hasc'
      apply ih hstands _ hsome hnew hasc'
      simpa using hfuel

end Grown

end MiniOB.BplusTree
