import MiniOB.Index.Insert
import MiniOB.Index.Search

/-!
# Inserting an entry

The leaf that covers the key takes the new item. A full leaf is split, and its new half is
entered into the levels above.
-/

namespace MiniOB.BplusTree

open LowerBound Levels

variable {K V : Type} {t t' : Tree K V}

/-! ### Changing some leaves -/

section Replace

variable {next : Int} {A B M N : List (Leaf K V)} {l : Leaf K V} {ls : List (Leaf K V)}
  {Us : List (Level K)} {max : Nat}

@[simp]
theorem entryPages_leaves (ls : List (Leaf K V)) :
  entryPages (ls.map Leaf.entry) = ls.map Leaf.page
  := by
  simp [entryPages]

/-- Some neighbouring leaves of a linked list have been replaced. -/
theorem Linked.replace (h : Linked t next (A ++ (M ++ B)))
    (hfirst : firstPage (firstPage next B) N = firstPage (firstPage next B) M)
    (hbody : ∀ l ∈ A ++ B, t'.body l.page = t.body l.page)
    (hN : Linked t' (firstPage next B) N) :
  Linked t' next (A ++ (N ++ B))
  := by
  rw [linked_append, linked_append, firstPage_append] at h
  rw [linked_append, linked_append, firstPage_append, hfirst]
  refine ⟨h.1.congr ?_, hN, h.2.2.congr ?_⟩
  · intro l hl
    apply hbody l (List.mem_append_left _ hl)
  · intro l hl
    apply hbody l (List.mem_append_right _ hl)

/-- The other leaves are on other pages. -/
theorem page_ne_of_nodup (h : ((A ++ l :: B).map Leaf.page).Nodup) :
  ∀ l' ∈ A ++ B, l'.page ≠ l.page
  := by
  rw [List.map_append, List.map_cons, List.nodup_middle, List.nodup_cons, ← List.map_append] at h
  intro l' hl' heq
  apply h.1
  exact List.mem_map.mpr ⟨l', hl', heq⟩

theorem Stands.leaves_nodup (h : Stands t max (ls.map Leaf.entry) Us) :
  (ls.map Leaf.page).Nodup
  := by
  have hnodup := (List.nodup_append.mp h.nodup).1
  rwa [entryPages_leaves] at hnodup

theorem Stands.leaf_not_mem (h : Stands t max (ls.map Leaf.entry) Us) (hl : l ∈ ls) :
  l.page ∉ pages Us
  := by
  have hdisjoint := (List.nodup_append.mp h.nodup).2.2
  rw [entryPages_leaves] at hdisjoint
  intro hmem
  apply hdisjoint _ (List.mem_map_of_mem hl) _ hmem rfl

theorem Stands.leaf_isSome (h : Stands t max (ls.map Leaf.entry) Us) (hl : l ∈ ls) :
  (t.body l.page).isSome
  := by
  apply h.isSome_below
  rw [entryPages_leaves]
  apply List.mem_map_of_mem hl

/-- The levels still stand when other items have been written to a leaf. -/
theorem Stands.write_leaf (h : Stands t max ((A ++ l :: B).map Leaf.entry) Us)
    {body : Body K V} (hsets : Sets t (Function.update t.body l.page (some body)) t.parent t')
    (items : List (K × V)) :
  Stands t' max ((A ++ ⟨l.page, l.bound, items⟩ :: B).map Leaf.entry) Us
  := by
  have hentries : (A ++ ⟨l.page, l.bound, items⟩ :: B).map Leaf.entry
      = (A ++ l :: B).map Leaf.entry := by
    simp [Leaf.entry]
  rw [hentries]
  apply h.congr _ _ hsets.rootPage hsets.header
  · intro p hp
    rw [hsets.body, Function.update_of_ne]
    rintro rfl
    apply h.leaf_not_mem (by simp) hp
  · intro p _
    rw [hsets.parent]

theorem Linked.write_leaf (h : Linked t next (A ++ l :: B))
    (hnodup : ((A ++ l :: B).map Leaf.page).Nodup) {bound : WithBot K} {items : List (K × V)}
    (hsets : Sets t (Function.update t.body l.page
        (some (.leaf (firstPage next B) items))) t.parent t') :
  Linked t' next (A ++ ⟨l.page, bound, items⟩ :: B)
  := by
  apply Linked.replace (M := [l]) (N := [⟨l.page, bound, items⟩]) h rfl
  · intro l' hl'
    rw [hsets.body, Function.update_of_ne (page_ne_of_nodup hnodup l' hl')]
  · refine ⟨?_, trivial⟩
    rw [hsets.body, Function.update_self]
    rfl

/-- A leaf below no level is the only one. -/
theorem Stands.only_leaf (h : Stands t max ((A ++ l :: B).map Leaf.entry) []) : A = [] ∧ B = [] := by
  obtain ⟨page, hpage⟩ := h.tower
  have hlen := congrArg List.length hpage
  simp only [List.length_map, List.length_append, List.length_cons, List.length_nil] at hlen
  constructor <;> apply List.eq_nil_of_length_eq_zero <;> omega

end Replace

/-! ### The leaf -/

section Leaf

variable [LinearOrder K] {c : Parameters K} {page next parent : Int} {P Q : List (K × V)} {key : K}
  {value : V}

theorem leafLookup_absent (hP : ∀ k ∈ P.map Prod.fst, k < key) (hQ : ∀ k ∈ Q.map Prod.fst, key < k) :
  leafLookup (P ++ Q) key = (P.length, false)
  := by
  rw [leafLookup, List.map_append, lowerBound_absent hP hQ, List.length_map]

theorem leafLookup_present (hP : ∀ k ∈ P.map Prod.fst, k < key)
    (hQ : ∀ k ∈ Q.map Prod.fst, key < k) :
  leafLookup (P ++ (key, value) :: Q) key = (P.length, true)
  := by
  rw [leafLookup, List.map_append, List.map_cons, lowerBound_present hP hQ, List.length_map]

theorem insertEntryIntoLeafNode_duplicate (c : Parameters K) {old : V}
    (hbody : t.body page = some (.leaf next (P ++ (key, old) :: Q)))
    (hP : ∀ k ∈ P.map Prod.fst, k < key) (hQ : ∀ k ∈ Q.map Prod.fst, key < k) :
  insertEntryIntoLeafNode c page key value t = .ok .recordDuplicateKey t
  := by
  rw [insertEntryIntoLeafNode, run_bind (getLeaf_eq hbody)]
  simp only [leafLookup_present hP hQ, if_true]
  rfl

theorem insertEntryIntoLeafNode_room (hbody : t.body page = some (.leaf next (P ++ Q)))
    (hP : ∀ k ∈ P.map Prod.fst, k < key) (hQ : ∀ k ∈ Q.map Prod.fst, key < k)
    (hroom : (P ++ Q).length < c.leafMaxSize) :
  ∃ t', insertEntryIntoLeafNode c page key value t = .ok .success t'
    ∧ Sets t (Function.update t.body page (some (.leaf next (P ++ (key, value) :: Q))))
        t.parent t'
  := by
  obtain ⟨t', hrun, hsets⟩ := leafInsert_sets hbody P.length key value
  rw [insertIdx_length] at hsets
  refine ⟨t', ?_, hsets⟩
  rw [insertEntryIntoLeafNode, run_bind (getLeaf_eq hbody)]
  simp only [leafLookup_absent hP hQ, if_pos hroom]
  simp only [Bool.false_eq_true, if_false]
  rw [run_bind hrun]
  rfl

omit [LinearOrder K] in
/-- The two halves of a list, with a new element in one of them. -/
theorem insert_halves {α : Type} (P Q : List α) (x : α) (hlen : 2 ≤ (P ++ Q).length) :
  ∃ X y Y, X ++ y :: Y = P ++ x :: Q ∧ (P ++ Q).length / 2 ≤ X.length
    ∧ X.length ≤ (P ++ Q).length ∧ (P ++ Q).length / 2 ≤ (y :: Y).length
    ∧ (y :: Y).length ≤ (P ++ Q).length
    ∧ (P.length < ((P ++ Q).take ((P ++ Q).length / 2)).length →
        ((P ++ Q).take ((P ++ Q).length / 2)).insertIdx P.length x = X
        ∧ (P ++ Q).drop ((P ++ Q).length / 2) = y :: Y)
    ∧ (¬ P.length < ((P ++ Q).take ((P ++ Q).length / 2)).length →
        (P ++ Q).take ((P ++ Q).length / 2) = X
        ∧ ((P ++ Q).drop ((P ++ Q).length / 2)).insertIdx
            (P.length - ((P ++ Q).take ((P ++ Q).length / 2)).length) x = y :: Y)
  := by
  have hsum : (P ++ Q).length = P.length + Q.length := List.length_append
  have htake : ((P ++ Q).take ((P ++ Q).length / 2)).length = (P ++ Q).length / 2 := by
    rw [List.length_take]
    omega
  by_cases hP : P.length < (P ++ Q).length / 2
  · obtain ⟨Q₁, Q₂, rfl, hQ₁⟩ : ∃ Q₁ Q₂, Q = Q₁ ++ Q₂ ∧ (P ++ Q₁).length = (P ++ Q).length / 2 := by
      refine ⟨Q.take ((P ++ Q).length / 2 - P.length), Q.drop ((P ++ Q).length / 2 - P.length),
        (List.take_append_drop _ Q).symm, ?_⟩
      rw [List.length_append, List.length_take]
      omega
    rw [← List.append_assoc] at hsum htake hP hlen hQ₁ ⊢
    have htake' : (P ++ Q₁ ++ Q₂).take ((P ++ Q₁ ++ Q₂).length / 2) = P ++ Q₁ := by
      rw [← hQ₁, List.take_left]
    have hdrop' : (P ++ Q₁ ++ Q₂).drop ((P ++ Q₁ ++ Q₂).length / 2) = Q₂ := by
      rw [← hQ₁, List.drop_left]
    obtain ⟨y, Y, rfl⟩ : ∃ y Y, Q₂ = y :: Y := by
      apply List.exists_cons_of_ne_nil
      rintro rfl
      rw [List.append_nil] at hQ₁ hlen
      omega
    simp only [List.length_append, List.length_cons] at hQ₁ hsum hlen hP
    refine ⟨P ++ x :: Q₁, y, Y, by simp, ?_, ?_, ?_, ?_, ?_, ?_⟩
    · simp only [List.length_append, List.length_cons]
      omega
    · simp only [List.length_append, List.length_cons]
      omega
    · simp only [List.length_append, List.length_cons]
      omega
    · simp only [List.length_append, List.length_cons]
      omega
    · intro _
      rw [htake', hdrop', insertIdx_length]
      exact ⟨rfl, rfl⟩
    · intro hge
      rw [htake'] at hge
      simp only [List.length_append] at hge
      omega
  · obtain ⟨P₁, P₂, rfl, hP₁⟩ : ∃ P₁ P₂, P = P₁ ++ P₂ ∧ P₁.length = (P ++ Q).length / 2 :=
      ⟨P.take _, P.drop _, (List.take_append_drop _ P).symm,
        List.length_take_of_le (not_lt.mp hP)⟩
    obtain ⟨y, Y, hY⟩ : ∃ y Y, P₂ ++ x :: Q = y :: Y :=
      List.exists_cons_of_ne_nil (by simp)
    have hlenY := congrArg List.length hY
    have htake' : (P₁ ++ P₂ ++ Q).take ((P₁ ++ P₂ ++ Q).length / 2) = P₁ := by
      rw [← hP₁, List.append_assoc, List.take_left]
    have hdrop' : (P₁ ++ P₂ ++ Q).drop ((P₁ ++ P₂ ++ Q).length / 2) = P₂ ++ Q := by
      rw [← hP₁, List.append_assoc, List.drop_left]
    simp only [List.length_append, List.length_cons] at hP₁ hsum hlen hP hlenY
    refine ⟨P₁, y, Y, by simp [← hY], ?_, ?_, ?_, ?_, ?_, ?_⟩
    · simp only [List.length_append]
      omega
    · simp only [List.length_append]
      omega
    · simp only [List.length_append, List.length_cons]
      omega
    · simp only [List.length_append, List.length_cons]
      omega
    · intro hlt
      rw [htake'] at hlt
      simp only [List.length_append] at hlt hP₁
      omega
    · intro _
      have hposition : (P₁ ++ P₂).length - P₁.length = P₂.length := by
        rw [List.length_append]
        omega
      rw [htake', hdrop', hposition, insertIdx_length, hY]
      exact ⟨rfl, rfl⟩

/-- A full leaf is split, and the new item goes into one of the halves. What is left to do is
to enter the new leaf into the levels above. -/
theorem insertEntryIntoLeafNode_full (value : V) (hbody : t.body page = some (.leaf next (P ++ Q)))
    (hP : ∀ k ∈ P.map Prod.fst, k < key) (hQ : ∀ k ∈ Q.map Prod.fst, key < k)
    (hfull : c.leafMaxSize ≤ (P ++ Q).length) (htwo : 2 ≤ (P ++ Q).length)
    (hparent : t.parent page = some parent) (hheader : t.header.isSome) :
  ∃ X y Y newPage t', X ++ y :: Y = P ++ (key, value) :: Q
    ∧ (P ++ Q).length / 2 ≤ X.length ∧ X.length ≤ (P ++ Q).length
    ∧ (P ++ Q).length / 2 ≤ (y :: Y).length ∧ (y :: Y).length ≤ (P ++ Q).length
    ∧ t.body newPage = none
    ∧ Sets t (Function.update (Function.update t.body newPage (some (.leaf next (y :: Y)))) page
        (some (.leaf newPage X))) (Function.update t.parent newPage (some parent)) t'
    ∧ insertEntryIntoLeafNode c page key value t
      = (do insertEntryIntoParent c t'.pages.length page newPage y.1; pure .success
          : Mtr K V RC) t'
  := by
  obtain ⟨X, y, Y, hXY, hX, hX', hY, hY', hleft, hright⟩ :=
    insert_halves P Q (key, value) htwo
  obtain ⟨newPage, t₁, hrun₁, hfresh, hsets₁⟩ := split_leaf hbody hparent hheader
  have hne : newPage ≠ page := (ne_of_body_none hfresh (isSome_body_of_eq hbody)).symm
  generalize hhalf : (P ++ Q).take ((P ++ Q).length / 2) = left at hleft hright hsets₁
  generalize hrest : (P ++ Q).drop ((P ++ Q).length / 2) = right at hleft hright hsets₁
  -- the links of the two leaves
  have hpage₁ : t₁.body page = some (.leaf next left) := by
    rw [hsets₁.body, Function.update_self]
  have hnew₁ : t₁.body newPage = some (.leaf invalidPageNum right) := by
    rw [hsets₁.body, Function.update_of_ne hne, Function.update_self]
  obtain ⟨t₂, hrun₂, hsets₂⟩ := setNextPage_sets hnew₁ next
  rw [hsets₁.body, hsets₁.parent, Function.update_comm hne, Function.update_idem,
    Function.update_comm hne.symm] at hsets₂
  have hpage₂ : t₂.body page = some (.leaf next left) := by
    rw [hsets₂.body, Function.update_self]
  obtain ⟨parent₂, hnode₂, hparent₂⟩ := node_of_body hpage₂
  rw [hsets₂.parent, Function.update_of_ne hne.symm, hparent, Option.some.injEq] at hparent₂
  subst hparent₂
  have hnew₂ : t₂.body newPage = some (.leaf next right) := by
    rw [hsets₂.body, Function.update_of_ne hne, Function.update_self]
  obtain ⟨t₃, hrun₃, hsets₃⟩ := setParentPageNum_sets (isSome_body_of_eq hnew₂) parent
  rw [hsets₂.body, hsets₂.parent, Function.update_idem] at hsets₃
  have hpage₃ : t₃.body page = some (.leaf next left) := by
    rw [hsets₃.body, Function.update_self]
  obtain ⟨t₄, hrun₄, hsets₄⟩ := setNextPage_sets hpage₃ newPage
  rw [hsets₃.body, hsets₃.parent, Function.update_idem] at hsets₄
  have hsets : Sets t (Function.update (Function.update t.body newPage (some (.leaf next right)))
      page (some (.leaf newPage left))) (Function.update t.parent newPage (some parent)) t₄ :=
    hsets₁.trans (hsets₂.trans (hsets₃.trans hsets₄))
  have hpage₄ : t₄.body page = some (.leaf newPage left) := by
    rw [hsets.body, Function.update_self]
  have hnew₄ : t₄.body newPage = some (.leaf next right) := by
    rw [hsets.body, Function.update_of_ne hne, Function.update_self]
  -- the new item
  obtain ⟨t₅, hrun₅, hsets₅⟩ : ∃ t₅,
      (if P.length < left.length then leafInsert page P.length key value
        else leafInsert newPage (P.length - left.length) key value : Mtr K V Unit) t₄ = .ok () t₅
      ∧ Sets t₄ (Function.update (Function.update t.body newPage (some (.leaf next (y :: Y)))) page
        (some (.leaf newPage X))) (Function.update t.parent newPage (some parent)) t₅ := by
    by_cases hlt : P.length < left.length
    · obtain ⟨hX, hY⟩ := hleft hlt
      obtain ⟨t₅, hrun₅, hsets₅⟩ := leafInsert_sets hpage₄ P.length key value
      rw [hsets.body, hsets.parent, Function.update_idem, hX, hY] at hsets₅
      rw [if_pos hlt]
      exact ⟨t₅, hrun₅, hsets₅⟩
    · obtain ⟨hX, hY⟩ := hright hlt
      obtain ⟨t₅, hrun₅, hsets₅⟩ := leafInsert_sets hnew₄ (P.length - left.length) key value
      rw [hsets.body, hsets.parent, Function.update_comm hne, Function.update_idem,
        Function.update_comm hne.symm, hY, hX] at hsets₅
      rw [if_neg hlt]
      exact ⟨t₅, hrun₅, hsets₅⟩
  have hnew₅ : t₅.body newPage = some (.leaf next (y :: Y)) := by
    rw [hsets₅.body, Function.update_of_ne hne, Function.update_self]
  obtain ⟨_, hnode₅, _⟩ := node_of_body hnew₅
  refine ⟨X, y, Y, newPage, t₅, hXY, hX, hX', hY, hY', hfresh, hsets.trans hsets₅, ?_⟩
  rw [insertEntryIntoLeafNode, run_bind (getLeaf_eq hbody)]
  simp only [leafLookup_absent hP hQ, if_neg (not_lt.mpr hfull)]
  simp only [Bool.false_eq_true, if_false]
  rw [run_bind hrun₁, run_bind (getLeaf_eq hpage₁)]
  simp only
  rw [run_bind hrun₂, run_bind (getNode_eq hnode₂), run_bind hrun₃, run_bind hrun₄]
  have hend : (do
      let firstKey ← item ((← getNode newPage).body.keyAt 0)
      insertEntryIntoParent c (← get).pages.length page newPage firstKey
      pure .success : Mtr K V RC) t₅
      = (do insertEntryIntoParent c t₅.pages.length page newPage y.1; pure .success
          : Mtr K V RC) t₅ := by
    rw [run_bind (getNode_eq hnode₅)]
    simp only [Body.keyAt, List.getElem?_cons_zero, Option.map_some]
    rw [run_bind (item_some _), run_bind run_get]
  by_cases hlt : P.length < left.length
  · rw [if_pos hlt] at hrun₅ ⊢
    rw [run_bind hrun₅, hend]
  · rw [if_neg hlt] at hrun₅ ⊢
    rw [run_bind hrun₅, hend]

end Leaf

/-! ### The tree -/

/-- The tree is empty. -/
structure Vacant (t : Tree K V) : Prop where
  root : t.rootPage = invalidPageNum
  header : t.header = some invalidPageNum
  disposed : t.disposedPages = []

section Tree

variable [LinearOrder K] {c : Parameters K} {ls : List (Leaf K V)} {Us : List (Level K)}

/-- The first entry makes a leaf, which is the root. -/
theorem Vacant.insertEntry (h : Vacant t) (hmax : 1 ≤ c.leafMaxSize) (key : K) (value : V) :
  ∃ t' page, insertEntry c key value t = .ok .success t'
    ∧ Represents c t' [⟨page, ⊥, [(key, value)]⟩] []
  := by
  have hheader : t.header.isSome := by
    rw [h.header, Option.isSome_some]
  obtain ⟨page, t₁, hrun₁, hfresh, hsets₁⟩ := allocatePage_sets hheader (.leaf invalidPageNum [])
  have hbody₁ : t₁.body page = some (.leaf invalidPageNum []) := by
    rw [hsets₁.body, Function.update_self]
  obtain ⟨t₂, hrun₂, hsets₂⟩ := leafInsert_sets hbody₁ 0 key value
  have hheader₂ : t₂.header.isSome := by
    rw [hsets₂.header, hsets₁.header]
    apply hheader
  obtain ⟨t₃, hrun₃, hbody₃, hparent₃, hroot₃, hheader₃, hdisposed₃⟩ :=
    updateRootPageNum_run hheader₂ page
  refine ⟨t₃, page, ?_, ?_, ?_, ?_, ?_, ?_⟩
  · rw [BplusTree.insertEntry, run_bind run_get]
    simp only [if_pos h.root]
    rw [createNewTree, run_bind run_get]
    simp only [h.root, ne_eq, not_true_eq_false, if_false]
    rw [run_bind hrun₁, run_bind hrun₂, run_bind hrun₃]
    rfl
  · refine ⟨⟨page, rfl⟩, by simp, ?_, hroot₃, hheader₃, by simp⟩
    change t₃.parent page = _
    rw [hparent₃, hsets₂.parent, hsets₁.parent, Function.update_self]
  · refine ⟨?_, trivial⟩
    rw [hbody₃, hsets₂.body, Function.update_self]
    rfl
  · simp [Ordered, marks, Leaf.marks, itemMarks, Mark.Before]
  · intro l hl
    rw [List.mem_singleton] at hl
    subst hl
    exact ⟨hmax, Nat.le_refl _, fun hne => absurd rfl hne⟩
  · rw [hdisposed₃, hsets₂.disposed, hsets₁.disposed, h.disposed]

section Insert

variable {A B : List (Leaf K V)} {l : Leaf K V} {P Q : List (K × V)} {key : K} {value : V}

/-- The leaf that covers the key has room. -/
theorem Represents.insert_room (h : Represents c t (A ++ l :: B) Us) (value : V)
    (hcovers : Covers key (A.map Leaf.entry) l.entry (B.map Leaf.entry))
    (hitems : l.items = P ++ Q) (hP : ∀ k ∈ P.map Prod.fst, k < key)
    (hQ : ∀ k ∈ Q.map Prod.fst, key < k) (hroom : (P ++ Q).length < c.leafMaxSize) :
  ∃ t', insertEntryIntoLeafNode c l.page key value t = .ok .success t'
    ∧ Represents c t' (A ++ ⟨l.page, l.bound, P ++ (key, value) :: Q⟩ :: B) Us
  := by
  have hbody := h.linked.body
  rw [hitems] at hbody
  obtain ⟨t', hrun, hsets⟩ := insertEntryIntoLeafNode_room hbody hP hQ hroom
  refine ⟨t', hrun, h.stands.write_leaf hsets _, h.linked.write_leaf h.stands.leaves_nodup hsets,
    ?_, ?_, ?_⟩
  · have hordered := h.ordered
    have hl : l = ⟨l.page, l.bound, P ++ Q⟩ := by rw [← hitems]
    rw [hl] at hordered
    apply hordered.insert hcovers.le _ hP hQ
    intro r hr
    apply hcovers.lt r.entry (List.mem_map_of_mem hr)
  · intro m hm
    rw [List.mem_append, List.mem_cons] at hm
    obtain hm | rfl | hm := hm
    · apply h.sizes m (by simp [hm])
    · have hsize := h.sizes l (by simp)
      rw [hitems] at hsize
      simp only [List.length_append, List.length_cons] at hroom hsize ⊢
      refine ⟨by omega, by omega, fun hUs => ?_⟩
      have hhalf := hsize.2.2 hUs
      omega
    · apply h.sizes m (by simp [hm])
  · rw [hsets.disposed, h.disposed]

/-- The leaf that covers the key is full. -/
theorem Represents.insert_full (h : Represents c t (A ++ l :: B) Us) (value : V)
    (hmax : 4 ≤ c.internalMaxSize) (hleafMax : 2 ≤ c.leafMaxSize)
    (hcovers : Covers key (A.map Leaf.entry) l.entry (B.map Leaf.entry))
    (hitems : l.items = P ++ Q) (hP : ∀ k ∈ P.map Prod.fst, k < key)
    (hQ : ∀ k ∈ Q.map Prod.fst, key < k) (hfull : c.leafMaxSize ≤ (P ++ Q).length) :
  ∃ t' X Y newPage bound Us', insertEntryIntoLeafNode c l.page key value t = .ok .success t'
    ∧ X ++ Y = P ++ (key, value) :: Q
    ∧ Represents c t' (A ++ ⟨l.page, l.bound, X⟩ :: ⟨newPage, bound, Y⟩ :: B) Us'
    ∧ (Zeroed c.zeroKey Us → Zeroed c.zeroKey Us')
  := by
  have hbody := h.linked.body
  have hlmem : l ∈ A ++ l :: B := by simp
  have hsize := h.sizes l hlmem
  rw [hitems] at hbody hsize
  obtain ⟨w, _, hw⟩ := node_of_body hbody
  obtain ⟨X, y, Y, newPage, t₁, hXY, hX, hX', hY, hY', hfresh, hsets, hrun₁⟩ :=
    insertEntryIntoLeafNode_full value hbody hP hQ hfull (by omega) hw
      h.stands.header_isSome
  have hne : newPage ≠ l.page := (ne_of_body_none hfresh (isSome_body_of_eq hbody)).symm
  have hordered : Ordered (A ++ ⟨l.page, l.bound, X⟩ :: ⟨newPage, y.1, y :: Y⟩ :: B) := by
    apply Ordered.divide
    · have hold := h.ordered
      have hl : l = ⟨l.page, l.bound, P ++ Q⟩ := by rw [← hitems]
      rw [hl] at hold
      rw [hXY]
      apply hold.insert hcovers.le _ hP hQ
      intro r hr
      apply hcovers.lt r.entry (List.mem_map_of_mem hr)
    · apply List.ne_nil_of_length_pos
      omega
  -- the levels stand on the old leaf, and take up the new one
  have hstands₁ : Stands t₁ c.internalMaxSize
      (A.map Leaf.entry ++ l.entry :: B.map Leaf.entry) Us := by
    have hstands := h.stands
    rw [List.map_append, List.map_cons] at hstands
    apply hstands.congr _ _ hsets.rootPage hsets.header
    · intro p hp
      have hpl : p ≠ l.page := by
        rintro rfl
        apply h.stands.leaf_not_mem hlmem hp
      rw [hsets.body, Function.update_of_ne hpl,
        Function.update_of_ne (ne_of_body_none hfresh (hstands.isSome_pages hp))]
    · intro p hp
      rw [hsets.parent, Function.update_of_ne (ne_of_body_none hfresh (hstands.isSome hp))]
  have hnew₁ : t₁.body newPage = some (.leaf (firstPage invalidPageNum B) (y :: Y)) := by
    rw [hsets.body, Function.update_of_ne hne, Function.update_self]
  have hnot : newPage ∉ entryPages (A.map Leaf.entry ++ l.entry :: B.map Leaf.entry)
      ++ pages Us := by
    have hstands := h.stands
    rw [List.map_append, List.map_cons] at hstands
    intro hmem
    apply ne_of_body_none hfresh (hstands.isSome hmem) rfl
  have hasc : Ascending (A.map Leaf.entry ++ l.entry :: (↑y.1, newPage) :: B.map Leaf.entry) := by
    have hentries := hordered.ascending
    simpa [Leaf.entry] using hentries
  obtain ⟨t', Us', hrun₂, hstands', hgrown, hzeroed⟩ := hstands₁.enter hmax hstands₁.length_lt
    (isSome_body_of_eq hnew₁) hnot hasc
  refine ⟨t', X, y :: Y, newPage, y.1, Us', ?_, hXY, ⟨?_, ?_, hordered, ?_, ?_⟩, hzeroed⟩
  · rw [hrun₁]
    rw [Leaf.entry_snd] at hrun₂
    rw [run_bind hrun₂]
    rfl
  · simpa [Leaf.entry] using hstands'
  · have hother : ∀ m ∈ A ++ B, t₁.body m.page = t.body m.page := by
      intro m hm
      have hmem : m ∈ A ++ l :: B := by
        rw [List.mem_append] at hm
        rw [List.mem_append, List.mem_cons]
        tauto
      rw [hsets.body, Function.update_of_ne (page_ne_of_nodup h.stands.leaves_nodup m hm),
        Function.update_of_ne (ne_of_body_none hfresh (h.stands.leaf_isSome hmem))]
    have hlinked₁ : Linked t₁ invalidPageNum
        (A ++ ⟨l.page, l.bound, X⟩ :: ⟨newPage, ↑y.1, y :: Y⟩ :: B) := by
      apply Linked.replace (M := [l]) (N := [⟨l.page, l.bound, X⟩, ⟨newPage, ↑y.1, y :: Y⟩])
        h.linked rfl hother
      refine ⟨?_, hnew₁, trivial⟩
      rw [hsets.body, Function.update_self]
      rfl
    apply hlinked₁.congr
    intro m hm
    apply hgrown.body m.page (hlinked₁.isSome hm)
    by_cases hmnew : m.page = newPage
    · rw [hmnew]
      intro hmem
      apply hnot (List.mem_append_right _ hmem)
    · rw [List.mem_append, List.mem_cons, List.mem_cons] at hm
      obtain hm | rfl | rfl | hm := hm
      · apply h.stands.leaf_not_mem
        apply List.mem_append_left _ hm
      · apply h.stands.leaf_not_mem hlmem
      · contradiction
      · apply h.stands.leaf_not_mem
        apply List.mem_append_right _ (List.mem_cons_of_mem _ hm)
  · intro m hm
    have hall : m ∈ A ∨ m ∈ B → m.items.length ≤ c.leafMaxSize ∧ 1 ≤ m.items.length
        ∧ (Us' ≠ [] → c.leafMaxSize / 2 ≤ m.items.length) := by
      intro hAB
      have hmsize := h.sizes m (by simp only [List.mem_append, List.mem_cons]; tauto)
      refine ⟨hmsize.1, hmsize.2.1, fun _ => hmsize.2.2 ?_⟩
      rintro rfl
      obtain ⟨rfl, rfl⟩ := h.stands.only_leaf
      simp at hAB
    rw [List.mem_append, List.mem_cons, List.mem_cons] at hm
    obtain hm | rfl | rfl | hm := hm
    · apply hall (.inl hm)
    · change X.length ≤ _ ∧ 1 ≤ X.length ∧ (_ → _ ≤ X.length)
      exact ⟨by omega, by omega, fun _ => by omega⟩
    · change (y :: Y).length ≤ _ ∧ 1 ≤ (y :: Y).length ∧ (_ → _ ≤ (y :: Y).length)
      exact ⟨by omega, by omega, fun _ => by omega⟩
    · apply hall (.inr hm)
  · rw [hgrown.disposed, hsets.disposed, h.disposed]

end Insert

/-- Inserting an entry: it is there already, or it is put in its place. -/
theorem Represents.insertEntry (h : Represents c t ls Us) (hmax : 4 ≤ c.internalMaxSize)
    (hleafMax : 2 ≤ c.leafMaxSize) (key : K) (value : V) :
  (∃ old, (key, old) ∈ contents ls ∧ insertEntry c key value t = .ok .recordDuplicateKey t)
    ∨ ∃ t' ls' Us' P Q, insertEntry c key value t = .ok .success t' ∧ Represents c t' ls' Us'
      ∧ contents ls = P ++ Q ∧ contents ls' = P ++ (key, value) :: Q
      ∧ (Zeroed c.zeroKey Us → Zeroed c.zeroKey Us')
  := by
  obtain ⟨A, l, B, rfl, hcovers, hfind⟩ := h.findLeaf key
  have hroot : t.rootPage ≠ invalidPageNum := by
    rw [h.stands.root]
    apply ne_invalid_of_body (h.stands.isSome h.stands.tower.top_mem)
  have hrun : BplusTree.insertEntry c key value t = insertEntryIntoLeafNode c l.page key value t := by
    rw [BplusTree.insertEntry, run_bind run_get]
    simp only [if_neg hroot]
    rw [run_bind hfind]
  have hsorted : (l.items.map Prod.fst).Pairwise (· < ·) := by
    apply List.Pairwise.sublist _ h.ordered.sorted
    apply List.Sublist.map
    rw [contents_append, contents_cons]
    apply List.Sublist.trans (List.sublist_append_left _ _) (List.sublist_append_right _ _)
  rw [hrun]
  obtain ⟨P, Q, hitems | ⟨old, hitems⟩, hP, hQ⟩ := exists_position key hsorted
  · right
    by_cases hroom : (P ++ Q).length < c.leafMaxSize
    · obtain ⟨t', hrun', hrep⟩ := h.insert_room value hcovers hitems hP hQ hroom
      refine ⟨t', _, Us, contents A ++ P, Q ++ contents B, hrun', hrep, ?_, ?_, id⟩
      · simp [hitems]
      · simp
    · obtain ⟨t', X, Y, newPage, bound, Us', hrun', hXY, hrep, hzeroed⟩ := h.insert_full value
        hmax hleafMax hcovers hitems hP hQ (not_lt.mp hroom)
      refine ⟨t', _, Us', contents A ++ P, Q ++ contents B, hrun', hrep, ?_, ?_, hzeroed⟩
      · simp [hitems]
      · rw [contents_append, contents_cons, contents_cons, ← List.append_assoc X, hXY]
        simp
  · left
    have hbody := h.linked.body
    rw [hitems] at hbody
    refine ⟨old, ?_, insertEntryIntoLeafNode_duplicate c hbody hP hQ⟩
    rw [contents_append, contents_cons, hitems]
    simp

end Tree

end MiniOB.BplusTree
