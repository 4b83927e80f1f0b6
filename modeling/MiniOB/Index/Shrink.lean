import MiniOB.Index.Remove

/-!
# Rebalancing the levels

The run of `coalesceOrRedistribute` through the levels, from a node that lacks an item up to
the root.
-/

namespace MiniOB.BplusTree

open LowerBound Levels

variable {K V : Type} {t t₁ t₂ t' : Tree K V}

/-- The levels `U` and `Us` stand on the entries `below`, whatever the sizes of the nodes
of `U`. -/
structure Rests (t : Tree K V) (max : Nat) (below : List (Entry K)) (U : Level K)
    (Us : List (Level K)) : Prop where
  stands : Stands t max (Level.entries U) Us
  below_eq : Level.below U = below
  holds : ∀ m ∈ U, Holds t m
  nodup : (entryPages below ++ pages (U :: Us)).Nodup

section Rests

variable {max : Nat} {below : List (Entry K)} {U W : Level K} {Us : List (Level K)}
  {A B A' B' : Level K} {l r l' r' q : Branch K} {C D : List (Item K)} {i j : Item K} {zeroKey : K}

theorem Wanting.rests {n : Branch K} (h : Wanting t max below A n B Us) :
  Rests t max below (A ++ n :: B) Us
  := ⟨h.stands, h.below_eq, h.holds, h.nodup⟩

theorem Rests.toStands (h : Rests t max below U Us) (hsize : ∀ n ∈ U, n.items.length ≤ max
      ∧ 2 ≤ n.items.length ∧ (Us ≠ [] → max / 2 ≤ n.items.length)) :
  Stands t max below (U :: Us)
  := h.stands.cons h.below_eq hsize h.holds h.nodup

theorem Rests.child_mem (h : Rests t max below U Us) {m : Branch K} (hm : m ∈ U) {p : Int}
    (hp : p ∈ m.children) :
  p ∈ entryPages below
  := by
  rw [← h.below_eq, entryPages_below]
  exact List.mem_flatMap.mpr ⟨m, hm, hp⟩

/-- The children of the nodes are not on the pages of the levels. -/
theorem Rests.child_not_mem (h : Rests t max below U Us) {m : Branch K} (hm : m ∈ U) {p : Int}
    (hp : p ∈ m.children) :
  p ∉ pages (U :: Us)
  := by
  intro hmem
  apply (List.nodup_append.mp h.nodup).2.2 p (h.child_mem hm hp) p hmem rfl

theorem Rests.pages_nodup (h : Rests t max below U Us) : (pages (U :: Us)).Nodup :=
  (List.nodup_append.mp h.nodup).2.1

theorem Rests.page_not_mem (h : Rests t max below U Us) {m : Branch K} (hm : m ∈ U) :
  m.page ∉ pages Us
  := by
  have hnodup := h.pages_nodup
  rw [pages_cons] at hnodup
  intro hmem
  apply (List.nodup_append.mp hnodup).2.2 _ (List.mem_map_of_mem hm) _ hmem rfl

theorem Rests.page_ne (h : Rests t max below U Us) {m n : Branch K} (hm : m ∈ U)
    (hn : n ∈ Us.flatten) :
  n.page ≠ m.page
  := by
  intro heq
  apply h.page_not_mem hm
  rw [← heq]
  apply mem_pages hn

theorem Rests.children_nodup (h : Rests t max below U Us) : (U.flatMap Branch.children).Nodup := by
  rw [← entryPages_below, h.below_eq]
  apply (List.nodup_append.mp h.nodup).1

/-- The two neighbours are on different pages and have different children. -/
theorem Rests.neighbours (h : Rests t max below (A ++ l :: r :: B) Us) :
  l.page ≠ r.page ∧ (l.children ++ r.children).Nodup
  := by
  constructor
  · have hnodup := h.pages_nodup
    rw [pages_cons, List.map_append, List.map_cons, List.map_cons] at hnodup
    have htail := (List.nodup_append.mp (List.nodup_append.mp hnodup).1).2.1
    rw [List.nodup_cons, List.mem_cons, not_or] at htail
    apply htail.1.1
  · have hnodup := h.children_nodup
    rw [List.flatMap_append, List.flatMap_cons, List.flatMap_cons, ← List.append_assoc
      l.children] at hnodup
    apply (List.nodup_append.mp (List.nodup_append.mp hnodup).2.1).1

/-- The other nodes of the level are on other pages than the two neighbours, and have other
children. -/
theorem Rests.others (h : Rests t max below (A ++ l :: r :: B) Us) {m : Branch K}
    (hm : m ∈ A ++ B) :
  m.page ≠ l.page ∧ m.page ≠ r.page ∧ ∀ p ∈ m.children, p ∉ l.children ∧ p ∉ r.children
  := by
  have hpages := h.pages_nodup
  have hchildren := h.children_nodup
  rw [pages_cons] at hpages
  replace hpages := (List.nodup_append.mp hpages).1
  have hperm : (A ++ l :: r :: B).Perm (l :: r :: (A ++ B)) := by
    apply List.perm_middle.trans
    apply List.Perm.cons
    apply List.perm_middle
  rw [(hperm.map Branch.page).nodup_iff, List.map_cons, List.map_cons, List.nodup_cons,
    List.nodup_cons, List.mem_cons, not_or] at hpages
  rw [(hperm.flatMap_right Branch.children).nodup_iff, List.flatMap_cons, List.flatMap_cons] at hchildren
  have hleft := (List.nodup_append.mp hchildren).2.2
  have hright := (List.nodup_append.mp (List.nodup_append.mp hchildren).2.1).2.2
  refine ⟨?_, ?_, ?_⟩
  · intro heq
    apply hpages.1.2
    exact List.mem_map.mpr ⟨m, hm, heq⟩
  · intro heq
    apply hpages.2.1
    exact List.mem_map.mpr ⟨m, hm, heq⟩
  · intro p hp
    have hmem : p ∈ (A ++ B).flatMap Branch.children := List.mem_flatMap.mpr ⟨m, hm, hp⟩
    exact ⟨fun hpl => hleft p hpl p (List.mem_append_right _ hmem) rfl,
      fun hpr => hright p hpr p hmem rfl⟩

/-- The nodes of the level after items have moved between two of them. -/
theorem Rests.holds_moved (h : Rests t max below (A ++ l :: r :: B) Us)
    (hholds : ∀ m ∈ A ++ B, Holds t₁ m) (hmoved : Moved t₁ t' l r l' r') :
  ∀ m ∈ A ++ l' :: r' :: B, Holds t' m
  := by
  have hold : ∀ m ∈ A ++ B, Holds t' m := by
    intro m hm
    obtain ⟨hl, hr, hchildren⟩ := h.others hm
    apply (hholds m hm).congr (hmoved.body _ hl hr)
    intro p hp
    apply hmoved.parent p (hchildren p hp).1 (hchildren p hp).2
  intro m hm
  rw [List.mem_append, List.mem_cons, List.mem_cons] at hm
  obtain hm | rfl | rfl | hm := hm
  · apply hold m (List.mem_append_left _ hm)
  · apply hmoved.holds_left
  · apply hmoved.holds_right
  · apply hold m (List.mem_append_right _ hm)

/-- The levels above stand when items have moved between two nodes. -/
theorem Rests.stands_moved (h : Rests t max below (A ++ l :: r :: B) Us)
    (hmoved : Moved t t' l r l' r') :
  Stands t' max (Level.entries (A ++ l :: r :: B)) Us
  := by
  have hl : l ∈ A ++ l :: r :: B := by simp
  have hr : r ∈ A ++ l :: r :: B := by simp
  apply h.stands.congr _ _ hmoved.rootPage hmoved.header
  · intro p hp
    apply hmoved.body
    · rintro rfl
      apply h.page_not_mem hl hp
    · rintro rfl
      apply h.page_not_mem hr hp
  · intro p hp
    rw [entryPages_entries, ← pages_cons] at hp
    apply hmoved.parent
    · intro hmem
      apply h.child_not_mem hl hmem hp
    · intro hmem
      apply h.child_not_mem hr hmem hp

/-- Items have moved between two neighbours, and their parent has the new key. -/
theorem Rests.rekey (h : Rests t max below (A ++ l :: r :: B) (W :: Us))
    (hloc : Located W (Level.entries A) l.entry (r.entry :: Level.entries B) A' q B' C i (j :: D))
    (hmoved : Moved t t₁ l r l' r') {key : K}
    (hsets : Sets t₁ (Function.update t₁.body q.page (some (.internal
        ((C ++ i :: Item.ofKey key j.child :: D).map Item.slot)))) t₁.parent t')
    (hleft : l'.entry = l.entry) (hright : r'.bound = key) :
  ∃ W', Rests t' max below (A ++ l' :: r' :: B) (W' :: Us)
    ∧ Shrunk t t' below (pages ((A ++ l :: r :: B) :: W :: Us))
        (pages ((A ++ l' :: r' :: B) :: W' :: Us))
    ∧ (Zeroed zeroKey ((A ++ l :: r :: B) :: W :: Us) →
        Zeroed zeroKey ((A ++ l' :: r' :: B) :: W' :: Us))
  := by
  have hq : q ∈ (W :: Us).flatten := by
    rw [List.flatten_cons]
    apply List.mem_append_left _ hloc.mem
  have hstands₁ := h.stands_moved hmoved
  rw [Level.entries_append, Level.entries_cons, Level.entries_cons] at hstands₁
  have hstands' := hstands₁.rekey hloc hsets
  have hentries : Level.entries A ++ l.entry :: (↑key, r.entry.2) :: Level.entries B
      = Level.entries (A ++ l' :: r' :: B) := by
    rw [Level.entries_append, Level.entries_cons, Level.entries_cons, hleft, Branch.entry_snd,
      ← hmoved.page_right, ← hright]
    rfl
  rw [hentries] at hstands'
  have hpages : pages ((A ++ l' :: r' :: B)
      :: (A' ++ ⟨q.page, C ++ i :: Item.ofKey key j.child :: D⟩ :: B') :: Us)
      = pages ((A ++ l :: r :: B) :: W :: Us) := by
    simp [hloc.level, hmoved.page_left, hmoved.page_right]
  have hqpage : q.page ∈ pages ((A ++ l :: r :: B) :: W :: Us) := by
    rw [pages_cons]
    apply List.mem_append_right _ (mem_pages hq)
  have hlpage : l.page ∈ pages ((A ++ l :: r :: B) :: W :: Us) := by simp
  have hrpage : r.page ∈ pages ((A ++ l :: r :: B) :: W :: Us) := by simp
  refine ⟨_, ⟨hstands', ?_, ?_, ?_⟩, ?_, fun hzeroed => hzeroed.moved hmoved.items
    (hzeroed.tail.ofKey hloc (List.subset_cons_self j D))⟩
  · rw [← h.below_eq]
    simp only [Level.below_append, Level.below_cons]
    rw [← List.append_assoc (List.map _ _), ← List.map_append, hmoved.items, List.map_append,
      List.append_assoc]
  · intro m hm
    have hold : ∀ m ∈ A ++ B, Holds t m := by
      intro m hm
      apply h.holds
      simp only [List.mem_append, List.mem_cons] at hm ⊢
      tauto
    have hm₁ := h.holds_moved hold hmoved m hm
    apply hm₁.congr
    · rw [hsets.body, Function.update_of_ne]
      rw [List.mem_append, List.mem_cons, List.mem_cons] at hm
      obtain hm | rfl | rfl | hm := hm
      · apply (h.page_ne (by simp [hm]) hq).symm
      · rw [hmoved.page_left]
        apply (h.page_ne (by simp) hq).symm
      · rw [hmoved.page_right]
        apply (h.page_ne (by simp) hq).symm
      · apply (h.page_ne (by simp [hm]) hq).symm
    · intro p _
      rw [hsets.parent]
  · rw [hpages]
    apply h.nodup
  · constructor
    · intro p hp
      rw [hsets.body, Function.update_of_ne (ne_of_mem_of_not_mem hqpage hp).symm, hmoved.body p
        (ne_of_mem_of_not_mem hlpage hp).symm (ne_of_mem_of_not_mem hrpage hp).symm]
    · intro p hp _
      rw [hsets.parent, hmoved.parent]
      · intro hmem
        apply hp (h.child_mem (by simp) hmem)
      · intro hmem
        apply hp (h.child_mem (by simp) hmem)
    · intro p hp
      rwa [hpages] at hp
    · refine ⟨[], ?_, by simp⟩
      rw [hsets.disposed, hmoved.disposed, List.append_nil]

theorem Wanting.congr {n : Branch K} (h : Wanting t max below A n B Us)
    (hbody : ∀ p ∈ pages ((A ++ n :: B) :: Us), t'.body p = t.body p)
    (hparent : ∀ p ∈ entryPages below ++ pages ((A ++ n :: B) :: Us), t'.parent p = t.parent p)
    (hroot : t'.rootPage = t.rootPage) (hheader : t'.header = t.header) :
  Wanting t' max below A n B Us
  := by
  refine ⟨?_, h.below_eq, h.size, h.sizes, ?_, h.nodup⟩
  · apply h.stands.congr _ _ hroot hheader
    · intro p hp
      apply hbody
      rw [pages_cons]
      apply List.mem_append_right _ hp
    · intro p hp
      apply hparent
      rw [pages_cons, ← entryPages_entries]
      apply List.mem_append_right _ hp
  · intro m hm
    apply (h.holds m hm).congr
    · apply hbody
      rw [pages_cons]
      apply List.mem_append_left _ (List.mem_map_of_mem hm)
    · intro p hp
      apply hparent
      apply List.mem_append_left _ (h.rests.child_mem hm hp)

/-- Disposing of pages does not touch the nodes. -/
theorem Wanting.dispose {n : Branch K} (h : Wanting t max below A n B Us) (ds : List Int) :
  Wanting { t with disposedPages := ds } max below A n B Us
  := h.congr (fun _ _ => rfl) (fun _ _ => rfl) rfl rfl

/-- Two neighbours are being merged: their parent has lost an item. -/
theorem Rests.wanting (h : Rests t max below (A ++ l :: r :: B) (W :: Us))
    (hloc : Located W (Level.entries A) l.entry (r.entry :: Level.entries B) A' q B' C i (j :: D))
    (hsets : Sets t (Function.update t.body q.page (some (.internal
        ((C ++ i :: D).map Item.slot)))) t.parent t₁)
    (hmoved : Moved t₁ t₂ l r l' r') :
  Wanting t₂ max (Level.entries A ++ l.entry :: Level.entries B) A' ⟨q.page, C ++ i :: D⟩ B' Us
  := by
  have hstands := h.stands
  rw [Level.entries_append, Level.entries_cons, Level.entries_cons] at hstands
  apply (hstands.remove hloc hsets).congr _ _ hmoved.rootPage hmoved.header
  · intro p hp
    rw [Located.pages_replace hloc] at hp
    apply hmoved.body
    · rintro rfl
      apply h.page_not_mem (m := l) (by simp) hp
    · rintro rfl
      apply h.page_not_mem (m := r) (by simp) hp
  · intro p hp
    rw [Located.pages_replace hloc] at hp
    have hmem : p ∈ pages ((A ++ l :: r :: B) :: W :: Us) := by
      rw [pages_cons, List.mem_append]
      rw [List.mem_append] at hp
      apply hp.imp_left
      intro hp
      simp only [entryPages_append, entryPages_cons, entryPages_entries, List.map_append,
        List.map_cons, List.mem_append, List.mem_cons, Branch.entry_snd] at hp ⊢
      tauto
    apply hmoved.parent
    · intro hchild
      apply h.child_not_mem (m := l) (by simp) hchild hmem
    · intro hchild
      apply h.child_not_mem (m := r) (by simp) hchild hmem

/-- The pages of a level with two neighbours merged. -/
theorem merged_page_mem {p : Int}
    (hp : p ∈ (A ++ ⟨l.page, l.items ++ r.items⟩ :: B).map Branch.page) :
  p ∈ (A ++ l :: r :: B).map Branch.page
  := by
  simp only [List.map_append, List.map_cons, List.mem_append, List.mem_cons] at hp ⊢
  tauto

/-- The page of the right neighbour is free after the merge. -/
theorem Rests.merged_page_free (h : Rests t max below (A ++ l :: r :: B) (W :: Us))
    {ps : List Int} (hps : ∀ p ∈ ps, p ∈ pages (W :: Us)) :
  r.page ∉ (A ++ ⟨l.page, l.items ++ r.items⟩ :: B).map Branch.page ++ ps
  := by
  rw [List.mem_append, not_or]
  constructor
  · intro hmem
    obtain ⟨m, hm, heq⟩ := List.mem_map.mp hmem
    rw [List.mem_append, List.mem_cons] at hm
    obtain hm | rfl | hm := hm
    · apply (h.others (List.mem_append_left _ hm)).2.1 heq
    · apply h.neighbours.1 heq
    · apply (h.others (List.mem_append_right _ hm)).2.1 heq
  · intro hmem
    apply h.page_not_mem (m := r) (by simp) (hps _ hmem)

section Merge

variable {Us' : List (Level K)} {ds : List Int}

/-- The levels after two neighbours have been merged and the levels above rebalanced. -/
theorem Rests.merged (h : Rests t max below (A ++ l :: r :: B) (W :: Us))
    (hholds : ∀ m ∈ A ++ ⟨l.page, l.items ++ r.items⟩ :: B, Holds t₂ m)
    (hstands : Stands t' max (Level.entries (A ++ ⟨l.page, l.items ++ r.items⟩ :: B)) Us')
    (hshrunk : Shrunk { t₂ with disposedPages := ds } t'
      (Level.entries (A ++ ⟨l.page, l.items ++ r.items⟩ :: B)) (pages (W :: Us)) (pages Us')) :
  Rests t' max below (A ++ ⟨l.page, l.items ++ r.items⟩ :: B) Us'
  := by
  have hbelow : Level.below (A ++ ⟨l.page, l.items ++ r.items⟩ :: B) = below := by
    rw [← h.below_eq]
    simp
  have hnodup := h.pages_nodup
  rw [pages_cons] at hnodup
  have hdisjoint := (List.nodup_append.mp hnodup).2.2
  refine ⟨hstands, hbelow, ?_, ?_⟩
  · intro m hm
    apply (hholds m hm).congr
    · apply hshrunk.body
      intro hmem
      apply hdisjoint _ (merged_page_mem (List.mem_map_of_mem hm)) _ hmem rfl
    · intro p hp
      have hpbelow : p ∈ entryPages below := by
        rw [← hbelow, entryPages_below]
        exact List.mem_flatMap.mpr ⟨m, hm, hp⟩
      have hp' : p ∉ pages ((A ++ l :: r :: B) :: W :: Us) := fun hmem =>
        (List.nodup_append.mp h.nodup).2.2 p hpbelow p hmem rfl
      rw [pages_cons, List.mem_append, not_or] at hp'
      apply hshrunk.parent p _ hp'.2
      rw [entryPages_entries]
      intro hmem
      apply hp'.1 (merged_page_mem hmem)
  · rw [List.nodup_append]
    refine ⟨(List.nodup_append.mp h.nodup).1, ?_, ?_⟩
    · rw [pages_cons, ← entryPages_entries]
      apply hstands.nodup
    · rintro p hp p' hp' rfl
      apply (List.nodup_append.mp h.nodup).2.2 p hp p _ rfl
      rw [pages_cons, List.mem_append] at hp' ⊢
      obtain hp' | hp' := hp'
      · exact .inl (merged_page_mem hp')
      · exact .inr (hshrunk.pages p hp')

/-- The tree after two neighbours have been merged and the levels above rebalanced. -/
theorem Rests.shrunk_merged (h : Rests t max below (A ++ l :: r :: B) (W :: Us))
    (hq : q ∈ (W :: Us).flatten) {body : Body K V}
    (hsets : Sets t (Function.update t.body q.page (some body)) t.parent t₁)
    (hmoved : Moved t₁ t₂ l r l' r')
    (hshrunk : Shrunk { t₂ with disposedPages := t₂.disposedPages ++ [r.page] } t'
      (Level.entries (A ++ ⟨l.page, l.items ++ r.items⟩ :: B)) (pages (W :: Us)) (pages Us')) :
  Shrunk t t' below (pages ((A ++ l :: r :: B) :: W :: Us))
    (pages ((A ++ ⟨l.page, l.items ++ r.items⟩ :: B) :: Us'))
  where
  body := by
    intro p hp
    rw [pages_cons, List.mem_append, not_or] at hp
    have hpl : p ≠ l.page := by
      rintro rfl
      simp at hp
    have hpr : p ≠ r.page := by
      rintro rfl
      simp at hp
    have h₂ : t₂.body p = t₁.body p := hmoved.body p hpl hpr
    rw [hshrunk.body p hp.2]
    change t₂.body p = _
    rw [h₂, hsets.body, Function.update_of_ne (ne_of_mem_of_not_mem (mem_pages hq) hp.2).symm]
  parent := by
    intro p hpbelow hp
    rw [pages_cons, List.mem_append, not_or] at hp
    have hpU : p ∉ entryPages (Level.entries (A ++ ⟨l.page, l.items ++ r.items⟩ :: B)) := by
      rw [entryPages_entries]
      intro hmem
      apply hp.1 (merged_page_mem hmem)
    rw [hshrunk.parent p hpU hp.2]
    change t₂.parent p = _
    rw [hmoved.parent p, hsets.parent]
    · intro hmem
      apply hpbelow (h.child_mem (by simp) hmem)
    · intro hmem
      apply hpbelow (h.child_mem (by simp) hmem)
  pages := by
    intro p hp
    rw [pages_cons, List.mem_append] at hp ⊢
    obtain hp | hp := hp
    · exact .inl (merged_page_mem hp)
    · exact .inr (hshrunk.pages p hp)
  disposed := by
    have hnodup := h.pages_nodup
    rw [pages_cons] at hnodup
    obtain ⟨ds, hdisposed, hds⟩ := hshrunk.disposed
    refine ⟨r.page :: ds, ?_, ?_⟩
    · rw [hdisposed]
      change t₂.disposedPages ++ [r.page] ++ ds = _
      rw [hmoved.disposed, hsets.disposed, List.append_assoc]
      rfl
    · intro d hd
      rw [pages_cons (A ++ l :: r :: B), pages_cons _ Us', List.mem_append]
      rw [List.mem_cons] at hd
      obtain rfl | hd := hd
      · refine ⟨.inl (by simp), ?_⟩
        apply h.merged_page_free hshrunk.pages
      · obtain ⟨hdW, hdUs⟩ := hds d hd
        refine ⟨.inr hdW, ?_⟩
        rw [List.mem_append, not_or]
        refine ⟨?_, hdUs⟩
        intro hmem
        apply (List.nodup_append.mp hnodup).2.2 d (merged_page_mem hmem) d hdW rfl

/-- Two neighbours have been merged, and the levels above have been rebalanced. -/
theorem Rests.merge (h : Rests t max below (A ++ l :: r :: B) (W :: Us))
    (hloc : Located W (Level.entries A) l.entry (r.entry :: Level.entries B) A' q B' C i (j :: D))
    (hsets : Sets t (Function.update t.body q.page (some (.internal
        ((C ++ i :: D).map Item.slot)))) t.parent t₁)
    (hmoved : Moved t₁ t₂ l r ⟨l.page, l.items ++ r.items⟩ ⟨r.page, []⟩) (hne : l.items ≠ [])
    (hstands : Stands t' max (Level.entries A ++ l.entry :: Level.entries B) Us')
    (hshrunk : Shrunk { t₂ with disposedPages := t₂.disposedPages ++ [r.page] } t'
      (Level.entries A ++ l.entry :: Level.entries B)
      (pages ((A' ++ ⟨q.page, C ++ i :: D⟩ :: B') :: Us)) (pages Us')) :
  Rests t' max below (A ++ ⟨l.page, l.items ++ r.items⟩ :: B) Us'
    ∧ Shrunk t t' below (pages ((A ++ l :: r :: B) :: W :: Us))
        (pages ((A ++ ⟨l.page, l.items ++ r.items⟩ :: B) :: Us'))
  := by
  have hq : q ∈ (W :: Us).flatten := by
    rw [List.flatten_cons]
    apply List.mem_append_left _ hloc.mem
  have hentry : Branch.entry ⟨l.page, l.items ++ r.items⟩ = l.entry := by
    apply Branch.entry_eq_of_head
    · rfl
    · rw [List.head?_append_of_ne_nil _ hne]
  have hentries : Level.entries A ++ l.entry :: Level.entries B
      = Level.entries (A ++ ⟨l.page, l.items ++ r.items⟩ :: B) := by
    rw [Level.entries_append, Level.entries_cons, hentry]
  rw [Located.pages_replace hloc, hentries] at hshrunk
  rw [hentries] at hstands
  have hholds₁ : ∀ m ∈ A ++ B, Holds t₁ m := by
    intro m hm
    have hmU : m ∈ A ++ l :: r :: B := by
      simp only [List.mem_append, List.mem_cons] at hm ⊢
      tauto
    apply (h.holds m hmU).congr
    · rw [hsets.body, Function.update_of_ne (h.page_ne hmU hq).symm]
    · intro p _
      rw [hsets.parent]
  have hholds₂ : ∀ m ∈ A ++ ⟨l.page, l.items ++ r.items⟩ :: B, Holds t₂ m := by
    intro m hm
    apply h.holds_moved hholds₁ hmoved m
    simp only [List.mem_append, List.mem_cons] at hm ⊢
    tauto
  exact ⟨h.merged hholds₂ hstands hshrunk, h.shrunk_merged hq hsets hmoved hshrunk⟩

end Merge

end Rests

/-! ### One level -/

section Level

variable [LinearOrder K] {c : Parameters K} {max : Nat} {below : List (Entry K)} {W : Level K}
  {Us : List (Level K)} {A B A' B' : Level K} {l r q : Branch K} {C D : List (Item K)}
  {i j : Item K} {zeroKey : K}

omit [LinearOrder K] in
theorem Shrunk.refl (t : Tree K V) (below : List (Entry K)) (ps : List Int) :
  Shrunk t t below ps ps
  := by
  refine ⟨fun _ _ => rfl, fun _ _ _ => rfl, fun _ hp => hp, [], ?_, by simp⟩
  rw [List.append_nil]

/-- The items of two neighbours are ascending. -/
theorem Rests.ascending_items (h : Rests t max below (A ++ l :: r :: B) Us)
    (hasc : Ascending below) :
  Ascending ((l.items ++ r.items).map Item.entry)
  := by
  apply hasc.sublist
  have hbelow := h.below_eq
  rw [Level.below_append, Level.below_cons, Level.below_cons, ← List.append_assoc (List.map _ _),
    ← List.map_append] at hbelow
  rw [← hbelow]
  apply List.Sublist.trans (List.sublist_append_left _ _) (List.sublist_append_right _ _)

omit [LinearOrder K] in
/-- The sizes of the nodes of a level, of which two are looked at apart. -/
theorem sizes_of_pair {l' r' : Branch K} {Us' : List (Level K)}
    (hsizes : ∀ m ∈ A ++ B, m.items.length ≤ max ∧ 2 ≤ m.items.length ∧ max / 2 ≤ m.items.length)
    (hl : l'.items.length ≤ max ∧ 2 ≤ l'.items.length ∧ max / 2 ≤ l'.items.length)
    (hr : r'.items.length ≤ max ∧ 2 ≤ r'.items.length ∧ max / 2 ≤ r'.items.length) :
  ∀ m ∈ A ++ l' :: r' :: B, m.items.length ≤ max ∧ 2 ≤ m.items.length
    ∧ (Us' ≠ [] → max / 2 ≤ m.items.length)
  := by
  intro m hm
  have hm' : m.items.length ≤ max ∧ 2 ≤ m.items.length ∧ max / 2 ≤ m.items.length := by
    rw [List.mem_append, List.mem_cons, List.mem_cons] at hm
    obtain hm | rfl | rfl | hm := hm
    · apply hsizes m (List.mem_append_left _ hm)
    · apply hl
    · apply hr
    · apply hsizes m (List.mem_append_right _ hm)
  exact ⟨hm'.1, hm'.2.1, fun _ => hm'.2.2⟩

/-- The left one of two neighbours lacks items and gets one from the right one. -/
theorem Rests.redistribute_first (h : Rests t max below (A ++ l :: r :: B) (W :: Us))
    (hloc : Located W (Level.entries A) l.entry (r.entry :: Level.entries B) A' q B' [] i (j :: D))
    (hasc : Ascending below) (hmax : 4 ≤ max)
    (hsizes : ∀ m ∈ A ++ B, m.items.length ≤ max ∧ 2 ≤ m.items.length ∧ max / 2 ≤ m.items.length)
    (hl : max / 2 ≤ l.items.length + 1) (hsmall : l.items.length < max - max / 2)
    (hr : r.items.length ≤ max) (hsum : max < l.items.length + r.items.length) :
  ∃ t' Us', redistribute r.page l.page q.page 0 t = .ok () t' ∧ Stands t' max below Us'
    ∧ Shrunk t t' below (pages ((A ++ l :: r :: B) :: W :: Us)) (pages Us')
    ∧ (Zeroed zeroKey ((A ++ l :: r :: B) :: W :: Us) → Zeroed zeroKey Us')
  := by
  have hq : q ∈ (W :: Us).flatten := by
    rw [List.flatten_cons]
    apply List.mem_append_left _ hloc.mem
  obtain ⟨x, y, Y, hright⟩ : ∃ x y Y, r.items = x :: y :: Y := by
    match hitems : r.items with
    | [] =>
      rw [hitems, List.length_nil] at hsum
      omega
    | [_] =>
      rw [hitems, List.length_singleton] at hsum
      omega
    | x :: y :: Y => exact ⟨x, y, Y, rfl⟩
  have hlne : l.items ≠ [] := by
    apply List.ne_nil_of_length_pos
    omega
  have hy : y.bound = y.key := by
    apply bound_of_not_first (h.ascending_items hasc) hlne
    rw [hright]
    simp
  obtain ⟨hne, hnodup⟩ := h.neighbours
  obtain ⟨t₁, t', hrun, hmoved, hsets⟩ := BplusTree.redistribute_first (h.holds l (by simp))
    (h.holds r (by simp)) (h.stands.holds_head hloc.mem) hne (h.page_ne (by simp) hq)
    (h.page_ne (by simp) hq) hnodup hloc.items hright
  have hentry : Branch.entry ⟨l.page, l.items ++ [x]⟩ = l.entry := by
    apply Branch.entry_eq_of_head
    · rfl
    · rw [List.head?_append_of_ne_nil _ hlne]
  obtain ⟨W', hrests, hshrunk, hzeroed⟩ := h.rekey hloc hmoved hsets hentry hy
  refine ⟨t', _, hrun, hrests.toStands ?_, hshrunk, hzeroed⟩
  apply sizes_of_pair hsizes
  · simp only [List.length_append, List.length_singleton]
    omega
  · simp only [hright, List.length_cons] at hsum hr ⊢
    omega

/-- The right one of two neighbours lacks items and gets one from the left one. -/
theorem Rests.redistribute_last (h : Rests t max below (A ++ l :: r :: B) (W :: Us))
    (hloc : Located W (Level.entries A) l.entry (r.entry :: Level.entries B) A' q B' C i (j :: D))
    (hasc : Ascending below) (hmax : 4 ≤ max)
    (hsizes : ∀ m ∈ A ++ B, m.items.length ≤ max ∧ 2 ≤ m.items.length ∧ max / 2 ≤ m.items.length)
    (hr : max / 2 ≤ r.items.length + 1) (hsmall : r.items.length < max - max / 2)
    (hl : l.items.length ≤ max) (hsum : max < r.items.length + l.items.length) :
  ∃ t' Us', redistribute l.page r.page q.page (C.length + 1) t = .ok () t'
    ∧ Stands t' max below Us'
    ∧ Shrunk t t' below (pages ((A ++ l :: r :: B) :: W :: Us)) (pages Us')
    ∧ (Zeroed zeroKey ((A ++ l :: r :: B) :: W :: Us) → Zeroed zeroKey Us')
  := by
  have hq : q ∈ (W :: Us).flatten := by
    rw [List.flatten_cons]
    apply List.mem_append_left _ hloc.mem
  obtain ⟨X, x, hleft⟩ : ∃ X x, l.items = X ++ [x] := by
    obtain hnil | ⟨X, x, hleft⟩ := List.eq_nil_or_concat l.items
    · rw [hnil, List.length_nil] at hsum
      omega
    · rw [List.concat_eq_append] at hleft
      exact ⟨X, x, hleft⟩
  have hlen : l.items.length = X.length + 1 := by
    rw [hleft, List.length_append, List.length_singleton]
  have hXne : X ≠ [] := by
    apply List.ne_nil_of_length_pos
    omega
  have hx : x.bound = x.key := by
    have hasc' := h.ascending_items hasc
    rw [hleft, List.append_assoc] at hasc'
    apply bound_of_not_first hasc' hXne
    simp
  obtain ⟨hne, hnodup⟩ := h.neighbours
  obtain ⟨t₁, t', hrun, hmoved, hsets⟩ := BplusTree.redistribute_last (h.holds l (by simp))
    (h.holds r (by simp)) (h.stands.holds_head hloc.mem) hne (h.page_ne (by simp) hq)
    (h.page_ne (by simp) hq) hnodup hloc.items hleft
  have hentry : Branch.entry ⟨l.page, X⟩ = l.entry := by
    apply Branch.entry_eq_of_head
    · rfl
    · rw [hleft, List.head?_append_of_ne_nil _ hXne]
  obtain ⟨W', hrests, hshrunk, hzeroed⟩ := h.rekey hloc hmoved hsets hentry hx
  refine ⟨t', _, hrun, hrests.toStands ?_, hshrunk, hzeroed⟩
  apply sizes_of_pair hsizes
  · change X.length ≤ max ∧ 2 ≤ X.length ∧ max / 2 ≤ X.length
    omega
  · simp only [List.length_cons]
    omega

omit [LinearOrder K] in
/-- Two neighbours are merged, and the levels above are rebalanced. -/
theorem Rests.coalesce (h : Rests t max below (A ++ l :: r :: B) (W :: Us))
    (hloc : Located W (Level.entries A) l.entry (r.entry :: Level.entries B) A' q B' C i (j :: D))
    (hmax : 4 ≤ max)
    (hsizes : ∀ m ∈ A ++ B, m.items.length ≤ max ∧ 2 ≤ m.items.length ∧ max / 2 ≤ m.items.length)
    (hl : max / 2 ≤ l.items.length + 1) (hr : max / 2 ≤ r.items.length + 1)
    (hsum : l.items.length + r.items.length ≤ max) {checkParent : Int → Mtr K V Unit}
    (hup : ∀ t₃ : Tree K V, Wanting t₃ max (Level.entries A ++ l.entry :: Level.entries B) A'
        ⟨q.page, C ++ i :: D⟩ B' Us →
      ∃ t' Us', checkParent q.page t₃ = .ok () t'
        ∧ Stands t' max (Level.entries A ++ l.entry :: Level.entries B) Us'
        ∧ Shrunk t₃ t' (Level.entries A ++ l.entry :: Level.entries B)
            (pages ((A' ++ ⟨q.page, C ++ i :: D⟩ :: B') :: Us)) (pages Us')
        ∧ (Zeroed zeroKey ((A' ++ ⟨q.page, C ++ i :: D⟩ :: B') :: Us) → Zeroed zeroKey Us')) :
  ∃ t' Us', coalesce checkParent l.page r.page q.page (C.length + 1) t = .ok () t'
    ∧ Stands t' max below Us'
    ∧ Shrunk t t' below (pages ((A ++ l :: r :: B) :: W :: Us)) (pages Us')
    ∧ (Zeroed zeroKey ((A ++ l :: r :: B) :: W :: Us) → Zeroed zeroKey Us')
  := by
  have hq : q ∈ (W :: Us).flatten := by
    rw [List.flatten_cons]
    apply List.mem_append_left _ hloc.mem
  obtain ⟨hne, hnodup⟩ := h.neighbours
  obtain ⟨t₁, t₂, hsets, hmoved, hrun⟩ := coalesce_internal checkParent (h.holds l (by simp))
    (h.holds r (by simp)) (h.stands.holds_head hloc.mem) hne (h.page_ne (by simp) hq)
    (h.page_ne (by simp) hq) hnodup hloc.items
  have hwanting := (h.wanting hloc hsets hmoved).dispose (t₂.disposedPages ++ [r.page])
  obtain ⟨t', Us', hrun', hstands', hshrunk', hzeroed'⟩ := hup _ hwanting
  have hlne : l.items ≠ [] := by
    apply List.ne_nil_of_length_pos
    omega
  obtain ⟨hrests, hshrunk⟩ := h.merge hloc hsets hmoved hlne hstands' hshrunk'
  refine ⟨t', _, hrun.trans hrun', hrests.toStands ?_, hshrunk, fun hzeroed =>
    hzeroed.merged (hzeroed' (hzeroed.tail.replace hloc fun _ hx => .inl (List.mem_cons_of_mem j hx)))⟩
  intro m hm
  have hm' : m.items.length ≤ max ∧ 2 ≤ m.items.length ∧ max / 2 ≤ m.items.length := by
    rw [List.mem_append, List.mem_cons] at hm
    obtain hm | rfl | hm := hm
    · apply hsizes m (List.mem_append_left _ hm)
    · simp only [List.length_append]
      omega
    · apply hsizes m (List.mem_append_right _ hm)
  exact ⟨hm'.1, hm'.2.1, fun _ => hm'.2.2⟩

end Level

/-! ### All levels -/

section Run

variable [LinearOrder K] {c : Parameters K} {max : Nat} {below : List (Entry K)}
  {U W : Level K} {Us : List (Level K)} {A B A' B' : Level K} {n q : Branch K}
  {C D : List (Item K)} {i : Item K} {L R : List (Entry K)} {e : Entry K} {fuel : Nat} {zeroKey : K}

omit [LinearOrder K] in
/-- An item of a node with at least two items is the first one and has a right neighbour, or
it has a left neighbour. -/
theorem located_neighbour (hloc : Located W L e R A' q B' C i D) (htwo : 2 ≤ q.items.length) :
  (∃ j D' R', C = [] ∧ D = j :: D' ∧ R = j.entry :: R')
    ∨ ∃ C' j L', C = C' ++ [j] ∧ L = L' ++ [j.entry]
      ∧ Located W L' j.entry (e :: R) A' q B' C' j (i :: D)
  := by
  obtain rfl | ⟨C', j, rfl⟩ := List.eq_nil_or_concat C
  · left
    obtain ⟨j, D', rfl⟩ : ∃ j D', D = j :: D' := by
      apply List.exists_cons_of_ne_nil
      rintro rfl
      rw [hloc.items] at htwo
      simp at htwo
    exact ⟨j, D', _, rfl, rfl, hloc.right⟩
  · right
    refine ⟨C', j, Level.below A' ++ C'.map Item.entry, List.concat_eq_append, ?_, hloc.level, ?_,
      rfl, rfl, ?_⟩
    · rw [hloc.left]
      simp
    · rw [hloc.items]
      simp
    · rw [hloc.right, ← hloc.entry]
      rfl

/-- The last key of a node belongs to the node. -/
theorem exists_lastKey (hbelow : Level.below (A ++ n :: B) = below) (hasc : Ascending below)
    (hne : ∀ m ∈ A ++ n :: B, m.items ≠ [])
    (htell : 2 ≤ n.items.length ∨ Anchored zeroKey below ((A ++ n :: B) :: Us)) :
  ∃ key, (Body.internal n.slots : Body K V).keyAt ((Body.internal n.slots : Body K V).size - 1)
      = some key
    ∧ Covers key (Level.entries A) n.entry (Level.entries B)
  := by
  obtain ⟨X, x, hitems⟩ : ∃ X x, n.items = X ++ [x] := by
    obtain hnil | ⟨X, x, hitems⟩ := List.eq_nil_or_concat n.items
    · exact absurd hnil (hne n (by simp))
    · rw [List.concat_eq_append] at hitems
      exact ⟨X, x, hitems⟩
  have hsplit : below = (Level.below A ++ X.map Item.entry) ++ x.entry :: Level.below B := by
    rw [← hbelow, Level.below_append, Level.below_cons, hitems]
    simp
  have hloc : Located (A ++ n :: B) (Level.below A ++ X.map Item.entry) x.entry (Level.below B)
      A n B X x [] := ⟨rfl, hitems, rfl, rfl, rfl⟩
  have hright : ∀ e ∈ Level.below B, x.bound < e.1 := by
    intro e he
    rw [hsplit, Ascending, List.map_append, List.map_cons] at hasc
    apply (List.pairwise_cons.mp (List.pairwise_append.mp hasc).2.1).1
    apply List.mem_map_of_mem he
  have hcovers : Covers x.key (Level.below A ++ X.map Item.entry) x.entry (Level.below B) := by
    by_cases hbot : x.bound = ⊥
    · -- the only item of a leftmost node
      have hX : X = [] := by
        by_contra hX
        have hx : x.bound = x.key := by
          apply bound_of_not_first (A := X) (B := [x]) _ hX List.mem_cons_self
          apply hloc.ascending []
          rwa [List.map_nil, List.nil_append, ← hsplit]
        rw [hbot] at hx
        exact absurd hx.symm WithBot.coe_ne_bot
      obtain htwo | hanchored := htell
      · rw [hitems, hX] at htwo
        simp at htwo
      · have hkey : x.key = zeroKey := by
          apply hanchored.zeroed.head x _ hbot
          simp [hitems]
        refine ⟨hsplit ▸ hasc, ?_, ?_⟩
        · change x.bound ≤ _
          rw [hbot]
          apply bot_le
        · intro e he
          rw [hkey]
          apply hanchored.lt e
          · rw [hsplit]
            simp [he]
          · apply ne_bot_of_gt (hright e he)
    · have hx := coe_key_of_bound_ne hbot
      refine ⟨hsplit ▸ hasc, hx.ge, ?_⟩
      intro e he
      rw [hx]
      apply hright e he
  refine ⟨x.key, ?_, hcovers.up hloc hne⟩
  simp [Body.keyAt, Body.size, Branch.slots, hitems, Item.slot]

omit [LinearOrder K] in
theorem size_slots (n : Branch K) : (Body.internal n.slots : Body K V).size = n.items.length :=
  n.length_slots

/-- A node that does not lack an item. -/
theorem Wanting.enough (h : Wanting t c.internalMaxSize below A n B Us) (fuel : Nat)
    (hmax : 4 ≤ c.internalMaxSize)
    (henough : c.internalMaxSize - c.internalMaxSize / 2 ≤ n.items.length) :
  coalesceOrRedistribute c (fuel + 1) n.page t = .ok () t
    ∧ Stands t c.internalMaxSize below ((A ++ n :: B) :: Us)
  := by
  have hn := h.holds n (by simp)
  obtain ⟨_, hnode, _⟩ := node_of_body hn.body
  constructor
  · have hmin : (Body.internal n.slots : Body K V).minSize c
        ≤ (Body.internal n.slots : Body K V).size := by
      rw [size_slots]
      apply henough
    rw [coalesceOrRedistribute, run_bind (getNode_eq hnode), if_pos hmin]
    rfl
  · apply h.rests.toStands
    intro m hm
    rw [List.mem_append, List.mem_cons] at hm
    obtain hm | rfl | hm := hm
    · apply h.sizes m (List.mem_append_left _ hm)
    · exact ⟨h.size.1, by omega, fun _ => by omega⟩
    · apply h.sizes m (List.mem_append_right _ hm)

/-- The root lacks items: if it has a single child, this child is the new root. -/
theorem Wanting.root (h : Wanting t c.internalMaxSize below A n B [])
    (hsmall : n.items.length < c.internalMaxSize - c.internalMaxSize / 2) :
  ∃ t' Us', coalesceOrRedistribute c (fuel + 1) n.page t = .ok () t'
    ∧ Stands t' c.internalMaxSize below Us'
    ∧ Shrunk t t' below (pages [A ++ n :: B]) (pages Us')
    ∧ (Zeroed zeroKey [A ++ n :: B] → Zeroed zeroKey Us')
  := by
  have hn := h.holds n (by simp)
  obtain ⟨page, hpage⟩ := h.stands.tower
  have hlevel := hpage
  rw [Level.entries_append, Level.entries_cons] at hlevel
  obtain ⟨rfl, rfl⟩ := singleton_of_entries hlevel
  have hparent : t.parent n.page = some invalidPageNum := h.stands.parent
  obtain ⟨_, hnode, hbody⟩ := node_of_parent hparent
  rw [hn.body, Option.some.injEq] at hbody
  subst hbody
  have hmin : ¬ (Body.internal n.slots : Body K V).minSize c
      ≤ (Body.internal n.slots : Body K V).size := by
    rw [not_le, size_slots]
    apply hsmall
  by_cases hone : 1 < n.items.length
  · refine ⟨t, [[n]], ?_, ?_, Shrunk.refl t below _, id⟩
    · have hsize : 1 < (Body.internal n.slots : Body K V).size := by
        rwa [size_slots]
      rw [coalesceOrRedistribute, run_bind (getNode_eq hnode), if_neg hmin, if_pos rfl,
        if_pos hsize]
      rfl
    · apply h.rests.toStands
      intro m hm
      rw [List.nil_append, List.mem_singleton] at hm
      subst hm
      exact ⟨h.size.1, hone, fun hne => absurd rfl hne⟩
  · obtain ⟨i, hitems⟩ : ∃ i, n.items = [i] := by
      apply List.length_eq_one_iff.mp
      have hpos := h.size.2.1
      omega
    have hslots : n.slots = [i.slot] := by
      rw [Branch.slots, hitems, List.map_singleton]
    have hchild : i.child ∈ n.children := by
      rw [Branch.children, hitems]
      simp
    have hbelow : below = [i.entry] := by
      rw [← h.below_eq, List.nil_append, Level.below_cons, hitems]
      rfl
    obtain ⟨t₁, hrun₁, hsets₁⟩ := setParentPageNum_sets
      (isSome_body_of_parent (hn.parent _ hchild)) invalidPageNum
    have hheader₁ : t₁.header.isSome := by
      rw [hsets₁.header]
      apply h.stands.header_isSome
    obtain ⟨t₂, hrun₂, hbody₂, hparent₂, hroot₂, hheader₂, hdisposed₂⟩ :=
      updateRootPageNum_run hheader₁ i.child
    refine ⟨{ t₂ with disposedPages := t₂.disposedPages ++ [n.page] }, [], ?_, ?_, ?_,
      fun _ => Zeroed.nil⟩
    · have hsize : ¬ 1 < (Body.internal n.slots : Body K V).size := by
        rwa [size_slots]
      rw [coalesceOrRedistribute, run_bind (getNode_eq hnode), if_neg hmin, if_pos rfl,
        if_neg hsize, adjustRoot, run_bind (getNode_eq hnode)]
      simp only [hslots, List.getElem?_cons_zero]
      rw [run_bind (item_some _)]
      simp only [slot_snd]
      rw [run_bind hrun₁, run_bind hrun₂]
      rfl
    · have hbot : i.bound = ⊥ := by
        have hentry := congrArg Prod.fst (List.cons.inj hpage).1
        simpa [Branch.entry, Branch.bound, hitems] using hentry
      have htop : top below ([] : List (Level K)) = i.child := by
        rw [hbelow]
        rfl
      refine ⟨⟨i.child, ?_⟩, by simp, ?_, ?_, ?_, ?_⟩
      · rw [hbelow, Item.entry, hbot]
      · rw [htop]
        change t₂.parent i.child = _
        rw [hparent₂, hsets₁.parent, Function.update_self]
      · rw [htop]
        apply hroot₂
      · rw [htop]
        apply hheader₂
      · rw [hbelow]
        simp
    · constructor
      · intro p _
        change t₂.body p = _
        rw [hbody₂, hsets₁.body]
      · intro p hp _
        change t₂.parent p = _
        rw [hparent₂, hsets₁.parent, Function.update_of_ne]
        rintro rfl
        apply hp (h.rests.child_mem (by simp) hchild)
      · simp
      · refine ⟨[n.page], ?_, by simp⟩
        change t₂.disposedPages ++ [n.page] = _
        rw [hdisposed₂, hsets₁.disposed]

/-- A node below other levels lacks items. The level above stands on one entry less, if the
node is merged. -/
theorem Wanting.step (h : Wanting t c.internalMaxSize below A n B (W :: Us))
    (hmax : 4 ≤ c.internalMaxSize) (hasc : Ascending below)
    (htell : 6 ≤ c.internalMaxSize ∨ Anchored zeroKey below ((A ++ n :: B) :: W :: Us))
    (hsmall : n.items.length < c.internalMaxSize - c.internalMaxSize / 2)
    (hup : ∀ {t₃ : Tree K V} {below' A' q B'}, Wanting t₃ c.internalMaxSize below' A' q B' Us →
      Ascending below' →
      (6 ≤ c.internalMaxSize ∨ Anchored zeroKey below' ((A' ++ q :: B') :: Us)) →
      ∃ t' Us', coalesceOrRedistribute c fuel q.page t₃ = .ok () t'
        ∧ Stands t' c.internalMaxSize below' Us'
        ∧ Shrunk t₃ t' below' (pages ((A' ++ q :: B') :: Us)) (pages Us')
        ∧ (Zeroed zeroKey ((A' ++ q :: B') :: Us) → Zeroed zeroKey Us')) :
  ∃ t' Us', coalesceOrRedistribute c (fuel + 1) n.page t = .ok () t'
    ∧ Stands t' c.internalMaxSize below Us'
    ∧ Shrunk t t' below (pages ((A ++ n :: B) :: W :: Us)) (pages Us')
    ∧ (Zeroed zeroKey ((A ++ n :: B) :: W :: Us) → Zeroed zeroKey Us')
  := by
  have hhalf := h.size.2.2 (List.cons_ne_nil W Us)
  have hsizes : ∀ m ∈ A ++ B, m.items.length ≤ c.internalMaxSize ∧ 2 ≤ m.items.length
      ∧ c.internalMaxSize / 2 ≤ m.items.length := by
    intro m hm
    have hm' := h.sizes m hm
    exact ⟨hm'.1, hm'.2.1, hm'.2.2 (List.cons_ne_nil W Us)⟩
  have hne : ∀ m ∈ A ++ n :: B, m.items ≠ [] := by
    intro m hm
    apply List.ne_nil_of_length_pos
    rw [List.mem_append, List.mem_cons] at hm
    obtain hm | rfl | hm := hm
    · have hm' := hsizes m (List.mem_append_left _ hm)
      omega
    · omega
    · have hm' := hsizes m (List.mem_append_right _ hm)
      omega
  have hascU : Ascending (Level.entries (A ++ n :: B)) := by
    apply Ascending.entries _ hne
    rw [h.below_eq]
    apply hasc
  have hn := h.holds n (by simp)
  have hmin : (Body.internal n.slots : Body K V).size
      < (Body.internal n.slots : Body K V).minSize c := by
    rw [size_slots]
    apply hsmall
  obtain ⟨key, hkey, hcovers⟩ := exists_lastKey (V := V) h.below_eq hasc hne
    (htell.imp_left fun hsix => by omega)
  have hstands := h.stands
  have hsplit : Level.entries (A ++ n :: B) = Level.entries A ++ n.entry :: Level.entries B := by
    rw [Level.entries_append, Level.entries_cons]
  have htellU : 6 ≤ c.internalMaxSize
      ∨ Anchored zeroKey (Level.entries A ++ n.entry :: Level.entries B) (W :: Us) := by
    apply htell.imp_right
    intro hanchored
    rw [← h.below_eq] at hanchored
    rw [← hsplit]
    apply hanchored.tail hne
  rw [hsplit] at hstands hascU
  obtain ⟨A', q, B', C, i, D, hloc⟩ := exists_located hstands.tower.1
  have hq := hstands.holds_head hloc.mem
  have htwo := (hstands.tower.2.1 q hloc.mem).2.1
  obtain ⟨hasci, hi, hD⟩ := hcovers.items hloc
  obtain ⟨j, D, R, rfl, rfl, hR⟩ | ⟨C, j, L, rfl, hL, hlocj⟩ := located_neighbour hloc htwo
  · -- the neighbour is on the right
    obtain ⟨r, B, rfl, hr, rfl⟩ := List.map_eq_cons_iff.mp hR
    change Located W _ _ (r.entry :: Level.entries B) A' q B' [] i (j :: D) at hloc
    have hic : i.child = n.page := by rw [hloc.child_eq, Branch.entry_snd]
    have hjc : j.child = r.page := by rw [← Item.entry_snd, ← hr, Branch.entry_snd]
    have hrbody := (h.holds r (by simp)).body
    have hrsize := hsizes r (by simp)
    have hothers : ∀ m ∈ A ++ B, m.items.length ≤ c.internalMaxSize ∧ 2 ≤ m.items.length
        ∧ c.internalMaxSize / 2 ≤ m.items.length := by
      intro m hm
      apply hsizes
      simp only [List.mem_append, List.mem_cons] at hm ⊢
      tauto
    have hrun := coalesceOrRedistribute_right fuel hq hloc.items (hic ▸ hn.body) hmin hkey
      hasci hi hD (hjc ▸ hrbody)
    rw [hic, hjc, size_slots, size_slots] at hrun
    rw [hrun]
    by_cases hsum : c.internalMaxSize < n.items.length + r.items.length
    · rw [if_pos (by exact hsum)]
      apply h.rests.redistribute_first hloc hasc hmax hothers hhalf hsmall hrsize.1 hsum
    · rw [if_neg (by exact hsum), coalesce_right]
      apply h.rests.coalesce (C := []) hloc hmax hothers hhalf (by omega) (not_lt.mp hsum)
      intro t₃ hwanting
      apply hup hwanting
      · apply hascU.sublist
        apply List.Sublist.append_left
        apply List.Sublist.cons_cons
        apply List.sublist_cons_self
      · apply htellU.imp_right
        intro hanchored
        apply hanchored.remove hloc
  · -- the neighbour is on the left
    obtain ⟨A, A₁, rfl, rfl, hA₁⟩ := List.map_eq_append_iff.mp hL
    obtain ⟨l, A₁, rfl, hl, hnil⟩ := List.map_eq_cons_iff.mp hA₁
    obtain rfl := List.map_eq_nil_iff.mp hnil
    rw [← hl] at hlocj
    change Located W (Level.entries A) _ _ A' q B' C j (i :: D) at hlocj
    have hic : i.child = n.page := by rw [hloc.child_eq, Branch.entry_snd]
    have hjc : j.child = l.page := by rw [← Item.entry_snd, ← hl, Branch.entry_snd]
    have hlevel : A ++ [l] ++ n :: B = A ++ l :: n :: B := by simp
    have hrests := h.rests
    rw [hlevel] at hrests ⊢
    have hlbody := (h.holds l (by simp)).body
    have hlsize := hsizes l (by simp)
    have hothers : ∀ m ∈ A ++ B, m.items.length ≤ c.internalMaxSize ∧ 2 ≤ m.items.length
        ∧ c.internalMaxSize / 2 ≤ m.items.length := by
      intro m hm
      apply hsizes
      simp only [List.mem_append, List.mem_cons] at hm ⊢
      tauto
    rw [List.append_assoc, List.singleton_append] at hasci
    have hrun := coalesceOrRedistribute_left fuel hq hlocj.items (hic ▸ hn.body) hmin hkey
      hasci hi hD (hjc ▸ hlbody)
    rw [hic, hjc, size_slots, size_slots] at hrun
    rw [hrun]
    by_cases hsum : c.internalMaxSize < n.items.length + l.items.length
    · rw [if_pos (by exact hsum)]
      apply hrests.redistribute_last hlocj hasc hmax hothers hhalf hsmall hlsize.1 hsum
    · rw [if_neg (by exact hsum)]
      apply hrests.coalesce hlocj hmax hothers (by omega) hhalf (by omega)
      intro t₃ hwanting
      apply hup hwanting
      · apply hascU.sublist
        rw [Level.entries_append, List.append_assoc]
        apply List.Sublist.append_left
        apply List.Sublist.cons_cons
        apply List.sublist_cons_self
      · apply htellU.imp_right
        intro hanchored
        rw [Level.entries_append, List.append_assoc] at hanchored
        apply hanchored.remove hlocj

/-- A node that lacks an item is dealt with, and the levels stand on the same entries. -/
theorem Wanting.rebalance (h : Wanting t c.internalMaxSize below A n B Us)
    (hmax : 4 ≤ c.internalMaxSize) (hasc : Ascending below)
    (htell : 6 ≤ c.internalMaxSize ∨ Anchored zeroKey below ((A ++ n :: B) :: Us))
    (hfuel : Us.length < fuel) :
  ∃ t' Us', coalesceOrRedistribute c fuel n.page t = .ok () t'
    ∧ Stands t' c.internalMaxSize below Us'
    ∧ Shrunk t t' below (pages ((A ++ n :: B) :: Us)) (pages Us')
    ∧ (Zeroed zeroKey ((A ++ n :: B) :: Us) → Zeroed zeroKey Us')
  := by
  induction Us generalizing t below A n B fuel with
  | nil =>
    obtain ⟨fuel, rfl⟩ := Nat.exists_eq_add_one.mpr hfuel
    by_cases henough : c.internalMaxSize - c.internalMaxSize / 2 ≤ n.items.length
    · obtain ⟨hrun, hstands⟩ := h.enough fuel hmax henough
      exact ⟨t, _, hrun, hstands, Shrunk.refl t below _, id⟩
    · apply h.root (not_le.mp henough)
  | cons W Us ih =>
    obtain ⟨fuel, rfl⟩ := Nat.exists_eq_add_one.mpr (Nat.zero_lt_of_lt hfuel)
    by_cases henough : c.internalMaxSize - c.internalMaxSize / 2 ≤ n.items.length
    · obtain ⟨hrun, hstands⟩ := h.enough fuel hmax henough
      exact ⟨t, _, hrun, hstands, Shrunk.refl t below _, id⟩
    · apply h.step hmax hasc htell (not_le.mp henough)
      intro t₃ below' A' q B' hwanting hasc' htell'
      apply ih hwanting hasc' htell'
      simpa using hfuel

end Run

end MiniOB.BplusTree
