import MiniOB.Index.Rollback

/-!
# What fits in the pages of a tree

The numbers of the pages of a reachable tree are values of the type `int32_t`, its nodes lie
within their pages, and its header page is there.
-/

namespace MiniOB.BplusTree

open Stateful

variable {K V : Type} {c : Format K V} {tree tree' : Tree K V} {page : Int} {x : Page K V}
  {s s' : MiniTransaction K V}

/-- The numbers and the nodes of a tree fit, and it has a header page, which is not disposed
of. -/
structure Tree.Fits (c : Format K V) (tree : Tree K V) : Prop where
  pageNum : ∀ page, (tree.pages.get page).isSome → IsInt32 page
  node : ∀ page node, tree.node page = some node → node.Fits c
  header : ∃ rootPage, tree.pages.get firstIndexPage = some (.indexHeader rootPage)
  disposed : firstIndexPage ∉ tree.disposedPages

/-- A tree of which one page is changed. -/
theorem Tree.Fits.changed (h : tree.Fits c) (hpage : tree'.pages.get page = some x)
    (hnumber : IsInt32 page) (hnode : ∀ node, x = .node node → node.Fits c)
    (hheader : page = firstIndexPage → ∃ rootPage, x = .indexHeader rootPage)
    (hother : ∀ other, other ≠ page → tree'.pages.get other = tree.pages.get other)
    (hdisposed : tree'.disposedPages = tree.disposedPages) :
  tree'.Fits c
  := by
  refine ⟨?_, ?_, ?_, hdisposed ▸ h.disposed⟩
  · intro other hsome
    by_cases heq : other = page
    · rw [heq]
      exact hnumber
    · rw [hother other heq] at hsome
      exact h.pageNum other hsome
  · intro other node hfound
    have hget := Tree.node_eq_some hfound
    by_cases heq : other = page
    · rw [heq, hpage] at hget
      cases hget
      exact hnode node rfl
    · rw [hother other heq] at hget
      apply h.node other node
      rw [Tree.node, hget]
  · by_cases heq : page = firstIndexPage
    · obtain ⟨rootPage, hx⟩ := hheader heq
      exact ⟨rootPage, by rw [← heq, hpage, hx]⟩
    · obtain ⟨rootPage, hroot⟩ := h.header
      exact ⟨rootPage, by rw [hother _ (Ne.symm heq), hroot]⟩

/-- A node is no header page. -/
theorem Tree.Fits.ne_header (h : tree.Fits c) {node : IndexNode K V}
    (hnode : tree.node page = some node) :
  page ≠ firstIndexPage
  := by
  rintro rfl
  obtain ⟨rootPage, hroot⟩ := h.header
  rw [Tree.node_eq_some hnode] at hroot
  cases hroot

/-- A tree of which one node is changed. -/
theorem Tree.Fits.setNode (h : tree.Fits c) {node node' : IndexNode K V}
    (hnode : tree.node page = some node) (hfits : node'.Fits c)
    (hpages : tree'.pages = tree.pages.set page (some (.node node')))
    (hdisposed : tree'.disposedPages = tree.disposedPages) :
  tree'.Fits c
  := by
  have hbefore := Tree.node_eq_some hnode
  have hafter : tree'.pages.get page = some (.node node') := by
    rw [hpages]
    exact PageFile.get_set_self hbefore _
  apply h.changed hafter
  · exact h.pageNum page (Option.isSome_iff_exists.mpr ⟨_, hbefore⟩)
  · rintro node heq
    cases heq
    exact hfits
  · intro heq
    exact absurd heq (h.ne_header hnode)
  · intro other hne
    rw [hpages]
    exact PageFile.get_set_of_ne hne _
  · exact hdisposed

/-- Across an action, what fits goes on to fit. -/
def KeepsFits (c : Format K V) (s s' : MiniTransaction K V) : Prop :=
  s.tree.Fits c → s'.tree.Fits c

theorem fits_emptyBody (isLeaf : Bool) :
  (⟨invalidPageNum, Mini.emptyBody isLeaf⟩ : IndexNode K V).Fits c
  := by
  have hroom : 16 ≤ Record.pageDataSize := by decide
  have hinvalid : IsInt32 invalidPageNum := by decide
  cases isLeaf with
  | true => exact ⟨hinvalid, hinvalid, by simp; omega⟩
  | false => exact ⟨hinvalid, by simp, by simp; omega⟩

theorem steps_keepsFits : Steps c (KeepsFits c) where
  refl _ hfits := hfits
  trans h h' hfits := h' (h hfits)
  request _ _ hfits := hfits
  markDirty _ _ hfits := hfits
  disposePage s page hnode hfits := by
    obtain ⟨node, hnode⟩ := Option.isSome_iff_exists.mp hnode
    refine ⟨hfits.pageNum, hfits.node, hfits.header, ?_⟩
    rintro hmem
    obtain hmem | hmem := List.mem_append.mp hmem
    · exact hfits.disposed hmem
    · exact hfits.ne_header hnode (List.mem_singleton.mp hmem).symm
  allocate s isLeaf hnext hfits := by
    apply hfits.changed (PageFile.get_allocate_next) hnext
    · intro node heq
      cases heq
      exact fits_emptyBody isLeaf
    · intro heq
      obtain ⟨rootPage, hroot⟩ := hfits.header
      rw [← heq, PageFile.get_next] at hroot
      cases hroot
    · intro other hne
      exact PageFile.get_allocate_of_ne hne
    · rw [MiniTransaction.setPages, tree_appendLogEntry]
  change s page node operation node' hnode hfits' _ hfits := by
    apply hfits.setNode hnode hfits'
    · rfl
    · rw [MiniTransaction.setPages, tree_appendLogEntry]
  setRootPage s oldPage rootPage hheader hroot hfits := by
    have htree := tree_appendLogEntry s firstIndexPage (.updateRootPage rootPage oldPage)
    have hafter : ((s.appendLogEntry firstIndexPage
        (.updateRootPage rootPage oldPage)).setRootPage rootPage).tree.pages.get firstIndexPage
        = some (.indexHeader rootPage) := by
      rw [MiniTransaction.setRootPage, htree]
      exact PageFile.get_set_self hheader _
    apply hfits.changed hafter
    · exact hfits.pageNum _ (Option.isSome_iff_exists.mpr ⟨_, hheader⟩)
    · rintro node heq
      cases heq
    · intro _
      exact ⟨rootPage, rfl⟩
    · intro other hne
      rw [MiniTransaction.setRootPage, htree]
      exact PageFile.get_set_of_ne hne _
    · rw [MiniTransaction.setRootPage, htree]

/-! ### Calls -/

/-- A property of trees that lasts across every single change, across what a rollback writes, and
when the pages that have been disposed of are given back. -/
structure Lasts (c : Format K V) (P : Tree K V → Prop) : Prop where
  steps : Steps c fun s s' => P s.tree → P s'.tree
  write : ∀ (s : MiniTransaction K V) page node node', s.tree.node page = some node →
    node'.Fits c → P s.tree → P (s.setPages (s.tree.pages.set page (some (.node node')))).tree
  release : ∀ s : MiniTransaction K V, P s.tree →
    P (final ((Mini.release : Mini K V Unit) s)).tree

namespace Lasts

variable {P : Tree K V → Prop}

theorem write_of (h : Lasts c P) {node node' : IndexNode K V}
    (hnode : s.tree.node page = some node) :
  P s.tree → P (final (Mini.write c page node' s)).tree
  := by
  rw [Mini.write]
  split_ifs with hfits
  · exact h.write s page node node' hnode hfits
  · exact id

theorem rollbackEntry (h : Lasts c P) (entry : LogEntryHandler) :
  Along (fun s s' => P s.tree → P s'.tree) (Mini.rollbackEntry c entry)
  := by
  have hfollows := h.steps.follows
  obtain ⟨pageNum, operation⟩ := entry
  cases operation with
  | initHeaderPage fileHeader => apply Along.pure hfollows.toComposes
  | updateRootPage rootPageNum oldPageNum => apply hfollows.updateRootPageNum
  | setParentPage parentPageNum oldParentPageNum => apply hfollows.setParentPageNum
  | leafInitEmpty => apply Along.pure hfollows.toComposes
  | leafSetNextPage newPageNum oldPageNum => apply hfollows.setNextPage
  | internalInitEmpty => apply Along.pure hfollows.toComposes
  | internalCreateNewRoot firstPageNum key pageNum => apply Along.pure hfollows.toComposes
  | internalUpdateKey index key oldKey => apply hfollows.setKeyAt
  | nodeInsert index itemNum items =>
    apply along_node_bind hfollows.toComposes
    intro s node hnode
    split_ifs
    · apply hfollows.refl
    · cases node.body with
      | leaf nextBrother items => exact h.write_of hnode
      | internal items => exact h.write_of hnode
  | nodeRemove index itemNum items =>
    apply along_node_bind hfollows.toComposes
    intro s node hnode
    split_ifs
    · apply hfollows.refl
    · apply hfollows.refl

theorem rollbackEntries (h : Lasts c P) (entries : List LogEntryHandler) :
  Along (fun s s' => P s.tree → P s'.tree) (Mini.rollbackEntries c entries)
  := by
  have hcomposes := h.steps.toComposes
  induction entries with
  | nil => apply Along.pure hcomposes
  | cons entry entries ih =>
    apply Along.bind hcomposes (along_ignoringRc (h.rollbackEntry entry))
    intro _
    exact ih

/-- The property lasts at the end of an operation that has failed. -/
theorem rollback_release (h : Lasts c P) :
  Along (fun s s' => P s.tree → P s'.tree) (do Mini.rollback c; Mini.release : Mini K V Unit)
  := by
  have hcomposes := h.steps.toComposes
  have hset : ∀ f : MiniTransaction K V → MiniTransaction K V, (∀ s, (f s).tree = s.tree) →
      Along (fun s s' => P s.tree → P s'.tree) (modify f : Mini K V Unit) := by
    intro f hf s htree
    change P (f s).tree
    rw [hf s]
    exact htree
  apply Along.bind hcomposes
  · apply Along.bind hcomposes (Along.get hcomposes)
    intro s
    dsimp only
    apply Along.bind hcomposes
    · apply hset
      intro s
      rfl
    intro _
    apply Along.bind hcomposes (h.rollbackEntries s.entries.reverse)
    intro _
    apply hset
    intro s
    rfl
  · intro _ s
    exact h.release s

/-- The property lasts across a call. -/
theorem exec [LinearOrder K] (h : Lasts c P) {operation : Operation K V} {dirty : List Int}
    {answer : Nat → RC} {finished : Finished K V} (htree : P tree)
    (hexec : operation.exec c tree dirty answer = .ok finished) :
  P finished.tree
  := by
  have hbody := h.steps.follows.operation operation (MiniTransaction.start tree dirty answer) htree
  rw [Operation.exec] at hexec
  cases hrun : operation.body c (MiniTransaction.start tree dirty answer) with
  | ok u s =>
    rw [hrun] at hexec hbody
    cases hexec
    exact h.release s hbody
  | error e s =>
    rw [hrun] at hexec hbody
    cases e with
    | crash crash => cases hexec
    | returns rc =>
      have hend := h.rollback_release s hbody
      rw [MiniTransaction.finish] at hexec
      cases hlast : (do Mini.rollback c; Mini.release : Mini K V Unit) s with
      | ok u s' =>
        rw [hlast] at hexec hend
        cases hexec
        exact hend
      | error e s' =>
        rw [hlast] at hexec hend
        cases e with
        | crash crash => cases hexec
        | returns rc' =>
          cases hexec
          exact hend

end Lasts

/-! ### Reachable trees -/

/-- The pages that are disposed of are given back. -/
theorem Tree.Fits.release (h : s.tree.Fits c) :
  (final ((Mini.release : Mini K V Unit) s)).tree.Fits c
  := by
  have hfree : ∀ {page : Int} {x : Page K V},
      (final ((Mini.release : Mini K V Unit) s)).tree.pages.get page = some x →
        s.tree.pages.get page = some x := by
    intro page x hget
    change PageFile.get (List.foldl _ _ _) page = some x at hget
    rw [PageFile.get_foldl_set_none] at hget
    split_ifs at hget
    exact hget
  refine ⟨?_, ?_, ?_, ?_⟩
  · intro page hsome
    obtain ⟨x, hget⟩ := Option.isSome_iff_exists.mp hsome
    exact h.pageNum page (Option.isSome_iff_exists.mpr ⟨x, hfree hget⟩)
  · intro page node hnode
    apply h.node page node
    rw [Tree.node, hfree (Tree.node_eq_some hnode)]
  · obtain ⟨rootPage, hroot⟩ := h.header
    refine ⟨rootPage, ?_⟩
    change PageFile.get (List.foldl _ _ _) firstIndexPage = _
    rw [PageFile.get_foldl_set_none, if_neg h.disposed, hroot]
  · exact List.not_mem_nil

theorem lasts_fits : Lasts c (Tree.Fits c : Tree K V → Prop) where
  steps := steps_keepsFits
  write _ _ _ _ hnode hfits h := h.setNode hnode hfits rfl rfl
  release _ h := h.release

theorem Tree.fits_create : (Tree.create : Tree K V).Fits c := by
  have hpages : ∀ {page : Int} {x : Page K V}, (Tree.create : Tree K V).pages.get page = some x →
      0 ≤ page ∧ page ≤ 1 ∧ ∀ node, x ≠ .node node := by
    intro page x hget
    have hpos := PageFile.nonneg_of_get hget
    rw [PageFile.get, if_neg (by omega)] at hget
    obtain h | h | h : page.toNat = 0 ∨ page.toNat = 1 ∨ 2 ≤ page.toNat := by omega
    · rw [h] at hget
      cases hget
      exact ⟨hpos, by omega, by rintro node ⟨⟩⟩
    · rw [h] at hget
      cases hget
      exact ⟨hpos, by omega, by rintro node ⟨⟩⟩
    · rw [List.getElem?_eq_none (by exact h)] at hget
      cases hget
  refine ⟨?_, ?_, ⟨invalidPageNum, rfl⟩, List.not_mem_nil⟩
  · intro page hsome
    obtain ⟨x, hget⟩ := Option.isSome_iff_exists.mp hsome
    obtain ⟨hpos, hle, -⟩ := hpages hget
    have hmax : (1 : Int) ≤ int32Max := by decide
    exact ⟨by omega, hle.trans hmax⟩
  · intro page node hnode
    exact absurd rfl ((hpages (Tree.node_eq_some hnode)).2.2 node)

theorem Reachable.fits [LinearOrder K] (h : Reachable c tree) : tree.Fits c := by
  induction h with
  | create => exact Tree.fits_create
  | exec operation h hexec ih => exact lasts_fits.exec ih hexec

end MiniOB.BplusTree
