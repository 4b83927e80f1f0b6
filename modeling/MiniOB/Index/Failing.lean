import MiniOB.Index.Following

/-!
# Requests for pages that fail

One of the requests of an operation for a page fails. As long as nothing has been changed,
the operation ends with the tree as it was. Behind the first removal of items, rolling back
crashes: a handler that does not know the kind of its node has no items to put back.
-/

namespace MiniOB.BplusTree

open Stateful

variable {K V α β : Type} {c : Format K V} {tree : Tree K V} {dirty : List Int} {k : Nat}
  {rc : RC} {page : Int} {s s' t : MiniTransaction K V}

/-- The answers of a buffer pool that fails at the request number `k`. -/
def failingAt (k : Nat) (rc : RC) (request : Nat) : RC := if request = k then rc else .success

/-! ### Before anything is changed -/

/-- A result with its state. -/
def outcome (s : MiniTransaction K V) : Except Stop α → EStateM.Result Stop (MiniTransaction K V) α
  | .ok a => .ok a s
  | .error e => .error e s

/-- The computation does nothing but ask for pages. Where none of the requests fails, it makes
the requests up to `n`; if the one with the number `k` is among them, it ends there. -/
def Asks (k : Nat) (rc : RC) (x : Mini K V α) : Prop :=
  ∀ s t, t.tree = s.tree → t.requests = s.requests → (∀ n, t.answer n = .success) →
    s.answer = failingAt k rc → ∃ n r, t.requests ≤ n ∧ x t = outcome { t with requests := n } r
      ∧ x s = if s.requests ≤ k ∧ k < n then .error (.returns rc) { s with requests := k + 1 }
        else outcome { s with requests := n } r

namespace Asks

theorem of_outcome {x : Mini K V α} (r : Tree K V → Except Stop α)
    (h : ∀ s, x s = outcome s (r s.tree)) :
  Asks k rc x
  := by
  intro s t htree hrequests _ _
  refine ⟨t.requests, r t.tree, le_rfl, h t, ?_⟩
  rw [if_neg (by omega), h s, htree, hrequests]

theorem pure (a : α) : Asks k rc (Pure.pure a : Mini K V α) := of_outcome (fun _ => .ok a) fun _ => rfl

theorem throw (e : Stop) : Asks k rc (throw e : Mini K V α) :=
  of_outcome (fun _ => .error e) fun _ => rfl

theorem item (x : Option α) : Asks k rc (Mini.item x : Mini K V α) := by
  cases x with
  | none => apply throw
  | some a => apply pure

theorem node (page : Int) : Asks k rc (Mini.node page : Mini K V (IndexNode K V)) := by
  apply of_outcome fun tree =>
    (tree.node page).elim (.error (.crash (.failure (.page page)))) .ok
  intro s
  rw [Mini.node]
  cases s.tree.node page <;> rfl

theorem request (hrc : rc ≠ .success) : Asks k rc (Mini.request : Mini K V Unit) := by
  intro s t htree hrequests ht hs
  refine ⟨t.requests + 1, .ok (), by omega, ?_, ?_⟩
  · rw [Mini.request, if_pos (ht _)]
    rfl
  · rw [Mini.request, hs, failingAt, hrequests]
    by_cases hk : s.requests = k
    · rw [if_pos hk, if_neg hrc, if_pos (by omega), hk]
    · rw [if_neg hk, if_pos rfl, if_neg (by omega)]
      rfl

theorem bind {x : Mini K V α} {f : α → Mini K V β} (hx : Asks k rc x)
    (hf : ∀ a, Asks k rc (f a)) :
  Asks k rc (x >>= f)
  := by
  intro s t htree hrequests ht hs
  obtain ⟨n, r, hn, hxt, hxs⟩ := hx s t htree hrequests ht hs
  have hbind : ∀ s, (x >>= f) s = EStateM.bind x f s := fun _ => rfl
  simp only [hbind, EStateM.bind, hxt, hxs]
  cases r with
  | error e =>
    refine ⟨n, .error e, hn, rfl, ?_⟩
    split_ifs <;> rfl
  | ok a =>
    obtain ⟨n', r', hn', hft, hfs⟩ := hf a { s with requests := n } { t with requests := n }
      htree rfl ht hs
    refine ⟨n', r', hn.trans hn', hft, ?_⟩
    by_cases hfirst : s.requests ≤ k ∧ k < n
    · rw [if_pos hfirst, if_pos ⟨hfirst.1, hfirst.2.trans_le hn'⟩]
    · rw [if_neg hfirst]
      change f a { s with requests := n } = _
      rw [hfs]
      dsimp only at hn' ⊢
      by_cases hsecond : n ≤ k ∧ k < n'
      · rw [if_pos hsecond, if_pos ⟨by omega, hsecond.2⟩]
      · rw [if_neg hsecond, if_neg (by omega)]

/-- A computation that looks at the tree. -/
theorem get_tree {f : Tree K V → Mini K V α} (hf : ∀ tree, Asks k rc (f tree)) :
  Asks k rc (do f (← get).tree)
  := by
  intro s t htree hrequests ht hs
  obtain ⟨n, r, hn, hft, hfs⟩ := hf s.tree s t htree hrequests ht hs
  rw [← htree] at hft
  exact ⟨n, r, hn, hft, hfs⟩

theorem ite {p : Prop} [Decidable p] {x y : Mini K V α} (hx : Asks k rc x) (hy : Asks k rc y) :
  Asks k rc (if p then x else y)
  := by
  split
  · exact hx
  · exact hy

theorem getPage (hrc : rc ≠ .success) (page : Int) :
  Asks k rc (Mini.getPage page : Mini K V Unit)
  := by
  apply bind (request hrc)
  rintro ⟨⟩
  apply get_tree (f := fun tree => if (tree.pages.get page).isNone then Mini.fail (.page page)
    else Pure.pure ())
  intro tree
  apply ite
  · apply throw
  · apply pure

theorem descend (hrc : rc ≠ .success) (childPageGetter : List (K × Int) → Option Int)
    (fuel : Nat) (page : Int) :
  Asks k rc (Mini.descend childPageGetter fuel page : Mini K V Int)
  := by
  induction fuel generalizing page with
  | zero => apply throw
  | succ fuel ih =>
    apply bind (node page)
    rintro ⟨parent, ⟨nextBrother, items⟩ | items⟩
    · apply pure
    · apply bind (item _)
      intro child
      apply bind (getPage hrc _)
      intro _
      apply ih

theorem findLeaf [LinearOrder K] (hrc : rc ≠ .success) (key : K) :
  Asks k rc (Mini.findLeaf key : Mini K V Int)
  := by
  apply get_tree (f := fun tree =>
    if tree.rootPage = invalidPageNum then Mini.returns .empty
    else do
      Mini.getPage tree.rootPage
      Mini.descend (fun items => (items[internalLookup items key]?).map Prod.snd)
        tree.pages.length tree.rootPage)
  intro tree
  apply ite
  · apply throw
  · apply bind (getPage hrc _)
    intro _
    apply descend hrc

end Asks

/-- The number of pages that `find_leaf` fetches for a key. -/
def descent [LinearOrder K] (tree : Tree K V) (key : K) : Nat :=
  (final ((Mini.findLeaf key : Mini K V Int)
    (MiniTransaction.start tree [] fun _ => .success))).requests

/-- The search for a leaf leaves the tree as it is, and ends at the request that fails if it
makes it. -/
theorem findLeaf_failing [LinearOrder K] (hrc : rc ≠ .success) (tree : Tree K V)
    (dirty : List Int) (key : K) :
  ∃ r : Except Stop Int, (Mini.findLeaf key : Mini K V Int)
      (MiniTransaction.start tree dirty (failingAt k rc))
    = if k < descent tree key then
        .error (.returns rc)
          { MiniTransaction.start tree dirty (failingAt k rc) with requests := k + 1 }
      else
        outcome { MiniTransaction.start tree dirty (failingAt k rc) with
          requests := descent tree key } r
  := by
  obtain ⟨n, r, -, ht, hs⟩ := Asks.findLeaf hrc key (MiniTransaction.start tree dirty (failingAt k rc))
    (MiniTransaction.start tree [] fun _ => .success) rfl rfl (fun _ => rfl) rfl
  have hn : descent tree key = n := by
    rw [descent, ht]
    cases r <;> rfl
  refine ⟨r, ?_⟩
  rw [hs, hn]
  simp only [MiniTransaction.start, Nat.zero_le, true_and]

/-! ### Behind the first removal -/

/-- The logger holds the removal of items, which is not rolled back. -/
def Fatal (s : MiniTransaction K V) : Prop :=
  ∃ page index num items, ⟨page, .nodeRemove index num items⟩ ∈ s.entries ∧ num ≠ 0

/-- The operation does not end with its error: it succeeds, or crashes now or when it is
rolled back. -/
def Broken : EStateM.Result Stop (MiniTransaction K V) α → Prop
  | .ok .. => True
  | .error (.crash _) _ => True
  | .error (.returns _) s => Fatal s

/-- The logger forgets nothing. -/
def Grows (s s' : MiniTransaction K V) : Prop :=
  s'.needLog = s.needLog ∧ s'.answer = s.answer ∧ s.entries ⊆ s'.entries

theorem Grows.needLog (h : Grows s s') : s'.needLog = s.needLog := h.1

theorem Grows.answer (h : Grows s s') : s'.answer = s.answer := h.2.1

theorem Grows.entries (h : Grows s s') : s.entries ⊆ s'.entries := h.2.2

theorem Fatal.mono (h : Fatal s) (hgrows : Grows s s') : Fatal s' := by
  obtain ⟨page, index, num, items, hmem, hnum⟩ := h
  exact ⟨page, index, num, items, hgrows.entries hmem, hnum⟩

theorem composes_grows : Composes (Grows : MiniTransaction K V → MiniTransaction K V → Prop) where
  refl _ := ⟨rfl, rfl, List.Subset.refl _⟩
  trans h h' := ⟨h'.needLog.trans h.needLog, h'.answer.trans h.answer,
    fun _ hmem => h'.entries (h.entries hmem)⟩

theorem grows_appendLogEntry (s : MiniTransaction K V) (operation : LogOperation) :
  Grows s (s.appendLogEntry page operation)
  := by
  rw [MiniTransaction.appendLogEntry]
  split_ifs
  · exact ⟨rfl, rfl, List.subset_append_left _ _⟩
  · exact composes_grows.refl s

theorem requests_appendLogEntry (s : MiniTransaction K V) (operation : LogOperation) :
  (s.appendLogEntry page operation).requests = s.requests
  := by
  rw [MiniTransaction.appendLogEntry]
  split <;> rfl

/-- Along an operation, the logger forgets nothing. -/
theorem steps_grows : Steps c Grows where
  toComposes := composes_grows
  request s _ := composes_grows.refl s
  markDirty s _ := composes_grows.refl s
  disposePage s _ _ := composes_grows.refl s
  allocate s _ _ := grows_appendLogEntry s _
  change s _ _ _ _ _ _ _ := grows_appendLogEntry s _
  setRootPage s _ _ _ _ := grows_appendLogEntry s _

/-- What follows a removal does not end with an error. -/
theorem Fatal.broken {x : Mini K V α} (hx : Along Grows x) (h : Fatal s) : Broken (x s) := by
  have hgrows := hx s
  cases hrun : x s with
  | ok a s' => trivial
  | error e s' =>
    rw [hrun] at hgrows
    cases e with
    | returns rc => exact h.mono hgrows
    | crash crash => trivial

/-- The computation crashes, or it succeeds with the removal of items in the logger. -/
def Removes (r : EStateM.Result Stop (MiniTransaction K V) α) : Prop :=
  match r with
  | .ok _ s => Fatal s
  | .error (.crash _) _ => True
  | .error (.returns _) _ => False

theorem Removes.bind {x : Mini K V α} {f : α → Mini K V β} (hx : Removes (x s))
    (hf : ∀ a, Along Grows (f a)) :
  Broken ((x >>= f) s)
  := by
  have hbind : (x >>= f) s = EStateM.bind x f s := rfl
  rw [hbind, EStateM.bind]
  cases hrun : x s with
  | ok a s' =>
    rw [hrun] at hx
    exact Fatal.broken (hf a) hx
  | error e s' =>
    rw [hrun] at hx
    cases e with
    | returns rc => exact hx.elim
    | crash crash => trivial

/-- The computation crashes, or it succeeds; it makes no request. -/
def Quiet (x : Mini K V α) : Prop :=
  ∀ s, match x s with
    | .ok _ s' => s'.requests = s.requests ∧ Grows s s'
    | .error (.crash _) s' => s'.requests = s.requests
    | .error (.returns _) _ => False

namespace Quiet

theorem pure (a : α) : Quiet (Pure.pure a : Mini K V α) := fun s => ⟨rfl, composes_grows.refl s⟩

theorem crash (crash : Crash) : Quiet (Mini.crash crash : Mini K V α) := fun _ => rfl

theorem bind {x : Mini K V α} {f : α → Mini K V β} (hx : Quiet x) (hf : ∀ a, Quiet (f a)) :
  Quiet (x >>= f)
  := by
  intro s
  have hbind : (x >>= f) s = EStateM.bind x f s := rfl
  have hs := hx s
  rw [hbind, EStateM.bind]
  cases hrun : x s with
  | error e s' =>
    rw [hrun] at hs
    cases e with
    | returns rc => exact hs
    | crash crash => exact hs
  | ok a s' =>
    rw [hrun] at hs
    obtain ⟨hrequests, hgrows⟩ := hs
    have hs' := hf a s'
    change match f a s' with
      | .ok _ s'' => s''.requests = s.requests ∧ Grows s s''
      | .error (.crash _) s'' => s''.requests = s.requests
      | .error (.returns _) _ => False
    cases hrest : f a s' with
    | ok b s'' =>
      rw [hrest] at hs'
      exact ⟨hs'.1.trans hrequests, composes_grows.trans hgrows hs'.2⟩
    | error e s'' =>
      rw [hrest] at hs'
      cases e with
      | returns rc => exact hs'
      | crash crash => exact hs'.trans hrequests

theorem get : Quiet (get : Mini K V (MiniTransaction K V)) := fun s => ⟨rfl, composes_grows.refl s⟩

theorem ite {p : Prop} [Decidable p] {x y : Mini K V α} (hx : Quiet x) (hy : Quiet y) :
  Quiet (if p then x else y)
  := by
  split
  · exact hx
  · exact hy

/-- A check in front of a computation. -/
theorem jump {p : Prop} [Decidable p] {x : Mini K V α} {f : α → Mini K V β} {a : α}
    (hx : Quiet x) (hf : ∀ a, Quiet (f a)) :
  Quiet (if p then x >>= f else f a)
  := ite (bind hx hf) (hf a)

theorem item (x : Option α) : Quiet (Mini.item x : Mini K V α) := by
  cases x with
  | none => apply crash
  | some a => apply pure

theorem within (x : Option (List β)) : Quiet (Mini.within x : Mini K V (List β)) := by
  cases x with
  | none => apply crash
  | some items => apply pure

theorem node (page : Int) : Quiet (Mini.node page : Mini K V (IndexNode K V)) := by
  intro s
  rw [Mini.node]
  cases s.tree.node page with
  | none => rfl
  | some node => exact ⟨rfl, composes_grows.refl s⟩

theorem leaf (page : Int) : Quiet (Mini.leaf page : Mini K V (Int × List (K × V))) := by
  apply bind (node page)
  rintro ⟨parent, ⟨nextBrother, items⟩ | items⟩
  · apply pure
  · apply crash

theorem change (page : Int) (operation : LogOperation) (node : IndexNode K V) :
  Quiet (Mini.change c page operation node)
  := by
  intro s
  rw [Mini.change]
  split_ifs with hfits
  · exact ⟨requests_appendLogEntry s operation, grows_appendLogEntry s operation⟩
  · rfl

theorem markDirty (page : Int) : Quiet (Mini.markDirty page : Mini K V Unit) :=
  fun s => ⟨rfl, composes_grows.refl s⟩

theorem setParentPageNum (page parent : Int) : Quiet (Mini.setParentPageNum c page parent) := by
  apply bind (node page)
  intro node
  apply change

theorem insertLeafItems (page : Int) (index : Nat) (moved : List (K × V)) :
  Quiet (Mini.insertLeafItems c page index moved)
  := by
  apply bind (node page)
  rintro ⟨parent, ⟨nextBrother, items⟩ | items⟩
  · apply bind (within _)
    intro items'
    apply change
  · apply crash

theorem leafAppend (page : Int) (moved : List (K × V)) : Quiet (Mini.leafAppend c page moved) := by
  apply bind (leaf page)
  rintro ⟨_, items⟩
  apply insertLeafItems

end Quiet

/-- In front of a removal, nothing is returned. -/
theorem removes_of_quiet {x : Mini K V α} {f : α → Mini K V β} (hx : Quiet x)
    (hf : ∀ a s', x s = .ok a s' → Grows s s' → Removes (f a s')) :
  Removes ((x >>= f) s)
  := by
  have hbind : (x >>= f) s = EStateM.bind x f s := rfl
  have hs := hx s
  rw [hbind, EStateM.bind]
  cases hrun : x s with
  | ok a s' =>
    rw [hrun] at hs
    exact hf a s' hrun hs.2
  | error e s' =>
    rw [hrun] at hs
    cases e with
    | returns rc => exact hs.elim
    | crash crash => trivial

/-- Behind a removal either. -/
theorem Removes.bind_quiet {x : Mini K V α} {f : α → Mini K V β} (hx : Removes (x s))
    (hf : ∀ a, Quiet (f a)) :
  Removes ((x >>= f) s)
  := by
  have hbind : (x >>= f) s = EStateM.bind x f s := rfl
  rw [hbind, EStateM.bind]
  cases hrun : x s with
  | error e s' =>
    rw [hrun] at hx
    cases e with
    | returns rc => exact hx
    | crash crash => exact hx
  | ok a s' =>
    rw [hrun] at hx
    have hs' := hf a s'
    change Removes (f a s')
    cases hrest : f a s' with
    | ok b s'' =>
      rw [hrest] at hs'
      exact hx.mono hs'.2
    | error e s'' =>
      rw [hrest] at hs'
      cases e with
      | returns rc => exact hs'.elim
      | crash crash => trivial

theorem removeLeafItems_removes {index num : Nat} (hlog : s.needLog = true) (hnum : num ≠ 0) :
  Removes (Mini.removeLeafItems c page index num s)
  := by
  apply removes_of_quiet (Quiet.node page)
  rintro ⟨parent, ⟨nextBrother, items⟩ | items⟩ s' _ hgrows
  · apply removes_of_quiet (Quiet.within _)
    intro items' s'' _ hgrows'
    rw [Mini.change]
    split_ifs
    · have hlog'' : s''.needLog = true := (hgrows'.needLog.trans hgrows.needLog).trans hlog
      refine ⟨page, index, num, c.leafBytes ((items.drop index).take num), ?_, by omega⟩
      rw [MiniTransaction.appendLogEntry, if_pos hlog'']
      exact List.mem_append_right _ List.mem_cons_self
    · trivial
  · trivial

/-- Half of the items of a leaf that is not empty are removed. -/
theorem leafMoveHalfTo_removes {other parent nextBrother : Int} {items : List (K × V)}
    (hlog : s.needLog = true) (hleaf : s.tree.node page = some ⟨parent, .leaf nextBrother items⟩)
    (hitems : items ≠ []) :
  Removes (Mini.leafMoveHalfTo c page other s)
  := by
  apply removes_of_quiet (Quiet.leaf page)
  rintro ⟨nextBrother', items'⟩ s' hrun hgrows
  have hread : (Mini.leaf page : Mini K V (Int × List (K × V))) s = .ok (nextBrother, items) s := by
    have hbind : ∀ f : IndexNode K V → Mini K V (Int × List (K × V)),
        (Mini.node page >>= f) s = f ⟨parent, .leaf nextBrother items⟩ s := by
      intro f
      change EStateM.bind (Mini.node page) f s = _
      rw [EStateM.bind, Mini.node, hleaf]
    exact hbind _
  rw [hread] at hrun
  cases hrun
  have hpos := List.length_pos_iff.mpr hitems
  apply removes_of_quiet (Quiet.leafAppend _ _)
  intro _ s' _ hgrows'
  apply removeLeafItems_removes (hgrows'.needLog.trans hlog)
  omega

theorem bind_error {x : Mini K V α} {f : α → Mini K V β} {e : Stop} (h : x s = .error e s') :
  (x >>= f) s = .error e s'
  := by
  change EStateM.bind x f s = _
  rw [EStateM.bind, h]

theorem bind_ok {x : Mini K V α} {f : α → Mini K V β} {a : α} (h : x s = .ok a s') :
  (x >>= f) s = f a s'
  := by
  change EStateM.bind x f s = _
  rw [EStateM.bind, h]

theorem request_error (hrc : rc ≠ .success) (hanswer : s.answer = failingAt s.requests rc) :
  (Mini.request : Mini K V Unit) s = .error (.returns rc) { s with requests := s.requests + 1 }
  := by
  have hfails : s.answer s.requests = rc := by rw [hanswer, failingAt, if_pos rfl]
  rw [Mini.request, hfails, if_neg hrc]

theorem request_ok (hanswer : s.answer = failingAt k rc) (hne : s.requests ≠ k) :
  (Mini.request : Mini K V Unit) s = .ok () { s with requests := s.requests + 1 }
  := by
  have hsuccess : s.answer s.requests = .success := by rw [hanswer, failingAt, if_neg hne]
  rw [Mini.request, if_pos hsuccess]

/-- A node that is initialised on a new page. -/
theorem allocateNode_ok (hanswer : s.answer = failingAt k rc) (hne : s.requests ≠ k)
    (isLeaf : Bool) :
  (Mini.allocateNode isLeaf : Mini K V Int) s
    = if IsInt32 s.tree.pages.next then
        .ok s.tree.pages.next ((({ s with requests := s.requests + 1 } : MiniTransaction K V)
          |>.appendLogEntry s.tree.pages.next (initOperation isLeaf)).setPages
            (s.tree.pages.allocate (.node ⟨invalidPageNum, Mini.emptyBody isLeaf⟩)))
      else .error (.crash .overflow) { s with requests := s.requests + 1 }
  := by
  rw [Mini.allocateNode, bind_ok (request_ok hanswer hne)]
  change ((if ¬ IsInt32 (s.tree.pages.next : Int) then _ else _ : Mini K V Int) _) = _
  by_cases hpage : IsInt32 s.tree.pages.next
  · rw [if_pos hpage, if_neg (not_not.mpr hpage)]
    rfl
  · rw [if_neg hpage, if_pos hpage]
    rfl

theorem split_error (hrc : rc ≠ .success) (hanswer : s.answer = failingAt s.requests rc)
    (isLeaf : Bool) :
  Mini.split c isLeaf page s = .error (.returns rc) { s with requests := s.requests + 1 }
  := bind_error (bind_error (request_error hrc hanswer))

theorem node_ok {node : IndexNode K V}
    (h : (Mini.node page : Mini K V (IndexNode K V)) s = .ok node s') :
  s.tree.node page = some node ∧ s' = s
  := by
  rw [Mini.node] at h
  cases hnode : s.tree.node page with
  | none =>
    rw [hnode] at h
    cases h
  | some node' =>
    rw [hnode] at h
    cases h
    exact ⟨rfl, rfl⟩

/-- The parent of one node is changed, and not of another one. -/
theorem node_of_setParentPageNum {other parent : Int} {u : Unit} (hne : page ≠ other)
    (h : Mini.setParentPageNum c other parent s = .ok u s') :
  s'.tree.node page = s.tree.node page
  := by
  cases hnode : (Mini.node other : Mini K V (IndexNode K V)) s with
  | error e t =>
    rw [Mini.setParentPageNum, bind_error hnode] at h
    cases h
  | ok node t =>
    obtain ⟨-, rfl⟩ := node_ok hnode
    rw [Mini.setParentPageNum, bind_ok hnode, Mini.change] at h
    split_ifs at h
    cases h
    simp only [Tree.node, MiniTransaction.setPages, tree_appendLogEntry,
      PageFile.get_set_of_ne hne]

/-- Where the new page can be had, splitting a leaf removes items of it. -/
theorem split_removes {parent nextBrother : Int} {items : List (K × V)}
    (hanswer : s.answer = failingAt k rc) (hne : s.requests ≠ k) (hlog : s.needLog = true)
    (hleaf : s.tree.node page = some ⟨parent, .leaf nextBrother items⟩) (hitems : items ≠ []) :
  Removes (Mini.split c true page s)
  := by
  rw [Mini.split]
  by_cases hpage : IsInt32 s.tree.pages.next
  · have halloc := allocateNode_ok hanswer hne true
    rw [if_pos hpage] at halloc
    rw [bind_ok halloc]
    have hnew : page ≠ (s.tree.pages.next : Int) := by
      rintro rfl
      rw [Tree.node, PageFile.get_next] at hleaf
      cases hleaf
    apply removes_of_quiet (Quiet.node page)
    intro node s₂ hnode hgrows₂
    obtain ⟨hfound, rfl⟩ := node_ok hnode
    apply removes_of_quiet (Quiet.setParentPageNum _ _)
    intro _ s₃ hparent hgrows₃
    have hleaf' : s₃.tree.node page = some ⟨parent, .leaf nextBrother items⟩ := by
      rw [node_of_setParentPageNum hnew hparent, ← hleaf]
      simp only [Tree.node, MiniTransaction.setPages, PageFile.get_allocate_of_ne hnew]
    have hlog' : s₃.needLog = true := by
      rw [hgrows₃.needLog]
      exact (grows_appendLogEntry _ _).needLog.trans hlog
    apply Removes.bind_quiet
    · have hmove : Removes (Mini.leafMoveHalfTo c page s.tree.pages.next s₃) :=
        leafMoveHalfTo_removes hlog' hleaf' hitems
      change Removes (Mini.ignoringRc (Mini.leafMoveHalfTo c page s.tree.pages.next) s₃)
      rw [Mini.ignoringRc]
      split
      · rename_i heq
        rw [heq] at hmove
        exact hmove.elim
      · exact hmove
    · intro _
      apply Quiet.bind (Quiet.markDirty _)
      intro _
      apply Quiet.bind (Quiet.markDirty _)
      intro _
      apply Quiet.pure
  · have halloc := allocateNode_ok hanswer hne true
    rw [if_neg hpage] at halloc
    rw [bind_error halloc]
    trivial

/-! ### How operations end -/

/-- The ways in which a computation ends: without the request that fails, with its error and
nothing changed, or behind it and broken. -/
def Ends (k : Nat) (rc : RC) (s : MiniTransaction K V)
    (r : EStateM.Result Stop (MiniTransaction K V) α) : Prop :=
  (final r).requests ≤ k
    ∨ (s.requests = k ∧ r = .error (.returns rc) { s with requests := k + 1 })
    ∨ (s.requests < k ∧ Broken r)

theorem Quiet.requests {x : Mini K V α} (hx : Quiet x) (s : MiniTransaction K V) :
  (final (x s)).requests = s.requests
  := by
  have hs := hx s
  cases hrun : x s with
  | ok a s' =>
    rw [hrun] at hs
    exact hs.1
  | error e s' =>
    rw [hrun] at hs
    cases e with
    | returns rc => exact hs.elim
    | crash crash => exact hs

/-- A computation that makes no request does not come to the one that fails. -/
theorem ends_of_quiet {x : Mini K V α} (hx : Quiet x) (hle : s.requests ≤ k) :
  Ends k rc s (x s)
  := .inl ((hx.requests s).trans_le hle)

/-- A look at a leaf in front of a computation. -/
theorem leaf_bind (page : Int) (f : Int × List (K × V) → Mini K V α)
    (s : MiniTransaction K V) :
  (∃ crash, (Mini.leaf page >>= f) s = .error (.crash crash) s)
    ∨ ∃ parent nextBrother items, s.tree.node page = some ⟨parent, .leaf nextBrother items⟩
      ∧ (Mini.leaf page >>= f) s = f (nextBrother, items) s
  := by
  cases hnode : s.tree.node page with
  | none =>
    have hleaf : (Mini.leaf page : Mini K V (Int × List (K × V))) s
        = .error (.crash (.failure (.page page))) s := by
      apply bind_error
      rw [Mini.node, hnode]
    exact .inl ⟨_, bind_error hleaf⟩
  | some node =>
    have hread : (Mini.node page : Mini K V (IndexNode K V)) s = .ok node s := by
      rw [Mini.node, hnode]
    obtain ⟨parent, ⟨nextBrother, items⟩ | items⟩ := node
    · have hleaf : (Mini.leaf page : Mini K V (Int × List (K × V))) s
          = .ok (nextBrother, items) s := bind_ok hread
      exact .inr ⟨parent, nextBrother, items, rfl, bind_ok hleaf⟩
    · have hleaf : (Mini.leaf page : Mini K V (Int × List (K × V))) s
          = .error (.crash (.failure (.kind page))) s := bind_ok hread
      exact .inl ⟨_, bind_error hleaf⟩

/-- A request, and nothing but it. -/
theorem requests_getPage (hanswer : s.answer = failingAt k rc) (hne : s.requests ≠ k)
    (page : Int) :
  (final ((Mini.getPage page : Mini K V Unit) s)).requests = s.requests + 1
  := by
  rw [Mini.getPage, bind_ok (request_ok hanswer hne)]
  apply Quiet.requests
  apply Quiet.bind Quiet.get
  intro s'
  apply Quiet.ite
  · apply Quiet.crash
  · apply Quiet.pure

/-- A change of the root makes one request. If this one fails, it crashes. -/
theorem updateRootPageNum_requests (hrc : rc ≠ .success) (hanswer : s.answer = failingAt k rc)
    (hle : s.requests ≤ k) (rootPage : Int) :
  (final ((Mini.updateRootPageNum rootPage : Mini K V Unit) s)).requests ≤ k
    ∨ ∃ crash s', (Mini.updateRootPageNum rootPage : Mini K V Unit) s = .error (.crash crash) s'
  := by
  by_cases hk : s.requests = k
  · rw [← hk] at hanswer
    have hpage : Mini.followed (Mini.getPage firstIndexPage) s
        = .error (.crash .nullPointer) { s with requests := s.requests + 1 } := by
      rw [Mini.followed, Mini.getPage, bind_error (request_error hrc hanswer)]
    exact .inr ⟨_, _, bind_error hpage⟩
  · have hone := requests_getPage hanswer hk firstIndexPage
    cases hpage : (Mini.getPage firstIndexPage : Mini K V Unit) s with
    | error e s' =>
      rw [hpage] at hone
      cases e with
      | returns rc' =>
        have hfollowed : Mini.followed (Mini.getPage firstIndexPage) s
            = .error (.crash .nullPointer) s' := by
          rw [Mini.followed, hpage]
        exact .inr ⟨_, _, bind_error hfollowed⟩
      | crash crash =>
        have hfollowed : Mini.followed (Mini.getPage firstIndexPage) s
            = .error (.crash crash) s' := by
          rw [Mini.followed, hpage]
        exact .inr ⟨_, _, bind_error hfollowed⟩
    | ok u s' =>
      rw [hpage] at hone
      have hfollowed : Mini.followed (Mini.getPage firstIndexPage) s = .ok u s' := by
        rw [Mini.followed, hpage]
      left
      rw [Mini.updateRootPageNum, bind_ok hfollowed, Quiet.requests]
      · change s'.requests = _ at hone
        omega
      · apply Quiet.bind Quiet.get
        intro s''
        rcases s''.tree.pages.get firstIndexPage with _ | _ | oldPage | node
        · apply Quiet.crash
        · apply Quiet.crash
        · refine Quiet.jump (a := ()) (Quiet.crash _) fun _ => ?_
          apply Quiet.bind
          · intro s
            exact ⟨requests_appendLogEntry s _, grows_appendLogEntry s _⟩
          intro _
          apply Quiet.markDirty
        · apply Quiet.crash

section Ends

variable [LinearOrder K]

theorem insertEntryIntoLeafNode_ends (hmax : 0 < c.leafMaxSize) (hrc : rc ≠ .success)
    (hanswer : s.answer = failingAt k rc) (hlog : s.needLog = true) (hle : s.requests ≤ k)
    (key : K) (value : V) :
  Ends k rc s (Mini.insertEntryIntoLeafNode c page key value s)
  := by
  obtain ⟨crash, hrun⟩ | ⟨parent, nextBrother, items, hleaf, hrun⟩ := leaf_bind page _ s
  · rw [Mini.insertEntryIntoLeafNode, hrun]
    exact .inl hle
  rw [Mini.insertEntryIntoLeafNode, hrun]
  dsimp only
  split_ifs with hfound hroom
  · exact .inl hle
  · apply ends_of_quiet _ hle
    apply Quiet.bind (Quiet.insertLeafItems _ _ _)
    intro _
    apply Quiet.markDirty
  · have hitems : items ≠ [] := by
      rintro rfl
      exact hroom hmax
    by_cases hk : s.requests = k
    · refine .inr (.inl ⟨hk, ?_⟩)
      rw [← hk] at hanswer ⊢
      exact bind_error (split_error hrc hanswer true)
    · refine .inr (.inr ⟨by omega, ?_⟩)
      apply Removes.bind (split_removes hanswer hk hlog hleaf hitems)
      intro newPage
      apply (Steps.follows steps_grows).afterSplit

omit [LinearOrder K] in
/-- The first page of a tree. Without the page of the header, the call crashes. -/
theorem createNewTree_ends (hrc : rc ≠ .success) (hanswer : s.answer = failingAt k rc)
    (hle : s.requests ≤ k) (hroot : s.tree.rootPage = invalidPageNum) (key : K) (value : V) :
  Ends k rc s (Mini.createNewTree c key value s)
  := by
  have hcreate : Mini.createNewTree c key value s = (do
      let page ← Mini.allocateNode true
      Mini.leafInsert c page 0 key value
      Mini.updateRootPageNum page
      Mini.markDirty page : Mini K V Unit) s := by
    have hget : ∀ f : MiniTransaction K V → Mini K V Unit, (get >>= f) s = f s s := fun _ => rfl
    rw [Mini.createNewTree, hget, if_neg (not_not.mpr hroot)]
  rw [hcreate]
  by_cases hk : s.requests = k
  · refine .inr (.inl ⟨hk, ?_⟩)
    rw [← hk] at hanswer ⊢
    exact bind_error (bind_error (request_error hrc hanswer))
  have halloc := allocateNode_ok hanswer hk true
  split_ifs at halloc
  · rw [bind_ok halloc]
    generalize hs₂ : ((_ : MiniTransaction K V).setPages _) = s₂
    have hrequests : s₂.requests = s.requests + 1 := by
      rw [← hs₂]
      exact requests_appendLogEntry _ _
    have hanswer₂ : s₂.answer = failingAt k rc := by
      rw [← hs₂, ← hanswer]
      exact (grows_appendLogEntry _ _).answer
    have hinsert : Quiet (Mini.leafInsert c s.tree.pages.next 0 key value) :=
      Quiet.insertLeafItems _ _ _
    have hquiet := hinsert s₂
    have hrequests₃ := hinsert.requests s₂
    cases hrun : Mini.leafInsert c s.tree.pages.next 0 key value s₂ with
    | error e s₃ =>
      rw [hrun] at hrequests₃
      rw [bind_error hrun]
      left
      change s₃.requests ≤ k
      change s₃.requests = s₂.requests at hrequests₃
      omega
    | ok u s₃ =>
      rw [hrun] at hquiet
      rw [bind_ok hrun]
      have hle₃ : s₃.requests ≤ k := by
        rw [hquiet.1]
        omega
      have hanswer₃ := hquiet.2.answer.trans hanswer₂
      obtain hfew | ⟨crash, s₄, hcrash⟩ :=
        updateRootPageNum_requests hrc hanswer₃ hle₃ s.tree.pages.next
      · left
        cases hroot₄ : (Mini.updateRootPageNum s.tree.pages.next : Mini K V Unit) s₃ with
        | error e s₄ =>
          rw [bind_error hroot₄]
          rw [hroot₄] at hfew
          exact hfew
        | ok u s₄ =>
          rw [bind_ok hroot₄]
          rw [hroot₄] at hfew
          exact hfew
      · rw [bind_error hcrash]
        exact .inr (.inr ⟨by omega, trivial⟩)
  · rw [bind_error halloc]
    left
    change s.requests + 1 ≤ k
    omega

theorem deleteEntryInternal_ends (hlog : s.needLog = true) (hle : s.requests ≤ k) (key : K) :
  (final (Mini.deleteEntryInternal c page key s)).requests ≤ k
    ∨ Broken (Mini.deleteEntryInternal c page key s)
  := by
  obtain ⟨crash, hrun⟩ | ⟨parent, nextBrother, items, hleaf, hrun⟩ := leaf_bind page _ s
  · rw [Mini.deleteEntryInternal, hrun]
    exact .inl hle
  rw [Mini.deleteEntryInternal, hrun]
  dsimp only
  split_ifs with hfound
  · right
    have hremoves : ∀ position, Removes (Mini.leafRemove c page position s) := by
      intro position
      apply removes_of_quiet (Quiet.leaf page)
      rintro ⟨_, items⟩ s' - hgrows
      apply removes_of_quiet (Quiet.item items[position]?)
      intro _ s'' _ hgrows'
      exact removeLeafItems_removes (hgrows'.needLog.trans (hgrows.needLog.trans hlog)) Nat.one_ne_zero
    apply Removes.bind (hremoves _)
    intro _
    apply Along.bind composes_grows ((Steps.follows (c := c) steps_grows).markDirty _)
    intro _
    apply Along.bind composes_grows (along_node composes_grows)
    intro this
    apply Along.ite
    · apply Along.pure composes_grows
    · apply Along.bind composes_grows (Along.get composes_grows)
      intro s
      apply (Steps.follows steps_grows).coalesceOrRedistribute
  · exact .inl hle

end Ends

end MiniOB.BplusTree
