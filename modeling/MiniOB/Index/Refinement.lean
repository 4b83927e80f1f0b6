import MiniOB.Index.DeleteEntry
import MiniOB.Index.EntrySet

/-!
# B+ trees are ordered sets

Every sequence of insertions and deletions on a new tree gives the answers that a finite set
of entries gives, and the leaves hold the entries of this set in ascending order.
-/

namespace MiniOB.BplusTree

open LowerBound Levels

/-! ### Calls -/

/-- A key of an index: the user key with the identifier of the record. -/
structure Key (U : Type) where
  userKey : U
  rid : RID
  deriving DecidableEq, Repr

/-- A call of the tree. -/
inductive Call (U : Type) where
  | insertEntry (userKey : U) (rid : RID)
  | deleteEntry (userKey : U) (rid : RID)
  deriving DecidableEq, Repr

/-- The loop over the leaves along `next_page`. -/
def followLeaves {K V : Type} : Nat → Int → Mtr K V (List (K × V))
  | 0, page => if page = invalidPageNum then pure [] else throw .fuel
  | fuel + 1, page =>
    if page = invalidPageNum then pure []
    else do
      let (nextBrother, items) ← getLeaf page
      let rest ← followLeaves fuel nextBrother
      pure (items ++ rest)

/-- The items of the leaves from the leftmost one on. -/
def leafItems {K V : Type} : Mtr K V (List (K × V)) := do
  match ← leftMostPage with
  | none => pure []
  | some page => followLeaves (← get).pages.length page

section Calls

variable {U : Type} [LinearOrder (Key U)]

/-- The call on a tree. -/
def Call.exec (c : Parameters (Key U)) : Call U → Mtr (Key U) RID RC
  | .insertEntry userKey rid => BplusTree.insertEntry c ⟨userKey, rid⟩ rid
  | .deleteEntry userKey rid => BplusTree.deleteEntry c ⟨userKey, rid⟩

/-- The call on a set of entries. -/
def Call.apply : Call U → Finset (Key U) → RC × Finset (Key U)
  | .insertEntry userKey rid, entries => EntrySet.insertEntry ⟨userKey, rid⟩ entries
  | .deleteEntry userKey rid, entries => EntrySet.deleteEntry ⟨userKey, rid⟩ entries

/-- The calls on a tree, one after the other, with their answers. -/
def execAll (c : Parameters (Key U)) : List (Call U) → Mtr (Key U) RID (List RC)
  | [] => pure []
  | call :: calls => do
    let rc ← call.exec c
    let rcs ← execAll c calls
    pure (rc :: rcs)

/-- The calls on a set of entries, with their answers. -/
def applyAll : List (Call U) → Finset (Key U) → List RC × Finset (Key U)
  | [], entries => ([], entries)
  | call :: calls, entries =>
    let (rc, entries) := call.apply entries
    let (rcs, entries) := applyAll calls entries
    (rc :: rcs, entries)

/-- The items of a set of entries, in ascending order. -/
def listing (entries : Finset (Key U)) : List (Key U × RID) :=
  entries.sort.map fun key => (key, key.rid)

end Calls

/-! ### Items of a set -/

section Lists

variable {U : Type} [LinearOrder (Key U)] {items P Q : List (Key U × RID)}
  {entries : Finset (Key U)} {key : Key U}

/-- The items are those of the set, in ascending order. -/
structure Lists (items : List (Key U × RID)) (entries : Finset (Key U)) : Prop where
  sorted : (items.map Prod.fst).Pairwise (· < ·)
  mem_iff : ∀ key, key ∈ items.map Prod.fst ↔ key ∈ entries
  value : ∀ item ∈ items, item.2 = item.1.rid

theorem Lists.eq_listing (h : Lists items entries) : items = listing entries := by
  have hkeys : items.map Prod.fst = entries.sort := by
    have hfinset : (items.map Prod.fst).toFinset = entries := by
      ext key
      rw [List.mem_toFinset]
      apply h.mem_iff
    have hsorted : (items.map Prod.fst).Pairwise (· ≤ ·) := h.sorted.imp fun hlt => hlt.le
    rw [← hfinset]
    symm
    apply (List.toFinset_sort (r := (· ≤ ·)) h.sorted.nodup).mpr hsorted
  have hvalues : items.map (fun item => (item.1, item.1.rid)) = items.map id := by
    apply List.map_congr_left
    intro item hitem
    rw [← h.value item hitem]
    rfl
  rw [listing, ← hkeys, List.map_map]
  rw [List.map_id] at hvalues
  apply hvalues.symm

/-- A new item in its place. -/
theorem Lists.insert (h : Lists (P ++ Q) entries)
    (hsorted : ((P ++ (key, key.rid) :: Q).map Prod.fst).Pairwise (· < ·)) :
  key ∉ entries ∧ Lists (P ++ (key, key.rid) :: Q) (insert key entries)
  := by
  have hperm : (P ++ (key, key.rid) :: Q).Perm ((key, key.rid) :: (P ++ Q)) := List.perm_middle
  have hkeys := hperm.map Prod.fst
  rw [List.map_cons] at hkeys
  constructor
  · have hnodup := hkeys.nodup_iff.mp hsorted.nodup
    rw [List.nodup_cons, h.mem_iff] at hnodup
    apply hnodup.1
  · refine ⟨hsorted, ?_, ?_⟩
    · intro key'
      rw [hkeys.mem_iff, List.mem_cons, Finset.mem_insert, h.mem_iff]
    · intro item hitem
      rw [hperm.mem_iff, List.mem_cons] at hitem
      obtain rfl | hitem := hitem
      · rfl
      · apply h.value item hitem

/-- An item taken out of its place. -/
theorem Lists.erase {value : RID} (h : Lists (P ++ (key, value) :: Q) entries) :
  key ∈ entries ∧ Lists (P ++ Q) (entries.erase key)
  := by
  have hperm : (P ++ (key, value) :: Q).Perm ((key, value) :: (P ++ Q)) := List.perm_middle
  have hkeys := hperm.map Prod.fst
  rw [List.map_cons] at hkeys
  have hnodup := hkeys.nodup_iff.mp h.sorted.nodup
  rw [List.nodup_cons] at hnodup
  have hmem : ∀ key', key' ∈ entries ↔ key' = key ∨ key' ∈ (P ++ Q).map Prod.fst := by
    intro key'
    rw [← h.mem_iff, hkeys.mem_iff, List.mem_cons]
  refine ⟨(hmem key).mpr (.inl rfl), ?_, ?_, ?_⟩
  · apply List.Pairwise.sublist _ h.sorted
    apply List.Sublist.map
    apply List.Sublist.append_left
    apply List.sublist_cons_self
  · intro key'
    rw [Finset.mem_erase, hmem]
    constructor
    · intro hkey'
      refine ⟨?_, .inr hkey'⟩
      rintro rfl
      apply hnodup.1 hkey'
    · rintro ⟨hne, hkey'⟩
      apply hkey'.resolve_left hne
  · intro item hitem
    apply h.value item
    rw [hperm.mem_iff]
    apply List.mem_cons_of_mem _ hitem

end Lists

/-! ### Reading the leaves -/

section Leaves

variable {K V : Type} {t : Tree K V} {ls : List (Leaf K V)}

theorem followLeaves_eq {fuel : Nat} (h : Linked t invalidPageNum ls) (hfuel : ls.length ≤ fuel) :
  followLeaves fuel (firstPage invalidPageNum ls) t = .ok (contents ls) t
  := by
  induction ls generalizing fuel with
  | nil =>
    rw [firstPage_nil]
    cases fuel <;> rfl
  | cons l ls ih =>
    obtain ⟨fuel, rfl⟩ := Nat.exists_eq_add_one.mpr (Nat.zero_lt_of_lt hfuel)
    have hrest := ih h.2 (by simpa using hfuel)
    have hvalid := ne_invalid_of_body (isSome_body_of_eq h.1)
    rw [followLeaves, firstPage_cons, if_neg hvalid, run_bind (getLeaf_eq h.1)]
    simp only
    rw [run_bind hrest]
    rfl

variable [LinearOrder K] {c : Parameters K} {Us : List (Level K)}

/-- There are no more leaves than pages. -/
theorem Represents.length_leaves_le (h : Represents c t ls Us) : ls.length ≤ t.pages.length := by
  have hle := length_le_pages h.stands.nodup fun p hp => h.stands.isSome hp
  rw [List.length_append, entryPages_leaves, List.length_map] at hle
  omega

theorem Represents.leafItems (h : Represents c t ls Us) : leafItems t = .ok (contents ls) t := by
  rw [BplusTree.leafItems, run_bind h.leftMostPage]
  simp only
  rw [run_bind run_get, followLeaves_eq h.linked h.length_leaves_le]

omit [LinearOrder K] in
theorem Vacant.leftMostPage (h : Vacant t) : leftMostPage t = .ok none t := by
  rw [BplusTree.leftMostPage, findLeafInternal, run_bind run_get]
  simp only [if_pos h.root]
  rfl

omit [LinearOrder K] in
theorem Vacant.leafItems (h : Vacant t) : leafItems t = .ok [] t := by
  rw [BplusTree.leafItems, run_bind h.leftMostPage]
  rfl

theorem Vacant.findLeaf (h : Vacant t) (key : K) : findLeaf key t = .ok none t := by
  rw [BplusTree.findLeaf, findLeafInternal, run_bind run_get]
  simp only [if_pos h.root]
  rfl

theorem Vacant.deleteEntry (h : Vacant t) (key : K) :
  deleteEntry c key t = .ok .recordNotExist t
  := by
  rw [BplusTree.deleteEntry, run_bind (h.findLeaf key)]
  rfl

end Leaves

/-! ### The refinement -/

section Refinement

variable {U : Type} [LinearOrder (Key U)] {c : Parameters (Key U)} {t : Tree (Key U) RID}
  {entries : Finset (Key U)}

/-- The tree holds the entries of the set. -/
def Refines (c : Parameters (Key U)) (t : Tree (Key U) RID) (entries : Finset (Key U)) : Prop :=
  (Vacant t ∧ entries = ∅)
    ∨ ∃ ls Us, Represents c t ls Us ∧ Lists (contents ls) entries ∧ entries ≠ ∅

theorem create_refines : Refines c Tree.create ∅ := by
  refine .inl ⟨⟨rfl, rfl, rfl⟩, rfl⟩

theorem Refines.leafItems (h : Refines c t entries) : leafItems t = .ok (listing entries) t := by
  obtain ⟨hvacant, rfl⟩ | ⟨ls, Us, hrep, hlists, _⟩ := h
  · rw [hvacant.leafItems, listing, Finset.sort_empty]
    rfl
  · rw [hrep.leafItems, hlists.eq_listing]

/-- The tree holds the entries of the set, and it can tell the last key of each of its nodes:
no node is down to its first item, or this item has the key of zero bytes, if it stands for no
bound. -/
def Carries (c : Parameters (Key U)) (t : Tree (Key U) RID) (entries : Finset (Key U)) : Prop :=
  (Vacant t ∧ entries = ∅)
    ∨ ∃ ls Us, Represents c t ls Us ∧ Lists (contents ls) entries ∧ entries ≠ ∅
      ∧ (6 ≤ c.internalMaxSize ∨ Zeroed c.zeroKey Us)

theorem Carries.refines (h : Carries c t entries) : Refines c t entries := by
  obtain hvacant | ⟨ls, Us, hrep, hlists, hne, _⟩ := h
  · exact .inl hvacant
  · exact .inr ⟨ls, Us, hrep, hlists, hne⟩

theorem Refines.carries (h : Refines c t entries) (hmax : 6 ≤ c.internalMaxSize) :
  Carries c t entries
  := by
  obtain hvacant | ⟨ls, Us, hrep, hlists, hne⟩ := h
  · exact .inl hvacant
  · exact .inr ⟨ls, Us, hrep, hlists, hne, .inl hmax⟩

theorem create_carries : Carries c Tree.create ∅ := by
  refine .inl ⟨⟨rfl, rfl, rfl⟩, rfl⟩

theorem Carries.insertEntry (h : Carries c t entries) (hmax : 4 ≤ c.internalMaxSize)
    (hleafMax : 4 ≤ c.leafMaxSize) (key : Key U) :
  ∃ t', insertEntry c key key.rid t = .ok (EntrySet.insertEntry key entries).1 t'
    ∧ Carries c t' (EntrySet.insertEntry key entries).2 ∧ (key ∈ entries → t' = t)
  := by
  obtain ⟨hvacant, rfl⟩ | ⟨ls, Us, hrep, hlists, hne, htell⟩ := h
  · obtain ⟨t', page, hrun, hrep⟩ := hvacant.insertEntry (c := c) (by omega) key key.rid
    have hlists : Lists [(key, key.rid)] (insert key ∅) := by
      refine ⟨by simp, by simp, by simp⟩
    refine ⟨t', ?_, ?_, by simp⟩
    · simp [EntrySet.insertEntry, hrun]
    · rw [EntrySet.insertEntry, if_neg (Finset.notMem_empty key)]
      right
      refine ⟨_, _, hrep, ?_, Finset.insert_ne_empty _ _, .inr Zeroed.nil⟩
      simpa [contents] using hlists
  · obtain ⟨old, hmem, hrun⟩ | ⟨t', ls', Us', P, Q, hrun, hrep', hP, hP', hzeroed⟩ :=
      hrep.insertEntry hmax (by omega) key key.rid
    · have hkey : key ∈ entries := by
        rw [← hlists.mem_iff]
        exact List.mem_map.mpr ⟨_, hmem, rfl⟩
      refine ⟨t, ?_, ?_, fun _ => rfl⟩
      · rw [EntrySet.insertEntry, if_pos hkey, hrun]
      · rw [EntrySet.insertEntry, if_pos hkey]
        exact .inr ⟨ls, Us, hrep, hlists, hne, htell⟩
    · have hsorted := hrep'.ordered.sorted
      rw [hP'] at hsorted
      obtain ⟨hkey, hlists'⟩ := Lists.insert (hP ▸ hlists) hsorted
      refine ⟨t', ?_, ?_, fun hmem => absurd hmem hkey⟩
      · rw [EntrySet.insertEntry, if_neg hkey, hrun]
      · rw [EntrySet.insertEntry, if_neg hkey]
        exact .inr ⟨ls', Us', hrep', hP' ▸ hlists', Finset.insert_ne_empty _ _,
          htell.imp_right hzeroed⟩

theorem Carries.deleteEntry (h : Carries c t entries) (hmax : 4 ≤ c.internalMaxSize)
    (hleafMax : 4 ≤ c.leafMaxSize)
    (hzero : 6 ≤ c.internalMaxSize ∨ ∀ key ∈ entries, c.zeroKey ≤ key) (key : Key U) :
  ∃ t', deleteEntry c key t = .ok (EntrySet.deleteEntry key entries).1 t'
    ∧ Carries c t' (EntrySet.deleteEntry key entries).2 ∧ (key ∉ entries → t' = t)
  := by
  obtain ⟨hvacant, rfl⟩ | ⟨ls, Us, hrep, hlists, hne, htell⟩ := h
  · refine ⟨t, ?_, ?_, fun _ => rfl⟩
    · rw [hvacant.deleteEntry, EntrySet.deleteEntry, if_neg (Finset.notMem_empty key)]
    · rw [EntrySet.deleteEntry, if_neg (Finset.notMem_empty key)]
      exact .inl ⟨hvacant, rfl⟩
  · have hanchored : 6 ≤ c.internalMaxSize ∨ Anchored c.zeroKey (ls.map Leaf.entry) Us := by
      obtain hsix | hzeroed := htell
      · exact .inl hsix
      · apply hzero.imp_right
        intro hle
        apply hrep.anchored hzeroed
        intro item hitem
        apply hle
        rw [← hlists.mem_iff]
        apply List.mem_map_of_mem hitem
    obtain ⟨hmem, hrun⟩ | ⟨t', P, value, Q, hrun, hP, hresult⟩ :=
      hrep.deleteEntry hmax hleafMax hanchored key
    · have hkey : key ∉ entries := by rwa [← hlists.mem_iff]
      refine ⟨t, ?_, ?_, fun _ => rfl⟩
      · rw [EntrySet.deleteEntry, if_neg hkey, hrun]
      · rw [EntrySet.deleteEntry, if_neg hkey]
        exact .inr ⟨ls, Us, hrep, hlists, hne, htell⟩
    · obtain ⟨hkey, hlists'⟩ := Lists.erase (hP ▸ hlists)
      refine ⟨t', ?_, ?_, fun hnot => absurd hkey hnot⟩
      · rw [EntrySet.deleteEntry, if_pos hkey, hrun]
      · rw [EntrySet.deleteEntry, if_pos hkey]
        obtain ⟨ls', Us', hrep', hls', hzeroed⟩ | ⟨hvacant, hPQ⟩ := hresult
        · refine .inr ⟨ls', Us', hrep', hls' ▸ hlists', ?_, htell.imp_right hzeroed⟩
          obtain ⟨l, ls'', rfl, _⟩ := hrep'.exists_first
          have hpos := (hrep'.sizes l List.mem_cons_self).2.1
          obtain ⟨item, items, hitems⟩ := List.exists_cons_of_ne_nil (List.ne_nil_of_length_pos hpos)
          apply Finset.ne_empty_of_mem (a := item.1)
          rw [← hlists'.mem_iff, ← hls', contents_cons, hitems]
          simp
        · refine .inl ⟨hvacant, ?_⟩
          rw [Finset.eq_empty_iff_forall_notMem]
          intro key'
          rw [← hlists'.mem_iff, hPQ]
          simp

/-- One call: the tree answers as the set does. -/
theorem Carries.exec (h : Carries c t entries) (hmax : 4 ≤ c.internalMaxSize)
    (hleafMax : 4 ≤ c.leafMaxSize)
    (hzero : 6 ≤ c.internalMaxSize ∨ ∀ key ∈ entries, c.zeroKey ≤ key) (call : Call U) :
  ∃ t', call.exec c t = .ok (call.apply entries).1 t' ∧ Carries c t' (call.apply entries).2
    ∧ ((call.apply entries).1 ≠ .success → t' = t)
  := by
  cases call with
  | insertEntry userKey rid =>
    obtain ⟨t', hrun, hcarries, hsame⟩ := h.insertEntry hmax hleafMax ⟨userKey, rid⟩
    refine ⟨t', hrun, hcarries, ?_⟩
    intro hrc
    apply hsame
    by_contra hkey
    simp [Call.apply, EntrySet.insertEntry, hkey] at hrc
  | deleteEntry userKey rid =>
    obtain ⟨t', hrun, hcarries, hsame⟩ := h.deleteEntry hmax hleafMax hzero ⟨userKey, rid⟩
    refine ⟨t', hrun, hcarries, ?_⟩
    intro hrc
    apply hsame
    intro hkey
    simp [Call.apply, EntrySet.deleteEntry, hkey] at hrc

theorem Refines.insertEntry (h : Refines c t entries) (hmax : 6 ≤ c.internalMaxSize)
    (hleafMax : 4 ≤ c.leafMaxSize) (key : Key U) :
  ∃ t', insertEntry c key key.rid t = .ok (EntrySet.insertEntry key entries).1 t'
    ∧ Refines c t' (EntrySet.insertEntry key entries).2 ∧ (key ∈ entries → t' = t)
  := by
  obtain ⟨t', hrun, hcarries, hsame⟩ := (h.carries hmax).insertEntry (by omega) hleafMax key
  exact ⟨t', hrun, hcarries.refines, hsame⟩

theorem Refines.deleteEntry (h : Refines c t entries) (hmax : 6 ≤ c.internalMaxSize)
    (hleafMax : 4 ≤ c.leafMaxSize) (key : Key U) :
  ∃ t', deleteEntry c key t = .ok (EntrySet.deleteEntry key entries).1 t'
    ∧ Refines c t' (EntrySet.deleteEntry key entries).2 ∧ (key ∉ entries → t' = t)
  := by
  obtain ⟨t', hrun, hcarries, hsame⟩ :=
    (h.carries hmax).deleteEntry (by omega) hleafMax (.inl hmax) key
  exact ⟨t', hrun, hcarries.refines, hsame⟩

/-- One call: the tree answers as the set does. -/
theorem Refines.exec (h : Refines c t entries) (hmax : 6 ≤ c.internalMaxSize)
    (hleafMax : 4 ≤ c.leafMaxSize) (call : Call U) :
  ∃ t', call.exec c t = .ok (call.apply entries).1 t' ∧ Refines c t' (call.apply entries).2
    ∧ ((call.apply entries).1 ≠ .success → t' = t)
  := by
  obtain ⟨t', hrun, hcarries, hsame⟩ :=
    (h.carries hmax).exec (by omega) hleafMax (.inl hmax) call
  exact ⟨t', hrun, hcarries.refines, hsame⟩

/-- Every entry has been there, or it has been inserted. -/
theorem mem_apply {key : Key U} {call : Call U} (hkey : key ∈ (call.apply entries).2) :
  key ∈ entries ∨ call = .insertEntry key.userKey key.rid
  := by
  cases call with
  | insertEntry userKey rid =>
    simp only [Call.apply, EntrySet.insertEntry] at hkey
    split at hkey
    · exact .inl hkey
    · obtain rfl | hkey := Finset.mem_insert.mp hkey
      · exact .inr rfl
      · exact .inl hkey
  | deleteEntry userKey rid =>
    simp only [Call.apply, EntrySet.deleteEntry] at hkey
    split at hkey
    · exact .inl (Finset.mem_of_mem_erase hkey)
    · exact .inl hkey

theorem mem_applyAll {key : Key U} {calls : List (Call U)} (hkey : key ∈ (applyAll calls entries).2) :
  key ∈ entries ∨ .insertEntry key.userKey key.rid ∈ calls
  := by
  induction calls generalizing entries with
  | nil => exact .inl hkey
  | cons call calls ih =>
    obtain hmem | hmem := ih hkey
    · obtain hmem | rfl := mem_apply hmem
      · exact .inl hmem
      · exact .inr List.mem_cons_self
    · exact .inr (List.mem_cons_of_mem _ hmem)

/-- All calls: the tree answers as the set does. -/
theorem Carries.execAll (h : Carries c t entries) (hmax : 4 ≤ c.internalMaxSize)
    (hleafMax : 4 ≤ c.leafMaxSize) (calls : List (Call U))
    (hzero : 6 ≤ c.internalMaxSize ∨ (∀ key ∈ entries, c.zeroKey ≤ key)
      ∧ ∀ userKey rid, .insertEntry userKey rid ∈ calls → c.zeroKey ≤ ⟨userKey, rid⟩) :
  ∃ t', execAll c calls t = .ok (applyAll calls entries).1 t'
    ∧ Carries c t' (applyAll calls entries).2
  := by
  induction calls generalizing t entries with
  | nil => exact ⟨t, rfl, h⟩
  | cons call calls ih =>
    obtain ⟨t₁, hrun₁, hcarries₁, _⟩ := h.exec hmax hleafMax (hzero.imp_right And.left) call
    have hzero₁ : 6 ≤ c.internalMaxSize ∨ (∀ key ∈ (call.apply entries).2, c.zeroKey ≤ key)
        ∧ ∀ userKey rid, .insertEntry userKey rid ∈ calls → c.zeroKey ≤ ⟨userKey, rid⟩ := by
      apply hzero.imp_right
      rintro ⟨hentries, hcalls⟩
      constructor
      · intro key hkey
        obtain hmem | rfl := mem_apply hkey
        · apply hentries key hmem
        · apply hcalls key.userKey key.rid List.mem_cons_self
      · intro userKey rid hmem
        apply hcalls userKey rid (List.mem_cons_of_mem _ hmem)
    obtain ⟨t', hrun', hcarries'⟩ := ih hcarries₁ hzero₁
    refine ⟨t', ?_, hcarries'⟩
    rw [BplusTree.execAll, run_bind hrun₁, run_bind hrun']
    rfl

/-- The calls on a new tree, if no entry is below the key of zero bytes or nodes are left with
two children. -/
theorem execAll_create (hmax : 4 ≤ c.internalMaxSize) (hleafMax : 4 ≤ c.leafMaxSize)
    {calls : List (Call U)} (hzero : 6 ≤ c.internalMaxSize
      ∨ ∀ userKey rid, .insertEntry userKey rid ∈ calls → c.zeroKey ≤ ⟨userKey, rid⟩) :
  ∃ t, execAll c calls Tree.create = .ok (applyAll calls ∅).1 t
    ∧ Refines c t (applyAll calls ∅).2
  := by
  obtain ⟨t, hrun, hcarries⟩ := (create_carries (c := c)).execAll hmax hleafMax calls
    (hzero.imp_right fun hle => ⟨fun key hkey => absurd hkey (Finset.notMem_empty key), hle⟩)
  exact ⟨t, hrun, hcarries.refines⟩

theorem Refines.execAll (h : Refines c t entries) (hmax : 6 ≤ c.internalMaxSize)
    (hleafMax : 4 ≤ c.leafMaxSize) (calls : List (Call U)) :
  ∃ t', execAll c calls t = .ok (applyAll calls entries).1 t'
    ∧ Refines c t' (applyAll calls entries).2
  := by
  obtain ⟨t', hrun, hcarries⟩ :=
    (h.carries hmax).execAll (by omega) hleafMax calls (.inl hmax)
  exact ⟨t', hrun, hcarries.refines⟩

/-- Any calls on a new tree give the answers that a set of entries gives. After them the
leaves hold the entries of the set in ascending order; a further insertion reports a
duplicate if and only if the entry is in the set, a further deletion reports a missing entry
if and only if it is not, and then the tree is left as it was. -/
theorem bplusTree_refines_set (c : Parameters (Key U)) (hleafMax : 4 ≤ c.leafMaxSize)
    (hmax : 6 ≤ c.internalMaxSize) (calls : List (Call U)) :
  ∃ t, execAll c calls Tree.create = .ok (applyAll calls ∅).1 t
    ∧ leafItems t = .ok (listing (applyAll calls ∅).2) t
    ∧ ((listing (applyAll calls ∅).2).map Prod.fst).Pairwise (· < ·)
    ∧ (∀ userKey rid, ∃ rc t', (Call.insertEntry userKey rid).exec c t = .ok rc t'
        ∧ (rc = .recordDuplicateKey ↔ ⟨userKey, rid⟩ ∈ (applyAll calls ∅).2)
        ∧ (rc = .recordDuplicateKey → t' = t))
    ∧ ∀ userKey rid, ∃ rc t', (Call.deleteEntry userKey rid).exec c t = .ok rc t'
        ∧ (rc = .recordNotExist ↔ ⟨userKey, rid⟩ ∉ (applyAll calls ∅).2)
        ∧ (rc = .recordNotExist → t' = t)
  := by
  obtain ⟨t, hrun, hrefines⟩ := (create_refines (c := c)).execAll hmax hleafMax calls
  refine ⟨t, hrun, hrefines.leafItems, ?_, ?_, ?_⟩
  · rw [listing, List.map_map]
    change (List.map id _).Pairwise _
    rw [List.map_id]
    apply (Finset.sortedLT_sort _).pairwise
  · intro userKey rid
    obtain ⟨t', hrun', _, hsame⟩ := hrefines.insertEntry hmax hleafMax ⟨userKey, rid⟩
    refine ⟨_, t', hrun', ?_, ?_⟩
    · simp only [EntrySet.insertEntry]
      split <;> simp_all
    · intro hrc
      apply hsame
      by_contra hkey
      simp [EntrySet.insertEntry, hkey] at hrc
  · intro userKey rid
    obtain ⟨t', hrun', _, hsame⟩ := hrefines.deleteEntry hmax hleafMax ⟨userKey, rid⟩
    refine ⟨_, t', hrun', ?_, ?_⟩
    · simp only [EntrySet.deleteEntry]
      split <;> simp_all
    · intro hrc
      apply hsame
      intro hkey
      simp [EntrySet.deleteEntry, hkey] at hrc

end Refinement

/-- The order of `KeyComparator`: by the user keys, then by the pages and the slots. -/
@[reducible]
def Key.lexOrder {U : Type} [LinearOrder U] : LinearOrder (Key U) :=
  LinearOrder.lift' (fun key : Key U => toLex (key.userKey, toLex (key.rid.pageNum, key.rid.slotNum)))
    (by
      rintro ⟨u, p, s⟩ ⟨u', p', s'⟩ h
      simp_all)

/-- An entry that is inserted twice and deleted twice. -/
theorem bplusTree_refines_set_twice :
  ∃ t, @execAll Nat Key.lexOrder ⟨6, 4, ⟨0, ⟨0, 0⟩⟩⟩ [.insertEntry 7 ⟨1, 2⟩, .insertEntry 7 ⟨1, 2⟩,
      .deleteEntry 7 ⟨1, 2⟩, .deleteEntry 7 ⟨1, 2⟩] Tree.create
    = .ok [.success, .recordDuplicateKey, .success, .recordNotExist] t
  := by
  obtain ⟨t, hrun, _⟩ := @bplusTree_refines_set Nat Key.lexOrder ⟨6, 4, ⟨0, ⟨0, 0⟩⟩⟩ (by decide)
    (by decide) [.insertEntry 7 ⟨1, 2⟩, .insertEntry 7 ⟨1, 2⟩, .deleteEntry 7 ⟨1, 2⟩,
      .deleteEntry 7 ⟨1, 2⟩]
  refine ⟨t, hrun.trans ?_⟩
  congr 1

end MiniOB.BplusTree
