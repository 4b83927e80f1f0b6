import MiniOB.Index.Failing

/-!
# When a failed operation leaves the tree as it was

The destructor of `BplusTreeMiniTransaction` rolls an operation back that ends with an error.
The tree is as before exactly if the request for a page that fails comes before the first
change.
-/

namespace MiniOB.BplusTree

open Stateful

variable {K V : Type} {c : Format K V} {tree : Tree K V} {dirty : List Int} {k : Nat} {rc : RC}
  {s s' : MiniTransaction K V} {entries : List LogEntryHandler} {answer : Nat → RC}
  {finished : Finished K V}

/-! ### Rolling back -/

/-- The entries hold the removal of items. -/
def HoldRemoval (entries : List LogEntryHandler) : Prop :=
  ∃ page index num items, ⟨page, .nodeRemove index num items⟩ ∈ entries ∧ num ≠ 0

/-- The removal of items is not rolled back. -/
theorem rollbackEntry_nodeRemove {page index num : Int} {items : List UInt8} (hnum : num ≠ 0)
    (s : MiniTransaction K V) :
  ∃ crash, Mini.rollbackEntry c ⟨page, .nodeRemove index num items⟩ s = .error (.crash crash) s
  := by
  change ∃ crash, Mini.baseRecoverInsertItems page index num s = .error (.crash crash) s
  cases hnode : s.tree.node page with
  | none =>
    have hread : (Mini.node page : Mini K V (IndexNode K V)) s
        = .error (.crash (.failure (.page page))) s := by
      rw [Mini.node, hnode]
    exact ⟨_, bind_error hread⟩
  | some node =>
    have hread : (Mini.node page : Mini K V (IndexNode K V)) s = .ok node s := by
      rw [Mini.node, hnode]
    refine ⟨.nullPointer, ?_⟩
    rw [Mini.baseRecoverInsertItems, bind_ok hread, if_pos (.inr hnum)]
    rfl

/-- One entry is rolled back, whatever the code that is returned, or there is a crash. -/
theorem ignoringRc_rollbackEntry (entry : LogEntryHandler) (s : MiniTransaction K V) :
  (∃ crash s', Mini.ignoringRc (Mini.rollbackEntry c entry) s = .error (.crash crash) s')
    ∨ ∃ s', Mini.ignoringRc (Mini.rollbackEntry c entry) s = .ok () s' ∧ ¬ HoldRemoval [entry]
  := by
  by_cases hremoval : HoldRemoval [entry]
  · obtain ⟨page, index, num, items, hmem, hnum⟩ := hremoval
    obtain rfl := List.mem_singleton.mp hmem
    obtain ⟨crash, hcrash⟩ := @rollbackEntry_nodeRemove _ _ c page index num items hnum s
    exact .inl ⟨crash, s, by rw [Mini.ignoringRc, hcrash]⟩
  · cases hentry : Mini.rollbackEntry c entry s with
    | ok u s' => exact .inr ⟨s', by rw [Mini.ignoringRc, hentry], hremoval⟩
    | error e s' =>
      cases e with
      | crash crash => exact .inl ⟨crash, s', by rw [Mini.ignoringRc, hentry]⟩
      | returns rc => exact .inr ⟨s', by rw [Mini.ignoringRc, hentry], hremoval⟩

/-- Rolling back crashes, or it comes to its end, which it does not with the removal of
items. -/
theorem rollbackEntries_cases (entries : List LogEntryHandler) (s : MiniTransaction K V) :
  (∃ crash s', Mini.rollbackEntries c entries s = .error (.crash crash) s')
    ∨ (∃ s', Mini.rollbackEntries c entries s = .ok () s') ∧ ¬ HoldRemoval entries
  := by
  induction entries generalizing s with
  | nil =>
    refine .inr ⟨⟨s, rfl⟩, ?_⟩
    rintro ⟨page, index, num, items, hmem, -⟩
    cases hmem
  | cons entry entries ih =>
    rw [Mini.rollbackEntries]
    obtain ⟨crash, s', hcrash⟩ | ⟨s', hok, hnone⟩ := @ignoringRc_rollbackEntry _ _ c entry s
    · exact .inl ⟨crash, s', bind_error hcrash⟩
    rw [bind_ok hok]
    obtain hcrash | ⟨hrest, hnone'⟩ := ih s'
    · exact .inl hcrash
    refine .inr ⟨hrest, ?_⟩
    rintro ⟨page, index, num, items, hmem, hnum⟩
    obtain rfl | hmem := List.mem_cons.mp hmem
    · exact hnone ⟨page, index, num, items, List.mem_singleton_self _, hnum⟩
    · exact hnone' ⟨page, index, num, items, hmem, hnum⟩

/-- The end of an operation that has failed. -/
theorem finish_error (rc : RC) (s : MiniTransaction K V) :
  (∃ crash, MiniTransaction.finish c (.error (.returns rc) s) = .error crash)
    ∨ (∃ s', MiniTransaction.finish c (.error (.returns rc) s)
        = .ok ⟨rc, [], (final ((Mini.release : Mini K V Unit) s')).tree, s'.dirty, s'.requests⟩)
      ∧ ¬ Fatal s
  := by
  have hrollback : ∀ s, (Mini.rollback c : Mini K V Unit) s
      = (do
        Mini.rollbackEntries c s.entries.reverse
        modify fun s => { s with entries := [], needLog := true } : Mini K V Unit)
          { s with needLog := false } := fun _ => rfl
  obtain ⟨crash, s', hcrash⟩ | ⟨⟨s', hok⟩, hnone⟩ :=
    @rollbackEntries_cases _ _ c s.entries.reverse { s with needLog := false }
  · left
    refine ⟨crash, ?_⟩
    have hrun : (do Mini.rollback c; Mini.release : Mini K V Unit) s = .error (.crash crash) s' := by
      apply bind_error
      rw [hrollback, bind_error hcrash]
    rw [MiniTransaction.finish, hrun]
  · right
    refine ⟨⟨{ s' with entries := [], needLog := true }, ?_⟩, ?_⟩
    · have hrun : (Mini.rollback c : Mini K V Unit) s
          = .ok () { s' with entries := [], needLog := true } := by
        rw [hrollback, bind_ok hok]
        rfl
      rw [MiniTransaction.finish, bind_ok hrun]
      rfl
    · rintro ⟨page, index, num, items, hmem, hnum⟩
      exact hnone ⟨page, index, num, items, List.mem_reverse.mpr hmem, hnum⟩

/-- Nothing is rolled back of an operation that has changed nothing. -/
theorem finish_untouched (hentries : s.entries = []) (hdisposed : s.tree.disposedPages = []) :
  MiniTransaction.finish c (.error (.returns rc) s) = .ok ⟨rc, [], s.tree, s.dirty, s.requests⟩
  := by
  obtain ⟨⟨pages, rootPage, disposedPages⟩, entries, needLog, dirty, requests, answer⟩ := s
  cases hentries
  cases hdisposed
  rfl

/-! ### Reachable trees -/

section Atomic

variable [LinearOrder K]

/-- The trees that calls lead to. -/
inductive Reachable (c : Format K V) : Tree K V → Prop where
  | create : Reachable c Tree.create
  | exec (operation : Operation K V) {tree : Tree K V} {dirty : List Int} {answer : Nat → RC}
      {finished : Finished K V} (h : Reachable c tree)
      (hexec : operation.exec c tree dirty answer = .ok finished) :
    Reachable c finished.tree

/-- No page waits to be given back. -/
theorem Reachable.disposedPages (h : Reachable c tree) : tree.disposedPages = [] := by
  cases h with
  | create => rfl
  | exec operation h hexec =>
    rename_i tree dirty answer finished
    rw [Operation.exec] at hexec
    cases hbody : operation.body c (MiniTransaction.start tree dirty answer) with
    | ok u s =>
      rw [hbody] at hexec
      cases hexec
      rfl
    | error e s =>
      rw [hbody] at hexec
      cases e with
      | crash crash => cases hexec
      | returns rc =>
        obtain ⟨crash, hcrash⟩ | ⟨⟨s', hok⟩, -⟩ := @finish_error _ _ c rc s
        · rw [hcrash] at hexec
          cases hexec
        · rw [hok] at hexec
          cases hexec
          rfl

/-! ### Atomic operations -/

/-- The code that a call returns if it is ended by a request that fails. -/
def Operation.reported : Operation K V → RC → RC
  | insertEntry _ _, rc => rc
  | deleteEntry _, rc => if rc = .empty then .recordNotExist else rc

/-- The request number `k` fails, and the call returns its error with the pages of the tree,
its header page and `file_header_` as they were. -/
def Operation.Atomic (c : Format K V) (operation : Operation K V) (tree : Tree K V)
    (dirty : List Int) (k : Nat) (rc : RC) : Prop :=
  ∃ finished, operation.exec c tree dirty (failingAt k rc) = .ok finished
    ∧ finished.rc = operation.reported rc ∧ finished.tree.rootPage = tree.rootPage
    ∧ ∀ page, (tree.pages.get page).isSome → finished.tree.pages.get page = tree.pages.get page

/-- The operation makes the request number `k`. -/
def Operation.Requests (c : Format K V) (operation : Operation K V) (tree : Tree K V)
    (dirty : List Int) (k : Nat) (rc : RC) : Prop :=
  k < (final (operation.body c (MiniTransaction.start tree dirty (failingAt k rc)))).requests

/-- The number of requests in front of the first change: those of the search for the leaf,
and for an insertion that of the first page it allocates. -/
def Operation.unchanging (tree : Tree K V) : Operation K V → Nat
  | insertEntry key _ => descent tree key + 1
  | deleteEntry key => descent tree key

theorem descent_empty (hroot : tree.rootPage = invalidPageNum) (key : K) :
  descent tree key = 0
  := by
  have hget : ∀ (f : MiniTransaction K V → Mini K V Int) (s : MiniTransaction K V),
      (get >>= f) s = f s s := fun _ _ => rfl
  have hempty : tree.rootPage = invalidPageNum := hroot
  rw [descent, Mini.findLeaf, hget]
  change (final ((if tree.rootPage = invalidPageNum then _ else _ : Mini K V Int) _)).requests = 0
  rw [if_pos hempty]
  rfl

/-- An insertion with a request that fails ends there, or is broken. -/
theorem insertEntry_ends (hmax : 0 < c.leafMaxSize) (hrc : rc ≠ .success) {key : K} {value : V}
    (hrequests : (Operation.insertEntry key value).Requests c tree dirty k rc) :
  (k ≤ descent tree key ∧ Mini.insertEntry c key value
      (MiniTransaction.start tree dirty (failingAt k rc))
      = .error (.returns rc)
        { MiniTransaction.start tree dirty (failingAt k rc) with requests := k + 1 })
    ∨ (descent tree key < k
      ∧ Broken (Mini.insertEntry c key value (MiniTransaction.start tree dirty (failingAt k rc))))
  := by
  rw [Operation.Requests, Operation.body] at hrequests
  have hget : ∀ (f : MiniTransaction K V → Mini K V Unit) (s : MiniTransaction K V),
      (get >>= f) s = f s s := fun _ _ => rfl
  rw [Mini.insertEntry, hget] at hrequests ⊢
  change k < (final ((if tree.rootPage = invalidPageNum then _ else _ : Mini K V Unit) _)).requests
    at hrequests
  change (_ ∧ (if tree.rootPage = invalidPageNum then _ else _ : Mini K V Unit) _ = _)
    ∨ (_ ∧ Broken ((if tree.rootPage = invalidPageNum then _ else _ : Mini K V Unit) _))
  by_cases hroot : tree.rootPage = invalidPageNum
  · rw [if_pos hroot] at hrequests ⊢
    rw [descent_empty hroot]
    obtain hfew | ⟨hk, hrun⟩ | hbroken := createNewTree_ends hrc
      (rfl : (MiniTransaction.start tree dirty (failingAt k rc)).answer = failingAt k rc)
      (Nat.zero_le k) hroot key value
    · exact absurd hrequests (not_lt.mpr hfew)
    · exact .inl ⟨hk.symm.le, hrun⟩
    · exact .inr hbroken
  · rw [if_neg hroot] at hrequests ⊢
    obtain ⟨r, hfind⟩ := findLeaf_failing hrc tree dirty key
    split_ifs at hfind with hk
    · exact .inl ⟨hk.le, bind_error hfind⟩
    · cases r with
      | error e =>
        rw [bind_error hfind] at hrequests
        exact absurd hrequests (not_lt.mpr (not_lt.mp hk))
      | ok page =>
        rw [bind_ok hfind] at hrequests ⊢
        obtain hfew | ⟨hk', hrun⟩ | hbroken := insertEntryIntoLeafNode_ends hmax hrc
          (rfl : ({ MiniTransaction.start tree dirty (failingAt k rc) with
            requests := descent tree key } : MiniTransaction K V).answer = failingAt k rc)
          rfl (not_lt.mp hk) key value
        · exact absurd hrequests (not_lt.mpr hfew)
        · exact .inl ⟨hk'.symm.le, hrun⟩
        · exact .inr hbroken

/-- A deletion with a request that fails ends there, or is broken. -/
theorem deleteEntry_ends (hrc : rc ≠ .success) {key : K}
    (hrequests : (Operation.deleteEntry key).Requests c tree dirty k rc) :
  (k < descent tree key ∧ Mini.deleteEntry c key
      (MiniTransaction.start tree dirty (failingAt k rc))
      = .error (.returns ((Operation.deleteEntry key : Operation K V).reported rc))
        { MiniTransaction.start tree dirty (failingAt k rc) with requests := k + 1 })
    ∨ (descent tree key ≤ k
      ∧ Broken (Mini.deleteEntry c key (MiniTransaction.start tree dirty (failingAt k rc))))
  := by
  rw [Operation.Requests, Operation.body] at hrequests
  rw [Mini.deleteEntry] at hrequests ⊢
  obtain ⟨r, hfind⟩ := findLeaf_failing hrc tree dirty key
  split_ifs at hfind with hk
  · refine .inl ⟨hk, ?_⟩
    apply bind_error
    rw [Mini.notExist, hfind, Operation.reported]
    split
    · rename_i heq
      injection heq with heq hstate
      injection heq with heq
      rw [if_pos heq, hstate]
    · rename_i hother
      rw [if_neg]
      rintro rfl
      exact hother _ rfl
  · refine .inr ⟨not_lt.mp hk, ?_⟩
    cases r with
    | error e =>
      have hfinal : (final (Mini.notExist (Mini.findLeaf key : Mini K V Int)
          (MiniTransaction.start tree dirty (failingAt k rc)))).requests = descent tree key := by
        rw [Mini.notExist, hfind, outcome]
        split
        · rename_i heq
          injection heq with _ hstate
          rw [← hstate]
          rfl
        · rfl
      cases hrun : Mini.notExist (Mini.findLeaf key : Mini K V Int)
          (MiniTransaction.start tree dirty (failingAt k rc)) with
      | ok page s =>
        rw [Mini.notExist, hfind, outcome] at hrun
        split at hrun <;> cases hrun
      | error e' s =>
        rw [bind_error hrun] at hrequests
        rw [hrun] at hfinal
        change k < s.requests at hrequests
        change s.requests = _ at hfinal
        omega
    | ok page =>
      have hrun : Mini.notExist (Mini.findLeaf key : Mini K V Int)
          (MiniTransaction.start tree dirty (failingAt k rc))
          = .ok page { MiniTransaction.start tree dirty (failingAt k rc) with
            requests := descent tree key } := by
        rw [Mini.notExist, hfind, outcome]
      rw [bind_ok hrun] at hrequests ⊢
      obtain hfew | hbroken := @deleteEntryInternal_ends _ _ c k page
        { MiniTransaction.start tree dirty (failingAt k rc) with
          requests := descent tree key } _ rfl (not_lt.mp hk) key
      · exact absurd hrequests (not_lt.mpr hfew)
      · exact hbroken

/-- A call that ends without its error, or is not rolled back, is not atomic. -/
theorem not_atomic_of_broken {operation : Operation K V} (hrc : rc ≠ .success)
    (hbroken : Broken (operation.body c (MiniTransaction.start tree dirty (failingAt k rc)))) :
  ¬ operation.Atomic c tree dirty k rc
  := by
  rintro ⟨finished, hexec, hreported, -⟩
  rw [Operation.exec] at hexec
  cases hbody : operation.body c (MiniTransaction.start tree dirty (failingAt k rc)) with
  | ok u s =>
    rw [hbody] at hexec
    cases hexec
    have hne : operation.reported rc ≠ .success := by
      cases operation with
      | insertEntry key value => exact hrc
      | deleteEntry key =>
        rw [Operation.reported]
        split_ifs
        · decide
        · exact hrc
    exact hne hreported.symm
  | error e s =>
    rw [hbody] at hexec hbroken
    cases e with
    | crash crash => cases hexec
    | returns rc' =>
      obtain ⟨crash, hcrash⟩ | ⟨-, hnot⟩ := @finish_error _ _ c rc' s
      · rw [hcrash] at hexec
        cases hexec
      · exact hnot hbroken

/-- A call that ends with its error before it has changed anything is atomic. -/
theorem atomic_of_untouched {operation : Operation K V} (hreachable : Reachable c tree)
    (hbody : operation.body c (MiniTransaction.start tree dirty (failingAt k rc))
      = .error (.returns (operation.reported rc))
        { MiniTransaction.start tree dirty (failingAt k rc) with requests := k + 1 }) :
  operation.Atomic c tree dirty k rc
  := by
  refine ⟨⟨operation.reported rc, [], tree, dirty, k + 1⟩, ?_, rfl, rfl, fun _ _ => rfl⟩
  rw [Operation.exec, hbody]
  exact finish_untouched rfl hreachable.disposedPages

/-- An operation that a failed request ends leaves the tree as it was exactly if the request
comes before the first change. -/
theorem atomic_iff_unchanging (hmax : 0 < c.leafMaxSize) (operation : Operation K V)
    (hreachable : Reachable c tree) (hrc : rc ≠ .success)
    (hrequests : operation.Requests c tree dirty k rc) :
  operation.Atomic c tree dirty k rc ↔ k < operation.unchanging tree
  := by
  cases operation with
  | insertEntry key value =>
    rw [Operation.unchanging]
    obtain ⟨hk, hbody⟩ | ⟨hk, hbroken⟩ := insertEntry_ends hmax hrc hrequests
    · exact iff_of_true (atomic_of_untouched hreachable hbody) (by omega)
    · exact iff_of_false (not_atomic_of_broken hrc hbroken) (by omega)
  | deleteEntry key =>
    rw [Operation.unchanging]
    obtain ⟨hk, hbody⟩ | ⟨hk, hbroken⟩ := deleteEntry_ends hrc hrequests
    · exact iff_of_true (atomic_of_untouched hreachable hbody) hk
    · exact iff_of_false (not_atomic_of_broken hrc hbroken) (by omega)

end Atomic

/-! ### The first insertion -/

/-- The format of an index on a column of one character, where the slot of a record is the
number of its character. -/
def charFormat : Format (Fin 256) (Fin 256) where
  internalMaxSize := 6
  leafMaxSize := 4
  zeroKey := (0 : UInt8).toFin
  attrLength := 1
  attrType := 1
  keyLength := 9
  encodeKey key := UInt8.ofFin key :: writeInt32 0 ++ [UInt8.ofFin key, 0, 0, 0]
  decodeKey bytes := (bytes.headD 0).toFin
  encodeValue value := writeInt32 0 ++ [UInt8.ofFin value, 0, 0, 0]
  decodeValue bytes := ((bytes.drop 4).headD 0).toFin
  length_encodeKey key := by simp
  decode_encodeKey key := rfl
  length_encodeValue value := by simp
  decode_encodeValue value := rfl
  decodeKey_zero := rfl

/-- Without the page of the header, the first insertion into an index crashes. -/
theorem insertEntry_not_atomic :
  ¬ ∀ (c : Format (Fin 256) (Fin 256)) (operation : Operation (Fin 256) (Fin 256))
      (tree : Tree (Fin 256) (Fin 256)) (dirty : List Int) (k : Nat) (rc : RC),
    0 < c.leafMaxSize → Reachable c tree → rc ≠ .success →
    operation.Requests c tree dirty k rc → operation.Atomic c tree dirty k rc
  := by
  intro h
  have hrequests : (Operation.insertEntry 0 0).Requests charFormat Tree.create [] 1
      .bufferpoolNobuf := by
    change 1 < 2
    omega
  obtain ⟨finished, hexec, -⟩ := h charFormat (.insertEntry 0 0) Tree.create [] 1 .bufferpoolNobuf
    (by decide) .create (by decide) hrequests
  have hcrash : (Operation.insertEntry 0 0).exec charFormat Tree.create []
      (failingAt 1 .bufferpoolNobuf) = .error .nullPointer := by rfl
  rw [hcrash] at hexec
  cases hexec

theorem atomic_iff_unchanging_first :
  (Operation.insertEntry 0 0).Atomic charFormat Tree.create [] 0 .bufferpoolNobuf
  := by
  have hrequests : (Operation.insertEntry 0 0).Requests charFormat Tree.create [] 0
      .bufferpoolNobuf := by
    change 0 < 1
    omega
  have hfirst : 0 < (Operation.insertEntry 0 0).unchanging
      (Tree.create : Tree (Fin 256) (Fin 256)) := Nat.succ_pos _
  exact (atomic_iff_unchanging (by decide) (.insertEntry 0 0) .create (by decide) hrequests).mpr
    hfirst

end MiniOB.BplusTree
