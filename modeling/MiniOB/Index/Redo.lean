import MiniOB.Index.Fitting

/-!
# The redo of log entries of a B+ tree

`BplusTreeLogger::redo` of `storage/index/bplus_tree_log.cpp`: the entries of a mini-transaction
are read from the log and applied to the pages whose numbers are below that of the log entry.
The numbers of the pages are set behind the last of them.
-/

namespace MiniOB.BplusTree

open Stateful

variable {K V α : Type} {c : Format K V}

/-! ### One entry on one page -/

/-- The items that bytes spell, each of them a key and a value of `size` bytes. -/
def Format.items (c : Format K V) (size : Nat) (decode : List UInt8 → α) :
    Nat → List UInt8 → List (K × α)
  | 0, _ => []
  | num + 1, bytes =>
    (c.decodeKey (bytes.take c.keyLength), decode ((bytes.drop c.keyLength).take size))
      :: c.items size decode num (bytes.drop (c.keyLength + size))

/-- `recover_insert_items`, on the items of a node, with items from a buffer. -/
def redoInsert (c : Format K V) (size : Nat) (decode : List UInt8 → α) (index itemNum : Int)
    (bytes : List UInt8) (items : List (K × α)) : Option (List (K × α)) :=
  if 0 ≤ index ∧ 0 ≤ itemNum ∧ itemNum.toNat * (c.keyLength + size) ≤ bytes.length then
    recoverInsertItems index.toNat (c.items size decode itemNum.toNat bytes) items
  else none

/-- `recover_remove_items`, on the items of a node. -/
def redoRemove (index itemNum : Int) (items : List α) : Option (List α) :=
  if 0 ≤ index ∧ 0 ≤ itemNum then recoverRemoveItems index.toNat itemNum.toNat items else none

/-- The redo of an operation on a node, unless memory beyond its items is touched or the node
is of the other kind. -/
def LogOperation.redoNode (c : Format K V) (node : IndexNode K V) :
    LogOperation → Option (IndexNode K V)
  | setParentPage parentPageNum _ => some { node with parent := parentPageNum }
  | leafSetNextPage newPageNum _ =>
    match node.body with
    | .leaf _ items => some { node with body := .leaf newPageNum items }
    | .internal _ => none
  | internalCreateNewRoot firstPageNum key pageNum =>
    match node.body with
    | .internal [] =>
      if c.keyLength ≤ key.length then
        let key := c.decodeKey (key.take c.keyLength)
        some { node with body := .internal [(c.zeroKey, firstPageNum), (key, pageNum)] }
      else none
    | _ => none
  | internalUpdateKey index key _ =>
    match node.body with
    | .internal items =>
      if 0 ≤ index ∧ c.keyLength ≤ key.length then
        let key := c.decodeKey (key.take c.keyLength)
        (items[index.toNat]?).map fun item =>
          { node with body := .internal (items.set index.toNat (key, item.2)) }
      else none
    | .leaf .. => none
  | nodeInsert index itemNum bytes =>
    match node.body with
    | .leaf nextBrother items =>
      (redoInsert c 8 c.decodeValue index itemNum bytes items).map fun items =>
        { node with body := .leaf nextBrother items }
    | .internal items =>
      (redoInsert c 4 Bytes.decode index itemNum bytes items).map fun items =>
        { node with body := .internal items }
  | nodeRemove index itemNum _ =>
    match node.body with
    | .leaf nextBrother items =>
      (redoRemove index itemNum items).map fun items =>
        { node with body := .leaf nextBrother items }
    | .internal items =>
      (redoRemove index itemNum items).map fun items => { node with body := .internal items }
  | _ => none

/-- What a page holds: a page of the index, or bytes that are none. -/
abbrev Image (K V : Type) := Option (Page K V)

/-- The redo of an operation on a page. -/
def LogOperation.redo (c : Format K V) (operation : LogOperation) (image : Image K V) :
    Except Stop (Image K V) :=
  match operation, image with
  | initHeaderPage fileHeader, _ => .ok (some (.indexHeader fileHeader.rootPage))
  | leafInitEmpty, _ => .ok (some (.node ⟨invalidPageNum, Mini.emptyBody true⟩))
  | internalInitEmpty, _ => .ok (some (.node ⟨invalidPageNum, Mini.emptyBody false⟩))
  | updateRootPage rootPageNum _, some (.indexHeader _) =>
    .ok (some (.indexHeader rootPageNum))
  | operation, some (.node node) =>
    match operation.redoNode c node with
    | some node => if node.Fits c then .ok (some (.node node)) else .error (.crash .overflow)
    | none => .error (.crash .overflow)
  | _, _ => .error (.crash .overflow)

/-! ### The entries of a mini-transaction -/

/-- A frame: what is on its page, and the number in it. -/
structure Frame (K V : Type) where
  image : Image K V
  lsn : Int

/-- The pages of a file that can be fetched. -/
abbrev Pool (K V : Type) := Int → Option (Frame K V)

/-- `DiskBufferPool::get_this_page`, as far as the code it returns. -/
def Pool.getThisPage (pool : Pool K V) (page : Int) : RC :=
  if (pool page).isSome then .success else if page < 0 then .ioerrSeek else .ioerrRead

/-- The pages, `file_header_.root_page` of the handler that works on them, and the frames that
have been marked dirty, in the course of a redo. -/
structure Redoing (K V : Type) where
  pool : Pool K V
  rootPage : Int
  dirty : List Int

/-- The root that an operation on the header page leaves. -/
def LogOperation.headerRoot : LogOperation → Option Int
  | initHeaderPage fileHeader => some fileHeader.rootPage
  | updateRootPage rootPageNum _ => some rootPageNum
  | _ => none

/-- The page that the redo of an entry changes: the root is changed in the header page,
whichever page the entry names. -/
def LogEntryHandler.target (entry : LogEntryHandler) : Int :=
  match entry.operation with
  | .updateRootPage _ _ => firstIndexPage
  | _ => entry.pageNum

/-- `redo` of the handlers of log entries. -/
def LogEntryHandler.redo (c : Format K V) (entry : LogEntryHandler) (s : Redoing K V) :
    Except Stop (Redoing K V) :=
  match s.pool entry.target with
  | none => .error (.crash .nullPointer)
  | some frame =>
    match entry.operation.redo c frame.image with
    | .error stop => .error stop
    | .ok image =>
      .ok {
        pool := Function.update s.pool entry.target (some { frame with image })
        rootPage := entry.operation.headerRoot.getD s.rootPage
        dirty := if entry.operation.headerRoot.isSome then entry.target :: s.dirty else s.dirty }

/-- The loop of `BplusTreeLogger::__redo`, with the frames that it has collected. An entry has
at least one byte. -/
def redoLoop (c : Format K V) (lsn : Int) :
    Nat → List UInt8 → Redoing K V → List Int → Except Crash (RC × Redoing K V × List Int)
  | 0, _, _, _ => .error (.failure .fuel)
  | fuel + 1, buffer, s, frames =>
    if buffer = [] then .ok (.success, s, frames)
    else
      match LogEntryHandler.fromBuffer s.pool.getThisPage buffer with
      | .error (.returns rc) => .ok (rc, s, frames)
      | .error (.crash crash) => .error crash
      | .ok (entry, buffer) =>
        match s.pool entry.pageNum with
        | none => redoLoop c lsn fuel buffer s frames
        | some frame =>
          if lsn ≤ frame.lsn then redoLoop c lsn fuel buffer s frames
          else
            match entry.redo c s with
            | .error (.returns rc) => .ok (rc, s, frames ++ [entry.pageNum])
            | .error (.crash crash) => .error crash
            | .ok s => redoLoop c lsn fuel buffer s (frames ++ [entry.pageNum])

/-- `Frame::set_lsn` for frames. -/
def Pool.setLsn (pool : Pool K V) (frames : List Int) (lsn : Int) : Pool K V := fun page =>
  if page ∈ frames then (pool page).map fun frame => { frame with lsn } else pool page

/-- `BplusTreeLogger::__redo`. -/
def redoEntries (c : Format K V) (lsn : Int) (buffer : List UInt8) (s : Redoing K V) :
    Except Crash (Redoing K V) :=
  match redoLoop c lsn (buffer.length + 1) buffer s [] with
  | .error crash => .error crash
  | .ok (.success, s, frames) => .ok { s with pool := s.pool.setLsn frames lsn }
  | .ok (_, s, _) => .ok s

/-- `BplusTreeHandler::open`, for the file of an index: the root in its header page. -/
def Pool.openTree (pool : Pool K V) : Except Stop Int :=
  match pool firstIndexPage with
  | none => .error (.returns (pool.getThisPage firstIndexPage))
  | some frame =>
    match frame.image with
    | some (.indexHeader rootPage) => .ok rootPage
    | _ => .error (.crash (.failure (.kind firstIndexPage)))

/-- `BplusTreeLogger::redo`, for the files of the indexes by their numbers. The handler that it
opens is its own. -/
def redo (c : Format K V) (lsn : Int) (data : List UInt8) (pools : Int → Option (Pool K V)) :
    Except Crash (RC × (Int → Option (Pool K V))) :=
  match readInt32 .ioerrRead data with
  | .error (.returns rc) => .ok (rc, pools)
  | .error (.crash crash) => .error crash
  | .ok (bufferPoolId, buffer) =>
    match pools bufferPoolId with
    | none => .ok (.internal, pools)
    | some pool =>
      match pool.openTree with
      | .error (.returns rc) => .ok (rc, pools)
      | .error (.crash crash) => .error crash
      | .ok rootPage =>
        match redoEntries c lsn buffer { pool, rootPage, dirty := [] } with
        | .error crash => .error crash
        | .ok s => .ok (.success, Function.update pools bufferPoolId (some s.pool))

/-! ### The redo of a change -/

section Change

variable {node node' : IndexNode K V} {operation : LogOperation}

theorem items_flatMap (size : Nat) (decode : List UInt8 → α) (encode : α → List UInt8)
    (hlength : ∀ x, (encode x).length = size) {moved : List (K × α)}
    (hdecode : ∀ item ∈ moved, decode (encode item.2) = item.2) :
  c.items size decode moved.length
    (moved.flatMap fun item => c.encodeKey item.1 ++ encode item.2) = moved
  := by
  induction moved with
  | nil => rfl
  | cons item moved ih =>
    obtain ⟨hitem, hrest⟩ := List.forall_mem_cons.mp hdecode
    have hkey := c.length_encodeKey item.1
    rw [List.length_cons, Format.items, List.flatMap_cons, List.append_assoc]
    have htake : (c.encodeKey item.1 ++ (encode item.2
        ++ moved.flatMap fun item => c.encodeKey item.1 ++ encode item.2)).take c.keyLength
        = c.encodeKey item.1 := by
      rw [← hkey, List.take_left']
      rfl
    have hdrop : (c.encodeKey item.1 ++ (encode item.2
        ++ moved.flatMap fun item => c.encodeKey item.1 ++ encode item.2)).drop c.keyLength
        = encode item.2 ++ moved.flatMap fun item => c.encodeKey item.1 ++ encode item.2 := by
      rw [← hkey, List.drop_left']
      rfl
    rw [← List.drop_drop, htake, hdrop, List.take_left' (hlength item.2),
      List.drop_left' (hlength item.2), c.decode_encodeKey, hitem, ih hrest]

theorem length_flatMap (size : Nat) (encode : α → List UInt8)
    (hlength : ∀ x, (encode x).length = size) (moved : List (K × α)) :
  (moved.flatMap fun item => c.encodeKey item.1 ++ encode item.2).length
    = moved.length * (c.keyLength + size)
  := by
  induction moved with
  | nil => simp
  | cons item moved ih =>
    rw [List.flatMap_cons, List.length_append, ih, List.length_append, c.length_encodeKey,
      hlength, List.length_cons]
    ring

theorem recoverInsertItems_eq {index : Nat} {moved items items' : List α}
    (h : recoverInsertItems index moved items = some items') :
  index ≤ items.length ∧ items' = items.take index ++ moved ++ items.drop index
  := by
  rw [recoverInsertItems] at h
  split_ifs at h with hindex
  cases h
  exact ⟨hindex, rfl⟩

/-- Items that are written into a buffer and read back are put in. -/
theorem redoInsert_flatMap (size : Nat) (decode : List UInt8 → α) (encode : α → List UInt8)
    (hlength : ∀ x, (encode x).length = size) {index : Nat} {moved items items' : List (K × α)}
    (hdecode : ∀ item ∈ moved, decode (encode item.2) = item.2)
    (h : recoverInsertItems index moved items = some items') :
  redoInsert c size decode index moved.length
    (moved.flatMap fun item => c.encodeKey item.1 ++ encode item.2) items = some items'
  := by
  rw [redoInsert, Int.toNat_natCast, Int.toNat_natCast, length_flatMap size encode hlength,
    if_pos ⟨by omega, by omega, le_rfl⟩, items_flatMap size decode encode hlength hdecode, h]

theorem redoRemove_eq {index num : Nat} {items items' : List α}
    (h : recoverRemoveItems index num items = some items') :
  redoRemove index num items = some items'
  := by
  rw [redoRemove, if_pos ⟨by omega, by omega⟩, Int.toNat_natCast, Int.toNat_natCast, h]

/-- The redo of a change makes it again. -/
theorem redoNode_of_change (h : Change c node operation node') (hfits : node'.Fits c) :
  operation.redoNode c node = some node'
  := by
  cases h with
  | setParentPage node parent => rfl
  | setNextPage parent oldBrother nextBrother items => rfl
  | insertLeafItems parent nextBrother h =>
    have hinsert := redoInsert_flatMap (c := c) 8 c.decodeValue c.encodeValue c.length_encodeValue
      (fun item _ => c.decode_encodeValue item.2) h
    rw [LogOperation.redoNode]
    dsimp only
    rw [Format.leafBytes, hinsert]
    rfl
  | removeLeafItems parent nextBrother h =>
    rw [LogOperation.redoNode]
    dsimp only
    rw [redoRemove_eq h]
    rfl
  | insertInternalItems parent h =>
    have hmoved := (recoverInsertItems_eq h).2
    have hinsert := redoInsert_flatMap (c := c) 4 Bytes.decode writeInt32 length_writeInt32
      (fun item hmem => decode_writeInt32 (hfits.2.1 item (by simp [hmoved, hmem]))) h
    rw [LogOperation.redoNode]
    dsimp only
    rw [Format.internalBytes, hinsert]
    rfl
  | removeInternalItems parent h =>
    rw [LogOperation.redoNode]
    dsimp only
    rw [redoRemove_eq h]
    rfl
  | createNewRoot parent firstPage secondPage key =>
    have hkey := c.length_encodeKey key
    rw [LogOperation.redoNode]
    dsimp only
    rw [if_pos hkey.ge, List.take_of_length_le hkey.le, c.decode_encodeKey]
  | updateKey parent key h =>
    have hkey := c.length_encodeKey key
    rw [LogOperation.redoNode]
    dsimp only
    rw [if_pos ⟨by omega, hkey.ge⟩, List.take_of_length_le hkey.le, c.decode_encodeKey,
      Int.toNat_natCast, h]
    rfl

theorem redo_of_change (h : Change c node operation node') (hfits : node'.Fits c) :
  operation.redo c (some (.node node)) = .ok (some (.node node'))
  := by
  have hredo := redoNode_of_change h hfits
  cases h <;> rw [LogOperation.redo, hredo] <;> simp [hfits]

theorem recoverRemoveItems_le {index num : Nat} {items items' : List α}
    (h : recoverRemoveItems index num items = some items') :
  index + num ≤ items.length
  := by
  rw [recoverRemoveItems] at h
  split_ifs at h with hlt heq
  · omega
  · omega

/-- Numbers up to the size of a page are values of the type `int32_t`. -/
theorem isInt32_of_le {n : Nat} (h : n ≤ Record.pageDataSize) : IsInt32 n := by
  have hsize : (Record.pageDataSize : Int) ≤ int32Max := by decide
  have hle : (n : Int) ≤ Record.pageDataSize := by exact_mod_cast h
  exact ⟨by omega, hle.trans hsize⟩

/-- Some of the items that a page can hold: their position, their number and their bytes. -/
theorem fits_items {front length size index num : Nat} {bytes : List UInt8}
    (hbytes : bytes.length = num * size) (hindex : index ≤ length) (hnum : num ≤ length)
    (hsize : 1 ≤ size) (h : front + length * size ≤ Record.pageDataSize) :
  IsInt32 index ∧ IsInt32 num ∧ IsInt32 bytes.length
  := by
  have hmul : num * size ≤ length * size := Nat.mul_le_mul_right size hnum
  have hlength : length ≤ length * size := Nat.le_mul_of_pos_right length hsize
  rw [hbytes]
  exact ⟨isInt32_of_le (by omega), isInt32_of_le (by omega), isInt32_of_le (by omega)⟩

/-- What is logged can be written. -/
theorem fits_of_change (h : Change c node operation node') (hfits : node.Fits c)
    (hfits' : node'.Fits c) :
  operation.Fits
  := by
  cases h with
  | setParentPage node parent => exact hfits'.1
  | setNextPage parent oldBrother nextBrother items => exact hfits'.2.1
  | insertLeafItems parent nextBrother h =>
    obtain ⟨hindex, hitems'⟩ := recoverInsertItems_eq h
    have hlength := congrArg List.length hitems'
    rw [List.length_append, List.length_append, List.length_take, List.length_drop] at hlength
    exact fits_items (length_flatMap 8 c.encodeValue c.length_encodeValue _) (by omega) (by omega)
      (by omega) hfits'.2.2
  | removeLeafItems parent nextBrother h =>
    have hle := recoverRemoveItems_le h
    have hbytes := fun items : List (K × V) =>
      length_flatMap (c := c) 8 c.encodeValue c.length_encodeValue items
    refine fits_items ?_ (by omega) (by omega) (by omega) hfits.2.2
    rw [Format.leafBytes, hbytes, List.length_take, List.length_drop, Nat.min_eq_left (by omega)]
  | insertInternalItems parent h =>
    obtain ⟨hindex, hitems'⟩ := recoverInsertItems_eq h
    have hlength := congrArg List.length hitems'
    rw [List.length_append, List.length_append, List.length_take, List.length_drop] at hlength
    exact fits_items (length_flatMap 4 writeInt32 length_writeInt32 _) (by omega) (by omega)
      (by omega) hfits'.2.2
  | removeInternalItems parent h =>
    have hle := recoverRemoveItems_le h
    have hbytes := fun items : List (K × Int) =>
      length_flatMap (c := c) 4 writeInt32 length_writeInt32 items
    refine fits_items ?_ (by omega) (by omega) (by omega) hfits.2.2
    rw [Format.internalBytes, hbytes, List.length_take, List.length_drop,
      Nat.min_eq_left (by omega)]
  | createNewRoot parent firstPage secondPage key =>
    obtain ⟨-, hchildren, hsize⟩ := hfits'
    refine ⟨hchildren (c.zeroKey, firstPage) (by simp), hchildren (key, secondPage) (by simp), ?_⟩
    apply isInt32_of_le
    rw [c.length_encodeKey]
    rw [List.length_cons, List.length_singleton] at hsize
    omega
  | updateKey parent key h =>
    rename_i index items oldKey child
    obtain ⟨-, -, hsize⟩ := hfits
    obtain ⟨hindex, -⟩ := List.getElem?_eq_some_iff.mp h
    have hitems : items.length ≤ items.length * (c.keyLength + 4) :=
      Nat.le_mul_of_pos_right _ (by omega)
    have hkey : c.keyLength + 4 ≤ items.length * (c.keyLength + 4) :=
      Nat.le_mul_of_pos_left _ (by omega)
    refine ⟨isInt32_of_le (by omega), isInt32_of_le ?_⟩
    rw [c.length_encodeKey]
    omega

/-- What an entry holds for a rollback does not matter. -/
theorem redo_forget (operation : LogOperation) (image : Image K V) :
  operation.forget.redo c image = operation.redo c image
  := by
  cases operation <;> cases image <;> first | rfl | (rename_i page; cases page <;> rfl)

end Change

/-! ### The entries of an operation -/

section Brings

variable {entries entries' : List LogEntryHandler} {page : Int} {before after : Image K V}
  {s s' : MiniTransaction K V}

/-- The operations of the entries for a page. -/
def operationsOf (page : Int) (entries : List LogEntryHandler) : List LogOperation :=
  entries.filterMap fun entry => if entry.pageNum = page then some entry.operation else none

/-- The redo of operations on a page, one after another. -/
def redoAll (c : Format K V) : List LogOperation → Image K V → Except Stop (Image K V)
  | [], image => .ok image
  | operation :: operations, image =>
    match operation.redo c image with
    | .error stop => .error stop
    | .ok image => redoAll c operations image

/-- The page is as before, where that is known: nothing is known of a page that is not in
use. -/
def AsBefore (before image : Image K V) : Prop := ∀ page, before = some page → image = some page

/-- The entries bring a page from what it was to what it is. -/
def Brings (c : Format K V) (entries : List LogEntryHandler) (page : Int)
    (before after : Image K V) : Prop :=
  if page ∈ entries.map LogEntryHandler.pageNum then
    after.isSome ∧ ∀ image, AsBefore before image →
      redoAll c (operationsOf page entries) image = .ok after
  else after = before

theorem operationsOf_append (page : Int) (entries entries' : List LogEntryHandler) :
  operationsOf page (entries ++ entries') = operationsOf page entries ++ operationsOf page entries'
  := List.filterMap_append

theorem operationsOf_of_notMem (h : page ∉ entries.map LogEntryHandler.pageNum) :
  operationsOf page entries = []
  := by
  apply List.filterMap_eq_nil_iff.mpr
  intro entry hmem
  rw [if_neg]
  rintro rfl
  exact h (List.mem_map_of_mem hmem)

theorem redoAll_append (operations operations' : List LogOperation) (image : Image K V) :
  redoAll c (operations ++ operations') image
    = match redoAll c operations image with
      | .error stop => .error stop
      | .ok image => redoAll c operations' image
  := by
  induction operations generalizing image with
  | nil => rfl
  | cons operation operations ih =>
    rw [List.cons_append, redoAll, redoAll]
    cases operation.redo c image with
    | error stop => rfl
    | ok image => exact ih image

theorem Brings.append {middle : Image K V} (h : Brings c entries page before middle)
    (h' : Brings c entries' page middle after) :
  Brings c (entries ++ entries') page before after
  := by
  rw [Brings] at h h' ⊢
  rw [List.map_append, operationsOf_append]
  by_cases hmem : page ∈ entries.map LogEntryHandler.pageNum
  · rw [if_pos hmem] at h
    rw [if_pos (List.mem_append_left _ hmem)]
    by_cases hmem' : page ∈ entries'.map LogEntryHandler.pageNum
    · rw [if_pos hmem'] at h'
      refine ⟨h'.1, ?_⟩
      intro image himage
      rw [redoAll_append, h.2 image himage]
      exact h'.2 middle fun page hpage => hpage
    · rw [if_neg hmem'] at h'
      rw [h', operationsOf_of_notMem hmem', List.append_nil]
      exact h
  · rw [if_neg hmem] at h
    subst h
    rw [operationsOf_of_notMem hmem, List.nil_append]
    by_cases hmem' : page ∈ entries'.map LogEntryHandler.pageNum
    · rw [if_pos hmem'] at h'
      rw [if_pos (List.mem_append_right _ hmem')]
      exact h'
    · rw [if_neg hmem'] at h'
      rw [if_neg]
      · exact h'
      · rintro hboth
        obtain hleft | hright := List.mem_append.mp hboth
        · exact hmem hleft
        · exact hmem' hright

/-- The entries that are added to the logger bring every page to what it is. -/
def Replayable (c : Format K V) (s s' : MiniTransaction K V) : Prop :=
  s.needLog = true → s.tree.Fits c →
    s'.needLog = true ∧ s'.tree.Fits c ∧ ∃ added, s'.entries = s.entries ++ added
      ∧ (∀ entry ∈ added, entry.Fits ∧ entry.target = entry.pageNum)
      ∧ ∀ page, Brings c added page (s.tree.pages.get page) (s'.tree.pages.get page)

theorem composes_replayable : Composes (Replayable c) where
  refl s hlog hfits := by
    refine ⟨hlog, hfits, [], (List.append_nil _).symm, by simp, ?_⟩
    intro page
    rfl
  trans h h' hlog hfits := by
    obtain ⟨hlog', hfits', added, hentries, hadded, hbrings⟩ := h hlog hfits
    obtain ⟨hlog'', hfits'', added', hentries', hadded', hbrings'⟩ := h' hlog' hfits'
    refine ⟨hlog'', hfits'', added ++ added', ?_, ?_, ?_⟩
    · rw [hentries', hentries, List.append_assoc]
    · intro entry hmem
      obtain hmem | hmem := List.mem_append.mp hmem
      · exact hadded entry hmem
      · exact hadded' entry hmem
    · intro page
      exact (hbrings page).append (hbrings' page)

/-- An action that changes one page, with its entry. -/
theorem replayable_of_entry {operation : LogOperation}
    (hentries : s'.entries = (s.appendLogEntry page operation).entries)
    (hlog' : s'.needLog = s.needLog)
    (hfits : KeepsFits c s s')
    (hentry : s.tree.Fits c → (⟨page, operation⟩ : LogEntryHandler).Fits)
    (htarget : (⟨page, operation⟩ : LogEntryHandler).target = page)
    (hafter : (s'.tree.pages.get page).isSome)
    (hredo : ∀ image, AsBefore (s.tree.pages.get page) image →
      operation.redo c image = .ok (s'.tree.pages.get page))
    (hother : ∀ other, other ≠ page → s'.tree.pages.get other = s.tree.pages.get other) :
  Replayable c s s'
  := by
  intro hlog hbefore
  refine ⟨hlog'.trans hlog, hfits hbefore, [⟨page, operation⟩], ?_, ?_, ?_⟩
  · rw [hentries, MiniTransaction.appendLogEntry, if_pos hlog]
  · intro entry hmem
    obtain rfl := List.mem_singleton.mp hmem
    exact ⟨hentry hbefore, htarget⟩
  · intro other
    rw [Brings, List.map_singleton]
    split_ifs with hmem
    · obtain rfl := List.mem_singleton.mp hmem
      refine ⟨hafter, ?_⟩
      intro image himage
      rw [operationsOf, List.filterMap_cons, if_pos rfl]
      change redoAll c [operation] image = _
      rw [redoAll, hredo image himage]
      rfl
    · exact hother other fun heq => hmem (List.mem_singleton.mpr heq)

/-- What is logged by an operation can be replayed. -/
theorem steps_replayable : Steps c (Replayable c) where
  toComposes := composes_replayable
  request s _ := fun hlog hfits => composes_replayable.refl s hlog hfits
  markDirty s _ := fun hlog hfits => composes_replayable.refl s hlog hfits
  disposePage s page hnode := by
    intro hlog hfits
    refine ⟨hlog, steps_keepsFits.disposePage s page hnode hfits, [], (List.append_nil _).symm,
      by simp, ?_⟩
    intro page
    rfl
  allocate s isLeaf hnext := by
    have hafter : (s.tree.pages.allocate (.node ⟨invalidPageNum, Mini.emptyBody isLeaf⟩)).get
        s.tree.pages.next = some (.node ⟨invalidPageNum, Mini.emptyBody isLeaf⟩) :=
      PageFile.get_allocate_next
    have hother : ∀ other, other ≠ (s.tree.pages.next : Int) →
        (s.tree.pages.allocate (.node ⟨invalidPageNum, Mini.emptyBody isLeaf⟩)).get other
          = s.tree.pages.get other := fun other hne => PageFile.get_allocate_of_ne hne
    refine replayable_of_entry rfl (grows_appendLogEntry s _).needLog
      (steps_keepsFits.allocate s isLeaf hnext) ?_ ?_ ?_ ?_ hother
    · intro hfits
      refine ⟨hnext, ?_⟩
      cases isLeaf <;> trivial
    · cases isLeaf <;> rfl
    · exact Option.isSome_iff_exists.mpr ⟨_, hafter⟩
    · intro image _
      change (initOperation isLeaf).redo c image = .ok ((s.tree.pages.allocate _).get _)
      rw [hafter]
      cases isLeaf <;> rfl
  change s page node operation node' hnode hfits' hchange := by
    have hbefore := Tree.node_eq_some hnode
    have hafter := PageFile.get_set_self hbefore (some (.node node'))
    have hother : ∀ other, other ≠ page →
        (s.tree.pages.set page (some (.node node'))).get other = s.tree.pages.get other :=
      fun other hne => PageFile.get_set_of_ne hne _
    refine replayable_of_entry rfl (grows_appendLogEntry s _).needLog
      (steps_keepsFits.change s page node operation node' hnode hfits' hchange) ?_ ?_ ?_ ?_ hother
    · intro hfits
      exact ⟨hfits.pageNum page (Option.isSome_iff_exists.mpr ⟨_, hbefore⟩),
        fits_of_change hchange (hfits.node page node hnode) hfits'⟩
    · cases hchange <;> rfl
    · exact Option.isSome_iff_exists.mpr ⟨_, hafter⟩
    · intro image himage
      rw [himage _ hbefore, redo_of_change hchange hfits']
      exact congrArg Except.ok hafter.symm
  setRootPage s oldPage rootPage hheader hroot := by
    have hpages : ((s.appendLogEntry firstIndexPage
        (.updateRootPage rootPage oldPage)).setRootPage rootPage).tree.pages
        = s.tree.pages.set firstIndexPage (some (.indexHeader rootPage)) := by
      rw [MiniTransaction.setRootPage, tree_appendLogEntry]
    have hafter := PageFile.get_set_self hheader (some (.indexHeader rootPage))
    rw [← hpages] at hafter
    have hother : ∀ other, other ≠ firstIndexPage →
        ((s.appendLogEntry firstIndexPage
          (.updateRootPage rootPage oldPage)).setRootPage rootPage).tree.pages.get other
          = s.tree.pages.get other := by
      intro other hne
      rw [hpages]
      exact PageFile.get_set_of_ne hne _
    refine replayable_of_entry rfl (grows_appendLogEntry s _).needLog
      (steps_keepsFits.setRootPage s oldPage rootPage hheader hroot) ?_ rfl ?_ ?_ hother
    · intro hfits
      exact ⟨hfits.pageNum _ (Option.isSome_iff_exists.mpr ⟨_, hheader⟩), hroot⟩
    · exact Option.isSome_iff_exists.mpr ⟨_, hafter⟩
    · intro image himage
      rw [himage _ hheader]
      exact congrArg Except.ok hafter.symm

end Brings

end MiniOB.BplusTree
