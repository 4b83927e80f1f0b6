import MiniOB.Index.LogEntry
import MiniOB.Lib.Along
import MiniOB.Record.RecordManager

/-!
# Mini-transactions

The operations of a B+ tree once more, now with what `BplusTree.lean` leaves out: every
change of a page is recorded in the logger of the mini-transaction, frames are marked dirty
by hand, and each request for a page may fail. `BplusTreeMiniTransaction` and
`BplusTreeLogger` are those of `storage/index/bplus_tree_log.cpp`.

A function that returns a code ends with it (`Stop.returns`) unless it is `SUCCESS`. A caller
that looks at the code ends with it as well; one that does not calls the function through
`ignoringRc`. Items that do not fit on a page, or a number that is no `int32_t`, end in a
crash, as does every access through a null pointer.
-/

namespace MiniOB.BplusTree

variable {K V α : Type}

/-! ### The bytes of a node -/

/-- How keys and values lie on a page, together with the parameters of the tree. -/
structure Format (K V : Type) extends Parameters K where
  attrLength : Nat
  attrType : Int
  keyLength : Nat
  encodeKey : K → List UInt8
  decodeKey : List UInt8 → K
  encodeValue : V → List UInt8
  decodeValue : List UInt8 → V
  length_encodeKey : ∀ key, (encodeKey key).length = keyLength
  decode_encodeKey : ∀ key, decodeKey (encodeKey key) = key
  length_encodeValue : ∀ value, (encodeValue value).length = 8
  decode_encodeValue : ∀ value, decodeValue (encodeValue value) = value
  decodeKey_zero : decodeKey (List.replicate keyLength 0) = zeroKey

/-- The header of the tree with a given root. -/
def Format.header (c : Format K V) (rootPage : Int) : IndexFileHeader where
  rootPage := rootPage
  internalMaxSize := c.internalMaxSize
  leafMaxSize := c.leafMaxSize
  attrLength := c.attrLength
  keyLength := c.keyLength
  attrType := c.attrType

/-- The bytes of the items of a leaf. -/
def Format.leafBytes (c : Format K V) (items : List (K × V)) : List UInt8 :=
  items.flatMap fun item => c.encodeKey item.1 ++ c.encodeValue item.2

/-- The bytes of the items of an internal node. -/
def Format.internalBytes (c : Format K V) (items : List (K × Int)) : List UInt8 :=
  items.flatMap fun item => c.encodeKey item.1 ++ writeInt32 item.2

/-- The items of a body lie within the page, and their page numbers are values of the type
`int32_t`. -/
def Body.Fits (c : Format K V) : Body K V → Prop
  | .leaf nextBrother items =>
    IsInt32 nextBrother ∧ 16 + items.length * (c.keyLength + 8) ≤ Record.pageDataSize
  | .internal items =>
    (∀ item ∈ items, IsInt32 item.2) ∧ 12 + items.length * (c.keyLength + 4) ≤ Record.pageDataSize

/-- A node that a page can hold. -/
def IndexNode.Fits (c : Format K V) (node : IndexNode K V) : Prop :=
  IsInt32 node.parent ∧ node.body.Fits c

instance (c : Format K V) (body : Body K V) : Decidable (body.Fits c) :=
  match body with
  | .leaf .. => inferInstanceAs (Decidable (_ ∧ _))
  | .internal _ => inferInstanceAs (Decidable (_ ∧ _))

instance (c : Format K V) (node : IndexNode K V) : Decidable (node.Fits c) :=
  inferInstanceAs (Decidable (_ ∧ _))

/-- `IndexNodeHandler::recover_insert_items`, on the items of a node. Items that were put
behind the end would leave a gap. -/
def recoverInsertItems {α : Type} (index : Nat) (moved items : List α) : Option (List α) :=
  if index ≤ items.length then some (items.take index ++ moved ++ items.drop index) else none

/-- `IndexNodeHandler::recover_remove_items`, on the items of a node. -/
def recoverRemoveItems {α : Type} (index num : Nat) (items : List α) : Option (List α) :=
  if index + num < items.length then some (items.take index ++ items.drop (index + num))
  else if index + num = items.length then some (items.take index)
  else none

/-! ### Computations -/

/-- The state of a tree in the course of a mini-transaction: the tree, the entries that the
logger holds, whether it takes more of them, the frames that have been marked dirty, the
number of requests for pages so far, and the return codes with which the buffer pool answers
the requests. -/
structure MiniTransaction (K V : Type) where
  tree : Tree K V
  entries : List LogEntryHandler
  needLog : Bool
  dirty : List Int
  requests : Nat
  answer : Nat → RC

/-- The mini-transaction with an entry for a change of a page. -/
def MiniTransaction.appendLogEntry (s : MiniTransaction K V) (page : Int)
    (operation : LogOperation) : MiniTransaction K V :=
  if s.needLog then { s with entries := s.entries ++ [⟨page, operation⟩] } else s

/-- The mini-transaction with other pages. -/
def MiniTransaction.setPages (s : MiniTransaction K V) (pages : PageFile (Page K V)) :
    MiniTransaction K V :=
  { s with tree := { s.tree with pages := pages } }

/-- The mini-transaction with another root, in `file_header_` and in the header page. -/
def MiniTransaction.setRootPage (s : MiniTransaction K V) (rootPage : Int) :
    MiniTransaction K V :=
  { s with tree := { s.tree with
      pages := s.tree.pages.set firstIndexPage (some (.indexHeader rootPage))
      rootPage := rootPage } }

/-- A computation with a mini-transaction. -/
abbrev Mini (K V : Type) := EStateM Stop (MiniTransaction K V)

namespace Mini

/-- Crash. -/
def crash (crash : Crash) : Mini K V α := throw (.crash crash)

/-- Crash at a failure of the tree. -/
def fail (failure : Failure) : Mini K V α := crash (.failure failure)

/-- Return a code other than `SUCCESS`. -/
def returns (rc : RC) : Mini K V α := throw (.returns rc)

/-- Call a function without looking at the code it returns. -/
def ignoringRc (x : Mini K V Unit) : Mini K V Unit := fun s =>
  match x s with
  | .error (.returns _) s' => .ok () s'
  | result => result

/-- Call a function that leaves a null pointer behind when it fails, and follow the pointer. -/
def followed (x : Mini K V Unit) : Mini K V Unit := fun s =>
  match x s with
  | .error (.returns _) s' => .error (.crash .nullPointer) s'
  | result => result

/-- The result of an access to an item. -/
def item : Option α → Mini K V α
  | some x => pure x
  | none => fail .index

/-- Ask the buffer pool for a page. -/
def request : Mini K V Unit := fun s =>
  if s.answer s.requests = .success then .ok () { s with requests := s.requests + 1 }
  else .error (.returns (s.answer s.requests)) { s with requests := s.requests + 1 }

/-- `LatchMemo::get_page`. -/
def getPage (page : Int) : Mini K V Unit := do
  request
  if ((← get).tree.pages.get page).isNone then fail (.page page)

/-- The node in a frame. -/
def node (page : Int) : Mini K V (IndexNode K V) := fun s =>
  match s.tree.node page with
  | some node => .ok node s
  | none => .error (.crash (.failure (.page page))) s

/-- The next page and the items of the leaf in a frame. -/
def leaf (page : Int) : Mini K V (Int × List (K × V)) := do
  match (← node page).body with
  | .leaf nextBrother items => pure (nextBrother, items)
  | .internal _ => fail (.kind page)

/-- The items of the internal node in a frame. -/
def internal (page : Int) : Mini K V (List (K × Int)) := do
  match (← node page).body with
  | .internal items => pure items
  | .leaf .. => fail (.kind page)

/-- Write into the memory of a node. -/
def write (c : Format K V) (page : Int) (node : IndexNode K V) : Mini K V Unit := fun s =>
  if node.Fits c then .ok () (s.setPages (s.tree.pages.set page (some (.node node))))
  else .error (.crash .overflow) s

/-- `BplusTreeLogger::append_log_entry` for a change of a node, and the change. -/
def change (c : Format K V) (page : Int) (operation : LogOperation) (node : IndexNode K V) :
    Mini K V Unit := fun s =>
  if node.Fits c then
    .ok () ((s.appendLogEntry page operation).setPages
      (s.tree.pages.set page (some (.node node))))
  else .error (.crash .overflow) s

/-- The items of a node after a change, unless memory beyond them is touched. -/
def within {β : Type} : Option (List β) → Mini K V (List β)
  | some items => pure items
  | none => crash .overflow

/-- `Frame::mark_dirty`. -/
def markDirty (page : Int) : Mini K V Unit := fun s => .ok () { s with dirty := page :: s.dirty }

/-- `LatchMemo::dispose_page`. -/
def disposePage (page : Int) : Mini K V Unit := fun s =>
  .ok () { s with tree := { s.tree with disposedPages := s.tree.disposedPages ++ [page] } }

/-! ### Nodes -/

/-- What `init_empty` leaves of a node. -/
def emptyBody (isLeaf : Bool) : Body K V := if isLeaf then .leaf invalidPageNum [] else .internal []

/-- `LatchMemo::allocate_page`, followed by `init_empty` of a handler for the new page. What
has been on the page does not matter. -/
def allocateNode (isLeaf : Bool) : Mini K V Int := do
  request
  let page : Int := (← get).tree.pages.next
  if ¬IsInt32 page then crash .overflow
  modify fun s =>
    (s.appendLogEntry page (if isLeaf then .leafInitEmpty else .internalInitEmpty)).setPages
      (s.tree.pages.allocate (.node ⟨invalidPageNum, emptyBody isLeaf⟩))
  pure page

variable (c : Format K V)

/-- `IndexNodeHandler::set_parent_page_num`. -/
def setParentPageNum (page parent : Int) : Mini K V Unit := do
  let node ← node page
  change c page (.setParentPage parent node.parent) { node with parent := parent }

/-- `BplusTreeHandler::update_root_page_num_locked`. -/
def updateRootPageNum (rootPage : Int) : Mini K V Unit := do
  followed (getPage firstIndexPage)
  match (← get).tree.pages.get firstIndexPage with
  | some (.indexHeader oldPage) =>
    if ¬IsInt32 rootPage then crash .overflow
    modify fun s =>
      (s.appendLogEntry firstIndexPage (.updateRootPage rootPage oldPage)).setRootPage rootPage
    markDirty firstIndexPage
  | _ => fail (.kind firstIndexPage)

/-! ### Leaves -/

/-- `LeafIndexNodeHandler::set_next_page`. -/
def setNextPage (page nextBrother : Int) : Mini K V Unit := do
  let node ← node page
  match node.body with
  | .leaf oldBrother items =>
    change c page (.leafSetNextPage nextBrother oldBrother)
      { node with body := .leaf nextBrother items }
  | .internal _ => fail (.kind page)

/-- Log new items of a leaf and put them in. -/
def insertLeafItems (page : Int) (index : Nat) (moved : List (K × V)) : Mini K V Unit := do
  let node ← node page
  match node.body with
  | .leaf nextBrother items =>
    let items' ← within (recoverInsertItems index moved items)
    change c page (.nodeInsert index moved.length (c.leafBytes moved))
      { node with body := .leaf nextBrother items' }
  | .internal _ => fail (.kind page)

/-- Log the removal of items of a leaf and take them out. -/
def removeLeafItems (page : Int) (index num : Nat) : Mini K V Unit := do
  let node ← node page
  match node.body with
  | .leaf nextBrother items =>
    let items' ← within (recoverRemoveItems index num items)
    change c page (.nodeRemove index num (c.leafBytes ((items.drop index).take num)))
      { node with body := .leaf nextBrother items' }
  | .internal _ => fail (.kind page)

/-- `LeafIndexNodeHandler::insert`. -/
def leafInsert (page : Int) (index : Nat) (key : K) (value : V) : Mini K V Unit :=
  insertLeafItems c page index [(key, value)]

/-- `LeafIndexNodeHandler::remove`. -/
def leafRemove (page : Int) (index : Nat) : Mini K V Unit := do
  let (_, items) ← leaf page
  let _ ← item items[index]?
  removeLeafItems c page index 1

/-- `LeafIndexNodeHandler::append`. -/
def leafAppend (page : Int) (moved : List (K × V)) : Mini K V Unit := do
  let (_, items) ← leaf page
  insertLeafItems c page items.length moved

/-- `LeafIndexNodeHandler::preappend`. -/
def leafPreappend (page : Int) (moved : K × V) : Mini K V Unit :=
  leafInsert c page 0 moved.1 moved.2

/-- `LeafIndexNodeHandler::move_half_to`. -/
def leafMoveHalfTo (page other : Int) : Mini K V Unit := do
  let (_, items) ← leaf page
  let moveIndex := items.length / 2
  leafAppend c other (items.drop moveIndex)
  removeLeafItems c page moveIndex (items.length - moveIndex)

/-- `LeafIndexNodeHandler::move_first_to_end`. -/
def leafMoveFirstToEnd (page other : Int) : Mini K V Unit := do
  let (_, items) ← leaf page
  let first ← item items.head?
  leafAppend c other [first]
  leafRemove c page 0

/-- `LeafIndexNodeHandler::move_last_to_front`. -/
def leafMoveLastToFront (page other : Int) : Mini K V Unit := do
  let (_, items) ← leaf page
  let last ← item items.getLast?
  leafPreappend c other last
  leafRemove c page (items.length - 1)

/-- `LeafIndexNodeHandler::move_to`. -/
def leafMoveTo (page other : Int) : Mini K V Unit := do
  let (nextBrother, items) ← leaf page
  leafAppend c other items
  setNextPage c other nextBrother
  removeLeafItems c page 0 items.length

/-! ### Internal nodes -/

/-- Log new items of an internal node and put them in. -/
def insertInternalItems (page : Int) (index : Nat) (moved : List (K × Int)) : Mini K V Unit := do
  let node ← node page
  match node.body with
  | .internal items =>
    let items' ← within (recoverInsertItems index moved items)
    change c page (.nodeInsert index moved.length (c.internalBytes moved))
      { node with body := .internal items' }
  | .leaf .. => fail (.kind page)

/-- Log the removal of items of an internal node and take them out. -/
def removeInternalItems (page : Int) (index num : Nat) : Mini K V Unit := do
  let node ← node page
  match node.body with
  | .internal items =>
    let items' ← within (recoverRemoveItems index num items)
    change c page (.nodeRemove index num (c.internalBytes ((items.drop index).take num)))
      { node with body := .internal items' }
  | .leaf .. => fail (.kind page)

/-- The loop of `InternalIndexNodeHandler::insert_items` over the children. -/
def setParents (parent : Int) : List (K × Int) → Mini K V Unit
  | [] => pure ()
  | (_, child) :: items => do
    getPage child
    setParentPageNum c child parent
    markDirty child
    setParents parent items

/-- `InternalIndexNodeHandler::insert_items`. -/
def insertItems (page : Int) (index : Nat) (moved : List (K × Int)) : Mini K V Unit := do
  insertInternalItems c page index moved
  setParents c page moved

/-- `InternalIndexNodeHandler::create_new_root`, for a node without items. -/
def createNewRoot (page firstPage : Int) (key : K) (secondPage : Int) : Mini K V Unit := do
  let node ← node page
  match node.body with
  | .internal [] =>
    change c page (.internalCreateNewRoot firstPage (c.encodeKey key) secondPage)
      { node with body := .internal [(c.zeroKey, firstPage), (key, secondPage)] }
  | _ => fail (.kind page)

/-- `InternalIndexNodeHandler::insert`. -/
def internalInsert [LinearOrder K] (page : Int) (key : K) (child : Int) : Mini K V Unit := do
  let items ← internal page
  insertInternalItems c page (insertPosition items key) [(key, child)]

/-- `InternalIndexNodeHandler::remove`. -/
def internalRemove (page : Int) (index : Nat) : Mini K V Unit := do
  let items ← internal page
  let _ ← item items[index]?
  removeInternalItems c page index 1

/-- `InternalIndexNodeHandler::append`. -/
def internalAppend (page : Int) (moved : List (K × Int)) : Mini K V Unit := do
  let items ← internal page
  insertItems c page items.length moved

/-- `InternalIndexNodeHandler::preappend`. -/
def internalPreappend (page : Int) (moved : K × Int) : Mini K V Unit :=
  insertItems c page 0 [moved]

/-- `InternalIndexNodeHandler::set_key_at`. -/
def setKeyAt (page : Int) (index : Nat) (key : K) : Mini K V Unit := do
  let node ← node page
  match node.body with
  | .internal items =>
    let (oldKey, child) ← item items[index]?
    change c page (.internalUpdateKey index (c.encodeKey key) (c.encodeKey oldKey))
      { node with body := .internal (items.set index (key, child)) }
  | .leaf .. => fail (.kind page)

/-- `InternalIndexNodeHandler::move_half_to`. -/
def internalMoveHalfTo (page other : Int) : Mini K V Unit := do
  let items ← internal page
  let moveIndex := items.length / 2
  internalAppend c other (items.drop moveIndex)
  removeInternalItems c page moveIndex (items.length - moveIndex)

/-- `InternalIndexNodeHandler::move_to`. -/
def internalMoveTo (page other : Int) : Mini K V Unit := do
  let items ← internal page
  internalAppend c other items
  removeInternalItems c page 0 items.length

/-- `InternalIndexNodeHandler::move_first_to_end`. -/
def internalMoveFirstToEnd (page other : Int) : Mini K V Unit := do
  let items ← internal page
  let first ← item items.head?
  internalAppend c other [first]
  internalRemove c page 0

/-- `InternalIndexNodeHandler::move_last_to_front`. -/
def internalMoveLastToFront (page other : Int) : Mini K V Unit := do
  let items ← internal page
  let last ← item items.getLast?
  internalPreappend c other last
  removeInternalItems c page (items.length - 1) 1

/-! ### Nodes of either kind -/

/-- `move_half_to` of a node handler type. -/
def moveHalfTo (isLeaf : Bool) (page other : Int) : Mini K V Unit :=
  if isLeaf then leafMoveHalfTo c page other else internalMoveHalfTo c page other

/-- `move_to` of a node handler type. -/
def moveTo (isLeaf : Bool) (page other : Int) : Mini K V Unit :=
  if isLeaf then leafMoveTo c page other else internalMoveTo c page other

/-- `move_first_to_end` of a node handler type. -/
def moveFirstToEnd (isLeaf : Bool) (page other : Int) : Mini K V Unit :=
  if isLeaf then leafMoveFirstToEnd c page other else internalMoveFirstToEnd c page other

/-- `move_last_to_front` of a node handler type. -/
def moveLastToFront (isLeaf : Bool) (page other : Int) : Mini K V Unit :=
  if isLeaf then leafMoveLastToFront c page other else internalMoveLastToFront c page other

/-! ### Searching -/

/-- The loop of `BplusTreeHandler::find_leaf_internal`. -/
def descend (childPageGetter : List (K × Int) → Option Int) : Nat → Int → Mini K V Int
  | 0, _ => fail .fuel
  | fuel + 1, page => do
    match (← node page).body with
    | .leaf .. => pure page
    | .internal items => do
      let child ← item (childPageGetter items)
      getPage child
      descend childPageGetter fuel child

variable [LinearOrder K]

/-- `BplusTreeHandler::find_leaf`. -/
def findLeaf (key : K) : Mini K V Int := do
  let t := (← get).tree
  if t.rootPage = invalidPageNum then returns .empty
  else
    getPage t.rootPage
    descend (fun items => (items[internalLookup items key]?).map Prod.snd) t.pages.length t.rootPage

/-! ### Insertion -/

/-- `BplusTreeHandler::split` for a node handler type: the page of the new node. -/
def split (isLeaf : Bool) (page : Int) : Mini K V Int := do
  let newPage ← allocateNode isLeaf
  setParentPageNum c newPage (← node page).parent
  ignoringRc (moveHalfTo c isLeaf page newPage)
  markDirty page
  markDirty newPage
  pure newPage

/-- `BplusTreeHandler::insert_entry_into_parent`. -/
def insertEntryIntoParent : Nat → Int → Int → K → Mini K V Unit
  | 0, _, _, _ => fail .fuel
  | fuel + 1, page, newPage, key => do
    let parentPage := (← node page).parent
    if parentPage = invalidPageNum then
      let root ← allocateNode false
      createNewRoot c root page key newPage
      setParentPageNum c page root
      setParentPageNum c newPage root
      markDirty page
      markDirty newPage
      updateRootPageNum root
      markDirty root
    else
      getPage parentPage
      let items ← internal parentPage
      if items.length < c.internalMaxSize then
        internalInsert c parentPage key newPage
        setParentPageNum c newPage parentPage
        markDirty page
        markDirty newPage
        markDirty parentPage
      else
        let newParentPage ← split c false parentPage
        let firstKey ← item ((← node newParentPage).body.keyAt 0)
        if firstKey < key then
          internalInsert c newParentPage key newPage
          setParentPageNum c newPage newParentPage
        else
          internalInsert c parentPage key newPage
          setParentPageNum c newPage parentPage
        let firstKey ← item ((← node newParentPage).body.keyAt 0)
        insertEntryIntoParent fuel parentPage newParentPage firstKey

/-- `BplusTreeHandler::insert_entry_into_leaf_node`. -/
def insertEntryIntoLeafNode (page : Int) (key : K) (value : V) : Mini K V Unit := do
  let (_, items) ← leaf page
  let (position, found) := leafLookup items key
  if found then returns .recordDuplicateKey
  else if items.length < c.leafMaxSize then
    leafInsert c page position key value
    markDirty page
  else
    let newPage ← split c true page
    let (nextBrother, left) ← leaf page
    setNextPage c newPage nextBrother
    setParentPageNum c newPage (← node page).parent
    setNextPage c page newPage
    if position < left.length then leafInsert c page position key value
    else leafInsert c newPage (position - left.length) key value
    let firstKey ← item ((← node newPage).body.keyAt 0)
    insertEntryIntoParent c (← get).tree.pages.length page newPage firstKey

/-- `BplusTreeHandler::create_new_tree`. -/
def createNewTree (key : K) (value : V) : Mini K V Unit := do
  if (← get).tree.rootPage ≠ invalidPageNum then returns .internal
  else
    let page ← allocateNode true
    leafInsert c page 0 key value
    updateRootPageNum page
    markDirty page

/-- `BplusTreeHandler::insert_entry`. -/
def insertEntry (key : K) (value : V) : Mini K V Unit := do
  if (← get).tree.rootPage = invalidPageNum then createNewTree c key value
  else
    let page ← findLeaf key
    insertEntryIntoLeafNode c page key value

/-! ### Deletion -/

/-- `BplusTreeHandler::adjust_root`. -/
def adjustRoot (page : Int) : Mini K V Unit := do
  match (← node page).body with
  | .leaf _ (_ :: _) => markDirty page
  | .leaf _ [] =>
    updateRootPageNum invalidPageNum
    disposePage page
  | .internal items =>
    let (_, child) ← item items[0]?
    getPage child
    setParentPageNum c child invalidPageNum
    updateRootPageNum child
    disposePage page

/-- `BplusTreeHandler::redistribute` for a node handler type. -/
def redistribute (isLeaf : Bool) (neighborPage page parentPage : Int) (index : Nat) :
    Mini K V Unit := do
  if index = 0 then
    ignoringRc (moveFirstToEnd c isLeaf neighborPage page)
    let firstKey ← item ((← node neighborPage).body.keyAt 0)
    setKeyAt c parentPage 1 firstKey
  else
    ignoringRc (moveLastToFront c isLeaf neighborPage page)
    let firstKey ← item ((← node page).body.keyAt 0)
    setKeyAt c parentPage index firstKey
  markDirty neighborPage
  markDirty page
  markDirty parentPage

/-- `BplusTreeHandler::coalesce` for a node handler type, with the call that checks the
parent node. -/
def coalesce (isLeaf : Bool) (checkParent : Int → Mini K V Unit)
    (neighborPage page parentPage : Int) (index : Nat) : Mini K V Unit := do
  let (left, right, index) :=
    if index = 0 then (page, neighborPage, 1) else (neighborPage, page, index)
  internalRemove c parentPage index
  moveTo c isLeaf right left
  if (← node left).body.isLeaf then
    let (nextBrother, _) ← leaf right
    setNextPage c left nextBrother
  disposePage right
  checkParent parentPage

/-- `BplusTreeHandler::coalesce_or_redistribute` for a node handler type. -/
def coalesceOrRedistribute : Nat → Bool → Int → Mini K V Unit
  | 0, _, _ => fail .fuel
  | fuel + 1, isLeaf, page => do
    let this ← node page
    if this.body.minSize c.toParameters ≤ this.body.size then pure ()
    else if this.parent = invalidPageNum then
      if 1 < this.body.size then pure () else ignoringRc (adjustRoot c page)
    else
      getPage this.parent
      let items ← internal this.parent
      let lastKey ← item (this.body.keyAt (this.body.size - 1))
      let index := internalLookup items lastKey
      let (_, found) ← item items[index]?
      if found ≠ page then fail .assertion
      else
        let (_, neighborPage) ← item (if index = 0 then items[1]? else items[index - 1]?)
        getPage neighborPage
        let neighbor ← node neighborPage
        if this.body.maxSize c.toParameters < this.body.size + neighbor.body.size then
          redistribute c isLeaf neighborPage page this.parent index
        else
          coalesce c isLeaf (coalesceOrRedistribute fuel false) neighborPage page this.parent index

/-- `BplusTreeHandler::delete_entry_internal`. -/
def deleteEntryInternal (page : Int) (key : K) : Mini K V Unit := do
  let (_, items) ← leaf page
  let (position, found) := leafLookup items key
  if found then
    leafRemove c page position
    markDirty page
    let this ← node page
    if this.body.minSize c.toParameters ≤ this.body.size then pure ()
    else coalesceOrRedistribute c (← get).tree.pages.length true page
  else returns .recordNotExist

/-- Return `RECORD_NOT_EXIST` in the place of `EMPTY`. -/
def notExist (x : Mini K V α) : Mini K V α := fun s =>
  match x s with
  | .error (.returns .empty) s' => .error (.returns .recordNotExist) s'
  | result => result

/-- `BplusTreeHandler::delete_entry`. -/
def deleteEntry (key : K) : Mini K V Unit := do
  let page ← notExist (findLeaf key)
  deleteEntryInternal c page key

end Mini

/-! ### The end of a mini-transaction -/

namespace Mini

variable (c : Format K V)

/-- `recover_remove_items` of an `IndexNodeHandler` that is of neither kind: it has no items
that it could move. -/
def baseRecoverRemoveItems (page index num : Int) : Mini K V Unit := do
  let node ← node page
  if index < node.body.size - num then crash .nullPointer
  else
    let rest := (node.body.size - num).toNat
    match node.body with
    | .leaf nextBrother items =>
      write c page { node with body := .leaf nextBrother (items.take rest) }
    | .internal items => write c page { node with body := .internal (items.take rest) }

/-- `recover_insert_items` of an `IndexNodeHandler` that is of neither kind: it has no place
to put items. -/
def baseRecoverInsertItems (page index num : Int) : Mini K V Unit := do
  let node ← node page
  if index < node.body.size ∨ num ≠ 0 then crash .nullPointer else pure ()

/-- `rollback` of the handlers of log entries. -/
def rollbackEntry (entry : LogEntryHandler) : Mini K V Unit :=
  match entry.operation with
  | .updateRootPage _ oldPageNum => updateRootPageNum oldPageNum
  | .setParentPage _ oldParentPageNum => setParentPageNum c entry.pageNum oldParentPageNum
  | .leafSetNextPage _ oldPageNum => setNextPage c entry.pageNum oldPageNum
  | .internalUpdateKey index _ oldKey =>
    setKeyAt c entry.pageNum index.toNat (c.decodeKey oldKey)
  | .nodeInsert index itemNum _ => baseRecoverRemoveItems c entry.pageNum index itemNum
  | .nodeRemove index itemNum _ => baseRecoverInsertItems entry.pageNum index itemNum
  | .initHeaderPage _ | .leafInitEmpty | .internalInitEmpty | .internalCreateNewRoot .. => pure ()

/-- The loop of `BplusTreeLogger::rollback` over the entries, the last one first. -/
def rollbackEntries : List LogEntryHandler → Mini K V Unit
  | [] => pure ()
  | entry :: entries => do
    ignoringRc (rollbackEntry c entry)
    rollbackEntries entries

/-- `BplusTreeLogger::rollback`. -/
def rollback : Mini K V Unit := do
  let entries := (← get).entries
  modify fun s => { s with needLog := false }
  rollbackEntries c entries.reverse
  modify fun s => { s with entries := [], needLog := true }

/-- `LatchMemo::release`. -/
def release : Mini K V Unit := modify fun s => { s with
  tree := { s.tree with
    pages := s.tree.disposedPages.foldl (fun pages page => pages.set page none) s.tree.pages
    disposedPages := [] } }

end Mini

/-- A call that changes the tree. -/
inductive Operation (K V : Type) where
  | insertEntry (key : K) (value : V)
  | deleteEntry (key : K)
  deriving DecidableEq, Repr

/-- The function that is called. -/
def Operation.body [LinearOrder K] (c : Format K V) : Operation K V → Mini K V Unit
  | insertEntry key value => Mini.insertEntry c key value
  | deleteEntry key => Mini.deleteEntry c key

/-- A new mini-transaction on a tree, while some frames are dirty and the buffer pool will
give some answers. -/
def MiniTransaction.start (tree : Tree K V) (dirty : List Int) (answer : Nat → RC) :
    MiniTransaction K V where
  tree := tree
  entries := []
  needLog := true
  dirty := dirty
  requests := 0
  answer := answer

/-- What is left of a call: the code it returns, the entries it has committed to the log, and
the state of the tree, the dirty frames and the number of requests behind it. -/
structure Finished (K V : Type) where
  rc : RC
  committed : List LogEntryHandler
  tree : Tree K V
  dirty : List Int
  requests : Nat

/-- The end of a mini-transaction with the result of its operation: it is committed or rolled
back, and the pages it has disposed of are given back. -/
def MiniTransaction.finish (c : Format K V) :
    EStateM.Result Stop (MiniTransaction K V) Unit → Except Crash (Finished K V)
  | .ok _ s =>
    let s' := Stateful.final (Mini.release s)
    .ok ⟨.success, s.entries, s'.tree, s'.dirty, s'.requests⟩
  | .error (.returns rc) s =>
    match (do Mini.rollback c; Mini.release : Mini K V Unit) s with
    | .ok _ s' => .ok ⟨rc, [], s'.tree, s'.dirty, s'.requests⟩
    | .error (.returns _) s' => .ok ⟨rc, [], s'.tree, s'.dirty, s'.requests⟩
    | .error (.crash crash) _ => .error crash
  | .error (.crash crash) _ => .error crash

/-- A call on a tree, from the construction of its mini-transaction to the destruction. -/
def Operation.exec [LinearOrder K] (c : Format K V) (operation : Operation K V) (tree : Tree K V)
    (dirty : List Int) (answer : Nat → RC) : Except Crash (Finished K V) :=
  MiniTransaction.finish c (operation.body c (MiniTransaction.start tree dirty answer))

/-- The payload of the log entry with which a mini-transaction is committed: the number of the
buffer pool and the entries of the logger. -/
def payload (bufferPoolId : Int) (entries : List LogEntryHandler) : List UInt8 :=
  writeInt32 bufferPoolId ++ entries.flatMap LogEntryHandler.serialize

end MiniOB.BplusTree
