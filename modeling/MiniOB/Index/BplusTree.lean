import MiniOB.Common
import MiniOB.Lib.LowerBound
import MiniOB.Lib.PageFile

/-!
# B+ trees

`BplusTreeHandler` of `storage/index/bplus_tree.cpp`. The nodes of a tree are the pages of
its file, which point to each other by their page numbers: an internal node to its
children, a node to its parent, and a leaf to the next leaf. The key in the first slot of an
internal node is carried along but never compared.

The functions run in a mini-transaction over the file. They fail where the code would read a
page that is not there, take one kind of node for another or reach beyond the items of a
node; taking a page into use never fails.
-/

namespace MiniOB.BplusTree

open LowerBound

variable {K V : Type}

/-- What a node holds: a leaf its items and the next leaf, an internal node its children
with their keys. -/
inductive Body (K V : Type) where
  | leaf (nextBrother : Int) (items : List (K × V))
  | internal (items : List (K × Int))
  deriving DecidableEq, Repr

/-- A node. -/
structure IndexNode (K V : Type) where
  parent : Int
  body : Body K V
  deriving DecidableEq, Repr

/-- A page of the file: the header of the buffer pool, the header of the index, or a node. -/
inductive Page (K V : Type) where
  | fileHeader
  | indexHeader (rootPage : Int)
  | node (node : IndexNode K V)
  deriving DecidableEq, Repr

/-- What is fixed when a tree is created. The key of zero bytes goes into the first slot of
a new root. -/
structure Parameters (K : Type) where
  internalMaxSize : Nat
  leafMaxSize : Nat
  zeroKey : K

/-- The state of a tree: the pages of its file, `file_header_.root_page`, and the pages that
the running mini-transaction disposes of when it ends. -/
structure Tree (K V : Type) where
  pages : PageFile (Page K V)
  rootPage : Int
  disposedPages : List Int
  deriving DecidableEq, Repr

/-- Where a function fails. -/
inductive Failure where
  | page (page : Int)
  | kind (page : Int)
  | index
  | assertion
  | fuel
  deriving DecidableEq, Repr

/-- A computation within a mini-transaction. -/
abbrev Mtr (K V : Type) := EStateM Failure (Tree K V)

/-- `FIRST_INDEX_PAGE`. -/
def firstIndexPage : Int := 1

/-! ### Pages -/

/-- The node on a page. -/
def Tree.node (t : Tree K V) (page : Int) : Option (IndexNode K V) :=
  match t.pages.get page with
  | some (.node node) => some node
  | _ => none

/-- Fetch the node on a page. -/
def getNode (page : Int) : Mtr K V (IndexNode K V) := fun t =>
  match t.node page with
  | some node => .ok node t
  | none => .error (.page page) t

/-- Write the node on a page. -/
def putNode (page : Int) (node : IndexNode K V) : Mtr K V Unit := fun t =>
  .ok () { t with pages := t.pages.set page (some (.node node)) }

/-- Take a page into use and initialise the node on it. -/
def allocatePage (body : Body K V) : Mtr K V Int := fun t =>
  .ok t.pages.next { t with pages := t.pages.allocate (.node ⟨invalidPageNum, body⟩) }

/-- `LatchMemo::dispose_page`. -/
def disposePage (page : Int) : Mtr K V Unit := fun t =>
  .ok () { t with disposedPages := t.disposedPages ++ [page] }

/-- `LatchMemo::release`. -/
def release : Mtr K V Unit := fun t =>
  .ok () { t with
    pages := t.disposedPages.foldl (fun pages page => pages.set page none) t.pages
    disposedPages := [] }

/-- `BplusTreeHandler::update_root_page_num_locked`. -/
def updateRootPageNum (rootPage : Int) : Mtr K V Unit := fun t =>
  match t.pages.get firstIndexPage with
  | some (.indexHeader _) =>
    .ok () { t with
      pages := t.pages.set firstIndexPage (some (.indexHeader rootPage))
      rootPage := rootPage }
  | _ => .error (.kind firstIndexPage) t

/-! ### Nodes -/

/-- The number of items. -/
def Body.size : Body K V → Nat
  | .leaf _ items => items.length
  | .internal items => items.length

/-- `IndexNodeHandler::is_leaf`. -/
def Body.isLeaf : Body K V → Bool
  | .leaf .. => true
  | .internal _ => false

/-- `IndexNodeHandler::max_size`. -/
def Body.maxSize (c : Parameters K) : Body K V → Nat
  | .leaf .. => c.leafMaxSize
  | .internal _ => c.internalMaxSize

/-- `IndexNodeHandler::min_size`. -/
def Body.minSize (c : Parameters K) (body : Body K V) : Nat :=
  body.maxSize c - body.maxSize c / 2

/-- What `init_empty` leaves on the page of a node of the same kind. -/
def Body.empty : Body K V → Body K V
  | .leaf .. => .leaf invalidPageNum []
  | .internal _ => .internal []

/-- The key of an item. -/
def Body.keyAt : Body K V → Nat → Option K
  | .leaf _ items, index => (items[index]?).map Prod.fst
  | .internal items, index => (items[index]?).map Prod.fst

/-- The result of an access to an item. -/
def item {α : Type} : Option α → Mtr K V α
  | some x => pure x
  | none => throw .index

/-- The items of an internal node. -/
def getInternal (page : Int) : Mtr K V (List (K × Int)) := do
  match (← getNode page).body with
  | .internal items => pure items
  | .leaf .. => throw (.kind page)

/-- The next page and the items of a leaf. -/
def getLeaf (page : Int) : Mtr K V (Int × List (K × V)) := do
  match (← getNode page).body with
  | .leaf nextBrother items => pure (nextBrother, items)
  | .internal _ => throw (.kind page)

/-- `IndexNodeHandler::set_parent_page_num`. -/
def setParentPageNum (page parent : Int) : Mtr K V Unit := do
  let node ← getNode page
  putNode page { node with parent := parent }

/-- Write what a node holds. -/
def setBody (page : Int) (body : Body K V) : Mtr K V Unit := do
  let node ← getNode page
  putNode page { node with body := body }

/-! ### Leaves -/

/-- `LeafIndexNodeHandler::lookup`: the position of a key, and whether it is there. -/
def leafLookup [LinearOrder K] (items : List (K × V)) (key : K) : Nat × Bool :=
  lowerBound (items.map Prod.fst) key

/-- `LeafIndexNodeHandler::set_next_page`. -/
def setNextPage (page nextBrother : Int) : Mtr K V Unit := do
  let (_, items) ← getLeaf page
  setBody page (.leaf nextBrother items)

/-- Write the items of a leaf. -/
def setLeafItems (page : Int) (items : List (K × V)) : Mtr K V Unit := do
  let (nextBrother, _) ← getLeaf page
  setBody page (.leaf nextBrother items)

/-- `LeafIndexNodeHandler::insert`. -/
def leafInsert (page : Int) (index : Nat) (key : K) (value : V) : Mtr K V Unit := do
  let (_, items) ← getLeaf page
  setLeafItems page (items.insertIdx index (key, value))

/-- `LeafIndexNodeHandler::append`. -/
def leafAppend (page : Int) (moved : List (K × V)) : Mtr K V Unit := do
  let (_, items) ← getLeaf page
  setLeafItems page (items ++ moved)

/-- `LeafIndexNodeHandler::preappend`. -/
def leafPreappend (page : Int) (moved : K × V) : Mtr K V Unit := do
  let (_, items) ← getLeaf page
  setLeafItems page (moved :: items)

/-! ### Internal nodes -/

/-- The position of a key among the keys from the second slot on, counted from the first
slot: `insert_position` of `InternalIndexNodeHandler::lookup`. -/
def insertPosition [LinearOrder K] (items : List (K × Int)) (key : K) : Nat :=
  (lowerBound (items.tail.map Prod.fst) key).1 + 1

/-- `InternalIndexNodeHandler::lookup`: the index of the child that a key belongs to. -/
def internalLookup [LinearOrder K] (items : List (K × Int)) (key : K) : Nat :=
  let position := insertPosition items key
  match items[position]? with
  | none => position - 1
  | some (key', _) => if key < key' then position - 1 else position

/-- Write the items of an internal node. -/
def setInternalItems (page : Int) (items : List (K × Int)) : Mtr K V Unit := do
  let _ ← getInternal page
  setBody page (.internal items)

/-- `InternalIndexNodeHandler::insert`, which leaves the parent of the child alone. -/
def internalInsert [LinearOrder K] (page : Int) (key : K) (child : Int) : Mtr K V Unit := do
  let items ← getInternal page
  setInternalItems page (items.insertIdx (insertPosition items key) (key, child))

/-- The loop of `InternalIndexNodeHandler::insert_items` over the children. -/
def setParents (parent : Int) : List (K × Int) → Mtr K V Unit
  | [] => pure ()
  | (_, child) :: items => do
    setParentPageNum child parent
    setParents parent items

/-- `InternalIndexNodeHandler::append`. -/
def internalAppend (page : Int) (moved : List (K × Int)) : Mtr K V Unit := do
  let items ← getInternal page
  setInternalItems page (items ++ moved)
  setParents page moved

/-- `InternalIndexNodeHandler::preappend`. -/
def internalPreappend (page : Int) (moved : K × Int) : Mtr K V Unit := do
  let items ← getInternal page
  setInternalItems page (moved :: items)
  setParents page [moved]

/-- `InternalIndexNodeHandler::remove`. -/
def internalRemove (page : Int) (index : Nat) : Mtr K V Unit := do
  let items ← getInternal page
  let _ ← item items[index]?
  setInternalItems page (items.eraseIdx index)

/-- `InternalIndexNodeHandler::set_key_at`. -/
def setKeyAt (page : Int) (index : Nat) (key : K) : Mtr K V Unit := do
  let items ← getInternal page
  let (_, child) ← item items[index]?
  setInternalItems page (items.set index (key, child))

/-! ### Moving items between nodes -/

/-- `move_half_to`: the second half of the items goes to the empty node `other`. -/
def moveHalfTo (page other : Int) : Mtr K V Unit := do
  match (← getNode page).body with
  | .leaf _ items =>
    leafAppend other (items.drop (items.length / 2))
    setLeafItems page (items.take (items.length / 2))
  | .internal items =>
    internalAppend other (items.drop (items.length / 2))
    setInternalItems page (items.take (items.length / 2))

/-- `move_to`: all items go to the end of the node `other` on the left. -/
def moveTo (page other : Int) : Mtr K V Unit := do
  match (← getNode page).body with
  | .leaf nextBrother items =>
    leafAppend other items
    setNextPage other nextBrother
    setLeafItems page []
  | .internal items =>
    internalAppend other items
    setInternalItems page []

/-- `move_first_to_end`: the first item goes to the end of the node `other`. -/
def moveFirstToEnd (page other : Int) : Mtr K V Unit := do
  match (← getNode page).body with
  | .leaf _ items =>
    let first ← item items.head?
    leafAppend other [first]
    setLeafItems page items.tail
  | .internal items =>
    let first ← item items.head?
    internalAppend other [first]
    setInternalItems page items.tail

/-- `move_last_to_front`: the last item goes to the front of the node `other`. -/
def moveLastToFront (page other : Int) : Mtr K V Unit := do
  match (← getNode page).body with
  | .leaf _ items =>
    let last ← item items.getLast?
    leafPreappend other last
    setLeafItems page items.dropLast
  | .internal items =>
    let last ← item items.getLast?
    internalPreappend other last
    setInternalItems page items.dropLast

/-! ### Searching -/

/-- The loop of `BplusTreeHandler::find_leaf_internal`. -/
def descend (childPageGetter : List (K × Int) → Option Int) : Nat → Int → Mtr K V Int
  | 0, _ => throw .fuel
  | fuel + 1, page => do
    match (← getNode page).body with
    | .leaf .. => pure page
    | .internal items => do
      let child ← item (childPageGetter items)
      descend childPageGetter fuel child

/-- `BplusTreeHandler::find_leaf_internal`; the answer `none` is the code `EMPTY`. No path
is longer than the file. -/
def findLeafInternal (childPageGetter : List (K × Int) → Option Int) : Mtr K V (Option Int) := do
  let t ← get
  if t.rootPage = invalidPageNum then pure none
  else
    let page ← descend childPageGetter t.pages.length t.rootPage
    pure (some page)

/-- `BplusTreeHandler::find_leaf`. -/
def findLeaf [LinearOrder K] (key : K) : Mtr K V (Option Int) :=
  findLeafInternal fun items => (items[internalLookup items key]?).map Prod.snd

/-- `BplusTreeHandler::left_most_page`. -/
def leftMostPage : Mtr K V (Option Int) :=
  findLeafInternal fun items => (items[0]?).map Prod.snd

/-! ### Insertion -/

/-- `BplusTreeHandler::split`: the page of the new node. -/
def split (page : Int) : Mtr K V Int := do
  let node ← getNode page
  let newPage ← allocatePage node.body.empty
  setParentPageNum newPage node.parent
  moveHalfTo page newPage
  pure newPage

variable [LinearOrder K]

/-- `BplusTreeHandler::insert_entry_into_parent`. -/
def insertEntryIntoParent (c : Parameters K) : Nat → Int → Int → K → Mtr K V Unit
  | 0, _, _, _ => throw .fuel
  | fuel + 1, page, newPage, key => do
    let parentPage := (← getNode page).parent
    if parentPage = invalidPageNum then
      let root ← allocatePage (.internal [(c.zeroKey, page), (key, newPage)])
      setParentPageNum page root
      setParentPageNum newPage root
      updateRootPageNum root
    else
      let items ← getInternal parentPage
      if items.length < c.internalMaxSize then
        internalInsert parentPage key newPage
        setParentPageNum newPage parentPage
      else
        let newParentPage ← split parentPage
        let firstKey ← item ((← getNode newParentPage).body.keyAt 0)
        if firstKey < key then
          internalInsert newParentPage key newPage
          setParentPageNum newPage newParentPage
        else
          internalInsert parentPage key newPage
          setParentPageNum newPage parentPage
        let firstKey ← item ((← getNode newParentPage).body.keyAt 0)
        insertEntryIntoParent c fuel parentPage newParentPage firstKey

/-- `BplusTreeHandler::insert_entry_into_leaf_node`. -/
def insertEntryIntoLeafNode (c : Parameters K) (page : Int) (key : K) (value : V) :
    Mtr K V RC := do
  let (_, items) ← getLeaf page
  let (position, found) := leafLookup items key
  if found then pure .recordDuplicateKey
  else if items.length < c.leafMaxSize then
    leafInsert page position key value
    pure .success
  else
    let newPage ← split page
    let (nextBrother, left) ← getLeaf page
    setNextPage newPage nextBrother
    setParentPageNum newPage (← getNode page).parent
    setNextPage page newPage
    if position < left.length then leafInsert page position key value
    else leafInsert newPage (position - left.length) key value
    let firstKey ← item ((← getNode newPage).body.keyAt 0)
    insertEntryIntoParent c (← get).pages.length page newPage firstKey
    pure .success

/-- `BplusTreeHandler::create_new_tree`. -/
def createNewTree (key : K) (value : V) : Mtr K V RC := do
  if (← get).rootPage ≠ invalidPageNum then pure .internal
  else
    let page ← allocatePage (.leaf invalidPageNum [])
    leafInsert page 0 key value
    updateRootPageNum page
    pure .success

/-- `BplusTreeHandler::insert_entry`, for a key made of the user key and the identifier. -/
def insertEntry (c : Parameters K) (key : K) (value : V) : Mtr K V RC := do
  if (← get).rootPage = invalidPageNum then createNewTree key value
  else
    match ← findLeaf key with
    | none => pure .empty
    | some page => insertEntryIntoLeafNode c page key value

/-! ### Deletion -/

/-- `BplusTreeHandler::adjust_root`. -/
def adjustRoot (page : Int) : Mtr K V Unit := do
  match (← getNode page).body with
  | .leaf _ (_ :: _) => pure ()
  | .leaf _ [] =>
    updateRootPageNum invalidPageNum
    disposePage page
  | .internal items =>
    let (_, child) ← item items[0]?
    setParentPageNum child invalidPageNum
    updateRootPageNum child
    disposePage page

/-- `BplusTreeHandler::redistribute`. -/
def redistribute (neighborPage page parentPage : Int) (index : Nat) : Mtr K V Unit := do
  if index = 0 then
    moveFirstToEnd neighborPage page
    let firstKey ← item ((← getNode neighborPage).body.keyAt 0)
    setKeyAt parentPage 1 firstKey
  else
    moveLastToFront neighborPage page
    let firstKey ← item ((← getNode page).body.keyAt 0)
    setKeyAt parentPage index firstKey

/-- `BplusTreeHandler::coalesce`, with the call that checks the parent node. -/
def coalesce (checkParent : Int → Mtr K V Unit) (neighborPage page parentPage : Int)
    (index : Nat) : Mtr K V Unit := do
  let (left, right, index) :=
    if index = 0 then (page, neighborPage, 1) else (neighborPage, page, index)
  internalRemove parentPage index
  moveTo right left
  if (← getNode left).body.isLeaf then
    let (nextBrother, _) ← getLeaf right
    setNextPage left nextBrother
  disposePage right
  checkParent parentPage

/-- `BplusTreeHandler::coalesce_or_redistribute`. -/
def coalesceOrRedistribute (c : Parameters K) : Nat → Int → Mtr K V Unit
  | 0, _ => throw .fuel
  | fuel + 1, page => do
    let node ← getNode page
    if node.body.minSize c ≤ node.body.size then pure ()
    else if node.parent = invalidPageNum then
      if 1 < node.body.size then pure () else adjustRoot page
    else
      let items ← getInternal node.parent
      let lastKey ← item (node.body.keyAt (node.body.size - 1))
      let index := internalLookup items lastKey
      let (_, found) ← item items[index]?
      if found ≠ page then throw .assertion
      else
        let (_, neighborPage) ← item (if index = 0 then items[1]? else items[index - 1]?)
        let neighbor ← getNode neighborPage
        if node.body.maxSize c < node.body.size + neighbor.body.size then
          redistribute neighborPage page node.parent index
        else
          coalesce (coalesceOrRedistribute c fuel) neighborPage page node.parent index

/-- `BplusTreeHandler::delete_entry_internal`. -/
def deleteEntryInternal (c : Parameters K) (page : Int) (key : K) : Mtr K V RC := do
  let (_, items) ← getLeaf page
  let (position, found) := leafLookup items key
  if found then
    setLeafItems page (items.eraseIdx position)
    let node ← getNode page
    if node.body.minSize c ≤ node.body.size then pure .success
    else
      coalesceOrRedistribute c (← get).pages.length page
      pure .success
  else pure .recordNotExist

/-- `BplusTreeHandler::delete_entry`, for a key made of the user key and the identifier. -/
def deleteEntry (c : Parameters K) (key : K) : Mtr K V RC := do
  match ← findLeaf key with
  | none => pure .recordNotExist
  | some page => do
    let rc ← deleteEntryInternal c page key
    release
    pure rc

/-- `BplusTreeHandler::create`: a new file with its two headers. -/
def Tree.create : Tree K V where
  pages := [some .fileHeader, some (.indexHeader invalidPageNum)]
  rootPage := invalidPageNum
  disposedPages := []

end MiniOB.BplusTree
