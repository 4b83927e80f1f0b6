import MiniOB.Index.BplusTree
import MiniOB.Lib.Crabbing

/-!
# Latches

The latches that a mini-transaction takes on a tree, in the order of its `LatchMemo`: the way down
to a leaf by `crabing_protocal_fetch_page`, and the neighbours that `coalesce_or_redistribute`
fetches on the way up again. Behind the way down nothing is released before the operation ends,
and what an operation latches there besides the neighbours is left out: pages that it has taken
into use itself, the header page, and pins.
-/

namespace MiniOB.BplusTree

variable {K V : Type}

/-- `BplusTreeOperationType`. -/
inductive BplusTreeOperationType where
  | read
  | insert
  | delete
  deriving DecidableEq, Repr

/-- `LatchMemoType`. -/
inductive LatchMemoType where
  | shared
  | exclusive
  | pin
  deriving DecidableEq, Repr

/-- What can be latched: `root_lock_`, or the frame of a page. -/
inductive Latched where
  | rootLock
  | page (page : Int)
  deriving DecidableEq, Repr

/-- `LatchMemoItem`. -/
structure LatchMemoItem where
  type : LatchMemoType
  latched : Latched
  deriving DecidableEq, Repr

/-- `LatchMemo::items_`. -/
abbrev LatchMemo := List LatchMemoItem

/-- What is latched exclusively. -/
def LatchMemo.exclusives (memo : LatchMemo) : List Latched :=
  memo.filterMap fun item => if item.type = .exclusive then some item.latched else none

/-- A computation that takes latches. -/
abbrev Latching (K V : Type) := StateT LatchMemo (Mtr K V)

/-- The type of the latches on the way down. -/
def BplusTreeOperationType.latchType : BplusTreeOperationType → LatchMemoType
  | .read => .shared
  | .insert => .exclusive
  | .delete => .exclusive

/-- `LatchMemo::get_page`. -/
def pinPage (page : Int) : Latching K V Unit :=
  modify fun memo => memo ++ [⟨.pin, .page page⟩]

/-- `LatchMemo::latch`. -/
def latch (type : LatchMemoType) (latched : Latched) : Latching K V Unit :=
  modify fun memo => memo ++ [⟨type, latched⟩]

/-- `LatchMemo::release_to`. -/
def releaseTo (point : Nat) : Latching K V Unit :=
  modify fun memo => memo.drop point

/-- `IndexNodeHandler::is_safe`. -/
def Body.isSafe (c : Parameters K) (op : BplusTreeOperationType) (isRootNode : Bool) :
    Body K V → Bool := fun body =>
  match op with
  | .read => true
  | .insert => body.size < body.maxSize c
  | .delete =>
    if isRootNode then
      if body.isLeaf then 1 < body.size else 2 < body.size
    else body.minSize c < body.size

/-! ### The way down -/

/-- `BplusTreeHandler::crabing_protocal_fetch_page`. -/
def crabingProtocalFetchPage (c : Parameters K) (op : BplusTreeOperationType) (page : Int)
    (isRootNode : Bool) : Latching K V (IndexNode K V) := do
  let memoPoint := (← get).length
  pinPage page
  latch op.latchType (.page page)
  let node ← StateT.lift (getNode page)
  if node.body.isSafe c op isRootNode then releaseTo memoPoint
  pure node

/-- The loop of `BplusTreeHandler::find_leaf_internal`, with the page that it fetches. -/
def latchedDescend (c : Parameters K) (op : BplusTreeOperationType)
    (childPageGetter : List (K × Int) → Option Int) : Nat → Int → Bool → Latching K V Int
  | 0, _, _ => StateT.lift (throw .fuel)
  | fuel + 1, page, isRootNode => do
    let node ← crabingProtocalFetchPage c op page isRootNode
    match node.body with
    | .leaf .. => pure page
    | .internal items => do
      let child ← StateT.lift (item (childPageGetter items))
      latchedDescend c op childPageGetter fuel child false

/-- `BplusTreeHandler::find_leaf_internal`. -/
def latchedFindLeafInternal (c : Parameters K) (op : BplusTreeOperationType)
    (childPageGetter : List (K × Int) → Option Int) : Latching K V (Option Int) := do
  latch op.latchType .rootLock
  let t ← StateT.lift get
  if t.rootPage = invalidPageNum then pure none
  else
    let page ← latchedDescend c op childPageGetter t.pages.length t.rootPage true
    pure (some page)

/-- `BplusTreeHandler::find_leaf`. -/
def latchedFindLeaf [LinearOrder K] (c : Parameters K) (op : BplusTreeOperationType) (key : K) :
    Latching K V (Option Int) :=
  latchedFindLeafInternal c op fun items => (items[internalLookup items key]?).map Prod.snd

/-! ### The operations -/

variable [LinearOrder K]

/-- `BplusTreeHandler::insert_entry`. For the first entry of a tree the code holds `root_lock_`
itself, without the memo. -/
def latchedInsertEntry (c : Parameters K) (key : K) (value : V) : Latching K V RC := do
  let t ← StateT.lift get
  if t.rootPage = invalidPageNum then
    latch .exclusive .rootLock
    StateT.lift (createNewTree key value)
  else
    match ← latchedFindLeaf c .insert key with
    | none => pure .empty
    | some page => StateT.lift (insertEntryIntoLeafNode c page key value)

/-- `BplusTreeHandler::coalesce_or_redistribute`. -/
def latchedCoalesceOrRedistribute (c : Parameters K) : Nat → Int → Latching K V Unit
  | 0, _ => StateT.lift (throw .fuel)
  | fuel + 1, page => do
    let node ← StateT.lift (getNode page)
    if node.body.minSize c ≤ node.body.size then pure ()
    else if node.parent = invalidPageNum then
      if 1 < node.body.size then pure () else StateT.lift (adjustRoot page)
    else
      pinPage node.parent
      let items ← StateT.lift (getInternal node.parent)
      let lastKey ← StateT.lift (item (node.body.keyAt (node.body.size - 1)))
      let index := internalLookup items lastKey
      let (_, found) ← StateT.lift (item items[index]?)
      if found ≠ page then StateT.lift (throw .assertion)
      else
        let (_, neighborPage) ←
          StateT.lift (item (if index = 0 then items[1]? else items[index - 1]?))
        pinPage neighborPage
        latch .exclusive (.page neighborPage)
        let neighbor ← StateT.lift (getNode neighborPage)
        if node.body.maxSize c < node.body.size + neighbor.body.size then
          StateT.lift (redistribute neighborPage page node.parent index)
        else
          StateT.lift (coalesce (fun _ => pure ()) neighborPage page node.parent index)
          latchedCoalesceOrRedistribute c fuel node.parent

/-- `BplusTreeHandler::delete_entry_internal`. -/
def latchedDeleteEntryInternal (c : Parameters K) (page : Int) (key : K) :
    Latching K V RC := do
  let (_, items) ← StateT.lift (getLeaf page)
  let (position, found) := leafLookup items key
  if found then
    StateT.lift (setLeafItems page (items.eraseIdx position))
    let node ← StateT.lift (getNode page)
    if node.body.minSize c ≤ node.body.size then pure .success
    else
      let t ← StateT.lift get
      latchedCoalesceOrRedistribute c t.pages.length page
      pure .success
  else pure .recordNotExist

/-- `BplusTreeHandler::delete_entry`, up to the end of its mini-transaction, which frees what it
has disposed of. -/
def latchedDeleteEntry (c : Parameters K) (key : K) : Latching K V RC := do
  match ← latchedFindLeaf c .delete key with
  | none => pure .recordNotExist
  | some page => do
    let rc ← latchedDeleteEntryInternal c page key
    StateT.lift release
    pure rc

end MiniOB.BplusTree
