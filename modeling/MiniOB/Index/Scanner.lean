import MiniOB.Index.Refinement

/-!
# Scanning a B+ tree

`BplusTreeScanner` of `storage/index/bplus_tree.cpp`. The two bounds of a scan are made into
keys by an identifier below or above those of all records; the scan starts in the leaf that the
left key belongs to, or behind it, and follows the leaves until it meets a key beyond the right
one. The latch of the next leaf is only tried: when it is busy, the caller is told to wait and
calls again.
-/

namespace MiniOB.BplusTree

/-- `RID::min`. -/
def ridMin : RID := ⟨0, 0⟩

/-- `RID::max`. -/
def ridMax : RID := ⟨int32Max, int32Max⟩

/-- What the type of a column does with the user keys that bound a scan: the comparison of two
of them, and `fix_user_key` with `want_greater`, which answers the fixed key and whether the
bound becomes inclusive. -/
structure KeyColumn (B U : Type) where
  compare : B → B → Ordering
  fixUserKey : Bool → B → U × Bool

/-- A bound of a scan. -/
structure Bound (B : Type) where
  userKey : B
  inclusive : Bool
  deriving DecidableEq, Repr

/-- A column of the type `INTS` or `DATES` of at least four bytes, whose keys are left as they are. -/
def intColumn : KeyColumn Int Int where
  compare := cmp
  fixUserKey _ userKey := (userKey, false)

/-- `BplusTreeScanner`. -/
structure Scanner (K : Type) where
  currentFrame : Option Int
  iterIndex : Nat
  firstEmitted : Bool
  rightKey : Option K
  deriving DecidableEq, Repr

section Bounds

variable {B U : Type} (column : KeyColumn B U)

/-- The bounds that `open` refuses: the left one above the right one, or both the same and not
both inclusive. -/
def KeyColumn.refuses : Option (Bound B) → Option (Bound B) → Bool
  | some left, some right =>
    match column.compare left.userKey right.userKey with
    | .gt => true
    | .eq => !left.inclusive || !right.inclusive
    | .lt => false
  | _, _ => false

/-- The key that a left bound is made into. -/
def KeyColumn.leftKey (left : Bound B) : Key U :=
  let (userKey, inclusive) := column.fixUserKey true left.userKey
  ⟨userKey, if left.inclusive || inclusive then ridMin else ridMax⟩

/-- The key that a right bound is made into. -/
def KeyColumn.rightKey (right : Bound B) : Key U :=
  let (userKey, inclusive) := column.fixUserKey false right.userKey
  ⟨userKey, if right.inclusive || inclusive then ridMax else ridMin⟩

end Bounds

section Scan

variable {K V : Type} [LinearOrder K]

/-- Whether a key is beyond the right one. -/
def beyond (rightKey : Option K) (key : K) : Bool :=
  match rightKey with
  | none => false
  | some rightKey => decide (rightKey < key)

/-- `BplusTreeScanner::touch_end`, for a scanner at a place in a leaf. -/
def touchEnd (rightKey : Option K) (page : Int) (index : Nat) : Mtr K V Bool := do
  match rightKey with
  | none => pure false
  | some rightKey =>
    let (_, items) ← getLeaf page
    let (key, _) ← item items[index]?
    pure (decide (rightKey < key))

/-- `BplusTreeScanner::fetch_item`. -/
def fetchItem (page : Int) (index : Nat) : Mtr K V V := do
  let (_, items) ← getLeaf page
  let (_, value) ← item items[index]?
  pure value

/-- The part of `BplusTreeScanner::open` that finds the place to start at: a leaf and an index,
if there is one. -/
def startPosition (leftKey : Option K) : Mtr K V (Option (Int × Nat)) := do
  match leftKey with
  | none =>
    match ← leftMostPage with
    | none => pure none
    | some page => pure (some (page, 0))
  | some leftKey =>
    match ← findLeaf leftKey with
    | none => pure none
    | some page => do
      let (nextBrother, items) ← getLeaf page
      let index := (leafLookup items leftKey).1
      if items.length ≤ index then
        if nextBrother = invalidPageNum then pure none else pure (some (nextBrother, 0))
      else pure (some (page, index))

/-- The rest of `BplusTreeScanner::open`, with the keys for the bounds. -/
def openKeys (leftKey rightKey : Option K) : Mtr K V (Scanner K) := do
  match ← startPosition leftKey with
  | none => pure ⟨none, 0, false, none⟩
  | some (page, index) => do
    let ended ← touchEnd rightKey page index
    pure ⟨if ended then none else some page, index, false, rightKey⟩

/-- What a call of `next_entry` leaves: its answer, the scanner, and the answers that
`try_slatch` has not given yet. -/
structure NextEntry (K V : Type) where
  answer : Except RC V
  scanner : Scanner K
  latches : List Bool

/-- `BplusTreeScanner::next_entry` behind `iter_index_++`, on the leaf of the current frame.
The answers of `try_slatch` are given, and when there are no more of them it succeeds. No scan
enters more leaves than there are pages. -/
def nextFrom : Nat → Int → Scanner K → List Bool → Mtr K V (NextEntry K V)
  | 0, _, _, _ => throw .fuel
  | fuel + 1, page, scanner, latches => do
    let (nextBrother, items) ← getLeaf page
    if scanner.iterIndex < items.length then
      if ← touchEnd scanner.rightKey page scanner.iterIndex then
        pure ⟨.error .recordEof, scanner, latches⟩
      else
        let value ← fetchItem page scanner.iterIndex
        pure ⟨.ok value, scanner, latches⟩
    else if nextBrother = invalidPageNum then pure ⟨.error .recordEof, scanner, latches⟩
    else
      let scanner := { scanner with currentFrame := some nextBrother }
      if latches.headD true then
        nextFrom fuel nextBrother { scanner with iterIndex := 0 } latches.tail
      else pure ⟨.error .lockedNeedWait, scanner, latches.tail⟩

/-- `BplusTreeScanner::next_entry`. -/
def nextEntry (scanner : Scanner K) (latches : List Bool) : Mtr K V (NextEntry K V) := do
  match scanner.currentFrame with
  | none => pure ⟨.error .recordEof, scanner, latches⟩
  | some page =>
    if scanner.firstEmitted then
      let t ← get
      nextFrom t.pages.length page { scanner with iterIndex := scanner.iterIndex + 1 } latches
    else
      let value ← fetchItem page scanner.iterIndex
      pure ⟨.ok value, { scanner with firstEmitted := true }, latches⟩

/-- Call `next_entry` again and again, also when it says to wait, until it gives another error:
the values that it has given, and the error. -/
def drain : Nat → Scanner K → List Bool → Mtr K V (List V × RC)
  | 0, _, _ => throw .fuel
  | fuel + 1, scanner, latches => do
    let next ← nextEntry scanner latches
    match next.answer with
    | .ok value => do
      let (values, rc) ← drain fuel next.scanner next.latches
      pure (value :: values, rc)
    | .error rc =>
      if rc = .lockedNeedWait then drain fuel next.scanner next.latches
      else pure ([], rc)

end Scan

section Calls

variable {B U : Type} [LinearOrder (Key U)]

/-- `BplusTreeScanner::open`. -/
def openScanner (column : KeyColumn B U) (left right : Option (Bound B)) :
    Mtr (Key U) RID (Except RC (Scanner (Key U))) := do
  if column.refuses left right then pure (.error .invalidArgument)
  else
    let scanner ← openKeys (left.map column.leftKey) (right.map column.rightKey)
    pure (.ok scanner)

/-- `BplusTreeHandler::get_entry`, where no latch is busy; there are no more entries than the
`fuel` allows to be read. -/
def getEntry (column : KeyColumn B U) (fuel : Nat) (userKey : B) :
    Mtr (Key U) RID (List RID × RC) := do
  match ← openScanner column (some ⟨userKey, true⟩) (some ⟨userKey, true⟩) with
  | .error rc => pure ([], rc)
  | .ok scanner => do
    let (rids, rc) ← drain fuel scanner []
    pure (rids, if rc = .recordEof then .success else rc)

end Calls

end MiniOB.BplusTree
