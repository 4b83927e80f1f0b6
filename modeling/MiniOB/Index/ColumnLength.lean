import MiniOB.Index.RangeScan

/-!
# The length of a column of numbers

`make_key` copies as many bytes of a user key as the column has, and puts the identifier of the
record behind them. `compare_int` reads four bytes whatever the length is, so that in a column of
less than four bytes it reads bytes of the page number as well. A key is given here by the number
that is read of it and by the identifier: the comparator sees nothing else.
-/

namespace MiniOB.BplusTree

attribute [local instance] Key.lexOrder

/-! ### Keys of a column -/

/-- The bits of a user key among the 32 that `compare_int` reads. -/
def userKeyBits (attrLength : Nat) : Nat := 8 * min attrLength 4

/-- The number is one of the column: its bytes are those that the column has. -/
def FitsColumn (attrLength : Nat) (userKey : Int) : Prop :=
  userKey.bmod (2 ^ userKeyBits attrLength) = userKey

instance (attrLength : Nat) (userKey : Int) : Decidable (FitsColumn attrLength userKey) :=
  inferInstanceAs (Decidable (_ = _))

/-- What `compare_int` reads at the beginning of the key that `make_key` makes: the bytes of the
user key, the lowest ones first, and then those of the page number. -/
def readInt (attrLength : Nat) (userKey : Int) (rid : RID) : Int :=
  let bits := userKeyBits attrLength
  (userKey % 2 ^ bits + rid.pageNum % 2 ^ (32 - bits) * 2 ^ bits).bmod (2 ^ 32)

/-- `make_key`. -/
def makeKey (attrLength : Nat) (userKey : Int) (rid : RID) : Key Int :=
  ⟨readInt attrLength userKey rid, rid⟩

/-- A call on the tree of a column. -/
def Call.onColumn (attrLength : Nat) : Call Int → Call Int
  | .insertEntry userKey rid => .insertEntry (readInt attrLength userKey rid) rid
  | .deleteEntry userKey rid => .deleteEntry (readInt attrLength userKey rid) rid

/-- `BplusTreeScanner::open` on the tree of a column. The user keys themselves are compared by
four bytes of them. -/
def openColumn (attrLength : Nat) (left right : Option (Bound Int)) :
    Mtr (Key Int) RID (Except RC (Scanner (Key Int))) := do
  if intColumn.refuses left right then pure (.error .invalidArgument)
  else
    let leftKey := left.map fun bound =>
      makeKey attrLength bound.userKey (if bound.inclusive then ridMin else ridMax)
    let rightKey := right.map fun bound =>
      makeKey attrLength bound.userKey (if bound.inclusive then ridMax else ridMin)
    let scanner ← openKeys leftKey rightKey
    pure (.ok scanner)

/-- `BplusTreeHandler::get_entry` on the tree of a column. -/
def getColumnEntry (attrLength : Nat) (fuel : Nat) (userKey : Int) :
    Mtr (Key Int) RID (List RID × RC) := do
  match ← openColumn attrLength (some ⟨userKey, true⟩) (some ⟨userKey, true⟩) with
  | .error rc => pure ([], rc)
  | .ok scanner => do
    let (rids, rc) ← drain fuel scanner []
    pure (rids, if rc = .recordEof then .success else rc)

/-- The user key of a call. -/
def Call.userKey {U : Type} : Call U → U
  | .insertEntry userKey _ => userKey
  | .deleteEntry userKey _ => userKey

/-- After any calls with numbers of the column on a new tree, a scan between bounds that are in
order gives the identifiers of the entries within the bounds, each once and in the order of the
keys, and then ends; the search for a number gives those of the entries with it. -/
def RangeScanCorrect (attrLength : Nat) : Prop :=
  ∀ c : Parameters (Key Int), 4 ≤ c.leafMaxSize → 6 ≤ c.internalMaxSize →
  ∀ calls : List (Call Int), (∀ call ∈ calls, FitsColumn attrLength call.userKey) →
    (∀ userKey rid, .insertEntry userKey rid ∈ calls → IsRecord rid) →
    ∃ rcs t, execAll c (calls.map (Call.onColumn attrLength)) Tree.create = .ok rcs t
      ∧ (∀ left right, InOrder left right → (∀ bound ∈ left, FitsColumn attrLength bound.userKey) →
        (∀ bound ∈ right, FitsColumn attrLength bound.userKey) →
        ∃ scanner, openColumn attrLength left right t = .ok (.ok scanner) t
          ∧ ∀ fuel, (applyAll calls ∅).2.card < fuel → drain fuel scanner [] t
            = .ok (ridsOf (within left right) (applyAll calls ∅).2, .recordEof) t)
      ∧ ∀ userKey fuel, FitsColumn attrLength userKey → (applyAll calls ∅).2.card < fuel →
        getColumnEntry attrLength fuel userKey t
          = .ok (ridsOf (fun userKey' => decide (userKey' = userKey)) (applyAll calls ∅).2,
              .success) t

/-! ### Four bytes and more -/

section Wide

variable {attrLength : Nat}

theorem readInt_of_four_le (h : 4 ≤ attrLength) {userKey : Int}
    (hfits : FitsColumn attrLength userKey)
    (rid : RID) :
  readInt attrLength userKey rid = userKey
  := by
  have hbits : userKeyBits attrLength = 32 := by rw [userKeyBits, min_eq_right h]
  rw [FitsColumn, hbits] at hfits
  rw [readInt, hbits]
  rw [Nat.sub_self, pow_zero, Int.emod_one, zero_mul, add_zero]
  have hmod := Int.emod_bmod (x := userKey) (n := 2 ^ 32)
  rw [hfits] at hmod
  exact_mod_cast hmod

theorem openColumn_eq (h : 4 ≤ attrLength) {left right : Option (Bound Int)}
    (hleft : ∀ bound ∈ left, FitsColumn attrLength bound.userKey)
    (hright : ∀ bound ∈ right, FitsColumn attrLength bound.userKey) :
  openColumn attrLength left right = openScanner intColumn left right
  := by
  have hleftKey : (left.map fun bound =>
        makeKey attrLength bound.userKey (if bound.inclusive then ridMin else ridMax))
      = left.map intColumn.leftKey := by
    cases left with
    | none => rfl
    | some bound =>
      have hread := readInt_of_four_le h (hleft bound rfl)
      rw [Option.map_some, Option.map_some, makeKey, hread, KeyColumn.leftKey, intColumn]
      simp only [Bool.or_false]
  have hrightKey : (right.map fun bound =>
        makeKey attrLength bound.userKey (if bound.inclusive then ridMax else ridMin))
      = right.map intColumn.rightKey := by
    cases right with
    | none => rfl
    | some bound =>
      have hread := readInt_of_four_le h (hright bound rfl)
      rw [Option.map_some, Option.map_some, makeKey, hread, KeyColumn.rightKey, intColumn]
      simp only [Bool.or_false]
  rw [openColumn, openScanner]
  dsimp only
  rw [hleftKey, hrightKey]

theorem rangeScanCorrect_of_four_le (h : 4 ≤ attrLength) : RangeScanCorrect attrLength := by
  intro c hleafMax hmax calls hfits hrecords
  have hcalls : calls.map (Call.onColumn attrLength) = calls := by
    conv_rhs => rw [← List.map_id calls]
    apply List.map_congr_left
    intro call hcall
    have hread := readInt_of_four_le h (hfits call hcall)
    cases call with
    | insertEntry userKey rid => exact congrArg (Call.insertEntry · rid) (hread rid)
    | deleteEntry userKey rid => exact congrArg (Call.deleteEntry · rid) (hread rid)
  rw [hcalls]
  obtain ⟨rcs, t, hrun, hscan, hentry⟩ := rangeScan_correct c hleafMax hmax calls hrecords
  refine ⟨rcs, t, hrun, ?_, ?_⟩
  · intro left right horder hleft hright
    rw [openColumn_eq h hleft hright]
    exact hscan left right horder
  · intro userKey fuel hkey hfuel
    have hbound : ∀ bound ∈ some (⟨userKey, true⟩ : Bound Int),
        FitsColumn attrLength bound.userKey := by
      rintro bound ⟨⟩
      exact hkey
    rw [← hentry userKey fuel hfuel, getColumnEntry, openColumn_eq h hbound hbound, getEntry]
    apply congrFun
    apply bind_congr
    intro opened
    cases opened <;> rfl

end Wide

/-! ### Less than four bytes -/

/-- A column of less than four bytes with one entry, for the number five: the search for five does
not find it, since the bytes of the greatest page number make the right bound negative. -/
theorem getColumnEntry_five {attrLength : Nat} (hpos : 0 < attrLength) (hlt : attrLength < 4) :
  ∃ rcs t, execAll ⟨6, 4, ⟨0, ⟨0, 0⟩⟩⟩ ([.insertEntry 5 ⟨1, 0⟩].map (Call.onColumn attrLength))
      Tree.create = .ok rcs t
    ∧ getColumnEntry attrLength 2 5 t = .ok ([], .success) t
  := by
  obtain rfl | rfl | rfl : attrLength = 1 ∨ attrLength = 2 ∨ attrLength = 3 := by omega
  · exact ⟨[.success], _, rfl, rfl⟩
  · exact ⟨[.success], _, rfl, rfl⟩
  · exact ⟨[.success], _, rfl, rfl⟩

theorem fitsColumn_five {attrLength : Nat} (hpos : 0 < attrLength) (hlt : attrLength < 4) :
  FitsColumn attrLength 5
  := by
  obtain rfl | rfl | rfl : attrLength = 1 ∨ attrLength = 2 ∨ attrLength = 3 := by omega
  · decide
  · decide
  · decide

theorem not_rangeScanCorrect {attrLength : Nat} (hpos : 0 < attrLength) (hlt : attrLength < 4) :
  ¬ RangeScanCorrect attrLength
  := by
  intro hcorrect
  have hfive := fitsColumn_five hpos hlt
  obtain ⟨rcs, t, hrun, -, hentry⟩ := hcorrect ⟨6, 4, ⟨0, ⟨0, 0⟩⟩⟩ (le_refl 4) (le_refl 6)
    [.insertEntry 5 ⟨1, 0⟩] (by
      intro call hcall
      obtain rfl := List.mem_singleton.mp hcall
      exact hfive) (by
      intro userKey rid hmem
      cases List.mem_singleton.mp hmem
      exact ⟨by decide, by decide⟩)
  obtain ⟨rcs', t', hrun', hlost⟩ := getColumnEntry_five hpos hlt
  rw [hrun'] at hrun
  cases hrun
  have hone : (applyAll [.insertEntry 5 ⟨1, 0⟩] (∅ : Finset (Key Int))).2 = {⟨5, ⟨1, 0⟩⟩} := by
    decide +kernel
  rw [hone] at hentry
  have hfound := hentry 5 2 hfive (by decide +kernel)
  rw [hlost] at hfound
  have hrids : ridsOf (fun userKey => decide (userKey = 5)) {(⟨5, ⟨1, 0⟩⟩ : Key Int)}
      = [⟨1, 0⟩] := by
    decide +kernel
  rw [hrids] at hfound
  cases hfound

end MiniOB.BplusTree
