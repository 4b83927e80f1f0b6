import MiniOB.Record.RecordFile

/-!
# Scanning a record file

The records that a scanner has still to return are the list `rest` of `At`: what the
iterator of its page has left, followed by the records of the later pages. Every call of
`next` takes the first one off this list. With the scans, every file that the calls of
`RecordFileHandler` lead to behaves as the partial map `live`.
-/

set_option linter.unusedSectionVars false

namespace MiniOB.Record

variable {B : Type} [Inhabited B]

namespace RecordFile

/-- The records of a page from the slot `s` on. -/
def slotsFrom (f : RecordFile B) (p : Int) (s : Nat) : List (RID × B) :=
  ((List.range' s ((f.pages p).recordCapacity.toNat - s)).filter
    fun i => Bitmap.getBit (f.pages p).bitmap i).map
      fun (i : Nat) => (⟨p, i⟩, (f.pages p).records i)

/-- The records of the pages from `p` on. -/
def pagesFrom (f : RecordFile B) (p : Nat) : List (RID × B) :=
  (List.range' p (f.pageCount - p)).flatMap fun (q : Nat) => f.slotsFrom q 0

/-- The records of the file, in the order of pages and slots. -/
def records (f : RecordFile B) : List (RID × B) := f.pagesFrom 1

variable {recordSize : Nat} {f : RecordFile B}

/-! ### The slots of a page -/

theorem filter_range'_of_isFirst {p : Nat → Bool} {l u : Nat} {ret : Int}
    (h : Bitmap.IsFirst (fun i => p i = true) l u ret) :
  (ret = -1 ∧ (List.range' l (u - l)).filter p = [])
    ∨ ∃ i : Nat, ret = i
      ∧ (List.range' l (u - l)).filter p = i :: (List.range' (i + 1) (u - (i + 1))).filter p
  := by
  obtain ⟨hret, hnone⟩ | ⟨i, hret, hl, hu, hi, hmin⟩ := h
  · left
    use hret
    rw [List.filter_eq_nil_iff]
    intro j hj
    rw [List.mem_range'_1] at hj
    apply hnone j hj.1 (by omega)
  · right
    use i, hret
    have hsplit : List.range' l (u - l)
        = List.range' l (i - l) ++ i :: List.range' (i + 1) (u - (i + 1)) := by
      rw [← List.range'_succ, show u - (i + 1) + 1 = u - i by omega]
      conv_lhs => rw [show u - l = (i - l) + (u - i) by omega]
      rw [← List.range'_append_1, show l + (i - l) = i by omega]
    rw [hsplit, List.filter_append, List.filter_cons_of_pos hi, List.filter_eq_nil_iff.mpr]
    · rfl
    · intro j hj
      rw [List.mem_range'_1] at hj
      apply hmin j hj.1 (by omega)

/-- The slots from `s` on begin with the one that the search from `s` finds. -/
theorem slotsFrom_eq (f : RecordFile B) (p : Int) (s : Nat) :
  (Bitmap.nextSettedBit (f.pages p).bitmap (f.pages p).recordCapacity.toNat s = -1
      ∧ f.slotsFrom p s = [])
    ∨ ∃ i : Nat, Bitmap.nextSettedBit (f.pages p).bitmap (f.pages p).recordCapacity.toNat s = i
      ∧ f.slotsFrom p s = (⟨p, i⟩, (f.pages p).records i) :: f.slotsFrom p (i + 1)
  := by
  obtain ⟨hret, hnil⟩ | ⟨i, hret, hcons⟩ := filter_range'_of_isFirst
    (Bitmap.nextBit_isFirst true (f.pages p).bitmap (f.pages p).recordCapacity.toNat s)
  · left
    use hret
    rw [slotsFrom, hnil, List.map_nil]
  · right
    use i, hret
    rw [slotsFrom, hcons, List.map_cons, slotsFrom]

/-! ### The pages of a file -/

theorem Inv.nextPage (h : Inv recordSize f) (c : Nat) :
  f.nextPage c = if c + 1 < f.pageCount then (c + 1 : Int) else -1
  := by
  have hfirst := Bitmap.nextBit_isFirst true f.pageBits f.pageCount (c + 1)
  rw [RecordFile.nextPage, Bitmap.nextSettedBit, show ((c : Int) + 1).toNat = c + 1 by omega]
  obtain ⟨hret, hnone⟩ | ⟨i, hret, hl, hu, -, hmin⟩ := hfirst
  · rw [hret, if_neg]
    intro hlt
    apply hnone (c + 1) le_rfl hlt
    simp [h.pageBits, hlt]
  · rw [hret, if_pos (by omega)]
    by_contra hne
    apply hmin (c + 1) le_rfl (by omega)
    simp only [h.pageBits]
    simp
    omega

theorem pagesFrom_of_lt (f : RecordFile B) {p : Nat} (hp : p < f.pageCount) :
  f.pagesFrom p = f.slotsFrom p 0 ++ f.pagesFrom (p + 1)
  := by
  rw [pagesFrom, show f.pageCount - p = f.pageCount - (p + 1) + 1 by omega, List.range'_succ,
    List.flatMap_cons, pagesFrom]

theorem pagesFrom_of_le (f : RecordFile B) {p : Nat} (hp : f.pageCount ≤ p) :
  f.pagesFrom p = []
  := by
  rw [pagesFrom, show f.pageCount - p = 0 by omega]
  rfl

theorem mem_slotsFrom {p : Int} {rid : RID} {b : B} :
  (rid, b) ∈ f.slotsFrom p 0
    ↔ rid.pageNum = p ∧ 0 ≤ rid.slotNum ∧ rid.slotNum < (f.pages p).recordCapacity
      ∧ Bitmap.getBit (f.pages p).bitmap rid.slotNum.toNat = true
      ∧ (f.pages p).records rid.slotNum.toNat = b
  := by
  simp only [slotsFrom, List.mem_map, List.mem_filter, List.mem_range'_1, Prod.mk.injEq]
  constructor
  · rintro ⟨i, ⟨hi, hbit⟩, rfl, rfl⟩
    refine ⟨rfl, by simp, by dsimp only; omega, hbit, rfl⟩
  · rintro ⟨rfl, h0, hlt, hbit, rfl⟩
    refine ⟨rid.slotNum.toNat, ⟨by omega, hbit⟩, ?_, rfl⟩
    apply rid_ext
    · rfl
    · dsimp only
      omega

/-- The records of the file are the live ones. -/
theorem mem_records {rid : RID} {b : B} :
  (rid, b) ∈ f.records ↔ f.live rid = some b
  := by
  simp only [records, pagesFrom, List.mem_flatMap, List.mem_range'_1, mem_slotsFrom,
    live_eq_some, IsLive, IsRecordPage]
  constructor
  · rintro ⟨q, hq, hpage, h0, hlt, hbit, hb⟩
    rw [hpage]
    exact ⟨⟨by omega, h0, hlt, hbit⟩, hb⟩
  · rintro ⟨⟨hpage, h0, hlt, hbit⟩, hb⟩
    refine ⟨rid.pageNum.toNat, by omega, by omega, h0, ?_⟩
    rw [show ((rid.pageNum.toNat : Nat) : Int) = rid.pageNum by omega]
    exact ⟨hlt, hbit, hb⟩

/-- The order of pages and slots. -/
def Before (x y : RID × B) : Prop :=
  x.1.pageNum < y.1.pageNum ∨ (x.1.pageNum = y.1.pageNum ∧ x.1.slotNum < y.1.slotNum)

theorem pairwise_records (f : RecordFile B) :
  f.records.Pairwise Before
  := by
  rw [records, pagesFrom, List.pairwise_flatMap]
  constructor
  · intro q _
    rw [slotsFrom, List.pairwise_map]
    apply List.Pairwise.imp _ (List.Pairwise.filter _ (List.pairwise_lt_range' 1))
    intro i j hij
    right
    exact ⟨rfl, by dsimp only; omega⟩
  · apply List.Pairwise.imp _ (List.pairwise_lt_range' 1)
    rintro p q hpq ⟨rid, b⟩ hx ⟨rid', b'⟩ hy
    left
    rw [mem_slotsFrom] at hx hy
    dsimp only
    omega

/-! ### Opening a file again -/

theorem Inv.mem_initFreePages (h : Inv recordSize f) (n : Nat) :
    ∀ (c : Nat) (free : Finset Int), f.pageCount ≤ c + 1 + n → ∀ p,
      p ∈ f.initFreePages n c free
        ↔ p ∈ free ∨ (c < p ∧ f.IsRecordPage p ∧ (f.pages p).isFull = false) := by
  induction n with
  | zero =>
    intro c free hn p
    have hnone : ¬ (c < p ∧ f.IsRecordPage p ∧ (f.pages p).isFull = false) := by
      rintro ⟨hp, hpage, -⟩
      have := hpage.2
      omega
    simp [initFreePages, hnone]
  | succ n ih =>
    intro c free hn p
    simp only [initFreePages, h.nextPage c]
    by_cases hlt : c + 1 < f.pageCount
    · have hpage : f.IsRecordPage (c + 1 : Int) := ⟨by omega, by omega⟩
      have hne : (c + 1 : Int) ≠ -1 := by omega
      simp only [if_pos hlt, if_neg hne, getThisPage_of_isRecordPage hpage]
      have hrest := ih (c + 1)
        (if (!(f.pages (c + 1 : Int)).isFull) = true then insert (c + 1 : Int) free else free)
        (by omega) p
      rw [show ((c + 1 : Nat) : Int) = (c : Int) + 1 by omega] at hrest
      rw [hrest]
      by_cases hp : p = (c : Int) + 1
      · subst hp
        have hlast : (c : Int) < (c : Int) + 1 := by omega
        cases hfull : (f.pages (c + 1 : Int)).isFull with
        | false => simp only [hpage, hlast, Bool.not_false, if_true, Finset.mem_insert,
            true_or, and_self, or_true]
        | true => simp [hpage]
      · have hsame : (c : Int) + 1 < p ↔ (c : Int) < p := by omega
        rw [hsame]
        split <;> simp [hp]
    · have hnone : ¬ (c < p ∧ f.IsRecordPage p ∧ (f.pages p).isFull = false) := by
        rintro ⟨hp, hpage, -⟩
        have := hpage.2
        omega
      simp [if_neg hlt, hnone]

theorem Inv.reopen (h : Inv recordSize f) :
  Inv recordSize f.reopen
  := by
  have hfree : ∀ p, p ∈ f.reopen.freePages ↔ f.IsRecordPage p ∧ (f.pages p).isFull = false := by
    intro p
    have := h.mem_initFreePages f.pageCount 0 ∅ (by omega) p
    rw [RecordFile.reopen]
    dsimp only
    rw [show ((0 : Nat) : Int) = 0 from rfl] at this
    rw [this]
    constructor
    · rintro (hempty | ⟨-, hp⟩)
      · simp at hempty
      · apply hp
    · intro hp
      right
      have := hp.1.1
      exact ⟨by omega, hp⟩
  constructor
  case pageCount_pos => apply h.pageCount_pos
  case allocatedPages => apply h.allocatedPages
  case pageBits => apply h.pageBits
  case capacity => apply h.capacity
  case recordNum => apply h.recordNum
  case free_mem =>
    intro p hp
    apply ((hfree p).mp hp).1
  case mem_free =>
    intro p hp hfull
    apply (hfree p).mpr ⟨hp, hfull⟩

end RecordFile

namespace RecordFileScanner

open RecordFile

variable {recordSize : Nat} {f : RecordFile B}

/-- The scanner has the records `rest` still to return. -/
def At (f : RecordFile B) (scanner : RecordFileScanner) (rest : List (RID × B)) : Prop :=
  ∃ c : Nat, scanner.currentPageNum = c ∧
    match scanner.recordPageIterator with
    | none => rest = f.pagesFrom (c + 1)
    | some it => ∃ s, it.nextSlotNum = Bitmap.nextSettedBit (f.pages it.pageNum).bitmap
          (f.pages it.pageNum).recordCapacity.toNat s
        ∧ rest = f.slotsFrom it.pageNum s ++ f.pagesFrom (c + 1)

/-- The answer of the scanner takes the first record off those still to return. -/
def Yields (f : RecordFile B) (answer : Except RC (RID × B) × RecordFileScanner) :
    List (RID × B) → Prop
  | [] => answer.1 = .error .recordEof
  | record :: rest => answer.1 = .ok record ∧ At f answer.2 rest

/-- What is left of a page is either nothing or begins with the record of the iterator. -/
theorem fetchNextRecordInPage_eq {it : RecordPageIterator} {s : Nat}
    (hit : it.nextSlotNum = Bitmap.nextSettedBit (f.pages it.pageNum).bitmap
      (f.pages it.pageNum).recordCapacity.toNat s) :
  (fetchNextRecordInPage f it = none ∧ f.slotsFrom it.pageNum s = [])
    ∨ ∃ record it' s', fetchNextRecordInPage f it = some (record, it')
      ∧ it'.pageNum = it.pageNum
      ∧ it'.nextSlotNum = Bitmap.nextSettedBit (f.pages it'.pageNum).bitmap
          (f.pages it'.pageNum).recordCapacity.toNat s'
      ∧ f.slotsFrom it.pageNum s = record :: f.slotsFrom it.pageNum s'
  := by
  obtain ⟨hret, hnil⟩ | ⟨i, hret, hcons⟩ := slotsFrom_eq f it.pageNum s
  · left
    use (by simp [fetchNextRecordInPage, hit, hret]), hnil
  · right
    rw [hret] at hit
    have hne : it.nextSlotNum ≠ -1 := by omega
    simp only [fetchNextRecordInPage, hit]
    refine ⟨_, _, i + 1, rfl, rfl, ?_, hcons⟩
    dsimp only
    rw [show ((i : Int) + 1).toNat = i + 1 by omega]

theorem fetchNextPage_yields (h : Inv recordSize f) (n : Nat) :
    ∀ (c : Nat) (it : Option RecordPageIterator), f.pageCount ≤ c + 1 + n →
      Yields f (fetchNextPage f n ⟨c, it⟩) (f.pagesFrom (c + 1)) := by
  induction n with
  | zero =>
    intro c it hn
    rw [pagesFrom_of_le f (by omega)]
    rfl
  | succ n ih =>
    intro c it hn
    simp only [fetchNextPage, h.nextPage c]
    by_cases hlt : c + 1 < f.pageCount
    · have hpage : f.IsRecordPage (c + 1 : Int) := ⟨by omega, by omega⟩
      have hne : (c + 1 : Int) ≠ -1 := by omega
      simp only [if_pos hlt, if_neg hne, getThisPage_of_isRecordPage hpage]
      have hit : (iteratorOf f (c + 1 : Int)).nextSlotNum = Bitmap.nextSettedBit
          (f.pages (iteratorOf f (c + 1 : Int)).pageNum).bitmap
          (f.pages (iteratorOf f (c + 1 : Int)).pageNum).recordCapacity.toNat 0 := rfl
      have hfetch := fetchNextRecordInPage_eq hit
      rw [pagesFrom_of_lt f hlt, show ((c + 1 : Nat) : Int) = (c : Int) + 1 by omega]
      obtain ⟨hnone, hnil⟩ | ⟨record, it', s', hsome, hpn, hslot, hcons⟩ := hfetch
      · have hnil' : f.slotsFrom (c + 1 : Int) 0 = [] := hnil
        simp only [hnone, hnil', List.nil_append]
        have := ih (c + 1) (some (iteratorOf f (c + 1 : Int))) (by omega)
        simpa using this
      · have hcons' : f.slotsFrom (c + 1 : Int) 0 = record :: f.slotsFrom (c + 1 : Int) s' := hcons
        simp only [hsome, hcons', List.cons_append]
        refine ⟨rfl, c + 1, by simp, s', hslot, ?_⟩
        have hpn' : it'.pageNum = (c + 1 : Int) := hpn
        rw [hpn']
    · rw [if_neg hlt, if_pos rfl, pagesFrom_of_le f (by omega)]
      rfl

/-- Every call of `next` takes the first record off those still to return. -/
theorem next_yields (h : Inv recordSize f) {scanner : RecordFileScanner}
    {rest : List (RID × B)} (hat : At f scanner rest) :
  Yields f (next f scanner) rest
  := by
  obtain ⟨current, iterator⟩ := scanner
  obtain ⟨c, hc, hrest⟩ := hat
  dsimp only at hc hrest
  subst hc
  have hpages := fetchNextPage_yields h f.pageCount c iterator (by omega)
  cases iterator with
  | none =>
    subst hrest
    apply hpages
  | some it =>
    obtain ⟨s, hslot, rfl⟩ := hrest
    obtain ⟨hnone, hnil⟩ | ⟨record, it', s', hsome, hpn, hslot', hcons⟩ :=
      fetchNextRecordInPage_eq hslot
    · simp only [next, Option.bind_some, hnone, hnil, List.nil_append]
      apply hpages
    · simp only [next, Option.bind_some, hsome, hcons, List.cons_append]
      refine ⟨rfl, c, rfl, s', hslot', ?_⟩
      rw [hpn]

/-- A scan to the end returns the records still to return. -/
theorem scan_eq (h : Inv recordSize f) :
    ∀ {rest : List (RID × B)} {scanner : RecordFileScanner}, At f scanner rest →
      ∀ n, rest.length < n → scan f n scanner = some rest := by
  intro rest
  induction rest with
  | nil =>
    intro scanner hat n hn
    have hyields : (next f scanner).1 = .error .recordEof := next_yields h hat
    obtain ⟨n, rfl⟩ := Nat.exists_eq_succ_of_ne_zero (by omega : n ≠ 0)
    simp only [scan]
    rw [← Prod.mk.eta (p := next f scanner), hyields]
  | cons record rest ih =>
    intro scanner hat n hn
    obtain ⟨hok, hat'⟩ := next_yields h hat
    simp only [List.length_cons] at hn
    obtain ⟨n, rfl⟩ := Nat.exists_eq_succ_of_ne_zero (by omega : n ≠ 0)
    simp only [scan]
    rw [← Prod.mk.eta (p := next f scanner), hok]
    dsimp only
    rw [ih hat' n (by omega), Option.map_some]

end RecordFileScanner

/-! ### Record files are partial maps -/

open Transition RecordFile

/-- A call on a record file handler. -/
inductive Call (B : Type) where
  | insertRecord (pick : Finset Int → Int) (data : B)
  | deleteRecord (rid : RID)
  | getRecord (rid : RID)
  | visitRecord (rid : RID) (updater : B → Bool × B)
  | reopen

/-- A choice of the page at which the iteration over the free pages begins. -/
def IsPick (pick : Finset Int → Int) : Prop := ∀ s, s.Nonempty → pick s ∈ s

/-- A call on a file of records of size `recordSize` leads from `f` to `f'`. -/
def CallStep (recordSize : Nat) (f : RecordFile B) (call : Call B) (f' : RecordFile B) : Prop :=
  match call with
  | .insertRecord pick data => IsPick pick ∧ ∃ res, f.insertRecord pick data recordSize = .ok (res, f')
  | .deleteRecord rid => ∃ rc, f.deleteRecord rid = .ok (rc, f')
  | .getRecord rid => f' = f ∧ ∃ res, f.getRecord rid = .ok res
  | .visitRecord rid updater => ∃ rc, f.visitRecord rid updater = .ok (rc, f')
  | .reopen => f' = f.reopen

/-- The file behaves as the partial map `live`. -/
structure RefinesMap (recordSize : Nat) (f : RecordFile B) : Prop where
  /-- An insertion binds an identifier that was not live, unless the file is full. -/
  insertRecord : ∀ pick, IsPick pick → ∀ data,
    ∃ res f', f.insertRecord pick data recordSize = .ok (res, f')
      ∧ ((∃ rid, res = .ok rid ∧ f.live rid = none
            ∧ f'.live = Function.update f.live rid (some data))
        ∨ (res = .error .bufferpoolNobuf ∧ maxPageNum ≤ f.pageCount ∧ f'.live = f.live))
  /-- A deletion takes the record away; without a record it fails and changes nothing. -/
  deleteRecord : ∀ rid, Inv.Probe rid → ∃ rc f', f.deleteRecord rid = .ok (rc, f')
    ∧ match f.live rid with
      | some _ => rc = .success ∧ f'.live = Function.update f.live rid none
      | none => rc ≠ .success ∧ f' = f
  /-- Reading returns the record; without a record it fails. -/
  getRecord : ∀ rid, Inv.Probe rid → ∃ res, f.getRecord rid = .ok res
    ∧ match f.live rid with
      | some b => res = .ok b
      | none => ∃ rc, rc ≠ .success ∧ res = .error rc
  /-- Visiting applies the updater; without a record it fails and changes nothing. -/
  visitRecord : ∀ rid updater, Inv.Probe rid → ∃ rc f', f.visitRecord rid updater = .ok (rc, f')
    ∧ match f.live rid with
      | some b => rc = .success ∧ f'.live = Function.update f.live rid
          (some (if (updater b).1 then (updater b).2 else b))
      | none => rc ≠ .success ∧ f' = f
  /-- A scan returns every live record once, in the order of pages and slots. -/
  scan : ∃ records, (∃ n, ∀ m, n ≤ m → RecordFileScanner.scan f m .fresh = some records)
    ∧ records.Pairwise Before ∧ ∀ rid b, (rid, b) ∈ records ↔ f.live rid = some b
  recordNum : ∀ p, f.IsRecordPage p →
    (f.pages p).recordNum = countBits (f.pages p).bitmap (f.pages p).recordCapacity.toNat
  freePages : ∀ p, f.IsRecordPage p → (f.pages p).isFull = false → p ∈ f.freePages

variable {recordSize : Nat} {f f' : RecordFile B}

theorem refinesMap_of_inv (h : Inv recordSize f) (hfits : Fits recordSize) :
  RefinesMap recordSize f
  := by
  constructor
  case insertRecord =>
    intro pick hpick data
    obtain ⟨res, f', hinsert, -, hres⟩ := insertRecord_eq h hfits pick hpick data
    use res, f', hinsert, hres
  case deleteRecord =>
    intro rid hprobe
    cases hb : f.live rid with
    | some b =>
      obtain ⟨f', hdelete, -, hlive⟩ := deleteRecord_live h (live_eq_some.mp hb).1
      use .success, f', hdelete, rfl, hlive
    | none =>
      obtain ⟨rc, hrc, hdelete⟩ := deleteRecord_not_live h hprobe (live_eq_none.mp hb)
      use rc, f, hdelete, hrc
  case getRecord =>
    intro rid hprobe
    cases hb : f.live rid with
    | some b =>
      obtain ⟨hlive, rfl⟩ := live_eq_some.mp hb
      exact ⟨_, getRecord_live h hlive, rfl⟩
    | none =>
      obtain ⟨rc, hrc, hget⟩ := getRecord_not_live h hprobe (live_eq_none.mp hb)
      use .error rc, hget, rc, hrc
  case visitRecord =>
    intro rid updater hprobe
    cases hb : f.live rid with
    | some b =>
      obtain ⟨f', hvisit, -, hlive⟩ := visitRecord_live h hb updater
      use .success, f', hvisit, rfl, hlive
    | none =>
      obtain ⟨rc, hrc, hvisit⟩ := visitRecord_not_live h hprobe (live_eq_none.mp hb) updater
      use rc, f, hvisit, hrc
  case scan =>
    use f.records
    refine ⟨⟨f.records.length + 1, ?_⟩, pairwise_records f, fun rid b => mem_records⟩
    intro m hm
    have hat : RecordFileScanner.At f .fresh f.records := ⟨0, rfl, rfl⟩
    apply RecordFileScanner.scan_eq h hat m hm
  case recordNum =>
    intro p hp
    rw [h.recordNum p hp, h.capacity p hp, Int.toNat_natCast]
  case freePages => apply h.mem_free

/-- A slot is found only for a live record. -/
theorem isLive_of_findSlot {rid : RID} {illegal : RC} {slot : Nat}
    (h : f.findSlot rid illegal = .ok (.ok slot)) :
  f.IsLive rid
  := by
  rw [findSlot] at h
  cases hpage : f.getThisPage rid.pageNum with
  | error rc =>
    rw [hpage] at h
    cases h
  | ok page =>
    simp only [hpage] at h
    by_cases hcap : page.recordCapacity ≤ rid.slotNum
    · rw [if_pos hcap] at h
      cases h
    by_cases hout : rid.slotNum < 0 ∨ pageDataSize ≤ pageHeaderSize + rid.slotNum.toNat / 8
    · rw [if_neg hcap, if_pos hout] at h
      cases h
    by_cases hbit : Bitmap.getBit page.bitmap rid.slotNum.toNat = true
    · by_cases hzero : rid.pageNum = 0
      · rw [if_neg hcap, if_neg hout, if_pos hbit, if_pos hzero] at h
        cases h
      have hrecord : f.IsRecordPage rid.pageNum := by
        rw [getThisPage] at hpage
        by_cases hneg : rid.pageNum < 0
        · rw [if_pos hneg] at hpage
          cases hpage
        by_cases hcount : (f.pageCount : Int) ≤ rid.pageNum
        · rw [if_neg hneg, if_pos hcount] at hpage
          cases hpage
        exact ⟨by omega, by omega⟩
      rw [getThisPage_of_isRecordPage hrecord] at hpage
      cases hpage
      exact ⟨hrecord, by omega, by omega, hbit⟩
    · rw [if_neg hcap, if_neg hout, if_neg hbit] at h
      cases h

theorem inv_callStep (h : Inv recordSize f) (hfits : Fits recordSize) {call : Call B}
    (hs : CallStep recordSize f call f') :
  Inv recordSize f'
  := by
  cases call with
  | insertRecord pick data =>
    obtain ⟨hpick, res, hres⟩ := hs
    obtain ⟨res', f'', hinsert, hinv, -⟩ := insertRecord_eq h hfits pick hpick data
    rw [hinsert] at hres
    cases hres
    apply hinv
  | deleteRecord rid =>
    obtain ⟨rc, hrc⟩ := hs
    by_cases hlive : f.IsLive rid
    · obtain ⟨f'', hdelete, hinv, -⟩ := deleteRecord_live h hlive
      rw [hdelete] at hrc
      cases hrc
      apply hinv
    · rw [deleteRecord] at hrc
      split at hrc
      · cases hrc
      · cases hrc
        apply h
      · rename_i slot hslot
        exact absurd (isLive_of_findSlot hslot) hlive
  | getRecord rid =>
    obtain ⟨rfl, -⟩ := hs
    apply h
  | visitRecord rid updater =>
    obtain ⟨rc, hrc⟩ := hs
    by_cases hlive : f.IsLive rid
    · obtain ⟨f'', hvisit, hinv, -⟩ := visitRecord_live h (live_eq_some.mpr ⟨hlive, rfl⟩) updater
      rw [hvisit] at hrc
      cases hrc
      apply hinv
    · rw [visitRecord, getRecord] at hrc
      split at hrc
      · cases hrc
      · cases hrc
        apply h
      · rename_i data hdata
        split at hdata
        · cases hdata
        · cases hdata
        · rename_i slot hslot
          exact absurd (isLive_of_findSlot hslot) hlive
  | reopen =>
    obtain rfl := hs
    apply h.reopen

/-- Every file that calls of the record file handler lead to behaves as a partial map. -/
theorem record_file_refines_map (recordSize : Nat) (hfits : Fits recordSize)
    (bufferPoolId : Int) (h : List (RecordFile B × Call B)) (f : RecordFile B)
    (hrun : Run (CallStep recordSize) (create bufferPoolId) h f) :
  RefinesMap recordSize f
  := by
  have hinv : Inv recordSize f := by
    apply hrun.invariant (inv_create recordSize bufferPoolId)
    intro f call f' hf hs
    apply inv_callStep hf hfits hs
  apply refinesMap_of_inv hinv hfits

/-- A file of records of size `8` after an insertion. -/
theorem record_file_refines_map_inserted :
  ∃ (h : List (RecordFile Nat × Call Nat)) (f : RecordFile Nat) (rid : RID),
    Run (CallStep 8) (create 0) h f ∧ f.live rid = some 7 ∧ RefinesMap 8 f
  := by
  have hfits : Fits 8 := by decide
  let pick : Finset Int → Int := fun s => if h : s.Nonempty then h.choose else 0
  have hpick : IsPick pick := by
    intro s hs
    simp only [pick, dif_pos hs]
    apply hs.choose_spec
  obtain ⟨res, f, hinsert, -, ⟨rid, rfl, -, hlive⟩ | ⟨-, hmax, -⟩⟩ :=
    insertRecord_eq (inv_create 8 0) hfits pick hpick 7
  · have hrun : Run (CallStep 8) (create 0) [(create 0, .insertRecord pick 7)] f :=
      Run.refl.tail ⟨hpick, _, hinsert⟩
    refine ⟨_, f, rid, hrun, ?_, record_file_refines_map 8 hfits 0 _ f hrun⟩
    rw [hlive, Function.update_self]
  · have hsmall : ¬ maxPageNum ≤ 1 := by decide
    exact absurd hmax hsmall

end MiniOB.Record
