import MiniOB.Lib.Chunks
import MiniOB.Record.Scanner

/-!
# Scanning a record file again

Opening a `RecordFileScanner` again takes it back to the first page, but leaves the iterator
over the page at which its last scan stopped as it was. What that iterator has left comes first,
and then all records of the file. `TableScanPhysicalOperator` of
`sql/operator/table_scan_physical_operator.cpp` keeps such a scanner; which records it passes on
is given by what `visit_record` and its predicates say of them.
-/

set_option linter.unusedSectionVars false

namespace MiniOB.Record

open RecordFile

variable {B : Type} [Inhabited B]

namespace RecordFileScanner

/-- A new scanner. -/
def new : RecordFileScanner where
  currentPageNum := -1
  recordPageIterator := none

/-- `RecordFileScanner::close_scan`. It lets go of the buffer pool and of the page that the
handler has pinned, and leaves both iterators as they are. -/
def closeScan (scanner : RecordFileScanner) : RecordFileScanner := scanner

/-- `RecordFileScanner::open_scan`, where `BufferPoolIterator::init` goes to the page `1`. -/
def openScan (scanner : RecordFileScanner) : RecordFileScanner :=
  { scanner.closeScan with currentPageNum := 0 }

/-- The scanner after `n` calls of `next`. -/
def nextTimes (f : RecordFile B) : Nat → RecordFileScanner → RecordFileScanner
  | 0, scanner => scanner
  | n + 1, scanner => nextTimes f n (next f scanner).2

/-- The scanner after a scan of `n` calls of `next`. -/
def useScan (f : RecordFile B) (scanner : RecordFileScanner) (n : Nat) : RecordFileScanner :=
  (nextTimes f n scanner.openScan).closeScan

/-- The scanner after scans of so many calls of `next` each, the first one first. -/
def afterScans (f : RecordFile B) (scans : List Nat) : RecordFileScanner :=
  scans.foldl (useScan f) new

/-- A scan to `RECORD_EOF` returns the live records of the file, each once. -/
def YieldsLive (f : RecordFile B) (scanner : RecordFileScanner) : Prop :=
  ∃ records, (∃ n, ∀ m, n ≤ m → scan f m scanner = some records)
    ∧ (records.map Prod.fst).Nodup ∧ ∀ rid b, (rid, b) ∈ records ↔ f.live rid = some b

end RecordFileScanner

namespace TableScan

variable (accepts : RID × B → Except RC Bool) (f : RecordFile B)

/-- `TableScanPhysicalOperator::next`, which reads at most `n` records. What `visit_record` and
`filter` say of a record is given by `accepts`. -/
def next : Nat → RecordFileScanner → Option (Except RC (RID × B) × RecordFileScanner)
  | 0, _ => none
  | n + 1, scanner =>
    match RecordFileScanner.next f scanner with
    | (.error rc, scanner) => some (.error rc, scanner)
    | (.ok record, scanner) =>
      match accepts record with
      | .error rc => some (.error rc, scanner)
      | .ok true => some (.ok record, scanner)
      | .ok false => next n scanner

/-- Call `next` until it fails, at most `n` times: the rows and the code of the failure. -/
def rows : Nat → RecordFileScanner → Option (List (RID × B) × RC)
  | 0, _ => none
  | n + 1, scanner =>
    match next accepts f (n + 1) scanner with
    | some (.ok record, scanner) => (rows n scanner).map fun (rest, rc) => (record :: rest, rc)
    | some (.error rc, _) => some ([], rc)
    | none => none

/-- The rows that the operator makes of records. -/
def accepted : List (RID × B) → List (RID × B) × RC
  | [] => ([], .recordEof)
  | record :: rest =>
    match accepts record with
    | .error rc => ([], rc)
    | .ok true => (record :: (accepted rest).1, (accepted rest).2)
    | .ok false => accepted rest

/-- The operator returns what it accepts of the records of the file. -/
def ReturnsTable (scanner : RecordFileScanner) : Prop :=
  ∃ n, ∀ m, n ≤ m → rows accepts f m scanner = some (accepted accepts f.records)

end TableScan

namespace RecordFileScanner

/-- The records of the pages from `p` on, page by page. -/
def pageLists (f : RecordFile B) (p : Nat) : List (List (RID × B)) :=
  (List.range' p (f.pageCount - p)).map fun (q : Nat) => f.slotsFrom q 0

/-- What scans of so many calls of `next` each leave of the page at which the last one stopped. A
scan without a call leaves it as it was. -/
def pending (f : RecordFile B) (scans : List Nat) : List (RID × B) :=
  scans.foldl (fun rest n => Chunks.unread (rest :: pageLists f 1) n) []

variable {recordSize : Nat} {f : RecordFile B} {scanner : RecordFileScanner}
  {rest : List (RID × B)}

/-! ### What the iterator over a page has left -/

/-- The iterator over a page has the records `rest` left. -/
def Left (f : RecordFile B) (scanner : RecordFileScanner) (rest : List (RID × B)) : Prop :=
  match scanner.recordPageIterator with
  | none => rest = []
  | some it => ∃ s, it.nextSlotNum = Bitmap.nextSettedBit (f.pages it.pageNum).bitmap
        (f.pages it.pageNum).recordCapacity.toNat s
      ∧ rest = f.slotsFrom it.pageNum s

/-- A scanner returns what the iterator has left, and the records of the later pages. -/
theorem At.of_left {c : Nat} (hc : scanner.currentPageNum = c) (h : Left f scanner rest) :
  At f scanner (rest ++ f.pagesFrom (c + 1))
  := by
  refine ⟨c, hc, ?_⟩
  unfold Left at h
  cases hit : scanner.recordPageIterator with
  | none =>
    rw [hit] at h
    dsimp only at h ⊢
    rw [h, List.nil_append]
  | some it =>
    rw [hit] at h
    obtain ⟨s, hslot, rfl⟩ := h
    exact ⟨s, hslot, rfl⟩

theorem pageLists_of_lt {p : Nat} (hp : p < f.pageCount) :
  pageLists f p = f.slotsFrom p 0 :: pageLists f (p + 1)
  := by
  rw [pageLists, show f.pageCount - p = f.pageCount - (p + 1) + 1 by omega, List.range'_succ,
    List.map_cons, pageLists]

theorem pageLists_of_le {p : Nat} (hp : f.pageCount ≤ p) : pageLists f p = [] := by
  rw [pageLists, show f.pageCount - p = 0 by omega]
  rfl

/-- The records of the page lists are those of the file. -/
theorem mem_records_of_mem_pageLists {x : RID × B} {page : List (RID × B)}
    (hpage : page ∈ pageLists f 1) (hx : x ∈ page) :
  x ∈ f.records
  := by
  obtain ⟨q, hq, rfl⟩ := List.mem_map.mp hpage
  rw [records, pagesFrom]
  exact List.mem_flatMap.mpr ⟨q, hq, hx⟩

/-- After a call of `next` at the end of a page, the page reached later has left what the next
call takes it to. -/
theorem fetchNextPage_left (h : Inv recordSize f) (n : Nat) :
    ∀ (c : Nat) (it : Option RecordPageIterator), f.pageCount ≤ c + 1 + n →
      Left f ⟨c, it⟩ [] →
      ∃ (c' : Nat) (rest : List (RID × B)),
        (fetchNextPage f n ⟨c, it⟩).2.currentPageNum = c'
        ∧ Left f (fetchNextPage f n ⟨c, it⟩).2 rest
        ∧ ∀ k, Chunks.unread (pageLists f (c + 1)) (k + 1)
            = Chunks.unread (rest :: pageLists f (c' + 1)) k := by
  induction n with
  | zero =>
    intro c it hn hleft
    refine ⟨c, [], rfl, hleft, ?_⟩
    intro k
    rw [pageLists_of_le (by omega)]
    cases k <;> rfl
  | succ n ih =>
    intro c it hn hleft
    simp only [fetchNextPage, h.nextPage c]
    by_cases hlt : c + 1 < f.pageCount
    · have hpage : f.IsRecordPage (c + 1 : Int) := ⟨by omega, by omega⟩
      have hne : (c + 1 : Int) ≠ -1 := by omega
      simp only [if_pos hlt, if_neg hne, getThisPage_of_isRecordPage hpage]
      have hit : (iteratorOf f (c + 1 : Int)).nextSlotNum = Bitmap.nextSettedBit
          (f.pages (iteratorOf f (c + 1 : Int)).pageNum).bitmap
          (f.pages (iteratorOf f (c + 1 : Int)).pageNum).recordCapacity.toNat 0 := rfl
      rw [pageLists_of_lt hlt, show ((c + 1 : Nat) : Int) = (c : Int) + 1 by omega]
      obtain ⟨hnone, hnil⟩ | ⟨record, it', s', hsome, hpn, hslot, hcons⟩ :=
        fetchNextRecordInPage_eq hit
      · -- the page is empty, and the loop goes on
        have hnil' : f.slotsFrom (c + 1 : Int) 0 = [] := hnil
        have hleft' : Left f ⟨c + 1, some (iteratorOf f (c + 1 : Int))⟩ [] := ⟨0, hit, hnil.symm⟩
        obtain ⟨c', rest, hc', hrest, hunread⟩ :=
          ih (c + 1) (some (iteratorOf f (c + 1 : Int))) (by omega) (by simpa using hleft')
        simp only [hnone, hnil', Chunks.unread_nil_succ]
        exact ⟨c', rest, by simpa using hc', by simpa using hrest, hunread⟩
      · have hcons' : f.slotsFrom (c + 1 : Int) 0 = record :: f.slotsFrom (c + 1 : Int) s' := hcons
        have hpn' : it'.pageNum = (c + 1 : Int) := hpn
        simp only [hsome, hcons', Chunks.unread_cons_succ]
        refine ⟨c + 1, f.slotsFrom (c + 1 : Int) s', by simp, ⟨s', hslot, ?_⟩, fun k => rfl⟩
        rw [hpn']
    · rw [if_neg hlt, if_pos rfl]
      refine ⟨c, [], rfl, hleft, ?_⟩
      intro k
      rw [pageLists_of_le (by omega)]
      cases k <;> rfl

/-- A call of `next` reads one record on. -/
theorem next_left (h : Inv recordSize f) {c : Nat} (hc : scanner.currentPageNum = c)
    (hleft : Left f scanner rest) :
  ∃ (c' : Nat) (rest' : List (RID × B)), (next f scanner).2.currentPageNum = c'
    ∧ Left f (next f scanner).2 rest'
    ∧ ∀ k, Chunks.unread (rest :: pageLists f (c + 1)) (k + 1)
        = Chunks.unread (rest' :: pageLists f (c' + 1)) k
  := by
  obtain ⟨current, iterator⟩ := scanner
  dsimp only at hc
  subst hc
  cases iterator with
  | none =>
    have hnil : rest = [] := hleft
    subst hnil
    simp only [Chunks.unread_nil_succ]
    exact fetchNextPage_left h f.pageCount c none (by omega) hleft
  | some it =>
    obtain ⟨s, hslot, rfl⟩ := hleft
    obtain ⟨hnone, hnil⟩ | ⟨record, it', s', hsome, hpn, hslot', hcons⟩ :=
      fetchNextRecordInPage_eq hslot
    · simp only [next, Option.bind_some, hnone, hnil, Chunks.unread_nil_succ]
      exact fetchNextPage_left h f.pageCount c (some it) (by omega) ⟨s, hslot, hnil.symm⟩
    · simp only [next, Option.bind_some, hsome, hcons, Chunks.unread_cons_succ]
      refine ⟨c, f.slotsFrom it.pageNum s', rfl, ⟨s', hslot', ?_⟩, fun k => rfl⟩
      rw [hpn]

theorem nextTimes_left (h : Inv recordSize f) (n : Nat) :
    ∀ {scanner : RecordFileScanner} {c : Nat} {rest : List (RID × B)},
      scanner.currentPageNum = c → Left f scanner rest →
      Left f (nextTimes f n scanner) (Chunks.unread (rest :: pageLists f (c + 1)) n) := by
  induction n with
  | zero =>
    intro scanner c rest hc hleft
    rw [nextTimes, Chunks.unread_zero]
    exact hleft
  | succ n ih =>
    intro scanner c rest hc hleft
    obtain ⟨c', rest', hc', hleft', hunread⟩ := next_left h hc hleft
    rw [nextTimes, hunread]
    exact ih hc' hleft'

/-- Scans leave of a page what `pending` says. -/
theorem afterScans_left (h : Inv recordSize f) (scans : List Nat) :
  Left f (afterScans f scans) (pending f scans)
  := by
  induction scans using List.reverseRecOn with
  | nil => rfl
  | append_singleton scans n ih =>
    rw [afterScans, pending, List.foldl_append, List.foldl_append, List.foldl_cons,
      List.foldl_nil, List.foldl_cons, List.foldl_nil]
    exact nextTimes_left h n (c := 0) rfl ih

theorem pending_subset (f : RecordFile B) (scans : List Nat) :
  ∀ x ∈ pending f scans, x ∈ f.records
  := by
  induction scans using List.reverseRecOn with
  | nil => simp [pending]
  | append_singleton scans n ih =>
    intro x hx
    rw [pending, List.foldl_append, List.foldl_cons, List.foldl_nil] at hx
    obtain ⟨page, hpage, hmem⟩ := Chunks.mem_unread hx
    obtain rfl | hpage := List.mem_cons.mp hpage
    · exact ih x hmem
    · exact mem_records_of_mem_pageLists hpage hmem

/-! ### Scanning again -/

/-- The scan after others begins with what they have left of a page. -/
theorem afterScans_at (h : Inv recordSize f) (scans : List Nat) :
  At f (afterScans f scans).openScan (pending f scans ++ f.records)
  := At.of_left (c := 0) rfl (afterScans_left h scans)

theorem rids_nodup (f : RecordFile B) : (f.records.map Prod.fst).Nodup := by
  rw [List.Nodup, List.pairwise_map]
  apply List.Pairwise.imp _ (pairwise_records f)
  rintro x y (hlt | ⟨-, hlt⟩) heq
  · rw [heq] at hlt
    omega
  · rw [heq] at hlt
    omega

/-- A scan after others returns the live records if they have left nothing. -/
theorem yieldsLive_iff (h : Inv recordSize f) (scans : List Nat) :
  YieldsLive f (afterScans f scans).openScan ↔ pending f scans = []
  := by
  have hscan := scan_eq h (afterScans_at h scans)
  constructor
  · rintro ⟨records, ⟨n, hn⟩, hnodup, -⟩
    let m := max n ((pending f scans ++ f.records).length + 1)
    have heq := hscan m (by omega)
    rw [hn m (by omega), Option.some_inj] at heq
    rw [heq, List.map_append, List.nodup_append] at hnodup
    -- what is left is returned a second time with its page
    rw [List.eq_nil_iff_forall_not_mem]
    intro x hx
    exact hnodup.2.2 x.1 (List.mem_map_of_mem hx) x.1
      (List.mem_map_of_mem (pending_subset f scans x hx)) rfl
  · intro hnil
    rw [hnil, List.nil_append] at hscan
    exact ⟨f.records, ⟨f.records.length + 1, fun m hm => hscan m hm⟩, rids_nodup f,
      fun rid b => mem_records⟩

end RecordFileScanner

namespace TableScan

open RecordFileScanner

variable {recordSize : Nat} {f : RecordFile B} {accepts : RID × B → Except RC Bool}
  {rest : List (RID × B)} {scanner : RecordFileScanner}

/-- A call of `next` returns the first of the accepted records that the scanner has still to
return, or fails where there is none. -/
theorem next_eq (accepts : RID × B → Except RC Bool) (h : Inv recordSize f) :
    ∀ {rest : List (RID × B)} {scanner : RecordFileScanner}, At f scanner rest →
      ∀ n, rest.length < n →
      (∃ rc scanner', accepted accepts rest = ([], rc)
          ∧ next accepts f n scanner = some (.error rc, scanner'))
        ∨ ∃ record scanner' rest', next accepts f n scanner = some (.ok record, scanner')
          ∧ At f scanner' rest' ∧ rest'.length < rest.length
          ∧ accepted accepts rest
            = (record :: (accepted accepts rest').1, (accepted accepts rest').2) := by
  intro rest
  induction rest with
  | nil =>
    intro scanner hat n hn
    have hyields : (RecordFileScanner.next f scanner).1 = .error .recordEof := next_yields h hat
    obtain ⟨n, rfl⟩ := Nat.exists_eq_succ_of_ne_zero (by omega : n ≠ 0)
    left
    refine ⟨.recordEof, (RecordFileScanner.next f scanner).2, rfl, ?_⟩
    rw [next, ← Prod.mk.eta (p := RecordFileScanner.next f scanner), hyields]
  | cons record rest ih =>
    intro scanner hat n hn
    obtain ⟨hok, hat'⟩ := next_yields h hat
    rw [List.length_cons] at hn
    obtain ⟨n, rfl⟩ := Nat.exists_eq_succ_of_ne_zero (by omega : n ≠ 0)
    have hnext : next accepts f (n + 1) scanner
        = match accepts record with
          | .error rc => some (.error rc, (RecordFileScanner.next f scanner).2)
          | .ok true => some (.ok record, (RecordFileScanner.next f scanner).2)
          | .ok false => next accepts f n (RecordFileScanner.next f scanner).2 := by
      rw [next, ← Prod.mk.eta (p := RecordFileScanner.next f scanner), hok]
    rw [hnext, accepted]
    cases accepts record with
    | error rc =>
      left
      exact ⟨rc, _, rfl, rfl⟩
    | ok answer =>
      cases answer with
      | true =>
        right
        exact ⟨record, _, rest, rfl, hat', by simp, rfl⟩
      | false =>
        obtain ⟨rc, scanner', hnone, heq⟩ | ⟨record', scanner', rest', heq, hat'', hlen, hsome⟩ :=
          ih hat' n (by omega)
        · left
          exact ⟨rc, scanner', hnone, heq⟩
        · right
          refine ⟨record', scanner', rest', heq, hat'', ?_, hsome⟩
          rw [List.length_cons]
          omega

/-- The operator returns the accepted ones of the records that the scanner has still to
return. -/
theorem rows_eq (h : Inv recordSize f) (n : Nat) :
    ∀ {rest : List (RID × B)} {scanner : RecordFileScanner}, At f scanner rest →
      rest.length < n → rows accepts f n scanner = some (accepted accepts rest) := by
  induction n with
  | zero =>
    intro rest scanner hat hn
    omega
  | succ n ih =>
    intro rest scanner hat hn
    rw [rows]
    obtain ⟨rc, scanner', hnone, heq⟩ | ⟨record, scanner', rest', heq, hat', hlen, hsome⟩ :=
      next_eq accepts h hat (n + 1) hn
    · rw [heq, hnone]
    · rw [heq, hsome]
      dsimp only
      rw [ih hat' (by omega)]
      rfl

end TableScan

open RecordFileScanner

variable {recordSize : Nat} {f : RecordFile B}

/-- A scanner that has been used for scans of so many calls of `next` each, and is opened again,
returns the live records of the file if its last scan did not leave a page with records still
to return; and so does the operator over it. -/
theorem reopened_scan_iff (h : Inv recordSize f) (scans : List Nat) :
  (YieldsLive f (afterScans f scans).openScan
      ∧ ∀ accepts, TableScan.ReturnsTable accepts f (afterScans f scans).openScan)
    ↔ pending f scans = []
  := by
  constructor
  · rintro ⟨hlive, -⟩
    exact (yieldsLive_iff h scans).mp hlive
  · intro hnil
    refine ⟨(yieldsLive_iff h scans).mpr hnil, ?_⟩
    intro accepts
    have hat := afterScans_at h scans
    rw [hnil, List.nil_append] at hat
    exact ⟨f.records.length + 1, fun m hm => TableScan.rows_eq h m hat hm⟩

/-! ### A page with two records -/

/-- A file with two records of size `8` on one page. -/
def twoRecords : RecordFile Nat where
  bufferPoolId := 0
  pageCount := 2
  allocatedPages := 2
  pageBits := Bitmap.setBit (create (B := Nat) 0).pageBits 1
  pages := fun _ =>
    { (RecordPage.blank : RecordPage Nat).initEmptyPage 8 with
      recordNum := 2
      bitmap := Bitmap.setBit (Bitmap.setBit (fun _ => 0) 0) 1
      records := fun i => i }
  freePages := {1}

theorem twoRecords_page (p : Int) : twoRecords.IsRecordPage p ↔ p = 1 := by
  simp only [IsRecordPage, twoRecords]
  omega

theorem twoRecords_inv : Inv 8 twoRecords := by
  constructor
  case pageCount_pos => simp [twoRecords]
  case allocatedPages => rfl
  case pageBits =>
    intro i
    have hcreate := (inv_create (B := Nat) 8 0).pageBits i
    have hone : ((create 0 : RecordFile Nat).pageCount, twoRecords.pageCount) = (1, 2) := rfl
    obtain ⟨hone, htwo⟩ := Prod.mk.inj hone
    rw [show twoRecords.pageBits = Bitmap.setBit (create (B := Nat) 0).pageBits 1 from rfl,
      Bitmap.getBit_setBit, hcreate, hone, htwo]
    split
    · rw [decide_eq_true (by omega)]
    · rw [decide_eq_decide]
      omega
  case capacity =>
    intro p _
    rfl
  case recordNum =>
    intro p _
    have hzero : countBits (fun _ => 0) (capacityFor 8) = 0 := by
      simp [countBits, Bitmap.getBit]
    have hfirst : countBits (Bitmap.setBit (fun _ => 0) 0) (capacityFor 8) = 1 := by
      rw [countBits_setBit (by decide) (by simp [Bitmap.getBit]), hzero]
    have hsecond : countBits (Bitmap.setBit (Bitmap.setBit (fun _ => 0) 0) 1) (capacityFor 8)
        = 2 := by
      rw [countBits_setBit (by decide), hfirst]
      rw [Bitmap.getBit_setBit, if_neg (by decide)]
      simp [Bitmap.getBit]
    simp only [twoRecords, hsecond]
    rfl
  case free_mem =>
    intro p hp
    rw [twoRecords_page]
    simpa [twoRecords] using hp
  case mem_free =>
    intro p hp _
    rw [twoRecords_page] at hp
    simp [twoRecords, hp]

/-- A scan that stops after the first record leaves the second. -/
theorem twoRecords_pending : pending twoRecords [1] ≠ [] := by
  intro hnil
  have hlists : pageLists twoRecords 1 = [twoRecords.slotsFrom 1 0] := rfl
  have hlive : ∀ i : Nat, i < 2 → (⟨1, i⟩, i) ∈ twoRecords.slotsFrom 1 0 := by
    intro i hi
    rw [mem_slotsFrom]
    refine ⟨rfl, by simp, ?_, ?_, by simp [twoRecords]⟩
    · have hcap : (2 : Int) < (twoRecords.pages 1).recordCapacity := by decide
      dsimp only
      omega
    · simp only [twoRecords, Bitmap.getBit_setBit, Int.toNat_natCast]
      split
      · rfl
      · rw [if_pos (by omega)]
  rw [pending, List.foldl_cons, List.foldl_nil, hlists, Chunks.unread_nil_succ] at hnil
  have h0 := hlive 0 (by decide)
  have h1 := hlive 1 (by decide)
  cases hslots : twoRecords.slotsFrom 1 0 with
  | nil =>
    rw [hslots] at h0
    cases h0
  | cons x slots =>
    rw [hslots, Chunks.unread_cons_succ, Chunks.unread_zero] at hnil
    rw [hslots, hnil, List.mem_singleton] at h0 h1
    rw [← h0] at h1
    simp at h1

/-- The scan that follows one of a single record returns the other record twice. -/
theorem reopened_scan_repeats :
  Inv 8 twoRecords ∧ ¬ YieldsLive twoRecords (afterScans twoRecords [1]).openScan
  := ⟨twoRecords_inv, fun h => twoRecords_pending ((yieldsLive_iff twoRecords_inv [1]).mp h)⟩

/-- The scan that follows one of a single record and one to the end of the file. -/
theorem reopened_scan_iff_twoRecords :
  (YieldsLive twoRecords (afterScans twoRecords [1, 4]).openScan
      ∧ ∀ accepts,
        TableScan.ReturnsTable accepts twoRecords (afterScans twoRecords [1, 4]).openScan)
    ↔ pending twoRecords [1, 4] = []
  := reopened_scan_iff twoRecords_inv [1, 4]

end MiniOB.Record
