import MiniOB.Lib.Bisection
import MiniOB.Sql.Scan
import MiniOB.Sql.ThreeValued

/-!
# When an index scan delivers the rows of a table scan

The index scan delivers the rows among those that its bounds let through. It agrees with the
table scan exactly if the bounds let all the rows through on which the predicates hold, and if
none of the rows it looks at stops it.
-/

namespace MiniOB.Sql

open Bisection (IsOrder isOrder_of_map)
open BplusTree (IsRecord ridMin ridMax ridCompare isRecord_below)

variable {F : Doubles} {data : TableData} {predicates : List Predicate} {trxId : Int}
  {mode : ReadWriteMode} {record : Bytes} {rows rows' : List TableRow} {row : TableRow}

/-! ### Filters -/

/-- All the predicates are true of the record. -/
def Holds (F : Doubles) (data : TableData) (predicates : List Predicate) (record : Bytes) : Prop :=
  ∀ predicate ∈ predicates, predicate.getValue F data record = .ok (some true)

/-- The first predicate that is not true of the record is `NULL`. -/
def StopsAtNull (F : Doubles) (data : TableData) (predicates : List Predicate)
    (record : Bytes) : Prop :=
  ∃ before predicate rest, predicates = before ++ predicate :: rest
    ∧ Holds F data before record ∧ predicate.getValue F data record = .ok none

theorem holds_cons {predicate : Predicate} :
  Holds F data (predicate :: predicates) record
    ↔ predicate.getValue F data record = .ok (some true) ∧ Holds F data predicates record
  := by
  rw [Holds, List.forall_mem_cons]
  rfl

theorem TableScan.filter_eq_true :
  TableScan.filter F data record predicates = .ok true ↔ Holds F data predicates record
  := by
  induction predicates with
  | nil => simp [TableScan.filter, Holds]
  | cons predicate predicates ih =>
    rw [TableScan.filter, holds_cons, ← ih]
    split <;> simp_all

theorem IndexScan.filter_eq_true :
  IndexScan.filter F data record predicates = .ok true ↔ Holds F data predicates record
  := by
  induction predicates with
  | nil => simp [IndexScan.filter, Holds]
  | cons predicate predicates ih =>
    rw [IndexScan.filter, holds_cons, ← ih]
    split <;> simp_all

theorem stopsAtNull_cons {predicate : Predicate} :
  StopsAtNull F data (predicate :: predicates) record
    ↔ predicate.getValue F data record = .ok none
      ∨ predicate.getValue F data record = .ok (some true) ∧ StopsAtNull F data predicates record
  := by
  constructor
  · rintro ⟨before, null, rest, heq, hholds, hnull⟩
    cases before with
    | nil =>
      cases heq
      exact .inl hnull
    | cons head before =>
      cases heq
      obtain ⟨htrue, hholds⟩ := holds_cons.mp hholds
      exact .inr ⟨htrue, before, null, rest, rfl, hholds, hnull⟩
  · rintro (hnull | ⟨htrue, before, null, rest, rfl, hholds, hnull⟩)
    · exact ⟨[], predicate, predicates, rfl, by simp [Holds], hnull⟩
    · exact ⟨predicate :: before, null, rest, rfl, holds_cons.mpr ⟨htrue, hholds⟩, hnull⟩

/-- Where the filter of the table scan answers, that of the index scan answers the same, unless
a predicate is `NULL` before one is false. -/
theorem IndexScan.filter_eq {answer : Bool}
    (h : TableScan.filter F data record predicates = .ok answer) :
  StopsAtNull F data predicates record
      ∧ IndexScan.filter F data record predicates = .error .nullCast
    ∨ ¬ StopsAtNull F data predicates record
      ∧ IndexScan.filter F data record predicates = .ok answer
  := by
  induction predicates with
  | nil =>
    cases h
    right
    refine ⟨?_, rfl⟩
    rintro ⟨before, predicate, rest, heq, -⟩
    simp at heq
  | cons predicate predicates ih =>
    rw [TableScan.filter] at h
    rw [IndexScan.filter, stopsAtNull_cons]
    cases hvalue : predicate.getValue F data record with
    | error stop =>
      rw [hvalue] at h
      cases h
    | ok value =>
      rw [hvalue] at h
      match value with
      | none => simp
      | some false =>
        cases h
        simp
      | some true => simpa using ih h

/-! ### The table scan -/

/-- The transaction sees the row. -/
def Visible (trxId : Int) (mode : ReadWriteMode) (row : TableRow) : Prop :=
  Mvcc.visitRecord trxId row.2 mode ≠ .recordInvisible

instance (trxId : Int) (mode : ReadWriteMode) (row : TableRow) :
    Decidable (Visible trxId mode row) :=
  inferInstanceAs (Decidable (_ ≠ _))

/-- The row is one that a scan without bounds delivers. -/
def Selected (F : Doubles) (data : TableData) (predicates : List Predicate) (trxId : Int)
    (mode : ReadWriteMode) (row : TableRow) : Bool :=
  decide (Visible trxId mode row) && TableScan.filter F data row.2.data predicates = .ok true

theorem selected_iff :
  Selected F data predicates trxId mode row = true
    ↔ Visible trxId mode row ∧ Holds F data predicates row.2.data
  := by
  simp [Selected, TableScan.filter_eq_true]

/-- A table scan that comes to its end delivers the selected rows. -/
theorem TableScan.run_eq (h : TableScan.run F data predicates trxId mode rows = .ok rows') :
  rows' = rows.filter (Selected F data predicates trxId mode)
    ∧ ∀ row ∈ rows, Visible trxId mode row →
      ∃ answer, TableScan.filter F data row.2.data predicates = .ok answer
  := by
  induction rows generalizing rows' with
  | nil =>
    cases h
    simp
  | cons row rows ih =>
    rw [TableScan.run] at h
    split_ifs at h with hvisit
    · have hnot : ¬ Visible trxId mode row := not_not.mpr hvisit
      obtain ⟨heq, hfilters⟩ := ih h
      refine ⟨by simp [heq, Selected, hnot], ?_⟩
      rintro row' (_ | ⟨_, hmem⟩) hvisible
      · contradiction
      · exact hfilters row' hmem hvisible
    · have hvisible : Visible trxId mode row := hvisit
      split at h
      · cases h
      · rename_i hfilter
        cases hrun : TableScan.run F data predicates trxId mode rows with
        | error stop => simp [hrun, Except.map] at h
        | ok rest =>
          simp only [hrun, Except.map, Except.ok.injEq] at h
          obtain ⟨heq, hfilters⟩ := ih hrun
          refine ⟨by simp [← h, heq, Selected, hvisible, hfilter], ?_⟩
          rintro row' (_ | ⟨_, hmem⟩) hvisible'
          · exact ⟨true, hfilter⟩
          · exact hfilters row' hmem hvisible'
      · rename_i hfilter
        obtain ⟨heq, hfilters⟩ := ih h
        refine ⟨by simp [heq, Selected, hfilter], ?_⟩
        rintro row' (_ | ⟨_, hmem⟩) hvisible'
        · exact ⟨false, hfilter⟩
        · exact hfilters row' hmem hvisible'

/-! ### The entries of an index -/

/-- User keys are compared by an order of their strings or numbers. -/
theorem isOrder_attrCompare (field : FieldMeta) :
  IsOrder (fun _ => True) (attrCompare field)
  := by
  by_cases htype : field.type = .chars
  · have heq : attrCompare field
        = fun k₁ k₂ => compareStr (keyString field.len k₁) (keyString field.len k₂) := by
      funext k₁ k₂
      rw [attrCompare, if_pos htype]
    rw [heq]
    exact isOrder_of_map (fun _ _ => (isOrderOf_compareStr _ _).neg)
      fun _ _ => (isOrderOf_compareStr _ _).zero
  · have heq : attrCompare field
        = fun k₁ k₂ => ((keyNumber k₁).toInt - (keyNumber k₂).toInt).sign := by
      funext k₁ k₂
      rw [attrCompare, if_neg htype]
    rw [heq]
    exact isOrder_of_map (fun _ _ => (isOrderOf_sign _ _).neg) fun _ _ => (isOrderOf_sign _ _).zero

theorem isOrder_ridCompare : IsOrder (fun _ => True) ridCompare := by
  constructor
  · intro a b _ _
    rw [ridCompare, ridCompare]
    split_ifs <;> omega
  · intro a b c _ _ _ hab hbc
    rw [ridCompare] at hab hbc ⊢
    split_ifs at hab hbc ⊢ <;> omega

/-- The entries of an index are compared by an order. -/
theorem isOrder_keyCompare (field : FieldMeta) :
  IsOrder (fun _ => True) (keyCompare field)
  :=
  ((isOrder_attrCompare field).comap fun _ _ => trivial).lex
    (isOrder_ridCompare.comap fun _ _ => trivial)

/-- The entry lies between the bounds, with the smallest `RID` behind the left one and the largest
behind the right one. -/
def InRange (field : FieldMeta) (left right : Str) (entry : Str × RID) : Prop :=
  0 ≤ keyCompare field entry (left, ridMin) ∧ keyCompare field entry (right, ridMax) ≤ 0

instance (field : FieldMeta) (left right : Str) (entry : Str × RID) :
    Decidable (InRange field left right entry) :=
  inferInstanceAs (Decidable (_ ∧ _))

/-- In the order of the keys, the entries delivered are those between the bounds. -/
theorem scanEntries_eq {field : FieldMeta} {left right : Str} {entries : List (Str × RID)}
    (hsorted : entries.Pairwise fun a b => keyCompare field a b ≤ 0) :
  scanEntries field left right entries = entries.filter (InRange field left right)
  := by
  have horder := isOrder_keyCompare field
  induction entries with
  | nil => rfl
  | cons entry entries ih =>
    obtain ⟨hhead, htail⟩ := List.pairwise_cons.mp hsorted
    rw [scanEntries] at ih ⊢
    by_cases hleft : keyCompare field entry (left, ridMin) < 0
    · have hnot : ¬ InRange field left right entry := fun hin => by
        have := hin.1
        omega
      rw [List.dropWhile_cons_of_pos (by simpa using hleft), List.filter_cons_of_neg (by simpa),
        ih htail]
    · rw [List.dropWhile_cons_of_neg (by simpa using hleft)]
      by_cases hright : 0 < keyCompare field entry (right, ridMax)
      · have hnone : ∀ e ∈ entry :: entries, ¬ InRange field left right e := by
          rintro e (_ | ⟨_, hmem⟩) ⟨-, hle⟩
          · omega
          · have := horder.trans _ _ _ trivial trivial trivial (hhead e hmem) hle
            omega
        rw [List.takeWhile_cons_of_neg (by simpa using hright), eq_comm,
          List.filter_eq_nil_iff]
        simpa using hnone
      · have hge : ∀ e ∈ entries, ¬ keyCompare field e (left, ridMin) < 0 := fun e hmem hlt =>
          hleft (horder.lt_of_le_of_lt trivial trivial trivial (hhead e hmem) hlt)
        have hin : InRange field left right entry := ⟨by omega, by omega⟩
        have hdrop : entries.dropWhile (fun entry => keyCompare field entry (left, ridMin) < 0)
            = entries := by
          cases entries with
          | nil => rfl
          | cons next _ =>
            rw [List.dropWhile_cons_of_neg]
            simpa using hge next List.mem_cons_self
        rw [List.takeWhile_cons_of_pos (by simpa using hright), List.filter_cons_of_pos (by simpa),
          ← ih htail, hdrop]

/-! ### The index scan -/

/-- The row stops an index scan that comes across it. -/
def StopsScan (F : Doubles) (data : TableData) (predicates : List Predicate) (trxId : Int)
    (mode : ReadWriteMode) (row : TableRow) : Prop :=
  Visible trxId mode row ∧ (StopsAtNull F data predicates row.2.data
    ∨ Holds F data predicates row.2.data ∧ Mvcc.visitRecord trxId row.2 mode ≠ .success)

/-- The entry of an index on the field for the row. -/
def entryOf (field : FieldMeta) (row : TableRow) : Str × RID :=
  (Memory.read row.2.data field.offset field.len, row.1)

/-- An index scan over the entries of rows comes to its end exactly if none of them stops it,
and then delivers the selected ones. -/
theorem IndexScan.run_iff {field : FieldMeta} (hrids : (data.rows.map Prod.fst).Nodup)
    (hmem : ∀ row ∈ rows, row ∈ data.rows)
    (hfilters : ∀ row ∈ rows, Visible trxId mode row →
      ∃ answer, TableScan.filter F data row.2.data predicates = .ok answer) :
  IndexScan.run F data predicates trxId mode (rows.map (entryOf field)) = .ok rows'
    ↔ (∀ row ∈ rows, ¬ StopsScan F data predicates trxId mode row)
      ∧ rows' = rows.filter (Selected F data predicates trxId mode)
  := by
  induction rows generalizing rows' with
  | nil => simp [IndexScan.run, eq_comm]
  | cons row rows ih =>
    have ih := fun rows' => @ih rows' (fun row' hrow' => hmem row' (List.mem_cons_of_mem _ hrow'))
      (fun row' hrow' => hfilters row' (List.mem_cons_of_mem _ hrow'))
    have hfind : data.rows.find? (fun other => other.1 = (entryOf field row).2) = some row := by
      obtain ⟨i, hi, hrow⟩ := List.getElem_of_mem (hmem row List.mem_cons_self)
      rw [List.find?_eq_some_iff_getElem]
      refine ⟨by simp [entryOf], i, hi, hrow, ?_⟩
      intro j hj
      have hne := List.pairwise_iff_getElem.mp hrids j i (by simp; omega) (by simpa) hj
      simpa [entryOf, ← hrow] using hne
    rw [List.map_cons, IndexScan.run, hfind, List.forall_mem_cons]
    dsimp only
    by_cases hvisit : Mvcc.visitRecord trxId row.2 mode = .recordInvisible
    · have hnot : ¬ Visible trxId mode row := not_not.mpr hvisit
      have hnostop : ¬ StopsScan F data predicates trxId mode row := fun hstop => hnot hstop.1
      rw [if_pos hvisit, ih, List.filter_cons_of_neg (by simp [Selected, hnot])]
      simp [hnostop]
    · rw [if_neg hvisit]
      have hvisible : Visible trxId mode row := hvisit
      obtain ⟨answer, hanswer⟩ := hfilters row List.mem_cons_self hvisible
      obtain ⟨hnull, hfilter⟩ | ⟨hnull, hfilter⟩ := IndexScan.filter_eq hanswer
      · have hstop : StopsScan F data predicates trxId mode row := ⟨hvisible, .inl hnull⟩
        simp [hfilter, hstop]
      · rw [hfilter]
        cases answer with
        | false =>
          have hnot : ¬ Holds F data predicates row.2.data := by
            rw [← TableScan.filter_eq_true, hanswer]
            simp
          have hnostop : ¬ StopsScan F data predicates trxId mode row := by
            rintro ⟨-, hnull' | ⟨hholds, -⟩⟩
            · exact hnull hnull'
            · exact hnot hholds
          dsimp only
          rw [ih, List.filter_cons_of_neg (by simp [Selected, hanswer])]
          simp [hnostop]
        | true =>
          have hholds := TableScan.filter_eq_true.mp hanswer
          dsimp only
          split_ifs with hsuccess
          · have hnostop : ¬ StopsScan F data predicates trxId mode row := by
              rintro ⟨-, hnull' | ⟨-, hne⟩⟩
              · exact hnull hnull'
              · exact hne hsuccess
            rw [List.filter_cons_of_pos (by simp [Selected, hvisible, hanswer])]
            cases hrun : IndexScan.run F data predicates trxId mode (rows.map (entryOf field)) with
            | error stop =>
              have hnone := (ih (rows.filter (Selected F data predicates trxId mode))).not.mp
                (by rw [hrun]; simp)
              simp only [Except.map, reduceCtorEq, false_iff, not_and]
              intro hstops _
              exact hnone ⟨hstops.2, rfl⟩
            | ok rest =>
              obtain ⟨hstops, rfl⟩ := (ih rest).mp hrun
              simp only [Except.map, Except.ok.injEq]
              constructor
              · rintro rfl
                exact ⟨⟨hnostop, hstops⟩, rfl⟩
              · rintro ⟨-, rfl⟩
                rfl
          · have hstop : StopsScan F data predicates trxId mode row :=
              ⟨hvisible, .inr ⟨hholds, hsuccess⟩⟩
            simp [hstop]

/-! ### Agreement -/

/-- The index is over a column of `INTS`, `DATES` or `CHARS`, its entries are those of the rows,
in the order of their keys, and no two rows have one place. -/
structure IndexedBy (data : TableData) (index : TableIndex) : Prop where
  type : index.field.type = .ints ∨ index.field.type = .dates ∨ index.field.type = .chars
  places : (data.rows.map Prod.fst).Nodup
  entries : ∃ rows : List TableRow,
    rows.Perm data.rows ∧ index.entries = rows.map (entryOf index.field)
  sorted : index.entries.Pairwise fun a b => keyCompare index.field a b ≤ 0

/-- The index scan can be opened for the constant, its bounds let every row through that the
scan of the whole table selects, and no row that they let through stops it. -/
def IndexServes (F : Doubles) (data : TableData) (predicates : List Predicate) (trxId : Int)
    (mode : ReadWriteMode) (index : TableIndex) (value : Value) (after : Bytes) : Prop :=
  ∃ left right, IndexScan.bounds index.field value after = some (left, right)
    ∧ (∀ row ∈ data.rows, Visible trxId mode row → Holds F data predicates row.2.data →
      InRange index.field left right (entryOf index.field row))
    ∧ ∀ row ∈ data.rows, InRange index.field left right (entryOf index.field row) →
      ¬ StopsScan F data predicates trxId mode row

/-- Filtering once more keeps the rows, up to their order, exactly if it drops none. -/
theorem filter_perm_iff {p q : TableRow → Bool} (hperm : rows'.Perm rows) :
  ((rows'.filter q).filter p).Perm (rows.filter p) ↔ ∀ row ∈ rows, p row = true → q row = true
  := by
  have hcomm : (rows'.filter q).filter p = (rows'.filter p).filter q := by
    rw [List.filter_filter, List.filter_filter]
    congr 1
    funext row
    exact Bool.and_comm _ _
  have hsame : (rows'.filter p).Perm (rows.filter p) := hperm.filter p
  rw [hcomm]
  constructor
  · intro h row hmem hp
    have hall : (rows'.filter p).filter q = rows'.filter p :=
      List.filter_sublist.eq_of_length (h.trans hsame.symm).length_eq
    apply List.filter_eq_self.mp hall
    rw [List.mem_filter]
    exact ⟨hperm.mem_iff.mpr hmem, hp⟩
  · intro h
    rw [List.filter_eq_self.mpr]
    · exact hsame
    · intro row hmem
      obtain ⟨hmem, hp⟩ := List.mem_filter.mp hmem
      exact h row (hperm.mem_iff.mp hmem) hp

/-- An index scan delivers the rows of the table scan, up to their order, exactly if the index
serves. -/
theorem IndexScan.rows_perm_iff {index : TableIndex} {value : Value} {after : Bytes}
    (hindex : IndexedBy data index)
    (htable : TableScan.run F data predicates trxId mode data.rows = .ok rows) :
  (∃ rows', IndexScan.rows F data predicates trxId mode index value after = .ok rows'
      ∧ rows'.Perm rows)
    ↔ IndexServes F data predicates trxId mode index value after
  := by
  obtain ⟨heq, hfilters⟩ := TableScan.run_eq htable
  obtain ⟨ordered, hperm, hentries⟩ := hindex.entries
  have hsorted := hindex.sorted
  simp only [IndexScan.rows, IndexServes]
  cases hbounds : IndexScan.bounds index.field value after with
  | none => simp
  | some bounds =>
    obtain ⟨left, right⟩ := bounds
    dsimp only
    let through : TableRow → Bool := fun row =>
      InRange index.field left right (entryOf index.field row)
    have hscan : scanEntries index.field left right index.entries
        = (ordered.filter through).map (entryOf index.field) := by
      rw [scanEntries_eq hsorted, hentries, List.filter_map]
      rfl
    have hthrough : ∀ row ∈ ordered.filter through, row ∈ data.rows := by
      intro row hmem
      exact hperm.mem_iff.mp (List.mem_filter.mp hmem).1
    have hrun := fun rows' => @IndexScan.run_iff F data predicates trxId mode _ rows' index.field
      hindex.places hthrough fun row hmem => hfilters row (hthrough row hmem)
    rw [hscan, heq]
    constructor
    · rintro ⟨rows', hok, hsame⟩
      obtain ⟨hstops, rfl⟩ := (hrun rows').mp hok
      rw [filter_perm_iff hperm] at hsame
      refine ⟨left, right, rfl, ?_, ?_⟩
      · intro row hmem hvisible hholds
        simpa [through] using hsame row hmem (selected_iff.mpr ⟨hvisible, hholds⟩)
      · intro row hmem hin
        apply hstops row
        rw [List.mem_filter]
        exact ⟨hperm.mem_iff.mpr hmem, by simpa [through] using hin⟩
    · rintro ⟨left', right', hbounds', hcovers, hstops⟩
      cases hbounds'
      refine ⟨_, (hrun _).mpr ⟨?_, rfl⟩, ?_⟩
      · intro row hmem
        obtain ⟨hmem, hin⟩ := List.mem_filter.mp hmem
        exact hstops row (hperm.mem_iff.mp hmem) (by simpa [through] using hin)
      · rw [filter_perm_iff hperm]
        intro row hmem hselected
        obtain ⟨hvisible, hholds⟩ := selected_iff.mp hselected
        simpa [through] using hcovers row hmem hvisible hholds

/-- For predicates that are planned as an index scan, the plan delivers the rows of the table
scan, up to their order, exactly if the index serves. -/
theorem planRows_perm_iff {index : TableIndex} {value : Value} {after : Bytes}
    (hplan : createPlan data predicates = some (index, value)) (hindex : IndexedBy data index)
    (htable : TableScan.run F data predicates trxId mode data.rows = .ok rows) :
  (∃ rows', planRows F data predicates trxId mode after = .ok rows' ∧ rows'.Perm rows)
    ↔ IndexServes F data predicates trxId mode index value after
  := by
  rw [planRows, hplan]
  exact IndexScan.rows_perm_iff hindex htable

/-- In a key of four bytes or more, the number is that of the user key. -/
theorem keyNumber_makeKey {key : Str} (hlength : 4 ≤ key.length) (rid : RID) :
  keyNumber (makeKey (key, rid)) = keyNumber key
  := by
  have hbyte : ∀ i < 4, (makeKey (key, rid)).getD i 0 = key.getD i 0 := by
    intro i hi
    rw [makeKey, List.append_assoc, List.getD_append]
    exact hi.trans_le hlength
  rw [keyNumber, keyNumber, hbyte 3 (by decide), hbyte 2 (by decide), hbyte 1 (by decide),
    hbyte 0 (by decide)]

/-- An entry for a record is between bounds of the same number exactly if it has this number. -/
theorem inRange_iff_number {field : FieldMeta} (htype : field.type ≠ .chars) {bound key : Str}
    {rid : RID} (hbound : 4 ≤ bound.length) (hkey : 4 ≤ key.length) (hrecord : IsRecord rid) :
  InRange field bound bound (key, rid) ↔ keyNumber key = keyNumber bound
  := by
  have hpage := hrecord.page
  have hbelow := isRecord_below hrecord.below
  have hmin : 0 < ridCompare rid ridMin := by
    have hzero : ridMin.pageNum = 0 := rfl
    rw [ridCompare, if_pos (by omega)]
    omega
  have hattr : ∀ rid', attrCompare field (makeKey (key, rid)) (makeKey (bound, rid'))
      = ((keyNumber key).toInt - (keyNumber bound).toInt).sign := by
    intro rid'
    rw [attrCompare, if_neg htype, keyNumber_makeKey hkey, keyNumber_makeKey hbound]
  rw [InRange, keyCompare, keyCompare, hattr, hattr, ← BitVec.toInt_inj]
  dsimp only
  by_cases heq : (keyNumber key).toInt = (keyNumber bound).toInt
  · have hsign : ((keyNumber key).toInt - (keyNumber bound).toInt).sign = 0 := by
      rw [heq, Int.sub_self, Int.sign_zero]
    rw [if_neg (not_not.mpr hsign), if_neg (not_not.mpr hsign)]
    exact iff_of_true ⟨hmin.le, hrecord.below.le⟩ heq
  · have hsign : ((keyNumber key).toInt - (keyNumber bound).toInt).sign ≠ 0 := by
      rw [ne_eq, Int.sign_eq_zero_iff_zero]
      omega
    rw [if_pos hsign, if_pos hsign, Int.sign_nonneg_iff, Int.sign_nonpos_iff]
    omega

/-- An index over numbers of four bytes or more serves if the first bytes of the constant are the
number of each row that is selected, and no row with that number stops the scan. -/
theorem indexServes_iff_number {index : TableIndex} {value : Value} {after : Bytes}
    (htype : index.field.type ≠ .chars) (hlength : 4 ≤ index.field.len)
    (hrecords : ∀ row ∈ data.rows, IsRecord row.1) :
  IndexServes F data predicates trxId mode index value after
    ↔ (∀ row ∈ data.rows, Visible trxId mode row → Holds F data predicates row.2.data →
        keyNumber (entryOf index.field row).1
          = keyNumber (Memory.read (value.data after) 0 index.field.len))
      ∧ ∀ row ∈ data.rows,
        keyNumber (entryOf index.field row).1
            = keyNumber (Memory.read (value.data after) 0 index.field.len)
          → ¬ StopsScan F data predicates trxId mode row
  := by
  let bound := Memory.read (value.data after) 0 index.field.len
  have hin : ∀ row ∈ data.rows, InRange index.field bound bound (entryOf index.field row)
      ↔ keyNumber (entryOf index.field row).1 = keyNumber bound := by
    intro row hmem
    apply inRange_iff_number htype _ _ (hrecords row hmem)
    · rwa [Memory.length_read]
    · rwa [Memory.length_read]
  constructor
  · rintro ⟨left, right, hbounds, hcovers, hstops⟩
    rw [IndexScan.bounds, if_neg htype] at hbounds
    cases hbounds
    exact ⟨fun row hmem hvisible hholds => (hin row hmem).mp (hcovers row hmem hvisible hholds),
      fun row hmem hnumber => hstops row hmem ((hin row hmem).mpr hnumber)⟩
  · rintro ⟨hcovers, hstops⟩
    refine ⟨_, _, by rw [IndexScan.bounds, if_neg htype], ?_, ?_⟩
    · intro row hmem hvisible hholds
      exact (hin row hmem).mpr (hcovers row hmem hvisible hholds)
    · intro row hmem hbetween
      exact hstops row hmem ((hin row hmem).mp hbetween)

/-! ### A row with a `NULL` -/

/-- The table `t` with the nullable column `a` of `INTS` and an index on it, and with one row in
which `a` is `NULL`. -/
def nullTable : TableData where
  table := {
    tableId := 1
    name := "t"
    fields := [⟨"__null_bitmap", .ints, 0, 4, false, false⟩, ⟨"a", .ints, 4, 4, true, true⟩]
    sysFieldNum := 1
    recordSize := 8 }
  rows := [(⟨1, 0⟩, ⟨0, 0, fun i => if i = 0 then 2 else 0⟩)]
  indexes := [⟨⟨"a", .ints, 4, 4, true, true⟩, [([0, 0, 0, 0], ⟨1, 0⟩)]⟩]
  texts := fun _ => []

/-- The predicate `a = 0`. -/
def isZero : Predicate := ⟨.equalTo, .field "t" "a", .value (.ints 0)⟩

theorem createPlan_nullTable :
  createPlan nullTable [isZero]
    = some (⟨⟨"a", .ints, 4, 4, true, true⟩, [([0, 0, 0, 0], ⟨1, 0⟩)]⟩, .ints 0)
  := by rfl

theorem indexedBy_nullTable :
  IndexedBy nullTable ⟨⟨"a", .ints, 4, 4, true, true⟩, [([0, 0, 0, 0], ⟨1, 0⟩)]⟩
  := by
  refine ⟨.inl rfl, by simp [nullTable], ⟨nullTable.rows, .refl _, by rfl⟩, by simp⟩

theorem tableScan_nullTable :
  TableScan.run exactDoubles nullTable [isZero] 1 .readOnly nullTable.rows = .ok []
  := by rfl

theorem planRows_nullTable :
  planRows exactDoubles nullTable [isZero] 1 .readOnly (fun _ => 0) = .error .nullCast
  := by rfl

/-- The scan of the table delivers no row, while the index scan throws at the row with the
`NULL`, whose key is that of `0`. -/
theorem planRows_not_perm :
  ¬ ∀ (F : Doubles) (data : TableData) (predicates : List Predicate) (trxId : Int)
      (mode : ReadWriteMode) (after : Bytes) (index : TableIndex) (value : Value)
      (rows : List TableRow),
    createPlan data predicates = some (index, value) → IndexedBy data index
    → TableScan.run F data predicates trxId mode data.rows = .ok rows
    → ∃ rows', planRows F data predicates trxId mode after = .ok rows' ∧ rows'.Perm rows
  := by
  intro h
  obtain ⟨rows', hok, -⟩ := h exactDoubles nullTable [isZero] 1 .readOnly (fun _ => 0) _ _ []
    createPlan_nullTable indexedBy_nullTable tableScan_nullTable
  rw [planRows_nullTable] at hok
  cases hok

theorem planRows_perm_iff_nullTable :
  ¬ IndexServes exactDoubles nullTable [isZero] 1 .readOnly
      ⟨⟨"a", .ints, 4, 4, true, true⟩, [([0, 0, 0, 0], ⟨1, 0⟩)]⟩ (.ints 0) fun _ => 0
  := by
  rw [← planRows_perm_iff createPlan_nullTable indexedBy_nullTable tableScan_nullTable]
  rintro ⟨rows', hok, -⟩
  rw [planRows_nullTable] at hok
  cases hok

end MiniOB.Sql
