import MiniOB.Sql.Statement
import MiniOB.Trx.View

/-!
# The atomicity of statements

A statement on which an error strikes is atomic when it answers with an error and every
transaction that reads afterwards sees the rows from before. Nothing is undone, so this is so
exactly if the statement has not changed a row that was there before its transaction when the
error strikes, and has inserted none.
-/

namespace MiniOB.Sql

open Mvcc
open Table (Fault)

variable {D : Type} {s s' s₁ : State D} {t : TrxRef} {table : TableId}

/-! ### What a statement changes -/

/-- The record at `p` can be deleted by the transaction with the given id. -/
def Deletable (s : State D) (trxId : Int) (p : Place) : Prop :=
  ∃ r, s.store p = some r ∧ visitRecord trxId r .readWrite = .success

instance (s : State D) (trxId : Int) (p : Place) : Decidable (Deletable s trxId p) :=
  match hp : s.store p with
  | none => isFalse (by rintro ⟨r, hr, _⟩; rw [hp] at hr; cases hr)
  | some r => decidable_of_iff (visitRecord trxId r .readWrite = .success)
      (by simp [Deletable, hp])

/-- The state `s'` is `s` after `t` has deleted the records at `deleted` and has inserted
records at `inserted`. -/
structure Changed (t : TrxRef) (s : State D) (deleted inserted : List Place) (s' : State D) :
    Prop where
  inv : Inv s'
  active : ∀ u, s'.Active u ↔ s.Active u
  id : ∀ u, s'.id u = s.id u
  currentTrxId : s'.currentTrxId = s.currentTrxId
  ops : s'.ops t
    = s.ops t ++ deleted.map (Operation.mk .delete) ++ inserted.map (Operation.mk .insert)
  store : ∀ p, p ∉ inserted → s'.store p
    = if p ∈ deleted then (s.store p).map fun r => { r with endXid := -s.id t } else s.store p
  old : ∀ p ∈ deleted, Deletable s (s.id t) p
  new : ∀ p ∈ inserted, s.store p = none ∧ ∃ data, s'.store p = some ⟨-s.id t, maxTrxId, data⟩

theorem Changed.refl (h : Inv s) : Changed t s [] [] s where
  inv := h
  active u := Iff.rfl
  id u := rfl
  currentTrxId := rfl
  ops := by simp
  store p _ := by simp
  old p hp := by simp at hp
  new p hp := by simp at hp

theorem Changed.delete {deleted : List Place} {p : Place} (hc : Changed t s deleted [] s₁)
    (ht : s.Active t) (hp : p ∉ deleted) (hd : Deletable s (s.id t) p) :
  ∃ s', Mvcc.deleteRecord t p s₁ = .ok (.success, s') ∧ Changed t s (deleted ++ [p]) [] s'
  := by
  have hold := hd
  obtain ⟨r, hr, hv⟩ := hd
  have hstore : s₁.store p = some r := by
    rw [hc.store p (by simp), if_neg hp, hr]
  have ht' := (hc.active t).mpr ht
  have hv' : visitRecord (s₁.trxes t).trxId r .readWrite = .success := by
    have hid := hc.id t
    rw [State.id] at hid
    rw [hid, hv]
  have hpos : 0 < (s₁.trxes t).trxId := hc.inv.id_pos t ht'
  refine ⟨s₁.afterDelete t p r, ?_, ?_⟩
  · simp [Mvcc.deleteRecord, hstore, hv', pushOperation, hpos, State.afterDelete, State.setTrx]
  · constructor
    case inv => exact hc.inv.afterDelete ht' hstore hv'
    case active => simpa using hc.active
    case id => simpa using hc.id
    case currentTrxId => simpa using hc.currentTrxId
    case ops => simp [hc.ops]
    case old =>
      intro q hq
      rw [List.mem_append, List.mem_singleton] at hq
      obtain hq | rfl := hq
      · exact hc.old q hq
      · exact hold
    case new => simp
    case store =>
      intro q _
      rw [afterDelete_store, hc.id]
      split_ifs with hq hmem hmem
      · rw [hq, hr, Option.map_some]
      · simp [hq] at hmem
      · rw [hc.store q (by simp), if_pos (by simpa [hq] using hmem)]
      · rw [hc.store q (by simp), if_neg (by simpa [hq] using hmem)]

theorem Changed.not_deletable {deleted : List Place} {p : Place}
    (hc : Changed t s deleted [] s₁) (hp : p ∉ deleted) (hd : ¬ Deletable s (s.id t) p) :
  ∃ rc, rc ≠ .success ∧ Mvcc.deleteRecord t p s₁ = .ok (rc, s₁)
  := by
  have hstore := hc.store p (by simp)
  rw [if_neg hp] at hstore
  rw [Mvcc.deleteRecord, hstore]
  cases hr : s.store p with
  | none => exact ⟨.recordNotExist, by decide, rfl⟩
  | some r =>
    have hv : visitRecord (s₁.trxes t).trxId r .readWrite ≠ .success := by
      have hid := hc.id t
      rw [State.id] at hid
      rw [hid]
      exact fun hv => hd ⟨r, hr, hv⟩
    refine ⟨_, hv, ?_⟩
    dsimp only
    split
    · contradiction
    · rfl

theorem Changed.insert {deleted inserted : List Place} {rid : RID} {data : D}
    (hc : Changed t s deleted inserted s₁) (ht : s.Active t)
    (hfree : s.store ⟨table, rid⟩ = none) (hnew : ⟨table, rid⟩ ∉ inserted) :
  ∃ s', Mvcc.insertRecord t table (.ok rid) data s₁ = .ok (.success, s')
    ∧ Changed t s deleted (inserted ++ [⟨table, rid⟩]) s'
  := by
  have ht' := (hc.active t).mpr ht
  have hpos : 0 < (s₁.trxes t).trxId := hc.inv.id_pos t ht'
  have hstore : s₁.store ⟨table, rid⟩ = none := by
    rw [hc.store _ hnew, hfree]
    simp
  refine ⟨s₁.afterInsert t ⟨table, rid⟩ data, ?_, ?_⟩
  · simp [Mvcc.insertRecord, pushOperation, hpos, State.afterInsert, State.setTrx]
  · constructor
    case inv => exact hc.inv.afterInsert data ht' hstore
    case active => simpa using hc.active
    case id => simpa using hc.id
    case currentTrxId => simpa using hc.currentTrxId
    case ops => simp [hc.ops]
    case old => exact hc.old
    case store =>
      intro q hq
      rw [List.mem_append, List.mem_singleton, not_or] at hq
      rw [afterInsert_store, if_neg hq.2]
      exact hc.store q hq.1
    case new =>
      intro q hq
      rw [afterInsert_store, hc.id]
      split_ifs with heq
      · rw [heq]
        exact ⟨hfree, data, rfl⟩
      · apply hc.new q
        simpa [heq] using hq

/-! ### The loops -/

/-- The row can be deleted. -/
def RowDeletable (s : State D) (trxId : Int) (table : TableId) (row : ScannedRow) : Prop :=
  row.visited = .success ∧ Deletable s trxId ⟨table, row.rid⟩

instance (s : State D) (trxId : Int) (row : ScannedRow) :
    Decidable (RowDeletable s trxId table row) :=
  inferInstanceAs (Decidable (_ ∧ _))

/-- The places of the rows before the first one that cannot be deleted. -/
def deletedPlaces (s : State D) (trxId : Int) (table : TableId) (rows : List ScannedRow) :
    List Place :=
  (rows.takeWhile fun row => RowDeletable s trxId table row).map fun row => ⟨table, row.rid⟩

/-- The deleting loop goes up to the first row that cannot be deleted. -/
theorem deleteRecords_changed (ht : s.Active t) {rows : List ScannedRow} :
    ∀ {deleted : List Place} {s₁ : State D}, Changed t s deleted [] s₁ →
      (rows.map ScannedRow.rid).Nodup → (∀ row ∈ rows, ⟨table, row.rid⟩ ∉ deleted) →
      ∃ rc s', deleteRecords t table rows s₁ = .ok (rc, s')
        ∧ Changed t s (deleted ++ deletedPlaces s (s.id t) table rows) [] s'
        ∧ (rc = .success ↔ ∀ row ∈ rows, RowDeletable s (s.id t) table row) := by
  induction rows with
  | nil =>
    intro deleted s₁ hc _ _
    exact ⟨.success, s₁, rfl, by simpa [deletedPlaces] using hc, by simp⟩
  | cons row rows ih =>
    intro deleted s₁ hc hnodup hnew
    obtain ⟨hrow, hrows⟩ := List.nodup_cons.mp hnodup
    have hp : ⟨table, row.rid⟩ ∉ deleted := hnew row List.mem_cons_self
    by_cases hd : RowDeletable s (s.id t) table row
    · obtain ⟨s₂, hdelete, hc₂⟩ := hc.delete ht hp hd.2
      obtain ⟨rc, s', hloop, hc', hrc⟩ := ih hc₂ hrows (by
        intro row' hmem
        rw [List.mem_append, List.mem_singleton, not_or]
        refine ⟨hnew row' (List.mem_cons_of_mem _ hmem), ?_⟩
        intro heq
        apply hrow
        rw [List.mem_map]
        exact ⟨row', hmem, congrArg Place.rid heq⟩)
      refine ⟨rc, s', ?_, ?_, ?_⟩
      · rw [deleteRecords, deleteScannedRow, if_neg (by simp [hd.1]), hdelete]
        exact hloop
      · simpa [deletedPlaces, hd] using hc'
      · simp [hrc, hd]
    · have hstop : ∃ rc, rc ≠ .success ∧ deleteScannedRow t table row s₁ = .ok (rc, s₁) := by
        rw [deleteScannedRow]
        split_ifs with hvisit
        · exact ⟨row.visited, hvisit, rfl⟩
        · exact hc.not_deletable hp fun hd' => hd ⟨not_not.mp hvisit, hd'⟩
      obtain ⟨rc, hrc, hdelete⟩ := hstop
      refine ⟨rc, s₁, ?_, by simpa [deletedPlaces, hd] using hc, by simp [hrc, hd]⟩
      rw [deleteRecords, hdelete]
      split
      · rename_i heq
        cases heq
        contradiction
      · rfl

/-- The identifiers of the rows that are inserted before the first insertion that fails. -/
def insertedRids : List (Except Fault RID) → List RID
  | .ok rid :: rest => rid :: insertedRids rest
  | _ => []

/-- The places that `Table::insert_record` gives out are free, and differ. -/
structure Fresh (s : State D) (table : TableId) (placed : List (Except Fault RID)) : Prop where
  free : ∀ rid, .ok rid ∈ placed → s.store ⟨table, rid⟩ = none
  distinct : placed.Pairwise fun a b => ∀ rid, a = .ok rid → b ≠ .ok rid

/-- The inserting loop goes up to the first insertion that fails. -/
theorem insertRecords_changed (ht : s.Active t) {deleted : List Place}
    {rows : List (D × Except Fault RID)} :
    ∀ {inserted : List Place} {s₁ : State D}, Changed t s deleted inserted s₁ →
      Fresh s table (rows.map Prod.snd) → (∀ rid, .ok rid ∈ rows.map Prod.snd →
        ⟨table, rid⟩ ∉ inserted) →
      ∃ rc s', insertRecords t table rows s₁ = .ok (rc, s')
        ∧ Changed t s deleted
          (inserted ++ (insertedRids (rows.map Prod.snd)).map (Place.mk table)) s'
        ∧ (rc = .success ↔ ∀ row ∈ rows, ∃ rid, row.2 = .ok rid) := by
  induction rows with
  | nil =>
    intro inserted s₁ hc _ _
    exact ⟨.success, s₁, rfl, by simpa [insertedRids] using hc, by simp⟩
  | cons row rows ih =>
    obtain ⟨data, placed⟩ := row
    intro inserted s₁ hc hfresh hnew
    have hfree := hfresh.free
    obtain ⟨hhead, htail⟩ := List.pairwise_cons.mp hfresh.distinct
    cases placed with
    | error fault =>
      refine ⟨fault, s₁, ?_, by simpa [insertedRids] using hc, by simp [fault.property]⟩
      rw [insertRecords]
      split
      · rename_i s₂ heq
        simp only [Except.mapError, Mvcc.insertRecord, Except.ok.injEq, Prod.mk.injEq] at heq
        exact absurd heq.1 fault.property
      · rfl
    | ok rid =>
      have hone : ∃ s₂, Mvcc.insertRecord t table (.ok rid) data s₁ = .ok (.success, s₂)
          ∧ Changed t s deleted (inserted ++ [⟨table, rid⟩]) s₂ :=
        hc.insert ht (hfree rid (by simp)) (hnew rid (by simp))
      obtain ⟨s₂, hinsert, hc₂⟩ := hone
      obtain ⟨rc, s', hloop, hc', hrc⟩ := ih hc₂
        ⟨fun rid' hmem => hfree rid' (by simp at hmem ⊢; exact .inr hmem), htail⟩ (by
          intro rid' hmem
          rw [List.mem_append, List.mem_singleton, not_or]
          refine ⟨hnew rid' (List.mem_cons_of_mem _ hmem), ?_⟩
          intro heq
          cases heq
          exact hhead _ hmem rid rfl rfl)
      refine ⟨rc, s', ?_, ?_, ?_⟩
      · rw [insertRecords]
        simp only [Except.mapError, hinsert]
        exact hloop
      · simpa [insertedRids] using hc'
      · simp [hrc]

/-! ### What a reader sees -/

/-- The record at `p` was inserted by the transaction with the given id. -/
def Own (s : State D) (trxId : Int) (p : Place) : Prop :=
  ∃ r, s.store p = some r ∧ r.beginXid = -trxId

/-- What a transaction does to a record of its own, other than inserting it, is seen by
nobody. -/
theorem Changed.view_eq {deleted : List Place} (hc : Changed t s deleted [] s')
    (hpos : 0 < s.id t) (hown : ∀ p ∈ deleted, Own s (s.id t) p) (id : Int) :
  view s'.store id = view s.store id
  := by
  funext p
  rw [view, view, hc.store p (by simp)]
  split_ifs with hp
  · obtain ⟨r, hr, hb⟩ := hown p hp
    have hneg : r.beginXid < 0 := by omega
    have hnot : ¬ 0 < r.beginXid := by omega
    simp [hr, visitRecord, hneg, hnot]
  · rfl

/-- The transaction itself sees every other change. -/
theorem Changed.view_ne {deleted inserted : List Place} (hc : Changed t s deleted inserted s')
    (h : Inv s) (ht : s.Active t)
    (hne : inserted ≠ [] ∨ ∃ p ∈ deleted, ¬ Own s (s.id t) p) :
  view s'.store (s.id t) ≠ view s.store (s.id t)
  := by
  have hpos := h.id_pos t ht
  intro hview
  obtain hne | ⟨p, hp, hown⟩ := hne
  · obtain ⟨p, hp⟩ := List.exists_mem_of_ne_nil _ hne
    obtain ⟨hnone, data, hsome⟩ := hc.new p hp
    have := congrFun hview p
    have hnot : ¬ s.id t < 0 := by omega
    simp [view, hnone, hsome, visitRecord, hpos, hnot] at this
  · obtain ⟨r, hr, hv⟩ := hc.old p hp
    have hmem : p ∉ inserted := by
      intro hmem
      rw [(hc.new p hmem).1] at hr
      cases hr
    have hseen := congrFun hview p
    rw [view, view, hc.store p hmem, if_pos hp, hr] at hseen
    rw [visitRecord_readWrite (h.begin_ne_zero hr) (h.end_ne_zero hr)] at hv
    have hb : 0 < r.beginXid := by
      obtain hv | hv := hv
      · exact hv.1
      · exact absurd ⟨r, hr, hv.2⟩ hown
    simp only [Option.map_some, Option.bind_some] at hseen
    rw [visitRecord_readOnly (by simpa using h.begin_ne_zero hr) (by dsimp only; omega),
      visitRecord_readOnly (h.begin_ne_zero hr) (h.end_ne_zero hr)] at hseen
    grind

/-- A reader that starts after the commit sees every change. -/
theorem Changed.view_commit_ne {deleted inserted : List Place} {id : Int}
    (hc : Changed t s deleted inserted s') (h : Inv s) (ht : s.Active t) (hops : s.ops t = [])
    (hend : ∀ p r, s.store p = some r → r.endXid = maxTrxId ∨ r.endXid < s.id t)
    (hnext : s.id t < s'.nextTrxId) (hid : s'.nextTrxId < id) (hmax : id ≤ maxTrxId)
    (hne : inserted ≠ [] ∨ deleted ≠ []) :
  view (s'.afterCommit t).store id ≠ view s.store id
  := by
  have hpos := h.id_pos t ht
  have hmem : ∀ p, ⟨.insert, p⟩ ∈ s'.ops t ↔ p ∈ inserted := by
    simp [hc.ops, hops]
  have hmem' : ∀ p, ⟨.delete, p⟩ ∈ s'.ops t ↔ p ∈ deleted := by
    simp [hc.ops, hops]
  intro hview
  by_cases hins : inserted = []
  · obtain ⟨p, hp⟩ := List.exists_mem_of_ne_nil _ (hne.resolve_left (not_not.mpr hins))
    subst hins
    obtain ⟨r, hr, hv⟩ := hc.old p hp
    have hseen := congrFun hview p
    rw [view, view, afterCommit_store, commitEffect, hc.store p (by simp), if_pos hp, hr] at hseen
    rw [visitRecord_readWrite (h.begin_ne_zero hr) (h.end_ne_zero hr)] at hv
    have hb : r.beginXid ≠ -s.id t := by
      intro hb
      have := h.mem_insert hr ht hb
      simp [hops] at this
    simp only [Option.map_some, Option.bind_some, hmem, hmem', hp, if_true] at hseen
    simp only [List.not_mem_nil, if_false] at hseen
    rw [visitRecord_readOnly (by simpa using h.begin_ne_zero hr) (by dsimp only; omega),
      visitRecord_readOnly (h.begin_ne_zero hr) (h.end_ne_zero hr)] at hseen
    have := hend p r hr
    grind
  · obtain ⟨p, hp⟩ := List.exists_mem_of_ne_nil _ hins
    obtain ⟨hnone, data, hsome⟩ := hc.new p hp
    have hdel : p ∉ deleted := by
      intro hdel
      obtain ⟨r, hr, -⟩ := hc.old p hdel
      rw [hnone] at hr
      cases hr
    have hseen := congrFun hview p
    rw [view, view, afterCommit_store, commitEffect, hnone, hsome] at hseen
    simp only [Option.map_some, Option.bind_some, hmem, hmem', hp, hdel, if_true, if_false]
      at hseen
    have hv : visitRecord id (⟨s'.nextTrxId, maxTrxId, data⟩ : Record D) .readOnly = .success := by
      rw [visitRecord, if_pos (And.intro (show 0 < s'.nextTrxId by omega) (show 0 < maxTrxId by decide)),
        if_pos (And.intro (Int.le_of_lt hid) hmax)]
    simp [hv] at hseen

/-! ### Errors -/

/-- The scan of an UPDATE or the construction of a new record fails, which is before the
first record is deleted. -/
def Child.Fails (child : Child (UpdatedRow D)) : Prop :=
  child.opened ≠ .success ∨ (∃ row ∈ child.rows, ∃ fault, row.updated = .error fault)
    ∨ child.last.val ≠ .recordEof ∨ child.closed ≠ .success

/-- An error strikes: the child fails, or a record cannot be deleted or inserted. -/
def Statement.ErrorStrikes (s : State D) (trxId : Int) : Statement D → Prop
  | .update table child =>
    child.Fails ∨ (∃ row ∈ child.rows, ¬ RowDeletable s trxId table row.toScannedRow)
      ∨ ∃ row ∈ child.rows, ∃ fault, row.placed = .error fault
  | .delete _ none => False
  | .delete table (some child) =>
    child.opened ≠ .success ∨ child.last.val ≠ .recordEof
      ∨ ∃ row ∈ child.rows, ¬ RowDeletable s trxId table row

/-- The error strikes before the statement has inserted a record or deleted a record that its
transaction had not inserted itself, and it is not the scan of a DELETE that fails when no
record fails to be deleted. -/
def Statement.KeepsRows (s : State D) (trxId : Int) : Statement D → Prop
  | .update table child =>
    child.Fails
      ∨ (∀ p ∈ deletedPlaces s trxId table (child.rows.map UpdatedRow.toScannedRow),
          Own s trxId p)
        ∧ ((∀ row ∈ child.rows, RowDeletable s trxId table row.toScannedRow) →
          ∀ row, child.rows.head? = some row → ∃ fault, row.placed = .error fault)
  | .delete _ none => True
  | .delete table (some child) =>
    child.opened ≠ .success
      ∨ (∃ row ∈ child.rows, ¬ RowDeletable s trxId table row)
        ∧ ∀ p ∈ deletedPlaces s trxId table child.rows, Own s trxId p

/-- A scan delivers a row at most once, and the places that `Table::insert_record` gives out
are free and differ. -/
def Statement.WellFormed (s : State D) : Statement D → Prop
  | .update table child => (child.rows.map fun row => row.rid).Nodup
    ∧ Fresh s table (child.rows.map UpdatedRow.placed)
  | .delete _ none => True
  | .delete _ (some child) => (child.rows.map ScannedRow.rid).Nodup

theorem mapM_updated {rows : List (UpdatedRow D)} :
  (∃ row ∈ rows, ∃ fault, row.updated = .error fault)
      ∧ (∃ fault, rows.mapM UpdatedRow.updated = .error fault)
    ∨ (¬ ∃ row ∈ rows, ∃ fault, row.updated = .error fault)
      ∧ ∃ records, rows.mapM UpdatedRow.updated = .ok records ∧ records.length = rows.length
  := by
  induction rows with
  | nil => exact .inr ⟨by simp, [], rfl, rfl⟩
  | cons row rows ih =>
    rw [List.mapM_cons]
    cases hrow : row.updated with
    | error fault =>
      left
      exact ⟨⟨row, List.mem_cons_self, fault, hrow⟩, fault, rfl⟩
    | ok data =>
      obtain ⟨⟨row', hmem, hfault⟩, fault, hmap⟩ | ⟨hnone, records, hmap, hlength⟩ := ih
      · left
        exact ⟨⟨row', List.mem_cons_of_mem _ hmem, hfault⟩, fault, by rw [hmap]; rfl⟩
      · right
        refine ⟨?_, data :: records, by rw [hmap]; rfl, by simp [hlength]⟩
        rintro ⟨row', hmem, fault, hfault⟩
        obtain rfl | hmem := List.mem_cons.mp hmem
        · rw [hrow] at hfault
          cases hfault
        · exact hnone ⟨row', hmem, fault, hfault⟩

theorem insertedRids_eq_nil {rows : List (UpdatedRow D)} :
  insertedRids (rows.map UpdatedRow.placed) = []
    ↔ ∀ row, rows.head? = some row → ∃ fault, row.placed = .error fault
  := by
  cases rows with
  | nil => simp [insertedRids]
  | cons row rows =>
    cases hrow : row.placed with
    | error fault =>
      simp only [List.map_cons, hrow, insertedRids, List.head?_cons, Option.some_inj, true_iff]
      rintro _ rfl
      exact ⟨fault, hrow⟩
    | ok rid => simp [insertedRids, hrow]

/-- What the operator of a statement answers and changes when it is opened. -/
structure Opened (t : TrxRef) (s : State D) (statement : Statement D) (rc : RC)
    (deleted inserted : List Place) (s' : State D) : Prop where
  changed : Changed t s deleted inserted s'
  keeps : statement.ErrorStrikes s (s.id t) →
    (statement.KeepsRows s (s.id t)
      ↔ rc ≠ .success ∧ inserted = [] ∧ ∀ p ∈ deleted, Own s (s.id t) p)

theorem delete_opened (h : Inv s) (ht : s.Active t) {child : Child ScannedRow}
    (hw : (child.rows.map ScannedRow.rid).Nodup) :
  ∃ rc deleted inserted s', DeletePhysicalOperator.open t table (some child) s = .ok (rc, s')
    ∧ Opened t s (.delete table (some child)) rc deleted inserted s'
  := by
  rw [DeletePhysicalOperator.open]
  split_ifs with hopened
  · refine ⟨_, [], [], s, rfl, .refl h, ?_⟩
    intro _
    simp [Statement.KeepsRows, hopened]
  · obtain ⟨rc, s', hloop, hc, hrc⟩ := deleteRecords_changed ht (.refl h) hw (by simp)
    refine ⟨rc, _, [], s', hloop, hc, ?_⟩
    intro _
    simp [Statement.KeepsRows, hopened, hrc]

theorem update_opened (h : Inv s) (ht : s.Active t) {child : Child (UpdatedRow D)}
    (hw : (Statement.update table child).WellFormed s) :
  ∃ rc deleted inserted s', UpdatePhysicalOperator.open t table child s = .ok (rc, s')
    ∧ Opened t s (.update table child) rc deleted inserted s'
  := by
  obtain ⟨hnodup, hfresh⟩ := hw
  have hfails : ∀ rc : RC, rc ≠ .success → child.Fails →
      Opened t s (.update table child) rc [] [] s := by
    intro rc hrc hfails
    refine ⟨.refl h, ?_⟩
    intro _
    simp [Statement.KeepsRows, hfails, hrc]
  rw [UpdatePhysicalOperator.open]
  by_cases hopened : child.opened ≠ .success
  · exact ⟨_, [], [], s, by rw [if_pos hopened], hfails _ hopened (.inl hopened)⟩
  rw [if_neg hopened]
  obtain ⟨hrow, fault, hmap⟩ | ⟨hrow, records, hmap, hlength⟩ := @mapM_updated D child.rows
  · exact ⟨fault, [], [], s, by rw [hmap], hfails _ fault.property (.inr (.inl hrow))⟩
  rw [hmap]
  dsimp only
  split_ifs with hlast hclosed
  · exact ⟨_, [], [], s, rfl, hfails _ child.last.property (.inr (.inr (.inl hlast)))⟩
  · exact ⟨_, [], [], s, rfl, hfails _ hclosed (.inr (.inr (.inr hclosed)))⟩
  have hnot : ¬ child.Fails := by
    simp only [Child.Fails, not_or]
    exact ⟨hopened, hrow, hlast, hclosed⟩
  obtain ⟨rc, s₁, hloop, hc, hrc⟩ := @deleteRecords_changed _ s t table ht
    (child.rows.map UpdatedRow.toScannedRow) _ _ (.refl h) (by rwa [List.map_map]) (by simp)
  rw [List.nil_append] at hc
  by_cases hd : ∀ row ∈ child.rows, RowDeletable s (s.id t) table row.toScannedRow
  · have hsuccess : rc = .success := hrc.mpr (by simpa using hd)
    subst hsuccess
    have hsnd : (records.zip (child.rows.map UpdatedRow.placed)).map Prod.snd
        = child.rows.map UpdatedRow.placed := by
      rw [List.map_snd_zip (by simp [hlength])]
    obtain ⟨rc, s', hinsert, hc', hrc'⟩ := @insertRecords_changed _ s t table ht _
      (records.zip (child.rows.map UpdatedRow.placed)) _ _ hc (by rwa [hsnd]) (by simp)
    refine ⟨rc, _, _, s', by rw [hloop]; exact hinsert, hc', ?_⟩
    intro herror
    have hfault : rc ≠ .success := by
      obtain herror | ⟨row, hmem, hrow⟩ | ⟨row, hmem, fault, hfault⟩ := herror
      · contradiction
      · exact absurd (hd row hmem) hrow
      · intro hrc''
        have hall := hrc'.mp hrc''
        have hmem' : row.placed ∈ (records.zip (child.rows.map UpdatedRow.placed)).map Prod.snd := by
          rw [hsnd]
          exact List.mem_map_of_mem hmem
        obtain ⟨pair, hpair, heq⟩ := List.mem_map.mp hmem'
        obtain ⟨rid, hrid⟩ := hall pair hpair
        rw [heq, hfault] at hrid
        cases hrid
    simp only [Statement.KeepsRows, hnot, false_or, hfault, ne_eq, not_false_eq_true, true_and,
      hsnd, List.nil_append, List.map_eq_nil_iff, insertedRids_eq_nil]
    rw [and_comm]
    exact and_congr_left fun _ => ⟨fun himp => himp hd, fun hhead _ => hhead⟩
  · have hfault : rc ≠ .success := by
      intro hsuccess
      exact hd (by simpa using hrc.mp hsuccess)
    refine ⟨rc, _, [], s₁, ?_, hc, ?_⟩
    · rw [hloop]
      split
      · rename_i heq
        cases heq
        contradiction
      · rfl
    · intro _
      simp only [Statement.KeepsRows, hnot, false_or, hfault, ne_eq, not_false_eq_true, true_and]
      exact ⟨fun hkeeps => hkeeps.1, fun hown => ⟨hown, fun hall => absurd hall hd⟩⟩

theorem opened (h : Inv s) (ht : s.Active t) {statement : Statement D}
    (hw : statement.WellFormed s) (herror : statement.ErrorStrikes s (s.id t)) :
  ∃ rc deleted inserted s', statement.open t s = .ok (rc, s')
    ∧ Opened t s statement rc deleted inserted s'
  := by
  cases statement with
  | update table child => exact update_opened h ht hw
  | delete table child =>
    cases child with
    | none => exact herror.elim
    | some child => exact delete_opened h ht hw

/-! ### Statements -/

/-- The id of the transaction that a statement on the object `t` belongs to. -/
def statementId (s : State D) (t : TrxRef) : Int :=
  if (s.trxes t).started then s.id t else s.nextTrxId

/-- What holds when a session runs a statement: the transaction system is in order, its id
counter leaves room for the ids of the statement and for that of a reader after it, and
outside the mode of several operations no transaction of the session is open. -/
structure Ready (t : TrxRef) (multiOperation : Bool) (statement : Statement D) (s : State D) :
    Prop where
  inv : Inv s
  counter : s.currentTrxId + 2 < int32Max
  idle : multiOperation = false → (s.trxes t).started = false
  wellFormed : statement.WellFormed s

/-- The statement answers with an error, and what its readers see afterwards is what they saw
before. -/
def Atomic (t : TrxRef) (multiOperation : Bool) (statement : Statement D) (s : State D) : Prop :=
  ∃ rc s', statement.execute t multiOperation s = .ok (rc, s') ∧ rc ≠ .success
    ∧ ∀ id, Reader s' id → view s'.store id = view s.store id

/-- The state in which the operator of a statement is opened. -/
theorem startIfNeed_ready (h : Inv s) (hcounter : s.currentTrxId + 2 < int32Max) (t : TrxRef) :
  ∃ s₀, startIfNeed t s = .ok (.success, s₀) ∧ Inv s₀ ∧ s₀.Active t ∧ s₀.id t = statementId s t
    ∧ s₀.store = s.store ∧ s₀.currentTrxId + 1 < int32Max
    ∧ ((s.trxes t).started = false → s₀.ops t = [] ∧ s.currentTrxId < s₀.id t
      ∧ s₀.id t = s₀.currentTrxId)
  := by
  cases hstarted : (s.trxes t).started with
  | true =>
    refine ⟨s, by simp [startIfNeed, hstarted], h, hstarted, by simp [statementId, hstarted], rfl,
      by omega, by simp⟩
  | false =>
    have hc : s.currentTrxId < int32Max := by omega
    have hidle : ¬ s.Active t := by simp [State.Active, hstarted]
    have hnext := h.nextTrxId_eq hc
    have hops : s.ops t = [] := by
      rw [List.eq_nil_iff_forall_not_mem]
      exact fun op hop => hidle (h.active_of_mem t op hop)
    refine ⟨s.afterStart t, ?_, h.afterStart hc hidle, by simp, by simp [statementId, hstarted],
      rfl, ?_, ?_⟩
    · rw [State.ops] at hops
      simp [startIfNeed, hstarted, hops, State.afterStart]
    · rw [afterStart_currentTrxId, hnext]
      omega
    · intro _
      rw [afterStart_ops, afterStart_id, if_pos rfl, afterStart_currentTrxId]
      exact ⟨hops, by omega, rfl⟩

theorem keeps_store {statement : Statement D} {s₀ : State D} (hstore : s₀.store = s.store)
    (id : Int) :
  (statement.ErrorStrikes s₀ id ↔ statement.ErrorStrikes s id)
    ∧ (statement.KeepsRows s₀ id ↔ statement.KeepsRows s id)
    ∧ (statement.WellFormed s₀ ↔ statement.WellFormed s)
  := by
  have hdeletable : Deletable s₀ id = Deletable s id := by
    funext p
    rw [Deletable, hstore, Deletable]
  have hrow : ∀ table row, RowDeletable s₀ id table row = RowDeletable s id table row := by
    intro table row
    rw [RowDeletable, hdeletable, RowDeletable]
  have hplaces : deletedPlaces s₀ id = deletedPlaces s id := by
    funext table rows
    simp only [deletedPlaces, hrow]
  have hown : Own s₀ id = Own s id := by
    funext p
    rw [Own, hstore, Own]
  have hfresh : ∀ table placed, Fresh s₀ table placed ↔ Fresh s table placed := by
    intro table placed
    constructor <;> rintro ⟨hfree, hdistinct⟩ <;> exact ⟨by simpa [hstore] using hfree, hdistinct⟩
  cases statement with
  | update table child =>
    simp [Statement.ErrorStrikes, Statement.KeepsRows, Statement.WellFormed, hrow, hplaces, hown,
      hfresh]
  | delete table child =>
    cases child <;>
      simp [Statement.ErrorStrikes, Statement.KeepsRows, Statement.WellFormed, hrow, hplaces, hown]

/-- The commit of a transaction that has done nothing changes no record. -/
theorem commit_nothing (h : Inv s) (ht : s.Active t) (hops : s.ops t = [])
    (hid : s.id t < s.nextTrxId) :
  commit t s = .ok (.success, s.afterCommit t) ∧ (s.afterCommit t).store = s.store
  := by
  have hpos := h.id_pos t ht
  rw [State.id] at hpos hid
  rw [State.ops] at hops
  have hnothing : commitEffect [] s.nextTrxId s.store = s.store := by
    funext p
    simp [commitEffect]
  constructor
  · simp [commit, commitWithTrxId, hops, h.recovering t, hpos, hid, State.afterCommit,
      hnothing, pure, Except.pure, State.setTrx]
  · rw [afterCommit_store, State.ops, hops, hnothing]

/-- A commit that returns answers `SUCCESS`. -/
theorem commit_eq (h : Inv s) {rc : RC} (hcommit : commit t s = .ok (rc, s')) :
  rc = .success ∧ s' = s.afterCommit t
  := by
  have hstep : Step s (.commit t) s' := ⟨trivial, rc, hcommit⟩
  constructor
  · rw [commit, commitWithTrxId] at hcommit
    dsimp only at hcommit
    split at hcommit
    · cases hcommit
    · split_ifs at hcommit <;> cases hcommit <;> rfl
  · cases hstep.effect h.recovering with
    | same _ hgoes => exact absurd rfl (hgoes t).1
    | commit _ _ => rfl

/-- Without a commit, the readers see no change exactly if the changes are to records of the
transaction itself. -/
theorem Changed.seen_iff {deleted inserted : List Place} (hc : Changed t s deleted inserted s')
    (h : Inv s) (ht : s.Active t) :
  (∀ id, Reader s' id → view s'.store id = view s.store id)
    ↔ inserted = [] ∧ ∀ p ∈ deleted, Own s (s.id t) p
  := by
  constructor
  · intro hview
    by_contra hchanged
    have hreader : Reader s' (s.id t) := .inl ⟨t, (hc.active t).mpr ht, (hc.id t).symm⟩
    rw [not_and_or] at hchanged
    exact hc.view_ne h ht (by simpa using hchanged) (hview _ hreader)
  · rintro ⟨rfl, hown⟩ id _
    exact hc.view_eq (h.id_pos t ht) hown id

/-- With the commit of a transaction that had done nothing before, the readers see no change
exactly if there is none. -/
theorem Changed.seen_commit_iff {deleted inserted : List Place}
    (hc : Changed t s deleted inserted s') (h : Inv s) (ht : s.Active t) (hops : s.ops t = [])
    (hend : ∀ p r, s.store p = some r → r.endXid = maxTrxId ∨ r.endXid < s.id t)
    (hid : s.id t = s.currentTrxId) (hcounter : s.currentTrxId + 1 < int32Max) :
  (∃ s'', commit t s' = .ok (.success, s'')
      ∧ ∀ id, Reader s'' id → view s''.store id = view s.store id)
    ↔ inserted = [] ∧ deleted = []
  := by
  have hnext : s'.nextTrxId = s.currentTrxId + 1 := by
    rw [hc.inv.nextTrxId_eq (by rw [hc.currentTrxId]; omega), hc.currentTrxId]
  constructor
  · rintro ⟨s'', hcommit, hview⟩
    obtain ⟨-, rfl⟩ := commit_eq hc.inv hcommit
    by_contra hchanged
    rw [not_and_or] at hchanged
    have hreader : Reader (s'.afterCommit t) (s'.nextTrxId + 1) := by
      right
      rw [afterCommit_currentTrxId]
      omega
    apply hc.view_commit_ne h ht hops hend (by omega) (Int.lt_succ _) _ hchanged
      (hview _ hreader)
    rw [maxTrxId]
    omega
  · rintro ⟨rfl, rfl⟩
    obtain ⟨hcommit, hstore⟩ := commit_nothing hc.inv ((hc.active t).mpr ht)
      (by simp [hc.ops, hops]) (by rw [hc.id]; omega)
    refine ⟨_, hcommit, ?_⟩
    intro id _
    rw [hstore]
    exact hc.view_eq (h.id_pos t ht) (by simp) id

/-- A statement on which an error strikes is atomic exactly if it keeps the rows. -/
theorem atomic_iff {multiOperation : Bool} {statement : Statement D}
    (hready : Ready t multiOperation statement s)
    (herror : statement.ErrorStrikes s (statementId s t)) :
  Atomic t multiOperation statement s ↔ statement.KeepsRows s (statementId s t)
  := by
  obtain ⟨s₀, hstart, hinv, ht, hid, hstore, hcounter, hidle⟩ :=
    startIfNeed_ready hready.inv hready.counter t
  obtain ⟨herror₀, hkeeps₀, hw₀⟩ := @keeps_store _ _ statement _ hstore (statementId s t)
  rw [← hid] at herror herror₀ hkeeps₀ ⊢
  obtain ⟨rc, deleted, inserted, s₁, hopen, hopened⟩ :=
    opened hinv ht (hw₀.mpr hready.wellFormed) (herror₀.mpr herror)
  have hc := hopened.changed
  rw [← hkeeps₀, hopened.keeps (herror₀.mpr herror), Atomic, Statement.execute, SqlResult.open,
    hstart]
  simp only [hopen, ← hstore]
  cases multiOperation with
  | true =>
    rw [← hc.seen_iff hinv ht]
    simp only [SqlResult.close, if_true]
    constructor
    · rintro ⟨rc', s', hexecute, hrc, hview⟩
      obtain ⟨rfl, rfl⟩ : (if rc ≠ .success then rc else .success) = rc' ∧ s₁ = s' := by
        simpa using hexecute
      exact ⟨by simpa using hrc, hview⟩
    · rintro ⟨hrc, hview⟩
      exact ⟨rc, s₁, by rw [if_pos hrc], hrc, hview⟩
  | false =>
    obtain ⟨hops, hlt, hcurrent⟩ := hidle (hready.idle rfl)
    have hnotown : (∀ p ∈ deleted, Own s₀ (s₀.id t) p) ↔ deleted = [] := by
      constructor
      · intro hown
        rw [List.eq_nil_iff_forall_not_mem]
        intro p hp
        obtain ⟨r, hr, hb⟩ := hown p hp
        have hmem := hinv.mem_insert hr ht hb
        rw [hops] at hmem
        cases hmem
      · rintro rfl
        simp
    have hend : ∀ p r, s₀.store p = some r → r.endXid = maxTrxId ∨ r.endXid < s₀.id t := by
      intro p r hr
      rw [hstore] at hr
      obtain he | he | ⟨u, hu, he, -⟩ := hready.inv.end_owner p r hr
      · exact .inl he
      · right
        omega
      · have := hready.inv.id_pos u hu
        have := hinv.id_pos t ht
        right
        omega
    rw [hnotown, ← hc.seen_commit_iff hinv ht hops hend hcurrent hcounter]
    simp only [SqlResult.close, Bool.false_eq_true, if_false]
    constructor
    · rintro ⟨rc', s', hexecute, hrc, hview⟩
      split at hexecute
      · cases hexecute
      · rename_i closed s₂ hcommit
        obtain ⟨rfl, -⟩ := commit_eq hc.inv hcommit
        obtain ⟨rfl, rfl⟩ : (if rc ≠ .success then rc else .success) = rc' ∧ s₂ = s' := by
          simpa using hexecute
        exact ⟨by simpa using hrc, s₂, hcommit, hview⟩
    · rintro ⟨hrc, s₂, hcommit, hview⟩
      exact ⟨rc, s₂, by rw [hcommit]; simp [hrc], hrc, hview⟩

/-! ### A DELETE that meets a locked row -/

/-- A table of two rows, of which another transaction has deleted the second and not yet
committed. -/
def lockedRow : State Nat :=
  [.startIfNeed 0, .insertRecord 0 0 (.ok ⟨1, 0⟩) 10, .insertRecord 0 0 (.ok ⟨1, 1⟩) 20, .commit 0,
    .startIfNeed 1, .deleteRecord 1 ⟨0, 1, 1⟩].foldl State.after State.init

/-- The DELETE of both rows. -/
def deleteBoth : Statement Nat :=
  .delete 0 (some ⟨.success, [⟨⟨1, 0⟩, .success⟩, ⟨⟨1, 1⟩, .success⟩], ⟨.recordEof, by decide⟩,
    .success⟩)

theorem inv_lockedRow : Mvcc.Inv lockedRow := by
  have hstep : ∀ {s : State Nat} {e : Event Nat}, Mvcc.Inv s → s.currentTrxId < int32Max →
      Returns s e → Mvcc.Inv (s.after e) := by
    intro s e h hc hreturns
    apply h.step _ hreturns.step
    cases e <;> first | exact hc | trivial
  simp only [lockedRow, List.foldl_cons, List.foldl_nil]
  iterate 6 apply hstep _ (by decide +kernel) (by decide +kernel)
  exact inv_init

theorem ready_lockedRow : Ready 0 false deleteBoth lockedRow where
  inv := inv_lockedRow
  counter := by decide +kernel
  idle := by decide +kernel
  wellFormed := by
    simp [deleteBoth, Statement.WellFormed]

theorem errorStrikes_lockedRow :
  deleteBoth.ErrorStrikes lockedRow (statementId lockedRow 0)
  := by
  right; right
  exact ⟨⟨⟨1, 1⟩, .success⟩, by simp, by decide +kernel⟩

theorem atomic_iff_lockedRow :
  Atomic 0 false deleteBoth lockedRow
    ↔ deleteBoth.KeepsRows lockedRow (statementId lockedRow 0)
  := atomic_iff ready_lockedRow errorStrikes_lockedRow

/-- The first row is gone for every later reader, although the DELETE has failed. -/
theorem deleteBoth_not_atomic :
  ¬ ∀ (t : TrxRef) (multiOperation : Bool) (statement : Statement Nat) (s : State Nat),
    Ready t multiOperation statement s → statement.ErrorStrikes s (statementId s t) →
    Atomic t multiOperation statement s
  := by
  intro hatomic
  obtain ⟨rc, s', hexecute, -, hview⟩ :=
    hatomic 0 false deleteBoth lockedRow ready_lockedRow errorStrikes_lockedRow
  have hend : (match deleteBoth.execute 0 false lockedRow with
      | .ok (_, s') => decide (s'.currentTrxId < 6 ∧ view s'.store 6 ⟨0, 1, 0⟩ = none)
      | .error _ => false) = true := by
    decide +kernel
  rw [hexecute] at hend
  obtain ⟨hcurrent, hnone⟩ := of_decide_eq_true hend
  have hsame := congrFun (hview 6 (.inr ⟨hcurrent, by decide⟩)) ⟨0, 1, 0⟩
  rw [hnone] at hsame
  revert hsame
  decide +kernel

end MiniOB.Sql
