import MiniOB.Sql.TableMeta
import MiniOB.Table.IndexAgreement
import MiniOB.Trx.View

/-!
# Unique indexes

`Table::create_index` with the flag that asks for a unique index. The flag becomes part of
the metadata of the table, and nothing reads it there: an entry of an index is the key
together with the identifier of the record, so that the test of the tree for duplicates finds
the record itself only. The values of the column stay distinct as long as no transaction
repeats one.
-/

namespace MiniOB.Table

open Transition
open Mvcc (Reader view)

variable {D : Type}

/-- `IndexMeta`. -/
structure IndexMeta where
  name : String
  field : String
  unique : Bool
  deriving DecidableEq, Repr

/-- `IndexMeta::init`. -/
def IndexMeta.init (name field : String) (unique : Bool) : Except RC IndexMeta :=
  if Sql.isBlank name then .error .invalidArgument else .ok ⟨name, field, unique⟩

/-- The columns of the tables by their names: what an index over the column compares, and the
value of the column in a row, if it is not NULL. -/
structure Schema (D : Type) where
  column : TableId → String → Column D
  value : TableId → String → D → Option ColumnValue
  column_value : ∀ table field (record : Record D) v,
    value table field record.data = some v → (column table field).value record = v

/-- A database with the metadata of the indexes of its tables. -/
structure Catalog (D : Type) where
  db : Database D
  indexMetas : TableId → List IndexMeta

/-- A new, empty database. -/
def Catalog.init : Catalog D := ⟨Database.init, fun _ => []⟩

/-- `Table::create_index`. The arguments from `created` on are those of the creation without
its metadata. -/
def Catalog.createIndex (schema : Schema D) (table : TableId) (name field : String)
    (unique : Bool) (created : RC) (rows : List (RID × Record D)) (faults : List (Option Fault))
    (saved : RC) (c : Catalog D) : RC × Catalog D :=
  match IndexMeta.init name field unique with
  | .error rc => (rc, c)
  | .ok newIndexMeta =>
    let (rc, tables) :=
      Table.createIndex table (schema.column table field) created rows faults saved c.db.tables
    let c' := { c with db := c.db.setTables tables }
    if rc = .success then
      (rc, { c' with
        indexMetas := Function.update c.indexMetas table (c.indexMetas table ++ [newIndexMeta]) })
    else
      (rc, c')

/-- A call of a session: the creation of an index, or a call of its transaction. -/
inductive CatalogCall (D : Type) where
  | createIndex (table : TableId) (name field : String) (unique : Bool) (created : RC)
      (rows : List (RID × Record D)) (faults : List (Option Fault)) (saved : RC)
  | start (t : Mvcc.TrxRef)
  | insert (t : Mvcc.TrxRef) (table : TableId) (placed : Except RC RID)
      (faults : List (Option Fault)) (data : D)
  | delete (t : Mvcc.TrxRef) (place : Place)
  | commit (t : Mvcc.TrxRef)
  | rollback (t : Mvcc.TrxRef)

/-- The call on the tables that a call amounts to, but for the metadata. -/
def CatalogCall.call (schema : Schema D) : CatalogCall D → Call D
  | .createIndex table _ field _ created rows faults saved =>
    .createIndex table (schema.column table field) created rows faults saved
  | .start t => .trxStart t
  | .insert t table placed faults data => .trxInsert t table placed faults data
  | .delete t place => .trxDelete t place
  | .commit t => .trxCommit t
  | .rollback t => .trxRollback t

/-- The outcome of a call. -/
def Catalog.exec (schema : Schema D) (c : Catalog D) : CatalogCall D →
    Except Failure (RC × Catalog D)
  | .createIndex table name field unique created rows faults saved =>
    .ok (c.createIndex schema table name field unique created rows faults saved)
  | call => (Table.exec c.db (call.call schema)).map fun (rc, db) => (rc, { c with db := db })

/-- Transactions follow one another, rows are inserted and deleted in a started transaction
only, and the id counter does not wrap. -/
def Orderly (c : Catalog D) : CatalogCall D → Prop
  | .start t => (∀ u, c.db.mvcc.Active u → u = t) ∧ c.db.mvcc.currentTrxId < int32Max
  | .insert t _ _ _ _ => c.db.mvcc.Active t
  | .delete t _ => c.db.mvcc.Active t
  | .commit _ => c.db.mvcc.currentTrxId < int32Max
  | _ => True

/-- A call that meets the condition `ok` leads from `c` to `c'`. -/
def CatalogStep (schema : Schema D) (ok : Catalog D → CatalogCall D → Prop) (c : Catalog D)
    (call : CatalogCall D) (c' : Catalog D) : Prop :=
  ok c call ∧ Orderly c call ∧ Admissible c.db (call.call schema)
    ∧ ∃ rc, c.exec schema call = .ok (rc, c')

/-! ### Uniqueness -/

/-- No reader sees two rows of the table with the same value that is not NULL. -/
def Distinct (value : D → Option ColumnValue) (table : TableId) (s : Mvcc.State D) : Prop :=
  ∀ id, Reader s id → ∀ p q d d' v, p.table = table → q.table = table →
    view s.store id p = some d → view s.store id q = some d' →
    value d = some v → value d' = some v → p = q

/-- A row of the table that the transaction sees has the value of the new row. -/
def Repeats (value : D → Option ColumnValue) (table : TableId) (t : Mvcc.TrxRef) (data : D)
    (s : Mvcc.State D) : Prop :=
  ∃ p d v, p.table = table ∧ view s.store (s.id t) p = some d ∧ value d = some v
    ∧ value data = some v

/-- The call tries to bring about two rows with the same value under a unique index. -/
def BreaksUnique (schema : Schema D) (c : Catalog D) : CatalogCall D → Prop
  | .insert t table _ _ data => ∃ indexMeta ∈ c.indexMetas table, indexMeta.unique = true
      ∧ Repeats (schema.value table indexMeta.field) table t data c.db.mvcc
  | .createIndex table _ field unique _ _ _ _ => unique = true
      ∧ ¬ Distinct (schema.value table field) table c.db.mvcc
  | _ => False

/-- The values under every unique index are distinct. -/
def Catalog.Unique (schema : Schema D) (c : Catalog D) : Prop :=
  ∀ table, ∀ indexMeta ∈ c.indexMetas table, indexMeta.unique = true →
    Distinct (schema.value table indexMeta.field) table c.db.mvcc

/-- Along the runs whose calls meet `ok`, the values under every unique index are distinct. -/
def UniqueEnforced (schema : Schema D) (ok : Catalog D → CatalogCall D → Prop) : Prop :=
  ∀ h c, Run (CatalogStep schema ok) Catalog.init h c → c.Unique schema

/-- At the end of a run whose calls meet `ok`, an insertion that repeats a value under a unique
index succeeds if no page is wanting, and the values are no longer distinct. There are no indexes
over transaction fields. -/
def RepeatsAccepted (schema : Schema D) (ok : Catalog D → CatalogCall D → Prop) : Prop :=
  (∀ table field, ∃ value, schema.column table field = .field value) →
    ∀ h c, Run (CatalogStep schema ok) Catalog.init h c →
    ∀ t table rid data, c.db.mvcc.Active t → c.db.mvcc.store ⟨table, rid⟩ = none →
      BreaksUnique schema c (.insert t table (.ok rid) [] data) →
      ∃ c', c.exec schema (.insert t table (.ok rid) [] data) = .ok (.success, c')
        ∧ ¬ c'.Unique schema

/-- An insertion that repeats no value keeps the values distinct. -/
theorem Distinct.step {value : D → Option ColumnValue} {table : TableId} {s s' : Mvcc.State D}
    (hd : Distinct value table s) (hs : Mvcc.Serial s) (h : Mvcc.Inv s) {e : Mvcc.Event D}
    (hc : Mvcc.CounterOk s e) (hturn : Mvcc.InTurn s e) (hstep : Mvcc.Step s e s')
    (hnew : ∀ t rid data, e = .insertRecord t table (.ok rid) data →
      ¬ Repeats value table t data s) :
  Distinct value table s'
  := by
  intro id hid p q d d' v hp hq hview hview' hv hv'
  obtain ⟨id₀, hid₀, hold⟩ := hs.view_step h hc hturn hstep hid
  obtain hview | ⟨t, table₁, rid, he, rfl, ht, rfl⟩ := hold p d hview
  · obtain hview' | ⟨t, table₂, rid, he, rfl, ht, rfl⟩ := hold q d' hview'
    · exact hd id₀ hid₀ p q d d' v hp hq hview hview' hv hv'
    · obtain rfl : table₂ = table := hq
      exact absurd ⟨p, d, v, hp, hview, hv, hv'⟩ (hnew t rid d' he)
  · obtain rfl : table₁ = table := hp
    obtain hview' | ⟨t', table₂, rid', he', rfl, -, -⟩ := hold q d' hview'
    · exact absurd ⟨q, d', v, hq, hview', hv', hv⟩ (hnew t rid d he)
    · rw [he] at he'
      cases he'
      rfl

/-! ### The calls as calls of the transactions -/

section Calls

variable {schema : Schema D} {c c' : Catalog D} {call : CatalogCall D} {rc : RC}

theorem createIndex_store {table : TableId} {column : Column D} {created : RC}
    {rows : List (RID × Record D)} {faults : List (Option Fault)} {saved : RC} {s : Tables D} :
  (Table.createIndex table column created rows faults saved s).2.store = s.store
  := by
  rw [Table.createIndex]
  split
  · rfl
  · split <;> rfl

/-- The creation of an index leaves the transactions and the records alone, and adds its
metadata if anything. -/
theorem createIndex_cases {table : TableId} {name field : String} {unique : Bool} {created : RC}
    {rows : List (RID × Record D)} {faults : List (Option Fault)} {saved : RC}
    (h : c.createIndex schema table name field unique created rows faults saved = (rc, c')) :
  c'.db.mvcc = c.db.mvcc ∧ (c'.indexMetas = c.indexMetas
    ∨ c'.indexMetas = Function.update c.indexMetas table
      (c.indexMetas table ++ [⟨name, field, unique⟩]))
  := by
  have hstore := @createIndex_store D table (schema.column table field) created rows faults saved
    c.db.tables
  rw [Catalog.createIndex, IndexMeta.init] at h
  split_ifs at h with hblank
  · cases h
    exact ⟨rfl, .inl rfl⟩
  · dsimp only at h
    split_ifs at h
    all_goals
      cases h
      refine ⟨?_, ?_⟩
      · rw [Database.setTables, hstore]
        rfl
    · exact .inr rfl
    · exact .inl rfl

theorem insertRecord_placed {table : TableId} {placed : Except RC RID}
    {faults : List (Option Fault)} {record : Record D} {s : Tables D} {rid : RID}
    (h : (insertRecord table placed faults record s).1 = .ok rid) :
  placed = .ok rid
  := by
  cases placed with
  | error rc => cases h
  | ok rid' =>
    rw [insertRecord] at h
    dsimp only at h
    split at h <;> simp_all

/-- Every other call is a call of the transactions. -/
theorem exec_event (horderly : Orderly c call) (hadm : Admissible c.db (call.call schema))
    (hexec : c.exec schema call = .ok (rc, c')) :
  (∃ table name field unique created rows faults saved,
      call = .createIndex table name field unique created rows faults saved)
    ∨ c'.indexMetas = c.indexMetas ∧ ∃ e, Mvcc.Step c.db.mvcc e c'.db.mvcc
      ∧ Mvcc.CounterOk c.db.mvcc e ∧ Mvcc.InTurn c.db.mvcc e
      ∧ ∀ t table rid data, e = .insertRecord t table (.ok rid) data →
        ∃ placed faults, call = .insert t table placed faults data
  := by
  -- A call that goes to the transactions as it is.
  have hcall : ∀ e, Mvcc.Admissible c.db.mvcc e →
      (trxCall e c.db).map (fun (rc, db) => (rc, { c with db := db })) = .ok (rc, c') →
      c'.indexMetas = c.indexMetas ∧ Mvcc.Step c.db.mvcc e c'.db.mvcc := by
    intro e hadm' hmap
    rw [trxCall] at hmap
    cases hevent : Mvcc.exec c.db.mvcc e with
    | error failure => simp [hevent, Except.map] at hmap
    | ok res =>
      simp only [hevent, Except.map, Except.ok.injEq, Prod.mk.injEq] at hmap
      obtain ⟨rfl, rfl⟩ := hmap
      exact ⟨rfl, hadm', res.1, hevent⟩
  cases call with
  | createIndex table name field unique created rows faults saved =>
    exact .inl ⟨table, name, field, unique, created, rows, faults, saved, rfl⟩
  | start t =>
    obtain ⟨hmetas, hstep⟩ := hcall (.startIfNeed t) trivial hexec
    exact .inr ⟨hmetas, _, hstep, horderly.2, horderly.1, by simp⟩
  | delete t place =>
    obtain ⟨hmetas, hstep⟩ := hcall (.deleteRecord t place) horderly hexec
    exact .inr ⟨hmetas, _, hstep, trivial, trivial, by simp⟩
  | commit t =>
    obtain ⟨hmetas, hstep⟩ := hcall (.commit t) trivial hexec
    exact .inr ⟨hmetas, _, hstep, horderly, trivial, by simp⟩
  | rollback t =>
    right
    simp only [Catalog.exec, CatalogCall.call, Table.exec, trxRollback] at hexec
    split at hexec
    · cases hexec
    · cases hexec
    · rename_i tables rc' mvcc _ hrollback
      cases hexec
      exact ⟨rfl, .rollback t, ⟨trivial, rc', hrollback⟩, trivial, trivial, by simp⟩
  | insert t table placed faults data =>
    right
    simp only [Catalog.exec, CatalogCall.call, Table.exec, trxInsertRecord] at hexec
    split at hexec
    · cases hexec
    · rename_i rc' mvcc hinsert
      cases hexec
      refine ⟨rfl, .insertRecord t table (insertRecord table placed faults
        ⟨-(c.db.mvcc.trxes t).trxId, Mvcc.maxTrxId, data⟩ c.db.tables).1 data,
        ⟨⟨horderly, ?_⟩, rc', hinsert⟩, trivial, trivial, ?_⟩
      · intro rid hplaced
        exact hadm rid (insertRecord_placed hplaced)
      · intro t' table' rid data' heq
        rw [Mvcc.Event.insertRecord.injEq] at heq
        obtain ⟨rfl, rfl, -, rfl⟩ := heq
        exact ⟨placed, faults, rfl⟩

end Calls

/-! ### Uniqueness along runs -/

/-- What holds along a run whose calls break no unique index. -/
structure Catalog.Inv (schema : Schema D) (c : Catalog D) : Prop where
  inv : Mvcc.Inv c.db.mvcc
  serial : Mvcc.Serial c.db.mvcc
  unique : c.Unique schema

theorem Catalog.Inv.step {schema : Schema D} {c c' : Catalog D} {call : CatalogCall D}
    (h : c.Inv schema)
    (hstep : CatalogStep schema (fun c call => ¬ BreaksUnique schema c call) c call c') :
  c'.Inv schema
  := by
  obtain ⟨hok, horderly, hadm, rc, hexec⟩ := hstep
  obtain ⟨table, name, field, unique, created, rows, faults, saved, rfl⟩
    | ⟨hmetas, e, hevent, hcounter, hturn, hinsert⟩ := exec_event horderly hadm hexec
  · rw [Catalog.exec, Except.ok.injEq] at hexec
    obtain ⟨hmvcc, hmetas⟩ := createIndex_cases hexec
    refine ⟨hmvcc ▸ h.inv, hmvcc ▸ h.serial, ?_⟩
    intro table' indexMeta hmem hunique
    rw [hmvcc]
    obtain hmetas | hmetas := hmetas
    · rw [hmetas] at hmem
      exact h.unique table' indexMeta hmem hunique
    · rw [hmetas] at hmem
      by_cases htable : table' = table
      · subst htable
        rw [Function.update_self, List.mem_append, List.mem_singleton] at hmem
        obtain hmem | rfl := hmem
        · exact h.unique table' indexMeta hmem hunique
        · by_contra hdistinct
          exact hok ⟨hunique, hdistinct⟩
      · rw [Function.update_of_ne htable] at hmem
        exact h.unique table' indexMeta hmem hunique
  · refine ⟨h.inv.step hcounter hevent, h.serial.step h.inv hcounter hturn hevent, ?_⟩
    intro table indexMeta hmem hunique
    rw [hmetas] at hmem
    apply (h.unique table indexMeta hmem hunique).step h.serial h.inv hcounter hturn hevent
    intro t rid data he hrepeats
    obtain ⟨placed, faults, rfl⟩ := hinsert t table rid data he
    exact hok ⟨indexMeta, hmem, hunique, hrepeats⟩

/-- No index stands in the way of an insertion that repeats a value. -/
theorem insertEntryOfIndexes_success {indexes : List (Index D)} {record : Record D} {rid : RID}
    (hfresh : ∀ index ∈ indexes, index.entry record rid ∉ index.entries) :
  insertEntryOfIndexes record rid [] indexes = (.success, indexes.map (Index.add record rid))
  := by
  induction indexes with
  | nil => rfl
  | cons index indexes ih =>
    rw [insertEntryOfIndexes]
    simp only [List.headD_nil, Index.insertEntry_of_fresh (hfresh index List.mem_cons_self),
      List.tail_nil]
    rw [ih fun index' hmem => hfresh index' (List.mem_cons_of_mem _ hmem)]
    rfl

/-- An insertion that repeats a value succeeds if no page is wanting, and the unique index no
longer has distinct values. -/
theorem repeat_accepted {schema : Schema D} {c : Catalog D} {t : Mvcc.TrxRef} {table : TableId}
    {rid : RID} {data : D} (hinv : Mvcc.Inv c.db.mvcc) (hagrees : c.db.Inv)
    (ht : c.db.mvcc.Active t) (hfree : c.db.mvcc.store ⟨table, rid⟩ = none)
    (hbreaks : BreaksUnique schema c (.insert t table (.ok rid) [] data)) :
  ∃ c', c.exec schema (.insert t table (.ok rid) [] data) = .ok (.success, c')
    ∧ ¬ c'.Unique schema
  := by
  have hpos : 0 < (c.db.mvcc.trxes t).trxId := hinv.id_pos t ht
  let record : Record D := ⟨-(c.db.mvcc.trxes t).trxId, Mvcc.maxTrxId, data⟩
  have hfresh : ∀ index ∈ c.db.indexes table, index.entry record rid ∉ index.entries :=
    fun index hmem => (hagrees.agrees table index hmem).fresh hfree
  have hplaced : (insertRecord table (.ok rid) [] record c.db.tables).1 = .ok rid := by
    rw [insertRecord]
    dsimp only
    rw [show c.db.tables.indexes table = c.db.indexes table from rfl,
      insertEntryOfIndexes_success hfresh]
  have hinsert : Mvcc.insertRecord t table (.ok rid) data c.db.mvcc
      = .ok (.success, c.db.mvcc.afterInsert t ⟨table, rid⟩ data) := by
    simp [Mvcc.insertRecord, Mvcc.pushOperation, hpos, Mvcc.State.afterInsert, Mvcc.State.setTrx]
  refine ⟨⟨⟨c.db.mvcc.afterInsert t ⟨table, rid⟩ data,
    (insertRecord table (.ok rid) [] record c.db.tables).2.indexes⟩, c.indexMetas⟩, ?_, ?_⟩
  · simp only [Catalog.exec, CatalogCall.call, Table.exec, trxInsertRecord]
    rw [show (⟨-(c.db.mvcc.trxes t).trxId, Mvcc.maxTrxId, data⟩ : Record D) = record from rfl,
      hplaced, hinsert]
    rfl
  · intro hunique
    obtain ⟨indexMeta, hmem, hflag, p, d, v, hp, hview, hv, hv'⟩ := hbreaks
    have hne : p ≠ ⟨table, rid⟩ := by
      rintro rfl
      rw [view, hfree] at hview
      cases hview
    apply hne
    apply hunique table indexMeta hmem hflag (c.db.mvcc.id t) _ p ⟨table, rid⟩ d data v hp rfl _ _
      hv hv'
    · left
      exact ⟨t, by simpa using ht, by simp⟩
    · rw [view, Mvcc.afterInsert_store, if_neg hne]
      exact hview
    · have hneg : ¬ c.db.mvcc.id t < 0 := by
        rw [Mvcc.State.id]
        omega
      have hpos' : 0 < c.db.mvcc.id t := hpos
      simp [view, Mvcc.visitRecord, hneg, hpos']

/-- The indexes agree with the records, if none is over a transaction field. -/
theorem indexes_step {schema : Schema D}
    (hfield : ∀ table field, ∃ value, schema.column table field = .field value)
    {ok : Catalog D → CatalogCall D → Prop} {c c' : Catalog D} {call : CatalogCall D}
    (h : c.db.Inv) (hstep : CatalogStep schema ok c call c') :
  c'.db.Inv
  := by
  obtain ⟨-, -, hadm, rc, hexec⟩ := hstep
  have hcolumn : ∀ table column created rows faults saved,
      call.call schema = .createIndex table column created rows faults saved →
      ∃ value, column = .field value := by
    intro table column created rows faults saved heq
    cases call with
    | createIndex =>
      cases heq
      apply hfield
    | _ => cases heq
  have hdb : ∀ {rc db}, Table.exec c.db (call.call schema) = .ok (rc, db) → db.Inv :=
    fun hexec => h.step hcolumn ⟨hadm, _, hexec⟩
  cases call with
  | createIndex table name field unique created rows faults saved =>
    rw [Catalog.exec, Except.ok.injEq, Catalog.createIndex] at hexec
    split at hexec
    · cases hexec
      exact h
    · dsimp only at hexec
      split at hexec <;> cases hexec <;> exact hdb rfl
  | _ =>
    cases hout : Table.exec c.db _ with
    | error failure =>
      rw [Catalog.exec, hout] at hexec
      · cases hexec
      · simp
    | ok out =>
      rw [Catalog.exec, hout] at hexec
      · cases hexec
        exact hdb hout
      · simp

/-- The values under the unique indexes stay distinct as long as no call tries to repeat one
and no unique index is created over repeated ones. Nothing rejects such a call. -/
theorem unique_enforced (schema : Schema D) :
  UniqueEnforced schema (fun c call => ¬ BreaksUnique schema c call)
    ∧ RepeatsAccepted schema fun c call => ¬ BreaksUnique schema c call
  := by
  have hinv : ∀ {h c}, Run (CatalogStep schema fun c call => ¬ BreaksUnique schema c call)
      Catalog.init h c → c.Inv schema := by
    intro h c hrun
    apply hrun.invariant
    · refine ⟨Mvcc.inv_init, Mvcc.serial_init, ?_⟩
      intro table indexMeta hmem
      cases hmem
    · intro c call c' hc hstep
      exact hc.step hstep
  constructor
  · intro h c hrun
    exact (hinv hrun).unique
  · intro hfield h c hrun t table rid data ht hfree hbreaks
    have hagrees : c.db.Inv := by
      apply hrun.invariant Database.inv_init
      intro c call c' hc hstep
      exact indexes_step hfield hc hstep
    exact repeat_accepted (hinv hrun).inv hagrees ht hfree hbreaks

/-! ### A repeated value -/

/-- A table of one nullable column of numbers. -/
def numbers : Schema (Option Int) where
  column _ _ := .field fun d => .int (d.getD 0)
  value _ _ d := d.map .int
  column_value := by
    rintro _ _ ⟨_, _, d⟩ v hv
    obtain ⟨n, rfl, rfl⟩ := Option.map_eq_some_iff.mp hv
    rfl

/-- A unique index is created on an empty table, and one transaction inserts a value twice. -/
theorem repeated_run :
  ∃ h c, Run (CatalogStep numbers fun _ _ => True) Catalog.init h c
    ∧ c.indexMetas 0 = [⟨"u", "id", true⟩]
    ∧ (c.db.mvcc.trxes 0).started = true ∧ c.db.mvcc.id 0 = 1
    ∧ view c.db.mvcc.store 1 ⟨0, 1, 0⟩ = some (some 5)
    ∧ view c.db.mvcc.store 1 ⟨0, 1, 1⟩ = some (some 5)
  := by
  refine ⟨_, _, .tail (.tail (.tail (.tail .refl
    (e := .createIndex 0 "u" "id" true .success [] [] .success) ⟨trivial, ?_, ?_, _, rfl⟩)
    (e := .start 0) ⟨trivial, ?_, ?_, _, rfl⟩)
    (e := .insert 0 0 (.ok ⟨1, 0⟩) [] (some 5)) ⟨trivial, ?_, ?_, _, rfl⟩)
    (e := .insert 0 0 (.ok ⟨1, 1⟩) [] (some 5)) ⟨trivial, ?_, ?_, _, rfl⟩, ?_, ?_, ?_, ?_, ?_⟩
  · trivial
  · intro rid record
    simp [Catalog.init, Database.init, Mvcc.State.init]
  · refine ⟨?_, by decide⟩
    intro u hu
    cases hu
  · trivial
  · rfl
  · rintro rid ⟨⟩
    rfl
  · rfl
  · rintro rid ⟨⟩
    rfl
  all_goals decide +kernel

theorem unique_not_enforced :
  ¬ ∀ schema : Schema (Option Int), UniqueEnforced schema fun _ _ => True
  := by
  intro henforced
  obtain ⟨h, c, hrun, hmetas, hactive, hid, hview, hview'⟩ := repeated_run
  have hunique := henforced numbers h c hrun 0 ⟨"u", "id", true⟩ (by simp [hmetas]) rfl
  have hreader : Reader c.db.mvcc 1 := .inl ⟨0, hactive, hid.symm⟩
  have hsame := hunique 1 hreader ⟨0, 1, 0⟩ ⟨0, 1, 1⟩ (some 5) (some 5) (.int 5) rfl rfl hview hview'
    rfl rfl
  revert hsame
  decide

end MiniOB.Table
