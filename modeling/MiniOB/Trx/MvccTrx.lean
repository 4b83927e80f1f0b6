import MiniOB.Common
import MiniOB.Lib.Run

/-!
# Multi-version transactions

`MvccTrx` and `MvccTrxKit` of `storage/trx/mvcc_trx.cpp`, over a store that maps the
place of a record, a table and a record identifier in it, to the record. A record
carries two transaction fields: `beginXid`, which is minus the id of the inserting
transaction until that one commits and its commit id afterwards, and `endXid`, which is
`maxTrxId` until the record is deleted, minus the id of the deleting transaction until
that one commits, and its commit id afterwards.

A call is a function on the `State` of the whole system, all transaction objects
included. It ends in a return code and a new state, or in the `AssertFailure` that stops
the server.
-/

namespace MiniOB

/-- The id of a table. -/
abbrev TableId := Int

/-- A record: its two transaction fields and the rest of its bytes. -/
structure Record (D : Type) where
  beginXid : Int
  endXid : Int
  data : D
  deriving DecidableEq, Repr

/-- The place of a record: its table and its identifier there. -/
structure Place where
  table : TableId
  rid : RID
  deriving DecidableEq, Repr

/-- The records of all tables. -/
abbrev Store (D : Type) := Place → Option (Record D)

namespace Mvcc

variable {D : Type}

/-- `MvccTrxKit::max_trx_id`. -/
def maxTrxId : Int := int32Max

/-- `MvccTrx::visit_record`, of the transaction with id `trxId`. -/
def visitRecord (trxId : Int) (record : Record D) (mode : ReadWriteMode) : RC :=
  if 0 < record.beginXid ∧ 0 < record.endXid then
    if record.beginXid ≤ trxId ∧ trxId ≤ record.endXid then .success else .recordInvisible
  else if record.beginXid < 0 then
    if -record.beginXid = trxId then .success else .recordInvisible
  else if record.endXid < 0 then
    match mode with
    | .readOnly => if -record.endXid ≠ trxId then .success else .recordInvisible
    | .readWrite =>
      if -record.endXid ≠ trxId then .lockedConcurrencyConflict else .recordInvisible
  else
    .success

/-- The kinds of operation a transaction records. -/
inductive OperationType where
  | insert
  | delete
  deriving DecidableEq, Repr

/-- An operation of a transaction on the record at a place. -/
structure Operation where
  type : OperationType
  place : Place
  deriving DecidableEq, Repr

/-- An entry of the transaction log. -/
inductive LogEntry where
  | insertRecord (trxId : Int) (place : Place)
  | deleteRecord (trxId : Int) (place : Place)
  | commit (trxId commitTrxId : Int)
  | rollback (trxId : Int)
  deriving DecidableEq, Repr

/-- The transaction id in the header of a log entry. -/
def LogEntry.trxId : LogEntry → Int
  | .insertRecord trxId _ => trxId
  | .deleteRecord trxId _ => trxId
  | .commit trxId _ => trxId
  | .rollback trxId => trxId

/-- A transaction object. -/
structure MvccTrx where
  trxId : Int := -1
  started : Bool := false
  recovering : Bool := false
  operations : List Operation := []
  deriving DecidableEq, Repr

/-- The identity of a transaction object. -/
abbrev TrxRef := Nat

/-- The state of the transaction system: the id counter of the kit, the transaction
objects, the stored records and the transaction log in the order of its entries. -/
structure State (D : Type) where
  currentTrxId : Int
  trxes : TrxRef → MvccTrx
  store : Store D
  log : List LogEntry

/-- The state of a new, empty database. -/
def State.init : State D where
  currentTrxId := 0
  trxes := fun _ => {}
  store := fun _ => none
  log := []

/-- The assertions that stop the server when they fail. -/
inductive AssertFailure where
  /-- `start_if_need`: the operations of the object are empty. -/
  | startOperations
  /-- `MvccTrxLogHandler`: the transaction id is positive, and below the commit id. -/
  | logTrxId
  /-- `commit_with_trx_id`: the record still carries minus the transaction id. -/
  | commitRecord
  /-- `commit_with_trx_id`: visiting the record succeeds. -/
  | commitVisit
  /-- `rollback`: deleting the inserted record succeeds. -/
  | rollbackDelete
  /-- `rollback`: no return code is pending when a delete is undone. -/
  | rollbackPending
  /-- `rollback`: the record still carries minus the transaction id. -/
  | rollbackRecord
  /-- `rollback`: visiting the record succeeds. -/
  | rollbackVisit
  deriving DecidableEq, Repr

/-- The result of a call: a return code with the new state, or a failed assertion. -/
abbrev Outcome (D : Type) := Except AssertFailure (RC × State D)

/-- The id that `MvccTrxKit::next_trx_id` hands out next. -/
def State.nextTrxId (s : State D) : Int := int32 (s.currentTrxId + 1)

/-- Replace the transaction object `t`. -/
def State.setTrx (s : State D) (t : TrxRef) (trx : MvccTrx) : State D :=
  { s with trxes := Function.update s.trxes t trx }

/-- `MvccTrx::start_if_need`. -/
def startIfNeed (t : TrxRef) (s : State D) : Outcome D :=
  if (s.trxes t).started then
    .ok (.success, s)
  else if (s.trxes t).operations ≠ [] then
    .error .startOperations
  else
    let trx := { s.trxes t with trxId := s.nextTrxId, started := true }
    .ok (.success, { s.setTrx t trx with currentTrxId := s.nextTrxId })

/-- Append a record entry to the log and push the operation, which is how
`insert_record` and `delete_record` end. -/
def pushOperation (t : TrxRef) (op : Operation) (entry : LogEntry) (s : State D) : Outcome D :=
  let trx := s.trxes t
  if 0 < trx.trxId then
    .ok (.success,
      { s.setTrx t { trx with operations := trx.operations ++ [op] } with log := s.log ++ [entry] })
  else
    .error .logTrxId

/-- `MvccTrx::insert_record`. The argument `placed` is what `Table::insert_record`
answers: the identifier it gave the record, or the code with which it failed. -/
def insertRecord (t : TrxRef) (table : TableId) (placed : Except RC RID) (data : D)
    (s : State D) : Outcome D :=
  match placed with
  | .error rc => .ok (rc, s)
  | .ok rid =>
    let place := ⟨table, rid⟩
    let record := ⟨-(s.trxes t).trxId, maxTrxId, data⟩
    pushOperation t ⟨.insert, place⟩ (.insertRecord (s.trxes t).trxId place)
      { s with store := Function.update s.store place (some record) }

/-- `MvccTrx::delete_record`. -/
def deleteRecord (t : TrxRef) (place : Place) (s : State D) : Outcome D :=
  match s.store place with
  | none => .ok (.recordNotExist, s)
  | some record =>
    match visitRecord (s.trxes t).trxId record .readWrite with
    | .success =>
      pushOperation t ⟨.delete, place⟩ (.deleteRecord (s.trxes t).trxId place)
        { s with
          store := Function.update s.store place
            (some { record with endXid := -(s.trxes t).trxId }) }
    | rc => .ok (rc, s)

/-- One turn of the loop of `MvccTrx::commit_with_trx_id`. -/
def commitOperation (trx : MvccTrx) (commitXid : Int) (store : Store D) (op : Operation) :
    Except AssertFailure (Store D) :=
  match store op.place with
  | none => .error .commitVisit
  | some record =>
    match op.type with
    | .insert =>
      if record.beginXid = -trx.trxId ∧ trx.recovering = false then
        .ok (Function.update store op.place (some { record with beginXid := commitXid }))
      else
        .error .commitRecord
    | .delete =>
      if record.endXid = -trx.trxId then
        .ok (Function.update store op.place (some { record with endXid := commitXid }))
      else
        .error .commitRecord

/-- `MvccTrx::commit_with_trx_id`. -/
def commitWithTrxId (t : TrxRef) (commitXid : Int) (s : State D) : Outcome D :=
  let trx := s.trxes t
  let ended := { trx with started := false, operations := [] }
  match trx.operations.foldlM (commitOperation trx commitXid) s.store with
  | .error failure => .error failure
  | .ok store =>
    if trx.recovering then
      .ok (.success, { s.setTrx t ended with store := store })
    else if 0 < trx.trxId ∧ trx.trxId < commitXid then
      .ok (.success, { s.setTrx t ended with
        store := store
        log := s.log ++ [.commit trx.trxId commitXid] })
    else
      .error .logTrxId

/-- `MvccTrx::commit`. -/
def commit (t : TrxRef) (s : State D) : Outcome D :=
  commitWithTrxId t s.nextTrxId { s with currentTrxId := s.nextTrxId }

/-- One turn of the loop of `MvccTrx::rollback`, with the return code that the turn
before left in `rc`. -/
def rollbackOperation (trx : MvccTrx) (state : RC × Store D) (op : Operation) :
    Except AssertFailure (RC × Store D) :=
  let (rc, store) := state
  match op.type with
  | .insert =>
    match store op.place with
    | none => if trx.recovering then .ok (.recordNotExist, store) else .error .rollbackDelete
    | some record =>
      -- during recovery the record may have been taken over by another transaction
      if trx.recovering ∧ record.beginXid ≠ -trx.trxId then
        .ok (.success, store)
      else
        .ok (.success, Function.update store op.place none)
  | .delete =>
    if rc ≠ .success then
      .error .rollbackPending
    else
      match store op.place with
      | none => .error .rollbackVisit
      | some record =>
        if trx.recovering ∧ record.endXid ≠ -trx.trxId then
          .ok (.success, store)
        else if record.endXid = -trx.trxId then
          .ok (.success,
            Function.update store op.place (some { record with endXid := maxTrxId }))
        else
          .error .rollbackRecord

/-- `MvccTrx::rollback`. -/
def rollback (t : TrxRef) (s : State D) : Outcome D :=
  let trx := s.trxes t
  let ended := { trx with started := false, operations := [] }
  match trx.operations.reverse.foldlM (rollbackOperation trx) (.success, s.store) with
  | .error failure => .error failure
  | .ok (rc, store) =>
    if trx.recovering then
      .ok (rc, { s.setTrx t ended with store := store })
    else if 0 < trx.trxId then
      .ok (.success, { s.setTrx t ended with
        store := store
        log := s.log ++ [.rollback trx.trxId] })
    else
      .error .logTrxId

/-! ### Interleavings -/

/-- A call on one of the transaction objects. -/
inductive Event (D : Type) where
  | startIfNeed (t : TrxRef)
  | insertRecord (t : TrxRef) (table : TableId) (placed : Except RC RID) (data : D)
  | deleteRecord (t : TrxRef) (place : Place)
  | commit (t : TrxRef)
  | rollback (t : TrxRef)

/-- The transaction object of a call. -/
def Event.trx : Event D → TrxRef
  | .startIfNeed t => t
  | .insertRecord t _ _ _ => t
  | .deleteRecord t _ => t
  | .commit t => t
  | .rollback t => t

/-- The outcome of a call. -/
def exec (s : State D) : Event D → Outcome D
  | .startIfNeed t => startIfNeed t s
  | .insertRecord t table placed data => insertRecord t table placed data s
  | .deleteRecord t place => deleteRecord t place s
  | .commit t => commit t s
  | .rollback t => rollback t s

/-- What the callers of the transaction functions see to: rows are inserted and deleted
only after `start_if_need` (`SqlResult::open`), and `Table::insert_record` never gives out
an identifier that is in use. -/
def Admissible (s : State D) : Event D → Prop
  | .insertRecord t table placed _ =>
    (s.trxes t).started = true ∧ ∀ rid, placed = .ok rid → s.store ⟨table, rid⟩ = none
  | .deleteRecord t _ => (s.trxes t).started = true
  | _ => True

/-- A call that returns leads from `s` to `s'`. -/
def Step (s : State D) (e : Event D) (s' : State D) : Prop :=
  Admissible s e ∧ ∃ rc, exec s e = .ok (rc, s')

/-! ### Executing calls -/

instance (s : State D) (e : Event D) : Decidable (Admissible s e) :=
  match e with
  | .startIfNeed _ => isTrue trivial
  | .insertRecord t table (.ok rid) _ =>
    decidable_of_iff ((s.trxes t).started = true ∧ (s.store ⟨table, rid⟩).isNone = true)
      (by simp [Admissible])
  | .insertRecord t _ (.error _) _ =>
    decidable_of_iff ((s.trxes t).started = true) (by simp [Admissible])
  | .deleteRecord t _ => inferInstanceAs (Decidable ((s.trxes t).started = true))
  | .commit _ => isTrue trivial
  | .rollback _ => isTrue trivial

/-- The state after a call; a call that stops the server leaves it as it was. -/
def State.after (s : State D) (e : Event D) : State D :=
  match exec s e with
  | .ok (_, s') => s'
  | .error _ => s

/-- The call is admissible and returns. -/
def Returns (s : State D) (e : Event D) : Prop := Admissible s e ∧ (exec s e).isOk = true

instance (s : State D) (e : Event D) : Decidable (Returns s e) :=
  inferInstanceAs (Decidable (_ ∧ _))

theorem Returns.step {s : State D} {e : Event D} (h : Returns s e) :
  Step s e (s.after e)
  := by
  obtain ⟨hadm, hok⟩ := h
  use hadm
  rw [State.after]
  cases hexec : exec s e with
  | error a => simp [hexec, Except.isOk, Except.toBool] at hok
  | ok res => use res.1

/-- The calls `es` are admissible and return one after the other. -/
abbrev AllReturn (s : State D) (es : List (Event D)) : Prop :=
  Transition.AllOk Returns State.after s es

end Mvcc

end MiniOB
