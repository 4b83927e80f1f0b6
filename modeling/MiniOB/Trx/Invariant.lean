import MiniOB.Trx.MvccTrx

/-!
# What the calls do, and the invariant of the transaction system

`Effect` lists what a call that returns can do to the state, and `Inv` says how the
transaction fields of the stored records, the operation lists and the ids of the
transaction objects belong together. The ids are drawn from a 32-bit counter; `CounterOk`
says that a call finds it below the largest 32-bit integer when it draws from it.
-/

namespace MiniOB.Mvcc

variable {D : Type} {s s' : State D}

/-! ### The loops of commit and rollback -/

/-- The store after the operations `ops` have been committed with id `commitXid`. -/
def commitEffect (ops : List Operation) (commitXid : Int) (store : Store D) : Store D :=
  fun p => (store p).map fun r =>
    { r with
      beginXid := if ⟨.insert, p⟩ ∈ ops then commitXid else r.beginXid
      endXid := if ⟨.delete, p⟩ ∈ ops then commitXid else r.endXid }

/-- The store after the operations `ops` have been rolled back. -/
def rollbackEffect (ops : List Operation) (store : Store D) : Store D :=
  fun p => if ⟨.insert, p⟩ ∈ ops then none else (store p).map fun r =>
    { r with endXid := if ⟨.delete, p⟩ ∈ ops then maxTrxId else r.endXid }

/-- A record after a rollback was there before it, and was not inserted by the operations
rolled back. -/
theorem of_rollbackEffect {ops : List Operation} {store : Store D} {p : Place}
    {r' : Record D} (h : rollbackEffect ops store p = some r') :
  ⟨.insert, p⟩ ∉ ops ∧ ∃ r, store p = some r
    ∧ r' = { r with endXid := if ⟨.delete, p⟩ ∈ ops then maxTrxId else r.endXid }
  := by
  rw [rollbackEffect] at h
  split at h
  · cases h
  · rename_i hins
    obtain ⟨r, hr, rfl⟩ := Option.map_eq_some_iff.mp h
    use hins, r, hr

theorem commitOperation_eq {trx : MvccTrx} {c : Int} {store store' : Store D} {op : Operation}
    (h : commitOperation trx c store op = .ok store') :
  store' = commitEffect [op] c store
  := by
  obtain ⟨type, place⟩ := op
  rw [commitOperation] at h
  cases hr : store place with
  | none => simp [hr] at h
  | some r =>
    cases type <;> simp only [hr] at h <;> split at h <;> cases h
    all_goals
      funext p
      by_cases hp : p = place
      · subst hp
        simp [commitEffect, hr]
      · simp [commitEffect, hp]

/-- A commit loop that runs to its end has the effect of its operations. -/
theorem foldlM_commitOperation {trx : MvccTrx} {c : Int} {ops : List Operation} :
    ∀ {store store' : Store D}, ops.foldlM (commitOperation trx c) store = .ok store' →
      store' = commitEffect ops c store := by
  induction ops with
  | nil =>
    intro store store' h
    cases h
    funext p
    simp [commitEffect]
  | cons op ops ih =>
    intro store store' h
    rw [List.foldlM_cons] at h
    cases hop : commitOperation trx c store op with
    | error a => simp [hop, bind, Except.bind] at h
    | ok store₁ =>
      simp only [hop, bind, Except.bind] at h
      rw [ih h, commitOperation_eq hop]
      funext p
      simp only [commitEffect, Option.map_map, List.mem_cons]
      congr 1
      funext r
      simp only [Function.comp]
      congr 1 <;> grind

theorem rollbackOperation_eq {trx : MvccTrx} (hrec : trx.recovering = false)
    {store store' : Store D} {rc : RC} {op : Operation}
    (h : rollbackOperation trx (.success, store) op = .ok (rc, store')) :
  rc = .success ∧ store' = rollbackEffect [op] store
  := by
  obtain ⟨type, place⟩ := op
  rw [rollbackOperation] at h
  cases hr : store place with
  | none => cases type <;> simp [hr, hrec] at h
  | some r =>
    cases type <;> simp [hr, hrec] at h
    · obtain ⟨rfl, rfl⟩ := h
      use rfl
      funext p
      by_cases hp : p = place
      · subst hp
        simp [rollbackEffect]
      · simp [rollbackEffect, hp]
    · split at h
      · cases h
        use rfl
        funext p
        by_cases hp : p = place
        · subst hp
          simp [rollbackEffect, hr]
        · simp [rollbackEffect, hp]
      · cases h

/-- A rollback loop that runs to its end has the effect of its operations. -/
theorem foldlM_rollbackOperation {trx : MvccTrx} (hrec : trx.recovering = false)
    {ops : List Operation} :
    ∀ {store store' : Store D} {rc : RC},
      ops.foldlM (rollbackOperation trx) (.success, store) = .ok (rc, store') →
      store' = rollbackEffect ops store := by
  induction ops with
  | nil =>
    intro store store' rc h
    cases h
    funext p
    simp [rollbackEffect]
  | cons op ops ih =>
    intro store store' rc h
    rw [List.foldlM_cons] at h
    cases hop : rollbackOperation trx (.success, store) op with
    | error a => simp [hop, bind, Except.bind] at h
    | ok st =>
      obtain ⟨rc₁, store₁⟩ := st
      obtain ⟨rfl, rfl⟩ := rollbackOperation_eq hrec hop
      simp only [hop, bind, Except.bind] at h
      rw [ih h]
      funext p
      rw [rollbackEffect, rollbackEffect, rollbackEffect]
      cases store p with
      | none => simp
      | some r =>
        simp only [List.mem_cons]
        split_ifs <;> grind

/-! ### The effects of the calls -/

/-- The transaction object `t` has started and not ended. -/
def State.Active (s : State D) (t : TrxRef) : Prop := (s.trxes t).started = true

/-- The id of the transaction object `t`. -/
def State.id (s : State D) (t : TrxRef) : Int := (s.trxes t).trxId

/-- The operations of the transaction object `t`. -/
def State.ops (s : State D) (t : TrxRef) : List Operation := (s.trxes t).operations

/-- The state after the idle object `t` has drawn an id. -/
def State.afterStart (s : State D) (t : TrxRef) : State D :=
  { s.setTrx t { s.trxes t with trxId := s.nextTrxId, started := true } with
    currentTrxId := s.nextTrxId }

/-- The state after the object `t` has inserted a record at `p`. -/
def State.afterInsert (s : State D) (t : TrxRef) (p : Place) (data : D) : State D :=
  { s.setTrx t { s.trxes t with operations := (s.trxes t).operations ++ [⟨.insert, p⟩] } with
    store := Function.update s.store p (some ⟨-(s.trxes t).trxId, maxTrxId, data⟩)
    log := s.log ++ [.insertRecord (s.trxes t).trxId p] }

/-- The state after the object `t` has deleted the record `r` at `p`. -/
def State.afterDelete (s : State D) (t : TrxRef) (p : Place) (r : Record D) : State D :=
  { s.setTrx t { s.trxes t with operations := (s.trxes t).operations ++ [⟨.delete, p⟩] } with
    store := Function.update s.store p (some { r with endXid := -(s.trxes t).trxId })
    log := s.log ++ [.deleteRecord (s.trxes t).trxId p] }

/-- The state after the object `t` has committed. -/
def State.afterCommit (s : State D) (t : TrxRef) : State D :=
  { s.setTrx t { s.trxes t with started := false, operations := [] } with
    currentTrxId := s.nextTrxId
    store := commitEffect (s.trxes t).operations s.nextTrxId s.store
    log := s.log ++ [.commit (s.trxes t).trxId s.nextTrxId] }

/-- The state after the object `t` has rolled back. -/
def State.afterRollback (s : State D) (t : TrxRef) : State D :=
  { s.setTrx t { s.trxes t with started := false, operations := [] } with
    store := rollbackEffect (s.trxes t).operations s.store
    log := s.log ++ [.rollback (s.trxes t).trxId] }

section

variable (s) (t t' : TrxRef) (p : Place) (data : D) (r : Record D)

@[simp, grind =]
theorem afterStart_store :
  (s.afterStart t).store = s.store
  := rfl

@[simp, grind =]
theorem afterStart_currentTrxId :
  (s.afterStart t).currentTrxId = s.nextTrxId
  := rfl

@[simp, grind =]
theorem afterStart_log :
  (s.afterStart t).log = s.log
  := rfl

@[simp, grind =]
theorem afterStart_id :
  (s.afterStart t).id t' = if t' = t then s.nextTrxId else s.id t'
  := by
  by_cases h : t' = t <;> simp [State.id, State.afterStart, State.setTrx, h]

@[simp]
theorem afterStart_recovering :
  ((s.afterStart t).trxes t').recovering = (s.trxes t').recovering
  := by
  by_cases h : t' = t <;> simp [State.afterStart, State.setTrx, h]

@[simp, grind =]
theorem afterStart_ops :
  (s.afterStart t).ops t' = s.ops t'
  := by
  by_cases h : t' = t <;> simp [State.ops, State.afterStart, State.setTrx, h]

@[simp, grind =]
theorem afterStart_active :
  (s.afterStart t).Active t' ↔ t' = t ∨ s.Active t'
  := by
  by_cases h : t' = t <;> simp [State.Active, State.afterStart, State.setTrx, h]

@[simp, grind =]
theorem afterInsert_store (q : Place) :
  (s.afterInsert t p data).store q
    = if q = p then some ⟨-s.id t, maxTrxId, data⟩ else s.store q
  := by
  by_cases h : q = p <;> simp [State.afterInsert, State.id, h]

@[simp, grind =]
theorem afterInsert_currentTrxId :
  (s.afterInsert t p data).currentTrxId = s.currentTrxId
  := rfl

@[simp, grind =]
theorem afterInsert_log :
  (s.afterInsert t p data).log = s.log ++ [.insertRecord (s.id t) p]
  := rfl

@[simp, grind =]
theorem afterInsert_id :
  (s.afterInsert t p data).id t' = s.id t'
  := by
  by_cases h : t' = t <;> simp [State.id, State.afterInsert, State.setTrx, h]

@[simp]
theorem afterInsert_recovering :
  ((s.afterInsert t p data).trxes t').recovering = (s.trxes t').recovering
  := by
  by_cases h : t' = t <;> simp [State.afterInsert, State.setTrx, h]

@[simp, grind =]
theorem afterInsert_ops :
  (s.afterInsert t p data).ops t' = if t' = t then s.ops t ++ [⟨.insert, p⟩] else s.ops t'
  := by
  by_cases h : t' = t <;> simp [State.ops, State.afterInsert, State.setTrx, h]

@[simp, grind =]
theorem afterInsert_active :
  (s.afterInsert t p data).Active t' ↔ s.Active t'
  := by
  by_cases h : t' = t <;> simp [State.Active, State.afterInsert, State.setTrx, h]

@[simp, grind =]
theorem afterDelete_store (q : Place) :
  (s.afterDelete t p r).store q
    = if q = p then some { r with endXid := -s.id t } else s.store q
  := by
  by_cases h : q = p <;> simp [State.afterDelete, State.id, h]

@[simp, grind =]
theorem afterDelete_currentTrxId :
  (s.afterDelete t p r).currentTrxId = s.currentTrxId
  := rfl

@[simp, grind =]
theorem afterDelete_log :
  (s.afterDelete t p r).log = s.log ++ [.deleteRecord (s.id t) p]
  := rfl

@[simp, grind =]
theorem afterDelete_id :
  (s.afterDelete t p r).id t' = s.id t'
  := by
  by_cases h : t' = t <;> simp [State.id, State.afterDelete, State.setTrx, h]

@[simp]
theorem afterDelete_recovering :
  ((s.afterDelete t p r).trxes t').recovering = (s.trxes t').recovering
  := by
  by_cases h : t' = t <;> simp [State.afterDelete, State.setTrx, h]

@[simp, grind =]
theorem afterDelete_ops :
  (s.afterDelete t p r).ops t' = if t' = t then s.ops t ++ [⟨.delete, p⟩] else s.ops t'
  := by
  by_cases h : t' = t <;> simp [State.ops, State.afterDelete, State.setTrx, h]

@[simp, grind =]
theorem afterDelete_active :
  (s.afterDelete t p r).Active t' ↔ s.Active t'
  := by
  by_cases h : t' = t <;> simp [State.Active, State.afterDelete, State.setTrx, h]

@[simp, grind =]
theorem afterCommit_store :
  (s.afterCommit t).store = commitEffect (s.ops t) s.nextTrxId s.store
  := rfl

@[simp, grind =]
theorem afterCommit_currentTrxId :
  (s.afterCommit t).currentTrxId = s.nextTrxId
  := rfl

@[simp, grind =]
theorem afterCommit_log :
  (s.afterCommit t).log = s.log ++ [.commit (s.id t) s.nextTrxId]
  := rfl

@[simp, grind =]
theorem afterCommit_id :
  (s.afterCommit t).id t' = s.id t'
  := by
  by_cases h : t' = t <;> simp [State.id, State.afterCommit, State.setTrx, h]

@[simp]
theorem afterCommit_recovering :
  ((s.afterCommit t).trxes t').recovering = (s.trxes t').recovering
  := by
  by_cases h : t' = t <;> simp [State.afterCommit, State.setTrx, h]

@[simp, grind =]
theorem afterCommit_ops :
  (s.afterCommit t).ops t' = if t' = t then [] else s.ops t'
  := by
  by_cases h : t' = t <;> simp [State.ops, State.afterCommit, State.setTrx, h]

@[simp, grind =]
theorem afterCommit_active :
  (s.afterCommit t).Active t' ↔ t' ≠ t ∧ s.Active t'
  := by
  by_cases h : t' = t <;> simp [State.Active, State.afterCommit, State.setTrx, h]

@[simp, grind =]
theorem afterRollback_store :
  (s.afterRollback t).store = rollbackEffect (s.ops t) s.store
  := rfl

@[simp, grind =]
theorem afterRollback_currentTrxId :
  (s.afterRollback t).currentTrxId = s.currentTrxId
  := rfl

@[simp, grind =]
theorem afterRollback_log :
  (s.afterRollback t).log = s.log ++ [.rollback (s.id t)]
  := rfl

@[simp, grind =]
theorem afterRollback_id :
  (s.afterRollback t).id t' = s.id t'
  := by
  by_cases h : t' = t <;> simp [State.id, State.afterRollback, State.setTrx, h]

@[simp]
theorem afterRollback_recovering :
  ((s.afterRollback t).trxes t').recovering = (s.trxes t').recovering
  := by
  by_cases h : t' = t <;> simp [State.afterRollback, State.setTrx, h]

@[simp, grind =]
theorem afterRollback_ops :
  (s.afterRollback t).ops t' = if t' = t then [] else s.ops t'
  := by
  by_cases h : t' = t <;> simp [State.ops, State.afterRollback, State.setTrx, h]

@[simp, grind =]
theorem afterRollback_active :
  (s.afterRollback t).Active t' ↔ t' ≠ t ∧ s.Active t'
  := by
  by_cases h : t' = t <;> simp [State.Active, State.afterRollback, State.setTrx, h]

end

/-- What a call that returns can do, when no object is recovering. -/
inductive Effect (s : State D) : Event D → State D → Prop where
  /-- The call changes nothing; it is neither a commit nor a rollback, nor an insertion for
  which the table has a place. -/
  | same (e : Event D) (goes_on : ∀ t, e ≠ .commit t ∧ e ≠ .rollback t
      ∧ ∀ table rid data, e ≠ .insertRecord t table (.ok rid) data) : Effect s e s
  | start (t : TrxRef) (idle : (s.trxes t).started = false)
      (empty : (s.trxes t).operations = []) :
      Effect s (.startIfNeed t) (s.afterStart t)
  | insert (t : TrxRef) (table : TableId) (rid : RID) (data : D)
      (started : (s.trxes t).started = true) (free : s.store ⟨table, rid⟩ = none) :
      Effect s (.insertRecord t table (.ok rid) data) (s.afterInsert t ⟨table, rid⟩ data)
  | delete (t : TrxRef) (p : Place) (r : Record D) (started : (s.trxes t).started = true)
      (found : s.store p = some r)
      (visible : visitRecord (s.trxes t).trxId r .readWrite = .success) :
      Effect s (.deleteRecord t p) (s.afterDelete t p r)
  | commit (t : TrxRef) (pos : 0 < (s.trxes t).trxId) : Effect s (.commit t) (s.afterCommit t)
  | rollback (t : TrxRef) (pos : 0 < (s.trxes t).trxId) :
      Effect s (.rollback t) (s.afterRollback t)

theorem pushOperation_eq {t : TrxRef} {op : Operation} {entry : LogEntry} {rc : RC}
    (h : pushOperation t op entry s = .ok (rc, s')) :
  s' = { s.setTrx t { s.trxes t with operations := (s.trxes t).operations ++ [op] } with
    log := s.log ++ [entry] }
  := by
  rw [pushOperation] at h
  split at h
  · cases h
    rfl
  · cases h

/-- A call that returns has one of the effects listed. -/
theorem Step.effect {e : Event D} (hrec : ∀ t, (s.trxes t).recovering = false)
    (h : Step s e s') :
  Effect s e s'
  := by
  obtain ⟨hadm, rc, h⟩ := h
  cases e with
  | startIfNeed t =>
    rw [exec, startIfNeed] at h
    split at h
    · cases h
      apply Effect.same _ (by simp)
    · split at h
      · cases h
      · rename_i hidle hops
        cases h
        apply Effect.start t (by simpa using hidle) (by simpa using hops)
  | insertRecord t table placed data =>
    cases placed with
    | error rc' =>
      cases h
      apply Effect.same _ (by simp)
    | ok rid =>
      rw [exec, insertRecord] at h
      rw [pushOperation_eq h]
      apply Effect.insert t table rid data hadm.1 (hadm.2 rid rfl)
  | deleteRecord t p =>
    rw [exec, deleteRecord] at h
    cases hr : s.store p with
    | none =>
      simp only [hr] at h
      cases h
      apply Effect.same _ (by simp)
    | some r =>
      simp only [hr] at h
      split at h
      · rename_i hv
        rw [pushOperation_eq h]
        apply Effect.delete t p r hadm hr hv
      · cases h
        apply Effect.same _ (by simp)
  | commit t =>
    rw [exec, commit, commitWithTrxId] at h
    dsimp only at h
    split at h
    · cases h
    · rename_i store hstore
      rw [if_neg (by simp [hrec t])] at h
      split at h
      · rename_i hpos
        cases h
        rw [foldlM_commitOperation hstore]
        apply Effect.commit t hpos.1
      · cases h
  | rollback t =>
    rw [exec, rollback] at h
    dsimp only at h
    split at h
    · cases h
    · rename_i rc' store hstore
      rw [if_neg (by simp [hrec t])] at h
      split at h
      · rename_i hpos
        cases h
        rw [foldlM_rollbackOperation (hrec t) hstore]
        have hmem : rollbackEffect (s.trxes t).operations.reverse s.store
            = rollbackEffect (s.trxes t).operations s.store := by
          funext p
          simp only [rollbackEffect, List.mem_reverse]
        rw [hmem]
        apply Effect.rollback t hpos
      · cases h

/-- An idle object starts. -/
theorem step_afterStart {t : TrxRef} (hidle : (s.trxes t).started = false)
    (hops : (s.trxes t).operations = []) :
  Step s (.startIfNeed t) (s.afterStart t)
  := by
  refine ⟨trivial, .success, ?_⟩
  simp [exec, startIfNeed, hidle, hops, State.afterStart]

/-- A started object with a positive id inserts a record at a free place. -/
theorem step_afterInsert {t : TrxRef} {table : TableId} {rid : RID} {data : D}
    (hstarted : (s.trxes t).started = true) (hpos : 0 < (s.trxes t).trxId)
    (hfree : s.store ⟨table, rid⟩ = none) :
  Step s (.insertRecord t table (.ok rid) data) (s.afterInsert t ⟨table, rid⟩ data)
  := by
  refine ⟨⟨hstarted, ?_⟩, .success, ?_⟩
  · rintro rid' ⟨⟩
    apply hfree
  · simp [exec, insertRecord, pushOperation, hpos, State.afterInsert, State.setTrx]

/-! ### Visibility -/

/-- A record is deletable by the transaction `id` when it is committed and `id` lies
between its two ids, or when `id` has inserted it. -/
theorem visitRecord_readWrite {id : Int} {r : Record D} (hb : r.beginXid ≠ 0)
    (he : r.endXid ≠ 0) :
  visitRecord id r .readWrite = .success
    ↔ (0 < r.beginXid ∧ 0 < r.endXid ∧ r.beginXid ≤ id ∧ id ≤ r.endXid)
      ∨ (r.beginXid < 0 ∧ r.beginXid = -id)
  := by
  rw [visitRecord]
  split_ifs <;> simp <;> omega

/-- A record is visible to a reader `id` when it is committed and `id` lies between its
two ids, when `id` has inserted it, or when another transaction is deleting it. -/
theorem visitRecord_readOnly {id : Int} {r : Record D} (hb : r.beginXid ≠ 0)
    (he : r.endXid ≠ 0) :
  visitRecord id r .readOnly
    = if (0 < r.beginXid ∧ 0 < r.endXid ∧ r.beginXid ≤ id ∧ id ≤ r.endXid)
        ∨ (r.beginXid < 0 ∧ r.beginXid = -id)
        ∨ (0 < r.beginXid ∧ r.endXid < 0 ∧ r.endXid ≠ -id)
      then .success else .recordInvisible
  := by
  rw [visitRecord]
  split_ifs <;> first | rfl | omega

/-! ### The invariant -/

/-- The call finds the id counter below the largest 32-bit integer if it draws an id. -/
def CounterOk (s : State D) : Event D → Prop
  | .startIfNeed _ => s.currentTrxId < int32Max
  | .commit _ => s.currentTrxId < int32Max
  | _ => True

/-- The invariant of the transaction system. -/
structure Inv (s : State D) : Prop where
  current_nonneg : 0 ≤ s.currentTrxId
  current_le : s.currentTrxId ≤ int32Max
  recovering : ∀ t, (s.trxes t).recovering = false
  /-- Only active transactions have operations. -/
  active_of_mem : ∀ t, ∀ op ∈ s.ops t, s.Active t
  id_pos : ∀ t, s.Active t → 0 < s.id t
  id_le : ∀ t, s.id t ≤ s.currentTrxId
  id_inj : ∀ t t', s.Active t → s.Active t' → s.id t = s.id t' → t = t'
  /-- A record is committed, or an active transaction has inserted it. -/
  begin_owner : ∀ p r, s.store p = some r →
    (0 < r.beginXid ∧ r.beginXid ≤ s.currentTrxId)
      ∨ ∃ t, s.Active t ∧ r.beginXid = -s.id t ∧ ⟨.insert, p⟩ ∈ s.ops t
  /-- A record is not deleted, its deletion is committed, or an active transaction has
  deleted it. -/
  end_owner : ∀ p r, s.store p = some r →
    r.endXid = maxTrxId ∨ (0 < r.endXid ∧ r.endXid ≤ s.currentTrxId)
      ∨ ∃ t, s.Active t ∧ r.endXid = -s.id t ∧ ⟨.delete, p⟩ ∈ s.ops t
  /-- Nobody but the inserting transaction deletes a record that is not committed. -/
  own : ∀ p r, s.store p = some r → ∀ t, s.Active t → r.beginXid = -s.id t →
    r.endXid = maxTrxId ∨ r.endXid = -s.id t
  insert_mem : ∀ t p, ⟨.insert, p⟩ ∈ s.ops t →
    ∃ r, s.store p = some r ∧ r.beginXid = -s.id t
  delete_mem : ∀ t p, ⟨.delete, p⟩ ∈ s.ops t →
    ∃ r, s.store p = some r ∧ r.endXid = -s.id t

theorem inv_init : Inv (State.init : State D) := by
  constructor <;> simp [State.init, State.ops, State.Active, State.id, int32Max]

namespace Inv

theorem nextTrxId_eq (h : Inv s) (hc : s.currentTrxId < int32Max) :
  s.nextTrxId = s.currentTrxId + 1
  := by
  have := h.current_nonneg
  apply int32_of_mem <;> omega

theorem begin_ne_zero (h : Inv s) {p : Place} {r : Record D} (hr : s.store p = some r) :
  r.beginXid ≠ 0
  := by
  obtain hb | ⟨t, ht, hb, -⟩ := h.begin_owner p r hr
  · omega
  · have := h.id_pos t ht
    omega

theorem end_ne_zero (h : Inv s) {p : Place} {r : Record D} (hr : s.store p = some r) :
  r.endXid ≠ 0
  := by
  obtain he | he | ⟨t, ht, he, -⟩ := h.end_owner p r hr
  · rw [he, maxTrxId, int32Max]
    omega
  · omega
  · have := h.id_pos t ht
    omega

/-- A record that carries minus the id of an active transaction was inserted by it. -/
theorem mem_insert (h : Inv s) {p : Place} {r : Record D} {t : TrxRef}
    (hr : s.store p = some r) (ht : s.Active t) (hb : r.beginXid = -s.id t) :
  ⟨.insert, p⟩ ∈ s.ops t
  := by
  have hpos := h.id_pos t ht
  obtain hb' | ⟨t', ht', hb', hmem⟩ := h.begin_owner p r hr
  · omega
  · obtain rfl := h.id_inj t t' ht ht' (by omega)
    apply hmem

/-- A record that carries minus the id of an active transaction was deleted by it. -/
theorem mem_delete (h : Inv s) {p : Place} {r : Record D} {t : TrxRef}
    (hr : s.store p = some r) (ht : s.Active t) (he : r.endXid = -s.id t) :
  ⟨.delete, p⟩ ∈ s.ops t
  := by
  have hpos := h.id_pos t ht
  obtain he' | he' | ⟨t', ht', he', hmem⟩ := h.end_owner p r hr
  · rw [maxTrxId, int32Max] at he'
    omega
  · omega
  · obtain rfl := h.id_inj t t' ht ht' (by omega)
    apply hmem

theorem begin_of_mem (h : Inv s) {p : Place} {r : Record D} {t : TrxRef}
    (hr : s.store p = some r) (hmem : ⟨.insert, p⟩ ∈ s.ops t) :
  r.beginXid = -s.id t
  := by
  obtain ⟨r', hr', hb⟩ := h.insert_mem t p hmem
  rw [hr] at hr'
  cases hr'
  apply hb

theorem end_of_mem (h : Inv s) {p : Place} {r : Record D} {t : TrxRef}
    (hr : s.store p = some r) (hmem : ⟨.delete, p⟩ ∈ s.ops t) :
  r.endXid = -s.id t
  := by
  obtain ⟨r', hr', he⟩ := h.delete_mem t p hmem
  rw [hr] at hr'
  cases hr'
  apply he

/-- A record has one inserting transaction. -/
theorem insert_unique (h : Inv s) {p : Place} {t t' : TrxRef}
    (hmem : ⟨.insert, p⟩ ∈ s.ops t) (hmem' : ⟨.insert, p⟩ ∈ s.ops t') :
  t = t'
  := by
  obtain ⟨r, hr, hb⟩ := h.insert_mem t p hmem
  have hb' := h.begin_of_mem hr hmem'
  apply h.id_inj t t' (h.active_of_mem t _ hmem) (h.active_of_mem t' _ hmem')
  omega

/-- A record has at most one transaction that is deleting it. -/
theorem delete_unique (h : Inv s) {p : Place} {t t' : TrxRef}
    (hmem : ⟨.delete, p⟩ ∈ s.ops t) (hmem' : ⟨.delete, p⟩ ∈ s.ops t') :
  t = t'
  := by
  obtain ⟨r, hr, he⟩ := h.delete_mem t p hmem
  have he' := h.end_of_mem hr hmem'
  apply h.id_inj t t' (h.active_of_mem t _ hmem) (h.active_of_mem t' _ hmem')
  omega

/-- Nobody deletes a record that another active transaction has inserted. -/
theorem delete_own (h : Inv s) {p : Place} {t t' : TrxRef}
    (hmem : ⟨.insert, p⟩ ∈ s.ops t) (hmem' : ⟨.delete, p⟩ ∈ s.ops t') :
  t' = t
  := by
  obtain ⟨r, hr, hb⟩ := h.insert_mem t p hmem
  have he := h.end_of_mem hr hmem'
  have ht := h.active_of_mem t _ hmem
  have ht' := h.active_of_mem t' _ hmem'
  have hpos := h.id_pos t' ht'
  obtain he' | he' := h.own p r hr t ht hb
  · rw [maxTrxId, int32Max] at he'
    omega
  · apply h.id_inj t' t ht' ht
    omega

/-- A record that a transaction deletes without having inserted it is committed. -/
theorem begin_pos_of_delete (h : Inv s) {p : Place} {r : Record D} {t : TrxRef}
    (hr : s.store p = some r) (hdel : ⟨.delete, p⟩ ∈ s.ops t)
    (hins : ⟨.insert, p⟩ ∉ s.ops t) :
  0 < r.beginXid
  := by
  obtain hb | ⟨t', ht', hb, hmem⟩ := h.begin_owner p r hr
  · apply hb.1
  · obtain rfl := h.delete_own hmem hdel
    contradiction

/-! ### Preservation -/

theorem afterStart (h : Inv s) (hc : s.currentTrxId < int32Max) {t : TrxRef}
    (hidle : ¬ s.Active t) :
  Inv (s.afterStart t)
  := by
  have hn := h.nextTrxId_eq hc
  have h0 := h.current_nonneg
  have hne : ∀ t', s.Active t' → t' ≠ t := by
    rintro t' ht' rfl
    apply hidle ht'
  constructor <;>
    simp only [afterStart_store, afterStart_currentTrxId, afterStart_id, afterStart_ops,
      afterStart_active, afterStart_recovering, hn]
  case current_nonneg => omega
  case current_le => omega
  case recovering => apply h.recovering
  case active_of_mem =>
    intro t' op hop
    right
    apply h.active_of_mem t' op hop
  case id_pos =>
    intro t' ht'
    have := h.id_pos t'
    grind
  case id_le =>
    intro t'
    have := h.id_le t'
    grind
  case id_inj =>
    intro t₁ t₂
    have := h.id_inj t₁ t₂
    have := h.id_le t₁
    have := h.id_le t₂
    grind
  case begin_owner =>
    intro p r hr
    obtain hb | ⟨t', ht', hb, hmem⟩ := h.begin_owner p r hr
    · left
      omega
    · right
      use t'
      simp [hne t' ht', ht', hb, hmem]
  case end_owner =>
    intro p r hr
    obtain he | he | ⟨t', ht', he, hmem⟩ := h.end_owner p r hr
    · left
      apply he
    · right; left
      omega
    · right; right
      use t'
      simp [hne t' ht', ht', he, hmem]
  case own =>
    intro p r hr t' ht' hb
    have hown := h.own p r hr t'
    obtain hb' | ⟨t'', -, hb', -⟩ := h.begin_owner p r hr
    · grind
    · have := h.id_le t''
      grind
  case insert_mem =>
    intro t' p hmem
    rw [if_neg (hne t' (h.active_of_mem t' _ hmem))]
    apply h.insert_mem t' p hmem
  case delete_mem =>
    intro t' p hmem
    rw [if_neg (hne t' (h.active_of_mem t' _ hmem))]
    apply h.delete_mem t' p hmem

theorem afterInsert (h : Inv s) {t : TrxRef} {p : Place} (data : D) (ht : s.Active t)
    (hfree : s.store p = none) :
  Inv (s.afterInsert t p data)
  := by
  constructor <;>
    simp only [afterInsert_store, afterInsert_currentTrxId, afterInsert_id, afterInsert_ops,
      afterInsert_active, afterInsert_recovering]
  case current_nonneg => apply h.current_nonneg
  case current_le => apply h.current_le
  case recovering => apply h.recovering
  case active_of_mem =>
    intro t' op hop
    have := h.active_of_mem t' op
    grind
  case id_pos => apply h.id_pos
  case id_le => apply h.id_le
  case id_inj => apply h.id_inj
  case begin_owner =>
    intro q r hr
    split at hr
    · right
      use t
      grind
    · obtain hb | ⟨t', ht', hb, hmem⟩ := h.begin_owner q r hr
      · left
        apply hb
      · right
        use t'
        grind
  case end_owner =>
    intro q r hr
    split at hr
    · grind
    · obtain he | he | ⟨t', ht', he, hmem⟩ := h.end_owner q r hr
      · left
        apply he
      · right; left
        apply he
      · right; right
        use t'
        grind
  case own =>
    intro q r hr t' ht'
    split at hr
    · grind
    · apply h.own q r hr t' ht'
  case insert_mem =>
    intro t' q hmem
    have hold := h.insert_mem t' q
    by_cases hq : q = p
    · rw [if_pos hq]
      refine ⟨_, rfl, ?_⟩
      grind
    · rw [if_neg hq]
      apply hold
      grind
  case delete_mem =>
    intro t' q hmem
    have hold := h.delete_mem t' q
    grind

theorem afterDelete (h : Inv s) {t : TrxRef} {p : Place} {r : Record D} (ht : s.Active t)
    (hr : s.store p = some r) (hv : visitRecord (s.id t) r .readWrite = .success) :
  Inv (s.afterDelete t p r)
  := by
  have hv' := (visitRecord_readWrite (h.begin_ne_zero hr) (h.end_ne_zero hr)).mp hv
  -- no other active transaction is deleting the record
  have hfree : ∀ t', s.Active t' → r.endXid = -s.id t' → t' = t := by
    intro t' ht' he
    have hpos := h.id_pos t' ht'
    have hown := h.own p r hr t ht
    have := h.id_inj t' t ht' ht
    grind [maxTrxId, int32Max]
  constructor <;>
    simp only [afterDelete_store, afterDelete_currentTrxId, afterDelete_id, afterDelete_ops,
      afterDelete_active, afterDelete_recovering]
  case current_nonneg => apply h.current_nonneg
  case current_le => apply h.current_le
  case recovering => apply h.recovering
  case active_of_mem =>
    intro t' op hop
    have := h.active_of_mem t' op
    grind
  case id_pos => apply h.id_pos
  case id_le => apply h.id_le
  case id_inj => apply h.id_inj
  case begin_owner =>
    intro q r' hr'
    have hold : ∃ r₀, s.store q = some r₀ ∧ r₀.beginXid = r'.beginXid := by grind
    obtain ⟨r₀, hr₀, hb₀⟩ := hold
    obtain hb | ⟨t', ht', hb, hmem⟩ := h.begin_owner q r₀ hr₀
    · left
      omega
    · right
      use t'
      grind
  case end_owner =>
    intro q r' hr'
    split at hr'
    · right; right
      use t
      grind
    · obtain he | he | ⟨t', ht', he, hmem⟩ := h.end_owner q r' hr'
      · left
        apply he
      · right; left
        apply he
      · right; right
        use t'
        grind
  case own =>
    intro q r' hr' t' ht' hb
    split at hr'
    · have hpos := h.id_pos t' ht'
      have := h.id_inj t' t ht' ht
      grind
    · apply h.own q r' hr' t' ht' hb
  case insert_mem =>
    intro t' q hmem
    obtain ⟨r', hr', hb⟩ := h.insert_mem t' q (by grind)
    by_cases hq : q = p
    · rw [if_pos hq]
      refine ⟨_, rfl, ?_⟩
      grind
    · rw [if_neg hq]
      use r', hr', hb
  case delete_mem =>
    intro t' q hmem
    have hold := h.delete_mem t' q
    have hact := h.active_of_mem t' ⟨.delete, q⟩
    by_cases hq : q = p
    · rw [if_pos hq]
      refine ⟨_, rfl, ?_⟩
      grind
    · rw [if_neg hq]
      apply hold
      grind

theorem afterCommit (h : Inv s) (hc : s.currentTrxId < int32Max) (t : TrxRef) :
  Inv (s.afterCommit t)
  := by
  have hn := h.nextTrxId_eq hc
  have h0 := h.current_nonneg
  constructor <;>
    simp only [afterCommit_store, afterCommit_currentTrxId, afterCommit_id, afterCommit_ops,
      afterCommit_active, afterCommit_recovering, hn, commitEffect, Option.map_eq_some_iff]
  case current_nonneg => omega
  case current_le => omega
  case recovering => apply h.recovering
  case active_of_mem =>
    intro t' op hop
    have := h.active_of_mem t' op
    grind
  case id_pos =>
    intro t' ht'
    apply h.id_pos t' ht'.2
  case id_le =>
    intro t'
    have := h.id_le t'
    omega
  case id_inj =>
    intro t₁ t₂ h₁ h₂
    apply h.id_inj t₁ t₂ h₁.2 h₂.2
  case begin_owner =>
    rintro p _ ⟨r, hr, rfl⟩
    dsimp only
    split
    · left
      omega
    · obtain hb | ⟨t', ht', hb, hmem⟩ := h.begin_owner p r hr
      · left
        omega
      · right
        use t'
        grind
  case end_owner =>
    rintro p _ ⟨r, hr, rfl⟩
    dsimp only
    split
    · right; left
      omega
    · obtain he | he | ⟨t', ht', he, hmem⟩ := h.end_owner p r hr
      · left
        apply he
      · right; left
        omega
      · right; right
        use t'
        grind
  case own =>
    rintro p _ ⟨r, hr, rfl⟩ t' ⟨hne, ht'⟩ hb
    dsimp only at hb ⊢
    have hpos := h.id_pos t' ht'
    have hb' : r.beginXid = -s.id t' := by grind
    have hmem := h.mem_insert hr ht' hb'
    rw [if_neg (fun hmem' => hne (h.delete_own hmem hmem').symm)]
    apply h.own p r hr t' ht' hb'
  case insert_mem =>
    intro t' p hmem
    have hne : t' ≠ t := by grind
    rw [if_neg hne] at hmem
    obtain ⟨r, hr, hb⟩ := h.insert_mem t' p hmem
    refine ⟨_, ⟨r, hr, rfl⟩, ?_⟩
    rw [if_neg (fun hmem' => hne (h.insert_unique hmem hmem')), hb]
  case delete_mem =>
    intro t' p hmem
    have hne : t' ≠ t := by grind
    rw [if_neg hne] at hmem
    obtain ⟨r, hr, he⟩ := h.delete_mem t' p hmem
    refine ⟨_, ⟨r, hr, rfl⟩, ?_⟩
    rw [if_neg (fun hmem' => hne (h.delete_unique hmem hmem')), he]

theorem afterRollback (h : Inv s) (t : TrxRef) :
  Inv (s.afterRollback t)
  := by
  constructor <;>
    simp only [afterRollback_store, afterRollback_currentTrxId, afterRollback_id,
      afterRollback_ops, afterRollback_active, afterRollback_recovering, rollbackEffect]
  case current_nonneg => apply h.current_nonneg
  case current_le => apply h.current_le
  case recovering => apply h.recovering
  case active_of_mem =>
    intro t' op hop
    have := h.active_of_mem t' op
    grind
  case id_pos =>
    intro t' ht'
    apply h.id_pos t' ht'.2
  case id_le => apply h.id_le
  case id_inj =>
    intro t₁ t₂ h₁ h₂
    apply h.id_inj t₁ t₂ h₁.2 h₂.2
  case begin_owner =>
    intro p r' hr'
    obtain ⟨hins, r, hr, rfl⟩ := of_rollbackEffect hr'
    obtain hb | ⟨t', ht', hb, hmem⟩ := h.begin_owner p r hr
    · left
      apply hb
    · right
      use t'
      grind
  case end_owner =>
    intro p r' hr'
    obtain ⟨hins, r, hr, rfl⟩ := of_rollbackEffect hr'
    dsimp only
    split
    · left
      rfl
    · obtain he | he | ⟨t', ht', he, hmem⟩ := h.end_owner p r hr
      · left
        apply he
      · right; left
        apply he
      · right; right
        use t'
        grind
  case own =>
    rintro p r' hr' t' ⟨hne, ht'⟩ hb
    obtain ⟨hins, r, hr, rfl⟩ := of_rollbackEffect hr'
    have hmem := h.mem_insert hr ht' hb
    dsimp only
    rw [if_neg (fun hmem' => hne (h.delete_own hmem hmem').symm)]
    apply h.own p r hr t' ht' hb
  case insert_mem =>
    intro t' p hmem
    have hne : t' ≠ t := by grind
    rw [if_neg hne] at hmem
    obtain ⟨r, hr, hb⟩ := h.insert_mem t' p hmem
    rw [if_neg (fun hmem' => hne (h.insert_unique hmem hmem')), hr]
    refine ⟨_, rfl, hb⟩
  case delete_mem =>
    intro t' p hmem
    have hne : t' ≠ t := by grind
    rw [if_neg hne] at hmem
    obtain ⟨r, hr, he⟩ := h.delete_mem t' p hmem
    rw [if_neg (fun hmem' => hne (h.delete_own hmem' hmem)), hr]
    refine ⟨_, rfl, ?_⟩
    dsimp only
    rw [if_neg (fun hmem' => hne (h.delete_unique hmem hmem')), he]

/-- Every call that returns preserves the invariant, if the id counter does not wrap. -/
theorem step (h : Inv s) {e : Event D} (hc : CounterOk s e) (hs : Step s e s') :
  Inv s'
  := by
  cases hs.effect h.recovering with
  | same => apply h
  | start t hidle _ => apply h.afterStart hc (by simpa [State.Active] using hidle)
  | insert t table rid data ht hfree => apply h.afterInsert data ht hfree
  | delete t p r ht hr hv => apply h.afterDelete ht hr hv
  | commit t _ => apply h.afterCommit hc
  | rollback t _ => apply h.afterRollback

end Inv

end MiniOB.Mvcc
