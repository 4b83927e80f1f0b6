import MiniOB.Lib.Run
import MiniOB.Trx.Invariant

/-!
# Calls that take several steps

`MvccTrx::commit` draws its id and then rewrites the records one after the other, and
`MvccTrx::rollback` takes its operations back one after the other. Other transactions go
on in between. Here every turn of these loops is a step of its own, and what a
transaction sees is stated over all interleavings of the steps.
-/

namespace MiniOB.Mvcc.Interleaved

open Transition

variable {D : Type}

/-- A call of `commit` or `rollback` that is under way, with the operations that its loop
has not come to. -/
inductive Ongoing where
  | none
  | commit (commitXid : Int) (rest : List Operation)
  | rollback (rc : RC) (rest : List Operation)
  deriving DecidableEq, Repr

/-- The operations that the loop has not come to. -/
def Ongoing.rest : Ongoing → List Operation
  | none => []
  | commit _ rest => rest
  | rollback _ rest => rest

/-- The transaction system, and the calls that are under way. -/
structure State (D : Type) where
  base : Mvcc.State D
  ongoing : TrxRef → Ongoing

/-- The state of a new, empty database. -/
def State.init : State D := ⟨Mvcc.State.init, fun _ => .none⟩

/-- The steps: a call begins, which is all of it but for `commit` and `rollback`; a turn of
the loop of one of these; and their end. -/
inductive Event (D : Type) where
  | call (e : Mvcc.Event D)
  | turn (t : TrxRef)
  | finish (t : TrxRef)

/-- The object `t` has left `started_`, which is how `commit` and `rollback` begin. -/
def stop (s : Mvcc.State D) (t : TrxRef) : Mvcc.State D :=
  s.setTrx t { s.trxes t with started := false }

/-- The operations of the object `t` are cleared, and an entry is appended to the log. -/
def clear (s : Mvcc.State D) (t : TrxRef) (log : List LogEntry) : Mvcc.State D :=
  { s.setTrx t { s.trxes t with operations := [] } with log := log }

/-- The beginning of a call. -/
def call (s : State D) : Mvcc.Event D → Except AssertFailure (State D)
  | .commit t =>
    .ok ⟨{ stop s.base t with currentTrxId := s.base.nextTrxId },
      Function.update s.ongoing t (.commit s.base.nextTrxId (s.base.ops t))⟩
  | .rollback t =>
    .ok ⟨stop s.base t, Function.update s.ongoing t (.rollback .success (s.base.ops t).reverse)⟩
  | e => (Mvcc.exec s.base e).map fun result => ⟨result.2, s.ongoing⟩

/-- A turn of the loop of the call that is under way. -/
def turn (t : TrxRef) (s : State D) : Except AssertFailure (State D) :=
  match s.ongoing t with
  | .commit commitXid (op :: rest) =>
    (commitOperation (s.base.trxes t) commitXid s.base.store op).map fun store =>
      ⟨{ s.base with store := store }, Function.update s.ongoing t (.commit commitXid rest)⟩
  | .rollback rc (op :: rest) =>
    (rollbackOperation (s.base.trxes t) (rc, s.base.store) op).map fun result =>
      ⟨{ s.base with store := result.2 },
        Function.update s.ongoing t (.rollback result.1 rest)⟩
  | _ => .ok s

/-- The end of the call that is under way, once its loop has ended. -/
def finish (t : TrxRef) (s : State D) : Except AssertFailure (State D) :=
  let trx := s.base.trxes t
  let ended (log : List LogEntry) : State D :=
    ⟨clear s.base t log, Function.update s.ongoing t .none⟩
  match s.ongoing t with
  | .commit commitXid [] =>
    if trx.recovering then .ok (ended s.base.log)
    else if 0 < trx.trxId ∧ trx.trxId < commitXid then
      .ok (ended (s.base.log ++ [.commit trx.trxId commitXid]))
    else .error .logTrxId
  | .rollback _ [] =>
    if trx.recovering then .ok (ended s.base.log)
    else if 0 < trx.trxId then .ok (ended (s.base.log ++ [.rollback trx.trxId]))
    else .error .logTrxId
  | _ => .ok s

/-- The outcome of a step. -/
def exec (s : State D) : Event D → Except AssertFailure (State D)
  | .call e => call s e
  | .turn t => turn t s
  | .finish t => finish t s

/-- A transaction object is used for one call at a time. -/
def Admissible (s : State D) : Event D → Prop
  | .call e => Mvcc.Admissible s.base e ∧ s.ongoing e.trx = .none
  | _ => True

/-- A step that does not stop the server leads from `s` to `s'`. -/
def Step (s : State D) (e : Event D) (s' : State D) : Prop :=
  Admissible s e ∧ exec s e = .ok s'

variable {s s' : State D}

section

variable (base : Mvcc.State D) (t t' : TrxRef) (log : List LogEntry)

@[simp, grind =]
theorem stop_id :
  (stop base t).id t' = base.id t'
  := by
  by_cases h : t' = t <;> simp [Mvcc.State.id, stop, State.setTrx, h]

@[simp, grind =]
theorem stop_ops :
  (stop base t).ops t' = base.ops t'
  := by
  by_cases h : t' = t <;> simp [Mvcc.State.ops, stop, State.setTrx, h]

@[simp, grind =]
theorem stop_active :
  (stop base t).Active t' ↔ t' ≠ t ∧ base.Active t'
  := by
  by_cases h : t' = t <;> simp [Mvcc.State.Active, stop, State.setTrx, h]

@[simp]
theorem stop_recovering :
  ((stop base t).trxes t').recovering = (base.trxes t').recovering
  := by
  by_cases h : t' = t <;> simp [stop, State.setTrx, h]

@[simp, grind =]
theorem clear_store :
  (clear base t log).store = base.store
  := rfl

@[simp, grind =]
theorem clear_currentTrxId :
  (clear base t log).currentTrxId = base.currentTrxId
  := rfl

@[simp, grind =]
theorem clear_id :
  (clear base t log).id t' = base.id t'
  := by
  by_cases h : t' = t <;> simp [Mvcc.State.id, clear, State.setTrx, h]

@[simp, grind =]
theorem clear_ops :
  (clear base t log).ops t' = if t' = t then [] else base.ops t'
  := by
  by_cases h : t' = t <;> simp [Mvcc.State.ops, clear, State.setTrx, h]

@[simp, grind =]
theorem clear_active :
  (clear base t log).Active t' ↔ base.Active t'
  := by
  by_cases h : t' = t <;> simp [Mvcc.State.Active, clear, State.setTrx, h]

@[simp]
theorem clear_recovering :
  ((clear base t log).trxes t').recovering = (base.trxes t').recovering
  := by
  by_cases h : t' = t <;> simp [clear, State.setTrx, h]

end

/-! ### What the steps do -/

/-- What a step can do, when no object is recovering. -/
inductive Effect (s : State D) : Event D → State D → Prop where
  | same (e : Event D) : Effect s e s
  | start (t : TrxRef) (idle : ¬ s.base.Active t) (none : s.ongoing t = .none) :
      Effect s (.call (.startIfNeed t)) ⟨s.base.afterStart t, s.ongoing⟩
  | insert (t : TrxRef) (table : TableId) (rid : RID) (data : D) (active : s.base.Active t)
      (free : s.base.store ⟨table, rid⟩ = none) :
      Effect s (.call (.insertRecord t table (.ok rid) data))
        ⟨s.base.afterInsert t ⟨table, rid⟩ data, s.ongoing⟩
  | delete (t : TrxRef) (p : Place) (r : Record D) (active : s.base.Active t)
      (found : s.base.store p = some r)
      (visible : visitRecord (s.base.id t) r .readWrite = .success) :
      Effect s (.call (.deleteRecord t p)) ⟨s.base.afterDelete t p r, s.ongoing⟩
  | commit (t : TrxRef) (none : s.ongoing t = .none) :
      Effect s (.call (.commit t)) ⟨{ stop s.base t with currentTrxId := s.base.nextTrxId },
        Function.update s.ongoing t (.commit s.base.nextTrxId (s.base.ops t))⟩
  | rollback (t : TrxRef) (none : s.ongoing t = .none) :
      Effect s (.call (.rollback t)) ⟨stop s.base t,
        Function.update s.ongoing t (.rollback .success (s.base.ops t).reverse)⟩
  | commitInsert (t : TrxRef) (c : Int) (p : Place) (rest : List Operation) (r : Record D)
      (ongoing : s.ongoing t = .commit c (⟨.insert, p⟩ :: rest))
      (found : s.base.store p = some r) (owned : r.beginXid = -s.base.id t) :
      Effect s (.turn t) ⟨{ s.base with
          store := Function.update s.base.store p (some { r with beginXid := c }) },
        Function.update s.ongoing t (.commit c rest)⟩
  | commitDelete (t : TrxRef) (c : Int) (p : Place) (rest : List Operation) (r : Record D)
      (ongoing : s.ongoing t = .commit c (⟨.delete, p⟩ :: rest))
      (found : s.base.store p = some r) (owned : r.endXid = -s.base.id t) :
      Effect s (.turn t) ⟨{ s.base with
          store := Function.update s.base.store p (some { r with endXid := c }) },
        Function.update s.ongoing t (.commit c rest)⟩
  | rollbackInsert (t : TrxRef) (rc : RC) (p : Place) (rest : List Operation)
      (ongoing : s.ongoing t = .rollback rc (⟨.insert, p⟩ :: rest)) :
      Effect s (.turn t) ⟨{ s.base with store := Function.update s.base.store p none },
        Function.update s.ongoing t (.rollback .success rest)⟩
  | rollbackDelete (t : TrxRef) (rc : RC) (p : Place) (rest : List Operation) (r : Record D)
      (ongoing : s.ongoing t = .rollback rc (⟨.delete, p⟩ :: rest))
      (found : s.base.store p = some r) (owned : r.endXid = -s.base.id t) :
      Effect s (.turn t) ⟨{ s.base with
          store := Function.update s.base.store p (some { r with endXid := maxTrxId }) },
        Function.update s.ongoing t (.rollback .success rest)⟩
  | finish (t : TrxRef) (log : List LogEntry) (busy : s.ongoing t ≠ .none) :
      Effect s (.finish t) ⟨clear s.base t log, Function.update s.ongoing t .none⟩

/-- A turn of a commit finds the record that the transaction has left. -/
theorem of_commitOperation {trx : MvccTrx} {c : Int} {store store' : Store D} {type : OperationType}
    {p : Place} (h : commitOperation trx c store ⟨type, p⟩ = .ok store') :
  ∃ r, store p = some r ∧ match type with
    | .insert => r.beginXid = -trx.trxId
      ∧ store' = Function.update store p (some { r with beginXid := c })
    | .delete => r.endXid = -trx.trxId
      ∧ store' = Function.update store p (some { r with endXid := c })
  := by
  rw [commitOperation] at h
  cases hr : store p with
  | none => simp [hr] at h
  | some r =>
    refine ⟨r, rfl, ?_⟩
    cases type <;> simp only [hr] at h <;> split at h <;> cases h
    · rename_i howned
      exact ⟨howned.1, rfl⟩
    · rename_i howned
      exact ⟨howned, rfl⟩

/-- A turn of a rollback removes the record, or finds it as the transaction has left it. -/
theorem of_rollbackOperation {trx : MvccTrx} (hrec : trx.recovering = false) {rc rc' : RC}
    {store store' : Store D} {type : OperationType} {p : Place}
    (h : rollbackOperation trx (rc, store) ⟨type, p⟩ = .ok (rc', store')) :
  rc' = .success ∧ match type with
    | .insert => store' = Function.update store p none
    | .delete => ∃ r, store p = some r ∧ r.endXid = -trx.trxId
      ∧ store' = Function.update store p (some { r with endXid := maxTrxId })
  := by
  rw [rollbackOperation] at h
  cases type with
  | insert =>
    cases hr : store p with
    | none => simp [hr, hrec] at h
    | some r =>
      simp [hr, hrec] at h
      obtain ⟨rfl, rfl⟩ := h
      exact ⟨rfl, rfl⟩
  | delete =>
    dsimp only at h
    split at h
    · cases h
    · cases hr : store p with
      | none => simp [hr] at h
      | some r =>
        simp only [hr, hrec, Bool.false_eq_true, false_and, if_false] at h
        split at h
        · rename_i howned
          cases h
          exact ⟨rfl, r, rfl, howned, rfl⟩
        · cases h

theorem effect_turn {t : TrxRef} (hrec : ∀ t, (s.base.trxes t).recovering = false)
    (h : turn t s = .ok s') :
  Effect s (.turn t) s'
  := by
  rw [turn] at h
  split at h
  · rename_i c op rest hongoing
    obtain ⟨type, p⟩ := op
    cases hturn : commitOperation (s.base.trxes t) c s.base.store ⟨type, p⟩ with
    | error failure =>
      rw [hturn] at h
      cases h
    | ok store =>
      rw [hturn] at h
      cases h
      obtain ⟨r, hr, hstore⟩ := of_commitOperation hturn
      cases type with
      | insert =>
        obtain ⟨howned, rfl⟩ := hstore
        exact Effect.commitInsert t c p rest r hongoing hr howned
      | delete =>
        obtain ⟨howned, rfl⟩ := hstore
        exact Effect.commitDelete t c p rest r hongoing hr howned
  · rename_i rc op rest hongoing
    obtain ⟨type, p⟩ := op
    cases hturn : rollbackOperation (s.base.trxes t) (rc, s.base.store) ⟨type, p⟩ with
    | error failure =>
      rw [hturn] at h
      cases h
    | ok result =>
      obtain ⟨rc', store⟩ := result
      rw [hturn] at h
      cases h
      obtain ⟨rfl, hstore⟩ := of_rollbackOperation (hrec t) hturn
      cases type with
      | insert =>
        obtain rfl : store = Function.update s.base.store p none := hstore
        exact Effect.rollbackInsert t rc p rest hongoing
      | delete =>
        obtain ⟨r, hr, howned, rfl⟩ := hstore
        exact Effect.rollbackDelete t rc p rest r hongoing hr howned
  · cases h
    apply Effect.same

theorem effect_finish {t : TrxRef} (hrec : ∀ t, (s.base.trxes t).recovering = false)
    (h : finish t s = .ok s') :
  Effect s (.finish t) s'
  := by
  rw [finish] at h
  dsimp only at h
  split at h
  · rename_i c hongoing
    rw [if_neg (by simp [hrec t])] at h
    split at h
    · cases h
      apply Effect.finish t _ (by simp [hongoing])
    · cases h
  · rename_i rc hongoing
    rw [if_neg (by simp [hrec t])] at h
    split at h
    · cases h
      apply Effect.finish t _ (by simp [hongoing])
    · cases h
  · cases h
    apply Effect.same

/-- A call that is all of one step has the effect that it has in one go. -/
theorem effect_exec {e : Mvcc.Event D} (hrec : ∀ t, (s.base.trxes t).recovering = false)
    (hadm : Admissible s (.call e)) (h : call s e = .ok s') :
  Effect s (.call e) s'
  := by
  have hstep : ∀ result, Mvcc.exec s.base e = .ok result → Mvcc.Effect s.base e result.2 :=
    fun result hexec => Mvcc.Step.effect hrec ⟨hadm.1, result.1, hexec⟩
  have hwhole : ∀ rest, (Mvcc.exec s.base e).map (fun result => (⟨result.2, s.ongoing⟩ : State D))
      = .ok rest → ∃ base, rest = ⟨base, s.ongoing⟩ ∧ Mvcc.Effect s.base e base := by
    intro rest hmap
    cases hexec : Mvcc.exec s.base e with
    | error failure =>
      rw [hexec] at hmap
      cases hmap
    | ok result =>
      rw [hexec] at hmap
      cases hmap
      exact ⟨result.2, rfl, hstep result hexec⟩
  cases e with
  | commit t =>
    cases h
    exact Effect.commit t hadm.2
  | rollback t =>
    cases h
    exact Effect.rollback t hadm.2
  | startIfNeed t =>
    obtain ⟨base, rfl, heffect⟩ := hwhole s' h
    cases heffect with
    | same => exact Effect.same _
    | start _ hidle _ => exact Effect.start t (by simp [Mvcc.State.Active, hidle]) hadm.2
  | insertRecord t table placed data =>
    obtain ⟨base, rfl, heffect⟩ := hwhole s' h
    cases heffect with
    | same => exact Effect.same _
    | insert _ _ rid _ hactive hfree => exact Effect.insert t table rid data hactive hfree
  | deleteRecord t p =>
    obtain ⟨base, rfl, heffect⟩ := hwhole s' h
    cases heffect with
    | same => exact Effect.same _
    | delete _ _ r hactive hr hv => exact Effect.delete t p r hactive hr hv

/-- A step has one of the effects listed. -/
theorem Step.effect {e : Event D} (hrec : ∀ t, (s.base.trxes t).recovering = false)
    (h : Step s e s') :
  Effect s e s'
  := by
  obtain ⟨hadm, h⟩ := h
  cases e with
  | call e => exact effect_exec hrec hadm h
  | turn t => exact effect_turn hrec h
  | finish t => exact effect_finish hrec h

/-! ### The invariant -/

/-- The step finds the id counter below the largest 32-bit integer if it draws an id. -/
def CounterOk (s : State D) : Event D → Prop
  | .call e => Mvcc.CounterOk s.base e
  | _ => True

/-- The transaction `t` is active, or its records have not all been rewritten. -/
def State.Live (s : State D) (t : TrxRef) : Prop := s.base.Active t ∨ (s.ongoing t).rest ≠ []

/-- The invariant of the transaction system between two steps. -/
structure Inv (s : State D) : Prop where
  current_nonneg : 0 ≤ s.base.currentTrxId
  current_le : s.base.currentTrxId ≤ int32Max
  recovering : ∀ t, (s.base.trxes t).recovering = false
  /-- A transaction whose call is under way is not active any more. -/
  apart : ∀ t, s.base.Active t → s.ongoing t = .none
  active_of_ops : ∀ t, s.ongoing t = .none → s.base.ops t ≠ [] → s.base.Active t
  id_pos : ∀ t, s.Live t → 0 < s.base.id t
  id_le : ∀ t, s.base.id t ≤ s.base.currentTrxId
  id_inj : ∀ t t', s.Live t → s.Live t' → s.base.id t = s.base.id t' → t = t'
  commit_id : ∀ t c rest, s.ongoing t = .commit c rest → 0 < c ∧ c ≤ s.base.currentTrxId
  begin_ne_zero : ∀ p r, s.base.store p = some r → r.beginXid ≠ 0
  begin_le : ∀ p r, s.base.store p = some r → r.beginXid ≤ s.base.currentTrxId
  end_ne_zero : ∀ p r, s.base.store p = some r → r.endXid ≠ 0

theorem inv_init : Inv (State.init : State D) := by
  constructor <;> simp [State.init, Mvcc.State.init, State.Live, Ongoing.rest, Mvcc.State.ops,
    Mvcc.State.Active, Mvcc.State.id, int32Max]

namespace Inv

theorem nextTrxId_eq (h : Inv s) (hc : s.base.currentTrxId < int32Max) :
  s.base.nextTrxId = s.base.currentTrxId + 1
  := by
  have := h.current_nonneg
  apply int32_of_mem <;> omega

/-- The transaction fields of the records are in order. -/
def StoreOk (current : Int) (store : Store D) : Prop :=
  ∀ p r, store p = some r → r.beginXid ≠ 0 ∧ r.beginXid ≤ current ∧ r.endXid ≠ 0

theorem storeOk (h : Inv s) : StoreOk s.base.currentTrxId s.base.store :=
  fun p r hr => ⟨h.begin_ne_zero p r hr, h.begin_le p r hr, h.end_ne_zero p r hr⟩

theorem afterStart (h : Inv s) (hc : s.base.currentTrxId < int32Max) {t : TrxRef}
    (hnone : s.ongoing t = .none) :
  Inv (⟨s.base.afterStart t, s.ongoing⟩ : State D)
  := by
  have hn := h.nextTrxId_eq hc
  have h0 := h.current_nonneg
  have hle := h.id_le
  constructor <;> simp only [State.Live, afterStart_store, afterStart_currentTrxId,
    afterStart_id, afterStart_ops, afterStart_active, afterStart_recovering, hn]
  case current_nonneg => omega
  case current_le => omega
  case recovering => exact h.recovering
  case apart =>
    rintro t' (rfl | ht')
    · exact hnone
    · exact h.apart t' ht'
  case active_of_ops =>
    intro t' hnone' hops
    right
    exact h.active_of_ops t' hnone' hops
  case id_pos =>
    intro t' hlive
    have hpos := h.id_pos t'
    grind [State.Live]
  case id_le =>
    intro t'
    have := hle t'
    grind
  case id_inj =>
    intro t₁ t₂ h₁ h₂
    have hinj := h.id_inj t₁ t₂
    have := hle t₁
    have := hle t₂
    grind [State.Live]
  case commit_id =>
    intro t' c rest hongoing
    have := h.commit_id t' c rest hongoing
    omega
  case begin_ne_zero => exact h.begin_ne_zero
  case begin_le =>
    intro p r hr
    have := h.begin_le p r hr
    omega
  case end_ne_zero => exact h.end_ne_zero

theorem afterInsert (h : Inv s) {t : TrxRef} {p : Place} (data : D) (ht : s.base.Active t) :
  Inv (⟨s.base.afterInsert t p data, s.ongoing⟩ : State D)
  := by
  have hpos := h.id_pos t (.inl ht)
  have h0 := h.current_nonneg
  have hstore := h.storeOk
  constructor <;> simp only [State.Live, afterInsert_store, afterInsert_currentTrxId,
    afterInsert_id, afterInsert_ops, afterInsert_active, afterInsert_recovering]
  case current_nonneg => exact h0
  case current_le => exact h.current_le
  case recovering => exact h.recovering
  case apart => exact h.apart
  case active_of_ops =>
    intro t' hnone hops
    have := h.active_of_ops t' hnone
    grind
  case id_pos => exact h.id_pos
  case id_le => exact h.id_le
  case id_inj => exact h.id_inj
  case commit_id => exact h.commit_id
  case begin_ne_zero =>
    intro q r hr
    have := hstore q r
    grind
  case begin_le =>
    intro q r hr
    have := hstore q r
    grind
  case end_ne_zero =>
    intro q r hr
    have := hstore q r
    grind [maxTrxId, int32Max]

theorem afterDelete (h : Inv s) {t : TrxRef} {p : Place} {r : Record D} (ht : s.base.Active t)
    (hr : s.base.store p = some r) :
  Inv (⟨s.base.afterDelete t p r, s.ongoing⟩ : State D)
  := by
  have hpos := h.id_pos t (.inl ht)
  have hstore := h.storeOk
  have hrecord := hstore p r hr
  constructor <;> simp only [State.Live, afterDelete_store, afterDelete_currentTrxId,
    afterDelete_id, afterDelete_ops, afterDelete_active, afterDelete_recovering]
  case current_nonneg => exact h.current_nonneg
  case current_le => exact h.current_le
  case recovering => exact h.recovering
  case apart => exact h.apart
  case active_of_ops =>
    intro t' hnone hops
    have := h.active_of_ops t' hnone
    grind
  case id_pos => exact h.id_pos
  case id_le => exact h.id_le
  case id_inj => exact h.id_inj
  case commit_id => exact h.commit_id
  case begin_ne_zero =>
    intro q r' hr'
    have := hstore q r'
    grind
  case begin_le =>
    intro q r' hr'
    have := hstore q r'
    grind
  case end_ne_zero =>
    intro q r' hr'
    have := hstore q r'
    grind

/-- A call of `commit` or `rollback` begins. -/
theorem begins (h : Inv s) {t : TrxRef} {o : Ongoing} {current : Int}
    (hnone : s.ongoing t = .none) (ho : o ≠ .none)
    (hcurrent : s.base.currentTrxId ≤ current ∧ current ≤ int32Max)
    (hrest : o.rest ≠ [] → s.base.ops t ≠ [])
    (hcommit : ∀ c rest, o = .commit c rest → 0 < c ∧ c ≤ current) :
  Inv (⟨{ stop s.base t with currentTrxId := current }, Function.update s.ongoing t o⟩ : State D)
  := by
  have h0 := h.current_nonneg
  have hlive : ∀ t', State.Live (⟨{ stop s.base t with currentTrxId := current },
      Function.update s.ongoing t o⟩ : State D) t' → s.Live t' := by
    rintro t' (hactive | hongoing)
    · exact .inl ((stop_active s.base t t').mp hactive).2
    · by_cases heq : t' = t
      · subst heq
        simp only [Function.update_self] at hongoing
        exact .inl (h.active_of_ops t' hnone (hrest hongoing))
      · simp only [Function.update_of_ne heq] at hongoing
        exact .inr hongoing
  constructor
  case current_nonneg => exact h0.trans hcurrent.1
  case current_le => exact hcurrent.2
  case recovering =>
    intro t'
    exact (stop_recovering s.base t t').trans (h.recovering t')
  case apart =>
    intro t' hactive
    obtain ⟨hne, hactive⟩ := (stop_active s.base t t').mp hactive
    exact (Function.update_of_ne hne _ _).trans (h.apart t' hactive)
  case active_of_ops =>
    intro t' hnone' hops
    have hne : t' ≠ t := by
      rintro rfl
      exact ho ((Function.update_self ..).symm.trans hnone')
    apply (stop_active s.base t t').mpr
    refine ⟨hne, h.active_of_ops t' ?_ ?_⟩
    · exact (Function.update_of_ne hne _ _).symm.trans hnone'
    · exact fun heq => hops ((stop_ops s.base t t').trans heq)
  case id_pos =>
    intro t' ht'
    exact (h.id_pos t' (hlive t' ht')).trans_eq (stop_id s.base t t').symm
  case id_le =>
    intro t'
    exact (stop_id s.base t t').trans_le ((h.id_le t').trans hcurrent.1)
  case id_inj =>
    intro t₁ t₂ h₁ h₂ heq
    apply h.id_inj t₁ t₂ (hlive t₁ h₁) (hlive t₂ h₂)
    exact (stop_id s.base t t₁).symm.trans (heq.trans (stop_id s.base t t₂))
  case commit_id =>
    intro t' c rest hongoing
    by_cases heq : t' = t
    · subst heq
      exact hcommit c rest ((Function.update_self ..).symm.trans hongoing)
    · have hold := h.commit_id t' c rest ((Function.update_of_ne heq _ _).symm.trans hongoing)
      exact ⟨hold.1, hold.2.trans hcurrent.1⟩
  case begin_ne_zero => exact h.begin_ne_zero
  case begin_le =>
    intro p r hr
    exact (h.begin_le p r hr).trans hcurrent.1
  case end_ne_zero => exact h.end_ne_zero

/-- A turn of the loop of a call changes the store. -/
theorem turns (h : Inv s) {t : TrxRef} {o : Ongoing} {store : Store D}
    (hbusy : s.ongoing t ≠ .none) (ho : o ≠ .none)
    (hrest : o.rest ≠ [] → (s.ongoing t).rest ≠ [])
    (hcommit : ∀ c rest, o = .commit c rest → ∃ rest', s.ongoing t = .commit c rest')
    (hstore : StoreOk s.base.currentTrxId store) :
  Inv (⟨{ s.base with store := store }, Function.update s.ongoing t o⟩ : State D)
  := by
  have hlive : ∀ t', State.Live (⟨{ s.base with store := store },
      Function.update s.ongoing t o⟩ : State D) t' → s.Live t' := by
    rintro t' (hactive | hongoing)
    · exact .inl hactive
    · by_cases heq : t' = t
      · subst heq
        simp only [Function.update_self] at hongoing
        exact .inr (hrest hongoing)
      · simp only [Function.update_of_ne heq] at hongoing
        exact .inr hongoing
  constructor
  case current_nonneg => exact h.current_nonneg
  case current_le => exact h.current_le
  case recovering => exact h.recovering
  case apart =>
    intro t' hactive
    have hne : t' ≠ t := by
      rintro rfl
      exact hbusy (h.apart t' hactive)
    exact (Function.update_of_ne hne _ _).trans (h.apart t' hactive)
  case active_of_ops =>
    intro t' hnone
    have hne : t' ≠ t := by
      rintro rfl
      exact ho ((Function.update_self ..).symm.trans hnone)
    exact h.active_of_ops t' ((Function.update_of_ne hne _ _).symm.trans hnone)
  case id_pos =>
    intro t' ht'
    exact h.id_pos t' (hlive t' ht')
  case id_le => exact h.id_le
  case id_inj =>
    intro t₁ t₂ h₁ h₂
    exact h.id_inj t₁ t₂ (hlive t₁ h₁) (hlive t₂ h₂)
  case commit_id =>
    intro t' c rest hongoing
    by_cases heq : t' = t
    · subst heq
      obtain ⟨rest', hongoing'⟩ := hcommit c rest ((Function.update_self ..).symm.trans hongoing)
      exact h.commit_id t' c rest' hongoing'
    · exact h.commit_id t' c rest ((Function.update_of_ne heq _ _).symm.trans hongoing)
  case begin_ne_zero => exact fun p r hr => (hstore p r hr).1
  case begin_le => exact fun p r hr => (hstore p r hr).2.1
  case end_ne_zero => exact fun p r hr => (hstore p r hr).2.2

theorem finishes (h : Inv s) {t : TrxRef} (log : List LogEntry) (hbusy : s.ongoing t ≠ .none) :
  Inv (⟨clear s.base t log, Function.update s.ongoing t .none⟩ : State D)
  := by
  have hlive : ∀ t', State.Live (⟨clear s.base t log, Function.update s.ongoing t .none⟩ : State D)
      t' → s.Live t' := by
    rintro t' (hactive | hongoing)
    · exact .inl ((clear_active s.base t t' log).mp hactive)
    · by_cases heq : t' = t
      · subst heq
        simp [Ongoing.rest] at hongoing
      · simp only [Function.update_of_ne heq] at hongoing
        exact .inr hongoing
  constructor <;> simp only [clear_store, clear_currentTrxId, clear_id, clear_ops, clear_active,
    clear_recovering]
  case current_nonneg => exact h.current_nonneg
  case current_le => exact h.current_le
  case recovering => exact h.recovering
  case apart =>
    intro t' hactive
    have := h.apart t' hactive
    grind
  case active_of_ops =>
    intro t' hnone hops
    have := h.active_of_ops t'
    grind
  case id_pos =>
    intro t' ht'
    exact h.id_pos t' (hlive t' ht')
  case id_le => exact h.id_le
  case id_inj =>
    intro t₁ t₂ h₁ h₂
    exact h.id_inj t₁ t₂ (hlive t₁ h₁) (hlive t₂ h₂)
  case commit_id =>
    intro t' c rest hongoing
    have := h.commit_id t' c rest
    grind
  case begin_ne_zero => exact h.begin_ne_zero
  case begin_le => exact h.begin_le
  case end_ne_zero => exact h.end_ne_zero

theorem storeOk_update {current : Int} {store : Store D} {p : Place} {r : Option (Record D)}
    (h : StoreOk current store)
    (hr : ∀ r', r = some r' → r'.beginXid ≠ 0 ∧ r'.beginXid ≤ current ∧ r'.endXid ≠ 0) :
  StoreOk current (Function.update store p r)
  := by
  intro q r' hr'
  by_cases heq : q = p
  · subst heq
    rw [Function.update_self] at hr'
    exact hr r' hr'
  · rw [Function.update_of_ne heq] at hr'
    exact h q r' hr'

/-- Every step preserves the invariant, if the id counter does not wrap. -/
theorem step (h : Inv s) {e : Event D} (hc : CounterOk s e) (hs : Step s e s') :
  Inv s'
  := by
  have hstore := h.storeOk
  cases hs.effect h.recovering with
  | same => exact h
  | start t _ hnone => exact h.afterStart hc hnone
  | insert t table rid data hactive _ => exact h.afterInsert data hactive
  | delete t p r hactive hr _ => exact h.afterDelete hactive hr
  | commit t hnone =>
    have hn := h.nextTrxId_eq hc
    have h0 := h.current_nonneg
    have hlt : s.base.currentTrxId < int32Max := hc
    apply h.begins (o := .commit s.base.nextTrxId (s.base.ops t)) hnone (by simp) (by omega)
      (fun hrest => hrest)
    rintro c rest ⟨⟩
    omega
  | rollback t hnone =>
    apply h.begins hnone (by simp) ⟨le_rfl, h.current_le⟩ (by simp [Ongoing.rest])
    rintro c rest ⟨⟩
  | commitInsert t c p rest r hongoing hr _ =>
    obtain ⟨hpos, hle⟩ := h.commit_id t c _ hongoing
    apply h.turns (by simp [hongoing]) (by simp) (by simp [hongoing, Ongoing.rest])
    · rintro c rest ⟨⟩
      exact ⟨_, hongoing⟩
    · apply storeOk_update hstore
      rintro _ ⟨⟩
      exact ⟨by simp; omega, hle, (hstore p r hr).2.2⟩
  | commitDelete t c p rest r hongoing hr _ =>
    obtain ⟨hpos, hle⟩ := h.commit_id t c _ hongoing
    apply h.turns (by simp [hongoing]) (by simp) (by simp [hongoing, Ongoing.rest])
    · rintro c rest ⟨⟩
      exact ⟨_, hongoing⟩
    · apply storeOk_update hstore
      rintro _ ⟨⟩
      exact ⟨(hstore p r hr).1, (hstore p r hr).2.1, by simp; omega⟩
  | rollbackInsert t rc p rest hongoing =>
    apply h.turns (by simp [hongoing]) (by simp) (by simp [hongoing, Ongoing.rest])
    · rintro c rest ⟨⟩
    · apply storeOk_update hstore
      rintro _ ⟨⟩
  | rollbackDelete t rc p rest r hongoing hr _ =>
    apply h.turns (by simp [hongoing]) (by simp) (by simp [hongoing, Ongoing.rest])
    · rintro c rest ⟨⟩
    · apply storeOk_update hstore
      rintro _ ⟨⟩
      exact ⟨(hstore p r hr).1, (hstore p r hr).2.1, by simp [maxTrxId, int32Max]⟩
  | finish t log hbusy => exact h.finishes log hbusy

end Inv

/-! ### Snapshots -/

/-- A step that meets the condition `ok` leads from `s` to `s'`. -/
def StepIf (ok : State D → Event D → Prop) (s : State D) (e : Event D) (s' : State D) : Prop :=
  ok s e ∧ Step s e s'

/-- The transaction `t` is active and has not touched the record at `p`, which exists. -/
def Watches (t : TrxRef) (p : Place) (s : State D) : Prop :=
  s.base.Active t ∧ (s.base.store p).isSome ∧ ∀ op ∈ s.base.ops t, op.place ≠ p

instance (t : TrxRef) (p : Place) (s : State D) : Decidable (Watches t p s) :=
  inferInstanceAs
    (Decidable ((s.base.trxes t).started = true ∧ _ = true ∧ ∀ op ∈ s.base.ops t, _ ≠ p))

/-- Along the runs whose steps meet `ok`, a reader gets the same answer about a record
it has not touched for as long as the reader is active and the record exists. -/
def SnapshotStability (ok : State D → Event D → Prop) : Prop :=
  ∀ (h₀ h : List (State D × Event D)) (s₀ s : State D) (t : TrxRef) (p : Place)
    (r₀ r : Record D),
    Run (StepIf ok) State.init h₀ s₀ → Run (StepIf ok) s₀ h s →
    Watches t p s₀ → (∀ x ∈ h, Watches t p x.1) → Watches t p s →
    s₀.base.store p = some r₀ → s.base.store p = some r →
    visitRecord (s.base.id t) r .readOnly = visitRecord (s₀.base.id t) r₀ .readOnly

/-- A call of `delete_record` that passes its test finds a committed record in the
snapshot of every other active transaction. -/
def DeletesSeen (s : State D) : Event D → Prop
  | .call (.deleteRecord t p) => ∀ r, s.base.store p = some r → 0 < r.beginXid →
    visitRecord (s.base.id t) r .readWrite = .success →
    ∀ t', t' ≠ t → s.base.Active t' → r.beginXid ≤ s.base.id t' ∧ s.base.id t' ≤ r.endXid
  | _ => True

/-- A transaction that starts finds no commit that has still records to rewrite. -/
def StartsApart (s : State D) : Event D → Prop
  | .call (.startIfNeed t) => ¬ s.base.Active t →
    ∀ t' c rest, s.ongoing t' = .commit c rest → rest = []
  | _ => True

/-- A commit that comes to the insertion of a record which the transaction has deleted as well
finds no active transaction. -/
def CommitsApart (s : State D) : Event D → Prop
  | .turn t => ∀ c p rest r, s.ongoing t = .commit c (⟨.insert, p⟩ :: rest) →
    s.base.store p = some r → r.endXid < 0 → ∀ t', ¬ s.base.Active t'
  | _ => True

/-- The step meets what snapshots need. -/
structure Undisturbed (s : State D) (e : Event D) : Prop where
  counter : CounterOk s e
  deletes : DeletesSeen s e
  starts : StartsApart s e
  commits : CommitsApart s e

/-- What the active transactions are sure of, as long as the steps are undisturbed. -/
structure Ordered (s : State D) : Prop where
  /-- A commit that has still records to rewrite has an id above theirs. -/
  commit_after : ∀ t c rest, s.ongoing t = .commit c rest → rest ≠ [] →
    ∀ t', s.base.Active t' → s.base.id t' < c
  /-- A committed record that another transaction is deleting began before them. -/
  deleting : ∀ p r, s.base.store p = some r → 0 < r.beginXid → r.endXid < 0 →
    ∀ t', s.base.Active t' → r.endXid ≠ -s.base.id t' → r.beginXid ≤ s.base.id t'

theorem ordered_init : Ordered (State.init : State D) := by
  constructor <;> simp [State.init, Mvcc.State.init]

namespace Ordered

theorem begins (ho : Ordered s) {t : TrxRef} {o : Ongoing} {current : Int}
    (hcommit : ∀ c rest, o = .commit c rest → ∀ t', s.base.Active t' → s.base.id t' < c) :
  Ordered (⟨{ stop s.base t with currentTrxId := current }, Function.update s.ongoing t o⟩ : State D)
  := by
  constructor
  · intro t' c rest hongoing hrest t'' ht''
    have hid : (stop s.base t).id t'' = s.base.id t'' := stop_id s.base t t''
    have hactive := ((stop_active s.base t t'').mp ht'').2
    apply hid.trans_lt
    by_cases heq : t' = t
    · subst heq
      simp only [Function.update_self] at hongoing
      exact hcommit c rest hongoing t'' hactive
    · simp only [Function.update_of_ne heq] at hongoing
      exact ho.commit_after t' c rest hongoing hrest t'' hactive
  · intro p r hr hb he t' ht' hne
    have hid : (stop s.base t).id t' = s.base.id t' := stop_id s.base t t'
    have hne' : r.endXid ≠ -(stop s.base t).id t' := hne
    rw [hid] at hne'
    exact (ho.deleting p r hr hb he t' ((stop_active s.base t t').mp ht').2 hne').trans_eq hid.symm

/-- A turn of the loop of a call changes one record. -/
theorem turns (ho : Ordered s) {t : TrxRef} {o : Ongoing} {p : Place} {r : Option (Record D)}
    (hcommit : ∀ c rest, o = .commit c rest → ∃ op, s.ongoing t = .commit c (op :: rest))
    (hrecord : ∀ r', r = some r' → 0 < r'.beginXid → r'.endXid < 0 →
      ∀ t', ¬ s.base.Active t') :
  Ordered (⟨{ s.base with store := Function.update s.base.store p r },
    Function.update s.ongoing t o⟩ : State D)
  := by
  constructor
  · intro t' c rest hongoing hrest
    by_cases heq : t' = t
    · subst heq
      simp only [Function.update_self] at hongoing
      obtain ⟨op, hongoing'⟩ := hcommit c rest hongoing
      exact ho.commit_after t' c _ hongoing' (by simp)
    · simp only [Function.update_of_ne heq] at hongoing
      exact ho.commit_after t' c rest hongoing hrest
  · intro q r' hr' hb he t' ht'
    by_cases heq : q = p
    · subst heq
      simp only [Function.update_self] at hr'
      exact absurd ht' (hrecord r' hr' hb he t')
    · simp only [Function.update_of_ne heq] at hr'
      exact ho.deleting q r' hr' hb he t' ht'

theorem step (ho : Ordered s) (h : Inv s) {e : Event D} (hu : Undisturbed s e)
    (hs : Step s e s') :
  Ordered s'
  := by
  have hafter := ho.commit_after
  have hdeleting := ho.deleting
  cases hs.effect h.recovering with
  | same => exact ho
  | start t hidle hnone =>
    have hn := h.nextTrxId_eq hu.counter
    constructor
    · intro t' c rest hongoing hrest
      exact absurd (hu.starts hidle t' c rest hongoing) hrest
    · intro p r hr hb he t' ht' hne
      have := h.begin_le p r hr
      have := hdeleting p r hr hb he t'
      grind
  | insert t table rid data hactive hfree =>
    have hpos := h.id_pos t (.inl hactive)
    constructor
    · intro t' c rest hongoing hrest t'' ht''
      have := hafter t' c rest hongoing hrest t''
      grind
    · intro p r hr hb he t' ht' hne
      have := hdeleting p r
      grind
  | delete t p r hactive hr hv =>
    have hseen := hu.deletes r hr
    constructor
    · intro t' c rest hongoing hrest t'' ht''
      have := hafter t' c rest hongoing hrest t''
      grind
    · intro q r' hr' hb he t' ht' hne
      have := hdeleting q r'
      grind
  | commit t hnone =>
    have hn := h.nextTrxId_eq hu.counter
    apply ho.begins
    rintro c rest ⟨⟩ t' -
    have := h.id_le t'
    omega
  | rollback t hnone =>
    apply ho.begins
    rintro c rest ⟨⟩
  | commitInsert t c p rest r hongoing hr howned =>
    apply ho.turns
    · rintro c rest ⟨⟩
      exact ⟨_, hongoing⟩
    · rintro _ ⟨⟩ - he
      exact hu.commits c p rest r hongoing hr he
  | commitDelete t c p rest r hongoing hr howned =>
    obtain ⟨hpos, -⟩ := h.commit_id t c _ hongoing
    apply ho.turns
    · rintro c rest ⟨⟩
      exact ⟨_, hongoing⟩
    · rintro _ ⟨⟩ - he
      simp only at he
      omega
  | rollbackInsert t rc p rest hongoing =>
    apply ho.turns
    · rintro c rest ⟨⟩
    · rintro _ ⟨⟩
  | rollbackDelete t rc p rest r hongoing hr howned =>
    apply ho.turns
    · rintro c rest ⟨⟩
    · rintro _ ⟨⟩ - he
      simp [maxTrxId, int32Max] at he
  | finish t log hbusy =>
    constructor
    · intro t' c rest hongoing hrest t'' ht''
      have := hafter t' c rest
      grind
    · intro p r hr hb he t' ht' hne
      have := hdeleting p r hr hb he t'
      grind

end Ordered

/-- An active transaction keeps its id. -/
theorem id_step (h : Inv s) {e : Event D} (hs : Step s e s') {t : TrxRef}
    (ht : s.base.Active t) :
  s'.base.id t = s.base.id t
  := by
  cases hs.effect h.recovering with
  | same => rfl
  | start t₀ hidle _ =>
    rw [afterStart_id, if_neg]
    rintro rfl
    exact hidle ht
  | insert t₀ table rid data _ _ => apply afterInsert_id
  | delete t₀ p r _ _ _ => apply afterDelete_id
  | commit t₀ _ => exact stop_id s.base t₀ t
  | rollback t₀ _ => exact stop_id s.base t₀ t
  | finish t₀ log _ => apply clear_id
  | _ => rfl

/-- A step does not change what a reader sees of a record it has not touched. -/
theorem visitRecord_step (ho : Ordered s) (h : Inv s) {e : Event D} (hu : Undisturbed s e)
    (hs : Step s e s') {t : TrxRef} {p : Place} (hw : Watches t p s) (hw' : Watches t p s')
    {r r' : Record D} (hr : s.base.store p = some r) (hr' : s'.base.store p = some r') :
  visitRecord (s'.base.id t) r' .readOnly = visitRecord (s.base.id t) r .readOnly
  := by
  have hinv' := h.step hu.counter hs
  obtain ⟨ht, -, hops⟩ := hw
  obtain ⟨-, -, hops'⟩ := hw'
  rw [id_step h hs ht, visitRecord_readOnly (h.begin_ne_zero p r hr) (h.end_ne_zero p r hr),
    visitRecord_readOnly (hinv'.begin_ne_zero p r' hr') (hinv'.end_ne_zero p r' hr')]
  have hpos := h.id_pos t (.inl ht)
  have hle := h.id_le t
  have hcur := h.current_le
  -- a transaction with records to rewrite is another one
  have hother : ∀ t₀, (s.ongoing t₀).rest ≠ [] → s.base.id t ≠ s.base.id t₀ := by
    intro t₀ hrest heq
    obtain rfl := h.id_inj t t₀ (.inl ht) (.inr hrest) heq
    rw [h.apart t ht] at hrest
    exact hrest rfl
  have hsame : s'.base.store p = s.base.store p → r' = r := by
    intro heq
    rw [heq, hr] at hr'
    exact (Option.some.inj hr').symm
  cases hs.effect h.recovering with
  | insert t₀ table rid data _ hfree =>
    rw [hsame]
    apply (afterInsert_store s.base t₀ _ data p).trans
    rw [if_neg]
    rintro rfl
    rw [hfree] at hr
    cases hr
  | delete t₀ q r₀ ht₀ hr₀ hv =>
    by_cases hq : p = q
    · subst hq
      rw [hr] at hr₀
      cases hr₀
      obtain rfl : r' = { r with endXid := -s.base.id t₀ } := by
        rw [afterDelete_store, if_pos rfl] at hr'
        exact (Option.some.inj hr').symm
      have hne : t ≠ t₀ := by
        rintro rfl
        apply hops' ⟨.delete, p⟩ (by simp) rfl
      have hv' := (visitRecord_readWrite (h.begin_ne_zero p r hr) (h.end_ne_zero p r hr)).mp hv
      have hseen := hu.deletes r hr
      have hpos₀ := h.id_pos t₀ (.inl ht₀)
      have hinj := h.id_inj t t₀ (.inl ht) (.inl ht₀)
      grind
    · rw [hsame]
      apply (afterDelete_store s.base t₀ q r₀ p).trans
      rw [if_neg hq]
  | commitInsert t₀ c q rest r₀ hongoing hr₀ howned =>
    by_cases hq : p = q
    · -- the record is invisible before the turn, and begins after `t` afterwards
      subst hq
      rw [hr] at hr₀
      cases hr₀
      simp only [Function.update_self, Option.some.injEq] at hr'
      subst hr'
      have hafter := ho.commit_after t₀ c _ hongoing (by simp) t ht
      have hid := hother t₀ (by simp [hongoing, Ongoing.rest])
      have hpos₀ := h.id_pos t₀ (.inr (by simp [hongoing, Ongoing.rest]))
      have hend : ¬ r.endXid < 0 := fun he => hu.commits c p rest r hongoing hr he t ht
      grind
    · rw [hsame]
      exact Function.update_of_ne hq _ _
  | commitDelete t₀ c q rest r₀ hongoing hr₀ howned =>
    by_cases hq : p = q
    · -- the deletion is not seen before the turn, and ends after `t` afterwards
      subst hq
      rw [hr] at hr₀
      cases hr₀
      simp only [Function.update_self, Option.some.injEq] at hr'
      subst hr'
      have hafter := ho.commit_after t₀ c _ hongoing (by simp) t ht
      have hid := hother t₀ (by simp [hongoing, Ongoing.rest])
      have hpos₀ := h.id_pos t₀ (.inr (by simp [hongoing, Ongoing.rest]))
      have hdeleting := ho.deleting p r hr
      grind
    · rw [hsame]
      exact Function.update_of_ne hq _ _
  | rollbackInsert t₀ rc q rest hongoing =>
    by_cases hq : p = q
    · subst hq
      simp at hr'
    · rw [hsame]
      exact Function.update_of_ne hq _ _
  | rollbackDelete t₀ rc q rest r₀ hongoing hr₀ howned =>
    by_cases hq : p = q
    · subst hq
      rw [hr] at hr₀
      cases hr₀
      simp only [Function.update_self, Option.some.injEq] at hr'
      subst hr'
      have hid := hother t₀ (by simp [hongoing, Ongoing.rest])
      have hpos₀ := h.id_pos t₀ (.inr (by simp [hongoing, Ongoing.rest]))
      have hdeleting := ho.deleting p r hr
      grind [maxTrxId]
    · rw [hsame]
      exact Function.update_of_ne hq _ _
  | _ => rw [hsame rfl]

/-- Readers keep their snapshot along the runs in which no committed record is deleted
that an active transaction does not see, no transaction starts while a commit has records
to rewrite, and no commit brings a deleted record of its own before active transactions. -/
theorem snapshot_stability :
  SnapshotStability (D := D) Undisturbed
  := by
  intro h₀ h s₀ s t p r₀ r hrun₀ hrun hw₀ hw hws hr₀ hr
  have hinv₀ : Inv s₀ ∧ Ordered s₀ := by
    apply hrun₀.invariant ⟨inv_init, ordered_init⟩
    rintro s e s' ⟨hinv, ho⟩ ⟨hu, hs⟩
    exact ⟨hinv.step hu.counter hs, ho.step hinv hu hs⟩
  have hend : Inv s ∧ Ordered s ∧ ∀ r, s.base.store p = some r →
      visitRecord (s.base.id t) r .readOnly = visitRecord (s₀.base.id t) r₀ .readOnly := by
    apply hrun.invariant_while (C := Watches t p) _ hw hws
    · rintro s e s' ⟨hinv, ho, hsame⟩ hc hc' ⟨hu, hs⟩
      refine ⟨hinv.step hu.counter hs, ho.step hinv hu hs, ?_⟩
      intro r' hr'
      obtain ⟨r, hr⟩ := Option.isSome_iff_exists.mp hc.2.1
      rw [visitRecord_step ho hinv hu hs hc hc' hr hr', hsame r hr]
    · refine ⟨hinv₀.1, hinv₀.2, ?_⟩
      intro r hr
      rw [hr₀] at hr
      cases hr
      rfl
  exact hend.2.2 r hr

/-! ### Snapshots without the condition -/

instance (s : State D) (e : Event D) : Decidable (Admissible s e) :=
  match e with
  | .call e => inferInstanceAs (Decidable (Mvcc.Admissible s.base e ∧ s.ongoing e.trx = .none))
  | .turn _ => isTrue trivial
  | .finish _ => isTrue trivial

/-- The state after a step; a step that stops the server leaves it as it was. -/
def State.after (s : State D) (e : Event D) : State D :=
  match exec s e with
  | .ok s' => s'
  | .error _ => s

/-- The step is admissible and does not stop the server. -/
def Returns (s : State D) (e : Event D) : Prop := Admissible s e ∧ (exec s e).isOk = true

instance (s : State D) (e : Event D) : Decidable (Returns s e) :=
  inferInstanceAs (Decidable (_ ∧ _))

theorem Returns.step {s : State D} {e : Event D} (h : Returns s e) :
  Step s e (s.after e)
  := by
  obtain ⟨hadm, hok⟩ := h
  refine ⟨hadm, ?_⟩
  rw [State.after]
  cases hexec : exec s e with
  | error failure => simp [hexec, Except.isOk, Except.toBool] at hok
  | ok s' => rfl

/-- Steps that return one after the other make up a run. -/
theorem run_of_allReturn (es : List (Event D)) (s : State D) (h : AllOk Returns State.after s es) :
  ∃ h, Run (StepIf fun _ _ => True) s h (es.foldl State.after s)
  := run_of_allOk (fun _ _ he => ⟨trivial, he.step⟩) h

/-- Without the condition, a reader comes to see a record that was committed after it has
started, as soon as another transaction deletes the record. -/
theorem snapshot_unstable :
  ¬ SnapshotStability (D := Unit) fun _ _ => True
  := by
  intro hstable
  let p : Place := ⟨0, 1, 0⟩
  let es : List (Event Unit) :=
    [.call (.startIfNeed 0), .call (.startIfNeed 1),
      .call (.insertRecord 1 0 (.ok ⟨1, 0⟩) ()), .call (.commit 1), .turn 1, .finish 1,
      .call (.startIfNeed 2)]
  obtain ⟨h₀, hrun₀⟩ := run_of_allReturn es State.init (by decide +kernel)
  let s := es.foldl State.after State.init
  have hdelete : Returns s (.call (.deleteRecord 2 p)) := by decide +kernel
  have hsame := hstable h₀ [(s, .call (.deleteRecord 2 p))] s (s.after (.call (.deleteRecord 2 p)))
    0 p ⟨3, maxTrxId, ()⟩ ⟨3, -4, ()⟩ hrun₀ (Run.refl.tail ⟨trivial, hdelete.step⟩)
    (by decide +kernel) (by rintro x (_ | ⟨_, ⟨⟩⟩); decide +kernel) (by decide +kernel)
    (by decide +kernel) (by decide +kernel)
  revert hsame
  decide

/-- The other conditions do not suffice: a transaction that starts while a commit has records
to rewrite comes to see them. -/
theorem snapshot_torn :
  ¬ SnapshotStability (D := Unit) fun s e => CounterOk s e ∧ DeletesSeen s e ∧ CommitsApart s e
  := by
  intro hstable
  let p : Place := ⟨0, 1, 0⟩
  have htail : ∀ {h : List (State Unit × Event Unit)} {s : State Unit} (e : Event Unit),
      Run (StepIf fun s e => CounterOk s e ∧ DeletesSeen s e ∧ CommitsApart s e) State.init h s →
      Returns s e → CounterOk s e → DeletesSeen s e → CommitsApart s e →
      Run (StepIf fun s e => CounterOk s e ∧ DeletesSeen s e ∧ CommitsApart s e) State.init
        ((s, e) :: h) (s.after e) :=
    fun e hrun he hc hd ha => hrun.tail ⟨⟨hc, hd, ha⟩, he.step⟩
  have h₁ := htail (.call (.startIfNeed 0)) Run.refl (by decide +kernel)
    (show _ < int32Max by decide +kernel) trivial trivial
  have h₂ := htail (.call (.insertRecord 0 0 (.ok ⟨1, 0⟩) ())) h₁ (by decide +kernel)
    trivial trivial trivial
  have h₃ := htail (.call (.commit 0)) h₂ (by decide +kernel)
    (show _ < int32Max by decide +kernel) trivial trivial
  have h₄ := htail (.call (.startIfNeed 1)) h₃ (by decide +kernel)
    (show _ < int32Max by decide +kernel) trivial trivial
  let es : List (Event Unit) := [.call (.startIfNeed 0),
    .call (.insertRecord 0 0 (.ok ⟨1, 0⟩) ()), .call (.commit 0), .call (.startIfNeed 1)]
  let s := es.foldl State.after State.init
  have hongoing : s.ongoing 0 = .commit 2 [⟨.insert, p⟩] := by decide +kernel
  have hstore : s.base.store p = some ⟨-1, maxTrxId, ()⟩ := by decide +kernel
  have hapart : CommitsApart s (.turn 0) := by
    intro c q rest r hcommit hr hend
    rw [hongoing] at hcommit
    cases hcommit
    rw [hstore] at hr
    cases hr
    simp [maxTrxId, int32Max] at hend
  have hturn : Returns s (.turn 0) := by decide +kernel
  have hsame := hstable _ [(s, .turn 0)] s (s.after (.turn 0)) 1 p ⟨-1, maxTrxId, ()⟩
    ⟨2, maxTrxId, ()⟩ h₄ (Run.refl.tail ⟨⟨trivial, trivial, hapart⟩, hturn.step⟩)
    (by decide +kernel) (by rintro x (_ | ⟨_, ⟨⟩⟩); decide +kernel) (by decide +kernel)
    (by decide +kernel) (by decide +kernel)
  revert hsame
  decide

/-! ### Calls in one go -/

section

variable {σ : Type} {t : TrxRef} {trx : MvccTrx} (storeOf : σ → Store D)
  (ongoingOf : σ → List Operation → Ongoing) {body : σ → Operation → Except AssertFailure σ}

/-- The turns of a loop that nobody interrupts. -/
theorem run_turns
    (hturn : ∀ (s : State D) (x x' : σ) (op : Operation) (rest : List Operation),
      s.ongoing t = ongoingOf x (op :: rest) → s.base.trxes t = trx → s.base.store = storeOf x →
      body x op = .ok x' →
      turn t s = .ok ⟨{ s.base with store := storeOf x' },
        Function.update s.ongoing t (ongoingOf x' rest)⟩)
    {ops : List Operation} :
    ∀ {s : State D} {x x' : σ}, s.ongoing t = ongoingOf x ops → s.base.trxes t = trx →
      s.base.store = storeOf x → ops.foldlM body x = .ok x' →
      ∃ h, Run Step s h ⟨{ s.base with store := storeOf x' },
        Function.update s.ongoing t (ongoingOf x' [])⟩ := by
  induction ops with
  | nil =>
    intro s x x' hongoing _ hstore hfold
    cases hfold
    refine ⟨[], ?_⟩
    rw [← hongoing, Function.update_eq_self, ← hstore]
    exact Run.refl
  | cons op ops ih =>
    intro s x x' hongoing htrx hstore hfold
    rw [List.foldlM_cons] at hfold
    cases hop : body x op with
    | error failure =>
      rw [hop] at hfold
      cases hfold
    | ok x₁ =>
      rw [hop] at hfold
      let s₁ : State D := ⟨{ s.base with store := storeOf x₁ },
        Function.update s.ongoing t (ongoingOf x₁ ops)⟩
      have hstep : Step s (.turn t) s₁ := ⟨trivial, hturn s x x₁ op ops hongoing htrx hstore hop⟩
      obtain ⟨h, hrun⟩ := ih (s := s₁) (Function.update_self ..) htrx rfl hfold
      have hlast : (⟨{ s₁.base with store := storeOf x' },
          Function.update s₁.ongoing t (ongoingOf x' [])⟩ : State D)
          = ⟨{ s.base with store := storeOf x' },
            Function.update s.ongoing t (ongoingOf x' [])⟩ := by
        simp [s₁]
      rw [hlast] at hrun
      exact ⟨_, (Run.refl.tail hstep).trans hrun⟩

end

/-- The turns of a commit that nobody interrupts. -/
theorem run_commit_turns {t : TrxRef} {c : Int} {ops : List Operation} {store : Store D}
    (hongoing : s.ongoing t = .commit c ops)
    (hfold : ops.foldlM (commitOperation (s.base.trxes t) c) s.base.store = .ok store) :
  ∃ h, Run Step s h ⟨{ s.base with store := store }, Function.update s.ongoing t (.commit c [])⟩
  := by
  apply run_turns (fun store => store) (fun _ rest => .commit c rest) _ hongoing rfl rfl hfold
  intro s x x' op rest hongoing htrx hstore hop
  rw [turn, hongoing]
  dsimp only
  rw [htrx, hstore, hop]
  rfl

/-- The turns of a rollback that nobody interrupts. -/
theorem run_rollback_turns {t : TrxRef} {rc : RC} {ops : List Operation}
    {result : RC × Store D} (hongoing : s.ongoing t = .rollback rc ops)
    (hfold : ops.foldlM (rollbackOperation (s.base.trxes t)) (rc, s.base.store) = .ok result) :
  ∃ h, Run Step s h
    ⟨{ s.base with store := result.2 }, Function.update s.ongoing t (.rollback result.1 [])⟩
  := by
  apply run_turns (fun state => state.2) (fun state rest => .rollback state.1 rest) _ hongoing
    rfl rfl hfold
  intro s x x' op rest hongoing htrx hstore hop
  rw [turn, hongoing]
  dsimp only
  rw [htrx, hstore, hop]
  rfl

/-- The state between two calls. -/
def between (base : Mvcc.State D) : State D := ⟨base, fun _ => .none⟩

/-- The transaction `t` has left `started_`, and its call `o` is under way. -/
def under (base : Mvcc.State D) (t : TrxRef) (current : Int) (store : Store D) (o : Ongoing) :
    State D :=
  ⟨{ stop base t with currentTrxId := current, store := store },
    Function.update (between base).ongoing t o⟩

section

variable (base : Mvcc.State D) (t : TrxRef) (current : Int) (store : Store D) (o : Ongoing)

theorem under_trxes :
  (under base t current store o).base.trxes t = { base.trxes t with started := false }
  := by
  simp [under, stop, State.setTrx]

theorem under_update (store' : Store D) (o' : Ongoing) :
  (⟨{ (under base t current store o).base with store := store' },
    Function.update (under base t current store o).ongoing t o'⟩ : State D)
    = under base t current store' o'
  := by
  simp [under]

@[simp]
theorem under_ongoing :
  (under base t current store o).ongoing t = o
  := Function.update_self ..

theorem under_ended (log : List LogEntry) :
  (⟨clear (under base t current store o).base t log,
    Function.update (under base t current store o).ongoing t .none⟩ : State D)
    = between { base.setTrx t { base.trxes t with started := false, operations := [] } with
      currentTrxId := current, store := store, log := log }
  := by
  have hnone : Function.update (between base).ongoing t .none = (between base).ongoing :=
    Function.update_eq_self t (between base).ongoing
  simp only [under, Function.update_idem, hnone]
  simp [between, clear, stop, State.setTrx]

end

/-- A commit in one go is a run of its steps. -/
theorem run_of_commit {base base' : Mvcc.State D} {t : TrxRef} {rc : RC}
    (hexec : Mvcc.commit t base = .ok (rc, base')) :
  ∃ h, Run Step (between base) h (between base')
  := by
  let c := base.nextTrxId
  rw [Mvcc.commit, commitWithTrxId] at hexec
  dsimp only at hexec
  split at hexec
  · cases hexec
  · rename_i store hfold
    have hbegin : Step (between base) (.call (.commit t))
        (under base t c base.store (.commit c (base.ops t))) := ⟨⟨trivial, rfl⟩, rfl⟩
    obtain ⟨h, hturns⟩ := run_commit_turns (under_ongoing base t c base.store _) <| by
      rw [under_trxes]
      exact hfold
    rw [under_update] at hturns
    have hend : Step (under base t c store (.commit c [])) (.finish t) (between base') := by
      refine ⟨trivial, ?_⟩
      rw [exec, finish]
      simp only [under_ongoing, under_ended, under_trxes]
      split at hexec
      · rename_i hrec
        cases hexec
        rw [if_pos hrec]
        rfl
      · rename_i hrec
        rw [if_neg hrec]
        split at hexec
        · rename_i hids
          cases hexec
          rw [if_pos hids]
          rfl
        · cases hexec
    exact ⟨_, ((Run.refl.tail hbegin).trans hturns).tail hend⟩

/-- A rollback in one go is a run of its steps. -/
theorem run_of_rollback {base base' : Mvcc.State D} {t : TrxRef} {rc : RC}
    (hexec : Mvcc.rollback t base = .ok (rc, base')) :
  ∃ h, Run Step (between base) h (between base')
  := by
  let current := base.currentTrxId
  rw [Mvcc.rollback] at hexec
  dsimp only at hexec
  split at hexec
  · cases hexec
  · rename_i rc' store hfold
    have hbegin : Step (between base) (.call (.rollback t))
        (under base t current base.store (.rollback .success (base.ops t).reverse)) :=
      ⟨⟨trivial, rfl⟩, rfl⟩
    obtain ⟨h, hturns⟩ := run_rollback_turns (under_ongoing base t current base.store _) <| by
      rw [under_trxes]
      exact hfold
    rw [under_update] at hturns
    have hend : Step (under base t current store (.rollback rc' [])) (.finish t)
        (between base') := by
      refine ⟨trivial, ?_⟩
      rw [exec, finish]
      simp only [under_ongoing, under_ended, under_trxes]
      split at hexec
      · rename_i hrec
        cases hexec
        rw [if_pos hrec]
        rfl
      · rename_i hrec
        rw [if_neg hrec]
        split at hexec
        · rename_i hid
          cases hexec
          rw [if_pos hid]
          rfl
        · cases hexec
    exact ⟨_, ((Run.refl.tail hbegin).trans hturns).tail hend⟩

/-- A call in one go is a run of its steps. -/
theorem run_of_step {base base' : Mvcc.State D} {e : Mvcc.Event D} (h : Mvcc.Step base e base') :
  ∃ h, Run Step (between base) h (between base')
  := by
  obtain ⟨hadm, rc, hexec⟩ := h
  have hwhole : call (between base) e = .ok (between base') →
      ∃ h, Run Step (between base) h (between base') := by
    intro hcall
    have hstep : Step (between base) (.call e) (between base') := ⟨⟨hadm, rfl⟩, hcall⟩
    exact ⟨_, Run.refl.tail hstep⟩
  cases e with
  | startIfNeed t =>
    apply hwhole
    simp only [call, between, hexec]
    rfl
  | insertRecord t table placed data =>
    apply hwhole
    simp only [call, between, hexec]
    rfl
  | deleteRecord t p =>
    apply hwhole
    simp only [call, between, hexec]
    rfl
  | commit t => exact run_of_commit hexec
  | rollback t => exact run_of_rollback hexec

/-- A run of calls in one go is a run of their steps. -/
theorem run_of_run {base base' : Mvcc.State D} {h : List (Mvcc.State D × Mvcc.Event D)}
    (hrun : Run Mvcc.Step base h base') :
  ∃ h, Run Step (between base) h (between base')
  := by
  induction hrun with
  | refl => exact ⟨[], Run.refl⟩
  | tail _ hlast ih =>
    obtain ⟨h, hrun⟩ := ih
    obtain ⟨h', hrun'⟩ := run_of_step hlast
    exact ⟨h' ++ h, hrun.trans hrun'⟩

end MiniOB.Mvcc.Interleaved
