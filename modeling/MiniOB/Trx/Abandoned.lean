import MiniOB.Trx.Assertions
import MiniOB.Trx.View

/-!
# Transactions that nobody ends

`Session::~Session` destroys the transaction object of a connection without ending its
transaction. What such a transaction has changed stays as it is: readers that start later see the
rows as if it had been rolled back, but nobody can delete the rows that it has deleted.
-/

namespace MiniOB.Mvcc

variable {D : Type} {s s' : State D} {t : TrxRef}

/-- The transaction `t` keeps its id and its operations, and the records of these stay. -/
structure Rests (t : TrxRef) (s s' : State D) : Prop where
  active : s'.Active t
  id : s'.id t = s.id t
  ops : s'.ops t = s.ops t
  store : ∀ op ∈ s.ops t, s'.store op.place = s.store op.place
  current : s.currentTrxId ≤ s'.currentTrxId

/-- Active transactions change different records. -/
theorem Inv.place_unique (h : Inv s) {t' : TrxRef} {op op' : Operation} (hop : op ∈ s.ops t)
    (hop' : op' ∈ s.ops t') (hplace : op.place = op'.place) :
  t = t'
  := by
  obtain ⟨type, p⟩ := op
  obtain ⟨type', p'⟩ := op'
  obtain rfl : p = p' := hplace
  cases type with
  | insert =>
    cases type' with
    | insert => exact h.insert_unique hop hop'
    | delete => exact (h.delete_own hop hop').symm
  | delete =>
    cases type' with
    | insert => exact h.delete_own hop' hop
    | delete => exact h.delete_unique hop hop'

/-- The record of an operation is there, and no other transaction may delete it. -/
theorem Inv.record_of_op (h : Inv s) {op : Operation} (hop : op ∈ s.ops t) :
  ∃ r, s.store op.place = some r
    ∧ (r.beginXid = -s.id t ∨ (0 < r.beginXid ∧ r.endXid = -s.id t))
  := by
  obtain ⟨type, p⟩ := op
  cases type with
  | insert =>
    obtain ⟨r, hr, hb⟩ := h.insert_mem t p hop
    exact ⟨r, hr, .inl hb⟩
  | delete =>
    obtain ⟨r, hr, he⟩ := h.delete_mem t p hop
    by_cases hins : ⟨.insert, p⟩ ∈ s.ops t
    · exact ⟨r, hr, .inl (h.begin_of_mem hr hins)⟩
    · exact ⟨r, hr, .inr ⟨h.begin_pos_of_delete hr hop hins, he⟩⟩

/-- What another transaction is told that wants to delete the record of an operation. -/
theorem Inv.visit_of_op (h : Inv s) {op : Operation} (hop : op ∈ s.ops t) {u : TrxRef}
    (hu : s.Active u) (hne : u ≠ t) {r : Record D} (hr : s.store op.place = some r) :
  visitRecord (s.id u) r .readWrite
    = if r.beginXid < 0 then .recordInvisible else .lockedConcurrencyConflict
  := by
  obtain ⟨r', hr', hxid⟩ := h.record_of_op hop
  rw [hr] at hr'
  cases hr'
  have ht := h.active_of_mem t op hop
  have hpos := h.id_pos t ht
  have hid : s.id u ≠ s.id t := fun heq => hne (h.id_inj u t hu ht heq)
  rw [visitRecord]
  obtain hb | ⟨hb, he⟩ := hxid
  · rw [if_neg (by omega), if_pos (by omega), if_neg (by omega), if_pos (by omega)]
  · have hcommitted : ¬ r.beginXid < 0 := by omega
    have hother : -r.endXid ≠ s.id u := by omega
    rw [if_neg (by omega), if_neg hcommitted, if_pos (by omega), if_neg hcommitted]
    exact if_pos hother

/-! ### Calls of others -/

theorem rests_step (h : Inv s) (ht : s.Active t) {e : Event D} (hc : CounterOk s e)
    (hne : e.trx ≠ t) (hs : Step s e s') :
  Rests t s s'
  := by
  have hplace : ∀ op ∈ s.ops t, ∀ op' ∈ s.ops e.trx, op.place ≠ op'.place := by
    intro op hop op' hop' heq
    exact hne (h.place_unique hop hop' heq).symm
  cases hs.effect h.recovering with
  | same => exact ⟨ht, rfl, rfl, fun _ _ => rfl, le_rfl⟩
  | start u _ _ =>
    have hnext := h.nextTrxId_eq hc
    have hne' : t ≠ u := Ne.symm hne
    constructor <;> grind
  | insert u table rid data _ hfree =>
    have hne' : t ≠ u := Ne.symm hne
    refine ⟨by grind, by grind, by grind, ?_, by grind⟩
    intro op hop
    obtain ⟨r, hr, -⟩ := h.record_of_op hop
    rw [afterInsert_store, if_neg]
    rintro heq
    rw [heq, hfree] at hr
    cases hr
  | delete u p r hu hr hv =>
    have hne' : t ≠ u := Ne.symm hne
    refine ⟨by grind, by grind, by grind, ?_, by grind⟩
    intro op hop
    rw [afterDelete_store, if_neg]
    rintro rfl
    have hvisit := h.visit_of_op hop hu hne hr
    rw [State.id, hv] at hvisit
    split_ifs at hvisit
  | commit u _ =>
    have hnext := h.nextTrxId_eq hc
    have hne' : t ≠ u := Ne.symm hne
    refine ⟨by grind, by grind, by grind, ?_, by grind⟩
    intro op hop
    have hnone : ∀ type : OperationType, (⟨type, op.place⟩ : Operation) ∉ s.ops u :=
      fun type hmem => hplace op hop _ hmem rfl
    rw [afterCommit_store, commitEffect]
    cases s.store op.place with
    | none => rfl
    | some r => simp [hnone]
  | rollback u _ =>
    have hne' : t ≠ u := Ne.symm hne
    refine ⟨by grind, by grind, by grind, ?_, by grind⟩
    intro op hop
    have hnone : ∀ type : OperationType, (⟨type, op.place⟩ : Operation) ∉ s.ops u :=
      fun type hmem => hplace op hop _ hmem rfl
    rw [afterRollback_store, rollbackEffect, if_neg (hnone .insert)]
    cases s.store op.place with
    | none => rfl
    | some r => simp [hnone]

theorem Rests.refl (ht : s.Active t) : Rests t s s :=
  ⟨ht, rfl, rfl, fun _ _ => rfl, le_rfl⟩

theorem Rests.trans {s'' : State D} (h : Rests t s s') (h' : Rests t s' s'') :
  Rests t s s''
  := by
  refine ⟨h'.active, h'.id.trans h.id, h'.ops.trans h.ops, ?_, h.current.trans h'.current⟩
  intro op hop
  have hop' : op ∈ s'.ops t := by
    rw [h.ops]
    exact hop
  rw [h'.store op hop', h.store op hop]

/-! ### Readers and writers -/

/-- To a reader that starts later, a record is as if its transaction had been rolled back. -/
theorem view_of_rests (h : Inv s) (h' : Inv s') (hrests : Rests t s s') {id : Int}
    (hid : s.currentTrxId < id) (hmax : id ≤ maxTrxId) (p : Place) :
  view s'.store id p = view (rollbackEffect (s.ops t) s'.store) id p
  := by
  have hlater : s.id t < id := lt_of_le_of_lt (h.id_le t) hid
  have hsame : ∀ {op}, op ∈ s.ops t → op ∈ s'.ops t := by
    intro op hop
    rw [hrests.ops]
    exact hop
  by_cases hins : ⟨.insert, p⟩ ∈ s.ops t
  · -- what it has inserted is seen by nobody
    obtain ⟨r, hr, hb⟩ := h'.insert_mem t p (hsame hins)
    have hpos := h'.id_pos t hrests.active
    rw [hrests.id] at hb hpos
    have hvisit : visitRecord id r .readOnly = .recordInvisible := by
      rw [visitRecord, if_neg (by omega), if_pos (by omega), if_neg (by omega)]
    rw [view, view, rollbackEffect, if_pos hins, hr, Option.bind_some, Option.bind_none, hvisit]
    rfl
  by_cases hdel : ⟨.delete, p⟩ ∈ s.ops t
  · -- what it has deleted was committed before
    obtain ⟨r, hr, he⟩ := h'.delete_mem t p (hsame hdel)
    have hb := h'.begin_pos_of_delete hr (hsame hdel) (by rwa [hrests.ops])
    have hold : s.store p = some r := (hrests.store _ hdel).symm.trans hr
    have hbegin : r.beginXid ≤ s.currentTrxId := by
      obtain hcommitted | ⟨u, hu, hown, -⟩ := h.begin_owner p r hold
      · exact hcommitted.2
      · have := h.id_pos u hu
        omega
    have hpos := h'.id_pos t hrests.active
    rw [hrests.id] at he hpos
    have hvisit : visitRecord id r .readOnly = .success := by
      rw [visitRecord, if_neg (by omega), if_neg (by omega), if_pos (by omega)]
      exact if_pos (by omega)
    have hvisit' : visitRecord id { r with endXid := maxTrxId } .readOnly = .success := by
      have hlast : (0 : Int) < maxTrxId := by decide
      have hseen : r.beginXid ≤ id := by omega
      rw [visitRecord, if_pos ⟨hb, hlast⟩, if_pos ⟨hseen, hmax⟩]
    rw [view, view, rollbackEffect, if_neg hins, hr, Option.map_some, Option.bind_some,
      Option.bind_some, if_pos hdel, hvisit, hvisit']
  · rw [view, view, rollbackEffect, if_neg hins]
    cases s'.store p with
    | none => rfl
    | some r => simp [hdel]

end MiniOB.Mvcc
