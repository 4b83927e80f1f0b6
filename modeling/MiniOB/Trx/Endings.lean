import MiniOB.Lib.Consuming
import MiniOB.Trx.Abandoned

/-!
# When the server stops at the end of a transaction

The loops of `commit_with_trx_id` and `rollback` use up the operations of a transaction: the first
turn on a record takes minus the transaction id out of it, and a second one fails its assertion.
So they fail exactly for a transaction that has deleted a record twice, which it can do only with
a record it has inserted itself.
-/

namespace MiniOB.Mvcc

open Transition Consuming

variable {D : Type} {s s' : State D}

/-! ### The order of the operations -/

/-- A transaction inserts a record before all else it does with it, and deletes the records of
others once. -/
structure Orderly (s : State D) : Prop where
  inserted_first : ∀ t, (s.ops t).Pairwise fun op op' => op'.type = .insert → op.place ≠ op'.place
  deleted_once : ∀ t p, ⟨.insert, p⟩ ∉ s.ops t → (s.ops t).count ⟨.delete, p⟩ ≤ 1

theorem orderly_init : Orderly (State.init : State D) := by
  constructor <;> simp [State.init, State.ops]

theorem Orderly.step (ho : Orderly s) (h : Inv s) {e : Event D} (hs : Step s e s') :
  Orderly s'
  := by
  -- an operation is added at the end
  have hadd : ∀ (t : TrxRef) (op : Operation),
      (op.type = .insert → ∀ op' ∈ s.ops t, op'.place ≠ op.place) →
      (∀ p, op = ⟨.delete, p⟩ → ⟨.insert, p⟩ ∉ s.ops t → ⟨.delete, p⟩ ∉ s.ops t) →
      (∀ u, s'.ops u = if u = t then s.ops t ++ [op] else s.ops u) → Orderly s' := by
    intro t op hfirst honce hops
    constructor
    · intro u
      rw [hops]
      split_ifs with hu
      · rw [List.pairwise_append]
        refine ⟨ho.inserted_first t, List.pairwise_singleton _ _, ?_⟩
        intro op' hop' op'' hop'' htype
        obtain rfl := List.mem_singleton.mp hop''
        exact hfirst htype op' hop'
      · exact ho.inserted_first u
    · intro u p hins
      rw [hops] at hins ⊢
      split_ifs at hins ⊢ with hu
      · have hins' : ⟨.insert, p⟩ ∉ s.ops t := fun hmem => hins (List.mem_append_left _ hmem)
        rw [List.count_append, List.count_singleton]
        split_ifs with heq
        · have hnone := List.count_eq_zero_of_not_mem (honce p (by simpa using heq) hins')
          omega
        · exact ho.deleted_once t p hins'
      · exact ho.deleted_once u p hins
  -- or the operations of a transaction are forgotten
  have hforget : ∀ t, (∀ u, s'.ops u = if u = t then [] else s.ops u) → Orderly s' := by
    intro t hops
    constructor
    · intro u
      rw [hops]
      split_ifs
      · exact List.Pairwise.nil
      · exact ho.inserted_first u
    · intro u p hins
      rw [hops] at hins ⊢
      split_ifs at hins ⊢
      · exact Nat.zero_le 1
      · exact ho.deleted_once u p hins
  cases hs.effect h.recovering with
  | same => exact ho
  | start t _ _ =>
    constructor
    · simpa using ho.inserted_first
    · simpa using ho.deleted_once
  | insert t table rid data _ hfree =>
    refine hadd t ⟨.insert, ⟨table, rid⟩⟩ ?_ (by simp) fun u => afterInsert_ops s t u _ data
    rintro - ⟨type, p⟩ hop rfl
    obtain ⟨r, hr, -⟩ := owned_of_mem h hop
    cases hfree.symm.trans hr
  | delete t p r _ hr hv =>
    refine hadd t ⟨.delete, p⟩ (by simp) ?_ fun u => afterDelete_ops s t u p r
    intro p' heq hins hdel
    obtain rfl : p = p' := congrArg Operation.place heq
    have hinvisible := deleting_invisible h hr hdel hins .readWrite
    rw [State.id, hv] at hinvisible
    cases hinvisible
  | commit t _ => exact hforget t fun u => afterCommit_ops s t u
  | rollback t _ => exact hforget t fun u => afterRollback_ops s t u

/-- A transaction has deleted a record twice that it has inserted itself. -/
def DeletedTwice (s : State D) (t : TrxRef) : Prop :=
  ∃ p, ⟨.insert, p⟩ ∈ s.ops t ∧ 1 < (s.ops t).count ⟨.delete, p⟩

theorem Orderly.nodup_iff (ho : Orderly s) (t : TrxRef) :
  (s.ops t).Nodup ↔ ¬ DeletedTwice s t
  := by
  constructor
  · rintro hnodup ⟨p, -, htwice⟩
    have := List.nodup_iff_count_le_one.mp hnodup ⟨.delete, p⟩
    omega
  · intro htwice
    rw [List.nodup_iff_count_le_one]
    rintro ⟨type, p⟩
    cases type with
    | insert =>
      -- a second insert would stand behind the first one
      by_contra! hcount
      rw [← Nat.succ_le_iff, ← List.replicate_sublist_iff] at hcount
      have hpair := (ho.inserted_first t).sublist hcount
      simp [List.replicate] at hpair
    | delete =>
      by_cases hins : ⟨.insert, p⟩ ∈ s.ops t
      · by_contra! hcount
        exact htwice ⟨p, hins, hcount⟩
      · exact ho.deleted_once t p hins

/-! ### The loops -/

/-- The loop of a commit succeeds on the operations whose records are owned. -/
theorem usesUp_commit {trx : MvccTrx} (hrec : trx.recovering = false) {c : Int}
    (hc : c ≠ -trx.trxId) :
  UsesUp (fun _ : Store D => True) (commitOperation trx c) (Owned trx) (fun _ _ => True)
  := by
  -- a turn gives the field of its operation the commit id
  have hturn : ∀ {store store' : Store D} {op : Operation},
      commitOperation trx c store op = .ok store' →
      Owned trx store op ∧ ∃ r, store op.place = some r ∧ store' = Function.update store op.place
        (some { r with
          beginXid := if op.type = .insert then c else r.beginXid
          endXid := if op.type = .delete then c else r.endXid }) := by
    rintro store store' ⟨type, p⟩ hstep
    rw [commitOperation] at hstep
    cases hr : store p with
    | none =>
      rw [hr] at hstep
      cases hstep
    | some r =>
      rw [hr] at hstep
      cases type <;> dsimp only at hstep <;> split_ifs at hstep with hid <;> cases hstep
      · exact ⟨⟨r, hr, hid.1⟩, r, rfl, by simp⟩
      · exact ⟨⟨r, hr, hid⟩, r, rfl, by simp⟩
  constructor
  · exact fun _ _ => trivial
  · rintro store ⟨type, p⟩ - ⟨r, hr, hid⟩
    dsimp only at hr hid
    rw [commitOperation]
    dsimp only
    rw [hr]
    cases type with
    | insert => exact ⟨_, if_pos ⟨hid, hrec⟩⟩
    | delete => exact ⟨_, if_pos hid⟩
  · exact fun _ hstep => (hturn hstep).1
  · rintro store ⟨type, p⟩ store' - hstep ⟨r', hr', hid⟩
    obtain ⟨-, r, -, rfl⟩ := hturn hstep
    rw [Function.update_self] at hr'
    cases hr'
    cases type <;> exact hc hid
  · rintro store ⟨type, p⟩ store' ⟨type', p'⟩ - hstep ⟨r', hr', hid⟩
    obtain ⟨-, r, hr, rfl⟩ := hturn hstep
    dsimp only at hr hr'
    by_cases hp : p' = p
    · subst hp
      rw [Function.update_self] at hr'
      cases hr'
      refine ⟨r, hr, ?_⟩
      cases type <;> cases type' <;> simp_all
    · rw [Function.update_of_ne hp] at hr'
      exact ⟨r', hr', hid⟩
  · rintro store ⟨type, p⟩ store' ⟨type', p'⟩ - hstep hne - ⟨r', hr', hid⟩
    obtain ⟨-, r, hr, rfl⟩ := hturn hstep
    dsimp only at hr hr'
    by_cases hp : p' = p
    · subst hp
      cases hr.symm.trans hr'
      refine ⟨_, Function.update_self _ _ _, ?_⟩
      cases type <;> cases type' <;> simp_all
    · refine ⟨r', ?_, hid⟩
      dsimp only
      rw [Function.update_of_ne hp]
      exact hr'

/-- What a turn of a rollback needs: the record of an insert, and the mark of a delete. -/
def Undoable (trx : MvccTrx) (state : RC × Store D) (op : Operation) : Prop :=
  ∃ r, state.2 op.place = some r ∧ (op.type = .delete → r.endXid = -trx.trxId)

/-- The loop of a rollback succeeds on the operations that can be undone, unless the record that
an insert takes away is needed later. -/
theorem usesUp_rollback {trx : MvccTrx} (hrec : trx.recovering = false)
    (hid : maxTrxId ≠ -trx.trxId) :
  UsesUp (fun state : RC × Store D => state.1 = .success) (rollbackOperation trx) (Undoable trx)
    (fun op op' => op.type = .insert → op'.place ≠ op.place)
  := by
  -- a turn takes the record away, or its mark
  have hturn : ∀ {state state' : RC × Store D} {op : Operation}, state.1 = .success →
      rollbackOperation trx state op = .ok state' →
      Undoable trx state op ∧ ∃ r, state.2 op.place = some r
        ∧ state' = (.success, Function.update state.2 op.place
          (if op.type = .insert then none else some { r with endXid := maxTrxId })) := by
    rintro ⟨rc, store⟩ state' ⟨type, p⟩ rfl hstep
    rw [rollbackOperation] at hstep
    dsimp only at hstep ⊢
    cases hr : store p with
    | none =>
      rw [hr] at hstep
      cases type <;> simp [hrec] at hstep
    | some r =>
      rw [hr] at hstep
      cases type with
      | insert =>
        simp only [hrec, Bool.false_eq_true, false_and, if_false] at hstep
        cases hstep
        exact ⟨⟨r, hr, by simp⟩, r, rfl, rfl⟩
      | delete =>
        simp only [hrec, Bool.false_eq_true, false_and, if_false, ne_eq, not_true_eq_false]
          at hstep
        split_ifs at hstep with hmark
        cases hstep
        exact ⟨⟨r, hr, fun _ => hmark⟩, r, rfl, rfl⟩
  constructor
  · intro state op state' hgood hstep
    obtain ⟨-, r, -, rfl⟩ := hturn hgood hstep
    rfl
  · rintro ⟨rc, store⟩ ⟨type, p⟩ rfl ⟨r, hr, hmark⟩
    dsimp only at hr hmark
    rw [rollbackOperation]
    dsimp only
    rw [hr]
    cases type with
    | insert => exact ⟨_, if_neg (by simp [hrec])⟩
    | delete =>
      refine ⟨(.success, Function.update store p (some { r with endXid := maxTrxId })), ?_⟩
      simp [hrec, hmark rfl]
  · exact fun hgood hstep => (hturn hgood hstep).1
  · rintro state ⟨type, p⟩ state' hgood hstep ⟨r', hr', hmark⟩
    obtain ⟨-, r, -, rfl⟩ := hturn hgood hstep
    dsimp only at hr' hmark
    rw [Function.update_self] at hr'
    cases type <;> cases hr'
    exact hid (hmark rfl)
  · rintro state ⟨type, p⟩ state' ⟨type', p'⟩ hgood hstep ⟨r', hr', hmark⟩
    obtain ⟨-, r, hr, rfl⟩ := hturn hgood hstep
    dsimp only at hr hr' hmark
    by_cases hp : p' = p
    · subst hp
      rw [Function.update_self] at hr'
      cases type <;> cases hr'
      refine ⟨r, hr, fun hdel => ?_⟩
      exact absurd (hmark hdel) hid
    · rw [Function.update_of_ne hp] at hr'
      exact ⟨r', hr', hmark⟩
  · rintro state ⟨type, p⟩ state' ⟨type', p'⟩ hgood hstep hne hbefore ⟨r', hr', hmark⟩
    obtain ⟨-, r, hr, rfl⟩ := hturn hgood hstep
    dsimp only at hr hr' hmark hbefore
    by_cases hp : p' = p
    · subst hp
      cases type with
      | insert => exact absurd rfl (hbefore rfl)
      | delete =>
        cases type' with
        | insert => exact ⟨_, Function.update_self _ _ _, by simp⟩
        | delete => exact absurd rfl hne
    · refine ⟨r', ?_, hmark⟩
      dsimp only
      rw [Function.update_of_ne hp]
      exact hr'

/-! ### When the calls fail -/

theorem fails_iff_not_returns {α : Type} (out : Except AssertFailure α) :
  (∃ failure, out = .error failure) ↔ ¬ ∃ a, out = .ok a
  := by
  cases out <;> simp

variable {t : TrxRef}

/-- A transaction that has drawn no id has done nothing. -/
theorem ops_eq_nil_of_id (h : Inv s) (hid : s.id t ≤ 0) : s.ops t = [] := by
  refine Serial.ops_eq_nil h fun hactive => ?_
  have := h.id_pos t hactive
  omega

theorem commit_fails_iff (h : Inv s) (ho : Orderly s) (hc : s.currentTrxId < int32Max) :
  (∃ failure, commit t s = .error failure) ↔ s.id t ≤ 0 ∨ DeletedTwice s t
  := by
  by_cases hid : s.id t ≤ 0
  · refine iff_of_true ?_ (.inl hid)
    have hops : (s.trxes t).operations = [] := ops_eq_nil_of_id h hid
    have hlog : ¬ (0 < (s.trxes t).trxId ∧ (s.trxes t).trxId < s.nextTrxId) := by
      rw [State.id] at hid
      omega
    refine ⟨.logTrxId, ?_⟩
    simp [commit, commitWithTrxId, hops, h.recovering t, hlog, pure, Except.pure]
  · have hnext := h.nextTrxId_eq hc
    have hle := h.id_le t
    have hnonneg := h.current_nonneg
    have hloop := (usesUp_commit (D := D) (h.recovering t) (c := s.nextTrxId)
      (by rw [← State.id]; omega)).foldlM_iff (l := s.ops t) (s := s.store) trivial
      (fun op hop => owned_of_mem h hop) (List.pairwise_of_forall fun _ _ => trivial)
    rw [ho.nodup_iff, State.ops] at hloop
    rw [fails_iff_not_returns, not_iff_comm, or_iff_right hid, ← hloop]
    have hlog : 0 < (s.trxes t).trxId ∧ (s.trxes t).trxId < s.nextTrxId := by
      rw [State.id] at hid hle
      omega
    rw [commit, commitWithTrxId]
    dsimp only
    cases hfold : (s.trxes t).operations.foldlM (commitOperation (s.trxes t) s.nextTrxId)
        s.store with
    | error failure => simp
    | ok store => simp [h.recovering t, hlog]

theorem rollback_fails_iff (h : Inv s) (ho : Orderly s) :
  (∃ failure, rollback t s = .error failure) ↔ s.id t ≤ 0 ∨ DeletedTwice s t
  := by
  by_cases hid : s.id t ≤ 0
  · refine iff_of_true ?_ (.inl hid)
    have hops : (s.trxes t).operations = [] := ops_eq_nil_of_id h hid
    have hlog : ¬ 0 < (s.trxes t).trxId := by
      rw [State.id] at hid
      omega
    refine ⟨.logTrxId, ?_⟩
    simp [rollback, hops, h.recovering t, hlog, pure, Except.pure]
  · have hle := h.id_le t
    have hmax : maxTrxId ≠ -(s.trxes t).trxId := by
      rw [State.id] at hid
      have : (0 : Int) < maxTrxId := by decide
      omega
    have hdue : ∀ op ∈ (s.ops t).reverse,
        Undoable (s.trxes t) ((.success, s.store) : RC × Store D) op := by
      rintro ⟨type, p⟩ hop
      obtain ⟨r, hr, hown⟩ := owned_of_mem h (List.mem_reverse.mp hop)
      refine ⟨r, hr, ?_⟩
      rintro rfl
      exact hown
    have hbefore : (s.ops t).reverse.Pairwise
        fun op op' => op.type = .insert → op'.place ≠ op.place := by
      rw [List.pairwise_reverse]
      exact ho.inserted_first t
    have hloop := (usesUp_rollback (D := D) (h.recovering t) hmax).foldlM_iff rfl hdue hbefore
    rw [List.nodup_reverse, ho.nodup_iff, State.ops] at hloop
    rw [fails_iff_not_returns, not_iff_comm, or_iff_right hid, ← hloop]
    have hlog : 0 < (s.trxes t).trxId := by
      rw [State.id] at hid
      omega
    rw [rollback]
    dsimp only
    cases hfold : (s.trxes t).operations.reverse.foldlM (rollbackOperation (s.trxes t))
        (.success, s.store) with
    | error failure => simp
    | ok state => simp [h.recovering t, hlog]

/-- The call ends the transaction of an object. -/
def Event.Ends : Event D → Prop
  | .commit _ => True
  | .rollback _ => True
  | _ => False

/-- A call stops the server exactly when it ends a transaction that has drawn no id, or that has
deleted a record twice. -/
theorem exec_fails_iff (h : Inv s) (ho : Orderly s) {e : Event D} (hc : CounterOk s e)
    (hadm : Admissible s e) :
  (∃ failure, exec s e = .error failure)
    ↔ e.Ends ∧ (s.id e.trx ≤ 0 ∨ DeletedTwice s e.trx)
  := by
  have hpush : ∀ {t : TrxRef} {s' : State D} {op : Operation} {entry : LogEntry}, s.Active t →
      s'.trxes = s.trxes → ¬ ∃ failure, pushOperation t op entry s' = .error failure := by
    rintro t s' op entry hactive htrxes ⟨failure, hfail⟩
    have hpos := h.id_pos t hactive
    rw [State.id, ← htrxes] at hpos
    rw [pushOperation, if_pos hpos] at hfail
    cases hfail
  cases e with
  | startIfNeed t =>
    refine iff_of_false ?_ fun hends => hends.1
    rintro ⟨failure, hfail⟩
    rw [exec, startIfNeed] at hfail
    split_ifs at hfail with hstarted hops
    exact hops (Serial.ops_eq_nil h hstarted)
  | insertRecord t table placed data =>
    refine iff_of_false ?_ fun hends => hends.1
    cases placed with
    | error rc => simp [exec, insertRecord]
    | ok rid => exact hpush hadm.1 rfl
  | deleteRecord t p =>
    refine iff_of_false ?_ fun hends => hends.1
    rw [exec, deleteRecord]
    split
    · simp
    · split
      · exact hpush hadm rfl
      · simp
  | commit t => rw [exec, commit_fails_iff h ho hc, Event.trx, Event.Ends, true_and]
  | rollback t => rw [exec, rollback_fails_iff h ho, Event.trx, Event.Ends, true_and]

end MiniOB.Mvcc
