import MiniOB.Trx.Isolation

/-!
# The assertions of commit and rollback

The loops of `commit_with_trx_id` and `rollback` assert that every record still carries
minus the transaction id. This holds at each turn when the operations of a transaction lie
at different places, which in turn depends on a transaction not deleting the records it
has inserted itself.
-/

namespace MiniOB.Mvcc

open Transition

variable {D : Type} {s s' : State D}

/-! ### The properties -/

/-- Along the runs whose calls meet `ok`, a transaction does not see the records it has
deleted, and deleting such a record again is rejected. -/
def DeletedInvisible (ok : State D → Event D → Prop) : Prop :=
  ∀ (h : List (State D × Event D)) (s : State D), Run (StepIf ok) State.init h s →
    ∀ t p, ⟨.delete, p⟩ ∈ s.ops t →
      (∀ r, s.store p = some r → ∀ mode, visitRecord (s.id t) r mode = .recordInvisible)
      ∧ deleteRecord t p s = .ok (.recordInvisible, s)

/-- Along the runs whose calls meet `ok`, no assertion fails but those of the log handler
on the ids it is given. -/
def NoFailedAssert (ok : State D → Event D → Prop) : Prop :=
  ∀ (h : List (State D × Event D)) (s : State D), Run (StepIf ok) State.init h s →
    ∀ e, ok s e → Admissible s e → ∀ failure, exec s e = .error failure → failure = .logTrxId

/-- A call of `delete_record` is not about a record that its own transaction has
inserted. -/
def DeletesForeign (s : State D) : Event D → Prop
  | .deleteRecord t p => ∀ r, s.store p = some r → r.beginXid ≠ -s.id t
  | _ => True

/-! ### The places of the operations -/

/-- The operations of a transaction lie at different places. -/
def DistinctPlaces (s : State D) : Prop :=
  ∀ t, ((s.ops t).map Operation.place).Nodup

theorem DistinctPlaces.step (hd : DistinctPlaces s) (h : Inv s) {e : Event D}
    (hforeign : DeletesForeign s e) (hs : Step s e s') :
  DistinctPlaces s'
  := by
  have hadd : ∀ t p (type : OperationType), (∀ op ∈ s.ops t, op.place ≠ p) →
      ((s.ops t ++ [(⟨type, p⟩ : Operation)]).map Operation.place).Nodup := by
    intro t p type hne
    rw [List.map_append, List.nodup_append]
    refine ⟨hd t, List.nodup_singleton _, ?_⟩
    simp only [List.map_cons, List.map_nil, List.mem_singleton, List.mem_map]
    rintro _ ⟨op, hop, rfl⟩ _ rfl
    apply hne op hop
  intro t'
  cases hs.effect h.recovering with
  | same => apply hd
  | start t _ _ => simpa using hd t'
  | insert t table rid data ht hfree =>
    rw [afterInsert_ops]
    split
    · apply hadd
      rintro ⟨type, p⟩ hop rfl
      have hi := h.insert_mem t ⟨table, rid⟩
      have hd := h.delete_mem t ⟨table, rid⟩
      cases type <;> grind
    · apply hd
  | delete t p r ht hr hv =>
    rw [afterDelete_ops]
    split
    · apply hadd
      rintro ⟨type, _⟩ hop rfl
      have hv' := (visitRecord_readWrite (h.begin_ne_zero hr) (h.end_ne_zero hr)).mp hv
      have hb := hforeign r hr
      have hi := h.begin_of_mem hr (t := t)
      have he := h.end_of_mem hr (t := t)
      have hpos := h.id_pos t ht
      cases type <;> grind [State.id]
    · apply hd
  | commit t _ =>
    rw [afterCommit_ops]
    split
    · simp
    · apply hd
  | rollback t _ =>
    rw [afterRollback_ops]
    split
    · simp
    · apply hd

/-! ### The loops -/

/-- The record of the operation exists and carries minus the id of `trx`. -/
def Owned (trx : MvccTrx) (store : Store D) (op : Operation) : Prop :=
  ∃ r, store op.place = some r
    ∧ match op.type with
      | .insert => r.beginXid = -trx.trxId
      | .delete => r.endXid = -trx.trxId

theorem Owned.update {trx : MvccTrx} {store : Store D} {op : Operation} {p : Place}
    (h : Owned trx store op) (hne : op.place ≠ p) (r : Option (Record D)) :
  Owned trx (Function.update store p r) op
  := by
  simpa [Owned, hne] using h

/-- A commit loop over records that the transaction owns runs to its end. -/
theorem commit_loop_ok {trx : MvccTrx} (hrec : trx.recovering = false) (c : Int)
    {ops : List Operation} :
    ∀ {store : Store D}, (ops.map Operation.place).Nodup → (∀ op ∈ ops, Owned trx store op) →
      ∃ store', ops.foldlM (commitOperation trx c) store = .ok store' := by
  induction ops with
  | nil =>
    intro store _ _
    use store
    rfl
  | cons op ops ih =>
    intro store hnodup howned
    obtain ⟨hop, htail⟩ := List.nodup_cons.mp hnodup
    have hne : ∀ op' ∈ ops, op'.place ≠ op.place := by
      intro op' hop' heq
      apply hop (List.mem_map.mpr ⟨op', hop', heq⟩)
    obtain ⟨r, hr, hid⟩ := howned op List.mem_cons_self
    rw [List.foldlM_cons]
    obtain ⟨type, p⟩ := op
    cases type <;> dsimp only at hr hid <;>
      simp only [commitOperation, hr, hid, hrec, and_self, if_true, bind, Except.bind]
    all_goals
      apply ih htail
      intro op' hop'
      apply (howned op' (List.mem_cons_of_mem _ hop')).update (hne op' hop')

/-- A rollback loop over records that the transaction owns runs to its end. -/
theorem rollback_loop_ok {trx : MvccTrx} (hrec : trx.recovering = false)
    {ops : List Operation} :
    ∀ {store : Store D}, (ops.map Operation.place).Nodup → (∀ op ∈ ops, Owned trx store op) →
      ∃ store', ops.foldlM (rollbackOperation trx) (.success, store) = .ok (.success, store') := by
  induction ops with
  | nil =>
    intro store _ _
    use store
    rfl
  | cons op ops ih =>
    intro store hnodup howned
    obtain ⟨hop, htail⟩ := List.nodup_cons.mp hnodup
    have hne : ∀ op' ∈ ops, op'.place ≠ op.place := by
      intro op' hop' heq
      apply hop (List.mem_map.mpr ⟨op', hop', heq⟩)
    obtain ⟨r, hr, hid⟩ := howned op List.mem_cons_self
    rw [List.foldlM_cons]
    obtain ⟨type, p⟩ := op
    cases type <;> dsimp only at hr hid <;>
      simp [rollbackOperation, hr, hid, hrec, bind, Except.bind]
    all_goals
      apply ih htail
      intro op' hop'
      apply (howned op' (List.mem_cons_of_mem _ hop')).update (hne op' hop')

theorem owned_of_mem (h : Inv s) {t : TrxRef} {op : Operation} (hop : op ∈ s.ops t) :
  Owned (s.trxes t) s.store op
  := by
  obtain ⟨type, p⟩ := op
  cases type with
  | insert => apply h.insert_mem t p hop
  | delete => apply h.delete_mem t p hop

/-! ### The assertions hold -/

theorem commit_no_assert (h : Inv s) (hd : DistinctPlaces s) {t : TrxRef}
    {failure : AssertFailure} (hfail : commit t s = .error failure) :
  failure = .logTrxId
  := by
  obtain ⟨store, hloop⟩ := commit_loop_ok (h.recovering t) s.nextTrxId (hd t)
    (fun op hop => owned_of_mem h hop)
  rw [State.ops] at hloop
  simp only [commit, commitWithTrxId, hloop, h.recovering t] at hfail
  grind

theorem rollback_no_assert (h : Inv s) (hd : DistinctPlaces s) {t : TrxRef}
    {failure : AssertFailure} (hfail : rollback t s = .error failure) :
  failure = .logTrxId
  := by
  have hnodup : ((s.ops t).reverse.map Operation.place).Nodup := by
    rw [List.map_reverse, List.nodup_reverse]
    apply hd t
  obtain ⟨store, hloop⟩ := rollback_loop_ok (h.recovering t) hnodup
    (fun op hop => owned_of_mem h (List.mem_reverse.mp hop))
  rw [State.ops] at hloop
  simp only [rollback, hloop, h.recovering t] at hfail
  grind

theorem pushOperation_no_assert {t : TrxRef} {op : Operation} {entry : LogEntry}
    {failure : AssertFailure} (hfail : pushOperation t op entry s = .error failure) :
  failure = .logTrxId
  := by
  rw [pushOperation] at hfail
  split at hfail <;> cases hfail
  rfl

theorem exec_no_assert (h : Inv s) (hd : DistinctPlaces s) {e : Event D}
    {failure : AssertFailure} (hfail : exec s e = .error failure) :
  failure = .logTrxId
  := by
  cases e with
  | startIfNeed t =>
    have hops : ¬ s.Active t → (s.trxes t).operations = [] := by
      intro hidle
      apply List.eq_nil_iff_forall_not_mem.mpr
      intro op hop
      apply hidle (h.active_of_mem t op hop)
    simp only [exec, startIfNeed] at hfail
    grind [State.Active]
  | insertRecord t table placed data =>
    cases placed with
    | error rc => cases hfail
    | ok rid => apply pushOperation_no_assert hfail
  | deleteRecord t p =>
    simp only [exec, deleteRecord] at hfail
    split at hfail
    · cases hfail
    · split at hfail
      · apply pushOperation_no_assert hfail
      · cases hfail
  | commit t => apply commit_no_assert h hd hfail
  | rollback t => apply rollback_no_assert h hd hfail

/-- A transaction does not see a record it is deleting, unless it has inserted it. -/
theorem deleting_invisible (h : Inv s) {t : TrxRef} {p : Place} {r : Record D}
    (hr : s.store p = some r) (hdel : ⟨.delete, p⟩ ∈ s.ops t) (hins : ⟨.insert, p⟩ ∉ s.ops t)
    (mode : ReadWriteMode) :
  visitRecord (s.id t) r mode = .recordInvisible
  := by
  have hb := h.begin_pos_of_delete hr hdel hins
  have he := h.end_of_mem hr hdel
  have hpos := h.id_pos t (h.active_of_mem t _ hdel)
  unfold visitRecord
  rw [if_neg (by omega), if_neg (by omega), if_pos (by omega)]
  cases mode <;> simp [he]

/-- Along the runs in which no transaction deletes a record it has inserted, deleted
records are invisible to the transaction that deleted them and the assertions hold. -/
theorem deleted_invisible_and_no_assert :
  DeletedInvisible (D := D) (fun s e => CounterOk s e ∧ DeletesForeign s e)
    ∧ NoFailedAssert (D := D) (fun s e => CounterOk s e ∧ DeletesForeign s e)
  := by
  have hall : ∀ {h : List (State D × Event D)} {s : State D},
      Run (StepIf fun s e => CounterOk s e ∧ DeletesForeign s e) State.init h s →
      Inv s ∧ DistinctPlaces s := by
    intro h s hrun
    apply hrun.invariant
    · use inv_init
      simp [DistinctPlaces, State.init, State.ops]
    · rintro s e s' ⟨hinv, hd⟩ ⟨⟨hc, hforeign⟩, hs⟩
      use hinv.step hc hs, hd.step hinv hforeign hs
  constructor
  · intro h s hrun t p hdel
    obtain ⟨hinv, hd⟩ := hall hrun
    have hins : ⟨.insert, p⟩ ∉ s.ops t := by
      intro hins
      have heq := List.inj_on_of_nodup_map (hd t) hins hdel rfl
      cases heq
    have hvisit : ∀ r, s.store p = some r → ∀ mode,
        visitRecord (s.id t) r mode = .recordInvisible := by
      intro r hr mode
      apply deleting_invisible hinv hr hdel hins
    use hvisit
    obtain ⟨r, hr, -⟩ := hinv.delete_mem t p hdel
    have hrw := hvisit r hr .readWrite
    rw [State.id] at hrw
    simp only [deleteRecord, hr, hrw]
  · intro h s hrun e _ _ failure hfail
    obtain ⟨hinv, hd⟩ := hall hrun
    apply exec_no_assert hinv hd hfail

/-- Without the condition, a transaction that deletes a record it has inserted still sees
it, can delete it once more, and then fails an assertion when it commits. -/
theorem own_delete_visible_and_assert :
  ¬ DeletedInvisible (D := Unit) (fun _ _ => True)
    ∧ ¬ NoFailedAssert (D := Unit) (fun _ _ => True)
  := by
  let p : Place := ⟨0, 1, 0⟩
  let es : List (Event Unit) :=
    [.startIfNeed 0, .insertRecord 0 0 (.ok ⟨1, 0⟩) (), .deleteRecord 0 p]
  constructor
  · intro hinvisible
    obtain ⟨h, hrun⟩ := run_of_allReturn es State.init (by decide +kernel)
    obtain ⟨hvisit, -⟩ := hinvisible h _ hrun 0 p (by decide +kernel)
    have hro := hvisit ⟨-1, -1, ()⟩ (by decide +kernel) .readOnly
    revert hro
    decide +kernel
  · intro hassert
    let es' := es ++ [.deleteRecord 0 p]
    obtain ⟨h, hrun⟩ := run_of_allReturn es' State.init (by decide +kernel)
    have hfail := hassert h _ hrun (.commit 0) trivial trivial .commitRecord rfl
    cases hfail

end MiniOB.Mvcc
