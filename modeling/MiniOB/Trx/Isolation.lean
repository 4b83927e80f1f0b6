import MiniOB.Lib.Run
import MiniOB.Trx.Invariant

/-!
# Isolation

What the transactions see of each other along the interleavings of their calls. The
properties are stated for the runs whose calls meet a condition `ok`, so that a property
can be compared with and without a condition.
-/

namespace MiniOB.Mvcc

open Transition

variable {D : Type} {s s' : State D}

/-- A call that meets the condition `ok` leads from `s` to `s'`. -/
def StepIf (ok : State D → Event D → Prop) (s : State D) (e : Event D) (s' : State D) : Prop :=
  ok s e ∧ Step s e s'

theorem inv_of_run {ok : State D → Event D → Prop} (hok : ∀ s e, ok s e → CounterOk s e)
    {h : List (State D × Event D)} (hrun : Run (StepIf ok) State.init h s) :
  Inv s
  := by
  apply hrun.invariant inv_init
  intro s e s' hs hstep
  apply hs.step (hok s e hstep.1) hstep.2

/-- Calls that return one after the other make up a run. -/
theorem run_of_allReturn (es : List (Event D)) (s : State D) (h : AllReturn s es) :
  ∃ h, Run (StepIf fun _ _ => True) s h (es.foldl State.after s)
  := run_of_allOk (fun _ _ he => ⟨trivial, he.step⟩) h

/-! ### Committed deletions -/

/-- Along the runs whose calls meet `ok`, a record whose deletion was committed keeps the
commit id, and nobody with a larger id sees it. -/
def CommittedDeletePermanent (ok : State D → Event D → Prop) : Prop :=
  ∀ (h₀ h : List (State D × Event D)) (s₀ s₁ s : State D) (t : TrxRef) (p : Place),
    Run (StepIf ok) State.init h₀ s₀ → ⟨.delete, p⟩ ∈ s₀.ops t →
    StepIf ok s₀ (.commit t) s₁ → Run (StepIf ok) s₁ h s →
    ∃ r, s.store p = some r ∧ r.endXid = s₀.nextTrxId
      ∧ ∀ id mode, s₀.nextTrxId < id → visitRecord id r mode = .recordInvisible

/-- A call of `delete_record` does not find a deletion that was committed after its
transaction has started, and commit ids stay below `max_trx_id`. -/
def DeletesLive (s : State D) : Event D → Prop
  | .deleteRecord t p => ∀ r, s.store p = some r → 0 < r.endXid → r.endXid < maxTrxId →
    ¬ (r.beginXid ≤ s.id t ∧ s.id t ≤ r.endXid)
  | .commit _ => s.currentTrxId + 1 < maxTrxId
  | _ => True

/-- One call leaves a committed deletion in place. -/
theorem endXid_step (h : Inv s) {e : Event D} (hlive : DeletesLive s e) (hs : Step s e s')
    {p : Place} {r : Record D} (hr : s.store p = some r) (hb : 0 < r.beginXid)
    (he : 0 < r.endXid) (hmax : r.endXid < maxTrxId) :
  s'.store p = some r
  := by
  have hins : ∀ t, ⟨.insert, p⟩ ∉ s.ops t := by
    intro t hmem
    have := h.begin_of_mem hr hmem
    have := h.id_pos t (h.active_of_mem t _ hmem)
    omega
  have hdel : ∀ t, ⟨.delete, p⟩ ∉ s.ops t := by
    intro t hmem
    have := h.end_of_mem hr hmem
    have := h.id_pos t (h.active_of_mem t _ hmem)
    omega
  cases hs.effect h.recovering with
  | same => apply hr
  | start t _ _ => apply hr
  | insert t table rid data ht hfree => grind
  | delete t q r₀ ht hr₀ hv =>
    have hv' := (visitRecord_readWrite (h.begin_ne_zero hr₀) (h.end_ne_zero hr₀)).mp hv
    have := hlive r₀ hr₀
    grind [State.id]
  | commit t _ => simp [commitEffect, hins, hdel, hr]
  | rollback t _ => simp [rollbackEffect, hins, hdel, hr]

/-- A committed deletion is permanent along the runs in which no transaction deletes a
record whose deletion was committed after it has started. -/
theorem committed_delete_permanent :
  CommittedDeletePermanent (D := D) fun s e => CounterOk s e ∧ DeletesLive s e
  := by
  intro h₀ h s₀ s₁ s t p hrun₀ hmem ⟨⟨hc, hbelow⟩, hs⟩ hrun
  have hinv₀ : Inv s₀ := inv_of_run (fun _ _ hok => hok.1) hrun₀
  have hn := hinv₀.nextTrxId_eq hc
  have hnonneg := hinv₀.current_nonneg
  have hstart : ∃ r, s₁.store p = some r ∧ 0 < r.beginXid ∧ r.endXid = s₀.nextTrxId := by
    obtain ⟨r, hr, -⟩ := hinv₀.delete_mem t p hmem
    have hb := hinv₀.begin_pos_of_delete hr hmem
    cases hs.effect hinv₀.recovering with
    | same _ hgo => exact absurd rfl (hgo t).1
    | commit _ _ =>
      rw [afterCommit_store, commitEffect, hr]
      refine ⟨_, rfl, ?_⟩
      grind
  obtain ⟨r, hr, hb, he⟩ := hstart
  have hend : Inv s ∧ s.store p = some r := by
    apply hrun.invariant ⟨hinv₀.step hc hs, hr⟩
    rintro s e s' ⟨hinv, hr⟩ ⟨⟨hc, hlive⟩, hs⟩
    simp only [DeletesLive] at hbelow
    use hinv.step hc hs, endXid_step hinv hlive hs hr hb (by omega) (by omega)
  use r, hend.2, he
  intro id mode hid
  unfold visitRecord
  rw [if_pos (by omega), if_neg (by omega)]

/-- Without the condition, a transaction that started before the deletion was committed
deletes the record again, and its rollback brings the record back. -/
theorem committed_delete_undone :
  ¬ CommittedDeletePermanent (D := Unit) fun _ _ => True
  := by
  intro hperm
  let p : Place := ⟨0, 1, 0⟩
  let es : List (Event Unit) :=
    [.startIfNeed 0, .insertRecord 0 0 (.ok ⟨1, 0⟩) (), .commit 0, .startIfNeed 1,
      .startIfNeed 2, .deleteRecord 1 p]
  obtain ⟨h₀, hrun₀⟩ := run_of_allReturn es State.init (by decide +kernel)
  let s₀ := es.foldl State.after State.init
  have hcommit : Returns s₀ (.commit 1) := by decide +kernel
  obtain ⟨h, hrun⟩ := run_of_allReturn [.deleteRecord 2 p, .rollback 2]
    (s₀.after (.commit 1)) (by decide +kernel)
  obtain ⟨r, hr, he, -⟩ :=
    hperm h₀ h s₀ _ _ 1 p hrun₀ (by decide +kernel) ⟨trivial, hcommit.step⟩ hrun
  have hr' : some r = some ⟨2, maxTrxId, ()⟩ := hr.symm.trans (by decide +kernel)
  cases hr'
  revert he
  decide +kernel

/-! ### Dirty reads -/

/-- In the history `h`, the insertion of the present record at `p` was committed with the
id `c`. -/
def InsertCommitted (p : Place) (c : Int) : List (State D × Event D) → Prop
  | [] => False
  | (s, .commit t) :: h => (⟨.insert, p⟩ ∈ s.ops t ∧ s.nextTrxId = c) ∨ InsertCommitted p c h
  | (_, .insertRecord _ table (.ok rid) _) :: h => ⟨table, rid⟩ ≠ p ∧ InsertCommitted p c h
  | _ :: h => InsertCommitted p c h

/-- In the history `h`, a deletion of the present record at `p` was committed. -/
def DeleteCommitted (p : Place) : List (State D × Event D) → Prop
  | [] => False
  | (s, .commit t) :: h => ⟨.delete, p⟩ ∈ s.ops t ∨ DeleteCommitted p h
  | (_, .insertRecord _ table (.ok rid) _) :: h => ⟨table, rid⟩ ≠ p ∧ DeleteCommitted p h
  | _ :: h => DeleteCommitted p h

/-- The runs whose calls meet `ok` have no dirty reads and no dirty hides, and a rollback
leaves no trace. -/
structure NoDirtyReads (ok : State D → Event D → Prop) : Prop where
  /-- A record whose insertion is not committed is invisible to everybody but the
  transaction that has inserted it. -/
  dirty_read : ∀ h s, Run (StepIf ok) State.init h s → ∀ p r, s.store p = some r →
    (∀ c, ¬ InsertCommitted p c h) → ∀ t, s.Active t → ⟨.insert, p⟩ ∉ s.ops t →
    ∀ mode, visitRecord (s.id t) r mode = .recordInvisible
  /-- A committed record none of whose deletions is committed is visible to every later
  transaction that has not deleted it. -/
  dirty_hide : ∀ h s, Run (StepIf ok) State.init h s → ∀ p r c, s.store p = some r →
    InsertCommitted p c h → ¬ DeleteCommitted p h → ∀ t, s.Active t → c < s.id t →
    ⟨.delete, p⟩ ∉ s.ops t → visitRecord (s.id t) r .readOnly = .success
  /-- The rollback of an insertion removes the record. -/
  rollback_insert : ∀ h s s' u p, Run (StepIf ok) State.init h s → ⟨.insert, p⟩ ∈ s.ops u →
    StepIf ok s (.rollback u) s' → s'.store p = none
  /-- The rollback of a deletion restores the record that was there before the deletion. -/
  rollback_delete : ∀ h₀ s₀ s₁ h s s' u p r₀, Run (StepIf ok) State.init h₀ s₀ →
    s₀.store p = some r₀ → ⟨.delete, p⟩ ∉ s₀.ops u → StepIf ok s₀ (.deleteRecord u p) s₁ →
    ⟨.delete, p⟩ ∈ s₁.ops u → Run (StepIf ok) s₁ h s → (∀ x ∈ h, x.1.Active u) →
    s.Active u → ⟨.insert, p⟩ ∉ s.ops u →
    ¬ DeleteCommitted p (h ++ (s₀, .deleteRecord u p) :: h₀) →
    StepIf ok s (.rollback u) s' →
    s'.store p = some r₀

/-- A transaction deletes a record at most once. -/
def DeletesOnce (s : State D) : Event D → Prop
  | .deleteRecord t p => ⟨.delete, p⟩ ∉ s.ops t
  | _ => True

/-- What the transaction fields of a record tell about the history. -/
def Recorded (h : List (State D × Event D)) (s : State D) : Prop :=
  ∀ p r, s.store p = some r →
    (0 < r.beginXid → InsertCommitted p r.beginXid h)
    ∧ (∀ c, InsertCommitted p c h → 0 < c ∧ r.beginXid = c)
    ∧ (r.endXid = maxTrxId ∨ r.endXid < 0 ∨ DeleteCommitted p h)

theorem Recorded.step {h : List (State D × Event D)} (hh : Recorded h s) (hinv : Inv s)
    {e : Event D} (hc : CounterOk s e) (hs : Step s e s') :
  Recorded ((s, e) :: h) s'
  := by
  intro p r' hr'
  have hpos := hinv.id_pos
  cases hs.effect hinv.recovering with
  | same _ hgo =>
    have hold := hh p r' hr'
    cases e with
    | insertRecord t table placed data =>
      cases placed with
      | error rc => apply hold
      | ok rid => exact absurd rfl ((hgo t).2.2 table rid data)
    | commit t => exact absurd rfl (hgo t).1
    | rollback t => exact absurd rfl (hgo t).2.1
    | startIfNeed t => apply hold
    | deleteRecord t q => apply hold
  | start t _ _ => apply hh p r' hr'
  | insert t table rid data ht hfree =>
    have := hpos t ht
    have := hh p r'
    simp only [InsertCommitted, DeleteCommitted]
    grind
  | delete t q r ht hr hv =>
    have := hpos t ht
    have hold := hh p
    simp only [InsertCommitted, DeleteCommitted]
    grind
  | commit t _ =>
    rw [afterCommit_store, commitEffect, Option.map_eq_some_iff] at hr'
    obtain ⟨r, hr, rfl⟩ := hr'
    have hold := hh p r hr
    have hb := hinv.begin_of_mem hr (t := t)
    have hn := hinv.nextTrxId_eq hc
    have h0 := hinv.current_nonneg
    have hact := hinv.active_of_mem t
    simp only [InsertCommitted, DeleteCommitted]
    grind
  | rollback t _ =>
    obtain ⟨hins, r, hr, rfl⟩ := of_rollbackEffect hr'
    have hold := hh p r hr
    simp only [InsertCommitted, DeleteCommitted]
    grind

/-- A transaction keeps its operations while it is active. -/
theorem ops_step (h : Inv s) {e : Event D} (hs : Step s e s') {u : TrxRef}
    (hu' : s'.Active u) {op : Operation} (hop : op ∈ s.ops u) :
  op ∈ s'.ops u
  := by
  cases hs.effect h.recovering <;> grind

theorem ops_run {ok : State D → Event D → Prop} (hok : ∀ s e, ok s e → CounterOk s e)
    {s₁ : State D} {h : List (State D × Event D)} (hrun : Run (StepIf ok) s₁ h s)
    (hinv : Inv s₁) {u : TrxRef} {op : Operation} (hop : op ∈ s₁.ops u)
    (hact : ∀ x ∈ h, x.1.Active u) (hu : s.Active u) :
  op ∈ s.ops u
  := by
  have hend : Inv s ∧ op ∈ s.ops u := by
    apply hrun.invariant_while (C := fun s => s.Active u) ⟨hinv, hop⟩ hact hu
    rintro s e s' ⟨hinv, hop⟩ - hu' hs
    use hinv.step (hok s e hs.1) hs.2, ops_step hinv hs.2 hu' hop
  apply hend.2

/-- While a transaction is deleting a committed record, nobody else changes the record. -/
theorem deleting_step (h : Inv s) {e : Event D} (hs : Step s e s') {u : TrxRef}
    (hu' : s'.Active u) {p : Place} {r : Record D} (hr : s.store p = some r)
    (hb : 0 < r.beginXid) (hdel : ⟨.delete, p⟩ ∈ s.ops u) :
  s'.store p = some r
  := by
  have hins : ∀ t, ⟨.insert, p⟩ ∉ s.ops t := by
    intro t hmem
    have := h.begin_of_mem hr hmem
    have := h.id_pos t (h.active_of_mem t _ hmem)
    omega
  have hunique : ∀ t, ⟨.delete, p⟩ ∈ s.ops t → t = u := by
    intro t hmem
    apply h.delete_unique hmem hdel
  have he := h.end_of_mem hr hdel
  have hpos := h.id_pos u (h.active_of_mem u _ hdel)
  cases hs.effect h.recovering with
  | same => apply hr
  | start t _ _ => apply hr
  | insert t table rid data ht hfree => grind
  | delete t q r₀ ht hr₀ hv =>
    have hv' := (visitRecord_readWrite (h.begin_ne_zero hr₀) (h.end_ne_zero hr₀)).mp hv
    grind
  | commit t _ =>
    have hmem : ⟨.delete, p⟩ ∉ s.ops t := by grind
    simp [commitEffect, hins, hmem, hr]
  | rollback t _ =>
    have hmem : ⟨.delete, p⟩ ∉ s.ops t := by grind
    simp [rollbackEffect, hins, hmem, hr]

/-- As long as the record at `p` stays, a committed deletion stays in the history. -/
theorem deleteCommitted_cons {e : Event D} {p : Place} {r : Record D}
    (hs : Step s e s') (hr : s.store p = some r) {h : List (State D × Event D)}
    (hdel : DeleteCommitted p h) :
  DeleteCommitted p ((s, e) :: h)
  := by
  cases e with
  | insertRecord t table placed data =>
    cases placed with
    | error rc => apply hdel
    | ok rid =>
      refine ⟨?_, hdel⟩
      rintro rfl
      have := hs.1.2 rid rfl
      simp [hr] at this
  | commit t => apply Or.inr hdel
  | rollback t => apply hdel
  | startIfNeed t => apply hdel
  | deleteRecord t q => apply hdel

/-- The segment of a run in which `u` is deleting the committed record at `p`. -/
theorem deleting_run {ok : State D → Event D → Prop} (hok : ∀ s e, ok s e → CounterOk s e)
    {s₁ : State D} {h : List (State D × Event D)} (h₁ : List (State D × Event D))
    (hrun : Run (StepIf ok) s₁ h s)
    (hinv : Inv s₁) {u : TrxRef} {p : Place} {r : Record D} (hr : s₁.store p = some r)
    (hb : 0 < r.beginXid) (hdel : ⟨.delete, p⟩ ∈ s₁.ops u) (hact : ∀ x ∈ h, x.1.Active u)
    (hu : s.Active u) :
  Inv s ∧ ⟨.delete, p⟩ ∈ s.ops u ∧ s.store p = some r
    ∧ (DeleteCommitted p h₁ → DeleteCommitted p (h ++ h₁))
  := by
  induction hrun with
  | refl => exact ⟨hinv, hdel, hr, id⟩
  | tail _ hlast ih =>
    have hu₀ := hact _ List.mem_cons_self
    obtain ⟨hinv', hdel', hr', hhist⟩ := ih (fun x hx => hact x (List.mem_cons_of_mem _ hx)) hu₀
    refine ⟨hinv'.step (hok _ _ hlast.1) hlast.2, ops_step hinv' hlast.2 hu hdel',
      deleting_step hinv' hlast.2 hu hr' hb hdel', ?_⟩
    intro hcommitted
    apply deleteCommitted_cons hlast.2 hr' (hhist hcommitted)

/-- There are no dirty reads and no dirty hides along the runs in which the id counter
does not wrap. -/
theorem no_dirty_reads :
  NoDirtyReads (D := D) fun s e => DeletesOnce s e ∧ CounterOk s e
  := by
  have hall : ∀ {h : List (State D × Event D)} {s : State D},
      Run (StepIf fun s e => DeletesOnce s e ∧ CounterOk s e) State.init h s →
      Inv s ∧ Recorded h s := by
    intro h s hrun
    apply hrun.invariant_history (P := fun h s => Inv s ∧ Recorded h s)
    · use inv_init
      simp [Recorded, State.init]
    · rintro h s e s' ⟨hinv, hh⟩ ⟨⟨-, hc⟩, hs⟩
      use hinv.step hc hs, hh.step hinv hc hs
  constructor
  case dirty_read =>
    intro h s hrun p r hr hnot t ht hins mode
    obtain ⟨hinv, hh⟩ := hall hrun
    obtain ⟨hb, -, -⟩ := hh p r hr
    have hneg : r.beginXid < 0 := by
      have := hinv.begin_ne_zero hr
      by_contra hpos
      apply hnot _ (hb (by omega))
    have hmem := hinv.mem_insert hr ht
    unfold visitRecord
    rw [if_neg (by omega), if_pos hneg, if_neg]
    intro heq
    apply hins (hmem (by omega))
  case dirty_hide =>
    intro h s hrun p r c hr hcom hnot t ht hc hdel
    obtain ⟨hinv, hh⟩ := hall hrun
    obtain ⟨-, hb, he⟩ := hh p r hr
    have hb' := hb c hcom
    have hmem := hinv.mem_delete hr ht
    have := hinv.id_le t
    have := hinv.current_le
    rw [visitRecord_readOnly (hinv.begin_ne_zero hr) (hinv.end_ne_zero hr), if_pos]
    grind [maxTrxId, int32Max]
  case rollback_insert =>
    intro h s s' u p hrun hmem hs
    obtain ⟨hinv, -⟩ := hall hrun
    cases hs.2.effect hinv.recovering with
    | same _ hgo => exact absurd rfl (hgo u).2.1
    | rollback _ _ => simp [rollbackEffect, hmem]
  case rollback_delete =>
    intro h₀ s₀ s₁ h s s' u p r₀ hrun₀ hr₀ hnew hs₀ hdel hrun hact hu hins hnot hs
    obtain ⟨hinv₀, hh₀⟩ := hall hrun₀
    have hinv₁ := hinv₀.step hs₀.1.2 hs₀.2
    cases hs₀.2.effect hinv₀.recovering with
    | same => contradiction
    | delete _ _ r hu₀ hr hv =>
      obtain rfl : r = r₀ := Option.some.inj (hr.symm.trans hr₀)
      obtain hv' | hv' :=
        (visitRecord_readWrite (hinv₀.begin_ne_zero hr) (hinv₀.end_ne_zero hr)).mp hv
      · obtain ⟨hinv, hdel', hr', hhist⟩ := deleting_run (fun _ _ hok => hok.2)
          ((s₀, .deleteRecord u p) :: h₀) hrun hinv₁ (r := { r with endXid := -s₀.id u })
          (by simp) hv'.1 hdel hact hu
        obtain he | he | he := (hh₀ p r hr).2.2
        · cases hs.2.effect hinv.recovering with
          | same _ hgo => exact absurd rfl (hgo u).2.1
          | rollback _ _ => simp [rollbackEffect, hins, hdel', hr', ← he]
        · omega
        · exact absurd (hhist he) hnot
      · have hmem := ops_step hinv₀ hs₀.2 (hinv₁.active_of_mem u _ hdel)
          (hinv₀.mem_insert hr hu₀ hv'.2)
        exact absurd (ops_run (fun _ _ hok => hok.2) hrun hinv₁ hmem hact hu) hins

/-- The object `0` inserts a record with the id `1`, and the objects `1` to `n` start. -/
theorem run_starts (n : Nat) :
  ∃ (h : List (State Unit × Event Unit)) (s : State Unit),
    Run (StepIf DeletesOnce) State.init h s
      ∧ s.store ⟨0, 1, 0⟩ = some ⟨-1, maxTrxId, ()⟩
      ∧ (∀ c, ¬ InsertCommitted ⟨0, 1, 0⟩ c h)
      ∧ s.currentTrxId = int32 (n + 1)
      ∧ (∀ k, n < k → s.trxes k = {})
      ∧ (0 < n → s.trxes n = { trxId := int32 (n + 1), started := true })
  := by
  induction n with
  | zero =>
    let s₁ := (State.init : State Unit).afterStart 0
    have h₁ : Step State.init (.startIfNeed 0) s₁ := step_afterStart rfl rfl
    have h₂ : Step s₁ (.insertRecord 0 0 (.ok ⟨1, 0⟩) ()) (s₁.afterInsert 0 ⟨0, 1, 0⟩ ()) :=
      step_afterInsert rfl (by decide) rfl
    refine ⟨_, _, (Run.refl.tail ⟨by trivial, h₁⟩).tail ⟨by trivial, h₂⟩, rfl,
      ?_, rfl, ?_, by simp⟩
    · simp [InsertCommitted]
    · intro k hk
      have hne : k ≠ 0 := by omega
      simp [s₁, State.afterStart, State.afterInsert, State.setTrx, State.init, hne]
  | succ n ih =>
    obtain ⟨h, s, hrun, hstore, hins, hcur, hidle, -⟩ := ih
    have hnew := hidle (n + 1) (by omega)
    have hstep : Step s (.startIfNeed (n + 1)) (s.afterStart (n + 1)) :=
      step_afterStart (by simp [hnew]) (by simp [hnew])
    have hnext : s.nextTrxId = int32 (n + 1 + 1) := by
      rw [State.nextTrxId, hcur, int32, int32, int32, Int.bmod_add_bmod]
    refine ⟨_, _, hrun.tail ⟨by trivial, hstep⟩, hstore, hins, ?_, ?_, ?_⟩
    · simpa using hnext
    · intro k hk
      have hne : k ≠ n + 1 := by omega
      simp [State.afterStart, State.setTrx, hne, hidle k (by omega)]
    · intro _
      simp [State.afterStart, State.setTrx, hnew, hnext]

/-- Once the id counter has wrapped, another transaction gets the id of the one that has
inserted the record, and sees the record. -/
theorem dirty_read_wraps :
  ¬ NoDirtyReads (D := Unit) DeletesOnce
  := by
  intro hclean
  obtain ⟨h, s, hrun, hstore, hins, -, -, htrx⟩ := run_starts (2 ^ 32)
  have htrx' := htrx (by decide)
  have hid : s.id (2 ^ 32) = 1 := by
    rw [State.id, htrx']
    decide
  have hvisit := hclean.dirty_read h s hrun _ _ hstore hins (2 ^ 32)
    (by rw [State.Active, htrx']) (by rw [State.ops, htrx']; apply List.not_mem_nil) .readOnly
  rw [hid] at hvisit
  revert hvisit
  decide

end MiniOB.Mvcc
