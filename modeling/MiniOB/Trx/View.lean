import MiniOB.Trx.Invariant

/-!
# What readers see

The rows that a transaction sees, and how they change when the transactions follow one
another: when a transaction starts only after the one before it has ended.
-/

namespace MiniOB.Mvcc

variable {D : Type} {s s' : State D}

/-- What the reader with the given id sees at each place. -/
def view (store : Store D) (id : Int) (p : Place) : Option D :=
  (store p).bind fun r => if visitRecord id r .readOnly = .success then some r.data else none

/-- A reader of the state: the transaction with the given id is active, or starts later. -/
def Reader (s : State D) (id : Int) : Prop :=
  (∃ u, s.Active u ∧ id = s.id u) ∨ (s.currentTrxId < id ∧ id ≤ int32Max)

theorem view_eq_some {store : Store D} {id : Int} {p : Place} {d : D} :
  view store id p = some d
    ↔ ∃ r, store p = some r ∧ visitRecord id r .readOnly = .success ∧ r.data = d
  := by
  rw [view, Option.bind_eq_some_iff]
  simp

/-- Transactions follow one another: no transaction starts while another one is active. -/
def InTurn (s : State D) : Event D → Prop
  | .startIfNeed t => ∀ u, s.Active u → u = t
  | _ => True

/-- At most one transaction is active, and the records that it has not touched were left by
transactions that ended before it started. -/
structure Serial (s : State D) : Prop where
  one : ∀ t u, s.Active t → s.Active u → t = u
  begin_lt : ∀ t, s.Active t → ∀ p r, s.store p = some r →
    r.beginXid = -s.id t ∨ (0 < r.beginXid ∧ r.beginXid < s.id t)
  end_lt : ∀ t, s.Active t → ∀ p r, s.store p = some r →
    r.endXid = maxTrxId ∨ r.endXid < s.id t

theorem serial_init : Serial (State.init : State D) := by
  constructor <;> simp [State.init, State.Active]

namespace Serial

/-- An object that is not active has nothing to commit or to roll back. -/
theorem ops_eq_nil (h : Inv s) {t : TrxRef} (ht : ¬ s.Active t) : s.ops t = [] := by
  rw [List.eq_nil_iff_forall_not_mem]
  exact fun op hop => ht (h.active_of_mem t op hop)

theorem afterStart (h : Inv s) {t : TrxRef} (hn : s.nextTrxId = s.currentTrxId + 1)
    (hnone : ∀ u, ¬ s.Active u) :
  Serial (s.afterStart t)
  := by
  have hactive : ∀ u, (s.afterStart t).Active u → u = t := by
    intro u hu
    rw [afterStart_active] at hu
    exact hu.resolve_right (hnone u)
  constructor
  · intro u v hu hv
    rw [hactive u hu, hactive v hv]
  · intro u hu p r hr
    rw [hactive u hu, afterStart_id, if_pos rfl, hn]
    obtain hb | ⟨v, hv, -⟩ := h.begin_owner p r hr
    · right
      omega
    · exact absurd hv (hnone v)
  · intro u hu p r hr
    rw [hactive u hu, afterStart_id, if_pos rfl, hn]
    obtain he | he | ⟨v, hv, -⟩ := h.end_owner p r hr
    · exact .inl he
    · right
      omega
    · exact absurd hv (hnone v)

theorem afterInsert (hs : Serial s) {t : TrxRef} (ht : s.Active t) (q : Place) (data : D) :
  Serial (s.afterInsert t q data)
  := by
  constructor
  · simpa using hs.one
  · intro u hu p r hr
    rw [afterInsert_active] at hu
    obtain rfl := hs.one u t hu ht
    rw [afterInsert_store] at hr
    rw [afterInsert_id]
    split_ifs at hr with hp
    · cases hr
      exact .inl rfl
    · exact hs.begin_lt u hu p r hr
  · intro u hu p r hr
    rw [afterInsert_active] at hu
    rw [afterInsert_store] at hr
    rw [afterInsert_id]
    split_ifs at hr with hp
    · cases hr
      exact .inl rfl
    · exact hs.end_lt u hu p r hr

theorem afterDelete (hs : Serial s) (h : Inv s) {t : TrxRef} (ht : s.Active t) {q : Place}
    {r₀ : Record D} (hr₀ : s.store q = some r₀) :
  Serial (s.afterDelete t q r₀)
  := by
  have hpos := h.id_pos t ht
  constructor
  · simpa using hs.one
  · intro u hu p r hr
    rw [afterDelete_active] at hu
    rw [afterDelete_store] at hr
    rw [afterDelete_id]
    split_ifs at hr with hp
    · cases hr
      exact hs.begin_lt u hu q r₀ hr₀
    · exact hs.begin_lt u hu p r hr
  · intro u hu p r hr
    rw [afterDelete_active] at hu
    obtain rfl := hs.one u t hu ht
    rw [afterDelete_store] at hr
    rw [afterDelete_id]
    split_ifs at hr with hp
    · cases hr
      right
      dsimp only
      omega
    · exact hs.end_lt u hu p r hr

/-- When a transaction has ended and another one is still active, then the one that has ended
had nothing to do: the records are those before. -/
theorem ended (hs : Serial s) (hactive : ∀ u, s'.Active u → s.Active u)
    (hid : ∀ u, s'.id u = s.id u) (hstore : ∀ u, s'.Active u → s'.store = s.store) :
  Serial s'
  := by
  constructor
  · intro u v hu hv
    exact hs.one u v (hactive u hu) (hactive v hv)
  · intro u hu p r hr
    rw [hstore u hu] at hr
    rw [hid]
    exact hs.begin_lt u (hactive u hu) p r hr
  · intro u hu p r hr
    rw [hstore u hu] at hr
    rw [hid]
    exact hs.end_lt u (hactive u hu) p r hr

/-- An object beside the active one has nothing to commit or to roll back. -/
theorem ops_eq_nil_of_active (hs : Serial s) (h : Inv s) {t u : TrxRef} (hne : u ≠ t)
    (hu : s.Active u) :
  s.ops t = []
  := ops_eq_nil h fun ht => hne (hs.one u t hu ht)

theorem step (hs : Serial s) (h : Inv s) {e : Event D} (hc : CounterOk s e) (hturn : InTurn s e)
    (hstep : Step s e s') :
  Serial s'
  := by
  cases hstep.effect h.recovering with
  | same => exact hs
  | start t hidle _ =>
    apply afterStart h (h.nextTrxId_eq hc)
    intro u hu
    obtain rfl := hturn u hu
    rw [State.Active, hidle] at hu
    cases hu
  | insert t table rid data ht hfree => exact hs.afterInsert ht _ _
  | delete t q r₀ ht hr₀ hv => exact hs.afterDelete h ht hr₀
  | commit t _ =>
    apply hs.ended (fun u hu => ((afterCommit_active s t u).mp hu).2) (afterCommit_id s t)
    intro u hu
    rw [afterCommit_active] at hu
    rw [afterCommit_store, hs.ops_eq_nil_of_active h hu.1 hu.2]
    funext p
    simp [commitEffect]
  | rollback t _ =>
    apply hs.ended (fun u hu => ((afterRollback_active s t u).mp hu).2) (afterRollback_id s t)
    intro u hu
    rw [afterRollback_active] at hu
    rw [afterRollback_store, hs.ops_eq_nil_of_active h hu.1 hu.2]
    funext p
    simp [rollbackEffect]

/-! ### What a step shows -/

variable {id : Int} {t : TrxRef} {p : Place} {d : D}

/-- A deletion shows nobody a row that is not seen already. -/
theorem view_afterDelete (hs : Serial s) (h : Inv s) {q : Place} {r₀ : Record D}
    (ht : s.Active t) (hr₀ : s.store q = some r₀)
    (hv : visitRecord (s.id t) r₀ .readWrite = .success) (hid : Reader s id)
    (hview : view (s.afterDelete t q r₀).store id p = some d) :
  view s.store id p = some d
  := by
  have hpos := h.id_pos t ht
  rw [view_eq_some] at hview ⊢
  obtain ⟨r, hr, hvisit, rfl⟩ := hview
  rw [afterDelete_store] at hr
  split_ifs at hr with hp
  · cases hr
    subst hp
    refine ⟨r₀, hr₀, ?_, rfl⟩
    rw [visitRecord_readWrite (h.begin_ne_zero hr₀) (h.end_ne_zero hr₀)] at hv
    rw [visitRecord_readOnly (by simpa using h.begin_ne_zero hr₀) (by dsimp only; omega)]
      at hvisit
    rw [visitRecord_readOnly (h.begin_ne_zero hr₀) (h.end_ne_zero hr₀)]
    have hlt := hs.begin_lt t ht p r₀ hr₀
    have hend := hs.end_lt t ht p r₀ hr₀
    have hle := h.id_le t
    have hmax : id = s.id t ∨ (s.currentTrxId < id ∧ id ≤ maxTrxId) := by
      obtain ⟨u, hu, rfl⟩ | hid := hid
      · rw [hs.one u t hu ht]
        exact .inl rfl
      · exact .inr hid
    grind
  · exact ⟨r, hr, hvisit, rfl⟩

/-- An insertion shows the new row, to the inserting transaction only. -/
theorem view_afterInsert (h : Inv s) {q : Place} {data : D} (ht : s.Active t)
    (hview : view (s.afterInsert t q data).store id p = some d) :
  (p = q ∧ d = data ∧ id = s.id t) ∨ view s.store id p = some d
  := by
  have hpos := h.id_pos t ht
  rw [view_eq_some] at hview ⊢
  obtain ⟨r, hr, hvisit, rfl⟩ := hview
  rw [afterInsert_store] at hr
  split_ifs at hr with hp
  · cases hr
    left
    refine ⟨hp, rfl, ?_⟩
    rw [visitRecord, if_neg (by dsimp only; omega), if_pos (by dsimp only; omega)] at hvisit
    split_ifs at hvisit with heq
    dsimp only at heq
    omega
  · exact .inr ⟨r, hr, hvisit, rfl⟩

/-- A commit shows later readers no row that its transaction did not see. -/
theorem view_afterCommit (hs : Serial s) (h : Inv s) (hc : s.currentTrxId < int32Max)
    (ht : s.Active t) (hid : s.nextTrxId < id)
    (hview : view (s.afterCommit t).store id p = some d) :
  view s.store (s.id t) p = some d
  := by
  have hpos := h.id_pos t ht
  have hn := h.nextTrxId_eq hc
  have hle := h.id_le t
  rw [view_eq_some] at hview ⊢
  obtain ⟨r', hr', hvisit, rfl⟩ := hview
  rw [afterCommit_store, commitEffect, Option.map_eq_some_iff] at hr'
  obtain ⟨r, hr, rfl⟩ := hr'
  refine ⟨r, hr, ?_, rfl⟩
  have hb := h.begin_ne_zero hr
  have he := h.end_ne_zero hr
  have hlt := hs.begin_lt t ht p r hr
  have hend := hs.end_lt t ht p r hr
  have hins : ⟨.insert, p⟩ ∈ s.ops t ↔ r.beginXid = -s.id t :=
    ⟨h.begin_of_mem hr, h.mem_insert hr ht⟩
  have hdel : ⟨.delete, p⟩ ∈ s.ops t ↔ r.endXid = -s.id t :=
    ⟨h.end_of_mem hr, h.mem_delete hr ht⟩
  -- An end id below the start is that of an ended transaction, or that of `t` itself.
  have hown : r.endXid < 0 → r.endXid = -s.id t := by
    intro hneg
    obtain he' | he' | ⟨u, hu, he', -⟩ := h.end_owner p r hr
    · rw [he', maxTrxId, int32Max] at hneg
      omega
    · omega
    · rw [he', hs.one u t hu ht]
  have hmax : maxTrxId = int32Max := rfl
  rw [visitRecord_readOnly (by grind) (by grind)] at hvisit
  rw [visitRecord_readOnly hb he]
  simp only [hins, hdel] at hvisit
  grind

/-- A rollback shows later readers no row that they would not have seen before it. -/
theorem view_afterRollback (hs : Serial s) (h : Inv s) (ht : s.Active t)
    (hid : s.currentTrxId < id) (hview : view (s.afterRollback t).store id p = some d) :
  view s.store id p = some d
  := by
  have hpos := h.id_pos t ht
  have hle := h.id_le t
  rw [view_eq_some] at hview ⊢
  obtain ⟨r', hr', hvisit, rfl⟩ := hview
  obtain ⟨hins, r, hr, rfl⟩ := of_rollbackEffect hr'
  refine ⟨r, hr, ?_, rfl⟩
  have hb := h.begin_ne_zero hr
  have he := h.end_ne_zero hr
  have hbegin : 0 < r.beginXid := by
    obtain hb' | hb' := hs.begin_lt t ht p r hr
    · exact absurd (h.mem_insert hr ht hb') hins
    · exact hb'.1
  have hdel : ⟨.delete, p⟩ ∈ (s.trxes t).operations ↔ r.endXid = -s.id t :=
    ⟨h.end_of_mem hr, h.mem_delete hr ht⟩
  have hmax : maxTrxId ≠ 0 := by decide
  rw [visitRecord_readOnly (by simpa using hb) (by dsimp only; split_ifs <;> assumption)]
    at hvisit
  rw [visitRecord_readOnly hb he]
  simp only [hdel] at hvisit
  grind

/-- After a step a reader sees no row that no reader saw before it, other than the one that
the step has inserted. -/
theorem view_step (hs : Serial s) (h : Inv s) {e : Event D} (hc : CounterOk s e)
    (hturn : InTurn s e) (hstep : Step s e s') (hid : Reader s' id) :
  ∃ id₀, Reader s id₀ ∧ ∀ p d, view s'.store id p = some d →
    view s.store id₀ p = some d
      ∨ ∃ t table rid, e = .insertRecord t table (.ok rid) d ∧ p = ⟨table, rid⟩ ∧ s.Active t
        ∧ id₀ = s.id t
  := by
  cases hstep.effect h.recovering with
  | same => exact ⟨id, hid, fun p d hview => .inl hview⟩
  | start t hidle _ =>
    have hn := h.nextTrxId_eq hc
    have hcounter : s.currentTrxId < int32Max := hc
    refine ⟨id, ?_, fun p d hview => .inl hview⟩
    obtain ⟨u, hu, rfl⟩ | hid := hid
    · rw [afterStart_active] at hu
      rw [afterStart_id]
      split_ifs with hut
      · right
        omega
      · exact .inl ⟨u, hu.resolve_left hut, rfl⟩
    · rw [afterStart_currentTrxId] at hid
      right
      omega
  | insert t table rid data ht hfree =>
    refine ⟨id, ?_, ?_⟩
    · simpa [Reader] using hid
    · intro p d hview
      obtain ⟨rfl, rfl, rfl⟩ | hview := view_afterInsert h ht hview
      · exact .inr ⟨t, table, rid, rfl, rfl, ht, rfl⟩
      · exact .inl hview
  | delete t q r₀ ht hr₀ hv =>
    have hid₀ : Reader s id := by simpa [Reader] using hid
    exact ⟨id, hid₀, fun p d hview => .inl (view_afterDelete hs h ht hr₀ hv hid₀ hview)⟩
  | commit t _ =>
    have hn := h.nextTrxId_eq hc
    by_cases ht : s.Active t
    · refine ⟨s.id t, .inl ⟨t, ht, rfl⟩, fun p d hview => .inl ?_⟩
      apply view_afterCommit hs h hc ht _ hview
      obtain ⟨u, hu, rfl⟩ | hid := hid
      · rw [afterCommit_active] at hu
        exact absurd (hs.one u t hu.2 ht) hu.1
      · exact hid.1
    · refine ⟨id, ?_, ?_⟩
      · obtain ⟨u, hu, rfl⟩ | hid := hid
        · exact .inl ⟨u, ((afterCommit_active s t u).mp hu).2, afterCommit_id s t u⟩
        · rw [afterCommit_currentTrxId] at hid
          right
          omega
      · intro p d hview
        rw [afterCommit_store, ops_eq_nil h ht] at hview
        left
        simpa [commitEffect, view] using hview
  | rollback t _ =>
    by_cases ht : s.Active t
    · have hlater : s.currentTrxId < id ∧ id ≤ int32Max := by
        obtain ⟨u, hu, rfl⟩ | hid := hid
        · rw [afterRollback_active] at hu
          exact absurd (hs.one u t hu.2 ht) hu.1
        · exact hid
      exact ⟨id, .inr hlater, fun p d hview =>
        .inl (view_afterRollback hs h ht hlater.1 hview)⟩
    · refine ⟨id, ?_, ?_⟩
      · obtain ⟨u, hu, rfl⟩ | hid := hid
        · exact .inl ⟨u, ((afterRollback_active s t u).mp hu).2, afterRollback_id s t u⟩
        · exact .inr hid
      · intro p d hview
        rw [afterRollback_store, ops_eq_nil h ht] at hview
        left
        simpa [rollbackEffect, view] using hview

end Serial

end MiniOB.Mvcc
