import MiniOB.Trx.Isolation

/-!
# Recovery of transactions

`MvccTrxLogReplayer` of `storage/trx/mvcc_trx_log.cpp` with `MvccTrx::redo`, and the part
of `Db::recover` that concerns transactions. The records are those in the files after the
buffer pool, record and index entries of the log have been replayed: replaying a
transaction entry does not read them.
-/

namespace MiniOB.Mvcc

open Transition

variable {D : Type}

/-! ### The replayer -/

/-- The log replayer: the state that it recovers, the number of transaction objects that
the kit has created, and `trx_map_`. -/
structure Replayer (D : Type) where
  state : State D
  created : TrxRef
  trxMap : List (Int × TrxRef)

/-- The replayer of a kit that has just been created, over the records of the files. -/
def Replayer.init (store : Store D) : Replayer D where
  state := { (State.init : State D) with store := store }
  created := 0
  trxMap := []

/-- `MvccTrxKit::create_trx` with a transaction id. -/
def createTrx (trxId : Int) (r : Replayer D) : TrxRef × Replayer D :=
  let trx : MvccTrx := { trxId := trxId, started := true, recovering := true }
  (r.created,
    { r with
      state := { r.state.setTrx r.created trx with
        currentTrxId :=
          if r.state.currentTrxId < trxId then trxId else r.state.currentTrxId }
      created := r.created + 1 })

/-- `find_table`: a record entry needs its table. -/
def findTable (tables : List TableId) : LogEntry → RC
  | .insertRecord _ place => if place.table ∈ tables then .success else .schemaTableNotExist
  | .deleteRecord _ place => if place.table ∈ tables then .success else .schemaTableNotExist
  | .commit _ _ => .success
  | .rollback _ => .success

/-- `MvccTrx::redo`. -/
def redo (tables : List TableId) (entry : LogEntry) (trx : MvccTrx) : RC × MvccTrx :=
  match findTable tables entry, entry with
  | .success, .insertRecord _ place =>
    (.success, { trx with operations := trx.operations ++ [⟨.insert, place⟩] })
  | .success, .deleteRecord _ place =>
    (.success, { trx with operations := trx.operations ++ [⟨.delete, place⟩] })
  | rc, _ => (rc, trx)

/-- `MvccTrxLogReplayer::replay`. The entry of a transaction that ends is erased from
`trx_map_`; its object is destroyed. -/
def replay (tables : List TableId) (entry : LogEntry) (r : Replayer D) : RC × Replayer D :=
  let (t, r) := match r.trxMap.lookup entry.trxId with
    | none => createTrx entry.trxId r
    | some t => (t, r)
  let (rc, trx) := redo tables entry (r.state.trxes t)
  let r := { r with state := r.state.setTrx t trx }
  match entry with
  | .commit trxId _ => (rc, { r with trxMap := r.trxMap.filter (·.1 ≠ trxId) })
  | .rollback trxId => (rc, { r with trxMap := r.trxMap.filter (·.1 ≠ trxId) })
  | _ => (rc, r)

/-- `LogHandler::replay`: replay the entries up to the first one that fails. -/
def replayAll (tables : List TableId) : List LogEntry → Replayer D → RC × Replayer D
  | [], r => (.success, r)
  | entry :: entries, r =>
    match replay tables entry r with
    | (.success, r) => replayAll tables entries r
    | (rc, r) => (rc, r)

/-- `MvccTrxLogReplayer::on_done`. -/
def onDone (r : Replayer D) : Except AssertFailure (Replayer D) := do
  let state ← r.trxMap.foldlM (fun s pair => (rollback pair.2 s).map Prod.snd) r.state
  return { r with state := state, trxMap := [] }

/-- `Db::recover`. -/
def recover (tables : List TableId) (entries : List LogEntry) (r : Replayer D) :
    Except AssertFailure (RC × Replayer D) :=
  match replayAll tables entries r with
  | (.success, r) => (onDone r).map fun r => (.success, r)
  | (rc, r) => .ok (rc, r)

/-! ### What recovery does -/

/-- Replaying an entry leaves `trx_map_` empty and the records as they are, and raises the
counter of the kit to the transaction id of the entry. -/
theorem replay_eq (tables : List TableId) (entry : LogEntry) {r : Replayer D}
    (hmap : r.trxMap = []) :
  (replay tables entry r).1 = findTable tables entry
    ∧ (replay tables entry r).2.trxMap = []
    ∧ (replay tables entry r).2.state.store = r.state.store
    ∧ (replay tables entry r).2.state.currentTrxId = max r.state.currentTrxId entry.trxId
  := by
  have hmax : (createTrx entry.trxId r).2.state.currentTrxId
      = max r.state.currentTrxId entry.trxId := by
    simp only [createTrx]
    split <;> omega
  have hredo : ∀ trx, (redo tables entry trx).1 = findTable tables entry := by
    intro trx
    cases hfind : findTable tables entry <;> cases entry <;> simp [redo, hfind]
  simp only [replay, hmap, List.lookup]
  cases entry with
  | insertRecord trxId place => exact ⟨hredo _, hmap, rfl, hmax⟩
  | deleteRecord trxId place => exact ⟨hredo _, hmap, rfl, hmax⟩
  | commit trxId c => exact ⟨rfl, by simp [createTrx, hmap], rfl, hmax⟩
  | rollback trxId => exact ⟨rfl, by simp [createTrx, hmap], rfl, hmax⟩

theorem replayAll_eq (tables : List TableId) (entries : List LogEntry) :
    ∀ {r : Replayer D}, r.trxMap = [] →
      (replayAll tables entries r).2.trxMap = []
      ∧ (replayAll tables entries r).2.state.store = r.state.store
      ∧ ((replayAll tables entries r).1 = .success →
        (replayAll tables entries r).2.state.currentTrxId
          = entries.foldl (fun m e => max m e.trxId) r.state.currentTrxId)
      ∧ ((∀ e ∈ entries, findTable tables e = .success) →
        (replayAll tables entries r).1 = .success) := by
  induction entries with
  | nil =>
    intro r hmap
    simp [replayAll, hmap]
  | cons entry entries ih =>
    intro r hmap
    obtain ⟨hrc, hmap', hstore, hcur⟩ := replay_eq tables entry hmap
    rw [replayAll]
    split
    · rename_i r' heq
      simp only [heq] at hrc hmap' hstore hcur
      obtain ⟨h₁, h₂, h₃, h₄⟩ := ih hmap'
      refine ⟨h₁, h₂.trans hstore, ?_, ?_⟩
      · intro hsuccess
        rw [h₃ hsuccess, hcur, List.foldl_cons]
      · intro htables
        apply h₄ (fun e he => htables e (List.mem_cons_of_mem _ he))
    · rename_i rc r' hne heq
      simp only [heq] at hrc hmap' hstore hcur
      refine ⟨hmap', hstore, ?_, ?_⟩
      · intro hsuccess
        exact absurd hsuccess hne
      · intro htables
        rw [hrc]
        apply htables entry List.mem_cons_self

/-- Recovery that succeeds leaves the records as they are, and the counter of the kit at
the largest transaction id it has replayed. -/
theorem recover_eq {tables : List TableId} {entries : List LogEntry} {store : Store D}
    {r : Replayer D} (h : recover tables entries (Replayer.init store) = .ok (.success, r)) :
  r.state.store = store
    ∧ r.state.currentTrxId = entries.foldl (fun m e => max m e.trxId) 0
  := by
  obtain ⟨hmap, hstore, hcur, -⟩ :=
    replayAll_eq tables entries (r := Replayer.init store) rfl
  rw [recover] at h
  split at h
  · rename_i r' heq
    simp only [heq, forall_const] at hmap hstore hcur
    simp only [onDone, hmap, List.foldlM_nil, pure, Except.pure, bind, Except.bind,
      Except.map] at h
    cases h
    exact ⟨hstore, hcur⟩
  · rename_i rc r' hne heq
    cases h
    exact absurd rfl hne

/-- Recovery succeeds when the tables of all record entries are there. -/
theorem recover_success (tables : List TableId) (entries : List LogEntry) (store : Store D)
    (htables : ∀ e ∈ entries, findTable tables e = .success) :
  ∃ r, recover tables entries (Replayer.init store) = .ok (.success, r)
  := by
  obtain ⟨hmap, -, -, hsuccess⟩ :=
    replayAll_eq tables entries (r := Replayer.init store) rfl
  have hrc := hsuccess htables
  rw [recover]
  split
  · rename_i r' heq
    simp only [heq] at hmap
    simp [onDone, hmap, pure, Except.pure, bind, Except.bind, Except.map]
  · rename_i rc r' hne heq
    simp only [heq] at hrc
    exact absurd hrc hne

/-! ### The transactions that a crash leaves open -/

/-- The transaction `id` has record entries in the log, but no commit and no rollback. -/
def Loser (entries : List LogEntry) (id : Int) : Prop :=
  (∃ p, .insertRecord id p ∈ entries ∨ .deleteRecord id p ∈ entries)
    ∧ (∀ c, .commit id c ∉ entries) ∧ .rollback id ∉ entries

/-- The record at `p` still carries the insertion of the transaction `id`. -/
def OwnsInsert (entries : List LogEntry) (store : Store D) (id : Int) (p : Place) : Prop :=
  .insertRecord id p ∈ entries ∧ ∃ r, store p = some r ∧ r.beginXid = -id

/-- The record at `p` still carries the deletion of the transaction `id`. -/
def OwnsDelete (entries : List LogEntry) (store : Store D) (id : Int) (p : Place) : Prop :=
  .deleteRecord id p ∈ entries ∧ ∃ r, store p = some r ∧ r.endXid = -id

/-- Between the stores `before` and `after` the losers of the log have been rolled back,
and nothing else has changed. -/
structure LosersRolledBack (entries : List LogEntry) (before after : Store D) : Prop where
  inserts : ∀ id p, Loser entries id → OwnsInsert entries before id p → after p = none
  deletes : ∀ id p r, Loser entries id → OwnsDelete entries before id p → before p = some r →
    (∀ id', Loser entries id' → ¬ OwnsInsert entries before id' p) →
    after p = some { r with endXid := maxTrxId }
  others : ∀ p, (∀ id, Loser entries id →
      ¬ OwnsInsert entries before id p ∧ ¬ OwnsDelete entries before id p) →
    after p = before p

/-- Recovery rolls the losers back exactly when no record still carries the insertion or
the deletion of a loser. -/
theorem losers_rolled_back_iff (tables : List TableId) (entries : List LogEntry)
    (store : Store D) (hpos : ∀ e ∈ entries, 0 < e.trxId)
    (htables : ∀ e ∈ entries, findTable tables e = .success) :
  ∃ r, recover tables entries (Replayer.init store) = .ok (.success, r)
    ∧ (LosersRolledBack entries store r.state.store
      ↔ ∀ id p, Loser entries id →
          ¬ OwnsInsert entries store id p ∧ ¬ OwnsDelete entries store id p)
  := by
  obtain ⟨r, hr⟩ := recover_success tables entries store htables
  use r, hr
  rw [(recover_eq hr).1]
  constructor
  · intro hback
    have hins : ∀ id p, Loser entries id → ¬ OwnsInsert entries store id p := by
      intro id p hloser hown
      have hnone := hback.inserts id p hloser hown
      obtain ⟨-, r, hr, -⟩ := hown
      simp [hr] at hnone
    intro id p hloser
    use hins id p hloser
    intro hown
    obtain ⟨hmem, r, hr, he⟩ := hown
    have hsome := hback.deletes id p r hloser ⟨hmem, r, hr, he⟩ hr
      (fun id' hloser' => hins id' p hloser')
    have hid := hpos _ hmem
    rw [hr, Option.some.injEq] at hsome
    rw [hsome] at he
    simp only [LogEntry.trxId, maxTrxId, int32Max] at hid he
    omega
  · intro hnone
    constructor
    · intro id p hloser hown
      exact absurd hown (hnone id p hloser).1
    · intro id p r hloser hown
      exact absurd hown (hnone id p hloser).2
    · intros
      rfl

/-- A log of one committed transaction has no losers to roll back. -/
theorem losers_rolled_back_committed :
  ∃ r, recover [0] [.insertRecord 1 ⟨0, 1, 0⟩, .commit 1 2]
      (Replayer.init fun p => if p = ⟨0, 1, 0⟩ then some ⟨2, maxTrxId, ()⟩ else none)
        = .ok (.success, r)
    ∧ (LosersRolledBack [.insertRecord 1 ⟨0, 1, 0⟩, .commit 1 2]
        (fun p => if p = ⟨0, 1, 0⟩ then some ⟨2, maxTrxId, ()⟩ else none) r.state.store
      ↔ ∀ id p, Loser [.insertRecord 1 ⟨0, 1, 0⟩, .commit 1 2] id →
          ¬ OwnsInsert [.insertRecord 1 ⟨0, 1, 0⟩, .commit 1 2]
              (fun p => if p = ⟨0, 1, 0⟩ then some ⟨2, maxTrxId, ()⟩ else none) id p
          ∧ ¬ OwnsDelete [.insertRecord 1 ⟨0, 1, 0⟩, .commit 1 2]
              (fun p => if p = ⟨0, 1, 0⟩ then some ⟨2, maxTrxId, ()⟩ else none) id p)
  := losers_rolled_back_iff [0] _ _ (by decide) (by decide)

/-- A transaction that has inserted a record when the server stops is not rolled back. -/
theorem loser_not_rolled_back :
  ¬ ∀ (h : List (State Unit × Event Unit)) (s : State Unit),
      Run (StepIf fun _ _ => True) State.init h s → ∀ tables,
      (∀ e ∈ s.log, findTable tables e = .success) →
      ∃ r, recover tables s.log (Replayer.init s.store) = .ok (.success, r)
        ∧ LosersRolledBack s.log s.store r.state.store
  := by
  intro hall
  obtain ⟨h, hrun⟩ := run_of_allReturn
    [.startIfNeed 0, .insertRecord 0 0 (.ok ⟨1, 0⟩) ()] (State.init : State Unit)
    (by decide +kernel)
  obtain ⟨r, hr, hback⟩ := hall h _ hrun [0] (by decide +kernel)
  rw [(recover_eq hr).1] at hback
  have hnone := hback.inserts 1 ⟨0, 1, 0⟩ ⟨⟨⟨0, 1, 0⟩, by decide +kernel⟩, ?_, by decide +kernel⟩
    ⟨by decide +kernel, ⟨-1, maxTrxId, ()⟩, by decide +kernel, rfl⟩
  · revert hnone
    decide +kernel
  · intro c hmem
    have hlog : LogEntry.commit 1 c ∈ [LogEntry.insertRecord 1 ⟨0, 1, 0⟩] := hmem
    simp at hlog

/-! ### Restarts -/

/-- An event in the life of a database: a call on a transaction object, or a restart. The
restart finds the records `store` in the files, after the physical redo, and the log
entries `skipped` before and `replayed` from the checkpoint on. -/
inductive DbEvent (D : Type) where
  | call (e : Event D)
  | restart (tables : List TableId) (store : Store D) (skipped replayed : List LogEntry)

/-- A call returns, or a restart recovers from what was durable of the log. The sessions
after a restart create transaction objects of their own. -/
def DbStep (s : State D) (e : DbEvent D) (s' : State D) : Prop :=
  match e with
  | .call e => Step s e s'
  | .restart tables store skipped replayed =>
    skipped ++ replayed <+: s.log
      ∧ ∃ r, recover tables replayed (Replayer.init store) = .ok (.success, r)
        ∧ s' = { (State.init : State D) with
            currentTrxId := r.state.currentTrxId
            store := r.state.store
            log := skipped ++ replayed }

/-- The event meets the condition `ok` and leads from `s` to `s'`. -/
def DbStepIf (ok : State D → DbEvent D → Prop) (s : State D) (e : DbEvent D)
    (s' : State D) : Prop :=
  ok s e ∧ DbStep s e s'

/-- `x` is the absolute value of a begin id, a committed end id, or a transaction or commit
id of the log. -/
def StoredId (store : Store D) (log : List LogEntry) (x : Int) : Prop :=
  (∃ p r, store p = some r
    ∧ (x = r.beginXid.natAbs ∨ (x = r.endXid ∧ 0 < r.endXid ∧ r.endXid ≠ maxTrxId)))
  ∨ ∃ e ∈ log, x = e.trxId ∨ ∃ id, e = .commit id x

/-- In the lives of a database whose events meet `ok`, every id handed out is larger than
all the stored ids, and the committed records are visible under it. -/
def FreshIds (ok : State D → DbEvent D → Prop) : Prop :=
  ∀ (h : List (State D × DbEvent D)) (s : State D), Run (DbStepIf ok) State.init h s →
    ∀ t, ok s (.call (.startIfNeed t)) ∨ ok s (.call (.commit t)) →
      (∀ x, StoredId s.store s.log x → x < s.nextTrxId)
      ∧ ∀ p r, s.store p = some r → 0 < r.beginXid → r.endXid = maxTrxId →
        ∀ mode, visitRecord s.nextTrxId r mode = .success

/-- A restart replays, for every stored id, an entry with a transaction id at least as
large. -/
def ReplaysIds (s : State D) : DbEvent D → Prop
  | .call e => CounterOk s e
  | .restart _ store skipped replayed =>
    ∀ x, StoredId store (skipped ++ replayed) x → ∃ e ∈ replayed, x ≤ e.trxId

/-- The counter of the kit is at least every stored id. -/
structure IdsBelow (s : State D) : Prop where
  current_nonneg : 0 ≤ s.currentTrxId
  current_le : s.currentTrxId ≤ int32Max
  recovering : ∀ t, (s.trxes t).recovering = false
  id_pos : ∀ t, s.Active t → 0 < s.id t
  id_le : ∀ t, s.id t ≤ s.currentTrxId
  begin_le : ∀ p r, s.store p = some r → r.beginXid.natAbs ≤ s.currentTrxId
  end_le : ∀ p r, s.store p = some r → r.endXid = maxTrxId ∨ r.endXid ≤ s.currentTrxId
  log_le : ∀ e ∈ s.log, e.trxId ≤ s.currentTrxId
  commit_le : ∀ id c, .commit id c ∈ s.log → c ≤ s.currentTrxId

theorem idsBelow_init : IdsBelow (State.init : State D) := by
  constructor <;> simp [State.init, State.Active, State.id, int32Max]

theorem IdsBelow.stored_le {s : State D} (h : IdsBelow s) {x : Int}
    (hx : StoredId s.store s.log x) :
  x ≤ s.currentTrxId
  := by
  obtain ⟨p, r, hr, rfl | ⟨rfl, -, hne⟩⟩ | ⟨e, he, rfl | ⟨id, rfl⟩⟩ := hx
  · apply h.begin_le p r hr
  · apply (h.end_le p r hr).resolve_left hne
  · apply h.log_le e he
  · apply h.commit_le id x he

theorem le_foldl_max (entries : List LogEntry) :
    ∀ m : Int, m ≤ entries.foldl (fun m e => max m e.trxId) m
      ∧ ∀ e ∈ entries, e.trxId ≤ entries.foldl (fun m e => max m e.trxId) m := by
  induction entries with
  | nil => simp
  | cons entry entries ih =>
    intro m
    obtain ⟨h₁, h₂⟩ := ih (max m entry.trxId)
    simp only [List.foldl_cons, List.mem_cons, forall_eq_or_imp]
    exact ⟨by omega, by omega, h₂⟩

theorem foldl_max_le {entries : List LogEntry} {b : Int} (hb : ∀ e ∈ entries, e.trxId ≤ b) :
    ∀ {m : Int}, m ≤ b → entries.foldl (fun m e => max m e.trxId) m ≤ b := by
  induction entries with
  | nil => simp
  | cons entry entries ih =>
    intro m hm
    have hentry := hb entry List.mem_cons_self
    apply ih (fun e he => hb e (List.mem_cons_of_mem _ he))
    apply max_le hm hentry

theorem IdsBelow.nextTrxId_eq {s : State D} (h : IdsBelow s) (hc : s.currentTrxId < int32Max) :
  s.nextTrxId = s.currentTrxId + 1
  := by
  have := h.current_nonneg
  apply int32_of_mem <;> omega

theorem IdsBelow.restart {s s' : State D} (h : IdsBelow s) {tables : List TableId}
    {store : Store D} {skipped replayed : List LogEntry}
    (hids : ReplaysIds s (.restart tables store skipped replayed))
    (hs : DbStep s (.restart tables store skipped replayed) s') :
  IdsBelow s'
  := by
  obtain ⟨hdurable, r, hr, rfl⟩ := hs
  obtain ⟨hstore, hcur⟩ := recover_eq hr
  obtain ⟨h0, hmax⟩ := le_foldl_max replayed 0
  have hle : ∀ e ∈ replayed, e.trxId ≤ s.currentTrxId := by
    intro e he
    apply h.log_le e (hdurable.subset (List.mem_append_right _ he))
  have hbound := foldl_max_le hle h.current_nonneg
  have := h.current_le
  have hstored : ∀ x, StoredId store (skipped ++ replayed) x →
      x ≤ replayed.foldl (fun m e => max m e.trxId) 0 := by
    intro x hx
    obtain ⟨e, he, hle⟩ := hids x hx
    have := hmax e he
    omega
  constructor <;> simp only [hcur, hstore]
  case current_nonneg => apply h0
  case current_le => omega
  case recovering => simp [State.init]
  case id_pos => simp [State.Active, State.init]
  case id_le =>
    intro t
    have : (-1 : Int) ≤ replayed.foldl (fun m e => max m e.trxId) 0 := by omega
    simpa [State.id, State.init] using this
  case begin_le =>
    intro p r hr
    apply hstored _ (Or.inl ⟨p, r, hr, Or.inl rfl⟩)
  case end_le =>
    intro p r hr
    by_cases hpos : 0 < r.endXid ∧ r.endXid ≠ maxTrxId
    · right
      apply hstored _ (Or.inl ⟨p, r, hr, Or.inr ⟨rfl, hpos⟩⟩)
    · omega
  case log_le =>
    intro e he
    apply hstored _ (Or.inr ⟨e, he, Or.inl rfl⟩)
  case commit_le =>
    intro id c he
    apply hstored _ (Or.inr ⟨_, he, Or.inr ⟨id, rfl⟩⟩)

theorem IdsBelow.call {s s' : State D} (h : IdsBelow s) {e : Event D} (hc : CounterOk s e)
    (hs : Step s e s') :
  IdsBelow s'
  := by
  have hnext := h.nextTrxId_eq
  obtain ⟨h0, hmax, hrec, hpos, hid, hb, he, hlog, hcommit⟩ := h
  cases hs.effect hrec with
  | same => constructor <;> assumption
  | start t hidle _ =>
    have hn := hnext hc
    constructor <;> simp only [afterStart_store, afterStart_currentTrxId, afterStart_id,
      afterStart_active, afterStart_recovering, afterStart_log, hn]
    all_goals grind [CounterOk]
  | insert t table rid data ht hfree =>
    have := hpos t ht
    constructor <;> simp only [afterInsert_store, afterInsert_currentTrxId, afterInsert_id,
      afterInsert_active, afterInsert_recovering, afterInsert_log]
    all_goals grind [LogEntry.trxId]
  | delete t p r ht hr hv =>
    have := hpos t ht
    constructor <;> simp only [afterDelete_store, afterDelete_currentTrxId, afterDelete_id,
      afterDelete_active, afterDelete_recovering, afterDelete_log]
    all_goals grind [LogEntry.trxId]
  | commit t _ =>
    have hn := hnext hc
    constructor <;> simp only [afterCommit_store, afterCommit_currentTrxId, afterCommit_id,
      afterCommit_active, afterCommit_recovering, afterCommit_log, commitEffect,
      Option.map_eq_some_iff, hn]
    all_goals grind [LogEntry.trxId, CounterOk]
  | rollback t _ =>
    have hrecord : ∀ p r', rollbackEffect (s.ops t) s.store p = some r' →
        ∃ r, s.store p = some r ∧ r'.beginXid = r.beginXid
          ∧ (r'.endXid = maxTrxId ∨ r'.endXid = r.endXid) := by
      intro p r' hr'
      obtain ⟨-, r, hr, rfl⟩ := of_rollbackEffect hr'
      use r, hr, rfl
      grind
    constructor <;> simp only [afterRollback_store, afterRollback_currentTrxId,
      afterRollback_id, afterRollback_active, afterRollback_recovering, afterRollback_log]
    all_goals grind [LogEntry.trxId]

/-- Ids stay fresh in the lives of a database in which every restart replays, for every
stored id, an entry with a transaction id at least as large. -/
theorem fresh_ids :
  FreshIds (D := D) ReplaysIds
  := by
  intro h s hrun t hdraw
  have hids : IdsBelow s := by
    apply hrun.invariant idsBelow_init
    rintro s (e | ⟨tables, store, skipped, replayed⟩) s' hids ⟨hok, hs⟩
    · apply hids.call hok hs
    · apply hids.restart hok hs
  have hn : s.nextTrxId = s.currentTrxId + 1 := by
    obtain hc | hc := hdraw <;> apply hids.nextTrxId_eq hc
  have hc : s.currentTrxId < int32Max := by
    obtain hc | hc := hdraw <;> apply hc
  constructor
  · intro x hx
    have := hids.stored_le hx
    omega
  · intro p r hr hb he mode
    have := hids.begin_le p r hr
    rw [maxTrxId] at he
    unfold visitRecord
    rw [if_pos (by rw [int32Max] at he; omega), if_pos (by omega)]

/-- A record is committed with the id `3` while another transaction has the id `2`. The
restart replays only entries of the transaction `1`, so that the next transaction gets the
id `2` and does not see the record. -/
theorem stale_id_after_restart :
  ¬ FreshIds (D := Unit) fun _ _ => True
  := by
  intro hfresh
  let es : List (Event Unit) :=
    [.startIfNeed 0, .insertRecord 0 0 (.ok ⟨1, 0⟩) (), .startIfNeed 1, .commit 0]
  let s := es.foldl State.after State.init
  let log : List LogEntry := [.insertRecord 1 ⟨0, 1, 0⟩, .commit 1 3]
  have hlog : s.log = log := by decide +kernel
  obtain ⟨h, hrun⟩ := run_of_allReturn es State.init (by decide +kernel)
  have hrun' : Run (DbStepIf fun _ _ => True) State.init _ s :=
    hrun.relabel DbEvent.call fun _ _ _ hs => ⟨trivial, hs.2⟩
  obtain ⟨r, hr⟩ := recover_success [0] log s.store (by decide)
  obtain ⟨-, hcur⟩ := recover_eq hr
  have hrestart : DbStep s (.restart [0] s.store [] log) _ :=
    ⟨⟨[], by rw [hlog]; rfl⟩, r, hr, rfl⟩
  obtain ⟨hstale, -⟩ := hfresh _ _ (hrun'.tail ⟨trivial, hrestart⟩) 0 (Or.inl trivial)
  have hlt := hstale 3 (Or.inr ⟨.commit 1 3, by simp [log], Or.inr ⟨1, rfl⟩⟩)
  simp only [State.nextTrxId, hcur] at hlt
  revert hlt
  decide +kernel

end MiniOB.Mvcc
