import MiniOB.Clog.Invariant

/-!
# What the log promises

The log loses nothing, hands nothing over twice and keeps the order: this is read off the
invariant of its runs.
-/

namespace MiniOB.Clog

open Transition

/-- What a log promises about its account. -/
structure Keeps (n : Int) (acc : Account) (handler : DiskLogHandler) : Prop where
  /-- Sequence numbers are consecutive. -/
  numbered : Numbered acc.base acc.fresh
  /-- Once everything is in the files, the entries are handed over in their order, each
  of them once. -/
  iterate : handler.pending = [] → handler.rc ≠ .fileOpen →
    (acc.entries.Pairwise fun e e' => e.lsn < e'.lsn) ∧
    ∀ {σ : Type} (consumer : σ → LogEntry → σ × RC) (startLsn : Int) (s : σ),
      handler.iterate consumer startLsn s
        = deliver consumer (acc.entries.filter (startLsn ≤ ·.lsn)) s
  /-- All entries up to `flushedLsn` are in the files, and not all up to any larger number. -/
  flushed : IsGreatest
    { l | l ≤ handler.entryBuffer.currentLsn ∧
      ∀ entry ∈ acc.entries, entry.lsn ≤ l → entry ∈ handler.stored }
    handler.entryBuffer.flushedLsn
  /-- A restart goes on behind the entries in the files. -/
  restart : ∀ {σ : Type} (replayer : σ → LogEntry → σ × RC) (filenames : List String)
    (checkPointLsn : Int) (s : σ), filenames.Perm (handler.directory.map Prod.fst) →
    (checkPointLsn = 0 ∨ ∃ entry ∈ handler.stored, entry.lsn = checkPointLsn) →
    (∀ s entry, (replayer s entry).2 = .success) →
    ∃ s' handler', DiskLogHandler.restart n handler.directory filenames replayer checkPointLsn s
        = (.success, s', handler') ∧
      ∀ moduleId data lsn buffer,
        handler'.entryBuffer.append moduleId data = .ok (lsn, buffer) →
        ∀ entry ∈ handler.stored, entry.lsn < lsn

variable {n : Int} {files : List (Int × List LogEntry)} {lsns : List Int}
  {written : List LogEntry} {acc : Account} {handler : DiskLogHandler}

/-- What lies in the files, followed by what does not yet, is the account. -/
theorem Inv.account_entries (h : Inv n files lsns written acc handler) :
  acc.entries = entriesOf files ++ handler.pending
  := by
  rw [Account.entries, h.fresh, h.entries, List.append_assoc]

/-- Entries in the files have sequence numbers up to `flushedLsn`. -/
theorem Inv.le_flushedLsn (h : Inv n files lsns written acc handler) {entry : LogEntry}
    (hentry : entry ∈ entriesOf files) :
  entry.lsn ≤ handler.entryBuffer.flushedLsn
  := by
  rw [h.flushedLsn]
  rw [h.entries] at hentry
  rcases List.mem_append.mp hentry with hold | hwritten
  · have hle := h.old entry hold
    omega
  · obtain ⟨i, hi⟩ := List.mem_iff_getElem?.mp hwritten
    obtain ⟨hlt, -⟩ := List.getElem?_eq_some_iff.mp hi
    have hlsn := h.numbered i entry (by rw [h.fresh, List.getElem?_append_left hlt, hi])
    omega

/-- Entries that are not in the files yet have sequence numbers beyond `flushedLsn`. -/
theorem Inv.flushedLsn_lt (h : Inv n files lsns written acc handler) {entry : LogEntry}
    (hentry : entry ∈ handler.pending) :
  handler.entryBuffer.flushedLsn < entry.lsn
  := by
  obtain ⟨i, hi⟩ := List.mem_iff_getElem?.mp hentry
  have hget : acc.fresh[written.length + i]? = some entry := by
    rw [h.fresh, List.getElem?_append_right (Nat.le_add_right _ _), Nat.add_sub_cancel_left, hi]
  have hlsn := h.numbered _ _ hget
  have hflushed := h.flushedLsn
  omega

theorem Inv.flushed (h : Inv n files lsns written acc handler) :
  IsGreatest
    { l | l ≤ handler.entryBuffer.currentLsn ∧
      ∀ entry ∈ acc.entries, entry.lsn ≤ l → entry ∈ handler.stored }
    handler.entryBuffer.flushedLsn
  := by
  have hcurrent := h.currentLsn
  have hflushed := h.flushedLsn
  have hlength : acc.fresh.length = written.length + handler.pending.length := by
    rw [h.fresh, List.length_append]
  rw [h.account_entries, h.stored]
  constructor
  · refine ⟨by omega, ?_⟩
    intro entry hentry hle
    rcases List.mem_append.mp hentry with hfile | hpending
    · apply hfile
    · have hlt := h.flushedLsn_lt hpending
      omega
  · rintro l ⟨hle, hall⟩
    by_contra hlt
    -- the entry that comes next is not in the files
    cases hpending : handler.pending with
    | nil =>
      rw [hpending, List.length_nil] at hlength
      omega
    | cons entry entries =>
      obtain ⟨hlsn, -⟩ := h.lt_pending hpending
      have hmem := hall entry (by simp [hpending]) (by omega)
      have hle' := h.le_flushedLsn hmem
      omega

theorem deliver_success {σ : Type} {replayer : σ → LogEntry → σ × RC}
    (h : ∀ s entry, (replayer s entry).2 = .success) (entries : List LogEntry) (s : σ) :
  (deliver replayer entries s).2 = .success
  := by
  induction entries generalizing s with
  | nil => rfl
  | cons entry entries ih =>
    rw [deliver, andThen, if_pos (h s entry)]
    apply ih

/-- A restart whose replayer takes all entries succeeds, and goes on behind them. -/
theorem restart_eq {directory : Directory} {filenames : List String} {σ : Type}
    {replayer : σ → LogEntry → σ × RC} {checkPointLsn : Int} {s : σ} {entries : List LogEntry}
    (hiterate : DiskLogHandler.iterate { directory, fileManager := .init n filenames }
        (DiskLogHandler.replayCallback replayer) checkPointLsn (0, s)
      = deliver (DiskLogHandler.replayCallback replayer) entries (0, s))
    (hreplayer : ∀ s entry, (replayer s entry).2 = .success) :
  ∃ s', DiskLogHandler.restart n directory filenames replayer checkPointLsn s
    = (.success, s',
        { directory, fileManager := .init n filenames
          entryBuffer := LogEntryBuffer.init {} (maxLsn entries) })
  := by
  have hcallback : ∀ state entry,
      (DiskLogHandler.replayCallback replayer state entry).2 = .success :=
    fun state entry => hreplayer state.2 entry
  have hsuccess := deliver_success hcallback entries (0, s)
  rw [DiskLogHandler.restart, DiskLogHandler.replay, hiterate]
  split
  · rename_i m s' hdeliver
    rw [deliver_replayCallback hdeliver]
    exact ⟨s', rfl⟩
  · rename_i rc hfailed hdeliver
    rw [hdeliver] at hsuccess
    exact absurd hsuccess hfailed

theorem Inv.restart (h : Inv n files lsns written acc handler) {σ : Type}
    {replayer : σ → LogEntry → σ × RC} {filenames : List String} {checkPointLsn : Int} {s : σ}
    (hnames : filenames.Perm (handler.directory.map Prod.fst))
    (hcheck : checkPointLsn = 0 ∨ ∃ entry ∈ handler.stored, entry.lsn = checkPointLsn)
    (hreplayer : ∀ s entry, (replayer s entry).2 = .success) :
  ∃ s' handler', DiskLogHandler.restart n handler.directory filenames replayer checkPointLsn s
      = (.success, s', handler') ∧
    ∀ moduleId data lsn buffer,
      handler'.entryBuffer.append moduleId data = .ok (lsn, buffer) →
      ∀ entry ∈ handler.stored, entry.lsn < lsn
  := by
  rw [h.stored] at hcheck ⊢
  rw [h.directory] at hnames ⊢
  obtain ⟨-, hiterate⟩ := iterate_init h.filed hnames
    (DiskLogHandler.replayCallback replayer) checkPointLsn (0, s)
  obtain ⟨s', hrestart⟩ := restart_eq hiterate hreplayer
  refine ⟨s', _, hrestart, ?_⟩
  intro moduleId data lsn buffer happend entry hentry
  have hinv := inv_of_restart h.positive h.filed hnames hcheck hrestart
  have hle := hinv.old entry hentry
  have hcurrent := hinv.currentLsn
  rw [List.length_nil] at hcurrent
  rw [LogEntryBuffer.append] at happend
  split at happend
  · cases happend
  cases happend
  omega

theorem Inv.keeps (h : Inv n files lsns written acc handler) : Keeps n acc handler := by
  constructor
  · apply h.numbered
  · intro hpending hopened
    have hlsns := h.missing_nil (.inl hopened)
    subst hlsns
    have hentries := h.account_entries
    rw [hpending, List.append_nil] at hentries
    rw [hentries]
    refine ⟨h.filed.sorted, ?_⟩
    intro σ consumer startLsn s
    rw [iterate_eq h.filed h.capacity h.logFiles h.lookup, List.filter_nil, List.map_nil, andThen]
    split
    · rename_i hrc
      rw [DiskLogHandler.iterateFiles, ← hrc]
    · rfl
  · apply h.flushed
  · intro σ replayer filenames checkPointLsn s hnames hcheck hreplayer
    apply h.restart hnames hcheck hreplayer

/-- A log keeps its promises in every run: appends, writes that fail or succeed, files that
fill up or cannot be opened, and restarts come in any order. -/
theorem keeps_run (hn : 1 ≤ n) {lsn : Int} (hlsn : 0 ≤ lsn) {h : List (DiskLogHandler × Event)}
    (hrun : Run (Step n) (DiskLogHandler.start n lsn) h handler) (hadm : AdmissibleHistory h) :
  Keeps n (account ⟨[], lsn, []⟩ h) handler
  := by
  have hstart : ∃ files lsns written,
      Inv n files lsns written ⟨[], lsn, []⟩ (DiskLogHandler.start n lsn) :=
    ⟨[], [], [], Inv.start hn hlsn⟩
  obtain ⟨files, lsns, written, hinv⟩ := inv_run hstart hrun hadm
  apply hinv.keeps

/-- An entry finds the first file full and goes to the next one. -/
theorem keeps_run_next_file :
  ∃ h handler, (Run (Step 1) (DiskLogHandler.start 1 0) h handler ∧ AdmissibleHistory h)
    ∧ handler.directory.length = 2 ∧ handler.stored = [⟨1, 0, [7]⟩]
    ∧ Keeps 1 (account ⟨[], 0, []⟩ h) handler
  := by
  let entry : LogEntry := ⟨1, 0, [7]⟩
  let s₀ := DiskLogHandler.start 1 0
  let s₁ : DiskLogHandler := { s₀ with entryBuffer := ⟨[entry], 16, 1, 0, s₀.entryBuffer.maxBytes⟩ }
  let s₂ := s₁.openFile true
  let s₃ : DiskLogHandler := { s₂ with control := .flush }
  let s₄ : DiskLogHandler :=
    { s₃ with entryBuffer := s₃.entryBuffer.pop entry [], control := .write entry }
  let s₅ := s₄.writeEntry entry true
  let s₆ := s₅.openFile true
  let s₇ : DiskLogHandler := { s₆ with control := .flush }
  let s₈ : DiskLogHandler :=
    { s₇ with entryBuffer := s₇.entryBuffer.pop entry [], control := .write entry }
  let s₉ := s₈.writeEntry entry true
  have h₁ : Step 1 s₀ (.append entry) s₁ := .append (by decide) (by decide +kernel)
  have h₂ : Step 1 s₁ .openFile s₂ := .openFile rfl (.inl rfl) true
  have h₃ : Step 1 s₂ .flush s₃ := .flush (by decide +kernel) (by decide +kernel) (by decide +kernel)
  have h₄ : Step 1 s₃ .pop s₄ := .pop rfl (by decide +kernel) (by decide +kernel)
  have h₅ : Step 1 s₄ .write s₅ := .write rfl true
  have h₆ : Step 1 s₅ .openFile s₆ := .openFile (by decide +kernel) (by decide +kernel) true
  have h₇ : Step 1 s₆ .flush s₇ := .flush (by decide +kernel) (by decide +kernel) (by decide +kernel)
  have h₈ : Step 1 s₇ .pop s₈ := .pop rfl (by decide +kernel) (by decide +kernel)
  have h₉ : Step 1 s₈ .write s₉ := .write rfl true
  have hrun := ((((((((Run.refl.tail h₁).tail h₂).tail h₃).tail h₄).tail h₅).tail h₆).tail h₇).tail
    h₈).tail h₉
  have hentry : Admissible s₀ (.append entry) := by
    simp [Admissible, entry, maxPayloadSize, headerSize]
  have hadm : AdmissibleHistory [(s₈, .write), (s₇, .pop), (s₆, .flush), (s₅, .openFile),
      (s₄, .write), (s₃, .pop), (s₂, .flush), (s₁, .openFile), (s₀, .append entry)] := by
    simp only [AdmissibleHistory, List.forall_mem_cons, List.not_mem_nil, false_implies,
      implies_true, and_true, Admissible, true_and]
    exact hentry
  exact ⟨_, _, ⟨hrun, hadm⟩, by decide +kernel, by decide +kernel,
    keeps_run (by decide) (by decide) hrun hadm⟩
end MiniOB.Clog
