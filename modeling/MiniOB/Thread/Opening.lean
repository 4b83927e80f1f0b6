import MiniOB.Thread.Accounting

/-!
# Threads of the core that leave before the pool runs

`init` creates the threads of the core while the state is still NEW, and a thread that finds the
pool not running and the queue empty leaves. So there is an interleaving for every size of the
core in which `init` succeeds and the pool runs without a thread.
-/

namespace MiniOB.ThreadPool

open Transition

variable {T : Type} {s s₀ : Pool T} {i : ThreadId}

/-- The threads of the core have not begun, and there is nothing to do for them. -/
structure Idle (s : Pool T) : Prop where
  state : s.state = .new
  lock : s.lock = none
  workQueue : s.workQueue = []
  threads : ∀ i ∈ s.ids, (s.thread i).core = true ∧ (s.thread i).point = .starting

/-- The next turn of a thread of the core while the pool is new. -/
def Point.nextIdle : Point T → Point T
  | .starting => .looping
  | .looping => .popping
  | .popping => .checking
  | .checking => .measuring
  | _ => .leaving

theorem Idle.turn (h : Idle s) (hi : i ∈ s.ids) (thread : Thread T) (hcore : thread.core = true)
    (hpoint : thread.point ∈ [.starting, .looping, .popping, .checking, .measuring]) :
  ∃ idleDeadline, Step (s.setThread i thread) (.thread i)
    (s.setThread i { core := true, idleDeadline, point := thread.point.nextIdle })
  := by
  have hset : ∀ thread', (s.setThread i thread).setThread i thread' = s.setThread i thread' := by
    intro thread'
    simp [Pool.setThread]
  obtain ⟨core, idleDeadline, point⟩ := thread
  obtain rfl : core = true := hcore
  simp only [List.mem_cons, List.not_mem_nil, or_false] at hpoint
  obtain rfl | rfl | rfl | rfl | rfl := hpoint
  all_goals
    simp only [Step, Pool.step, Pool.stepThread, hset, Point.nextIdle]
    simp [Pool.setThread, hi, h.state, h.lock, h.workQueue]
    exact ⟨_, rfl⟩

/-- A thread of the core can leave before the pool runs. -/
theorem Idle.leave (h : Idle s) (hi : i ∈ s.ids) :
  ∃ es s', Run Step s es s' ∧ Idle s' ∧ s'.ids = s.ids.erase i ∧ s'.init = s.init
    ∧ s'.created = s.created
  := by
  obtain ⟨hcore, hpoint⟩ := h.threads i hi
  have hself : s = s.setThread i (s.thread i) := by simp [Pool.setThread]
  obtain ⟨d₁, h₁⟩ := h.turn hi (s.thread i) hcore (by simp [hpoint])
  rw [← hself, hpoint] at h₁
  obtain ⟨d₂, h₂⟩ := h.turn hi ⟨true, d₁, .looping⟩ rfl (by simp)
  obtain ⟨d₃, h₃⟩ := h.turn hi ⟨true, d₂, .popping⟩ rfl (by simp)
  obtain ⟨d₄, h₄⟩ := h.turn hi ⟨true, d₃, .checking⟩ rfl (by simp)
  obtain ⟨d₅, h₅⟩ := h.turn hi ⟨true, d₄, .measuring⟩ rfl (by simp)
  have hrun := ((((Run.refl.tail h₁).tail h₂).tail h₃).tail h₄).tail h₅
  let last := s.setThread i ⟨true, d₅, .leaving⟩
  have hleave : Step last (.thread i) { last with ids := s.ids.erase i } := by
    simp [last, Step, Pool.step, Pool.stepThread, Pool.setThread, hi, h.lock]
  refine ⟨_, _, hrun.tail hleave, ⟨h.state, h.lock, h.workQueue, ?_⟩, rfl, rfl, rfl⟩
  intro j hj
  obtain ⟨hne, hj⟩ := Finset.mem_erase.mp hj
  simpa [last, Pool.setThread, hne] using h.threads j hj

/-- And all of them can. -/
theorem Idle.leave_all (h : Idle s) :
  ∃ es s', Run Step s es s' ∧ s'.ids = ∅ ∧ s'.init = s.init ∧ s'.created = s.created
  := by
  induction hn : s.ids.card generalizing s with
  | zero => exact ⟨[], s, .refl, Finset.card_eq_zero.mp hn, rfl, rfl⟩
  | succ n ih =>
    obtain ⟨i, hi⟩ := Finset.card_pos.mp (show 0 < s.ids.card by omega)
    obtain ⟨es, s₁, hrun, hidle, hids, hinit, hcreated⟩ := h.leave hi
    have hcard : s₁.ids.card = n := by
      rw [hids, Finset.card_erase_of_mem hi]
      omega
    obtain ⟨es', s₂, hrun', hempty, hinit', hcreated'⟩ := ih hidle hcard
    exact ⟨_, s₂, hrun.trans hrun', hempty, hinit'.trans hinit, hcreated'.trans hcreated⟩

/-- `init` can create any number of threads up to that of the core before one of them begins. -/
theorem exists_created (h : Idle s) (hids : s.ids = ∅) (hinit : s.init = .growing)
    (hcreated : s.created = 0) :
    ∀ n : Nat, (n : Int) ≤ s.corePoolSize → ∃ es s', Run Step s es s' ∧ Idle s'
      ∧ s'.ids = Finset.range n ∧ s'.created = n ∧ s'.init = .growing
      ∧ s'.corePoolSize = s.corePoolSize := by
  intro n
  induction n with
  | zero => exact fun _ => ⟨[], s, .refl, h, hids, hcreated, hinit, rfl⟩
  | succ n ih =>
    intro hn
    push_cast at hn
    obtain ⟨es, s₁, hrun, hidle, hids₁, hcreated₁, hinit₁, hsize⟩ := ih (by omega)
    have hless : (s₁.poolSize : Int) < s₁.corePoolSize := by
      rw [Pool.poolSize, hids₁, Finset.card_range, hsize]
      omega
    have hgrow : Step s₁ .init { s₁ with init := .creating } := by
      simp [Step, Pool.step, Pool.stepInit, hinit₁, hless]
    have hcreate : Step { s₁ with init := .creating } .init
        { s₁.createThread true with init := .growing } := by
      simp [Step, Pool.step, Pool.stepInit, hidle.lock, Pool.createThread]
    refine ⟨_, _, (hrun.tail hgrow).tail hcreate, ⟨hidle.state, hidle.lock, hidle.workQueue, ?_⟩, ?_,
      ?_, rfl, hsize⟩
    · intro i hi
      obtain rfl | hi := Finset.mem_insert.mp hi
      · simp [Pool.createThread]
      · have hne : i ≠ s₁.created := by
          rintro rfl
          rw [hids₁, Finset.mem_range, hcreated₁] at hi
          exact lt_irrefl _ hi
        simpa [Pool.createThread, hne] using hidle.threads i hi
    · simp [Pool.createThread, hids₁, hcreated₁, Finset.range_add_one]
    · simp [Pool.createThread, hcreated₁]

/-- For every size of the core there is an interleaving in which `init` creates as many threads,
all of them leave, and the pool runs without one. -/
theorem opened_without_threads {corePoolSize maxPoolSize keepAliveTimeMs : Int}
    (hnew : Pool.new corePoolSize maxPoolSize keepAliveTimeMs = some s₀) :
  ∃ h s, Run Step s₀ h s ∧ s.state = .running ∧ s.init = .done ∧ s.ids = ∅
    ∧ (s.created : Int) = corePoolSize
  := by
  rw [Pool.new] at hnew
  split_ifs at hnew with hargs
  cases hnew
  have hidle : Idle ({ corePoolSize, maxPoolSize, keepAliveTimeMs } : Pool T) :=
    ⟨rfl, rfl, rfl, by simp⟩
  obtain ⟨n, rfl⟩ := Int.eq_ofNat_of_zero_le (show 0 ≤ corePoolSize by omega)
  obtain ⟨es, s₁, hrun, hidle₁, hids, hcreated, hinit, hsize⟩ :=
    exists_created hidle rfl rfl rfl n le_rfl
  have hgrown : Step s₁ .init { s₁ with init := .opening } := by
    have hfull : ¬ (s₁.poolSize : Int) < s₁.corePoolSize := by
      rw [Pool.poolSize, hids, Finset.card_range, hsize]
      exact lt_irrefl _
    simp [Step, Pool.step, Pool.stepInit, hinit, hfull]
  have hidle₂ : Idle { s₁ with init := .opening } :=
    ⟨hidle₁.state, hidle₁.lock, hidle₁.workQueue, hidle₁.threads⟩
  obtain ⟨es', s₂, hrun', hempty, hopening, hcreated'⟩ := hidle₂.leave_all
  have hopen : Step s₂ .init { s₂ with state := .running, init := .done } := by
    rw [Step, Pool.step, Pool.stepInit, hopening]
  refine ⟨_, _, ((hrun.tail hgrown).trans hrun').tail hopen, rfl, rfl, hempty, ?_⟩
  exact congrArg Nat.cast (hcreated'.trans hcreated)

/-- A pool of two threads of the core, with none. -/
theorem opened_without_threads_two :
  ∃ (h : List (Pool Unit × Event Unit)) (s : Pool Unit),
    Run Step { corePoolSize := 2, maxPoolSize := 8, keepAliveTimeMs := 60000 } h s
    ∧ s.state = .running ∧ s.init = .done ∧ s.ids = ∅ ∧ (s.created : Int) = 2
  := opened_without_threads (show Pool.new 2 8 60000 = some _ from rfl)

end MiniOB.ThreadPool
