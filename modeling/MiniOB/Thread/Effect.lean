import MiniOB.Thread.ThreadPool

/-!
# What a step of the thread pool does

`Effect` lists what a step can do, and `Inv` says how the calls, the lock and the threads belong
together: there are never more threads than `max_pool_size_`.
-/

namespace MiniOB.ThreadPool

open Transition

variable {T : Type} {s s' : Pool T}

/-! ### The effects -/

/-- The turns of a thread that change nothing but itself. -/
inductive Turns (s : Pool T) (core : Bool) : Point T → Point T → Prop where
  | start : Turns s core .starting .looping
  | pop : Turns s core .looping .popping
  | expire (hcore : core = false) : Turns s core .looping .leaving
  | empty (hqueue : s.workQueue = []) : Turns s core .popping .checking
  | again (hstate : s.state = .running) : Turns s core .checking .looping
  | stopped (hstate : s.state ≠ .running) : Turns s core .checking .measuring
  | more (hqueue : s.workQueue ≠ []) : Turns s core .measuring .looping
  | leave (hqueue : s.workQueue = []) : Turns s core .measuring .leaving

/-- The turns of a call that change nothing but itself. -/
inductive CallTurns (s : Pool T) : Call T → Option (Call T) → Prop where
  | refuse (task : T) (hstate : s.state ≠ .running) : CallTurns s (.checking task) none
  | accept (task : T) (hstate : s.state = .running) :
    CallTurns s (.checking task) (some (.pushing task))
  | size (n : Nat) : CallTurns s .sizing (some (.sized n))
  | pool (n m : Nat) : CallTurns s (.sized n) (some (.pooled n m))
  | enough (n m : Nat) : CallTurns s (.pooled n m) none
  | extend (n m : Nat) : CallTurns s (.pooled n m) (some .extending)

/-- What a step can do. -/
inductive Effect (s : Pool T) : Event T → Pool T → Prop where
  | tick (ms : Nat) : Effect s (.tick ms) { s with now := s.now + ms }
  | grow (hinit : s.init = .growing) (hless : s.poolSize < s.corePoolSize) :
    Effect s .init { s with init := .creating }
  | grown (hinit : s.init = .growing) : Effect s .init { s with init := .opening }
  | create (hinit : s.init = .creating) (hlock : s.lock = none) :
    Effect s .init { s.createThread true with init := .growing }
  | open (hinit : s.init = .opening) : Effect s .init { s with state := .running, init := .done }
  | turn (i : ThreadId) (idleDeadline : Int) (point : Point T) (hi : i ∈ s.ids)
      (hturn : Turns s (s.thread i).core (s.thread i).point point) :
    Effect s (.thread i) (s.setThread i { core := (s.thread i).core, idleDeadline, point })
  | take (i : ThreadId) (task : T) (workQueue : List T) (hi : i ∈ s.ids)
      (hpoint : (s.thread i).point = .popping) (hqueue : s.workQueue = task :: workQueue) :
    Effect s (.thread i) { s.setThread i { s.thread i with point := .taken task } with workQueue }
  | begin (i : ThreadId) (task : T) (hi : i ∈ s.ids) (hpoint : (s.thread i).point = .taken task) :
    Effect s (.thread i) { s.setThread i { s.thread i with point := .running task } with
      activeCount := s.activeCount + 1 }
  | return (i : ThreadId) (task : T) (hi : i ∈ s.ids) (hpoint : (s.thread i).point = .running task)
      (hcalls : s.calls (.worker i) = none) :
    Effect s (.thread i) (s.setThread i { s.thread i with point := .returned })
  | rest (i : ThreadId) (hi : i ∈ s.ids) (hpoint : (s.thread i).point = .returned) :
    Effect s (.thread i) { s.setThread i { s.thread i with point := .counting } with
      activeCount := s.activeCount - 1 }
  | count (i : ThreadId) (idleDeadline : Int) (hi : i ∈ s.ids)
      (hpoint : (s.thread i).point = .counting) :
    Effect s (.thread i) { s.setThread i { s.thread i with idleDeadline, point := .checking } with
      taskCount := s.taskCount + 1 }
  | leave (i : ThreadId) (hi : i ∈ s.ids) (hpoint : (s.thread i).point = .leaving) :
    Effect s (.thread i) { s with ids := s.ids.erase i }
  | execute (c : Caller) (task : T) (hcan : s.CanCall c) :
    Effect s (.execute c task) (s.setCall c (some (.checking task)))
  | call (c : Caller) (call : Call T) (call' : Option (Call T)) (hc : s.calls c = some call)
      (hturn : CallTurns s call call') :
    Effect s (.call c) (s.setCall c call')
  | push (c : Caller) (task : T) (hc : s.calls c = some (.pushing task)) :
    Effect s (.call c) { s.setCall c (some .sizing) with workQueue := s.workQueue ++ [task] }
  | lock (c : Caller) (hc : s.calls c = some .extending) (hlock : s.lock = none) :
    Effect s (.call c) { s.setCall c (some .locked) with lock := some c }
  | measure (c : Caller) (n : Nat) (hc : s.calls c = some .locked)
      (hroom : s.poolSize < s.maxPoolSize) :
    Effect s (.call c) (s.setCall c (some (.lockedSized n)))
  | unlock (c : Caller) (hc : s.calls c = some .locked ∨ ∃ n, s.calls c = some (.lockedSized n)) :
    Effect s (.call c) { s.setCall c none with lock := none }
  | extend (c : Caller) (n : Nat) (hc : s.calls c = some (.lockedSized n)) :
    Effect s (.call c) { (s.setCall c none).createThread false with lock := none }
  | shutdown (hstate : s.state = .running) : Effect s .shutdown { s with state := .terminating }
  | none (hstate : s.state ≠ .running) : Effect s .shutdown s

theorem stepInit_effect (h : s.stepInit = some s') :
  Effect s .init s'
  := by
  rw [Pool.stepInit] at h
  split at h
  · rename_i hinit
    cases h
    split_ifs with hless
    · exact .grow hinit hless
    · exact .grown hinit
  · rename_i hinit
    split_ifs at h with hlock
    cases h
    exact .create hinit hlock
  · rename_i hinit
    cases h
    exact .open hinit
  · cases h

theorem stepThread_effect {i : ThreadId} (h : s.stepThread i = some s') :
  Effect s (.thread i) s'
  := by
  rw [Pool.stepThread] at h
  dsimp only at h
  by_cases hi : i ∈ s.ids
  case neg =>
    rw [if_neg hi] at h
    cases h
  rw [if_pos hi] at h
  -- a turn to `point`
  have hturn : ∀ {point point' : Point T} {idleDeadline : Int}, (s.thread i).point = point →
      Turns s (s.thread i).core point point' →
      s.setThread i { core := (s.thread i).core, idleDeadline, point := point' } = s' →
      Effect s (.thread i) s' := by
    rintro point point' idleDeadline rfl hturns rfl
    exact .turn i idleDeadline point' hi hturns
  split at h
  · rename_i hpoint
    split_ifs at h
    all_goals exact hturn hpoint .start (Option.some.inj h)
  · rename_i hpoint
    split_ifs at h with hlive
    · exact hturn hpoint .pop (Option.some.inj h)
    · refine hturn hpoint (.expire ?_) (Option.some.inj h)
      simpa using mt Or.inl hlive
  · rename_i hpoint
    split at h
    · rename_i hqueue
      exact hturn hpoint (.empty hqueue) (Option.some.inj h)
    · rename_i task workQueue hqueue
      cases h
      exact .take i task workQueue hi hpoint hqueue
  · rename_i task hpoint
    cases h
    exact .begin i task hi hpoint
  · rename_i task hpoint
    split_ifs at h with hcalls
    cases h
    exact .return i task hi hpoint hcalls
  · rename_i hpoint
    cases h
    exact .rest i hi hpoint
  · rename_i hpoint
    cases h
    exact .count i _ hi hpoint
  · rename_i hpoint
    split_ifs at h with hstate
    · exact hturn hpoint (.stopped hstate) (Option.some.inj h)
    · exact hturn hpoint (.again (not_not.mp hstate)) (Option.some.inj h)
  · rename_i hpoint
    split_ifs at h with hqueue
    · exact hturn hpoint (.leave hqueue) (Option.some.inj h)
    · exact hturn hpoint (.more hqueue) (Option.some.inj h)
  · rename_i hpoint
    split_ifs at h
    cases h
    exact .leave i hi hpoint

theorem stepCall_effect {c : Caller} (h : s.stepCall c = some s') :
  Effect s (.call c) s'
  := by
  rw [Pool.stepCall] at h
  split at h
  · cases h
  · rename_i task hc
    cases h
    split_ifs with hstate
    · exact .call c _ _ hc (.refuse task hstate)
    · exact .call c _ _ hc (.accept task (not_not.mp hstate))
  · rename_i task hc
    cases h
    exact .push c task hc
  · rename_i hc
    cases h
    exact .call c _ _ hc (.size _)
  · rename_i n hc
    cases h
    exact .call c _ _ hc (.pool n _)
  · rename_i n m hc
    cases h
    split_ifs
    · exact .call c _ _ hc (.extend n m)
    · exact .call c _ _ hc (.enough n m)
  · rename_i hc
    split_ifs at h with hlock
    cases h
    exact .lock c hc hlock
  · rename_i hc
    split_ifs at h with hfull
    · cases h
      exact .unlock c (.inl hc)
    · cases h
      exact .measure c _ hc (lt_of_not_ge hfull)
  · rename_i n hc
    split_ifs at h
    · cases h
      exact .unlock c (.inr ⟨n, hc⟩)
    · cases h
      exact .extend c n hc

theorem step_effect {e : Event T} (h : s.step e = some s') :
  Effect s e s'
  := by
  cases e with
  | tick ms =>
    cases h
    exact .tick ms
  | init => exact stepInit_effect h
  | thread i => exact stepThread_effect h
  | execute c task =>
    rw [Pool.step] at h
    split_ifs at h with hcan
    cases h
    exact .execute c task hcan
  | call c => exact stepCall_effect h
  | shutdown =>
    cases h
    split_ifs with hstate
    · exact .none hstate
    · exact .shutdown (not_not.mp hstate)

/-! ### The invariant -/

/-- How the calls, the lock and the threads belong together. -/
structure Inv (s : Pool T) : Prop where
  init_iff : s.init = .done ↔ s.state ≠ .new
  growing : s.init = .creating → (s.poolSize : Int) < s.corePoolSize
  core_le : s.corePoolSize ≤ s.maxPoolSize
  /-- No task is accepted before `init` is done. -/
  calls_new : s.state = .new → ∀ c call, s.calls c = some call → ∃ task, call = .checking task
  lock : ∀ c, (s.calls c = some .locked ∨ ∃ n, s.calls c = some (.lockedSized n)) →
    s.lock = some c
  room : ∀ c n, s.calls c = some (.lockedSized n) → (s.poolSize : Int) < s.maxPoolSize
  size_le : (s.poolSize : Int) ≤ s.maxPoolSize
  below : ∀ i ∈ s.ids, i < s.created
  /-- A thread of the pool calls `execute` from within its task. -/
  worker : ∀ i call, s.calls (.worker i) = some call →
    i ∈ s.ids ∧ ∃ task, (s.thread i).point = .running task

theorem inv_new {corePoolSize maxPoolSize keepAliveTimeMs : Int}
    (h : Pool.new corePoolSize maxPoolSize keepAliveTimeMs = some s) :
  Inv s
  := by
  rw [Pool.new] at h
  split_ifs at h with hargs
  cases h
  have hmax : 0 < maxPoolSize ∧ corePoolSize ≤ maxPoolSize := by omega
  constructor
  · simp
  · simp
  · exact hmax.2
  · simp
  · simp
  · simp
  · simpa [Pool.poolSize] using hmax.1.le
  · simp
  · simp

/-- The invariant does not depend on a thread that makes no call. -/
theorem Inv.setThread (h : Inv s) {i : ThreadId} {thread : Thread T}
    (hi : s.calls (.worker i) ≠ none → ∃ task, thread.point = .running task) :
  Inv (s.setThread i thread)
  := by
  refine { h with worker := ?_ }
  intro j call hcall
  have hj := h.worker j call hcall
  refine ⟨hj.1, ?_⟩
  by_cases hij : j = i
  · subst hij
    have hsome : s.calls (.worker j) ≠ none := by
      intro hnone
      cases hnone.symm.trans hcall
    simpa [Pool.setThread] using hi hsome
  · simpa [Pool.setThread, hij] using hj.2

/-- The invariant after a turn of the call of `c`. -/
theorem Inv.setCall (h : Inv s) {c : Caller} {call : Option (Call T)}
    (hnew : s.state = .new → ∀ call', call = some call' → ∃ task, call' = .checking task)
    (hlock : (call = some .locked ∨ ∃ n, call = some (.lockedSized n)) → s.lock = some c)
    (hroom : ∀ n, call = some (.lockedSized n) → (s.poolSize : Int) < s.maxPoolSize)
    (hworker : ∀ i, c = .worker i → call ≠ none →
      i ∈ s.ids ∧ ∃ task, (s.thread i).point = .running task) :
  Inv (s.setCall c call)
  := by
  have hcalls : ∀ c', (s.setCall c call).calls c' = if c' = c then call else s.calls c' := by
    intro c'
    simp [Pool.setCall, Function.update_apply]
  constructor
  · exact h.init_iff
  · exact h.growing
  · exact h.core_le
  · intro hstate c' call' hc'
    rw [hcalls] at hc'
    split_ifs at hc'
    · exact hnew hstate call' hc'
    · exact h.calls_new hstate c' call' hc'
  · intro c' hc'
    rw [hcalls] at hc'
    split_ifs at hc' with heq
    · rw [heq]
      exact hlock hc'
    · exact h.lock c' hc'
  · intro c' n hc'
    rw [hcalls] at hc'
    split_ifs at hc'
    · exact hroom n hc'
    · exact h.room c' n hc'
  · exact h.size_le
  · exact h.below
  · intro i call' hc'
    rw [hcalls] at hc'
    split_ifs at hc' with heq
    · apply hworker i heq.symm
      rw [hc']
      exact Option.some_ne_none _
    · exact h.worker i call' hc'

/-- A caller in the middle of a call remains in its task. -/
theorem Inv.worker_of_call (h : Inv s) {c : Caller} {call : Call T} (hc : s.calls c = some call) :
  ∀ i, c = .worker i → i ∈ s.ids ∧ ∃ task, (s.thread i).point = .running task
  := by
  rintro i rfl
  exact h.worker i call hc

/-- A call that is past its test is made while the pool is not new any more. -/
theorem Inv.not_new (h : Inv s) {c : Caller} {call : Call T} (hc : s.calls c = some call)
    (hcall : ∀ task, call ≠ .checking task) :
  s.state ≠ .new
  := by
  intro hstate
  obtain ⟨task, rfl⟩ := h.calls_new hstate c call hc
  exact hcall task rfl

/-- A new thread fits in where nobody else is about to create one. -/
theorem Inv.createThread (h : Inv s) (core : Bool) (hroom : (s.poolSize : Int) < s.maxPoolSize)
    (hinit : s.init ≠ .creating)
    (hnone : ∀ c n, s.calls c ≠ some (.lockedSized n)) :
  Inv (s.createThread core)
  := by
  have hfresh : s.created ∉ s.ids := fun hmem => (h.below _ hmem).ne rfl
  have hsize : (s.createThread core).poolSize = s.poolSize + 1 := by
    simp [Pool.createThread, Pool.poolSize, Finset.card_insert_of_notMem hfresh]
  constructor
  · exact h.init_iff
  · exact fun hcreating => absurd hcreating hinit
  · exact h.core_le
  · exact h.calls_new
  · exact h.lock
  · exact fun c n hc => absurd hc (hnone c n)
  · rw [hsize]
    push_cast
    exact hroom
  · intro i hi
    obtain rfl | hi := Finset.mem_insert.mp hi
    · exact Nat.lt_succ_self _
    · exact (h.below i hi).trans (Nat.lt_succ_self _)
  · intro i call hc
    obtain ⟨hi, hpoint⟩ := h.worker i call hc
    refine ⟨Finset.mem_insert_of_mem hi, ?_⟩
    have hne : i ≠ s.created := (h.below i hi).ne
    simpa [Pool.createThread, hne] using hpoint

/-- A thread that is not in its task makes no call. -/
theorem Inv.calls_eq_none (h : Inv s) {i : ThreadId}
    (hpoint : ∀ task, (s.thread i).point ≠ .running task) :
  s.calls (.worker i) = none
  := by
  rw [Option.eq_none_iff_forall_ne_some]
  intro call hcall
  obtain ⟨-, task, hrunning⟩ := h.worker i call hcall
  exact hpoint task hrunning

/-- When the call of `c` ends that holds the lock, nobody holds it any more. -/
theorem Inv.unlock (h : Inv s) {c : Caller}
    (hc : s.calls c = some .locked ∨ ∃ n, s.calls c = some (.lockedSized n)) :
  Inv { s.setCall c none with lock := none }
    ∧ ∀ c' n, (s.setCall c none).calls c' ≠ some (.lockedSized n)
  := by
  have hheld := h.lock c hc
  have hended : Inv (s.setCall c none) := h.setCall (by simp) (by simp) (by simp) (by simp)
  have hnone : ∀ c', ¬ ((s.setCall c none).calls c' = some .locked
      ∨ ∃ n, (s.setCall c none).calls c' = some (.lockedSized n)) := by
    intro c' hc'
    have hheld' : s.lock = some c' := hended.lock c' hc'
    cases hheld.symm.trans hheld'
    simp [Pool.setCall] at hc'
  exact ⟨{ hended with lock := fun c' hc' => absurd hc' (hnone c') },
    fun c' n hc' => hnone c' (.inr ⟨n, hc'⟩)⟩

theorem Inv.step (h : Inv s) {e : Event T} (hstep : s.step e = some s') :
  Inv s'
  := by
  cases step_effect hstep with
  | tick ms => exact { h with }
  | grow hinit hless =>
    refine { h with init_iff := ?_, growing := fun _ => hless }
    rw [← h.init_iff, hinit]
    simp
  | grown hinit =>
    refine { h with init_iff := ?_, growing := nofun }
    rw [← h.init_iff, hinit]
    simp
  | create hinit hlock =>
    -- `init` is not done, so that nobody else creates a thread
    have hnew : s.state = .new := by
      by_contra hstate
      cases hinit.symm.trans (h.init_iff.mpr hstate)
    have hsmall : Inv { s with init := .growing } := by
      refine { h with init_iff := ?_, growing := nofun }
      rw [← h.init_iff, hinit]
      simp
    refine hsmall.createThread true ((h.growing hinit).trans_le h.core_le) nofun ?_
    intro c n hc
    obtain ⟨task, ⟨⟩⟩ := h.calls_new hnew c _ hc
  | «open» hinit => exact { h with init_iff := by simp, growing := nofun, calls_new := nofun }
  | turn i idleDeadline point hi hturn =>
    apply h.setThread
    intro hcalls
    obtain ⟨call, hcall⟩ := Option.ne_none_iff_exists'.mp hcalls
    obtain ⟨-, task, hpoint⟩ := h.worker i call hcall
    rw [hpoint] at hturn
    cases hturn
  | take i task workQueue hi hpoint hqueue =>
    have hnone := h.calls_eq_none (i := i) (by simp [hpoint])
    exact { h.setThread (i := i) fun hsome => absurd hnone hsome with }
  | begin i task hi hpoint =>
    exact { h.setThread (i := i) fun _ => ⟨task, rfl⟩ with }
  | «return» i task hi hpoint hcalls => exact h.setThread fun hsome => absurd hcalls hsome
  | rest i hi hpoint =>
    have hnone := h.calls_eq_none (i := i) (by simp [hpoint])
    exact { h.setThread (i := i) fun hsome => absurd hnone hsome with }
  | count i idleDeadline hi hpoint =>
    have hnone := h.calls_eq_none (i := i) (by simp [hpoint])
    exact { h.setThread (i := i) fun hsome => absurd hnone hsome with }
  | leave i hi hpoint =>
    have hnone := h.calls_eq_none (i := i) (by simp [hpoint])
    have hsize : (Finset.card (s.ids.erase i) : Int) ≤ s.poolSize :=
      Int.ofNat_le.mpr (Finset.card_le_card (Finset.erase_subset i s.ids))
    refine { h with
      growing := fun hinit => hsize.trans_lt (h.growing hinit)
      room := fun c n hc => hsize.trans_lt (h.room c n hc)
      size_le := hsize.trans h.size_le
      below := fun j hj => h.below j (Finset.mem_of_mem_erase hj)
      worker := ?_ }
    intro j call hcall
    obtain ⟨hj, hrunning⟩ := h.worker j call hcall
    refine ⟨Finset.mem_erase.mpr ⟨?_, hj⟩, hrunning⟩
    rintro rfl
    cases hnone.symm.trans hcall
  | execute c task hcan =>
    refine h.setCall (fun _ call' hcall' => ⟨task, (Option.some.inj hcall').symm⟩) (by simp) (by simp) ?_
    rintro i rfl -
    obtain ⟨-, hi, hpoint⟩ := hcan
    refine ⟨hi, ?_⟩
    split at hpoint
    · exact ⟨_, ‹_›⟩
    · exact hpoint.elim
  | call c call call' hc hturn =>
    refine h.setCall ?_ ?_ ?_ fun i hi _ => h.worker_of_call hc i hi
    · intro hstate call'' hsome
      obtain ⟨task, rfl⟩ := h.calls_new hstate c call hc
      cases hturn with
      | refuse => cases hsome
      | accept _ hrunning => cases hstate.symm.trans hrunning
    · rintro (hsome | ⟨n, hsome⟩) <;> cases hturn <;> cases hsome
    · intro n hsome
      cases hturn <;> cases hsome
  | push c task hc =>
    have hstate := h.not_new hc nofun
    have hcalled : Inv (s.setCall c (some .sizing)) :=
      h.setCall (fun hnew => absurd hnew hstate) (by simp) (by simp)
        fun i hi _ => h.worker_of_call hc i hi
    exact { hcalled with }
  | lock c hc hlock =>
    have hstate := h.not_new hc nofun
    -- nobody holds the lock
    have hheld : Inv { s with lock := some c } := by
      refine { h with lock := ?_ }
      intro c' hc'
      cases hlock.symm.trans (h.lock c' hc')
    exact hheld.setCall (fun hnew => absurd hnew hstate) (fun _ => rfl) (by simp)
      fun i hi _ => h.worker_of_call hc i hi
  | measure c n hc hroom =>
    have hstate := h.not_new hc nofun
    exact h.setCall (fun hnew => absurd hnew hstate) (fun _ => h.lock c (.inl hc))
      (fun _ _ => hroom) fun i hi _ => h.worker_of_call hc i hi
  | unlock c hc => exact (h.unlock hc).1
  | extend c n hc =>
    obtain ⟨hinv, hnone⟩ := h.unlock (.inr ⟨n, hc⟩)
    have hinit := h.init_iff.mpr (h.not_new hc nofun)
    refine hinv.createThread false (h.room c n hc) ?_ hnone
    rintro hcreating
    cases hinit.symm.trans hcreating
  | shutdown hstate =>
    refine { h with init_iff := ?_, calls_new := nofun }
    have hinit := h.init_iff.mpr (by simp [hstate])
    simp [hinit]
  | none hstate => exact h

end MiniOB.ThreadPool
