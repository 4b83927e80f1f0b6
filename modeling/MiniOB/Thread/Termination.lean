import MiniOB.Thread.Accounting

/-!
# When the thread pool has terminated

A thread of the core leaves its loop only when the pool does not run and the queue is empty. So
when `await_termination` finds no thread any more, then every task that was accepted has been run,
provided that a thread of the core has outlived `init`, and that nobody but a thread of the core
was about to put a task into the queue at the time of `shutdown`.
-/

namespace MiniOB.ThreadPool

open Transition

variable {T : Type} {s s' s₀ s₁ : Pool T} {i : ThreadId} {e : Event T}

/-! ### What a step does to a thread -/

/-- A thread does not change but in its own steps. -/
theorem thread_of_ne (hinv : Inv s) (hstep : Step s e s') (hi : i ∈ s.ids)
    (hne : e ≠ .thread i) :
  i ∈ s'.ids ∧ s'.thread i = s.thread i
  := by
  have hcreate : ∀ {s₁ : Pool T} (core : Bool), i < s₁.created → i ∈ s₁.ids →
      i ∈ (s₁.createThread core).ids ∧ (s₁.createThread core).thread i = s₁.thread i := by
    intro s₁ core hbelow hi₁
    have hfresh : i ≠ s₁.created := hbelow.ne
    exact ⟨Finset.mem_insert_of_mem hi₁, Function.update_of_ne hfresh _ _⟩
  have hother : ∀ {j : ThreadId}, (Event.thread j : Event T) ≠ .thread i →
      ∀ thread : Thread T, Function.update s.thread j thread i = s.thread i := by
    intro j hj thread
    apply Function.update_of_ne
    rintro rfl
    exact hj rfl
  cases step_effect hstep with
  | turn j _ _ _ _ => exact ⟨hi, hother hne _⟩
  | take j _ _ _ _ _ => exact ⟨hi, hother hne _⟩
  | begin j _ _ _ => exact ⟨hi, hother hne _⟩
  | «return» j _ _ _ _ => exact ⟨hi, hother hne _⟩
  | rest j _ _ => exact ⟨hi, hother hne _⟩
  | count j _ _ _ => exact ⟨hi, hother hne _⟩
  | leave j _ _ =>
    refine ⟨Finset.mem_erase.mpr ⟨?_, hi⟩, rfl⟩
    rintro rfl
    exact hne rfl
  | create _ _ => exact hcreate true (hinv.below i hi) hi
  | extend c n _ => exact hcreate false (hinv.below i hi) hi
  | _ => exact ⟨hi, rfl⟩

/-- What a thread of the core does in a step of its own: it goes on, or it is at the end. -/
theorem own_step (hcore : (s.thread i).core = true) (hstep : Step s (.thread i) s') :
  (s.thread i).point = .leaving
    ∨ (i ∈ s'.ids ∧ (s'.thread i).core = true
      ∧ ((s'.thread i).point = .leaving → (s.thread i).point = .measuring ∧ s.workQueue = [])
      ∧ ((s'.thread i).point = .measuring → s.state ≠ .running))
  := by
  have hself : ∀ thread : Thread T, Function.update s.thread i thread i = thread :=
    fun thread => Function.update_self _ _ _
  cases step_effect hstep with
  | turn _ idleDeadline point hi hturn =>
    right
    refine ⟨hi, ?_, ?_, ?_⟩
    · simpa [Pool.setThread] using hcore
    · intro hleaving
      have hpoint : point = .leaving := by simpa [Pool.setThread] using hleaving
      rw [hpoint] at hturn
      generalize (s.thread i).point = point₀ at hturn
      cases hturn with
      | expire hexpire => cases hcore.symm.trans hexpire
      | leave hqueue => exact ⟨rfl, hqueue⟩
    · intro hmeasuring
      have hpoint : point = .measuring := by simpa [Pool.setThread] using hmeasuring
      rw [hpoint] at hturn
      generalize (s.thread i).point = point₀ at hturn
      cases hturn with
      | stopped hstate => exact hstate
  | leave _ _ hpoint => exact .inl hpoint
  | take _ task workQueue hi _ _ => exact .inr ⟨hi, by simp [Pool.setThread, hcore]⟩
  | begin _ task hi _ => exact .inr ⟨hi, by simp [Pool.setThread, hcore]⟩
  | «return» _ task hi _ _ => exact .inr ⟨hi, by simp [Pool.setThread, hcore]⟩
  | rest _ hi _ => exact .inr ⟨hi, by simp [Pool.setThread, hcore]⟩
  | count _ idleDeadline hi _ => exact .inr ⟨hi, by simp [Pool.setThread, hcore]⟩

/-! ### While the pool runs -/

/-- A thread of the core that has not found the pool not running. -/
def Survives (s : Pool T) (i : ThreadId) : Prop :=
  i ∈ s.ids ∧ (s.thread i).core = true ∧ (s.thread i).point ≠ .measuring
    ∧ (s.thread i).point ≠ .leaving

theorem Survives.step (h : Survives s i) (hinv : Inv s) (hstate : s.state = .running)
    (hstep : Step s e s') :
  Survives s' i
  := by
  obtain ⟨hi, hcore, hmeasuring, hleaving⟩ := h
  by_cases he : e = .thread i
  · subst he
    obtain hend | ⟨hi', hcore', hleave, hmeasure⟩ := own_step hcore hstep
    · exact absurd hend hleaving
    · exact ⟨hi', hcore', fun h => hmeasure h hstate, fun h => hmeasuring (hleave h).1⟩
  · obtain ⟨hi', hthread⟩ := thread_of_ne hinv hstep hi he
    rw [Survives, hthread]
    exact ⟨hi', hcore, hmeasuring, hleaving⟩

/-- A pool that runs has not been shut down before. -/
theorem running_of_step (hinv : Inv s) (hstep : Step s e s') (hnew : s.state ≠ .new)
    (hstate : s'.state = .running) :
  s.state = .running
  := by
  cases step_effect hstep with
  | «open» hinit =>
    cases hinit.symm.trans (hinv.init_iff.mpr hnew)
  | shutdown hrunning => exact hrunning
  | _ => exact hstate

theorem not_new_step (hstep : Step s e s') (hnew : s.state ≠ .new) :
  s'.state ≠ .new
  := by
  cases step_effect hstep with
  | «open» _ => simp
  | shutdown _ => simp
  | _ => exact hnew

/-- A thread of the core survives as long as the pool runs. -/
theorem Survives.run (h : Survives s i) (hinv : Inv s) (hstate : s.state = .running)
    {es : List (Pool T × Event T)} (hrun : Run Step s es s') (hstate' : s'.state = .running) :
  Inv s' ∧ Survives s' i
  := by
  have hall : Inv s' ∧ s'.state ≠ .new ∧ (s'.state = .running → Survives s' i) := by
    apply hrun.invariant
    · exact ⟨hinv, by simp [hstate], fun _ => h⟩
    · rintro s₁ e s₂ ⟨hinv₁, hnew, hsurvives⟩ hstep
      refine ⟨hinv₁.step hstep, not_new_step hstep hnew, fun hrunning => ?_⟩
      have hbefore := running_of_step hinv₁ hstep hnew hrunning
      exact (hsurvives hbefore).step hinv₁ hbefore hstep
  exact ⟨hall.1, hall.2.2 hstate'⟩

/-! ### From the shutdown on -/

/-- A pool that is shut down: only threads of the core may still put a task into the queue, and a
thread of the core is left as long as anything is or comes into it. -/
structure Closing (s : Pool T) : Prop where
  state : s.state = .terminating
  pushers : ∀ c task, s.calls c = some (.pushing task) →
    ∃ j, c = .worker j ∧ (s.thread j).core = true
  guarded : (∃ j ∈ s.ids, (s.thread j).core = true ∧ (s.thread j).point ≠ .leaving)
    ∨ (s.workQueue = [] ∧ ∀ c task, s.calls c ≠ some (.pushing task))

/-- Nobody passes the test of `execute` any more. -/
theorem pushing_of_step (hstate : s.state ≠ .running) (hstep : Step s e s') {c : Caller} {task : T}
    (hc : s'.calls c = some (.pushing task)) :
  s.calls c = some (.pushing task)
  := by
  have hset : ∀ (c' : Caller) {call : Option (Call T)}, call ≠ some (.pushing task) →
      (s.setCall c' call).calls c = some (.pushing task) → s.calls c = some (.pushing task) := by
    intro c' call hne hsome
    rw [Pool.setCall] at hsome
    dsimp only at hsome
    rw [Function.update_apply] at hsome
    split_ifs at hsome
    · exact absurd hsome hne
    · exact hsome
  cases step_effect hstep with
  | execute c' _ _ => exact hset c' (by simp) hc
  | call c' call call' _ hturn =>
    refine hset c' ?_ hc
    cases hturn with
    | accept _ hrunning => exact absurd hrunning hstate
    | _ => simp
  | push c' _ _ => exact hset c' (by simp) hc
  | lock c' _ _ => exact hset c' (by simp) hc
  | measure c' _ _ _ => exact hset c' (by simp) hc
  | unlock c' _ => exact hset c' (by simp) hc
  | extend c' _ _ => exact hset c' (by simp) hc
  | _ => exact hc

/-- An empty queue that nobody puts a task into stays empty. -/
theorem queue_of_step (hqueue : s.workQueue = [])
    (hnone : ∀ c task, s.calls c ≠ some (.pushing task)) (hstep : Step s e s') :
  s'.workQueue = []
  := by
  cases step_effect hstep with
  | take _ _ _ _ _ hcons => cases hqueue.symm.trans hcons
  | push c task hc => exact absurd hc (hnone c task)
  | _ => exact hqueue

theorem Closing.step (h : Closing s) (hinv : Inv s) (hstep : Step s e s') :
  Closing s'
  := by
  have hnotrunning : s.state ≠ .running := by simp [h.state]
  -- a caller that is about to push is in the task of a thread of the core
  have hpusher : ∀ {c : Caller} {task : T}, s'.calls c = some (.pushing task) →
      ∃ j, c = .worker j ∧ j ∈ s.ids ∧ (s.thread j).core = true
        ∧ (∃ task, (s.thread j).point = .running task) := by
    intro c task hc
    have hc' := pushing_of_step hnotrunning hstep hc
    obtain ⟨j, rfl, hcore⟩ := h.pushers c task hc'
    obtain ⟨hj, hpoint⟩ := hinv.worker j _ hc'
    exact ⟨j, rfl, hj, hcore, hpoint⟩
  constructor
  · cases step_effect hstep with
    | «open» hinit =>
      cases hinit.symm.trans (hinv.init_iff.mpr (by simp [h.state]))
    | shutdown hrunning => exact absurd hrunning hnotrunning
    | _ => exact h.state
  · intro c task hc
    obtain ⟨j, rfl, hj, hcore, task', hpoint⟩ := hpusher hc
    refine ⟨j, rfl, ?_⟩
    by_cases he : e = .thread j
    · subst he
      obtain hend | ⟨-, hcore', -⟩ := own_step hcore hstep
      · cases hpoint.symm.trans hend
      · exact hcore'
    · rw [(thread_of_ne hinv hstep hj he).2]
      exact hcore
  · obtain ⟨j, hj, hcore, hleaving⟩ | ⟨hqueue, hnone⟩ := h.guarded
    · by_cases he : e = .thread j
      · subst he
        obtain hend | ⟨hj', hcore', hleave, -⟩ := own_step hcore hstep
        · exact absurd hend hleaving
        · by_cases hlast : (s'.thread j).point = .leaving
          · -- it has found the queue empty: whoever is about to push is another thread
            obtain ⟨hmeasuring, hempty⟩ := hleave hlast
            by_cases hpushing : ∃ c task, s.calls c = some (.pushing task)
            · obtain ⟨c, task, hc⟩ := hpushing
              obtain ⟨k, rfl, hcore''⟩ := h.pushers c task hc
              obtain ⟨hk, task', hpoint⟩ := hinv.worker k _ hc
              have hne : (Event.thread j : Event T) ≠ .thread k := by
                rintro heq
                cases heq
                cases hmeasuring.symm.trans hpoint
              obtain ⟨hk', hthread⟩ := thread_of_ne hinv hstep hk hne
              left
              refine ⟨k, hk', ?_, ?_⟩
              · rw [hthread]
                exact hcore''
              · rw [hthread, hpoint]
                simp
            · have hnone : ∀ c task, s.calls c ≠ some (.pushing task) :=
                fun c task hc => hpushing ⟨c, task, hc⟩
              right
              exact ⟨queue_of_step hempty hnone hstep,
                fun c task hc => hnone c task (pushing_of_step hnotrunning hstep hc)⟩
          · exact .inl ⟨j, hj', hcore', hlast⟩
      · obtain ⟨hj', hthread⟩ := thread_of_ne hinv hstep hj he
        left
        refine ⟨j, hj', ?_⟩
        rw [hthread]
        exact ⟨hcore, hleaving⟩
    · right
      exact ⟨queue_of_step hqueue hnone hstep,
        fun c task hc => hnone c task (pushing_of_step hnotrunning hstep hc)⟩

/-- When a thread of the core is in the loop once the pool runs, and at the time of `shutdown` only
threads of the core are about to put a task into the queue, then in every interleaving each task
that was accepted has been run when `await_termination` returns 0. -/
theorem all_run_of_awaited {corePoolSize maxPoolSize keepAliveTimeMs : Int}
    {h₀ h₁ h₂ : List (Pool T × Event T)}
    (hnew : Pool.new corePoolSize maxPoolSize keepAliveTimeMs = some s₀)
    (hrun₀ : Run Step s₀ h₀ s₁) (hstate₁ : s₁.state = .running) (hsurvives : Survives s₁ i)
    (hrun₁ : Run Step s₁ h₁ s) (hstate : s.state = .running)
    (hpushers : ∀ c task, s.calls c = some (.pushing task) →
      ∃ j, c = .worker j ∧ (s.thread j).core = true)
    (hrun₂ : Run Step { s with state := .terminating } h₂ s') (hawaited : s'.Awaited) :
  s'.workQueue = []
    ∧ (accepted (h₂ ++ (s, .shutdown) :: (h₁ ++ h₀))).Perm
      (finished (h₂ ++ (s, .shutdown) :: (h₁ ++ h₀)))
  := by
  have hrun := hrun₀.trans hrun₁
  have hshutdown : Step s .shutdown { s with state := .terminating } := by
    rw [Step, Pool.step, if_neg (not_not.mpr hstate)]
  have hall := (hrun.tail hshutdown).trans hrun₂
  have hinv₁ := (accounts_and_inv hnew hrun₀).2.1
  obtain ⟨hinv, hi, hcore, -, hleaving⟩ := hsurvives.run hinv₁ hstate₁ hrun₁ hstate
  have hclosing : Closing { s with state := .terminating } :=
    ⟨rfl, hpushers, .inl ⟨i, hi, hcore, hleaving⟩⟩
  have hclosed : Inv s' ∧ Closing s' := by
    apply hrun₂.invariant ⟨hinv.step hshutdown, hclosing⟩
    rintro s₂ e s₃ ⟨hinv₂, hclosing₂⟩ hstep
    exact ⟨hinv₂.step hstep, hclosing₂.step hinv₂ hstep⟩
  have hqueue : s'.workQueue = [] := by
    obtain ⟨j, hj, -⟩ | ⟨hqueue, -⟩ := hclosed.2.guarded
    · rw [hawaited.2] at hj
      cases hj
    · exact hqueue
  refine ⟨hqueue, ?_⟩
  obtain ⟨hacc, -, -⟩ := accounts_and_inv hnew hall
  have hheld := hacc.held
  rw [Pool.total, hawaited.2, Finset.sum_empty, add_zero] at hheld
  rw [← Multiset.coe_eq_coe, ← hheld, hacc.queue, hqueue, List.append_nil]

/-- A task that is put into the queue just before `shutdown` is run. -/
theorem all_run_of_awaited_task :
  let start : Pool Nat := { corePoolSize := 1, maxPoolSize := 1, keepAliveTimeMs := 0 }
  let opened := after start [.init, .init, .init, .init]
  let es : List (Event Nat) := [.execute (.client 0) 7, .call (.client 0), .call (.client 0)]
  let closing : Pool Nat := { after opened es with state := .terminating }
  let last := history closing (List.replicate 10 (.thread 0))
    ++ (after opened es, .shutdown) :: (history opened es
      ++ history start [.init, .init, .init, .init])
  accepted last = [7] ∧ (accepted last).Perm (finished last)
  := by
  intro start opened es closing last
  have hcalls : (after opened es).calls = Function.update (Function.update (Function.update
      (fun _ => none) (.client 0) (some (.checking 7))) (.client 0) (some (.pushing 7)))
      (.client 0) (some .sizing) := rfl
  have hnone : ∀ c task, (after opened es).calls c ≠ some (.pushing task) := by
    intro c task
    rw [hcalls, Function.update_idem, Function.update_idem, Function.update_apply]
    split_ifs <;> simp
  have hsurvives : Survives opened 0 := by
    refine ⟨by decide +kernel, by decide +kernel, by decide +kernel, by decide +kernel⟩
  have hrun₀ := run_history (show Feasible start [.init, .init, .init, .init] = true by
    decide +kernel)
  have hrun₁ := run_history (show Feasible opened es = true by decide +kernel)
  have hrun₂ := run_history (show Feasible closing (List.replicate 10 (.thread 0)) = true by
    decide +kernel)
  have hawaited : (after closing (List.replicate 10 (.thread 0))).Awaited := by
    exact ⟨by decide +kernel, by decide +kernel⟩
  have hall := all_run_of_awaited (show Pool.new 1 1 0 = some start from rfl) hrun₀
    (by decide +kernel) hsurvives hrun₁ (by decide +kernel)
    (fun c task hc => absurd hc (hnone c task)) hrun₂ hawaited
  exact ⟨by decide +kernel, hall.2⟩

end MiniOB.ThreadPool
