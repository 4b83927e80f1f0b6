import MiniOB.Thread.Effect

/-!
# The tasks of the thread pool

Every task that is accepted is taken from the queue once, in the order in which the tasks were
accepted, and run once by the thread that has taken it. The counters of the pool say how many
threads are in a task, how many tasks have been run, and how large the pool has been.
-/

namespace MiniOB.ThreadPool

open Transition

variable {T : Type} {s s' s₀ : Pool T}

/-- A step of the pool. -/
def Step (s : Pool T) (e : Event T) (s' : Pool T) : Prop := s.step e = some s'

/-! ### What the history says -/

/-- The task that a step puts into the queue. -/
def pushed (x : Pool T × Event T) : Option T :=
  match x.2 with
  | .call c =>
    match x.1.calls c with
    | some (.pushing task) => some task
    | _ => none
  | _ => none

/-- The task that a step takes from the queue. -/
def popped (x : Pool T × Event T) : Option T :=
  match x.2 with
  | .thread i =>
    match (x.1.thread i).point with
    | .popping => x.1.workQueue.head?
    | _ => none
  | _ => none

/-- The task that ends with a step. -/
def ran (x : Pool T × Event T) : Option T :=
  match x.2 with
  | .thread i =>
    match (x.1.thread i).point with
    | .running task => some task
    | _ => none
  | _ => none

/-- The tasks that have been accepted, in their order. -/
def accepted (h : List (Pool T × Event T)) : List T := (h.filterMap pushed).reverse

/-- The tasks that have been taken from the queue, in their order. -/
def started (h : List (Pool T × Event T)) : List T := (h.filterMap popped).reverse

/-- The tasks that have been run, in the order of their ends. -/
def finished (h : List (Pool T × Event T)) : List T := (h.filterMap ran).reverse

variable (x : Pool T × Event T) (h : List (Pool T × Event T))

theorem accepted_cons :
  accepted (x :: h) = accepted h ++ (pushed x).toList
  := by
  cases hx : pushed x <;> simp [accepted, hx]

theorem started_cons :
  started (x :: h) = started h ++ (popped x).toList
  := by
  cases hx : popped x <;> simp [started, hx]

theorem finished_cons :
  finished (x :: h) = finished h ++ (ran x).toList
  := by
  cases hx : ran x <;> simp [finished, hx]

/-! ### Sums over the threads -/

/-- The task that a thread has taken and not ended. -/
def Point.held : Point T → Multiset T
  | .taken task => {task}
  | .running task => {task}
  | _ => 0

/-- A thread is counted active. -/
def Point.active : Point T → Int
  | .running _ => 1
  | .returned => 1
  | _ => 0

/-- A thread has run a task and not counted it yet. -/
def Point.uncounted : Point T → Nat
  | .returned => 1
  | .counting => 1
  | _ => 0

/-- A quantity, summed over the threads of the pool. -/
def Pool.total {M : Type} [AddCommMonoid M] (s : Pool T) (f : Point T → M) : M :=
  ∑ i ∈ s.ids, f (s.thread i).point

section

variable {M : Type} [AddCommMonoid M] (f : Point T → M) {i : ThreadId}

theorem total_eq (hi : i ∈ s.ids) :
  s.total f = f (s.thread i).point + ∑ j ∈ s.ids.erase i, f (s.thread j).point
  := (Finset.add_sum_erase _ _ hi).symm

theorem total_setThread (hi : i ∈ s.ids) (thread : Thread T) :
  (s.setThread i thread).total f = f thread.point + ∑ j ∈ s.ids.erase i, f (s.thread j).point
  := by
  rw [total_eq f (s := s.setThread i thread) hi]
  congr 1
  · simp [Pool.setThread]
  · apply Finset.sum_congr rfl
    intro j hj
    simp [Pool.setThread, Finset.ne_of_mem_erase hj]

/-- A thread that goes from one point to another of the same weight. -/
theorem total_setThread_same (hi : i ∈ s.ids) {thread : Thread T}
    (hsame : f thread.point = f (s.thread i).point) :
  (s.setThread i thread).total f = s.total f
  := by
  rw [total_setThread f hi, total_eq f hi, hsame]

theorem total_createThread (hinv : Inv s) (core : Bool) (hzero : f .starting = 0) :
  (s.createThread core).total f = s.total f
  := by
  have hfresh : s.created ∉ s.ids := fun hmem => (hinv.below _ hmem).ne rfl
  rw [Pool.total, Pool.createThread, Finset.sum_insert hfresh]
  simp only [Function.update_self, hzero, zero_add]
  apply Finset.sum_congr rfl
  intro j hj
  have hne : j ≠ s.created := (hinv.below j hj).ne
  simp [hne]

end

/-- What the weights of a thread are that only turns. -/
theorem Turns.weightless {core : Bool} {point point' : Point T} (h : Turns s core point point') :
  (point.held = 0 ∧ point.active = 0 ∧ point.uncounted = 0)
    ∧ point'.held = 0 ∧ point'.active = 0 ∧ point'.uncounted = 0
  := by
  cases h <;> exact ⟨⟨rfl, rfl, rfl⟩, rfl, rfl, rfl⟩

/-! ### The accounts -/

/-- The tasks and the counters belong together. -/
structure Accounts (h : List (Pool T × Event T)) (s : Pool T) : Prop where
  queue : accepted h = started h ++ s.workQueue
  held : (started h : Multiset T) = (finished h : Multiset T) + s.total Point.held
  active : s.activeCount = s.total Point.active
  count : (finished h).length = s.taskCount + s.total Point.uncounted
  largest : s.largestPoolSize = (s.poolSize :: h.map (·.1.poolSize)).foldr max 0

theorem accounts_new {corePoolSize maxPoolSize keepAliveTimeMs : Int}
    (h : Pool.new corePoolSize maxPoolSize keepAliveTimeMs = some s) :
  Accounts [] s
  := by
  rw [Pool.new] at h
  split_ifs at h
  cases h
  constructor <;> simp [accepted, started, finished, Pool.total, Pool.poolSize]

variable {h}

/-- A step in which no thread takes or ends a task. -/
theorem Accounts.of_same (hacc : Accounts h s) {e : Event T}
    (hqueue : s'.workQueue = s.workQueue ++ (pushed (s, e)).toList)
    (hpopped : popped (s, e) = none) (hran : ran (s, e) = none) (hheld : s'.total Point.held = s.total Point.held)
    (hactive : s'.activeCount = s'.total Point.active)
    (hcount : s'.taskCount + s'.total Point.uncounted = s.taskCount + s.total Point.uncounted)
    (hlargest : s'.largestPoolSize = max s.largestPoolSize s'.poolSize) :
  Accounts ((s, e) :: h) s'
  := by
  constructor
  · rw [accepted_cons, started_cons, hpopped, hqueue, hacc.queue]
    simp
  · rw [started_cons, finished_cons, hpopped, hran, hheld]
    simpa using hacc.held
  · exact hactive
  · rw [finished_cons, hran, hcount]
    simpa using hacc.count
  · rw [hlargest, hacc.largest, List.map_cons, List.foldr_cons (a := s'.poolSize), max_comm]

theorem Accounts.size_le (hacc : Accounts h s) :
  s.poolSize ≤ s.largestPoolSize
  := by
  rw [hacc.largest]
  exact le_max_left _ _

/-- A step of a thread, from one point to another. -/
theorem Accounts.of_thread (hacc : Accounts h s) {i : ThreadId} (hi : i ∈ s.ids)
    {thread : Thread T} (hids : s'.ids = s.ids)
    (hthread : s'.thread = Function.update s.thread i thread)
    (hlargest : s'.largestPoolSize = s.largestPoolSize)
    (hqueue : s.workQueue = (popped (s, .thread i)).toList ++ s'.workQueue)
    (hheld : (s.thread i).point.held + ((popped (s, .thread i)).toList : Multiset T)
      = thread.point.held + ((ran (s, .thread i)).toList : Multiset T))
    (hactive : s'.activeCount + (s.thread i).point.active = s.activeCount + thread.point.active)
    (hcount : (ran (s, .thread i)).toList.length + s.taskCount + (s.thread i).point.uncounted
      = s'.taskCount + thread.point.uncounted) :
  Accounts ((s, .thread i) :: h) s'
  := by
  have htotal' : ∀ {M : Type} [AddCommMonoid M] (f : Point T → M),
      s'.total f = f thread.point + ∑ j ∈ s.ids.erase i, f (s.thread j).point := by
    intro M _ f
    rw [← total_setThread f hi, Pool.total, Pool.total, hids, hthread]
    rfl
  constructor
  · rw [accepted_cons, started_cons, hacc.queue, hqueue]
    simp [pushed]
  · have hsum := hacc.held
    rw [total_eq Point.held hi] at hsum
    rw [started_cons, finished_cons, ← Multiset.coe_add, ← Multiset.coe_add, hsum, htotal']
    calc _ = (finished h : Multiset T) + ((s.thread i).point.held + (popped (s, .thread i)).toList)
          + ∑ j ∈ s.ids.erase i, (s.thread j).point.held := by abel
      _ = _ := by
        rw [hheld]
        abel
  · have hsum := hacc.active
    rw [total_eq Point.active hi] at hsum
    rw [htotal']
    omega
  · have hsum := hacc.count
    rw [total_eq Point.uncounted hi] at hsum
    rw [finished_cons, List.length_append, htotal']
    omega
  · have hsize : s'.poolSize = s.poolSize := congrArg Finset.card hids
    rw [hlargest, hsize, List.map_cons, List.foldr_cons (a := _), ← hacc.largest]
    exact (max_eq_right hacc.size_le).symm

theorem Accounts.step (hacc : Accounts h s) (hinv : Inv s) {e : Event T} (hstep : Step s e s') :
  Accounts ((s, e) :: h) s'
  := by
  have hmax : s.largestPoolSize = max s.largestPoolSize s.poolSize := (max_eq_left hacc.size_le).symm
  have hcreate : ∀ {s₁ : Pool T} (core : Bool), Inv s₁ → ∀ {M : Type} [AddCommMonoid M]
      (f : Point T → M), f .starting = 0 → (s₁.createThread core).total f = s₁.total f :=
    fun core hinv₁ _ _ f hzero => total_createThread f hinv₁ core hzero
  have hsame : s.workQueue = s.workQueue ++ [] := (List.append_nil _).symm
  cases step_effect hstep with
  | tick ms => exact hacc.of_same hsame rfl rfl rfl hacc.active rfl hmax
  | grow _ _ => exact hacc.of_same hsame rfl rfl rfl hacc.active rfl hmax
  | grown _ => exact hacc.of_same hsame rfl rfl rfl hacc.active rfl hmax
  | «open» _ => exact hacc.of_same hsame rfl rfl rfl hacc.active rfl hmax
  | shutdown _ => exact hacc.of_same hsame rfl rfl rfl hacc.active rfl hmax
  | none _ => exact hacc.of_same hsame rfl rfl rfl hacc.active rfl hmax
  | execute c task _ => exact hacc.of_same hsame rfl rfl rfl hacc.active rfl hmax
  | create _ _ =>
    exact hacc.of_same hsame rfl rfl (hcreate true hinv Point.held rfl)
      (hacc.active.trans (hcreate true hinv Point.active rfl).symm)
      (congrArg (s.taskCount + ·) (hcreate true hinv Point.uncounted rfl)) rfl
  | turn i idleDeadline point hi hturn =>
    obtain ⟨⟨hheld, hactive, hcount⟩, hheld', hactive', hcount'⟩ := hturn.weightless
    obtain ⟨hpopped, hran⟩ : popped (s, .thread i) = none ∧ ran (s, .thread i) = none := by
      generalize hpoint : (s.thread i).point = point₀ at hturn
      cases hturn with
      | empty hqueue => simp [popped, ran, hpoint, hqueue]
      | _ => simp [popped, ran, hpoint]
    refine hacc.of_thread hi rfl rfl rfl ?_ ?_ ?_ ?_
    · rw [hpopped]
      rfl
    · rw [hpopped, hran, hheld, hheld']
    · rw [hactive, hactive']
      rfl
    · rw [hran, hcount, hcount']
      simp [Pool.setThread]
  | take i task workQueue hi hpoint hqueue =>
    refine hacc.of_thread hi rfl rfl rfl ?_ ?_ ?_ ?_
    all_goals simp [popped, ran, Pool.setThread, Point.held, Point.active, Point.uncounted, hpoint,
      hqueue]
  | begin i task hi hpoint =>
    refine hacc.of_thread hi rfl rfl rfl ?_ ?_ ?_ ?_
    all_goals simp [popped, ran, Pool.setThread, Point.held, Point.active, Point.uncounted, hpoint]
  | «return» i task hi hpoint hcalls =>
    refine hacc.of_thread hi rfl rfl rfl ?_ ?_ ?_ ?_
    all_goals simp [popped, ran, Pool.setThread, Point.held, Point.active, Point.uncounted, hpoint]
    omega
  | rest i hi hpoint =>
    refine hacc.of_thread hi rfl rfl rfl ?_ ?_ ?_ ?_
    all_goals simp [popped, ran, Pool.setThread, Point.held, Point.active, Point.uncounted, hpoint]
  | count i idleDeadline hi hpoint =>
    refine hacc.of_thread hi rfl rfl rfl ?_ ?_ ?_ ?_
    all_goals simp [popped, ran, Pool.setThread, Point.held, Point.active, Point.uncounted, hpoint]
  | leave i hi hpoint =>
    -- a thread that leaves has nothing left to do
    have htotal : ∀ {M : Type} [AddCommMonoid M] (f : Point T → M), f .leaving = 0 →
        ∑ j ∈ s.ids.erase i, f (s.thread j).point = s.total f := by
      intro M _ f hzero
      rw [total_eq f hi, hpoint, hzero, zero_add]
    have hsize : (s.ids.erase i).card ≤ s.largestPoolSize :=
      (Finset.card_le_card (Finset.erase_subset i s.ids)).trans hacc.size_le
    exact hacc.of_same hsame (by simp [popped, hpoint]) (by simp [ran, hpoint])
      (htotal Point.held rfl) (hacc.active.trans (htotal Point.active rfl).symm)
      (congrArg (s.taskCount + ·) (htotal Point.uncounted rfl)) (max_eq_left hsize).symm
  | call c call call' hc hturn =>
    have hpushed : pushed (s, .call c) = none := by
      cases hturn <;> simp [pushed, hc]
    exact hacc.of_same (by rw [hpushed]; exact hsame) rfl rfl rfl hacc.active rfl hmax
  | push c task hc =>
    have hpushed : pushed (s, .call c) = some task := by simp [pushed, hc]
    exact hacc.of_same (by rw [hpushed]; rfl) rfl rfl rfl hacc.active rfl hmax
  | lock c hc _ =>
    have hpushed : pushed (s, .call c) = none := by simp [pushed, hc]
    exact hacc.of_same (by rw [hpushed]; exact hsame) rfl rfl rfl hacc.active rfl hmax
  | measure c n hc _ =>
    have hpushed : pushed (s, .call c) = none := by simp [pushed, hc]
    exact hacc.of_same (by rw [hpushed]; exact hsame) rfl rfl rfl hacc.active rfl hmax
  | unlock c hc =>
    have hpushed : pushed (s, .call c) = none := by
      obtain hc | ⟨n, hc⟩ := hc <;> simp [pushed, hc]
    exact hacc.of_same (by rw [hpushed]; exact hsame) rfl rfl rfl hacc.active rfl hmax
  | extend c n hc =>
    have hpushed : pushed (s, .call c) = none := by simp [pushed, hc]
    have hinv' := (hinv.unlock (.inr ⟨n, hc⟩)).1
    exact hacc.of_same (by rw [hpushed]; exact hsame) rfl rfl (hcreate false hinv' Point.held rfl)
      (hacc.active.trans (hcreate false hinv' Point.active rfl).symm)
      (congrArg (s.taskCount + ·) (hcreate false hinv' Point.uncounted rfl)) rfl

/-! ### Along the runs -/

theorem maxPoolSize_step {e : Event T} (hstep : Step s e s') :
  s'.maxPoolSize = s.maxPoolSize
  := by
  cases step_effect hstep <;> rfl

theorem accounts_and_inv {corePoolSize maxPoolSize keepAliveTimeMs : Int}
    (hnew : Pool.new corePoolSize maxPoolSize keepAliveTimeMs = some s₀)
    (hrun : Run Step s₀ h s) :
  Accounts h s ∧ Inv s ∧ s.maxPoolSize = maxPoolSize
  := by
  apply hrun.invariant_history
  · refine ⟨accounts_new hnew, inv_new hnew, ?_⟩
    rw [Pool.new] at hnew
    split_ifs at hnew
    cases hnew
    rfl
  · rintro h s e s' ⟨hacc, hinv, hmax⟩ hstep
    exact ⟨hacc.step hinv hstep, hinv.step hstep, (maxPoolSize_step hstep).trans hmax⟩

/-- In every interleaving of the threads of the pool and of its callers, the tasks that are
accepted are taken in their order, and each of them waits in the queue, is held by one thread or
has been run, once; the counters say how many threads are in a task, how many tasks have been run
and how large the pool has been, and it is never larger than `max_pool_size_`. -/
theorem tasks_of_run {corePoolSize maxPoolSize keepAliveTimeMs : Int}
    (hnew : Pool.new corePoolSize maxPoolSize keepAliveTimeMs = some s₀)
    (hrun : Run Step s₀ h s) :
  accepted h = started h ++ s.workQueue
    ∧ (started h : Multiset T) = (finished h : Multiset T) + s.total Point.held
    ∧ s.activeCount = s.total Point.active
    ∧ (finished h).length = s.taskCount + s.total Point.uncounted
    ∧ s.largestPoolSize = (s.poolSize :: h.map (·.1.poolSize)).foldr max 0
    ∧ (s.poolSize : Int) ≤ maxPoolSize
  := by
  obtain ⟨hacc, hinv, hmax⟩ := accounts_and_inv hnew hrun
  refine ⟨hacc.queue, hacc.held, hacc.active, hacc.count, hacc.largest, ?_⟩
  rw [← hmax]
  exact hinv.size_le

/-! ### Executing events -/

/-- The pool after the events that can happen. -/
def after (s : Pool T) (es : List (Event T)) : Pool T :=
  es.foldl (fun s e => (s.step e).getD s) s

/-- The history of events. -/
def history : Pool T → List (Event T) → List (Pool T × Event T)
  | _, [] => []
  | s, e :: es => history ((s.step e).getD s) es ++ [(s, e)]

/-- The events can happen one after the other. -/
def Feasible : Pool T → List (Event T) → Bool
  | _, [] => true
  | s, e :: es => (s.step e).isSome && Feasible ((s.step e).getD s) es

theorem run_history {es : List (Event T)} (hes : Feasible s es = true) :
  Run Step s (history s es) (after s es)
  := by
  induction es generalizing s with
  | nil => exact .refl
  | cons e es ih =>
    obtain ⟨hhead, htail⟩ := Bool.and_eq_true_iff.mp hes
    obtain ⟨s', hstep⟩ := Option.isSome_iff_exists.mp hhead
    have hfirst : Run Step s [(s, e)] ((s.step e).getD s) := by
      refine Run.refl.tail ?_
      rw [Step, hstep]
      rfl
    exact hfirst.trans (ih htail)

/-- The two threads of a pool and the two tasks of its callers. -/
theorem tasks_of_run_two :
  let start : Pool Nat := { corePoolSize := 1, maxPoolSize := 2, keepAliveTimeMs := 5 }
  let es : List (Event Nat) := List.replicate 4 .init ++ [.execute (.client 0) 7, .call (.client 0),
    .call (.client 0), .execute (.client 1) 8, .call (.client 1), .call (.client 1)]
    ++ List.replicate 4 (.thread 0)
  Feasible start es = true
    ∧ accepted (history start es) = started (history start es) ++ (after start es).workQueue
    ∧ accepted (history start es) = [7, 8]
  := by
  intro start es
  have hes : Feasible start es = true := by decide +kernel
  have hnew : Pool.new 1 2 5 = some start := rfl
  exact ⟨hes, (tasks_of_run hnew (run_history hes)).1, by decide +kernel⟩

end MiniOB.ThreadPool
