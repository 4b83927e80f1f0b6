import Mathlib
import MiniOB.Lib.Run

/-!
# Thread pools

`ThreadPoolExecutor` of `common/thread/thread_pool_executor.cpp` with a `SimpleQueue`. The
threads of the pool and those that call it interleave: a step is one access to what they share.
-/

namespace MiniOB.ThreadPool

/-! ### The data -/

/-- `ThreadPoolExecutor::State`. -/
inductive PoolState where
  | new
  | running
  | terminating
  | terminated
  deriving DecidableEq, Repr

/-- The identity of a thread of the pool. -/
abbrev ThreadId := Nat

/-- Who calls the pool: a thread outside of it, or a thread of the pool from within its task. -/
inductive Caller where
  | client (n : Nat)
  | worker (i : ThreadId)
  deriving DecidableEq, Repr

/-- Where a thread of the pool stands in `thread_func`. -/
inductive Point (T : Type) where
  /-- It looks itself up in `threads_`. -/
  | starting
  /-- It tests the condition of the loop. -/
  | looping
  | popping
  /-- It has a task, and counts itself active. -/
  | taken (task : T)
  | running (task : T)
  | returned
  /-- It counts its task, and sets its deadline. -/
  | counting
  /-- It tests whether the pool runs. -/
  | checking
  /-- It tests whether the queue is empty. -/
  | measuring
  /-- It has left the loop. -/
  | leaving
  deriving DecidableEq, Repr

/-- `ThreadData::core_thread` and the local variables of `thread_func`. -/
structure Thread (T : Type) where
  core : Bool
  idleDeadline : Int := 0
  point : Point T := .starting
  deriving DecidableEq, Repr

/-- Where a call of `execute` stands, up to the end of its `extend_thread`. -/
inductive Call (T : Type) where
  | checking (task : T)
  | pushing (task : T)
  /-- It reads the size of the queue, then that of the pool, then the number of active threads. -/
  | sizing
  | sized (taskSize : Nat)
  | pooled (taskSize poolSize : Nat)
  /-- It wants the lock for `extend_thread`. -/
  | extending
  | locked
  | lockedSized (taskSize : Nat)
  deriving DecidableEq, Repr

/-- Where `init` stands. -/
inductive InitCall where
  /-- It compares the number of the threads with `core_pool_size_`. -/
  | growing
  | creating
  | opening
  | done
  deriving DecidableEq, Repr

/-- `ThreadPoolExecutor`, with the calls that have not returned, the holder of `lock_` and the
time. -/
structure Pool (T : Type) where
  state : PoolState := .new
  corePoolSize : Int
  maxPoolSize : Int
  keepAliveTimeMs : Int
  workQueue : List T := []
  /-- The keys of `threads_`. -/
  ids : Finset ThreadId := ∅
  thread : ThreadId → Thread T := fun _ => { core := false }
  /-- The number of threads that have been created. -/
  created : ThreadId := 0
  largestPoolSize : Nat := 0
  taskCount : Nat := 0
  activeCount : Int := 0
  lock : Option Caller := none
  init : InitCall := .growing
  calls : Caller → Option (Call T) := fun _ => none
  now : Int := 0

variable {T : Type}

/-- `ThreadPoolExecutor::init` as far as its loop. -/
def Pool.new (corePoolSize maxPoolSize keepAliveTimeMs : Int) : Option (Pool T) :=
  if corePoolSize < 0 ∨ maxPoolSize ≤ 0 ∨ corePoolSize > maxPoolSize then none
  else some { corePoolSize, maxPoolSize, keepAliveTimeMs }

/-! ### The steps -/

/-- `ThreadPoolExecutor::pool_size`. -/
def Pool.poolSize (s : Pool T) : Nat := s.ids.card

/-- Replace a thread. -/
def Pool.setThread (s : Pool T) (i : ThreadId) (thread : Thread T) : Pool T :=
  { s with thread := Function.update s.thread i thread }

/-- Replace a call, or end it. -/
def Pool.setCall (s : Pool T) (c : Caller) (call : Option (Call T)) : Pool T :=
  { s with calls := Function.update s.calls c call }

/-- `ThreadPoolExecutor::create_thread_locked`. -/
def Pool.createThread (s : Pool T) (core : Bool) : Pool T :=
  let ids := insert s.created s.ids
  { s with
    ids
    thread := Function.update s.thread s.created { core }
    created := s.created + 1
    largestPoolSize := max s.largestPoolSize ids.card }

/-- The next step of `init`. -/
def Pool.stepInit (s : Pool T) : Option (Pool T) :=
  match s.init with
  | .growing => some { s with init := if s.poolSize < s.corePoolSize then .creating else .opening }
  | .creating => if s.lock = none then some { s.createThread true with init := .growing } else none
  | .opening => some { s with state := .running, init := .done }
  | .done => none

/-- The next step of a thread of the pool. A task ends when its calls have returned. -/
def Pool.stepThread (s : Pool T) (i : ThreadId) : Option (Pool T) :=
  let thread := s.thread i
  if i ∈ s.ids then
    match thread.point with
    | .starting =>
      let wait := if thread.core = false ∧ 0 < s.keepAliveTimeMs then s.keepAliveTimeMs else 0
      if s.lock = none then
        some (s.setThread i { thread with idleDeadline := s.now + wait, point := .looping })
      else none
    | .looping =>
      some (s.setThread i { thread with
        point := if thread.core = true ∨ s.now < thread.idleDeadline then .popping else .leaving })
    | .popping =>
      match s.workQueue with
      | [] => some (s.setThread i { thread with point := .checking })
      | task :: workQueue =>
        some { s.setThread i { thread with point := .taken task } with workQueue }
    | .taken task =>
      some { s.setThread i { thread with point := .running task } with
        activeCount := s.activeCount + 1 }
    | .running _ =>
      if s.calls (.worker i) = none then some (s.setThread i { thread with point := .returned })
      else none
    | .returned =>
      some { s.setThread i { thread with point := .counting } with
        activeCount := s.activeCount - 1 }
    | .counting =>
      let idleDeadline :=
        if 0 < s.keepAliveTimeMs then s.now + s.keepAliveTimeMs else thread.idleDeadline
      some { s.setThread i { thread with idleDeadline, point := .checking } with
        taskCount := s.taskCount + 1 }
    | .checking =>
      some (s.setThread i { thread with
        point := if s.state ≠ .running then .measuring else .looping })
    | .measuring =>
      some (s.setThread i { thread with
        point := if s.workQueue = [] then .leaving else .looping })
    | .leaving => if s.lock = none then some { s with ids := s.ids.erase i } else none
  else none

/-- The next step of a call of `execute`. -/
def Pool.stepCall (s : Pool T) (c : Caller) : Option (Pool T) :=
  match s.calls c with
  | none => none
  | some (.checking task) =>
    some (s.setCall c (if s.state ≠ .running then none else some (.pushing task)))
  | some (.pushing task) =>
    some { s.setCall c (some .sizing) with workQueue := s.workQueue ++ [task] }
  | some .sizing => some (s.setCall c (some (.sized s.workQueue.length)))
  | some (.sized taskSize) => some (s.setCall c (some (.pooled taskSize s.poolSize)))
  | some (.pooled taskSize poolSize) =>
    some (s.setCall c
      (if (taskSize : Int) > poolSize - s.activeCount then some .extending else none))
  | some .extending =>
    if s.lock = none then some { s.setCall c (some .locked) with lock := some c } else none
  | some .locked =>
    if (s.poolSize : Int) ≥ s.maxPoolSize then some { s.setCall c none with lock := none }
    else some (s.setCall c (some (.lockedSized s.workQueue.length)))
  | some (.lockedSized taskSize) =>
    if (taskSize : Int) ≤ s.poolSize - s.activeCount then some { s.setCall c none with lock := none }
    else some { (s.setCall c none).createThread false with lock := none }

/-- The caller can call `execute`: it is not in a call of it, and a thread of the pool is in its
task. -/
def Pool.CanCall (s : Pool T) (c : Caller) : Prop :=
  s.calls c = none ∧ match c with
    | .client _ => True
    | .worker i => i ∈ s.ids ∧ match (s.thread i).point with
      | .running _ => True
      | _ => False

instance (s : Pool T) (c : Caller) : Decidable (s.CanCall c) :=
  match c with
  | .client _ => inferInstanceAs (Decidable (_ ∧ True))
  | .worker i =>
    match h : (s.thread i).point with
    | .running _ =>
      decidable_of_iff (s.calls (.worker i) = none ∧ i ∈ s.ids) (by simp [Pool.CanCall, h])
    | .starting | .looping | .popping | .taken _ | .returned | .counting | .checking | .measuring
    | .leaving => isFalse (by simp [Pool.CanCall, h])

/-- What happens: time passes, `init` or a thread of the pool goes on, `execute` is called or goes
on, or `shutdown` is called. -/
inductive Event (T : Type) where
  | tick (ms : Nat)
  | init
  | thread (i : ThreadId)
  | execute (c : Caller) (task : T)
  | call (c : Caller)
  | shutdown
  deriving DecidableEq, Repr

/-- The pool after an event, if that can happen. -/
def Pool.step (s : Pool T) : Event T → Option (Pool T)
  | .tick ms => some { s with now := s.now + ms }
  | .init => s.stepInit
  | .thread i => s.stepThread i
  | .execute c task => if s.CanCall c then some (s.setCall c (some (.checking task))) else none
  | .call c => s.stepCall c
  | .shutdown => some (if s.state ≠ .running then s else { s with state := .terminating })

/-- `ThreadPoolExecutor::await_termination` returns 0. -/
def Pool.Awaited (s : Pool T) : Prop := s.state = .terminating ∧ s.ids = ∅

end MiniOB.ThreadPool
