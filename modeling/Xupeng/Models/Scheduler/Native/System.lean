import Xupeng.Core.Run
import Xupeng.Models.Scheduler.Native.Run

/-!
# The scheduler with its workers

The members of a plain `Scheduler`, its workers in `run`, and code outside that
calls `schedule` and `stop`. What a running task does between two switches is to
call `schedule` and to make fibers, any number of times. `idle` and `stop` ask
`stopping()` in one section.
-/

namespace Xupeng.Scheduler

/-- The argument of `schedule`: a `Fiber::ptr` or a function, and either can be null. -/
inductive FiberOrCb (C : Type)
  | fiber (f : Option Nat)
  | cb (cb : Option C)
  deriving DecidableEq, Repr

/-- What code that uses the scheduler does. -/
inductive Act (C : Type)
  /-- `schedule(fc, thread)` -/
  | schedule (fc : FiberOrCb C) (thread : Option Nat)
  /-- `schedule(begin, end)` -/
  | scheduleAll (fcs : List (FiberOrCb C))
  /-- `new Fiber(cb)` -/
  | newFiber (cb : C)
  deriving DecidableEq, Repr

/-- What a worker does next. -/
inductive Move (C : Type)
  /-- The next statement of `run` or `stop`. -/
  | advance
  /-- The running task uses the scheduler. -/
  | act (a : Act C)
  /-- The running task gives the thread back. -/
  | leave (exit : Fiber.Exit)
  /-- The call of `stopping()` in `idle` or `stop`. -/
  | probe
  deriving DecidableEq, Repr

variable {C : Type}

/-- `FiberAndThread(fc, thread)` -/
def FiberOrCb.entry (thread : Option Nat) : FiberOrCb C → FiberAndThread C
  | .fiber f => ⟨f, none, thread⟩
  | .cb c => ⟨none, c, thread⟩

namespace Act

/-- The entries that the call makes, before null ones are dropped. -/
def entries : Act C → List (FiberAndThread C)
  | .schedule fc thread => [fc.entry thread]
  | .scheduleAll fcs => fcs.map (·.entry none)
  | .newFiber _ => []

/-- Let the call happen; a pointer that is passed points to a fiber. -/
def apply (s : Scheduler C) : Act C → Option (Scheduler C)
  | .newFiber cb => some (s.newFiber cb)
  | a =>
    if ∀ ft ∈ a.entries, ∀ f ∈ ft.fiber, f < s.fibers.length then some (s.schedule a.entries)
    else none

end Act

namespace Worker

/-- A step of the worker with this thread id. -/
def move (thread : Nat) (s : Scheduler C) (w : Worker C Unit Unit) :
    Move C → Option (Scheduler C × Worker C Unit Unit)
  | .advance => w.advance thread s
  | .act a =>
    match w.pc with
    | .exec .. => (a.apply s).map (·, w)
    | _ => none
  | .leave exit => w.leave exit s
  | .probe =>
    match w.pc with
    | .idle _ => some (s, w.swapOutIdle s.isStopping)
    | .ask first _ => some (s, w.answer first s.isStopping)
    | _ => none

/-- With `use_caller` the call of `stop` goes on in the worker that has been dormant. -/
def callStop {A I : Type} (alone : Bool) (w : Worker C A I) : Worker C A I :=
  match w.pc with
  | .dormant => w.goto (.stop alone)
  | _ => w

end Worker

/-- The scheduler and its workers. -/
structure System (C : Type) where
  scheduler : Scheduler C
  /-- The worker at index `i` has thread id `i`. -/
  workers : List (Worker C Unit Unit)
  /-- Whether the worker 0 is the thread that calls `stop`. -/
  useCaller : Bool
  deriving DecidableEq, Repr

/-- The steps of the whole. -/
inductive System.Step (C : Type)
  | worker (i : Nat) (mv : Move C)
  /-- A thread that is no worker uses the scheduler. -/
  | outside (a : Act C)
  /-- `stop` is called: `m_autoStop = true`. -/
  | stop
  /-- `m_stopping = true`, when the caller of `stop` is no worker. -/
  | setStopping
  deriving DecidableEq, Repr

namespace System

/-- The scheduler after `start`. -/
def init (threads : Nat) (use_caller : Bool) : System C where
  scheduler := .started
  workers := (List.range threads).map fun i =>
    .new (if use_caller ∧ i = 0 then .dormant else .search)
  useCaller := use_caller

/-- One step; none is possible after an abort. -/
def step (s : System C) (a : Step C) : Option (System C) :=
  if s.scheduler.abort.isSome then none
  else
    match a with
    | .worker i mv => do
      let w ← s.workers[i]?
      let r ← w.move i s.scheduler mv
      some { s with scheduler := r.1, workers := s.workers.set i r.2 }
    | .outside a => (a.apply s.scheduler).map fun scheduler => { s with scheduler := scheduler }
    | .stop =>
      if s.scheduler.autoStop then none
      else
        some { s with
          scheduler := { s.scheduler with autoStop := true }
          -- `m_threadCount` is 0 when worker 0 is the only one
          workers := s.workers.map (·.callStop (s.workers.length = 1)) }
    | .setStopping =>
      if s.scheduler.autoStop && !s.useCaller then
        some { s with scheduler := { s.scheduler with stopping := true } }
      else none

end System

end Xupeng.Scheduler
