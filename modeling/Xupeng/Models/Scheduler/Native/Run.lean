import Xupeng.Models.Scheduler.Native.State

/-!
# The loop of a worker

A worker is a program counter in `run` with the local variables `cb_fiber` and
`idle_fiber`. `advance` executes the next statement of `run` that other threads
can observe. While a task or the idle fiber has the thread, the loop waits: the
task gives it back by `leave`, the idle fiber by `swapOutIdle`.

What a task is in the middle of is of type `A`, and where the idle fiber stands is
of type `I`. A class that overrides `idle` and `stopping` has its own.

With `use_caller` one worker is the thread that calls `stop`. It is dormant until
then, and asks `stopping()` in `stop` before it calls its root fiber.
-/

namespace Xupeng.Scheduler

/-- Where a worker stands. `own` tells that the fiber is its `cb_fiber`. -/
inductive Pc (C A I : Type)
  /-- The root fiber of `use_caller` has not been called, and `stop` neither. -/
  | dormant
  /-- In `stop`, before `m_stopping = true`: the first one or the second one. -/
  | stop (first : Bool)
  /-- In `stop`, in the call of `stopping()` that follows. -/
  | ask (first : Bool) (i : I)
  /-- Before the search of the queue. -/
  | search
  /-- An entry has been dequeued. -/
  | taken (ft : FiberAndThread C)
  /-- The entry has nothing to run, and the counter is to be decremented. -/
  | skip
  /-- Before `swapIn`. -/
  | swapIn (f : Nat) (own : Bool)
  /-- The task is running. -/
  | exec (f : Nat) (own : Bool) (a : A)
  /-- The task has set its state and is switching back. -/
  | swapOut (f : Nat) (own : Bool)
  /-- Before `--m_activeThreadCount`. -/
  | swapped (f : Nat) (own : Bool)
  /-- Before the test for `READY`. -/
  | isReady (f : Nat) (own : Bool)
  /-- Before `schedule` of the fiber that is ready. -/
  | requeue (f : Nat) (own : Bool)
  /-- Before the test for `TERM` and `EXCEPT`. -/
  | isEnded (f : Nat) (own : Bool)
  /-- Before `m_state = Fiber::HOLD`. -/
  | hold (f : Nat) (own : Bool)
  /-- The search has found nothing. -/
  | noTask
  /-- The idle fiber is running. -/
  | idle (i : I)
  /-- The idle fiber has switched back. -/
  | idleSwapped
  /-- `run` has returned. -/
  | done
  deriving DecidableEq, Repr

/-- A worker: its program counter, `cb_fiber` and the state of `idle_fiber`. -/
structure Worker (C A I : Type) where
  pc : Pc C A I
  cbFiber : Option Nat
  idleFiber : Fiber.State
  deriving DecidableEq, Repr

namespace Worker

variable {C A I : Type}

/-- A worker that is not in `run` yet, or at its start. -/
def new (pc : Pc C A I) : Worker C A I := ⟨pc, none, .INIT⟩

/-- Go on at `pc`. -/
def goto (pc : Pc C A I) (w : Worker C A I) : Worker C A I := { w with pc := pc }

/-- `cb_fiber.reset()`, if the fiber that was run is the one of the callbacks. -/
def dropIf (own : Bool) (w : Worker C A I) : Worker C A I :=
  if own then { w with cbFiber := none } else w

/-- A function of `Fiber` on the fiber `f`: go on at `pc`, or abort. -/
def onFiber (s : Scheduler C) (w : Worker C A I) (f : Nat) (a : Abort) (pc : Pc C A I) :
    Option (Fiber C) → Scheduler C × Worker C A I
  | some fiber => (s.setFiber f fiber, w.goto pc)
  | none => (s.fail a, w)

/-- What follows the dequeue of an entry. -/
def dispatch (s : Scheduler C) (w : Worker C A I) (ft : FiberAndThread C) :
    Scheduler C × Worker C A I :=
  match ft.fiber.filter fun f => !(s.fiber f).state.ended, ft.cb with
  | some f, _ => (s, w.goto (.swapIn f false))
  | none, some cb =>
    match w.cbFiber with
    | some f => w.onFiber s f .reset (.swapIn f true) ((s.fiber f).reset (some cb))
    | none =>
      (s.newFiber cb, ⟨.swapIn s.fibers.length true, some s.fibers.length, w.idleFiber⟩)
  | none, none => (s, w.goto .skip)

variable [Inhabited A] [Inhabited I]

/-- The next statement of the loop, on the worker with this thread id. -/
def advance (thread : Nat) (s : Scheduler C) (w : Worker C A I) :
    Option (Scheduler C × Worker C A I) :=
  match w.pc with
  | .stop first => some ({ s with stopping := true }, w.goto (.ask first default))
  | .search =>
    match s.search thread 0 s.queue with
    | .nothing => some (s, w.goto .noTask)
    | .null => some (s.fail .entry, w)
    | .entry i ft =>
      some ({ s with
        queue := s.queue.eraseIdx i
        activeThreadCount := s.activeThreadCount + 1 }, w.goto (.taken ft))
  | .taken ft => some (w.dispatch s ft)
  | .skip => some ({ s with activeThreadCount := s.activeThreadCount - 1 }, w.goto .search)
  | .swapIn f own => some (w.onFiber s f .swapIn (.exec f own default) (s.fiber f).swapIn)
  | .swapOut f own => some (s, w.goto (.swapped f own))
  | .swapped f own =>
    some ({ s with activeThreadCount := s.activeThreadCount - 1 }, w.goto (.isReady f own))
  | .isReady f own =>
    some (s, w.goto (if (s.fiber f).state = .READY then .requeue f own else .isEnded f own))
  | .requeue f own => some (s.schedule [⟨some f, none, none⟩], (w.dropIf own).goto .search)
  | .isEnded f own =>
    some (if !(s.fiber f).state.ended then (s, w.goto (.hold f own))
      else if own then w.onFiber s f .reset .search ((s.fiber f).reset none)
      else (s, w.goto .search))
  | .hold f own =>
    some (s.setFiber f { s.fiber f with state := .HOLD }, (w.dropIf own).goto .search)
  | .noTask =>
    some (if w.idleFiber = .TERM then (s, w.goto .done)
      else if w.idleFiber = .EXEC then (s.fail .swapIn, w)
      else (s, { w with pc := .idle default, idleFiber := .EXEC }))
  | .idleSwapped =>
    some (s, { w with
      pc := .search
      idleFiber := if w.idleFiber.ended then w.idleFiber else .HOLD })
  | .dormant | .ask .. | .exec .. | .idle _ | .done => none

/-- The running task gives the thread back. -/
def leave (exit : Fiber.Exit) (s : Scheduler C) (w : Worker C A I) :
    Option (Scheduler C × Worker C A I) :=
  match w.pc with
  | .exec f own _ => some (w.onFiber s f .yield (.swapOut f own) ((s.fiber f).leave exit))
  | _ => none

/-- The idle fiber gives the thread back, for good when `idle` has returned. -/
def swapOutIdle (returned : Bool) (w : Worker C A I) : Worker C A I :=
  { w with pc := .idleSwapped, idleFiber := if returned then .TERM else .EXEC }

/-- A call of `stopping()` in `stop` returns; after the second one the root fiber starts `run`. -/
def answer (first stopping : Bool) (w : Worker C A I) : Worker C A I :=
  if stopping then w.goto .done else if first then w.goto (.stop false) else .new .search

end Worker

end Xupeng.Scheduler
