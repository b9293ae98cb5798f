import Xupeng.Models.IOManager.Native.Manager
import Xupeng.Models.Timer.Interpretation.Operations

/-!
# Wakeups through the pipe

`schedule`, `run`, `stop` and the timers call `tickle`, which writes a byte into the
pipe `m_tickleFds` if `m_idleThreadCount` is not zero. The read end is registered with
`EPOLLIN | EPOLLET`: a write puts it on the ready list of `m_epfd`, and the call of
`epoll_wait` that reports it takes it off. The worker that gets it empties the pipe in
its loop over the batch.

A thread that has to call `tickle` does that before its next step in `Manager`, first
the test of the counter and then the write.
-/

namespace Xupeng

namespace Scheduler

variable {C : Type}

/-- `scheduleNoLock` for one entry after the other: whether one of them met an empty queue. -/
def needTickle : List (FiberAndThread C) → Scheduler C → Bool
  | [], _ => false
  | ft :: fts, s => s.queue.isEmpty || needTickle fts (s.schedule [ft])

/-- `tickle_me`: whether the search on a thread passes over an entry for another thread. -/
def tickleMe (s : Scheduler C) (thread : Nat) : List (FiberAndThread C) → Bool
  | [] => false
  | it :: rest =>
    if it.thread ≠ none ∧ it.thread ≠ some thread then true
    else if it.fiber = none ∧ it.cb = none then false
    else if it.fiber.any fun f => (s.fiber f).state = .EXEC then s.tickleMe thread rest
    else false

end Scheduler

namespace IOManager

variable {C : Type}

/-! ## Who calls `tickle` -/

/-- The threads. -/
inductive Thread
  | worker (i : Nat)
  | outside (i : Nat)
  /-- The thread that calls `stop`, when it is no worker. -/
  | stopper
  deriving DecidableEq, Repr

/-- Whether an effect calls `tickle`. -/
def Members.effectTickles (m : Members C) : Effect Target Nat C → Bool
  | .schedule .this task => m.scheduler.needTickle [task.entry]
  | _ => false

/-- Whether a step of code that uses the manager calls `tickle`. -/
def Members.tickles (m : Members C) : Activity C → Act C → Bool
  | .owed [], .schedule fts => m.scheduler.needTickle fts
  | .owed [], .addTimer addr now ms cb recurring => (m.timers.addTimer addr now ms cb recurring).2
  | .owed [], .reset timer ms from_now now => m.timers.notifies (.reset timer ms from_now now)
  | .owed (e :: _), .effect => m.effectTickles e
  | _, _ => false

/-- How often a step of the worker calls `tickle`, among `threads` workers. -/
def Worker.tickles (threads thread : Nat) (m : Members C) (w : Worker C) : Move C → Nat
  | .advance =>
    match w.pc with
    -- once for each of the `m_threadCount` other workers and once for the root fiber
    | .stop false => threads
    | .search => (m.scheduler.tickleMe thread m.scheduler.queue).toNat
    | .requeue f _ => (m.scheduler.needTickle [⟨some f, none, none⟩]).toNat
    | _ => 0
  | .act a =>
    match w.pc with
    | .exec _ _ activity => (m.tickles activity a).toNat
    | _ => 0
  | .push =>
    match w.pc with
    | .idle (.push cbs _) =>
      (m.scheduler.needTickle (cbs.map fun cb => ⟨none, cb, none⟩)).toNat
    | _ => 0
  | .effect =>
    match w.pc with
    | .idle (.process (e :: _) _) => (m.effectTickles e).toNat
    | _ => 0
  | _ => 0

/-- What the next statement of `run` adds to `m_idleThreadCount`. -/
def Worker.idleChange (w : Worker C) : Int :=
  match w.pc with
  -- an idle fiber that executes already ends the process in `swapIn`
  | .noTask => if w.idleFiber = .TERM ∨ w.idleFiber = .EXEC then 0 else 1
  | .idleSwapped => -1
  | _ => 0

namespace Manager

/-- The thread that takes the step. -/
def Step.thread : Step C → Thread
  | .worker i _ => .worker i
  | .outside i _ => .outside i
  | .stop | .setStopping => .stopper

/-- How often the step calls `tickle`. -/
def tickles (s : Manager C) : Step C → Nat
  | .worker i mv =>
    match s.workers[i]? with
    | some w => w.tickles s.workers.length i s.toMembers mv
    | none => 0
  | .outside i a =>
    match s.outside[i]? with
    | some activity => (s.toMembers.tickles activity a).toNat
    | none => 0
  | .stop => 0
  | .setStopping => s.workers.length

/-- What the step adds to `m_idleThreadCount`. -/
def idleChange (s : Manager C) : Step C → Int
  | .worker i .advance =>
    match s.workers[i]? with
    | some w => w.idleChange
    | none => 0
  | _ => 0

/-- The process has aborted. -/
def aborted (s : Manager C) : Bool := s.abort.isSome || s.scheduler.abort.isSome

end Manager

/-! ## The whole -/

/-- The manager with its idle threads and its pipe. -/
structure Tickling (C : Type) extends Manager C where
  /-- `m_idleThreadCount`, as an integer so that a decrement below zero would show. -/
  idleThreadCount : Int
  /-- The calls of `tickle` still to be made, each by its thread. -/
  pending : List Thread
  /-- The threads that have found idle threads in `tickle` and have still to write. -/
  writing : List Thread
  /-- The number of bytes in the pipe. -/
  bytes : Nat
  /-- Whether the read end of the pipe is on the ready list. -/
  ready : Bool
  /-- The workers whose batch has the read end of the pipe. -/
  reported : List Nat

/-- The steps of the whole. -/
inductive Tickling.Step (C : Type)
  | manager (a : Manager.Step C)
  /-- The test of `m_idleThreadCount` in `tickle`. -/
  | check (thread : Thread)
  /-- The write in `tickle`. -/
  | write (thread : Thread)
  /-- `epoll_wait` returns the read end of the pipe, and these descriptors with these flags. -/
  | wake (i : Nat) (events : List (Nat × EpollEvents))
  /-- The loop over `read`, which ends with the pipe empty. -/
  | drain (i : Nat)

namespace Tickling

/-- The manager after its constructor. -/
def init (now : UInt64) (threads : Nat) (use_caller : Bool) (others : Nat) : Tickling C where
  toManager := .init now threads use_caller others
  idleThreadCount := 0
  pending := []
  writing := []
  bytes := 0
  ready := false
  reported := []

/-- The thread is in a call of `tickle`, or before one. -/
def calling (s : Tickling C) (thread : Thread) : Bool :=
  thread ∈ s.pending || thread ∈ s.writing

/-- The step ends the loop over a batch in which the pipe has not had its turn. -/
def skipsPipe (s : Tickling C) : Manager.Step C → Bool
  | .worker i .swapOut => i ∈ s.reported
  | _ => false

/-- The worker is between two entries of its batch. -/
def inBatch (s : Tickling C) (i : Nat) : Bool :=
  match s.workers[i]? with
  | some ⟨.idle (.process [] _), _, _⟩ => true
  | _ => false

/-- `epoll_wait` would return the read end of the pipe. -/
def signalled (s : Tickling C) : Bool := s.ready && 0 < s.bytes

/-- One step; none is possible after an abort. -/
def step (s : Tickling C) : Step C → Option (Tickling C)
  | .manager a =>
    if s.calling a.thread || s.skipsPipe a then none
    else
      (s.toManager.step a).map fun m =>
        { s with
          toManager := m
          idleThreadCount := s.idleThreadCount + s.toManager.idleChange a
          pending := s.pending ++ List.replicate (s.toManager.tickles a) a.thread }
  | .check thread =>
    if s.aborted then none
    else if thread ∈ s.pending ∧ thread ∉ s.writing then
      -- `hasIdleThreads()`
      if 0 < s.idleThreadCount then
        some { s with
          pending := s.pending.erase thread
          writing := thread :: s.writing }
      else some { s with pending := s.pending.erase thread }
    else none
  | .write thread =>
    if s.aborted then none
    else if thread ∈ s.writing then
      some { s with
        writing := s.writing.erase thread
        bytes := s.bytes + 1
        ready := true }
    else none
  | .wake i events =>
    if s.calling (.worker i) || !s.signalled then none
    else
      (s.toManager.step (.worker i (.wait events))).map fun m =>
        { s with
          toManager := m
          ready := false
          reported := i :: s.reported }
  | .drain i =>
    if s.aborted then none
    else if i ∈ s.reported ∧ s.inBatch i then
      some { s with
        bytes := 0
        reported := s.reported.erase i }
    else none

end Tickling

end IOManager

end Xupeng
