import Xupeng.Core.Run
import Xupeng.Models.IOManager.Native.Table
import Xupeng.Models.Scheduler.Native.Run
import Xupeng.Models.Timer.Native.State

/-!
# The manager with its workers

The whole of `IOManager`: the queue and the counters of the scheduler, the timers,
the event table, the workers in `run` and `idle`, and threads outside that use the
manager. A step is a section under a lock, an access of an atomic counter, or a
read in `stopping()`.

A section under `fd_ctx->mutex` changes its context in one step; its calls of
`schedule` and decrements of `m_pendingEventCount` are steps of their own. `tickle`
only makes `epoll_wait` return early, and that may return at any time here.
-/

namespace Xupeng.IOManager

/-- The scheduler that an event belongs to: this manager or another one. -/
inductive Target
  | this
  | other
  deriving DecidableEq, Repr

/-- What code that uses the manager is in the middle of. -/
inductive Activity (C : Type)
  | call (call : Call Target Nat C) (stage : Stage)
  /-- These effects of a section are still to come; with none the code is between operations. -/
  | owed (es : List (Effect Target Nat C))
  deriving DecidableEq, Repr

instance {C : Type} : Inhabited (Activity C) := ⟨.owed []⟩

/-- The steps of code that uses the manager. -/
inductive Act (C : Type)
  | schedule (fts : List (FiberAndThread C))
  | newFiber (cb : C)
  | addTimer (addr : Nat) (now ms : UInt64) (cb : Option C) (recurring : Bool)
  | cancel (timer : Nat)
  | refresh (timer : Nat) (now : UInt64)
  | reset (timer : Nat) (ms : UInt64) (from_now : Bool) (now : UInt64)
  /-- An operation on the event table begins with its lookup. -/
  | enter (call : Call Target Nat C)
  /-- `addEvent` resizes the table. -/
  | grow
  /-- The operation runs its section; `rt` tells whether `epoll_ctl` succeeds. -/
  | commit (rt : Bool)
  /-- The next effect of the section. -/
  | effect

/-- The reads of `stopping()`. -/
inductive Probe
  | timer
  | pending
  | queue
  deriving DecidableEq, Repr

/-- Where `idle` stands; the calls of `stopping()` in `stop` use the first case only. -/
inductive Position (C : Type)
  /-- Before this read of `stopping()`. -/
  | probe (p : Probe)
  | wait
  | expire (batch : List (Nat × EpollEvents))
  /-- Before `schedule` of the expired callbacks. -/
  | push (cbs : List (Option C)) (batch : List (Nat × EpollEvents))
  /-- In the loop over the batch, with the effects still to come of the last entry. -/
  | process (es : List (Effect Target Nat C)) (batch : List (Nat × EpollEvents))
  deriving DecidableEq, Repr

instance {C : Type} : Inhabited (Position C) := ⟨.probe .timer⟩

/-- A worker of the manager. -/
abbrev Worker (C : Type) := Scheduler.Worker C (Activity C) (Position C)

/-- The members of the manager. -/
structure Members (C : Type) where
  scheduler : Scheduler C
  timers : TimerManager C
  table : Table Target Nat C
  /-- `m_pendingEventCount`, as an integer so that a decrement below zero would show. -/
  pendingEventCount : Int
  /-- The assertion of the event table that has aborted the process. -/
  abort : Option Abort

variable {C : Type}

/-! ## The sections of the event table -/

/-- The entry that `triggerEvent` schedules. -/
def Task.entry : Task Nat C → FiberAndThread C
  | .fiber f => ⟨some f, none, none⟩
  | .cb c => ⟨none, some c, none⟩

def Effect.isSchedule {S F : Type} : Effect S F C → Bool
  | .schedule .. => true
  | _ => false

/-- The caller of `addEvent` is the running fiber. A thread outside runs none, and is assumed
to register callbacks only. -/
def Call.resolve (me : Option (FdContext.Caller Target Nat)) :
    Call Target Nat C → Option (Call Target Nat C)
  | .addEvent caller fd event cb =>
    match me, cb with
    | some me, _ => some (.addEvent me fd event cb)
    | none, some _ => some (.addEvent caller fd event cb)
    | none, none => none
  | call => some call

namespace Members

/-- Let an effect happen. -/
def perform (m : Members C) : Effect Target Nat C → Members C
  | .increment => { m with pendingEventCount := m.pendingEventCount + 1 }
  | .decrement => { m with pendingEventCount := m.pendingEventCount - 1 }
  | .schedule .this task => { m with scheduler := m.scheduler.schedule [task.entry] }
  | _ => m

/-- Run a section on the context `p` points to. The updates of the counter that precede the
first `schedule` are part of the step, the other effects are still to come. -/
def runSection (p : Nat) (rt : Bool) (sec : Section Target Nat C) (m : Members C) :
    Option (Members C × List (Effect Target Nat C)) :=
  (m.table.exec p rt sec).map fun
    | .error a => ({ m with abort := some a }, [])
    | .ok (table, effects) =>
      ({ m with
        table := table
        pendingEventCount := m.pendingEventCount +
          total Effect.delta (effects.takeWhile (!·.isSchedule)) },
        effects.dropWhile (!·.isSchedule))

/-- A step of code that uses the manager, on the running fiber `me`. -/
def act (me : Option (FdContext.Caller Target Nat)) (m : Members C) :
    Activity C → Act C → Option (Members C × Activity C)
  | .owed [], .schedule fts =>
    some ({ m with scheduler := m.scheduler.schedule fts }, .owed [])
  | .owed [], .newFiber cb => some ({ m with scheduler := m.scheduler.newFiber cb }, .owed [])
  | .owed [], .addTimer addr now ms cb recurring =>
    some ({ m with timers := (m.timers.addTimer addr now ms cb recurring).1 }, .owed [])
  | .owed [], .cancel timer =>
    (m.timers.cancel timer).map fun r => ({ m with timers := r.1 }, .owed [])
  | .owed [], .refresh timer now =>
    some ({ m with timers := (m.timers.refresh timer now).1 }, .owed [])
  | .owed [], .reset timer ms from_now now =>
    some ({ m with timers := (m.timers.reset timer ms from_now now).1 }, .owed [])
  | .owed [], .enter call =>
    some (m, ((m.table.lookup call).map (.call call ·)).getD (.owed []))
  | .call call .grow, .grow =>
    let table := m.table.grow call
    match table.fdContexts[call.fd]? with
    | some p => some ({ m with table := table }, .call call (.locked p))
    | none => some ({ m with table := table, abort := some .outOfBounds }, .call call .grow)
  | .call call (.locked p), .commit rt => do
    let call ← call.resolve me
    let r ← m.runSection p rt call.toSection
    some (r.1, .owed r.2)
  | .owed (e :: es), .effect => some (m.perform e, .owed es)
  | _, _ => none

end Members

/-! ## The workers -/

/-- What a worker does next. -/
inductive Move (C : Type)
  /-- The next statement of `run` or `stop`. -/
  | advance
  /-- A step of the running task. -/
  | act (a : Act C)
  /-- The running task gives the thread back. -/
  | leave (exit : Fiber.Exit)
  /-- The next read of `stopping()`, with the clock reading of `getNextTimer`. -/
  | probe (now : UInt64)
  /-- `epoll_wait` returns these descriptors with these flags. -/
  | wait (events : List (Nat × EpollEvents))
  /-- `listExpiredCb`, with the address of its search key and its clock reading. -/
  | expire (addr : Nat) (now : UInt64)
  /-- `schedule` of the expired callbacks. -/
  | push
  /-- The section for the next entry of the batch. -/
  | process (rt : Bool)
  /-- The next effect of that section. -/
  | effect
  /-- The end of the loop body in `idle`. -/
  | swapOut

namespace Worker

/-- One read of `stopping()`: false ends the call, true goes on to the next read. -/
def probe (now : UInt64) (m : Members C) : Probe → Members C × Bool
  | .timer =>
    let r := m.timers.getNextTimer now
    ({ m with timers := r.1 }, r.2 = TimerManager.infinite)
  | .pending => (m, m.pendingEventCount = 0)
  | .queue => (m, m.scheduler.isStopping)

/-- The read that follows; none when `stopping()` returns true. -/
def next : Probe → Option Probe
  | .timer => some .pending
  | .pending => some .queue
  | .queue => none

/-- A read of `stopping()` in `idle`. -/
def probeIdle (w : Worker C) (p : Probe) (b : Bool) : Worker C :=
  if b then
    match next p with
    | some q => w.goto (.idle (.probe q))
    | none => w.swapOutIdle true
  else w.goto (.idle .wait)

/-- A read of `stopping()` in `stop`. -/
def probeStop (w : Worker C) (first : Bool) (p : Probe) (b : Bool) : Worker C :=
  if b then
    match next p with
    | some q => w.goto (.ask first (.probe q))
    | none => w.answer first true
  else w.answer first false

/-- The loop body of `idle` after `stopping()`. -/
def loop (m : Members C) (w : Worker C) :
    Position C → Move C → Option (Members C × Worker C)
  | .wait, .wait events =>
    (events.mapM (report m.table.interest)).map fun batch => (m, w.goto (.idle (.expire batch)))
  | .expire batch, .expire addr now =>
    let r := m.timers.listExpiredCb addr now
    some ({ m with timers := r.1 }, w.goto (.idle (.push r.2 batch)))
  | .push cbs batch, .push =>
    some ({ m with scheduler := m.scheduler.schedule (cbs.map fun cb => ⟨none, cb, none⟩) },
      w.goto (.idle (.process [] batch)))
  | .process [] ((p, event) :: batch), .process rt =>
    (m.runSection p rt (.process event)).map fun r =>
      (r.1, w.goto (.idle (.process r.2 batch)))
  | .process (e :: es) batch, .effect =>
    some (m.perform e, w.goto (.idle (.process es batch)))
  | .process [] [], .swapOut => some (m, w.swapOutIdle false)
  | _, _ => none

/-- A step of the worker with this thread id. -/
def move (thread : Nat) (m : Members C) (w : Worker C) :
    Move C → Option (Members C × Worker C)
  | .advance =>
    (w.advance thread m.scheduler).map fun r => ({ m with scheduler := r.1 }, r.2)
  | .act a =>
    match w.pc with
    | .exec f own activity =>
      (m.act (some ⟨.this, f, (m.scheduler.fiber f).state⟩) activity a).map fun r =>
        (r.1, w.goto (.exec f own r.2))
    | _ => none
  | .leave exit =>
    match w.pc with
    | .exec _ _ (.owed []) =>
      (w.leave exit m.scheduler).map fun r => ({ m with scheduler := r.1 }, r.2)
    | _ => none
  | .probe now =>
    match w.pc with
    | .idle (.probe p) => let r := probe now m p; some (r.1, w.probeIdle p r.2)
    | .ask first (.probe p) => let r := probe now m p; some (r.1, w.probeStop first p r.2)
    | _ => none
  | mv =>
    match w.pc with
    | .idle i => w.loop m i mv
    | _ => none

/-- With `use_caller` the call of `stop` goes on in the worker that has been dormant. -/
def callStop (alone : Bool) (w : Worker C) : Worker C :=
  match w.pc with
  | .dormant => w.goto (.stop alone)
  | _ => w

end Worker

/-! ## The whole -/

/-- The manager, its workers and the threads outside. -/
structure Manager (C : Type) extends Members C where
  /-- The worker at index `i` has thread id `i`. -/
  workers : List (Worker C)
  outside : List (Activity C)
  /-- Whether the worker 0 is the thread that calls `stop`. -/
  useCaller : Bool

/-- The steps of the whole. -/
inductive Manager.Step (C : Type)
  | worker (i : Nat) (mv : Move C)
  | outside (i : Nat) (a : Act C)
  /-- `stop` is called: `m_autoStop = true`. -/
  | stop
  /-- `m_stopping = true`, when the caller of `stop` is no worker. -/
  | setStopping

namespace Manager

/-- The manager after its constructor, at clock reading `now`, with `threads` workers and
`others` threads outside. -/
def init (now : UInt64) (threads : Nat) (use_caller : Bool) (others : Nat) : Manager C where
  scheduler := .started
  timers := .new now
  table := .init
  pendingEventCount := 0
  abort := none
  workers := (List.range threads).map fun i =>
    .new (if use_caller ∧ i = 0 then .dormant else .search)
  outside := List.replicate others default
  useCaller := use_caller

/-- One step; none is possible after an abort. -/
def step (s : Manager C) (a : Step C) : Option (Manager C) :=
  if s.abort.isSome || s.scheduler.abort.isSome then none
  else
    match a with
    | .worker i mv => do
      let w ← s.workers[i]?
      let r ← w.move i s.toMembers mv
      some { s with toMembers := r.1, workers := s.workers.set i r.2 }
    | .outside i a => do
      let activity ← s.outside[i]?
      let r ← s.toMembers.act none activity a
      some { s with toMembers := r.1, outside := s.outside.set i r.2 }
    | .stop =>
      if s.scheduler.autoStop then none
      else
        some { s with
          scheduler := { s.scheduler with autoStop := true }
          -- `m_threadCount` is 0 when worker 0 is the only one
          workers := s.workers.map (Worker.callStop (s.workers.length = 1)) }
    | .setStopping =>
      if s.scheduler.autoStop && !s.useCaller then
        some { s with scheduler := { s.scheduler with stopping := true } }
      else none

end Manager

end Xupeng.IOManager
