import Mathlib.Logic.Function.Basic
import Xupeng.Models.Hook.Native.Functions
import Xupeng.Models.IOManager.Native.Table
import Xupeng.Models.Timer.Native.Operation

/-!
# Fibers that wait in hooked functions

The fibers of an `IOManager` whose threads have the hook enabled. A fiber that is not
suspended may take its next step at any time. A hooked function that does not wait is
one step; the loop of `do_io`, the wait of `connect_with_timeout`, `close` and the
callback of a timeout are taken apart into their accesses to shared objects.

In `addEvent` the lookup, the resize and the section under `fd_ctx->mutex` are one step
each. The order of the scheduler's queue is not used: a worker may take any fiber that
has been suspended, and any callback.
-/

namespace Xupeng.Hook

open IOManager (Abort Effect EpollEvents Event FdContext Section covered)

/-- The hooked functions that wait for an event. -/
inductive Fun
  | io (fn : IoFun)
  | connect (addr addrlen : Nat)
  deriving DecidableEq, Repr

/-- The event that the function waits for. -/
def Fun.event : Fun → Event
  | .io fn =>
    match fn with
    | .accept .. | .read .. | .readv .. | .recv .. | .recvfrom .. | .recvmsg .. => .READ
    | .write .. | .writev .. | .send .. | .sendto .. | .sendmsg .. => .WRITE
  | .connect .. => .WRITE

/-- The function is `connect_with_timeout`. -/
def Fun.isConnect : Fun → Bool
  | .connect .. => true
  | .io _ => false

/-- A call that may wait: its arguments and the local variables `to` and `tinfo`. -/
structure Wait where
  fn : Fun
  fd : Int
  timeout : UInt64
  /-- The index of the `timer_info`. -/
  tinfo : Nat
  deriving DecidableEq, Repr

/-- A `FdContext *`: the descriptor that the context was made for, and the number of the resize
that made it. Contexts are never freed. -/
abbrev ContextPtr := Nat × Nat

/-- The next statement of a call that may wait; `timer` is its local variable. -/
inductive Point
  /-- `retry:`, before the original function is called. -/
  | retry
  /-- Before `addConditionTimer`. -/
  | arm
  /-- Before `addEvent`. -/
  | register (timer : Option Nat)
  /-- In `addEvent`, which has found the table too short. -/
  | grow (timer : Option Nat)
  /-- In `addEvent`, before the mutex of the context is taken. -/
  | locked (timer : Option Nat) (fd_ctx : ContextPtr)
  /-- `addEvent` has failed, before `timer->cancel()`. -/
  | unregistered (timer : Option Nat)
  /-- Before `YieldToHold`. -/
  | yield (timer : Option Nat)
  | suspended (timer : Option Nat)
  /-- Back from `YieldToHold`, before `timer->cancel()`. -/
  | resumed (timer : Option Nat)
  /-- Before the test of `tinfo->cancelled`. -/
  | check
  /-- Before `getsockopt` in `connect_with_timeout`. -/
  | finish
  deriving DecidableEq, Repr

/-- The next statement of `close`. -/
inductive CloseStage
  | get
  | cancelAll
  | del
  | close
  deriving DecidableEq, Repr

/-- Where a fiber stands. -/
inductive Pc
  /-- In the code of the program, with what the last hooked function returned. -/
  | user (last : Option Ret)
  | waiting (w : Wait) (p : Point)
  | closing (fd : Int) (stage : CloseStage)
  deriving DecidableEq, Repr

/-- The callback of a timeout: `OnTimer` with the lambda bound to it. -/
structure Callback where
  /-- The `timer_info` that `winfo` points to. -/
  winfo : Nat
  fd : Int
  event : Event
  /-- The timer that the callback was made for. -/
  timer : Nat
  deriving DecidableEq, Repr

/-- The next statement of a callback that runs. -/
inductive Stage
  /-- Before `weak_cond.lock()` and the test of `t->cancelled`. -/
  | test
  /-- Before `t->cancelled = ETIMEDOUT`. -/
  | set
  /-- Before `cancelEvent`. -/
  | cancel
  deriving DecidableEq, Repr

/-- The callbacks on their way from their timers to their end. -/
structure Callbacks where
  timers : TimerManager Callback
  /-- Those that workers hold between `listExpiredCb` and `schedule`. -/
  batches : List (List Callback)
  /-- Those in the queue of the scheduler. -/
  queue : List Callback
  running : List (Callback × Stage)

/-- The event table of the `IOManager`. -/
structure EventTable where
  contexts : ContextPtr → FdContext Unit Nat Empty
  /-- `m_fdContexts` -/
  fdContexts : List ContextPtr
  /-- How often it has been resized. -/
  resizes : Nat

/-- The objects through which timeouts reach the fibers. -/
structure Shared extends Callbacks, EventTable where
  /-- `cancelled` of every `timer_info` that has been made. -/
  infos : List Int

/-- The whole process. -/
structure System extends Shared where
  process : Process
  /-- The fibers in the queue of the scheduler. -/
  ready : List Nat
  fibers : List Pc
  /-- The assertion that has aborted the process. -/
  abort : Option Abort

/-! ## The steps -/

/-- The next step of a fiber, with what the environment decides about it. -/
inductive Act
  /-- The program calls an interposed function. -/
  | call (connectTimeout : UInt64) (c : SysCall) (answer : Answer)
  /-- The program calls `setTimeout` of the context of a descriptor. -/
  | setTimeout (fd type : Int) (v : UInt64)
  /-- `fun(fd, …)` at `retry`. -/
  | retry (answer : Answer)
  /-- `addConditionTimer`, if there is a timeout. -/
  | arm (addr : Nat) (now : UInt64)
  /-- The lookup in `addEvent`. -/
  | lookup
  /-- `contextResize` in `addEvent`. -/
  | grow
  /-- The section of `addEvent`; `rt` tells whether `epoll_ctl` succeeds. -/
  | addEvent (rt : Bool)
  | yield
  /-- A worker takes the fiber from the queue. -/
  | resume
  /-- `timer->cancel()`, if there is a timer. -/
  | stop
  /-- The test of `tinfo->cancelled`. -/
  | check
  /-- `getsockopt` of `SO_ERROR`. -/
  | getsockopt (answer : Answer)
  /-- `get` in `close`. -/
  | get
  | cancelAll (rt : Bool)
  | del
  /-- `close_f` -/
  | close (answer : Answer)
  deriving DecidableEq, Repr

/-- The calls of the program that hand waiting fibers over. -/
inductive Release
  | cancelEvent (event : Event)
  | cancelAll
  deriving DecidableEq, Repr

/-- The steps of the process. -/
inductive Step
  | fiber (f : Nat) (a : Act)
  | release (fd : Nat) (rt : Bool) (r : Release)
  /-- A worker processes an entry of its batch in `idle`. -/
  | process (fd_ctx : ContextPtr) (rt : Bool) (event : EpollEvents)
  /-- `listExpiredCb`, with the address of its search key and its clock reading. -/
  | expire (addr : Nat) (now : UInt64)
  /-- `schedule` of a batch of expired callbacks. -/
  | push (i : Nat)
  /-- A worker takes a callback from the queue. -/
  | take (i : Nat)
  /-- A callback that runs makes its next statement. -/
  | test (i : Nat)
  | set (i : Nat)
  | cancel (i : Nat) (rt : Bool)
  deriving DecidableEq, Repr

/-- The callback that the call binds to its timer. -/
def Wait.callback (w : Wait) (timer : Nat) : Callback := ⟨w.tinfo, w.fd, w.fn.event, timer⟩

/-- The `timer_info` that a fiber holds. -/
def Pc.tinfo : Pc → Option Nat
  | .waiting w _ => some w.tinfo
  | _ => none

def Release.toSection (fd : Nat) : Release → Section Unit Nat Empty
  | .cancelEvent event => .cancelEvent fd event
  | .cancelAll => .cancelAll fd

/-- The fiber that an effect of a section schedules. -/
def scheduled : Effect Unit Nat Empty → Option Nat
  | .schedule _ (.fiber f) => some f
  | _ => none

/-- The value of `cancelled` in a `timer_info`. -/
def Shared.cancelled (s : Shared) (tinfo : Nat) : Int := s.infos.getD tinfo 0

/-- How the call at `retry` goes on after the original function. -/
inductive Turn
  | again
  | wait
  | ret (r : Ret)
  deriving DecidableEq, Repr

/-- What `accept` does after `do_io`. -/
def accepted (fn : IoFun) (fd : Ret) : Program Empty Process Unit :=
  match fn with
  | .accept .. =>
    if 0 ≤ fd.value then do
      let _ ← FdManager.get fd.value true
      pure ()
    else pure ()
  | _ => pure ()

/-- `do_io` from `retry` to the decision whether to wait; the loop on `EINTR` takes one turn. -/
def attempt (fn : IoFun) (fd : Int) (answer : Answer) : Program Empty Process Turn := do
  let n ← original (.io fn fd) answer
  if n.value = -1 ∧ n.errno = some EINTR then pure .again
  else if n.value = -1 ∧ n.errno = some EAGAIN then pure .wait
  else do
    accepted fn n
    pure (.ret n)

namespace EventTable

/-- `contextResize` -/
def contextResize (size : Nat) (t : EventTable) : EventTable :=
  let kept := t.fdContexts.take size
  { t with
    fdContexts := kept ++
      (List.range (size - kept.length)).map fun i => (kept.length + i, t.resizes)
    resizes := t.resizes + 1 }

/-- The table after the constructor of the manager. -/
def init : EventTable := contextResize 32 ⟨fun p => .new p.1, [], 0⟩

/-- The lookup at the start of every operation. -/
def lookup (fd : Nat) (t : EventTable) : Option ContextPtr :=
  if covered t.fdContexts.length fd then t.fdContexts[fd]? else none

end EventTable

namespace System

/-- `n` fibers in the code of the program, at clock reading `now`. -/
def init (n : Nat) (now : UInt64) (kernel : Kernel) : System where
  toEventTable := .init
  timers := .new now
  infos := []
  batches := []
  queue := []
  running := []
  process := ⟨.new, kernel⟩
  ready := []
  fibers := List.replicate n (.user none)
  abort := none

/-- The fiber goes on at `pc`. -/
def goto (f : Nat) (pc : Pc) (s : System) : System := { s with fibers := s.fibers.set f pc }

/-- The hooked function returns. -/
def ret (f : Nat) (r : Ret) (s : System) : System := s.goto f (.user (some r))

/-- The hooked function goes on to a wait, with a new `timer_info`. -/
def enter (f : Nat) (fn : Fun) (fd : Int) (timeout : UInt64) (p : Point) (s : System) : System :=
  { s.goto f (.waiting ⟨fn, fd, timeout, s.infos.length⟩ p) with infos := s.infos ++ [0] }

/-- Execute `prog`; a fault ends the process. -/
def exec {β : Type} (prog : Program Empty Process β) (next : β → System → Option System)
    (s : System) : Option System :=
  match prog s.process with
  | .ok b process => next b { s with process := process }
  | _ => none

/-- Run a section on a context, and hand the fibers over that it schedules. -/
def runSection (p : ContextPtr) (rt : Bool) (sec : Section Unit Nat Empty)
    (next : Bool → System → System) (s : System) : System :=
  match sec.exec rt (s.contexts p) with
  | .error a => { s with abort := some a }
  | .ok r =>
    next r.success { s with
      contexts := Function.update s.contexts p r.ctx
      ready := s.ready ++ r.effects.filterMap scheduled }

/-- A call that cancels events: it returns false if the table is too short. -/
def runCall (fd : Nat) (rt : Bool) (sec : Section Unit Nat Empty) (next : System → System)
    (s : System) : System :=
  match s.lookup fd with
  | none => next s
  | some p => s.runSection p rt sec fun _ => next

/-- `timer->cancel()`, if the timer is not null. -/
def stop (timer : Option Nat) (s : System) : Option System :=
  match timer with
  | none => some s
  | some p => (s.timers.step (.cancel p)).map fun timers => { s with timers := timers }

/-- The program calls an interposed function. -/
def call (f : Nat) (connectTimeout : UInt64) (c : SysCall) (answer : Answer) (s : System) :
    Option System :=
  match c with
  | .close fd => some (s.goto f (.closing fd .get))
  | c =>
    (Hook.call true connectTimeout 1 c answer).bind fun prog =>
      s.exec prog fun reply s =>
        match reply, c with
        | .ret r, _ => some (s.ret f r)
        | .sleep _, _ => some (s.ret f (.ok 0))
        | .retry timeout, .io fn fd => some (s.enter f (.io fn) fd timeout .retry)
        | .connecting timeout, .connect fd addr addrlen =>
          some (s.enter f (.connect addr addrlen) fd timeout .arm)
        | _, _ => none

/-- A step of a call that may wait. -/
def wait (f : Nat) (w : Wait) (s : System) : Point → Act → Option System
  | .retry, .retry answer =>
    match w.fn with
    | .io fn =>
      s.exec (attempt fn w.fd answer) fun turn s =>
        match turn with
        | .again => some (s.goto f (.waiting w .retry))
        | .wait => some (s.goto f (.waiting w .arm))
        | .ret r => some (s.ret f r)
    | .connect .. => none
  | .arm, .arm addr now =>
    if w.timeout = ~~~0 then some (s.goto f (.waiting w (.register none)))
    else
      let timer := s.timers.heap.length
      (s.timers.step (.addTimer addr now w.timeout (w.callback timer) false)).map fun timers =>
        { s with timers := timers }.goto f (.waiting w (.register (some timer)))
  | .register timer, .lookup =>
    match s.lookup w.fd.toNat with
    | some p => some (s.goto f (.waiting w (.locked timer p)))
    | none => some (s.goto f (.waiting w (.grow timer)))
  | .grow timer, .grow =>
    let table := s.toEventTable.contextResize (w.fd.toNat * 3 / 2)
    match table.fdContexts[w.fd.toNat]? with
    | some p => some ({ s with toEventTable := table }.goto f (.waiting w (.locked timer p)))
    | none => some { s with abort := some .outOfBounds }
  | .locked timer p, .addEvent rt =>
    some (s.runSection p rt (.addEvent ⟨(), f, .EXEC⟩ w.fd.toNat w.fn.event none)
      fun success s =>
        s.goto f (.waiting w (if success then .yield timer else .unregistered timer)))
  | .unregistered timer, .stop =>
    (s.stop timer).map fun s =>
      match w.fn with
      -- `errno` is as `epoll_ctl` has left it
      | .io _ => s.ret f ⟨-1, none⟩
      | .connect .. => s.goto f (.waiting w .finish)
  | .yield timer, .yield => some (s.goto f (.waiting w (.suspended timer)))
  | .suspended timer, .resume =>
    if f ∈ s.ready then
      some ({ s with ready := s.ready.erase f }.goto f (.waiting w (.resumed timer)))
    else none
  | .resumed timer, .stop => (s.stop timer).map (·.goto f (.waiting w .check))
  | .check, .check =>
    if s.cancelled w.tinfo ≠ 0 then some (s.ret f (.error (s.cancelled w.tinfo)))
    else
      match w.fn with
      | .io _ => some (s.goto f (.waiting w .retry))
      | .connect .. => some (s.goto f (.waiting w .finish))
  | .finish, .getsockopt answer =>
    some (s.ret f (match answer with
      | .fails errno => .error errno
      | .succeeds error => if error = 0 then .ok 0 else .error error))
  | _, _ => none

/-- A step of `close`. -/
def close (f : Nat) (fd : Int) (s : System) : CloseStage → Act → Option System
  | .get, .get =>
    s.exec (FdManager.get fd false) fun ctx s =>
      some (s.goto f (.closing fd (if ctx.isSome then .cancelAll else .close)))
  | .cancelAll, .cancelAll rt =>
    some (s.runCall fd.toNat rt (.cancelAll fd.toNat) fun s => s.goto f (.closing fd .del))
  | .del, .del => s.exec (del fd) fun _ s => some (s.goto f (.closing fd .close))
  | .close, .close answer => s.exec (original (.close fd) answer) fun r s => some (s.ret f r)
  | _, _ => none

/-- A step of a fiber. -/
def fiber (f : Nat) (s : System) : Pc → Act → Option System
  | .user _, .call connectTimeout c answer => s.call f connectTimeout c answer
  | .user last, .setTimeout fd type v =>
    s.exec (setTimeout fd type v) fun _ s => some (s.goto f (.user last))
  | .waiting w p, a => s.wait f w p a
  | .closing fd stage, a => s.close f fd stage a
  | _, _ => none

/-- Whether `winfo.lock()` succeeds: the call or a callback past its test holds the object. -/
def alive (winfo : Nat) (s : System) : Bool :=
  s.fibers.any (·.tinfo = some winfo) ||
    s.running.any fun r => r.1.winfo = winfo && r.2 ≠ .test

/-- One step; none is possible after an abort. -/
def step (s : System) (a : Step) : Option System :=
  if s.abort.isSome then none
  else
    match a with
    | .fiber f a => s.fibers[f]?.bind fun pc => s.fiber f pc a
    | .release fd rt r => some (s.runCall fd rt (r.toSection fd) id)
    | .process p rt event => some (s.runSection p rt (.process event) fun _ => id)
    | .expire addr now =>
      let r := s.timers.listExpiredCb addr now
      some { s with timers := r.1, batches := s.batches ++ [r.2.filterMap id] }
    | .push i =>
      s.batches[i]?.map fun cbs =>
        { s with batches := s.batches.eraseIdx i, queue := s.queue ++ cbs }
    | .take i =>
      s.queue[i]?.map fun c =>
        { s with queue := s.queue.eraseIdx i, running := s.running ++ [(c, .test)] }
    | .test i =>
      match s.running[i]? with
      | some (c, .test) =>
        if s.alive c.winfo ∧ s.cancelled c.winfo = 0 then
          some { s with running := s.running.set i (c, .set) }
        else some { s with running := s.running.eraseIdx i }
      | _ => none
    | .set i =>
      match s.running[i]? with
      | some (c, .set) =>
        some { s with
          infos := s.infos.set c.winfo ETIMEDOUT
          running := s.running.set i (c, .cancel) }
      | _ => none
    | .cancel i rt =>
      match s.running[i]? with
      | some (c, .cancel) =>
        some (s.runCall c.fd.toNat rt (.cancelEvent c.fd.toNat c.event) fun s =>
          { s with running := s.running.eraseIdx i })
      | _ => none

end System

end Xupeng.Hook
