import Xupeng.Models.Fiber.State

/-!
# One descriptor of the event table

`FdContext` keeps the events registered for a descriptor and what is to be done
when they occur. The functions are the sections that `addEvent`, `delEvent`,
`cancelEvent`, `cancelAll` and the loop of `idle` execute under `fd_ctx->mutex`. A
section aborts on an assertion, or leaves a new context and what it did to the rest
of the program: updates of `m_pendingEventCount` and calls of `schedule`.

Schedulers, fibers and callbacks are opaque here and enter as types.
-/

namespace Xupeng.IOManager

/-- `IOManager::Event` as a set of flags: `READ` is `0x1` and `WRITE` is `0x4`. -/
structure Event where
  read : Bool
  write : Bool
  deriving DecidableEq, Repr

namespace Event

def NONE : Event := ⟨false, false⟩

def READ : Event := ⟨true, false⟩

def WRITE : Event := ⟨false, true⟩

/-- `a & b` -/
def inter (a b : Event) : Event := ⟨a.read && b.read, a.write && b.write⟩

/-- `a | b` -/
def union (a b : Event) : Event := ⟨a.read || b.read, a.write || b.write⟩

/-- `a & ~b` -/
def without (a b : Event) : Event := ⟨a.read && !b.read, a.write && !b.write⟩

/-- The number of flags that are set. -/
def card (a : Event) : Nat := a.read.toNat + a.write.toNat

end Event

/-- What an event is to resume: the members of `FiberAndThread`. -/
inductive Task (F C : Type)
  | fiber (f : F)
  | cb (c : C)
  deriving DecidableEq, Repr

/-- `FdContext::EventContext` -/
structure EventContext (S F C : Type) where
  scheduler : Option S
  fiber : Option F
  cb : Option C
  deriving DecidableEq, Repr

/-- `FdContext`; its mutex is implicit in the atomicity of the sections. -/
structure FdContext (S F C : Type) where
  read : EventContext S F C
  write : EventContext S F C
  fd : Nat
  events : Event
  deriving DecidableEq, Repr

/-- Where a section aborts the process. -/
inductive Abort
  /-- `PENG_ASSERT(events & event)` in `triggerEvent`. -/
  | triggerEvent
  /-- `PENG_ASSERT2(false, "getContext")` -/
  | getContext
  /-- `PENG_ASSERT(!(fd_ctx->events & event))` in `addEvent`. -/
  | addEventBusy
  /-- `PENG_ASSERT(!event_ctx.scheduler && !event_ctx.fiber && !event_ctx.cb)` in `addEvent`. -/
  | addEventSlot
  /-- `PENG_ASSERT2(event_ctx.fiber->getState() == Fiber::EXEC, …)` in `addEvent`. -/
  | fiberState
  /-- `PENG_ASSERT(fd_ctx->events == 0)` in `cancelAll`. -/
  | cancelAll
  /-- A call of `schedule` through a null `ctx.scheduler`. -/
  | nullScheduler
  /-- The access `m_fdContexts[fd]` behind the end, or through a null pointer. -/
  | outOfBounds
  deriving DecidableEq, Repr

/-- What a section does outside of its context. -/
inductive Effect (S F C : Type)
  /-- `++m_pendingEventCount` -/
  | increment
  /-- `--m_pendingEventCount` -/
  | decrement
  /-- `scheduler->schedule(…)` of a fiber or callback that is not null. -/
  | schedule (scheduler : S) (task : Task F C)
  /-- A mark: `addEvent` has stored the task and is going to return 0. -/
  | registered (scheduler : S) (task : Task F C)
  /-- A mark: `delEvent` has reset the context that held the task. -/
  | dropped (scheduler : S) (task : Task F C)
  deriving DecidableEq, Repr

/-- The operations of `epoll_ctl`. -/
inductive CtlOp
  | ADD
  | MOD
  | DEL
  deriving DecidableEq, Repr

/-- A call of `epoll_ctl` that succeeded; `EPOLLET` is always part of the mask. -/
structure Ctl where
  op : CtlOp
  fd : Nat
  events : Event
  deriving DecidableEq, Repr

/-- The outcome of a section that ran to its end. -/
structure Result (S F C : Type) where
  ctx : FdContext S F C
  ctl : Option Ctl
  effects : List (Effect S F C)
  /-- Whether the function is going to return 0 or true. -/
  success : Bool
  deriving DecidableEq, Repr

variable {S F C : Type}

/-- A context whose three members are null. -/
def EventContext.empty : EventContext S F C := ⟨none, none, none⟩

/-- `new FdContext`, for descriptor `fd`. -/
def FdContext.new (fd : Nat) : FdContext S F C := ⟨.empty, .empty, fd, .NONE⟩

/-- The task that a context holds with its scheduler. -/
def EventContext.held (ctx : EventContext S F C) : Option (S × Task F C) :=
  match ctx.scheduler, ctx.fiber, ctx.cb with
  | some s, some f, none => some (s, .fiber f)
  | some s, none, some c => some (s, .cb c)
  | _, _, _ => none

namespace FdContext

/-- `getContext` -/
def getContext (fd_ctx : FdContext S F C) (event : Event) : Except Abort (EventContext S F C) :=
  if event = .READ then .ok fd_ctx.read
  else if event = .WRITE then .ok fd_ctx.write
  else .error .getContext

/-- Assignment through the reference that `getContext` returns. -/
def setContext (fd_ctx : FdContext S F C) (event : Event) (ctx : EventContext S F C) :
    FdContext S F C :=
  if event = .READ then { fd_ctx with read := ctx }
  else if event = .WRITE then { fd_ctx with write := ctx }
  else fd_ctx

/-- `triggerEvent`. The callback or fiber is swapped out of the context by `schedule`. -/
def triggerEvent (event : Event) (fd_ctx : FdContext S F C) :
    Except Abort (FdContext S F C × List (Effect S F C)) :=
  if fd_ctx.events.inter event = .NONE then .error .triggerEvent
  else do
    let fd_ctx := { fd_ctx with events := fd_ctx.events.without event }
    let ctx ← fd_ctx.getContext event
    match ctx.scheduler with
    | none => .error .nullScheduler
    | some s =>
      match ctx.cb with
      | some c =>
        .ok (fd_ctx.setContext event ⟨none, ctx.fiber, none⟩, [.schedule s (.cb c)])
      | none =>
        -- `scheduleNoLock` pushes nothing when the fiber is null as well
        .ok (fd_ctx.setContext event ⟨none, none, none⟩,
          (ctx.fiber.map fun f => .schedule s (.fiber f)).toList)

/-- `triggerEvent` followed by `--m_pendingEventCount`, when `cond` holds. -/
def triggerIf (cond : Bool) (event : Event) (fd_ctx : FdContext S F C) :
    Except Abort (FdContext S F C × List (Effect S F C)) :=
  if cond then do
    let r ← fd_ctx.triggerEvent event
    .ok (r.1, r.2 ++ [.decrement])
  else .ok (fd_ctx, [])

/-- The thread that calls `addEvent`: `Scheduler::GetThis()`, which is assumed to be set,
`Fiber::GetThis()` and the state of that fiber. -/
structure Caller (S F : Type) where
  scheduler : S
  fiber : F
  state : Fiber.State
  deriving DecidableEq, Repr

/-- The section of `addEvent`; `rt` tells whether `epoll_ctl` succeeds. -/
def addEvent (caller : Caller S F) (fd : Nat) (event : Event) (cb : Option C) (rt : Bool)
    (fd_ctx : FdContext S F C) : Except Abort (Result S F C) :=
  if fd_ctx.events.inter event ≠ .NONE then .error .addEventBusy
  else
    let op := if fd_ctx.events ≠ .NONE then CtlOp.MOD else .ADD
    let epevent := fd_ctx.events.union event
    if !rt then .ok ⟨fd_ctx, none, [], false⟩
    else do
      let fd_ctx := { fd_ctx with events := fd_ctx.events.union event }
      let event_ctx ← fd_ctx.getContext event
      if event_ctx.scheduler.isSome ∨ event_ctx.fiber.isSome ∨ event_ctx.cb.isSome then
        .error .addEventSlot
      else
        match cb with
        | some c =>
          .ok ⟨fd_ctx.setContext event ⟨some caller.scheduler, none, some c⟩,
            some ⟨op, fd, epevent⟩, [.increment, .registered caller.scheduler (.cb c)], true⟩
        | none =>
          if caller.state ≠ .EXEC then .error .fiberState
          else
            .ok ⟨fd_ctx.setContext event ⟨some caller.scheduler, some caller.fiber, none⟩,
              some ⟨op, fd, epevent⟩,
              [.increment, .registered caller.scheduler (.fiber caller.fiber)], true⟩

/-- The section of `delEvent`. -/
def delEvent (fd : Nat) (event : Event) (rt : Bool) (fd_ctx : FdContext S F C) :
    Except Abort (Result S F C) :=
  if fd_ctx.events.inter event = .NONE then .ok ⟨fd_ctx, none, [], false⟩
  else
    let new_events := fd_ctx.events.without event
    let op := if new_events ≠ .NONE then CtlOp.MOD else .DEL
    if !rt then .ok ⟨fd_ctx, none, [], false⟩
    else do
      let fd_ctx := { fd_ctx with events := new_events }
      let event_ctx ← fd_ctx.getContext event
      .ok ⟨fd_ctx.setContext event .empty, some ⟨op, fd, new_events⟩,
        .decrement :: (event_ctx.held.map fun r => .dropped r.1 r.2).toList, true⟩

/-- The section of `cancelEvent`. -/
def cancelEvent (fd : Nat) (event : Event) (rt : Bool) (fd_ctx : FdContext S F C) :
    Except Abort (Result S F C) :=
  if fd_ctx.events.inter event = .NONE then .ok ⟨fd_ctx, none, [], false⟩
  else
    let new_events := fd_ctx.events.without event
    let op := if new_events ≠ .NONE then CtlOp.MOD else .DEL
    if !rt then .ok ⟨fd_ctx, none, [], false⟩
    else do
      let r ← fd_ctx.triggerIf true event
      .ok ⟨r.1, some ⟨op, fd, new_events⟩, r.2, true⟩

/-- The section of `cancelAll`. -/
def cancelAll (fd : Nat) (rt : Bool) (fd_ctx : FdContext S F C) : Except Abort (Result S F C) :=
  if fd_ctx.events = .NONE then .ok ⟨fd_ctx, none, [], false⟩
  else if !rt then .ok ⟨fd_ctx, none, [], false⟩
  else do
    let r₁ ← fd_ctx.triggerIf fd_ctx.events.read .READ
    let r₂ ← r₁.1.triggerIf r₁.1.events.write .WRITE
    if r₂.1.events ≠ .NONE then .error .cancelAll
    else .ok ⟨r₂.1, some ⟨.DEL, fd, .NONE⟩, r₁.2 ++ r₂.2, true⟩

end FdContext

/-- The flags of an `epoll_event` that `idle` looks at: `EPOLLIN` and `EPOLLOUT`, and
whether `EPOLLERR` or `EPOLLHUP` is set. -/
structure EpollEvents where
  ready : Event
  failed : Bool
  deriving DecidableEq, Repr

namespace FdContext

/-- `real_events`: on an error or a hang-up the flags registered now count as ready. -/
def realEvents (event : EpollEvents) (fd_ctx : FdContext S F C) : Event :=
  if event.failed then event.ready.union fd_ctx.events else event.ready

/-- The section of `idle` for one entry of the batch. -/
def process (event : EpollEvents) (rt : Bool) (fd_ctx : FdContext S F C) :
    Except Abort (Result S F C) :=
  let real_events := fd_ctx.realEvents event
  if fd_ctx.events.inter real_events = .NONE then .ok ⟨fd_ctx, none, [], false⟩
  else
    let left_events := fd_ctx.events.without real_events
    let op := if left_events ≠ .NONE then CtlOp.MOD else .DEL
    if !rt then .ok ⟨fd_ctx, none, [], false⟩
    else do
      let r₁ ← fd_ctx.triggerIf real_events.read .READ
      let r₂ ← r₁.1.triggerIf real_events.write .WRITE
      .ok ⟨r₂.1, some ⟨op, fd_ctx.fd, left_events⟩, r₁.2 ++ r₂.2, true⟩

end FdContext

end Xupeng.IOManager
