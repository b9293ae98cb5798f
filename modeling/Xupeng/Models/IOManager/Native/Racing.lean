import Xupeng.Models.IOManager.Native.Threads

/-!
# Threads inside `contextResize`

`WriteLock` takes `m_mutex` with `pthread_rwlock_rdlock`, as `ReadLock` does, so a thread
that resizes the table keeps nobody out. Here `contextResize` is taken apart: the vector
gets its new size, and then each slot is tested and filled on its own. The lookup of a
call and a section under `fd_ctx->mutex` are one step each.
-/

namespace Xupeng.IOManager

variable {S F C : Type}

/-- The next statement of a call in progress. -/
inductive Place
  /-- The table was too short, before `lock2` is taken. -/
  | lock
  /-- Before `m_fdContexts.resize(size)`. -/
  | resize
  /-- Before the test of `m_fdContexts[i]`. -/
  | test (i : Nat)
  /-- The slot was null, before `m_fdContexts[i] = new FdContext`. -/
  | fill (i : Nat)
  /-- Before `fd_ctx = m_fdContexts[fd]`. -/
  | index
  /-- The call holds the pointer to its context. -/
  | locked (fd_ctx : Nat)
  deriving DecidableEq, Repr

/-- The call holds `lock2`. -/
def Place.inside : Place → Bool
  | .resize | .test _ | .fill _ | .index => true
  | .lock | .locked _ => false

/-- The contexts, the slots for them, and the interest list of `m_epfd`. -/
structure Slots (S F C : Type) where
  /-- Every `FdContext` that has been made. -/
  contexts : List (FdContext S F C)
  /-- `m_fdContexts`, with its null pointers. -/
  fdContexts : List (Option Nat)
  interest : Nat → Option (Nat × Event)

/-- The state shared by the threads, with the calls and batches in progress. -/
structure Racing (S F C : Type) extends Slots S F C where
  calls : List (Call S F C × Place)
  batches : List (List (Nat × EpollEvents))
  /-- What has aborted the process. -/
  abort : Option Abort

/-- `m_fdContexts.resize(size)` -/
def Slots.resize (size : Nat) (s : Slots S F C) : Slots S F C :=
  { s with
    fdContexts := s.fdContexts.take size ++ List.replicate (size - s.fdContexts.length) none }

/-- `m_fdContexts[i] = new FdContext` with `fd = i`. -/
def Slots.fill (i : Nat) (s : Slots S F C) : Slots S F C :=
  { s with
    contexts := s.contexts ++ [.new i]
    fdContexts := s.fdContexts.set i (some s.contexts.length) }

namespace Racing

/-- The manager after its constructor. -/
def init : Racing S F C where
  contexts := (List.range 32).map .new
  fdContexts := (List.range 32).map some
  interest _ := none
  calls := []
  batches := []
  abort := none

/-- The call goes on at `place`. -/
def goto (i : Nat) (call : Call S F C) (place : Place) (s : Racing S F C) : Racing S F C :=
  { s with calls := s.calls.set i (call, place) }

/-- The lookup at the start of every operation. -/
def enter (call : Call S F C) (s : Racing S F C) : Racing S F C :=
  if covered s.fdContexts.length call.fd then
    match s.fdContexts[call.fd]? with
    | some (some p) => { s with calls := s.calls ++ [(call, .locked p)] }
    | _ => { s with abort := some .outOfBounds }
  else
    match call with
    | .addEvent .. => { s with calls := s.calls ++ [(call, .lock)] }
    | _ => s

/-- The next statement of an `addEvent` that has found the table too short. -/
def grow (i : Nat) (call : Call S F C) (s : Racing S F C) : Place → Option (Racing S F C)
  -- `pthread_rwlock_rdlock` is granted while others hold the lock
  | .lock => some (s.goto i call .resize)
  | .resize =>
    some { s.goto i call (.test 0) with toSlots := s.toSlots.resize (call.fd * 3 / 2) }
  | .test j =>
    some (s.goto i call
      (match s.fdContexts[j]? with
      | none => .index
      | some none => .fill j
      | some (some _) => .test (j + 1)))
  | .fill j =>
    some (if j < s.fdContexts.length then
      { s.goto i call (.test (j + 1)) with toSlots := s.toSlots.fill j }
    else { s with abort := some .outOfBounds })
  | .index =>
    some (match s.fdContexts[call.fd]? with
      | some (some p) => s.goto i call (.locked p)
      | _ => { s with abort := some .outOfBounds })
  | .locked _ => none

/-- Run a section on the context `p` points to. -/
def runSection (p : Nat) (rt : Bool) (sec : Section S F C) (s : Racing S F C) :
    Option (Racing S F C) :=
  s.contexts[p]?.map fun fd_ctx =>
    match sec.exec rt fd_ctx with
    | .error a => { s with abort := some a }
    | .ok r =>
      { s with
        contexts := s.contexts.set p r.ctx
        interest := applyCtl p s.interest r.ctl }

/-- One step of the system; none is possible after an abort. The step `grow` is the next
statement of a call that has found the table too short. -/
def step (s : Racing S F C) (a : Step S F C) : Option (Racing S F C) :=
  if s.abort.isSome then none
  else
    match a with
    | .enter call => some (s.enter call)
    | .grow i => s.calls[i]?.bind fun x => s.grow i x.1 x.2
    | .commit i rt =>
      match s.calls[i]? with
      | some (call, .locked p) =>
        { s with calls := s.calls.eraseIdx i }.runSection p rt call.toSection
      | _ => none
    | .wait events =>
      (events.mapM (report s.interest)).map fun batch =>
        { s with batches := s.batches ++ [batch] }
    | .process i rt =>
      match s.batches[i]? with
      | some ((p, event) :: rest) =>
        { s with batches := s.batches.set i rest }.runSection p rt (.process event)
      | _ => none

end Racing

end Xupeng.IOManager
