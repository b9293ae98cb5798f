import Xupeng.Core.Run
import Xupeng.Models.IOManager.Native.Table

/-!
# Threads that use the event table

Any number of threads call the four public operations, and any number of workers
process what `epoll_wait` gave them. The lookup of a call, the growing of the
table and the section of a call are one step each. A batch is fetched in one step
and its entries are processed one at a time.
-/

namespace Xupeng.IOManager

variable {S F C : Type}

/-- The state shared by the threads, with the calls and batches in progress. -/
structure State (S F C : Type) extends Table S F C where
  /-- `m_pendingEventCount`, as an integer so that a decrement below zero would show. -/
  pendingEventCount : Int
  /-- The calls that have started and not yet returned. -/
  calls : List (Call S F C × Stage)
  /-- What the workers still have to process. -/
  batches : List (List (Nat × EpollEvents))
  /-- Everything that sections have done so far. -/
  trace : List (Effect S F C)
  /-- The assertion that has aborted the process. -/
  abort : Option Abort

/-- The steps of the threads. -/
inductive Step (S F C : Type)
  /-- A thread calls an operation and looks its context up. -/
  | enter (call : Call S F C)
  /-- A call of `addEvent` resizes the table. -/
  | grow (i : Nat)
  /-- A call runs its section and returns; `rt` tells whether `epoll_ctl` succeeds. -/
  | commit (i : Nat) (rt : Bool)
  /-- `epoll_wait` returns these descriptors with these flags to a worker. -/
  | wait (events : List (Nat × EpollEvents))
  /-- A worker processes the next entry of its batch. -/
  | process (i : Nat) (rt : Bool)
  deriving DecidableEq, Repr

namespace State

/-- The manager after its constructor. -/
def init : State S F C where
  toTable := .init
  pendingEventCount := 0
  calls := []
  batches := []
  trace := []
  abort := none

/-- Run a section on the context `p` points to, and let its effects happen. -/
def runSection (p : Nat) (rt : Bool) (sec : Section S F C) (s : State S F C) :
    Option (State S F C) :=
  (s.toTable.exec p rt sec).map fun
    | .error a => { s with abort := some a }
    | .ok (table, effects) =>
      { s with
        toTable := table
        pendingEventCount := s.pendingEventCount + total Effect.delta effects
        trace := s.trace ++ effects }

/-- The read-locked lookup at the start of every operation. -/
def enter (call : Call S F C) (s : State S F C) : State S F C :=
  match s.toTable.lookup call with
  | some stage => { s with calls := s.calls ++ [(call, stage)] }
  | none => s

/-- The write-locked growing of the table, and the lookup after it. -/
def grow (i : Nat) (s : State S F C) : Option (State S F C) :=
  match s.calls[i]? with
  | some (call, .grow) =>
    let table := s.toTable.grow call
    match table.fdContexts[call.fd]? with
    | some p => some { s with toTable := table, calls := s.calls.set i (call, .locked p) }
    | none => some { s with toTable := table, abort := some .outOfBounds }
  | _ => none

/-- The section of a call, after which the call has returned. -/
def commit (i : Nat) (rt : Bool) (s : State S F C) : Option (State S F C) :=
  match s.calls[i]? with
  | some (call, .locked p) => { s with calls := s.calls.eraseIdx i }.runSection p rt call.toSection
  | _ => none

/-- `epoll_wait` -/
def wait (events : List (Nat × EpollEvents)) (s : State S F C) : Option (State S F C) :=
  (events.mapM (report s.interest)).map fun batch => { s with batches := s.batches ++ [batch] }

/-- The next entry of a batch. -/
def process (i : Nat) (rt : Bool) (s : State S F C) : Option (State S F C) :=
  match s.batches[i]? with
  | some ((p, event) :: rest) =>
    { s with batches := s.batches.set i rest }.runSection p rt (.process event)
  | _ => none

/-- One step of the system; none is possible after an abort. -/
def step (s : State S F C) (a : Step S F C) : Option (State S F C) :=
  if s.abort.isSome then none
  else
    match a with
    | .enter call => some (s.enter call)
    | .grow i => s.grow i
    | .commit i rt => s.commit i rt
    | .wait events => s.wait events
    | .process i rt => s.process i rt

end State

end Xupeng.IOManager
