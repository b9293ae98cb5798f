import Mathlib.Data.List.Basic

/-!
# Threads

The constructor of `Thread` starts a thread that runs `Thread::run` on the object, and
waits for the semaphore in the object until the new thread has taken what it needs from
it. After that the owner may join and destroy the object at any time, while the callback
can still reach it through `t_thread` in `SetName`.

Each object is kept together with the thread that it has started. The statements of `run`
are single steps. A callback is a function that is not empty.
-/

namespace Xupeng

/-- `Thread`, with callbacks in `C` -/
structure Thread (C : Type) where
  m_id : Int := -1
  /-- `m_thread` is not 0 -/
  m_thread : Bool := true
  /-- `m_cb`, a function that may be empty -/
  m_cb : Option C
  m_name : String
  /-- The count of `m_semaphore` -/
  m_semaphore : Nat := 0

namespace Thread

variable {C : Type}

/-- Up to the call of `pthread_create` in the constructor -/
def new (cb : C) (name : String) : Thread C where
  m_cb := some cb
  m_name := if name = "" then "UNKNOW" else name

/-- Whether the constructor is at work, has returned, or the object has come to its end. -/
inductive Life
  | making
  | made
  | gone
  deriving DecidableEq, Repr

/-- The statement of `run` that comes next. -/
inductive Pc
  | setThis
  | copyName
  | setId
  | setTitle
  | swapCb
  | notify
  | callCb
  | inCb
  | ended
  deriving DecidableEq, Repr

/-- A thread in `run`: its variables and what the kernel knows of it. -/
structure Execution (C : Type) where
  pc : Pc := .setThis
  /-- `GetThreadId()` -/
  tid : Int
  /-- `t_thread` is the object; before that it is null. -/
  t_thread : Bool := false
  t_thread_name : String := "UNKNOW"
  /-- The name that `pthread_setname_np` was given -/
  title : List Char := []
  cb : Option C := none
  /-- The callbacks that it has called -/
  called : List C := []

/-- An object and its thread. -/
structure Slot (C : Type) where
  object : Thread C
  life : Life := .making
  thread : Execution C
  /-- The object has been used after its end. -/
  dangling : Bool := false
  /-- The argument of the constructor; no step reads it. -/
  given : C

/-- What is done next with an object or its thread. -/
inductive Act
  /-- `m_semaphore.wait()` in the constructor, and whether `sem_wait` returns 0 -/
  | wait (success : Bool)
  /-- The next statement of `run`; in the callback, its return. -/
  | run
  /-- `Thread::SetName`, called by the callback -/
  | setName (name : String)
  | join
  /-- `~Thread` -/
  | destroy
  deriving DecidableEq, Repr

namespace Slot

/-- The thread uses the object, by a pointer. -/
def access (f : Thread C → Thread C) (thread : Execution C) (s : Slot C) : Slot C :=
  if s.life = .gone then { s with dangling := true }
  else { s with object := f s.object, thread := thread }

/-- A statement of `Thread::run`. -/
def run (s : Slot C) : Option (Slot C) :=
  match s.thread.pc with
  | .setThis =>
    some { s with thread := { s.thread with t_thread := true, pc := .copyName } }
  | .copyName =>
    some (s.access id { s.thread with t_thread_name := s.object.m_name, pc := .setId })
  | .setId =>
    some (s.access (fun o => { o with m_id := s.thread.tid }) { s.thread with pc := .setTitle })
  | .setTitle =>
    some (s.access id
      { s.thread with title := s.object.m_name.toList.take 15, pc := .swapCb })
  | .swapCb =>
    some (s.access (fun o => { o with m_cb := s.thread.cb })
      { s.thread with cb := s.object.m_cb, pc := .notify })
  | .notify =>
    some (s.access (fun o => { o with m_semaphore := o.m_semaphore + 1 })
      { s.thread with pc := .callCb })
  | .callCb =>
    s.thread.cb.map fun cb =>
      { s with thread := { s.thread with called := s.thread.called ++ [cb], pc := .inCb } }
  | .inCb => some { s with thread := { s.thread with pc := .ended } }
  | .ended => none

/-- `Thread::SetName` -/
def setName (name : String) (s : Slot C) : Slot C :=
  if name = "" then s
  else if s.thread.t_thread then
    s.access (fun o => { o with m_name := name }) { s.thread with t_thread_name := name }
  else { s with thread := { s.thread with t_thread_name := name } }

def step (s : Slot C) : Act → Option (Slot C)
  | .wait true =>
    if s.life = .making ∧ 0 < s.object.m_semaphore then
      some { s with
        object := { s.object with m_semaphore := s.object.m_semaphore - 1 }
        life := .made }
    else none
  -- `wait` throws, and so does the constructor
  | .wait false => if s.life = .making then some { s with life := .gone } else none
  | .run => s.run
  | .setName name => if s.thread.pc = .inCb then some (s.setName name) else none
  | .join =>
    if s.life = .made then
      if s.object.m_thread then
        -- `pthread_join` waits
        if s.thread.pc = .ended then
          some { s with object := { s.object with m_thread := false } }
        else none
      else some s
    else none
  | .destroy => if s.life = .made then some { s with life := .gone } else none

end Slot

/-- All threads of the process, and what a scheduler knows of its own. -/
structure System (C : Type) where
  slots : List (Slot C) := []
  /-- The objects that `Scheduler::start` has made -/
  m_threads : List Nat := []
  m_threadIds : List Int := []

namespace System

/-- What is done next. -/
inductive Step (C : Type)
  /-- A constructor up to `pthread_create`, with the id of the new thread unless that fails -/
  | construct (cb : C) (name : String) (created : Option Int)
  | act (i : Nat) (a : Act)
  /-- `m_threadIds.push_back(m_threads[i]->getId())` in `Scheduler::start` -/
  | pushId (i : Nat)

def step (s : System C) : Step C → Option (System C)
  -- the constructor throws
  | .construct _ _ none => some s
  | .construct cb name (some tid) =>
    some { s with
      slots := s.slots ++ [{ object := .new cb name, thread := { tid := tid }, given := cb }] }
  | .act i a =>
    s.slots[i]?.bind fun slot =>
      (slot.step a).map fun slot => { s with slots := s.slots.set i slot }
  | .pushId i =>
    s.slots[i]?.bind fun slot =>
      if slot.life = .made then
        some { s with
          m_threads := s.m_threads ++ [i]
          m_threadIds := s.m_threadIds ++ [slot.object.m_id] }
      else none

end System

end Thread

end Xupeng
