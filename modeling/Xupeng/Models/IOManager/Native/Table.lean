import Mathlib.Logic.Function.Basic
import Xupeng.Core.Tally
import Xupeng.Models.IOManager.Native.Context

/-!
# The event table

`m_fdContexts` with its contexts, and the interest list of `m_epfd`. Contexts are
never freed while the manager lives, so a `FdContext *` is an index into the list
of all contexts ever made, and `m_fdContexts` holds such indices.

A public operation first looks its context up under the read lock of `m_mutex`,
or lets the table grow under the write lock, and later runs its section under the
mutex of the context.
-/

namespace Xupeng.IOManager

variable {S F C : Type}

/-- A section under `fd_ctx->mutex` with its arguments. -/
inductive Section (S F C : Type)
  | addEvent (caller : FdContext.Caller S F) (fd : Nat) (event : Event) (cb : Option C)
  | delEvent (fd : Nat) (event : Event)
  | cancelEvent (fd : Nat) (event : Event)
  | cancelAll (fd : Nat)
  | process (event : EpollEvents)
  deriving DecidableEq, Repr

/-- Run a section; `rt` tells whether its `epoll_ctl` succeeds. -/
def Section.exec (rt : Bool) (fd_ctx : FdContext S F C) :
    Section S F C → Except Abort (Result S F C)
  | .addEvent caller fd event cb => fd_ctx.addEvent caller fd event cb rt
  | .delEvent fd event => fd_ctx.delEvent fd event rt
  | .cancelEvent fd event => fd_ctx.cancelEvent fd event rt
  | .cancelAll fd => fd_ctx.cancelAll fd rt
  | .process event => fd_ctx.process event rt

/-- A public operation with its arguments. -/
inductive Call (S F C : Type)
  | addEvent (caller : FdContext.Caller S F) (fd : Nat) (event : Event) (cb : Option C)
  | delEvent (fd : Nat) (event : Event)
  | cancelEvent (fd : Nat) (event : Event)
  | cancelAll (fd : Nat)
  deriving DecidableEq, Repr

/-- The descriptor that the call is about. -/
def Call.fd : Call S F C → Nat
  | .addEvent _ fd _ _ => fd
  | .delEvent fd _ => fd
  | .cancelEvent fd _ => fd
  | .cancelAll fd => fd

/-- The section that the call runs under the mutex of its context. -/
def Call.toSection : Call S F C → Section S F C
  | .addEvent caller fd event cb => .addEvent caller fd event cb
  | .delEvent fd event => .delEvent fd event
  | .cancelEvent fd event => .cancelEvent fd event
  | .cancelAll fd => .cancelAll fd

/-- Where a call in progress stands. -/
inductive Stage
  /-- `addEvent` has found the table too short. -/
  | grow
  /-- The call holds the pointer to its context. -/
  | locked (fd_ctx : Nat)
  deriving DecidableEq, Repr

/-- The contexts and what the kernel has been told about them. -/
structure Table (S F C : Type) where
  /-- Every `FdContext` that has been made. -/
  contexts : List (FdContext S F C)
  /-- `m_fdContexts` -/
  fdContexts : List Nat
  /-- The interest list of `m_epfd`: for a descriptor, `data.ptr` and the mask. -/
  interest : Nat → Option (Nat × Event)

/-- The part of an effect that `m_pendingEventCount` sees. -/
def Effect.delta : Effect S F C → Int
  | .increment => 1
  | .decrement => -1
  | _ => 0

/-- A successful `epoll_ctl` sets or removes the interest in its descriptor. -/
def applyCtl (p : Nat) (interest : Nat → Option (Nat × Event)) :
    Option Ctl → Nat → Option (Nat × Event)
  | none => interest
  | some ⟨.DEL, fd, _⟩ => Function.update interest fd none
  | some ⟨_, fd, events⟩ => Function.update interest fd (some (p, events))

/-- What `epoll_wait` may report for a descriptor: some of the flags registered for it at
that moment, and errors and hang-ups in any case. -/
def report (interest : Nat → Option (Nat × Event)) (e : Nat × EpollEvents) :
    Option (Nat × EpollEvents) :=
  match interest e.1 with
  | some (p, mask) => if e.2.ready.without mask = .NONE then some (p, e.2) else none
  | none => none

/-- A descriptor is below a size as `(int)size > fd` tells it. -/
def covered (size fd : Nat) : Prop := (BitVec.ofNat 32 size).toInt > fd

instance (size fd : Nat) : Decidable (covered size fd) :=
  inferInstanceAs (Decidable ((BitVec.ofNat 32 size).toInt > fd))

namespace Table

/-- `contextResize` -/
def contextResize (size : Nat) (t : Table S F C) : Table S F C :=
  let kept := t.fdContexts.take size
  let missing := size - kept.length
  { t with
    fdContexts := kept ++ (List.range missing).map (t.contexts.length + ·)
    contexts := t.contexts ++ (List.range missing).map fun i => FdContext.new (kept.length + i) }

/-- The members as their initialisers leave them. -/
def blank : Table S F C := ⟨[], [], fun _ => none⟩

/-- The table after the constructor of the manager. -/
def init : Table S F C := blank.contextResize 32

/-- `(int)m_fdContexts.size() > fd` -/
def covers (fd : Nat) (t : Table S F C) : Prop := covered t.fdContexts.length fd

instance (fd : Nat) (t : Table S F C) : Decidable (t.covers fd) :=
  inferInstanceAs (Decidable (covered t.fdContexts.length fd))

/-- The read-locked lookup at the start of every operation; none when the operation returns
false at once. -/
def lookup (call : Call S F C) (t : Table S F C) : Option Stage :=
  if t.covers call.fd then t.fdContexts[call.fd]?.map .locked
  else
    match call with
    | .addEvent .. => some .grow
    | _ => none

/-- `contextResize(fd * 1.5)`, under the write lock. -/
def grow (call : Call S F C) (t : Table S F C) : Table S F C :=
  t.contextResize (call.fd * 3 / 2)

/-- Run a section on the context `p` points to. -/
def exec (p : Nat) (rt : Bool) (sec : Section S F C) (t : Table S F C) :
    Option (Except Abort (Table S F C × List (Effect S F C))) :=
  t.contexts[p]?.map fun fd_ctx => do
    let r ← sec.exec rt fd_ctx
    .ok ({ t with
      contexts := t.contexts.set p r.ctx
      interest := applyCtl p t.interest r.ctl }, r.effects)

end Table

end Xupeng.IOManager
