import Xupeng.Models.Hook.Native.System

/-!
# What `epoll_wait` reports

Here the entries that a worker processes come from `epoll_wait`: it returns an entry
first, and a worker processes it later, when the calls in progress may be others. The
state also tells for each `connect` in progress, identified by its `timer_info`, whether
its descriptor has been reported ready since `EINPROGRESS` was returned.
-/

namespace Xupeng.Hook

open IOManager (EpollEvents)

/-- The process with what `epoll_wait` has reported to its workers. -/
structure Polled where
  system : System
  /-- The entries that `epoll_wait` has returned and no worker has processed. -/
  entries : List (ContextPtr × EpollEvents)
  /-- The calls of `connect` that were waiting when their descriptor was reported ready. -/
  reported : List Nat

/-- The steps of the process and of the kernel. -/
inductive Polling
  /-- `epoll_wait` returns an entry for a context. -/
  | report (fd_ctx : ContextPtr) (event : EpollEvents)
  | act (a : Step)
  deriving DecidableEq, Repr

/-- The calls of `connect` in progress on the descriptor. -/
def System.connecting (fd : Nat) (s : System) : List Nat :=
  s.fibers.filterMap fun
    | .waiting w _ => if w.fn.isConnect ∧ w.fd = fd then some w.tinfo else none
    | _ => none

namespace Polled

/-- Nothing has been reported yet. -/
def init (n : Nat) (now : UInt64) (kernel : Kernel) : Polled := ⟨.init n now kernel, [], []⟩

/-- One step. A descriptor is ready for `connect` when `EPOLLOUT`, an error or a hang-up is
reported. -/
def step (x : Polled) : Polling → Option Polled
  | .report p event =>
    some { x with
      entries := x.entries ++ [(p, event)]
      reported :=
        if event.ready.write || event.failed then x.reported ++ x.system.connecting p.1
        else x.reported }
  | .act (.process p rt event) =>
    if (p, event) ∈ x.entries then
      (x.system.step (.process p rt event)).map fun s =>
        { x with system := s, entries := x.entries.erase (p, event) }
    else none
  | .act a => (x.system.step a).map fun s => { x with system := s }

end Polled

end Xupeng.Hook
