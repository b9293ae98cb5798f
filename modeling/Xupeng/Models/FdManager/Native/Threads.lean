import Xupeng.Models.FdManager.State

/-!
# Threads that ask for contexts

`get` has two locked sections, a lookup under the read lock and the making of a context
under the write lock, and other threads may run between them. Each section is one step.
The number of threads is not bounded: a call that has left its lookup is kept as the
descriptor it is for, and the results of the calls that have returned are kept with their
arguments.
-/

namespace Xupeng.FdManager

/-- A call of `get` that has returned. -/
structure Returned where
  fd : Int
  auto_create : Bool
  result : Option Nat
  deriving DecidableEq, Repr

/-- The process with the calls of `get` that its threads make. -/
structure Threads where
  process : Process
  /-- The calls between their two sections. -/
  pending : List Int
  returned : List Returned

/-- The steps of the threads. -/
inductive Access
  /-- The read-locked section of `get`. -/
  | lookup (fd : Int) (auto_create : Bool)
  /-- The write-locked section of a call that goes on to it. -/
  | create (i : Nat)
  | del (fd : Int)
  /-- `setTimeout` through the result of a call. -/
  | setTimeout (i : Nat) (type : Int) (v : UInt64)
  deriving DecidableEq, Repr

namespace Threads

def init (k : Kernel) : Threads := ⟨⟨.new, k⟩, [], []⟩

/-- One step; none for an access to `m_datas` outside of its bounds. -/
def step (s : Threads) : Access → Option Threads
  | .lookup fd auto_create =>
    match s.process.fds.find fd auto_create with
    | .ptr p => some { s with returned := s.returned ++ [⟨fd, auto_create, p⟩] }
    | .missing => some { s with pending := s.pending ++ [fd] }
    | .outOfBounds => none
  | .create i =>
    s.pending[i]?.bind fun fd =>
      let r := FdCtx.new fd s.process.kernel
      (s.process.fds.store fd r.1).map fun (fds, p) =>
        ⟨⟨fds, r.2⟩, s.pending.eraseIdx i, s.returned ++ [⟨fd, true, some p⟩]⟩
  | .del fd => (s.process.fds.del fd).map fun fds => { s with process.fds := fds }
  | .setTimeout i type v =>
    s.returned[i]?.bind fun r =>
      match modify r.result (·.setTimeout type v) s.process with
      | .ok _ process => some { s with process := process }
      | _ => none

end Threads

end Xupeng.FdManager
