import Xupeng.Models.FdManager.Interpretation.Entries
import Xupeng.Models.Hook.Native.Functions

/-!
# Hooked calls on a descriptor with a context and on one without

`get` without `auto_create` reads the entry of a descriptor that is not negative. On a
descriptor without a context `fcntl` and `ioctl` call the original function; on a socket
with a context each of them comes down to one call of the original function, with a
change of the user's flag before it or of the result after it.
-/

namespace Xupeng.Hook

open Program

variable {fd : Int} {p : Nat} {ctx : FdCtx} {s : Process} {answer : Answer}

theorem managed_of_neg (h : fd < 0) (s : Process) : managed fd s = .fault :=
  bind_of_fault (FdManager.get_of_neg h false s)

/-! ## Without a context -/

/-- A descriptor without a context. -/
theorem managed_of_null (h : 0 ≤ fd) (hnull : s.fds.ptr fd = none) :
    managed fd s = .ok none s := by
  unfold managed
  rw [bind_of_ok (FdManager.get_of_found h false (.inr rfl)), hnull]
  rfl

/-- The original function always comes to its end. -/
theorem original_eq (c : SysCall) (answer : Answer) (s : Process) :
    original c answer s =
      .ok (s.kernel.call c answer).2 { s with kernel := (s.kernel.call c answer).1 } := rfl

/-- On a descriptor without a context `fcntl` is the original function, but for the argument of
a command that the switch does not list. -/
theorem fcntl_of_null (h : 0 ≤ fd) (hnull : s.fds.ptr fd = none) {cmd : Fcntl}
    (hcmd : ∀ c arg, cmd ≠ .other c (some arg)) :
    fcntl fd cmd answer s = original (.fcntl fd cmd) answer s := by
  cases cmd with
  | flags c arg => exact bind_of_ok (managed_of_null h hnull)
  | query c =>
    have hafter : ({ s with kernel := (s.kernel.call (.fcntl fd (.query c)) answer).1 } :
        Process).fds.ptr fd = none := hnull
    exact (bind_of_ok (original_eq _ _ _)).trans (bind_of_ok (managed_of_null h hafter))
  | int c arg => rfl
  | get c => rfl
  | ptr c arg => rfl
  | other c arg =>
    cases arg with
    | none => rfl
    | some arg => exact absurd rfl (hcmd c arg)

/-- Without a context `ioctl` is the original one. -/
theorem ioctl_of_null (h : 0 ≤ fd) (hnull : s.fds.ptr fd = none) (arg : BitVec 32) :
    ioctl fd (.fionbio (some arg)) answer s =
      original (.ioctl fd (.fionbio (some arg))) answer s :=
  bind_of_ok (managed_of_null h hnull)

/-! ## With the context of a socket -/

/-- A socket with a context, as `FdCtx::init` leaves it and the hooked functions keep it: only
the user's flag and the timeouts are still free. -/
structure Managed (fd : Int) (p : Nat) (ctx : FdCtx) (s : Process) : Prop where
  ptr : s.fds.ptr fd = some p
  heap : s.fds.heap[p]? = some ctx
  isSocket : ctx.isSocket = true
  isClosed : ctx.isClosed = false
  sysNonblock : ctx.sysNonblock = true

namespace Managed

/-- A descriptor with a context is not negative. -/
theorem nonneg (h : Managed fd p ctx s) : 0 ≤ fd := FdManager.nonneg_of_ptr h.ptr

theorem managed (h : Managed fd p ctx s) : Hook.managed fd s = .ok (some (some p, ctx)) s := by
  unfold Hook.managed
  rw [bind_of_ok (FdManager.get_of_found h.nonneg false (.inr rfl)), h.ptr]
  have hderef : FdManager.deref (some p) s = .ok (some ctx) s := by
    simp [FdManager.deref, h.heap]
  rw [bind_of_ok hderef]
  simp only [Option.filter, h.isClosed, h.isSocket]
  rfl

/-- Calls change the kernel, not the contexts. -/
theorem withKernel (h : Managed fd p ctx s) (k : Kernel) :
    Managed fd p ctx { s with kernel := k } :=
  ⟨h.ptr, h.heap, h.isSocket, h.isClosed, h.sysNonblock⟩

/-- The state after `setUserNonblock(v)`. -/
def setUser (p : Nat) (v : Bool) (s : Process) : Process :=
  { s with fds := { s.fds with heap := s.fds.heap.modify p fun c => { c with userNonblock := v } } }

theorem user (h : Managed fd p ctx s) (v : Bool) :
    Managed fd p { ctx with userNonblock := v } (setUser p v s) where
  ptr := h.ptr
  heap := by simp [setUser, h.heap]
  isSocket := h.isSocket
  isClosed := h.isClosed
  sysNonblock := h.sysNonblock

/-- The commands with flags: the argument becomes the user's flag, and the original function
gets it with `O_NONBLOCK` set. -/
theorem fcntl_flags (h : Managed fd p ctx s) (c : FlagCmd) (arg : BitVec 32) :
    fcntl fd (.flags c arg) answer s =
      original (.fcntl fd (.flags c (arg ||| O_NONBLOCK))) answer
        (setUser p (hasFlag O_NONBLOCK arg) s) := by
  refine (bind_of_ok h.managed).trans ?_
  simp only [withNonblock, h.sysNonblock, if_true]
  rfl

/-- The commands that ask for flags: the result of the original function with the user's flag
in the place of `O_NONBLOCK`. -/
theorem fcntl_query (h : Managed fd p ctx s) (c : QueryCmd) :
    fcntl fd (.query c) answer s =
      let r := s.kernel.call (.fcntl fd (.query c)) answer
      .ok { r.2 with
          value := (withNonblock ctx.userNonblock (BitVec.ofInt 32 r.2.value)).toInt }
        { s with kernel := r.1 } := by
  exact (bind_of_ok (original_eq _ _ _)).trans (bind_of_ok (h.withKernel _).managed)

/-- `FIONBIO`: the user's flag is set and the original function gets the same argument. -/
theorem ioctl_fionbio (h : Managed fd p ctx s) (arg : BitVec 32) :
    ioctl fd (.fionbio (some arg)) answer s =
      original (.ioctl fd (.fionbio (some arg))) answer (setUser p (arg ≠ 0) s) := by
  exact bind_of_ok h.managed

end Managed

end Xupeng.Hook
