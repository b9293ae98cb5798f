import Xupeng.Core.Run
import Xupeng.Models.Hook.Interpretation.Managed
import Xupeng.Models.Kernel.Flags

/-!
# Sequences of `fcntl` and `ioctl` on one socket

The two functions through which a program reads and writes the flags of a descriptor.
On a socket with a context such a call is one call of the original function (`issued`),
it may change the user's flag (`user`), and it may change the result (`result`).
-/

namespace Xupeng.Hook

open Program

/-- A call of one of the two functions on a descriptor that is fixed. -/
inductive FlagCall
  | fcntl (cmd : Fcntl)
  | ioctl (request : Ioctl)
  deriving DecidableEq, Repr

namespace FlagCall

/-- The hooked function. -/
def call (fd : Int) (answer : Answer) : FlagCall → Program Empty Process Ret
  | .fcntl cmd => Hook.fcntl fd cmd answer
  | .ioctl request => Hook.ioctl fd request answer

/-- The call of the original function that the hooked one makes on a managed socket. -/
def issued (fd : Int) : FlagCall → SysCall
  | .fcntl (.flags c arg) => .fcntl fd (.flags c (arg ||| O_NONBLOCK))
  | .fcntl (.other c _) => .fcntl fd (.other c none)
  | .fcntl cmd => .fcntl fd cmd
  | .ioctl request => .ioctl fd request

/-- The user's flag after the call. -/
def user (v : Bool) : FlagCall → Bool
  | .fcntl (.flags _ arg) => hasFlag O_NONBLOCK arg
  | .ioctl (.fionbio (some arg)) => arg ≠ 0
  | _ => v

/-- What the hooked function returns for the result of the original one. -/
def result (v : Bool) (r : Ret) : FlagCall → Ret
  | .fcntl (.query _) => { r with value := (withNonblock v (BitVec.ofInt 32 r.value)).toInt }
  | _ => r

end FlagCall

/-- One call after the other on the descriptor. -/
def flagStep (fd : Int) (s : Process) (a : FlagCall × Answer) : Option Process :=
  match a.1.call fd a.2 s with
  | .ok _ t => some t
  | _ => none

namespace Managed

variable {fd : Int} {p : Nat} {ctx : FdCtx} {s t : Process} {answer : Answer}

theorem setUser_self (h : Managed fd p ctx s) : setUser p ctx.userNonblock s = s := by
  have hheap : (s.fds.heap.modify p fun c => { c with userNonblock := ctx.userNonblock }) =
      s.fds.heap := by
    apply List.ext_getElem?
    intro i
    rw [List.getElem?_modify]
    by_cases hi : p = i
    · subst hi
      simp [h.heap]
    · simp [hi]
  simp only [setUser, hheap]

/-- The call as a whole; `FIONBIO` with a pointer that cannot be read does not return. -/
theorem flagCall (h : Managed fd p ctx s) {a : FlagCall} (ha : a ≠ .ioctl (.fionbio none)) :
    a.call fd answer s =
      .ok (a.result ctx.userNonblock (s.kernel.call (a.issued fd) answer).2)
        { setUser p (a.user ctx.userNonblock) s with
          kernel := (s.kernel.call (a.issued fd) answer).1 } := by
  have hsame := h.setUser_self
  cases a with
  | fcntl cmd =>
    cases cmd with
    | flags c arg => exact h.fcntl_flags c arg
    | query c => simp only [FlagCall.user, hsame]; exact h.fcntl_query c
    | int c arg => simp only [FlagCall.user, hsame]; rfl
    | get c => simp only [FlagCall.user, hsame]; rfl
    | ptr c arg => simp only [FlagCall.user, hsame]; rfl
    | other c arg => simp only [FlagCall.user, hsame]; rfl
  | ioctl request =>
    cases request with
    | fionbio arg =>
      cases arg with
      | none => exact absurd rfl ha
      | some arg => exact h.ioctl_fionbio arg
    | other request arg => simp only [FlagCall.user, hsame]; rfl

/-- The socket stays managed, with the user's flag as the call leaves it. -/
theorem flagCall_managed (h : Managed fd p ctx s) (a : FlagCall) (k : Kernel) :
    Managed fd p { ctx with userNonblock := a.user ctx.userNonblock }
      { setUser p (a.user ctx.userNonblock) s with kernel := k } :=
  (h.user _).withKernel k

/-- A step takes place exactly when the call returns. -/
theorem flagStep_eq_some {a : FlagCall × Answer} (h : Managed fd p ctx s)
    (hs : flagStep fd s a = some t) :
    a.1 ≠ .ioctl (.fionbio none) ∧
      t = { setUser p (a.1.user ctx.userNonblock) s with
        kernel := (s.kernel.call (a.1.issued fd) a.2).1 } := by
  have ha : a.1 ≠ .ioctl (.fionbio none) := by
    intro ha
    simp [flagStep, ha, FlagCall.call, ioctl] at hs
  refine ⟨ha, ?_⟩
  simp only [flagStep, h.flagCall ha, Option.some.injEq] at hs
  exact hs.symm

/-- The descriptor stays open; its status flags change with `F_SETFL` and `FIONBIO` alone. -/
theorem file_issued {f : OpenFile} {k : Kernel} (hf : k.file fd = some f) (a : FlagCall)
    (answer : Answer) :
    (k.call (a.issued fd) answer).1.file fd =
      some { f with
        status := match a with
          | .fcntl (.flags c arg) => (Fcntl.flags c (arg ||| O_NONBLOCK)).status answer f.status
          | .fcntl _ => f.status
          | .ioctl request => request.status answer f.status } := by
  cases a with
  | fcntl cmd =>
    cases cmd with
    | flags c arg => exact Kernel.file_fcntl hf _ answer
    | query c => exact Kernel.file_fcntl hf (.query c) answer
    | int c arg => exact Kernel.file_fcntl hf (.int c arg) answer
    | get c => exact Kernel.file_fcntl hf (.get c) answer
    | ptr c arg => exact Kernel.file_fcntl hf (.ptr c arg) answer
    | other c arg => exact Kernel.file_fcntl hf (.other c none) answer
  | ioctl request => exact Kernel.file_ioctl hf request answer

end Managed

end Xupeng.Hook
