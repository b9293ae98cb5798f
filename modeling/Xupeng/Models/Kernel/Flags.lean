import Xupeng.Models.Kernel.State

/-!
# What calls on a descriptor do to its flags

`fcntl` and `ioctl` leave the descriptor open. The status flags of its open file
description change with `F_SETFL` and `FIONBIO` alone, and only if the call succeeds.
-/

namespace Xupeng

open BitVec

variable {k : Kernel} {fd : Int} {f : OpenFile}

theorem hasFlag_or_nonblock (x : BitVec 32) : hasFlag O_NONBLOCK (x ||| O_NONBLOCK) = true :=
  hasFlag_or (by decide) x

/-- Clearing the flag clears it. -/
theorem hasFlag_and_not_nonblock (x : BitVec 32) :
    hasFlag O_NONBLOCK (x &&& ~~~O_NONBLOCK) = false :=
  hasFlag_and_not (by decide) x

/-- `F_SETFL` sets `O_NONBLOCK` as its argument says. -/
theorem hasFlag_setfl (x arg : BitVec 32) :
    hasFlag O_NONBLOCK (x &&& ~~~SETFL_MASK ||| arg &&& SETFL_MASK) = hasFlag O_NONBLOCK arg := by
  have hmask : SETFL_MASK.getLsbD 11 = true := by decide
  unfold O_NONBLOCK
  rw [hasFlag_twoPow (by decide), hasFlag_twoPow (by decide)]
  simp only [getLsbD_or, getLsbD_and, getLsbD_not, hmask]
  simp

/-- Whether the kernel refuses a call. -/
def Answer.isRefusal : Answer → Bool
  | .fails _ => true
  | .succeeds _ => false

/-- The status flags after `fcntl`. -/
def Fcntl.status (answer : Answer) (status : BitVec 32) : Fcntl → BitVec 32
  | .flags .F_SETFL arg =>
    match answer with
    | .succeeds _ => status &&& ~~~SETFL_MASK ||| arg &&& SETFL_MASK
    | .fails _ => status
  | _ => status

/-- The status flags after `ioctl`. -/
def Ioctl.status (answer : Answer) (status : BitVec 32) : Ioctl → BitVec 32
  | .fionbio (some arg) =>
    match answer with
    | .succeeds _ => if arg ≠ 0 then status ||| O_NONBLOCK else status &&& ~~~O_NONBLOCK
    | .fails _ => status
  | _ => status

namespace Kernel

/-- An open file is reached through its descriptor. -/
theorem exists_descriptor (h : k.file fd = some f) :
    ∃ d, k.descriptors fd = some d ∧ k.files[d.file]? = some f := by
  simpa [file, Option.bind_eq_some_iff] using h

/-- The flag is kept in the status of the file. -/
theorem nonblock_of_file (h : k.file fd = some f) :
    k.nonblock fd = hasFlag O_NONBLOCK f.status := by
  simp [nonblock, h]

/-- A descriptor that does not block is open. -/
theorem exists_file_of_nonblock (h : k.nonblock fd = true) :
    ∃ f, k.file fd = some f ∧ hasFlag O_NONBLOCK f.status = true := by
  simpa only [nonblock, Option.any_eq_true] using h

/-- On a descriptor that exists a call that is not refused is performed. -/
theorem call_of_file {c : SysCall} (hc : fdOf c = some fd) {d : Descriptor}
    (hd : k.descriptors fd = some d) (hf : k.file fd = some f) (v : Int) :
    k.call c (.succeeds v) = { k with log := k.log ++ [c] }.perform d f v c := by
  have hlog : ({ k with log := k.log ++ [c] } : Kernel).file fd = some f := hf
  simp only [call, hc, hd, hlog]

/-- A call on a descriptor that does not exist fails. -/
theorem call_of_not_file {c : SysCall} (hc : fdOf c = some fd) (hf : k.file fd = none) (v : Int) :
    k.call c (.succeeds v) = ({ k with log := k.log ++ [c] }, .error EBADF) := by
  have hlog : ({ k with log := k.log ++ [c] } : Kernel).file fd = none := hf
  simp only [call, hc, hlog]
  cases k.descriptors fd <;> rfl

/-- The status that was set is there. -/
theorem file_setStatus (h : k.file fd = some f) (status : BitVec 32) :
    (k.setStatus fd status).file fd = some { f with status := status } := by
  obtain ⟨d, hd, hf⟩ := exists_descriptor h
  simp [setStatus, file, hd, hf]

/-- `FD_CLOEXEC` belongs to the descriptor. -/
theorem file_setfd {d : Descriptor} (hd : k.descriptors fd = some d) (h : k.file fd = some f)
    (cloexec : Bool) :
    ({ k with descriptors := Function.update k.descriptors fd (some ⟨d.file, cloexec⟩) } :
      Kernel).file fd = some f := by
  simpa [file, hd] using h

/-- A duplicate gets another number. -/
theorem file_dup (h : k.file fd = some f) (d : Descriptor) (cloexec : Bool) (arg : BitVec 32)
    (v : Int) : (k.dup d cloexec arg v).1.file fd = some f := by
  unfold dup
  split
  · rename_i hfree
    have hne : fd ≠ v := by
      rintro rfl
      obtain ⟨d, hd, -⟩ := exists_descriptor h
      simp [free, hd] at hfree
    simpa [file, Function.update_of_ne hne] using h
  · exact h

/-- The open file description behind the descriptor after `fcntl`. -/
theorem file_fcntl (h : k.file fd = some f) (cmd : Fcntl) (answer : Answer) :
    (k.call (.fcntl fd cmd) answer).1.file fd =
      some { f with status := cmd.status answer f.status } := by
  obtain ⟨d, hd, hf⟩ := exists_descriptor h
  cases answer with
  | fails errno =>
    have hsame : cmd.status (.fails errno) f.status = f.status := by
      unfold Fcntl.status
      split <;> rfl
    rw [hsame]
    exact h
  | succeeds v =>
    have hlog : ({ k with log := k.log ++ [.fcntl fd cmd] } : Kernel).file fd = some f := h
    rw [call_of_file rfl hd h]
    cases cmd with
    | flags c arg =>
      cases c with
      | F_DUPFD => exact file_dup hlog d false arg v
      | F_DUPFD_CLOEXEC => exact file_dup hlog d true arg v
      | F_SETFD => exact file_setfd hd hlog _
      | F_SETFL => exact file_setStatus hlog _
    | query c => cases c <;> exact hlog
    | int c arg => exact hlog
    | get c => exact hlog
    | ptr c arg => exact hlog
    | other c arg => exact hlog

/-- The open file description behind the descriptor after `ioctl`. -/
theorem file_ioctl (h : k.file fd = some f) (request : Ioctl) (answer : Answer) :
    (k.call (.ioctl fd request) answer).1.file fd =
      some { f with status := request.status answer f.status } := by
  obtain ⟨d, hd, hf⟩ := exists_descriptor h
  cases answer with
  | fails errno =>
    have hsame : request.status (.fails errno) f.status = f.status := by
      unfold Ioctl.status
      split <;> rfl
    rw [hsame]
    exact h
  | succeeds v =>
    have hlog : ({ k with log := k.log ++ [.ioctl fd request] } : Kernel).file fd = some f := h
    rw [call_of_file rfl hd h]
    cases request with
    | fionbio arg =>
      cases arg with
      | none => exact hlog
      | some arg => exact file_setStatus hlog _
    | other request arg => exact hlog

/-- An `accept` that succeeds makes a blocking socket under the number it returns. -/
theorem file_accept {addr addrlen : Nat} {answer : Answer}
    (h : 0 ≤ (k.call (.io (.accept addr addrlen) fd) answer).2.value) :
    (k.call (.io (.accept addr addrlen) fd) answer).1.file
      (k.call (.io (.accept addr addrlen) fd) answer).2.value = some ⟨true, O_RDWR⟩ := by
  have hfails : ¬ (0 : Int) ≤ -1 := by decide
  cases answer with
  | fails errno => exact absurd h hfails
  | succeeds v =>
    cases hf : k.file fd with
    | none =>
      rw [call_of_not_file rfl hf] at h
      exact absurd h hfails
    | some f =>
      obtain ⟨d, hd, -⟩ := exists_descriptor hf
      rw [call_of_file rfl hd hf] at h ⊢
      change 0 ≤ (newSocket _ _ _).2.value at h
      change (newSocket _ _ _).1.file (newSocket _ _ _).2.value = _
      unfold newSocket at h ⊢
      split
      · simp [openFile, file, Ret.ok]
      · rename_i hfree
        rw [if_neg hfree] at h
        exact absurd h hfails

/-! ## The log -/

theorem log_newSocket (status : BitVec 32) (v : Int) (k : Kernel) :
    (k.newSocket status v).1.log = k.log := by
  unfold newSocket
  split <;> rfl

theorem log_setStatus (fd : Int) (status : BitVec 32) (k : Kernel) :
    (k.setStatus fd status).log = k.log := by
  unfold setStatus
  split <;> rfl

theorem log_dup (d : Descriptor) (cloexec : Bool) (arg : BitVec 32) (v : Int) (k : Kernel) :
    (k.dup d cloexec arg v).1.log = k.log := by
  unfold dup
  split <;> rfl

theorem log_fcntl (fd : Int) (d : Descriptor) (f : OpenFile) (v : Int) (k : Kernel) (cmd : Fcntl) :
    (k.fcntl fd d f v cmd).1.log = k.log := by
  cases cmd with
  | flags c arg =>
    cases c with
    | F_DUPFD => exact log_dup d false arg v k
    | F_DUPFD_CLOEXEC => exact log_dup d true arg v k
    | F_SETFD => rfl
    | F_SETFL => exact log_setStatus fd _ k
  | query c => cases c <;> rfl
  | int c arg => rfl
  | get c => rfl
  | ptr c arg => rfl
  | other c arg => rfl

theorem log_perform (d : Descriptor) (f : OpenFile) (v : Int) (k : Kernel) (c : SysCall) :
    (k.perform d f v c).1.log = k.log := by
  cases c with
  | io fn fd =>
    cases fn with
    | accept addr addrlen => exact log_newSocket O_RDWR v k
    | _ => rfl
  | close fd => rfl
  | fcntl fd cmd => exact log_fcntl fd d f v k cmd
  | ioctl fd request =>
    cases request with
    | fionbio arg =>
      cases arg with
      | none => rfl
      | some arg => exact log_setStatus fd _ k
    | other request arg => rfl
  | _ => rfl

/-- Every call is logged, with its arguments. -/
theorem log_call (c : SysCall) (answer : Answer) (k : Kernel) :
    (k.call c answer).1.log = k.log ++ [c] := by
  cases answer with
  | fails errno => rfl
  | succeeds v =>
    unfold call
    dsimp only
    split
    · split
      · exact log_perform ..
      · rfl
    · split
      · exact log_newSocket ..
      · rfl

end Kernel

end Xupeng
