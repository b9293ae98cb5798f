import Xupeng.Core.History
import Xupeng.Models.Hook.Correctness.Nonblocking

/-!
# How faithfully the user's flag is virtualised

Beside the run stands the flag as the last `F_SETFL` or `FIONBIO` that succeeded has set
it. A call is virtual if `F_GETFL` would report this flag afterwards, and any other
command reaches the kernel with its argument and returns what the kernel returned.

The code sends `F_DUPFD`, `F_DUPFD_CLOEXEC` and `F_SETFD` through the branch of
`F_SETFL`, and `F_GETFD` through the branch of `F_GETFL`.
-/

namespace Xupeng.Hook

variable {fd : Int} {s : Process} {v : Bool} {a : FlagCall × Answer}

/-- What the call sets the flag to, if it is one of those that set it. -/
def FlagCall.asked : FlagCall → Option Bool
  | .fcntl (.flags .F_SETFL arg) => some (hasFlag O_NONBLOCK arg)
  | .ioctl (.fionbio (some arg)) => some (arg ≠ 0)
  | _ => none

/-- The flag as the program sees it, after a call. -/
def recordFlag (_ : Process) (a : FlagCall × Answer) (_ : Process) (v : Bool) : Bool :=
  if a.2.isRefusal then v else a.1.asked.getD v

/-- The user's flag in the context of a descriptor. -/
def userFlag (fd : Int) (s : Process) : Option Bool :=
  ((s.fds.ptr fd).bind fun p => s.fds.heap[p]?).map (·.userNonblock)

/-- The result `r` reports the flag `v`, and the other flags as in the result `r'` of the
kernel. -/
def Reports (v : Bool) (r r' : Ret) : Prop :=
  hasFlag O_NONBLOCK (BitVec.ofInt 32 r.value) = v ∧
    BitVec.ofInt 32 r.value &&& ~~~O_NONBLOCK = BitVec.ofInt 32 r'.value &&& ~~~O_NONBLOCK

/-- What a call has to do beside keeping the flag: `F_GETFL` reports it, and the commands that
do not set it are calls of the original function with the same argument and the same result. -/
def Passed (fd : Int) (v : Bool) (k : Kernel) (a : FlagCall × Answer) (r : Ret) (k' : Kernel) :
    Prop :=
  match a.1 with
  | .fcntl (.flags .F_SETFL _) | .ioctl _ => True
  | .fcntl (.query .F_GETFL) => Reports v r (k.call (.fcntl fd (.query .F_GETFL)) a.2).2
  | .fcntl cmd => (k', r) = k.call (.fcntl fd cmd) a.2

/-- The call returns, and it is faithful to the flag `x.2`. -/
def Virtual (fd : Int) (x : Process × Bool) (a : FlagCall × Answer) : Prop :=
  ∃ r t, a.1.call fd a.2 x.1 = .ok r t ∧ userFlag fd t = some (recordFlag x.1 a t x.2) ∧
    Passed fd x.2 x.1.kernel a r t.kernel

/-- The commands of `fcntl` that are faithful. One that shares the branch of `F_SETFL` has the
flag in its argument and finds it set; `F_GETFD` finds it clear, or set if the kernel refuses;
one that the switch does not list has no argument. -/
def SeparateFcntl (refused v : Bool) : Fcntl → Prop
  | .flags c arg =>
    if c = .F_SETFL then refused → hasFlag O_NONBLOCK arg = v
    else hasFlag O_NONBLOCK arg = true ∧ v = true
  | .query c => c = .F_GETFD → refused = v
  | .other _ arg => arg = none
  | .int .. | .get .. | .ptr .. => True

/-- The calls that are faithful. The pointer of `FIONBIO` can be read, and a call that the kernel
refuses asks for the flag as it is. -/
def Separate (x : Process × Bool) (a : FlagCall × Answer) : Prop :=
  match a.1 with
  | .fcntl cmd => SeparateFcntl a.2.isRefusal x.2 cmd
  | .ioctl (.fionbio none) => False
  | .ioctl (.fionbio (some arg)) => a.2.isRefusal → decide (arg ≠ 0) = x.2
  | .ioctl (.other ..) => True

instance (refused v : Bool) (cmd : Fcntl) : Decidable (SeparateFcntl refused v cmd) := by
  cases cmd <;> unfold SeparateFcntl <;> infer_instance

instance (x : Process × Bool) (a : FlagCall × Answer) : Decidable (Separate x a) := by
  unfold Separate
  split <;> infer_instance

/-! ## The flag in a word -/

/-- The flag is the one that was put in. -/
theorem hasFlag_withNonblock (v : Bool) (x : BitVec 32) :
    hasFlag O_NONBLOCK (withNonblock v x) = v := by
  cases v with
  | false => exact hasFlag_and_not_nonblock x
  | true => exact hasFlag_or_nonblock x

/-- Only the one flag changes. -/
theorem withNonblock_and_not (v : Bool) (x : BitVec 32) :
    withNonblock v x &&& ~~~O_NONBLOCK = x &&& ~~~O_NONBLOCK := by
  apply BitVec.eq_of_getLsbD_eq
  intro i hi
  cases v <;>
    cases hx : x.getLsbD i <;> cases hflag : O_NONBLOCK.getLsbD i <;>
      simp [withNonblock, hx, hflag]

/-- A word stays as it is exactly when it has the flag that is put in. -/
theorem withNonblock_eq_self_iff (v : Bool) (x : BitVec 32) :
    withNonblock v x = x ↔ hasFlag O_NONBLOCK x = v := by
  cases v with
  | false => exact and_not_eq_self_iff (by decide) x
  | true => exact or_eq_self_iff (by decide) x

/-- `F_GETFD` reports 0 or 1, and -1 if the kernel refuses. -/
theorem value_getfd {k : Kernel} {f : OpenFile} (hf : k.file fd = some f) (answer : Answer) :
    (k.call (.fcntl fd (.query .F_GETFD)) answer).2.value ∈
      if answer.isRefusal then [(-1 : Int)] else [0, 1] := by
  cases answer with
  | fails errno => exact List.mem_singleton.mpr rfl
  | succeeds n =>
    obtain ⟨d, hd, -⟩ := Kernel.exists_descriptor hf
    rw [Kernel.call_of_file rfl hd hf]
    have hvalue (c : Bool) : (if c then (1 : Int) else 0) ∈ [(0 : Int), 1] := by
      cases c <;> decide
    exact hvalue d.cloexec

/-- The result of `F_GETFD` passes through unchanged exactly when the flag is set and the kernel
refuses, or neither. -/
theorem getfd_eq_self_iff {k : Kernel} {f : OpenFile} (hf : k.file fd = some f) (answer : Answer) :
    (withNonblock v (BitVec.ofInt 32
        (k.call (.fcntl fd (.query .F_GETFD)) answer).2.value)).toInt =
      (k.call (.fcntl fd (.query .F_GETFD)) answer).2.value ↔ answer.isRefusal = v := by
  have hvalue := value_getfd hf answer
  generalize (k.call (.fcntl fd (.query .F_GETFD)) answer).2.value = n at hvalue ⊢
  have hfacts : (BitVec.ofInt 32 n).toInt = n ∧
      hasFlag O_NONBLOCK (BitVec.ofInt 32 n) = answer.isRefusal := by
    cases hans : answer.isRefusal <;> rw [hans] at hvalue
    · obtain rfl | rfl := List.mem_pair.mp hvalue <;> decide
    · obtain rfl := List.mem_singleton.mp hvalue
      decide
  rw [← hfacts.2, ← withNonblock_eq_self_iff, ← BitVec.toInt_inj, hfacts.1]

/-! ## One call -/

/-- The context of the socket has the flag as the program sees it. -/
structure Faithful (fd : Int) (x : Process × Bool) : Prop where
  managed : ∃ p ctx, Managed fd p ctx x.1 ∧ ctx.userNonblock = x.2
  opened : ∃ f, x.1.kernel.file fd = some f

/-- What the user sees is kept in the context. -/
theorem Managed.userFlag_eq {p : Nat} {ctx : FdCtx} (h : Managed fd p ctx s) :
    userFlag fd s = some ctx.userNonblock := by
  simp [userFlag, h.ptr, h.heap]

/-- Two calls with one effect on the kernel have the same arguments. -/
theorem issued_inj {k : Kernel} {c c' : SysCall} {answer : Answer} {r r' : Ret}
    (h : ((k.call c answer).1, r) = ((k.call c' answer).1, r')) : c = c' := by
  have hlog := congrArg (fun x => x.1.log) h
  simpa only [Kernel.log_call, List.append_cancel_left_eq, List.cons.injEq, and_true] using hlog

/-- A call that returns is faithful if it leaves the flag as it should be and passes the rest. -/
theorem Faithful.virtual_iff_passed {x : Process × Bool} (h : Faithful fd x)
    (ha : a.1 ≠ .ioctl (.fionbio none)) :
    Virtual fd x a ↔ a.1.user x.2 = recordFlag x.1 a x.1 x.2 ∧
      Passed fd x.2 x.1.kernel a (a.1.result x.2 (x.1.kernel.call (a.1.issued fd) a.2).2)
        (x.1.kernel.call (a.1.issued fd) a.2).1 := by
  obtain ⟨p, ctx, hm, hv⟩ := h.managed
  have hflag := (hm.flagCall_managed a.1 (x.1.kernel.call (a.1.issued fd) a.2).1).userFlag_eq
  unfold Virtual
  rw [hm.flagCall ha]
  rw [hv] at hflag ⊢
  constructor
  · rintro ⟨r, t, heq, hrec, hpass⟩
    simp only [Outcome.ok.injEq] at heq
    obtain ⟨rfl, rfl⟩ := heq
    rw [hflag] at hrec
    exact ⟨Option.some.inj hrec, hpass⟩
  · rintro ⟨hrec, hpass⟩
    exact ⟨_, _, rfl, hflag.trans (congrArg some hrec), hpass⟩

/-- The commands of `fcntl`. -/
theorem Faithful.virtual_fcntl_iff {x : Process × Bool} (h : Faithful fd x) (cmd : Fcntl)
    (answer : Answer) :
    Virtual fd x (.fcntl cmd, answer) ↔ SeparateFcntl answer.isRefusal x.2 cmd := by
  obtain ⟨f, hf⟩ := h.opened
  have hne : FlagCall.fcntl cmd ≠ .ioctl (.fionbio none) := by
    intro heq
    cases heq
  rw [h.virtual_iff_passed (a := (.fcntl cmd, answer)) hne]
  cases cmd with
  | flags c arg =>
    have hsame := or_eq_self_iff (by decide : 11 < 32) arg
    by_cases hc : c = .F_SETFL
    · subst hc
      simp only [SeparateFcntl, if_true, FlagCall.user, recordFlag, FlagCall.asked,
        Option.getD_some, Passed, and_true]
      cases answer.isRefusal <;> simp
    · have hrec : recordFlag x.1 (.fcntl (.flags c arg), answer) x.1 x.2 = x.2 := by
        cases c <;> first | exact absurd rfl hc | exact ite_self x.2
      have hpass {r k'} : Passed fd x.2 x.1.kernel (.fcntl (.flags c arg), answer) r k' ↔
          (k', r) = x.1.kernel.call (.fcntl fd (.flags c arg)) answer := by
        cases c <;> first | exact absurd rfl hc | exact Iff.rfl
      simp only [SeparateFcntl, if_neg hc, hrec, hpass]
      constructor
      · rintro ⟨huser, heq⟩
        have harg := issued_inj heq
        simp only [FlagCall.issued, SysCall.fcntl.injEq, Fcntl.flags.injEq, true_and] at harg
        exact ⟨hsame.mp harg, huser.symm.trans (hsame.mp harg)⟩
      · rintro ⟨hset, hv⟩
        refine ⟨hset.trans hv.symm, ?_⟩
        simp only [FlagCall.issued, FlagCall.result]
        rw [show arg ||| O_NONBLOCK = arg from hsame.mpr hset]
  | query c =>
    have hrec : recordFlag x.1 (.fcntl (.query c), answer) x.1 x.2 = x.2 := ite_self x.2
    cases c with
    | F_GETFD =>
      have hiff := getfd_eq_self_iff (v := x.2) hf answer
      constructor
      · rintro ⟨-, heq⟩ -
        exact hiff.mp (congrArg (fun y => y.2.value) heq)
      · intro hsep
        refine ⟨hrec.symm, Prod.ext rfl ?_⟩
        exact congrArg (Ret.mk · _) (hiff.mpr (hsep rfl))
    | F_GETFL =>
      refine iff_of_true ⟨hrec.symm, ?_, ?_⟩ (fun hgetfd => ?_)
      · simp only [FlagCall.result, BitVec.ofInt_toInt, hasFlag_withNonblock]
      · simp only [FlagCall.result, BitVec.ofInt_toInt, withNonblock_and_not]
        rfl
      · cases hgetfd
  | int c arg => exact iff_of_true ⟨(ite_self x.2).symm, rfl⟩ trivial
  | get c => exact iff_of_true ⟨(ite_self x.2).symm, rfl⟩ trivial
  | ptr c arg => exact iff_of_true ⟨(ite_self x.2).symm, rfl⟩ trivial
  | other c arg =>
    constructor
    · rintro ⟨-, heq⟩
      have harg := issued_inj heq
      simp only [FlagCall.issued, SysCall.fcntl.injEq, Fcntl.other.injEq, true_and] at harg
      exact harg.symm
    · rintro rfl
      exact ⟨(ite_self x.2).symm, rfl⟩

/-- A call is faithful exactly under the condition. -/
theorem Faithful.virtual_iff {x : Process × Bool} (h : Faithful fd x) (a : FlagCall × Answer) :
    Virtual fd x a ↔ Separate x a := by
  obtain ⟨call, answer⟩ := a
  cases call with
  | fcntl cmd => exact h.virtual_fcntl_iff cmd answer
  | ioctl request =>
    cases request with
    | fionbio arg =>
      cases arg with
      | none =>
        refine iff_of_false ?_ not_false
        rintro ⟨r, t, heq, -⟩
        simp [FlagCall.call, ioctl] at heq
      | some arg =>
        have hne : FlagCall.ioctl (.fionbio (some arg)) ≠ .ioctl (.fionbio none) := by
          intro heq
          cases heq
        rw [h.virtual_iff_passed (a := (.ioctl (.fionbio (some arg)), answer)) hne]
        simp only [Separate, FlagCall.user, recordFlag, FlagCall.asked, Option.getD_some, Passed,
          and_true]
        cases answer.isRefusal <;> simp
    | other request arg =>
      have hne : FlagCall.ioctl (.other request arg) ≠ .ioctl (.fionbio none) := by
        intro heq
        cases heq
      rw [h.virtual_iff_passed (a := (.ioctl (.other request arg), answer)) hne]
      exact iff_of_true ⟨(ite_self x.2).symm, trivial⟩ trivial

/-- A faithful call leaves the context with the flag as the program sees it. -/
theorem Faithful.step {x y : Process × Bool} (h : Faithful fd x) (hv : Virtual fd x a)
    (hs : recorded (flagStep fd) recordFlag x a = some y) : Faithful fd y := by
  obtain ⟨p, ctx, hm, hflag⟩ := h.managed
  obtain ⟨f, hf⟩ := h.opened
  refine of_recorded hs fun t ht => ?_
  obtain ⟨ha, rfl⟩ := hm.flagStep_eq_some ht
  have huser := ((h.virtual_iff_passed ha).mp hv).1
  refine ⟨⟨p, _, hm.flagCall_managed a.1 _, ?_⟩, _, Managed.file_issued hf a.1 _⟩
  rw [hflag]
  exact huser

/-- From every state in which an open socket is managed and the user's flag is clear, in every
sequence of hooked `fcntl` and `ioctl` calls on it, the calls are faithful to the flag exactly
when each of them meets the condition. -/
theorem user_flag_virtual_iff (fd : Int) (s : Process) (p : Nat) (ctx : FdCtx) (f : OpenFile)
    (as : List (FlagCall × Answer)) (h : Managed fd p ctx s) (hf : s.kernel.file fd = some f)
    (hclear : ctx.userNonblock = false) :
    Guarded (recorded (flagStep fd) recordFlag) (Virtual fd) (s, false) as ↔
      Guarded (recorded (flagStep fd) recordFlag) Separate (s, false) as := by
  have hstart : Faithful fd (s, false) := ⟨⟨p, ctx, h, hclear⟩, f, hf⟩
  have hpre : Guarded (recorded (flagStep fd) recordFlag) (fun _ _ => True) (s, false) as :=
    .of_forall (fun _ _ => trivial) _ as
  refine guarded_iff_guarded (I := Faithful fd) ?_ ?_ hstart hpre
  · intro x a y hx _ hv hs
    exact hx.step hv hs
  · intro x a hx _
    exact hx.virtual_iff a

/-- The program makes its socket non-blocking, asks for the flags, and makes it blocking again
by the other function. -/
def nonblockingForAWhile : List (FlagCall × Answer) :=
  [(.fcntl (.flags .F_SETFL (O_RDWR ||| O_NONBLOCK)), .succeeds 0),
    (.fcntl (.query .F_GETFL), .succeeds 0), (.ioctl (.fionbio (some 0)), .succeeds 0),
    (.fcntl (.query .F_GETFL), .succeeds 0), (.fcntl (.query .F_GETFD), .succeeds 0)]

/-- Each call is faithful. -/
theorem user_flag_virtual_nonblockingForAWhile :
    Guarded (recorded (flagStep 3) recordFlag) (Virtual 3) (managedSocket, false)
      nonblockingForAWhile := by
  have hsep : Guarded (recorded (flagStep 3) recordFlag) Separate (managedSocket, false)
      nonblockingForAWhile := by decide +kernel
  exact (user_flag_virtual_iff 3 managedSocket 0 _ ⟨true, O_RDWR ||| O_NONBLOCK⟩
    nonblockingForAWhile managedSocket_managed (by decide) rfl).mpr hsep

/-- The program makes its socket non-blocking and asks for it to be closed on `exec`. -/
def closeOnExec : List (FlagCall × Answer) :=
  [(.fcntl (.flags .F_SETFL (O_RDWR ||| O_NONBLOCK)), .succeeds 0),
    (.fcntl (.flags .F_SETFD FD_CLOEXEC), .succeeds 0)]

/-- `F_SETFD` clears the user's flag, and its argument reaches the kernel as `0x801`. -/
theorem user_flag_lost_closeOnExec :
    ¬ Guarded (recorded (flagStep 3) recordFlag) (Virtual 3) (managedSocket, false)
      closeOnExec := by
  intro h
  have hstart : Faithful 3 (managedSocket, false) :=
    ⟨⟨0, _, managedSocket_managed, rfl⟩, ⟨true, O_RDWR ||| O_NONBLOCK⟩, by decide⟩
  obtain ⟨y, hy⟩ : ∃ y, recorded (flagStep 3) recordFlag (managedSocket, false)
      (.fcntl (.flags .F_SETFL (O_RDWR ||| O_NONBLOCK)), .succeeds 0) = some y :=
    Option.isSome_iff_exists.mp (by decide +kernel)
  have hnext := hstart.step h.1 hy
  have hcloexec : Separate y (.fcntl (.flags .F_SETFD FD_CLOEXEC), .succeeds 0) :=
    (hnext.virtual_iff _).mp (h.2 y hy).1
  exact absurd hcloexec.1 (by decide)

end Xupeng.Hook
