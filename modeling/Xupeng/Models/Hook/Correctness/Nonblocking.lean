import Xupeng.Models.Hook.Interpretation.FlagCalls

/-!
# Whether managed sockets stay non-blocking in the kernel

`do_io` relies on `EAGAIN`, so the kernel's flag has to stay set whatever the program
asks for. `fcntl` sets the bit in every argument that it passes on. `ioctl` records the
user's choice and passes the argument of `FIONBIO` on as it is, so the value 0 clears
the kernel's flag.
-/

namespace Xupeng.Hook

variable {fd : Int} {s : Process}

/-- The kernel's flag of the descriptor is set, as `m_sysNonblock` of its context records. -/
def NonblockingAsRecorded (fd : Int) (s : Process) : Prop :=
  s.kernel.nonblock fd = true ∧ ∃ p ctx, Managed fd p ctx s

/-- The call returns without an error. -/
def Succeeds (fd : Int) (s : Process) (a : FlagCall × Answer) : Prop :=
  match a.1.call fd a.2 s with
  | .ok r _ => r.errno = none
  | _ => False

/-- The state after the call has the kernel's flag set. -/
def KeepsNonblocking (fd : Int) (s : Process) (a : FlagCall × Answer) : Prop :=
  ∀ t, flagStep fd s a = some t → NonblockingAsRecorded fd t

/-- The call is not `FIONBIO` with the value 0. -/
def NotCleared (_ : Process) (a : FlagCall × Answer) : Prop := a.1 ≠ .ioctl (.fionbio (some 0))

instance (fd : Int) (s : Process) (a : FlagCall × Answer) : Decidable (Succeeds fd s a) := by
  unfold Succeeds
  split <;> infer_instance

instance (s : Process) (a : FlagCall × Answer) : Decidable (NotCleared s a) :=
  inferInstanceAs (Decidable (a.1 ≠ .ioctl (.fionbio (some 0))))

/-- A call that returns without an error was not refused by the kernel. -/
theorem Succeeds.answer {a : FlagCall × Answer} {p : Nat} {ctx : FdCtx} (h : Succeeds fd s a)
    (hm : Managed fd p ctx s) : ∃ v, a.2 = .succeeds v := by
  obtain ⟨call, answer⟩ := a
  cases answer with
  | succeeds v => exact ⟨v, rfl⟩
  | fails errno =>
    by_cases ha : call = .ioctl (.fionbio none)
    · subst ha
      exact absurd h nofun
    · simp only [Succeeds, hm.flagCall ha] at h
      have herr : (call.result ctx.userNonblock (s.kernel.call (call.issued fd)
          (.fails errno)).2).errno = some errno := by
        unfold FlagCall.result
        split <;> rfl
      rw [herr] at h
      exact nomatch h

/-- Of the calls that succeed, exactly `FIONBIO` with the value 0 clears the kernel's flag. -/
theorem keepsNonblocking_iff (a : FlagCall × Answer) (h : NonblockingAsRecorded fd s)
    (hok : Succeeds fd s a) : KeepsNonblocking fd s a ↔ NotCleared s a := by
  obtain ⟨hset, p, ctx, hm⟩ := h
  obtain ⟨v, hv⟩ := hok.answer hm
  obtain ⟨f, hf, hset⟩ := Kernel.exists_file_of_nonblock hset
  have ha : a.1 ≠ .ioctl (.fionbio none) := by
    intro ha
    simp [Succeeds, ha, FlagCall.call, ioctl] at hok
  have hstep : flagStep fd s a = some { Managed.setUser p (a.1.user ctx.userNonblock) s with
      kernel := (s.kernel.call (a.1.issued fd) a.2).1 } := by
    simp only [flagStep, hm.flagCall ha]
  have hissued := Managed.file_issued hf a.1 a.2
  have hflag := Kernel.nonblock_of_file hissued
  have hkeeps : KeepsNonblocking fd s a ↔
      (s.kernel.call (a.1.issued fd) a.2).1.nonblock fd = true := by
    constructor
    · intro h
      exact (h _ hstep).1
    · intro h t ht
      rw [hstep, Option.some.injEq] at ht
      subst ht
      exact ⟨h, p, _, hm.flagCall_managed a.1 _⟩
  rw [hkeeps, hflag]
  obtain ⟨call, answer⟩ := a
  subst hv
  cases call with
  | fcntl cmd =>
    refine iff_of_true ?_ (by intro heq; cases heq)
    cases cmd with
    | flags c arg =>
      cases c with
      | F_SETFL => simp only [Fcntl.status, hasFlag_setfl, hasFlag_or_nonblock]
      | _ => exact hset
    | _ => exact hset
  | ioctl request =>
    cases request with
    | fionbio arg =>
      cases arg with
      | none => exact absurd rfl ha
      | some arg =>
        by_cases harg : arg = 0#32
        · subst harg
          refine iff_of_false ?_ (not_not_intro rfl)
          simp [Ioctl.status, hasFlag_and_not_nonblock]
        · refine iff_of_true ?_ (by simpa [NotCleared] using harg)
          simp [Ioctl.status, harg, hasFlag_or_nonblock]
    | other request arg => exact iff_of_true hset (by intro heq; cases heq)

/-- From every state in which a socket is managed and non-blocking, in every sequence of hooked
`fcntl` and `ioctl` calls on it that all succeed, the kernel's flag is set after every call
exactly when no call is `FIONBIO` with the value 0. -/
theorem nonblocking_kept_iff (fd : Int) (s : Process) (as : List (FlagCall × Answer))
    (h : NonblockingAsRecorded fd s) (hok : Guarded (flagStep fd) (Succeeds fd) s as) :
    Guarded (flagStep fd) (KeepsNonblocking fd) s as ↔ Guarded (flagStep fd) NotCleared s as := by
  refine guarded_iff_guarded (I := NonblockingAsRecorded fd) ?_ ?_ h hok
  · intro s a t _ _ hkeeps ht
    exact hkeeps t ht
  · intro s a hs hok
    exact keepsNonblocking_iff a hs hok

/-- Descriptor 3 after the hooked `socket` has made it a managed socket. -/
def managedSocket : Process where
  fds := ⟨[⟨true, true, true, false, false, 3, ~~~0, ~~~0⟩], FdManager.new.datas.set 3 (some 0)⟩
  kernel := ⟨[⟨true, O_RDWR ||| O_NONBLOCK⟩],
    Function.update (fun _ => none) 3 (some ⟨0, false⟩), []⟩

/-- It is what `socket` leaves, up to the log of the calls. -/
example :
    (match Hook.socket true 2 1 0 (.succeeds 3) ⟨.new, ⟨[], fun _ => none, []⟩⟩ with
      | .ok _ t => some (t.fds, t.kernel.files, t.kernel.descriptors 3)
      | _ => none) =
      some (managedSocket.fds, managedSocket.kernel.files, managedSocket.kernel.descriptors 3) := by
  decide +kernel

/-- The socket has its context. -/
theorem managedSocket_managed :
    Managed 3 0 ⟨true, true, true, false, false, 3, ~~~0, ~~~0⟩ managedSocket :=
  ⟨by decide, by decide, rfl, rfl, rfl⟩

/-- The program makes the socket non-blocking by `ioctl`, sees its flags, and makes it blocking
again by `fcntl`. -/
def blockingByFcntl : List (FlagCall × Answer) :=
  [(.ioctl (.fionbio (some 1)), .succeeds 0), (.fcntl (.query .F_GETFL), .succeeds 0),
    (.fcntl (.flags .F_SETFL O_RDWR), .succeeds 0), (.fcntl (.flags .F_SETFD 1), .succeeds 0)]

/-- The kernel's flag stays set. -/
theorem nonblocking_kept_blockingByFcntl :
    Guarded (flagStep 3) (KeepsNonblocking 3) managedSocket blockingByFcntl := by
  have hstart : NonblockingAsRecorded 3 managedSocket :=
    ⟨by decide, 0, _, managedSocket_managed⟩
  have hok : Guarded (flagStep 3) (Succeeds 3) managedSocket blockingByFcntl := by decide +kernel
  have hclear : Guarded (flagStep 3) NotCleared managedSocket blockingByFcntl := by decide +kernel
  exact (nonblocking_kept_iff 3 managedSocket blockingByFcntl hstart hok).mpr hclear

/-- The program makes the socket blocking by `ioctl`. -/
def blockingByIoctl : List (FlagCall × Answer) := [(.ioctl (.fionbio (some 0)), .succeeds 0)]

/-- The call succeeds, and the managed socket blocks in the kernel while its context says that
it does not. -/
theorem nonblocking_lost_blockingByIoctl :
    NonblockingAsRecorded 3 managedSocket ∧
      Guarded (flagStep 3) (Succeeds 3) managedSocket blockingByIoctl ∧
      ¬ Guarded (flagStep 3) (KeepsNonblocking 3) managedSocket blockingByIoctl := by
  have hstart : NonblockingAsRecorded 3 managedSocket :=
    ⟨by decide, 0, _, managedSocket_managed⟩
  have hok : Guarded (flagStep 3) (Succeeds 3) managedSocket blockingByIoctl := by decide +kernel
  refine ⟨hstart, hok, fun h => ?_⟩
  exact (keepsNonblocking_iff _ hstart hok.1).mp h.1 rfl

end Xupeng.Hook
