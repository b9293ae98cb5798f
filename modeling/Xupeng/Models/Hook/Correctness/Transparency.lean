import Xupeng.Core.Run
import Xupeng.Models.Hook.Interpretation.Managed
import Xupeng.Models.Kernel.Flags

/-!
# The hooked functions on a thread with the hook disabled

Each hooked function has to return the same result and leave the same kernel as the
original one. With the hook disabled and no contexts around this holds for all but a
few: `accept` makes a context for the new descriptor, which switches it to non-blocking,
`getsocket` calls a null pointer, `setsocket` calls itself, `fcntl` forgets the argument
of a command it does not know, and `fcntl` and `ioctl` look up contexts all the same.
-/

namespace Xupeng.Hook

open Program

variable {connectTimeout : UInt64} {s : Process} {a : SysCall × Answer}

/-- One call after the other, on a thread with the hook disabled. -/
def step (connectTimeout : UInt64) (s : Process) (a : SysCall × Answer) : Option Process :=
  match call false connectTimeout 1 a.1 a.2 with
  | none => none
  | some m =>
    match m s with
    | .ok _ t => some t
    | _ => none

/-- The call returns, with the result of the original function and its effect on the kernel. -/
def Transparent (connectTimeout : UInt64) (s : Process) (a : SysCall × Answer) : Prop :=
  ∃ fuel m r t, call false connectTimeout fuel a.1 a.2 = some m ∧ m s = .ok (.ret r) t ∧
    (t.kernel, r) = s.kernel.call a.1 a.2

/-- The descriptors involved: the one the call works on and the one it returns. -/
def involved (k : Kernel) (a : SysCall × Answer) : List Int :=
  (Kernel.fdOf a.1).toList ++
    match a.1 with
    | .socket .. | .io (.accept ..) _ | .fcntl _ (.flags .F_DUPFD _)
    | .fcntl _ (.flags .F_DUPFD_CLOEXEC _) => [(k.call a.1 a.2).2.value]
    | _ => []

/-- No context exists for the descriptors involved. -/
def NoContext (s : Process) (a : SysCall × Answer) : Prop :=
  ∀ fd ∈ involved s.kernel a, s.fds.ptr fd = none

/-- The calls that pass through: no `getsocket` and no `setsocket`, no `accept` that succeeds, no
argument to a command of `fcntl` that the switch does not list, and no negative descriptor or
unreadable pointer where `fcntl` and `ioctl` look at them. -/
def PassesThrough (s : Process) (a : SysCall × Answer) : Prop :=
  match a.1 with
  | .getsocket .. | .setsocket .. => False
  | .io (.accept ..) _ => (s.kernel.call a.1 a.2).2.value < 0
  | .fcntl fd (.flags ..) | .fcntl fd (.query _) => 0 ≤ fd
  | .fcntl _ (.other _ arg) => arg = none
  | .ioctl fd (.fionbio arg) => 0 ≤ fd ∧ arg.isSome
  | _ => True

instance (s : Process) (a : SysCall × Answer) : Decidable (NoContext s a) :=
  inferInstanceAs (Decidable (∀ fd ∈ involved s.kernel a, s.fds.ptr fd = none))

instance (s : Process) (a : SysCall × Answer) : Decidable (PassesThrough s a) := by
  unfold PassesThrough
  split <;> infer_instance

/-! ## The calls that pass through -/

/-- A wrapper that runs the original function is transparent. -/
theorem transparent_of_eq {m : Program Empty Process Reply}
    (hm : ∀ fuel, call false connectTimeout fuel a.1 a.2 = some m)
    (heq : m s = passThrough a.1 a.2 s) : Transparent connectTimeout s a :=
  ⟨0, m, _, _, hm 0, heq, rfl⟩

/-- A wrapper of `fcntl` or `ioctl` is transparent where it is the original function. -/
theorem transparent_of_original {m : Program Empty Process Ret}
    (hm : ∀ fuel, call false connectTimeout fuel a.1 a.2 = some (.ret <$> m))
    (heq : m s = original a.1 a.2 s) : Transparent connectTimeout s a := by
  refine transparent_of_eq hm ?_
  rw [map_of_ok (heq.trans (original_eq _ _ _))]
  rfl

/-- A wrapper that always runs the same program is not transparent where that faults. -/
theorem not_transparent_of_fault {m : Program Empty Process Reply}
    (hm : ∀ fuel, call false connectTimeout fuel a.1 a.2 = some m) (hfault : m s = .fault) :
    ¬ Transparent connectTimeout s a := by
  rintro ⟨fuel, m', r, t, hm', hr, -⟩
  rw [hm fuel, Option.some.injEq] at hm'
  rw [← hm', hfault] at hr
  exact nomatch hr

/-- With the hook disabled `setsocket` only calls itself. -/
theorem setsocket_disabled (fd level optname : Int) (optval : Timeval) (fuel : Nat) :
    setsocket false fd level optname optval fuel = none := by
  induction fuel with
  | zero => rfl
  | succ fuel ih => exact ih

/-! ## `accept` -/

/-- A new context switches a socket to non-blocking. -/
theorem new_nonblock {k : Kernel} {fd : Int} {f : OpenFile} (hf : k.file fd = some f)
    (hsocket : f.socket = true) : (FdCtx.new fd k).2.nonblock fd = true := by
  have hget := Kernel.file_fcntl hf (.query .F_GETFL) (.succeeds 0)
  have hset (arg : BitVec 32) := Kernel.file_fcntl hget (.flags .F_SETFL arg) (.succeeds 0)
  have htest (x : BitVec 32) : ~~~(x &&& O_NONBLOCK) ≠ 0 := by
    intro h
    have hbit := congrArg (·.getLsbD 0) h
    simp [O_NONBLOCK] at hbit
  simp only [FdCtx.new, FdCtx.init, hf, hsocket, Bool.false_eq_true, if_false, if_true, htest,
    ne_eq, not_false_eq_true]
  rw [Kernel.nonblock_of_file (hset _)]
  simp only [Fcntl.status, hasFlag_setfl, hasFlag_or_nonblock]

/-- `accept` with the hook disabled, after the original function has returned `r`. -/
theorem io_accept {addr addrlen : Nat} {fd : Int} {answer : Answer} (s : Process) :
    let r := s.kernel.call (.io (.accept addr addrlen) fd) answer
    io false (.accept addr addrlen) fd answer s =
      if 0 ≤ r.2.value then (do
        let _ ← FdManager.get r.2.value true
        pure (.ret r.2) : Program Empty Process Reply) { s with kernel := r.1 }
      else .ok (.ret r.2) { s with kernel := r.1 } := by
  intro r
  have hfirst : doIo false (.accept addr addrlen) fd answer s =
      .ok (.ret r.2) { s with kernel := r.1 } := rfl
  refine (bind_of_ok hfirst).trans ?_
  dsimp only
  split <;> rfl

/-- Where there is no context `get` makes one, or faults. -/
theorem get_of_null {fd : Int} (h : 0 ≤ fd) (hnull : s.fds.ptr fd = none) :
    FdManager.get fd true s = .fault ∨
      ∃ p t, FdManager.get fd true s = .ok p t ∧ t.kernel = (FdCtx.new fd s.kernel).2 := by
  have hfind : s.fds.find fd true = .missing := by
    rw [FdManager.find_of_nonneg h, if_neg (by simp [hnull])]
  unfold FdManager.get
  simp only [hfind]
  split
  · exact Or.inr ⟨_, _, rfl, rfl⟩
  · exact Or.inl rfl

/-- An `accept` is transparent exactly when it fails: otherwise the new descriptor gets a
context, which changes its flags or is stored outside of the vector. -/
theorem transparent_accept_iff {addr addrlen : Nat} {fd : Int} {answer : Answer}
    (h : NoContext s (.io (.accept addr addrlen) fd, answer)) :
    Transparent connectTimeout s (.io (.accept addr addrlen) fd, answer) ↔
      (s.kernel.call (.io (.accept addr addrlen) fd) answer).2.value < 0 := by
  have hcall (fuel : Nat) :
      call false connectTimeout fuel (.io (.accept addr addrlen) fd) answer =
        some (io false (.accept addr addrlen) fd answer) := rfl
  constructor
  · rintro ⟨fuel, m, r, t, hm, hr, heq⟩
    rw [hcall, Option.some.injEq] at hm
    by_contra hvalue
    have hvalue := Int.not_lt.mp hvalue
    rw [← hm, io_accept, if_pos hvalue] at hr
    have hnull := h _ (by simp [involved] : (s.kernel.call (.io (.accept addr addrlen) fd)
      answer).2.value ∈ involved s.kernel (.io (.accept addr addrlen) fd, answer))
    -- the new context leaves another kernel than the original function
    have hfile := Kernel.file_accept hvalue
    obtain hget | ⟨p, u, hget, hu⟩ :=
      get_of_null (s := { s with kernel := (s.kernel.call _ answer).1 }) hvalue hnull
    · rw [bind_of_fault hget] at hr
      exact nomatch hr
    · rw [bind_of_ok hget] at hr
      obtain ⟨-, rfl⟩ := Outcome.ok.inj hr
      have hsame := congrArg (fun x => x.1.nonblock
        (s.kernel.call (.io (.accept addr addrlen) fd) answer).2.value) heq
      simp only [hu, new_nonblock hfile rfl, Kernel.nonblock_of_file hfile] at hsame
      exact absurd hsame (by decide)
  · intro hvalue
    refine transparent_of_eq hcall ?_
    rw [io_accept, if_neg (Int.not_le.mpr hvalue)]
    rfl

/-! ## All calls -/

/-- A call made while no context exists for the descriptors involved is transparent exactly when
it is one of those that pass through. -/
theorem transparent_iff (h : NoContext s a) :
    Transparent connectTimeout s a ↔ PassesThrough s a := by
  obtain ⟨c, answer⟩ := a
  cases c with
  | io fn fd =>
    cases fn with
    | accept addr addrlen => exact transparent_accept_iff h
    | _ => exact iff_of_true (transparent_of_eq (fun _ => rfl) rfl) trivial
  | fcntl fd cmd =>
    have hnull : s.fds.ptr fd = none := h fd (by simp [involved, Kernel.fdOf])
    cases cmd with
    | flags c arg =>
      by_cases hfd : 0 ≤ fd
      · exact iff_of_true (transparent_of_original (fun _ => rfl)
          (fcntl_of_null hfd hnull nofun)) hfd
      · refine iff_of_false (not_transparent_of_fault (fun _ => rfl) ?_) hfd
        exact bind_of_fault (bind_of_fault (managed_of_neg (Int.not_le.mp hfd) s))
    | query c =>
      by_cases hfd : 0 ≤ fd
      · exact iff_of_true (transparent_of_original (fun _ => rfl)
          (fcntl_of_null hfd hnull nofun)) hfd
      · refine iff_of_false (not_transparent_of_fault (fun _ => rfl) ?_) hfd
        exact bind_of_fault ((bind_of_ok (original_eq _ _ _)).trans
          (bind_of_fault (managed_of_neg (Int.not_le.mp hfd) _)))
    | other c arg =>
      cases arg with
      | none => exact iff_of_true (transparent_of_original (fun _ => rfl) rfl) rfl
      | some arg =>
        refine iff_of_false ?_ nofun
        rintro ⟨fuel, m, r, t, hm, hr, heq⟩
        obtain rfl := Option.some.inj hm
        obtain ⟨-, rfl⟩ := Outcome.ok.inj ((map_of_ok (original_eq _ _ _)).symm.trans hr)
        have hlog := congrArg (fun x => x.1.log) heq
        simp [Kernel.log_call] at hlog
    | _ => exact iff_of_true (transparent_of_original (fun _ => rfl) rfl) trivial
  | ioctl fd request =>
    have hnull : s.fds.ptr fd = none := h fd (by simp [involved, Kernel.fdOf])
    cases request with
    | fionbio arg =>
      cases arg with
      | none =>
        exact iff_of_false (not_transparent_of_fault (fun _ => rfl) rfl)
          fun hp => absurd hp.2 nofun
      | some arg =>
        by_cases hfd : 0 ≤ fd
        · exact iff_of_true (transparent_of_original (fun _ => rfl) (ioctl_of_null hfd hnull arg))
            ⟨hfd, rfl⟩
        · refine iff_of_false (not_transparent_of_fault (fun _ => rfl) ?_) fun hp => hfd hp.1
          exact bind_of_fault (bind_of_fault (managed_of_neg (Int.not_le.mp hfd) s))
    | other request arg => exact iff_of_true (transparent_of_original (fun _ => rfl) rfl) trivial
  | getsocket => exact iff_of_false (not_transparent_of_fault (fun _ => rfl) rfl) nofun
  | setsocket fd level optname optval optlen =>
    refine iff_of_false ?_ nofun
    rintro ⟨fuel, m, r, t, hm, -⟩
    exact nomatch (setsocket_disabled fd level optname optval fuel).symm.trans hm
  | _ => exact iff_of_true (transparent_of_eq (fun _ => rfl) rfl) trivial

/-- On a thread with the hook disabled, in every sequence of calls made while no context exists
for the descriptors involved, every call is transparent exactly when every call is one of those
that pass through. -/
theorem disabled_hooks_transparent_iff (connectTimeout : UInt64) (s : Process)
    (as : List (SysCall × Answer)) (h : Guarded (step connectTimeout) NoContext s as) :
    Guarded (step connectTimeout) (Transparent connectTimeout) s as ↔
      Guarded (step connectTimeout) PassesThrough s as :=
  guarded_iff_guarded (I := fun _ => True) (fun _ _ _ _ _ _ _ => trivial)
    (fun _ _ _ => transparent_iff) trivial h

/-- A process with a listening socket as its descriptor 3, and no contexts. -/
def listening : Process where
  fds := .new
  kernel := ⟨[⟨true, O_RDWR⟩], Function.update (fun _ => none) 3 (some ⟨0, false⟩), []⟩

/-- A server that polls: it switches the socket to non-blocking, finds no connection, sleeps,
switches back and closes. -/
def pollOnce : List (SysCall × Answer) :=
  [(.fcntl 3 (.flags .F_SETFL O_NONBLOCK), .succeeds 0),
    (.io (.accept 0 0) 3, .fails EAGAIN), (.usleep 500, .succeeds 0),
    (.ioctl 3 (.fionbio (some 0)), .succeeds 0), (.fcntl 3 (.query .F_GETFL), .succeeds 0),
    (.close 3, .succeeds 0)]

/-- Its calls meet the condition, and all of them are transparent. -/
theorem disabled_hooks_transparent_pollOnce :
    Guarded (step 5000) NoContext listening pollOnce ∧
      Guarded (step 5000) (Transparent 5000) listening pollOnce := by
  have hpre : Guarded (step 5000) NoContext listening pollOnce := by decide +kernel
  have hpass : Guarded (step 5000) PassesThrough listening pollOnce := by decide +kernel
  exact ⟨hpre, (disabled_hooks_transparent_iff 5000 listening pollOnce hpre).mpr hpass⟩

/-- The server accepts a connection, which gets the descriptor 4. -/
def acceptOnce : List (SysCall × Answer) := [(.io (.accept 0 0) 3, .succeeds 4)]

/-- No context exists for the descriptors, the original function would have left descriptor 4
blocking, and the hooked one switches it to non-blocking. -/
theorem accept_not_transparent_acceptOnce :
    Guarded (step 5000) NoContext listening acceptOnce ∧
      ¬ Guarded (step 5000) (Transparent 5000) listening acceptOnce := by
  have hpre : Guarded (step 5000) NoContext listening acceptOnce := by decide +kernel
  refine ⟨hpre, fun h => ?_⟩
  have hpass := (transparent_iff hpre.1).mp h.1
  revert hpass
  decide +kernel

end Xupeng.Hook
