import Xupeng.Core.History
import Xupeng.Core.Run
import Xupeng.Models.Hook.Interpretation.Steps

/-!
# Calls on a descriptor that is closed while they wait

`close` wakes the fibers that wait for its descriptor and forgets the context. A fiber
that was suspended in `do_io` looks at `tinfo->cancelled` alone when it comes back: unless
its timeout has set it, the fiber calls the original function again, with a number that
the kernel may have given to another socket.

The history holds the fibers that were suspended while another one was in `close` on the
same descriptor, and those of them whose descriptor has been closed.
-/

namespace Xupeng.Hook

/-- The descriptor of the `do_io` that the fiber is in. -/
def Pc.ioFd : Pc → Option Int
  | .waiting ⟨.io _, fd, _, _⟩ _ => some fd
  | _ => none

/-- The descriptor of the `do_io` that the fiber is suspended in. -/
def Pc.suspendedIn : Pc → Option Int
  | .waiting ⟨.io _, fd, _, _⟩ (.suspended _) => some fd
  | _ => none

/-- The descriptor that the fiber is closing. -/
def Pc.closingFd : Pc → Option Int
  | .closing fd _ => some fd
  | _ => none

/-- The descriptor whose `close` the step completes. -/
def closes (s : System) : Step → Option Int
  | .fiber f (.close _) => s.fibers[f]?.bind Pc.closingFd
  | _ => none

/-- What has happened to the calls in progress, for each fiber. -/
structure Closings where
  /-- It was suspended in its call while another fiber was closing the descriptor. -/
  touched : Nat → Bool
  /-- The descriptor has been closed since then. -/
  closed : Nat → Bool

/-- The history begins without closings. -/
def Closings.none : Closings := ⟨fun _ => false, fun _ => false⟩

def recordClosings (s : System) (a : Step) (t : System) (x : Closings) : Closings :=
  let touched f := (t.fibers[f]?.bind Pc.ioFd).isSome &&
    (x.touched f || (t.fibers[f]?.bind Pc.suspendedIn).any fun fd =>
      t.fibers.any fun pc => pc.closingFd = some fd)
  ⟨touched, fun f => touched f &&
    (x.closed f || (closes s a).any fun fd => s.fibers[f]?.bind Pc.ioFd = some fd)⟩

/-- A call whose descriptor has been closed calls no original function any more, and if it
returns, it returns an error. -/
def GivesUp (x : System × Closings) (a : Step) : Prop :=
  ∀ f act t, a = .fiber f act → x.2.closed f = true → x.1.step a = some t →
    t.process.kernel.log = x.1.process.kernel.log ∧
      ∀ last, t.fibers[f]? = some (.user last) → ∃ errno, last = some (.error errno)

/-- A worker takes a fiber that was suspended during a `close` of its descriptor only after the
timeout of its call has set `tinfo->cancelled`. -/
def TimedOut (x : System × Closings) (a : Step) : Prop :=
  match a with
  | .fiber f .resume =>
    match x.1.fibers[f]? with
    | some (.waiting w _) => x.2.touched f = true → x.1.cancelled w.tinfo ≠ 0
    | _ => True
  | _ => True

instance (x : System × Closings) (a : Step) : Decidable (TimedOut x a) := by
  unfold TimedOut
  split
  · split <;> infer_instance
  · infer_instance

/-- The call is still suspended, or it is about to find that it has timed out. -/
def Doomed (s : System) (f : Nat) : Prop :=
  ∃ w p, s.fibers[f]? = some (.waiting w p) ∧
    ((∃ timer, p = .suspended timer) ∨
      s.cancelled w.tinfo ≠ 0 ∧ ((∃ timer, p = .resumed timer) ∨ p = .check))

variable {s t : System} {f : Nat}

/-- The steps of a doomed call lead to the error, without a call of an original function. -/
theorem Doomed.own {a : Act} {x : Closings} (h : Doomed s f) (htouched : x.touched f = true)
    (hexp : TimedOut (s, x) (.fiber f a)) (hs : s.step (.fiber f a) = some t) :
    t.process = s.process ∧
      (Doomed t f ∨ ∃ errno, t.fibers[f]? = some (.user (some (.error errno)))) := by
  obtain ⟨w, p, hpc, ⟨timer, rfl⟩ | ⟨hne, ⟨timer, rfl⟩ | rfl⟩⟩ := h
  · have hwait := System.step_waiting hpc hs
    cases a with
    | resume =>
      simp only [System.wait] at hwait
      simp only [TimedOut, hpc] at hexp
      split at hwait <;> cases hwait
      exact ⟨rfl, Or.inl ⟨w, _, System.goto_self hpc _, Or.inr ⟨hexp htouched,
        Or.inl ⟨timer, rfl⟩⟩⟩⟩
    | _ => cases hwait
  · have hwait := System.step_waiting hpc hs
    cases a with
    | stop =>
      obtain ⟨u, hstop, rfl⟩ := Option.map_eq_some_iff.mp hwait
      obtain ⟨hprocess, hfibers, hcancelled⟩ := System.stop_process hstop
      have hpc' : u.fibers[f]? = some (.waiting w (.resumed timer)) := by rw [hfibers, hpc]
      refine ⟨hprocess, Or.inl ⟨w, _, System.goto_self hpc' _, Or.inr ⟨?_, Or.inr rfl⟩⟩⟩
      change u.cancelled w.tinfo ≠ 0
      rw [hcancelled]
      exact hne
    | _ => cases hwait
  · have hwait := System.step_waiting hpc hs
    cases a with
    | check =>
      simp only [System.wait, if_pos hne, Option.some.injEq] at hwait
      subst hwait
      exact ⟨rfl, Or.inr ⟨_, System.goto_self hpc _⟩⟩
    | _ => cases hwait

/-- The steps of others leave a doomed call so. -/
theorem Doomed.other {a : Step} (h : Doomed s f) (ha : ∀ act, a ≠ .fiber f act)
    (hs : s.step a = some t) : Doomed t f := by
  obtain ⟨w, p, hpc, hp⟩ := h
  have hsame := System.step_fibers hs ha
  refine ⟨w, p, hsame.trans hpc, ?_⟩
  obtain hsuspended | ⟨hne, hp⟩ := hp
  · exact Or.inl hsuspended
  · exact Or.inr ⟨System.step_cancelled hs hne, hp⟩

/-- Every call that was suspended during a `close` of its descriptor is doomed. -/
structure AllDoomed (x : System × Closings) : Prop where
  doomed : ∀ f, x.2.touched f = true → Doomed x.1 f
  touched : ∀ f, x.2.closed f = true → x.2.touched f = true

/-- A fiber that is suspended in the call is in it. -/
theorem doomed_of_suspendedIn {fd : Int} (h : s.fibers[f]?.bind Pc.suspendedIn = some fd) :
    Doomed s f := by
  obtain ⟨pc, hpc, hfd⟩ := Option.bind_eq_some_iff.mp h
  unfold Pc.suspendedIn at hfd
  split at hfd
  · exact ⟨_, _, hpc, Or.inl ⟨_, rfl⟩⟩
  · cases hfd

/-- A doomed call stays doomed until it returns. -/
theorem AllDoomed.step {x y : System × Closings} {a : Step} (h : AllDoomed x)
    (hexp : TimedOut x a) (hr : recorded System.step recordClosings x a = some y) :
    AllDoomed y := by
  refine of_recorded hr fun t hs => ⟨fun f hf => ?_, fun f hf => ?_⟩
  · simp only [recordClosings, Bool.and_eq_true, Bool.or_eq_true] at hf
    obtain ⟨hcall, htouched | hclosing⟩ := hf
    · by_cases ha : ∃ act, a = .fiber f act
      · obtain ⟨act, rfl⟩ := ha
        obtain ⟨-, hdoomed | ⟨errno, hpc⟩⟩ := (h.doomed f htouched).own htouched hexp hs
        · exact hdoomed
        · -- the call has returned
          rw [hpc] at hcall
          cases hcall
      · exact (h.doomed f htouched).other (fun act hact => ha ⟨act, hact⟩) hs
    · obtain ⟨fd, hfd, -⟩ := (Option.any_eq_true _ _).mp hclosing
      exact doomed_of_suspendedIn hfd
  · simp only [recordClosings, Bool.and_eq_true] at hf ⊢
    exact hf.1

/-- A doomed call that returns gives up. -/
theorem AllDoomed.givesUp {x : System × Closings} {a : Step} (h : AllDoomed x)
    (hexp : TimedOut x a) : GivesUp x a := by
  rintro f act t rfl hclosed hs
  have htouched := h.touched f hclosed
  obtain ⟨hprocess, hown⟩ := (h.doomed f htouched).own htouched hexp hs
  refine ⟨by rw [hprocess], fun last hlast => ?_⟩
  obtain ⟨w, p, hpc, -⟩ | ⟨errno, hpc⟩ := hown
  · rw [hpc] at hlast
    cases hlast
  · rw [hpc] at hlast
    cases hlast
    exact ⟨errno, rfl⟩

/-- In every run in which a worker takes a fiber that was suspended during a `close` of its
descriptor only after its timeout, a call whose descriptor has been closed calls no original
function any more and returns an error. -/
theorem closed_calls_give_up (n : Nat) (now : UInt64) (k : Kernel) (as : List Step)
    (h : Guarded (recorded System.step recordClosings) TimedOut (.init n now k, .none) as) :
    Guarded (recorded System.step recordClosings) GivesUp (.init n now k, .none) as := by
  have hstart : AllDoomed (.init n now k, .none) :=
    ⟨fun f hf => (nomatch hf), fun f hf => (nomatch hf)⟩
  refine Guarded.imp (I := AllDoomed) ?_ ?_ hstart h
  · intro x a y hx hexp hr
    exact hx.step hexp hr
  · intro x a hx hexp
    exact hx.givesUp hexp

/-- A kernel without descriptors. -/
def emptyKernel : Kernel := ⟨[], fun _ => none, []⟩

/-- The program makes a socket, and the kernel gives it the number 5. -/
def makeSocket (f : Nat) : Step := .fiber f (.call (~~~0) (.socket 2 1 0) (.succeeds 5))

/-- The same, with a receive timeout of 10 ms. -/
def makeTimedSocket : List Step := [makeSocket 0, .fiber 0 (.setTimeout 5 SO_RCVTIMEO 10)]

/-- `read` on descriptor 5 up to the suspension, by fiber 0. -/
def readAndWait : List Step :=
  [.fiber 0 (.call (~~~0) (.io (.read 4096 512) 5) (.succeeds 0)),
    .fiber 0 (.retry (.fails EAGAIN)), .fiber 0 (.arm 1 100), .fiber 0 .lookup,
    .fiber 0 (.addEvent true), .fiber 0 .yield]

/-- `close` of descriptor 5, by fiber 1. -/
def closeFive : List Step :=
  [.fiber 1 (.call (~~~0) (.close 5) (.succeeds 0)), .fiber 1 .get, .fiber 1 (.cancelAll true),
    .fiber 1 .del, .fiber 1 (.close (.succeeds 0))]

/-- Fiber 0 waits with a timeout of 10 ms, which expires; fiber 1 closes the descriptor before
the callback cancels the wait, fiber 2 gets the number for a new socket, and fiber 0 goes on. -/
def timedOutRead : List Step :=
  makeTimedSocket ++ readAndWait ++ [.expire 2 200, .push 0, .take 0, .test 0, .set 0] ++
    closeFive ++ [makeSocket 2, .fiber 0 .resume, .fiber 0 .stop, .fiber 0 .check]

/-- It gives up. -/
theorem closed_calls_give_up_timedOutRead :
    Guarded (recorded System.step recordClosings) GivesUp (.init 3 0 emptyKernel, .none)
        timedOutRead ∧
      (run (recorded System.step recordClosings) (.init 3 0 emptyKernel, .none) timedOutRead).any
        (fun x => x.1.fibers[0]? = some (.user (some (.error ETIMEDOUT)))) = true := by
  have hexp : Guarded (recorded System.step recordClosings) TimedOut
      (.init 3 0 emptyKernel, .none) timedOutRead := by decide +kernel
  exact ⟨closed_calls_give_up 3 0 emptyKernel timedOutRead hexp, by decide +kernel⟩

/-- The same without a timeout. -/
def waitingRead : List Step :=
  makeSocket 0 :: (readAndWait ++ closeFive ++
    [makeSocket 2, .fiber 0 .resume, .fiber 0 .stop, .fiber 0 .check])

/-- The call of fiber 0 reads 512 bytes from the socket of fiber 2. -/
def stolenRead : Step := .fiber 0 (.retry (.succeeds 512))

/-- The call does not give up. -/
theorem closed_call_goes_on_stolenRead :
    ¬ Guarded (recorded System.step recordClosings) GivesUp (.init 3 0 emptyKernel, .none)
      (waitingRead ++ [stolenRead]) := by
  intro h
  have hend : (run (recorded System.step recordClosings) (.init 3 0 emptyKernel, .none)
      waitingRead).any (fun x => x.2.closed 0 && (x.1.step stolenRead).any fun t =>
        t.process.kernel.log ≠ x.1.process.kernel.log) = true := by decide +kernel
  obtain ⟨x, hx, hbad⟩ := (Option.any_eq_true _ _).mp hend
  obtain ⟨hclosed, hstep⟩ := Bool.and_eq_true_iff.mp hbad
  obtain ⟨t, ht, hlog⟩ := (Option.any_eq_true _ _).mp hstep
  exact of_decide_eq_true hlog (h.of_run hx 0 _ t rfl hclosed ht).1

end Xupeng.Hook
