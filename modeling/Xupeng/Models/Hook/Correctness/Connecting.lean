import Xupeng.Core.Run
import Xupeng.Models.Hook.Correctness.Recycling
import Xupeng.Models.Hook.Interpretation.Managed
import Xupeng.Models.Hook.Interpretation.Queue
import Xupeng.Models.Hook.Native.Polling

/-!
# When `connect` returns 0

After `EINPROGRESS` `connect_with_timeout` waits for the descriptor to become writable and
then believes `SO_ERROR`, which is 0 as long as the connection is in progress. It does not
ask why it has been resumed: a `cancelEvent` or `cancelAll` of another fiber, the timeout
of another call, or an entry for an earlier use of the descriptor lead to `getsockopt`
too, and so does a failure of `addEvent`.
-/

namespace Xupeng.Hook

open IOManager (EpollEvents)

variable {x y : Polled} {s t : System} {f : Nat}

/-- What holds of the `connect` that the fiber is in, if it is in one. -/
def InConnect (P : Wait → Prop) (s : System) (f : Nat) : Prop :=
  match s.fibers[f]? with
  | some (.waiting w _) => w.fn.isConnect = true → P w
  | _ => True

/-- The `addEvent` of a `connect` succeeds. -/
def Registers (s : System) : Step → Prop
  | .fiber f (.addEvent rt) => InConnect (fun _ => rt = true) s f
  | _ => True

/-- The descriptor of the call has been reported ready, or its timeout has expired. -/
def Polled.Settled (x : Polled) (w : Wait) : Prop :=
  w.tinfo ∈ x.reported ∨ x.system.cancelled w.tinfo ≠ 0

/-- The `addEvent` of a `connect` succeeds, and a `connect` that waits is handed over only after
its descriptor has been reported or its timeout has expired. -/
def Undisturbed (x : Polled) : Polling → Prop
  | .report .. => True
  | .act a =>
    Registers x.system a ∧
      ∀ t, x.system.step a = some t → ∀ f ∈ t.ready, f ∉ x.system.ready →
        InConnect x.Settled x.system f

instance (P : Wait → Prop) [DecidablePred P] (s : System) (f : Nat) :
    Decidable (InConnect P s f) := by
  unfold InConnect
  split <;> infer_instance

instance (s : System) (a : Step) : Decidable (Registers s a) := by
  unfold Registers
  split <;> infer_instance

instance (x : Polled) (w : Wait) : Decidable (x.Settled w) :=
  inferInstanceAs (Decidable (w.tinfo ∈ x.reported ∨ x.system.cancelled w.tinfo ≠ 0))

instance (x : Polled) (a : Polling) : Decidable (Undisturbed x a) := by
  unfold Undisturbed
  split <;> infer_instance

/-- If the step ends a `connect` with 0, the original function has returned 0, or the descriptor
has been reported ready since `EINPROGRESS` and `SO_ERROR` is 0. -/
def ReturnsConnected (x : Polled) (a : Polling) : Prop :=
  ∀ f act y r, a = .act (.fiber f act) → x.step a = some y →
    y.system.fibers[f]? = some (.user (some r)) → r.value = 0 →
      (∀ connectTimeout fd addr addrlen answer,
        act = .call connectTimeout (.connect fd addr addrlen) answer →
          (x.system.process.kernel.call (.connect fd addr addrlen) answer).2.value = 0) ∧
      ∀ w p, x.system.fibers[f]? = some (.waiting w p) → w.fn.isConnect →
        w.tinfo ∈ x.reported ∧ act = .getsockopt (.succeeds 0)

/-- `connect_with_timeout` returns an error of its own or the result of the original function, or
it goes on to the wait. -/
theorem connectWithTimeout_cases {fd : Int} {addr addrlen : Nat} {timeout_ms : UInt64}
    {answer : Answer} {p q : Process} {reply : Reply}
    (h : connectWithTimeout true fd addr addrlen timeout_ms answer p = .ok reply q) :
    reply = .ret (.error EBADF) ∨
      reply = .ret (p.kernel.call (.connect fd addr addrlen) answer).2 ∨
        reply = .connecting timeout_ms := by
  unfold connectWithTimeout at h
  rw [if_neg (by decide)] at h
  by_cases hfd : 0 ≤ fd
  · rw [Program.bind_of_ok (FdManager.get_of_found hfd false (.inr rfl))] at h
    have hderef : FdManager.deref (p.fds.ptr fd) p =
        .ok ((p.fds.ptr fd).bind fun q => p.fds.heap[q]?) p := rfl
    rw [Program.bind_of_ok hderef] at h
    cases hctx : (p.fds.ptr fd).bind fun q => p.fds.heap[q]? with
    | none =>
      rw [hctx] at h
      cases h
      exact Or.inl rfl
    | some ctx =>
      rw [hctx] at h
      dsimp only at h
      split at h
      · cases h
        exact Or.inl rfl
      · split at h
        · cases h
          exact Or.inr (Or.inl rfl)
        · rw [Program.bind_of_ok (original_eq _ _ _)] at h
          split at h <;> cases h
          · exact Or.inr (Or.inr rfl)
          · exact Or.inr (Or.inl rfl)
  · rw [Program.bind_of_fault (FdManager.get_of_neg (Int.not_le.mp hfd) false p)] at h
    cases h

/-! ## The invariant -/

/-- A fiber that is asleep in `connect` is in it. -/
theorem InConnect.of_asleepIn {P : Wait → Prop} {w : Wait} (h : InConnect P s f)
    (hasleep : s.asleepIn f = some w) (hw : w.fn.isConnect = true) : P w := by
  obtain ⟨pc, hpc, hin⟩ := Option.bind_eq_some_iff.mp hasleep
  unfold InConnect at h
  rw [hpc] at h
  unfold Pc.asleepIn at hin
  split at hin
  · cases hin
    exact h hw
  · cases hin
    exact h hw
  · cases hin

namespace Polled

/-- What a `connect` knows at its next statement, if its `addEvent` has succeeded. -/
def Knows (x : Polled) (w : Wait) : Point → Prop
  | .unregistered _ => False
  | .resumed _ | .check => x.Settled w
  | .finish => w.tinfo ∈ x.reported
  | _ => True

/-- Nothing that was known is forgotten. -/
structure Grows (x y : Polled) : Prop where
  reported : x.reported ⊆ y.reported
  cancelled : ∀ i, x.system.cancelled i ≠ 0 → y.system.cancelled i ≠ 0

/-- What has been reported stays reported. -/
theorem Settled.grows {w : Wait} (h : x.Settled w) (hgrows : Grows x y) : y.Settled w :=
  h.imp (fun hrep => hgrows.reported hrep) (hgrows.cancelled w.tinfo)

/-- So does what a call knows from it. -/
theorem Knows.grows {w : Wait} {p : Point} (h : x.Knows w p) (hgrows : Grows x y) :
    y.Knows w p := by
  cases p with
  | unregistered timer => exact h
  | resumed timer => exact Settled.grows h hgrows
  | check => exact Settled.grows h hgrows
  | finish => exact hgrows.reported h
  | _ => trivial

/-- A step of the system reports nothing. -/
theorem step_act {a : Step} (h : x.step (.act a) = some y) :
    x.system.step a = some y.system ∧ y.reported = x.reported := by
  unfold step at h
  split at h
  · rename_i heq
    cases heq
  · rename_i heq
    cases heq
    split at h
    · obtain ⟨t, ht, rfl⟩ := Option.map_eq_some_iff.mp h
      exact ⟨ht, rfl⟩
    · cases h
  · rename_i heq
    cases heq
    obtain ⟨t, ht, rfl⟩ := Option.map_eq_some_iff.mp h
    exact ⟨ht, rfl⟩

theorem step_report {p : ContextPtr} {event : EpollEvents}
    (h : x.step (.report p event) = some y) :
    y.system = x.system ∧ x.reported ⊆ y.reported := by
  cases h
  refine ⟨rfl, ?_⟩
  dsimp only
  split
  · exact List.subset_append_left _ _
  · exact List.Subset.refl _

theorem grows_step {a : Polling} (h : x.step a = some y) : Grows x y := by
  cases a with
  | report fd event =>
    obtain ⟨hsystem, hreported⟩ := step_report h
    refine ⟨hreported, fun i hi => ?_⟩
    rw [hsystem]
    exact hi
  | act a =>
    obtain ⟨hstep, hreported⟩ := step_act h
    refine ⟨?_, fun i hi => System.step_cancelled hstep hi⟩
    rw [hreported]
    exact List.Subset.refl _

end Polled

/-- A `connect` is in the queue, or back from its wait, only after its connection has been
reported or its timeout has expired. -/
structure Trusted (x : Polled) : Prop where
  placed : Placed x.system
  queued : ∀ f ∈ x.system.ready, ∀ w, x.system.asleepIn f = some w → w.fn.isConnect = true →
    x.Settled w
  knows : ∀ (f : Nat) w p, x.system.fibers[f]? = some (.waiting w p) → w.fn.isConnect = true →
    x.Knows w p

namespace Trusted

theorem init (n : Nat) (now : UInt64) (k : Kernel) : Trusted (.init n now k) where
  placed := .init n now k
  queued _ h := nomatch h
  knows _ _ _ h := absurd h System.init_not_waiting

/-- The queue after a step. -/
theorem queued_step {a : Step} (h : Trusted x) (hguard : Undisturbed x (.act a))
    (hs : x.system.step a = some t) {w : Wait} (hf : f ∈ t.ready)
    (hasleep : t.asleepIn f = some w) (hw : w.fn.isConnect = true) : x.Settled w := by
  have hold (hin : x.system.asleepIn f = some w) : x.Settled w := by
    by_cases hready : f ∈ x.system.ready
    · exact h.queued f hready w hin hw
    · exact (hguard.2 t hs f hf hready).of_asleepIn hin hw
  cases step_shifted h.placed.good hs with
  | stays hcontexts hready hsame => exact hold (hsame ▸ hasleep)
  | released p r hmoves hempties hcontexts hready hsame => exact hold (hsame ▸ hasleep)
  | registered g w' p ctx hawake hgood hpending hcontexts hready hsame =>
    by_cases hg : f = g
    · -- the fiber was awake, so it is not in the queue
      rw [hready, hg] at hf
      exact absurd hf (h.placed.of_awake hawake p).2
    · rw [hsame, Function.update_of_ne hg] at hasleep
      exact hold hasleep
  | resumed g hqueued hcontexts hready hsame =>
    by_cases hg : f = g
    · rw [hsame, hg, Function.update_self] at hasleep
      cases hasleep
    · rw [hsame, Function.update_of_ne hg] at hasleep
      exact hold hasleep

/-- A `connect` after a step of its own fiber. -/
theorem knows_own {f : Nat} {a : Act} (h : Trusted x) (hguard : Undisturbed x (.act (.fiber f a)))
    (hstep : x.step (.act (.fiber f a)) = some y) {w : Wait} {p : Point}
    (hy : y.system.fibers[f]? = some (.waiting w p)) (hw : w.fn.isConnect = true) :
    y.Knows w p := by
  have hgrows := Polled.grows_step hstep
  obtain ⟨hs, hreported⟩ := Polled.step_act hstep
  obtain ⟨pc, hpc, ⟨e, hend, -⟩ | ⟨u, pc', hend, hproceeds⟩⟩ := System.step_ended hs
  · -- the process has aborted
    rw [hend] at hy
    exact (h.knows f w p hy hw).grows hgrows
  · obtain rfl : pc' = .waiting w p := by
      rw [hend, System.proceeds_self hpc hproceeds] at hy
      exact Option.some.inj hy
    cases hproceeds with
    | register w timer p rt r hadd =>
      have hrt := hguard.1
      simp only [Registers, InConnect, hpc] at hrt
      rw [addEvent_success hadd, hrt hw]
      trivial
    | skip w timer u hstop hconnect => exact (h.knows f w _ hpc hw).elim
    | resume w timer hready =>
      have hasleep : x.system.asleepIn f = some w := System.asleepIn_of_pc hpc
      exact (h.queued f hready w hasleep hw).grows hgrows
    | stop w timer u hstop => exact Polled.Settled.grows (h.knows f w _ hpc hw) hgrows
    | goOn w hzero hconnect =>
      obtain hrep | hne := h.knows f w _ hpc hw
      · exact hgrows.reported hrep
      · exact absurd hzero hne
    | _ => trivial

theorem step (h : Trusted x) {a : Polling} (hguard : Undisturbed x a)
    (hstep : x.step a = some y) : Trusted y := by
  have hgrows := Polled.grows_step hstep
  cases a with
  | report fd event =>
    obtain ⟨hsystem, -⟩ := Polled.step_report hstep
    refine ⟨hsystem ▸ h.placed, fun f hf w hasleep hw => ?_, fun f w p hpc hw => ?_⟩
    · rw [hsystem] at hf hasleep
      exact (h.queued f hf w hasleep hw).grows hgrows
    · rw [hsystem] at hpc
      exact (h.knows f w p hpc hw).grows hgrows
  | act a =>
    obtain ⟨hs, -⟩ := Polled.step_act hstep
    refine ⟨h.placed.step hs, fun f hf w hasleep hw => ?_, fun f w p hpc hw => ?_⟩
    · exact (h.queued_step hguard hs hf hasleep hw).grows hgrows
    · by_cases ha : ∃ act, a = .fiber f act
      · obtain ⟨act, rfl⟩ := ha
        exact h.knows_own hguard hstep hpc hw
      · rw [System.step_fibers hs fun act hact => ha ⟨act, hact⟩] at hpc
        exact (h.knows f w p hpc hw).grows hgrows

/-- A call that returns success has been told so. -/
theorem returnsConnected (h : Trusted x) (a : Polling) : ReturnsConnected x a := by
  rintro f act y r rfl hstep hy hr
  obtain ⟨hs, -⟩ := Polled.step_act hstep
  obtain ⟨pc, hpc, ⟨e, hend, haborts⟩ | ⟨u, pc', hend, hproceeds⟩⟩ := System.step_ended hs
  · -- the process has aborted, and the fiber has not returned
    rw [hend] at hy
    cases hpc.symm.trans hy
    cases haborts
  · obtain rfl : pc' = .user (some r) := by
      rw [hend, System.proceeds_self hpc hproceeds] at hy
      exact Option.some.inj hy
    refine ⟨?_, fun w p hwait hw => ?_⟩
    · rintro connectTimeout fd addr addrlen answer rfl
      cases hproceeds with
      | ret last connectTimeout c answer prog reply process r hcall hprog hreply =>
        cases hcall
        obtain rfl | rfl | rfl := connectWithTimeout_cases hprog
        · obtain heq | ⟨-, ms, heq⟩ := hreply <;> cases heq
          cases hr
        · obtain heq | ⟨-, ms, heq⟩ := hreply <;> cases heq
          exact hr
        · obtain heq | ⟨-, ms, heq⟩ := hreply <;> cases heq
    · cases hpc.symm.trans hwait
      cases hproceeds with
      | done w answer process r hio => cases hio.symm.trans hw
      | giveUp w timer u hstop hio => cases hio.symm.trans hw
      | timedOut w hne => cases hr
      | unknown w errno => cases hr
      | connected w => exact ⟨h.knows f w _ hpc hw, rfl⟩
      | refused w error hne => cases hr

end Trusted

/-- In every run in which the events of `connect` are registered and a `connect` that waits is
handed over only after a report or its own timeout, it returns 0 only if the original function
has returned 0, or the descriptor has been reported ready since `EINPROGRESS` and `SO_ERROR`
is 0. -/
theorem connect_returns_connected (n : Nat) (now : UInt64) (k : Kernel) (as : List Polling)
    (h : Guarded Polled.step Undisturbed (.init n now k) as) :
    Guarded Polled.step ReturnsConnected (.init n now k) as := by
  refine Guarded.imp (I := Trusted) ?_ ?_ (Trusted.init n now k) h
  · intro x a y hx hguard hstep
    exact hx.step hguard hstep
  · intro x a hx _
    exact hx.returnsConnected a

/-- Fiber 0 makes a socket and connects it, with a timeout of 10 ms, up to `addEvent`. -/
def beginConnect : List Polling :=
  [.act (makeSocket 0), .act (.fiber 0 (.call 10 (.connect 5 4096 16) (.fails EINPROGRESS))),
    .act (.fiber 0 (.arm 1 100)), .act (.fiber 0 .lookup)]

/-- The same up to the suspension. -/
def awaitConnect : List Polling :=
  beginConnect ++ [.act (.fiber 0 (.addEvent true)), .act (.fiber 0 .yield)]

/-- The fiber is resumed and goes on to `getsockopt`. -/
def endConnect : List Polling :=
  [.act (.fiber 0 .resume), .act (.fiber 0 .stop), .act (.fiber 0 .check)]

/-- `SO_ERROR` is 0. -/
def readSoError : Polling := .act (.fiber 0 (.getsockopt (.succeeds 0)))

/-- The descriptor is reported writable, and a worker processes the entry. -/
def connectReported : List Polling :=
  awaitConnect ++ [.report (5, 0) ⟨.WRITE, false⟩,
    .act (.process (5, 0) true ⟨.WRITE, false⟩)] ++ endConnect

/-- The call returns 0, and rightly. -/
theorem connect_returns_connected_reported :
    Guarded Polled.step ReturnsConnected (.init 1 0 emptyKernel)
        (connectReported ++ [readSoError]) ∧
      (run Polled.step (.init 1 0 emptyKernel) (connectReported ++ [readSoError])).any
        (fun x => x.system.fibers[0]? = some (.user (some (.ok 0)))) = true := by
  have hguard : Guarded Polled.step Undisturbed (.init 1 0 emptyKernel)
      (connectReported ++ [readSoError]) := by decide +kernel
  exact ⟨connect_returns_connected 1 0 emptyKernel _ hguard, by decide +kernel⟩

/-- `epoll_ctl` fails, so that `addEvent` does. -/
def connectUnregistered : List Polling :=
  beginConnect ++ [.act (.fiber 0 (.addEvent false)), .act (.fiber 0 .stop)]

/-- The program cancels the event of the call, or all events of its descriptor. -/
def connectCancelled (r : Release) : List Polling :=
  awaitConnect ++ [.act (.release 5 true r)] ++ endConnect

/-- Fiber 0 is in a `connect`, nothing has been reported to it, and it is about to return 0. -/
def AboutToLie (x : Polled) : Prop :=
  ∃ w p y, x.system.fibers[0]? = some (.waiting w p) ∧ w.fn.isConnect = true ∧ x.reported = [] ∧
    x.step readSoError = some y ∧ y.system.fibers[0]? = some (.user (some (.ok 0)))

/-- A run that comes to this state does not return connected. -/
theorem not_guarded_of_aboutToLie {k : Kernel} {as : List Polling}
    (hrun : run Polled.step (.init 1 0 k) as = some x) (h : AboutToLie x) :
    ¬ Guarded Polled.step ReturnsConnected (.init 1 0 k) (as ++ [readSoError]) := by
  obtain ⟨w, p, y, hpc, hw, hnone, hstep, hret⟩ := h
  intro hall
  have hconnected := hall.of_run hrun 0 _ y (.ok 0) rfl hstep hret rfl
  have hreported := (hconnected.2 w p hpc hw).1
  rw [hnone] at hreported
  cases hreported

/-- `connect` returns 0 although nothing has been reported: after a failed `addEvent`, and after
the event has been cancelled by `cancelEvent` or `cancelAll`. -/
theorem connect_returns_unconnected :
    ¬ Guarded Polled.step ReturnsConnected (.init 1 0 emptyKernel)
        (connectUnregistered ++ [readSoError]) ∧
      ¬ Guarded Polled.step ReturnsConnected (.init 1 0 emptyKernel)
        (connectCancelled (.cancelEvent .WRITE) ++ [readSoError]) ∧
      ¬ Guarded Polled.step ReturnsConnected (.init 1 0 emptyKernel)
        (connectCancelled .cancelAll ++ [readSoError]) := by
  refine ⟨not_guarded_of_aboutToLie rfl ⟨_, _, _, rfl, rfl, rfl, rfl, rfl⟩,
    not_guarded_of_aboutToLie rfl ⟨_, _, _, rfl, rfl, rfl, rfl, rfl⟩,
    not_guarded_of_aboutToLie rfl ⟨_, _, _, rfl, rfl, rfl, rfl, rfl⟩⟩

end Xupeng.Hook
