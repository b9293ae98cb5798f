import Xupeng.Models.Hook.Correctness.Recycling
import Xupeng.Models.Hook.Interpretation.Timed

/-!
# Whether a timed wait can be stranded

`do_io` and `connect_with_timeout` arm the timer before they register the event. If the
callback of the timeout runs in between, it sets `cancelled` and finds no event to
cancel, and no timer is left that would end the wait. The same happens when the callback
of an earlier wait of the call sets `cancelled`, and when another call has cut off the
context that holds the fiber.
-/

namespace Xupeng.Hook

/-- The fiber is suspended with a timer and its event is registered in some context, its callback
has come to its end, and no other callback of the call is on the way to cancel the event. -/
def Stranded (s : System) (f : Nat) : Prop :=
  ∃ w timer q, s.fibers[f]? = some (.waiting w (.suspended (some timer))) ∧
    (s.contexts q).events.inter w.fn.event ≠ .NONE ∧
    ((s.contexts q).slot w.fn.event).fiber = some f ∧
    ¬ s.Pending (w.callback timer) ∧
    ∀ c stage, (c, stage) ∈ s.running → c.winfo = w.tinfo → stage = .test

/-- No wait is stranded: until `cancelled` is set the callback of the wait is left, and after
that some callback is about to cancel its event. -/
theorem Timed.not_stranded {s : System} (h : Timed s) (hhomed : Homed s) (f : Nat) :
    ¬ Stranded s f := by
  rintro ⟨w, timer, q, hpc, hset, hfiber, hdone, hrunning⟩
  have hkept := h.kept f w _ hpc
  by_cases h0 : s.cancelled w.tinfo = 0
  · exact hdone (Or.inl (hkept.left timer rfl h0))
  · have hreg : s.Registered f w := by
      obtain ⟨u, task, hheld⟩ := (hhomed.placed.good q).held_of_set w.fn.event_single hset
      rcases IOManager.EventContext.held_eq_some.mp hheld with ⟨g, -, hctx⟩ | ⟨c, -, -⟩
      · rw [hctx] at hfiber
        cases hfiber
        exact ⟨q, hctx⟩
      · exact c.elim
    obtain ⟨c, hc, hwinfo, -⟩ := hkept.watched timer rfl hreg h0
    cases hrunning c .cancel hc hwinfo

/-- In every run in which each timed wait registers its event while `cancelled` is clear, every
resize keeps the contexts in use, and `epoll_ctl` succeeds for the callbacks of timeouts, no fiber
is ever stranded. -/
theorem timed_waits_not_stranded (n : Nat) (now : UInt64) (k : Kernel) (as : List Step)
    (h : Guarded System.step InTime (.init n now k) as) :
    Along System.step (fun s => ∀ f, ¬ Stranded s f) (.init n now k) as := by
  refine along_of_guarded (I := fun s => Homed s ∧ Timed s) ?_ ?_
    ⟨Homed.init n now k, Timed.init n now k⟩ h
  · rintro s a t ⟨hhomed, htimed⟩ hin ht
    refine ⟨hhomed.step ?_ ht, htimed.step hhomed hin ht⟩
    rintro f act w timer rfl hpc
    exact hin _ hpc
  · rintro s ⟨hhomed, htimed⟩ f
    exact htimed.not_stranded hhomed f

/-- The callback runs to its end. -/
def runCallback : List Step := [.expire 2 200, .push 0, .take 0, .test 0, .set 0, .cancel 0 true]

/-- A fiber makes a socket and reads from it, until `addEvent` has found the table too short. -/
def readBehindTable (f fd : Nat) (timeout : UInt64) : List Step :=
  [.fiber f (.call (~~~0) (.socket 2 1 0) (.succeeds fd)),
    .fiber f (.setTimeout fd SO_RCVTIMEO timeout),
    .fiber f (.call (~~~0) (.io (.read 4096 512) fd) (.succeeds 0)),
    .fiber f (.retry (.fails EAGAIN)), .fiber f (.arm 1 100), .fiber f .lookup]

/-- It resizes the table, registers its event and yields. -/
def growAndWait (f : Nat) : List Step :=
  [.fiber f .grow, .fiber f (.addEvent true), .fiber f .yield]

/-- The timeout of a `read` expires while the fiber is suspended, and after another one has had the
table resized. -/
def lateTimeout : List Step :=
  makeTimedSocket ++ readAndWait ++ readBehindTable 1 40 (~~~0) ++ growAndWait 1 ++ runCallback ++
    [.fiber 0 .resume, .fiber 0 .stop, .fiber 0 .check]

/-- The fiber is woken up, and the call returns an error. -/
theorem timed_waits_not_stranded_lateTimeout :
    Along System.step (fun s => ∀ f, ¬ Stranded s f) (.init 2 0 emptyKernel) lateTimeout ∧
      (run System.step (.init 2 0 emptyKernel) lateTimeout).any
        (fun s => s.fibers[0]? = some (.user (some (.error ETIMEDOUT)))) = true := by
  have hin : Guarded System.step InTime (.init 2 0 emptyKernel) lateTimeout := by decide +kernel
  exact ⟨timed_waits_not_stranded 2 0 emptyKernel lateTimeout hin, by decide +kernel⟩

/-- The timeout expires before the event is registered. -/
def earlyTimeout : List Step :=
  makeTimedSocket ++
    [.fiber 0 (.call (~~~0) (.io (.read 4096 512) 5) (.succeeds 0)),
      .fiber 0 (.retry (.fails EAGAIN)), .fiber 0 (.arm 1 100)] ++ runCallback ++
    [.fiber 0 .lookup, .fiber 0 (.addEvent true), .fiber 0 .yield]

/-- The descriptors 48 and 32 are behind the table. The one who waits for 48 has it resized first,
then the other one makes it shorter, and then the timeout of the first expires. -/
def crossingReads : List Step :=
  readBehindTable 0 48 10 ++ readBehindTable 1 32 (~~~0) ++ growAndWait 0 ++ growAndWait 1 ++
    runCallback

/-- No callback is left. -/
def Callbacks.Gone (s : Callbacks) : Prop :=
  (∀ timer ∈ s.timers.heap, timer.cb = none) ∧ s.batches = [] ∧ s.queue = [] ∧ s.running = []

/-- Then nothing is on its way to cancel an event. -/
theorem Callbacks.Gone.not_pending {s : Callbacks} (h : s.Gone) (c : Callback) :
    ¬ s.Pending c := by
  obtain ⟨htimers, hbatches, hqueue, hrunning⟩ := h
  rintro (hleft | hcancel)
  · cases hleft with
    | timer p hp =>
      have hlt := TimerManager.lt_length_of_isSome_cb (Option.isSome_of_eq_some hp)
      simp only [TimerManager.deref, List.getD_eq_getElem?_getD, List.getElem?_eq_getElem hlt,
        Option.getD_some] at hp
      cases (htimers _ (List.getElem_mem hlt)).symm.trans hp
    | batch cbs hcbs hc => cases hbatches ▸ hcbs
    | queue hc => cases hqueue ▸ hc
    | test hc => cases hrunning ▸ hc
    | set hc => cases hrunning ▸ hc
  · cases hrunning ▸ hcancel

/-- Fiber 0 is suspended for ever in a `read` with a timeout of 10 ms: the context `q` has its event
registered, and there is no callback left. -/
def WaitsForEver (fd : Int) (q : ContextPtr) (s : System) : Prop :=
  s.fibers[0]? = some (.waiting ⟨.io (.read 4096 512), fd, 10, 0⟩ (.suspended (some 0))) ∧
    (s.contexts q).events.inter .READ ≠ .NONE ∧ ((s.contexts q).slot .READ).fiber = some 0 ∧ s.Gone

instance (s : Callbacks) : Decidable s.Gone := inferInstanceAs (Decidable (_ ∧ _))

instance (fd : Int) (q : ContextPtr) (s : System) : Decidable (WaitsForEver fd q s) :=
  inferInstanceAs (Decidable (_ ∧ _))

/-- Such a fiber is stranded. -/
theorem WaitsForEver.stranded {fd : Int} {q : ContextPtr} {s : System}
    (h : WaitsForEver fd q s) : Stranded s 0 := by
  obtain ⟨hpc, hset, hfiber, hgone⟩ := h
  refine ⟨_, 0, q, hpc, hset, hfiber, hgone.not_pending _, fun c stage hc => ?_⟩
  cases hgone.2.2.2 ▸ hc

/-- A fiber is stranded when its timeout expires before its event is registered, and when another
call cuts off the context that holds it. -/
theorem timed_wait_stranded_earlyTimeout :
    (∃ s, run System.step (.init 1 0 emptyKernel) earlyTimeout = some s ∧ Stranded s 0) ∧
      ∃ s, run System.step (.init 2 0 emptyKernel) crossingReads = some s ∧ Stranded s 0 := by
  have hearly : (run System.step (.init 1 0 emptyKernel) earlyTimeout).any
      (fun s => WaitsForEver 5 (5, 0) s) = true := by decide +kernel
  have hcrossing : (run System.step (.init 2 0 emptyKernel) crossingReads).any
      (fun s => WaitsForEver 48 (48, 1) s) = true := by decide +kernel
  obtain ⟨s, hs, hfacts⟩ := (Option.any_eq_true _ _).mp hearly
  obtain ⟨t, ht, hfacts'⟩ := (Option.any_eq_true _ _).mp hcrossing
  have hstranded : WaitsForEver 5 (5, 0) s := of_decide_eq_true hfacts
  have hstranded' : WaitsForEver 48 (48, 1) t := of_decide_eq_true hfacts'
  exact ⟨⟨s, hs, hstranded.stranded⟩, t, ht, hstranded'.stranded⟩

end Xupeng.Hook
