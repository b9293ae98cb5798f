import Xupeng.Models.Scheduler.Native.System

/-!
# What a statement of the loop can do

`advance` read backwards: every step of a worker in `run` is one of the statements
listed here, with the test that the source makes before it. What a statement keeps
is then proved by cases on the statement, without unfolding the loop again.
-/

namespace Xupeng.Scheduler

variable {C A I : Type} {s s' : Scheduler C} {w w' : Worker C A I} {thread : Nat}

/-! ## Fibers -/

/-- A pointer to no fiber reads as a fiber that has ended. -/
theorem fiber_of_length_le {f : Nat} (h : s.fibers.length ≤ f) : s.fiber f = ⟨.TERM, none⟩ := by
  rw [Scheduler.fiber, List.getD_eq_getElem?_getD, List.getElem?_eq_none h]
  rfl

/-- One fiber is set and the others stay. -/
theorem fiber_setFiber (s : Scheduler C) (f g : Nat) (fiber : Fiber C) :
    (s.setFiber f fiber).fiber g =
      if f = g ∧ f < s.fibers.length then fiber else s.fiber g := by
  simp only [Scheduler.fiber, setFiber, List.getD_eq_getElem?_getD, List.getElem?_set]
  by_cases hg : f = g
  · subst hg
    by_cases hlen : f < s.fibers.length
    · simp [hlen]
    · simp [hlen]
  · simp [hg]

theorem fiber_setFiber_self {f : Nat} (h : f < s.fibers.length) (fiber : Fiber C) :
    (s.setFiber f fiber).fiber f = fiber := by
  rw [fiber_setFiber, if_pos ⟨rfl, h⟩]

theorem fiber_setFiber_ne {f g : Nat} (h : g ≠ f) (fiber : Fiber C) :
    (s.setFiber f fiber).fiber g = s.fiber g := by
  rw [fiber_setFiber, if_neg fun hf => h hf.1.symm]

/-- A new fiber is behind the others. -/
theorem fiber_newFiber (s : Scheduler C) (cb : C) (g : Nat) :
    (s.newFiber cb).fiber g = if g = s.fibers.length then Fiber.new cb else s.fiber g := by
  simp only [Scheduler.fiber, newFiber, List.getD_eq_getElem?_getD, List.getElem?_append]
  rcases Nat.lt_trichotomy g s.fibers.length with h | h | h
  · simp [h, Nat.ne_of_lt h]
  · simp [h]
  · have hsub : ∃ n, g - s.fibers.length = n + 1 := ⟨g - s.fibers.length - 1, by omega⟩
    obtain ⟨n, hn⟩ := hsub
    simp [Nat.not_lt_of_gt h, Nat.ne_of_gt h, hn]

/-- A state that is not written was there before. -/
theorem state_of_setFiber {f g : Nat} {fiber : Fiber C} {state : Fiber.State}
    (hne : fiber.state ≠ state) (h : ((s.setFiber f fiber).fiber g).state = state) :
    (s.fiber g).state = state := by
  rw [fiber_setFiber] at h
  split at h
  · exact absurd h hne
  · exact h

/-- A new fiber is `INIT`. -/
theorem state_of_newFiber {g : Nat} {cb : C} {state : Fiber.State} (hne : .INIT ≠ state)
    (h : ((s.newFiber cb).fiber g).state = state) : (s.fiber g).state = state := by
  rw [fiber_newFiber] at h
  split at h
  · exact absurd h hne
  · exact h

/-- A fiber can be reset before it starts and after it ends. -/
theorem reset_eq_some {fiber fiber' : Fiber C} {cb : Option C} :
    fiber.reset cb = some fiber' ↔
      (fiber.state.ended || fiber.state = .INIT) = true ∧ fiber' = ⟨.INIT, cb⟩ := by
  unfold Fiber.reset
  split
  · rename_i h
    exact ⟨fun he => ⟨h, (Option.some.inj he).symm⟩, fun he => congrArg some he.2.symm⟩
  · rename_i h
    exact ⟨nofun, fun he => absurd he.1 h⟩

/-- A fiber can be entered if it does not run. -/
theorem swapIn_eq_some {fiber fiber' : Fiber C} :
    fiber.swapIn = some fiber' ↔
      fiber.state ≠ .EXEC ∧ fiber' = { fiber with state := .EXEC } := by
  unfold Fiber.swapIn
  split
  · rename_i h
    exact ⟨nofun, fun he => absurd h he.1⟩
  · rename_i h
    exact ⟨fun he => ⟨h, (Option.some.inj he).symm⟩, fun he => congrArg some he.2.symm⟩

/-! ## The search -/

/-- What the search of a thread takes: an entry for the thread whose fiber is not executing. -/
def Eligible (s : Scheduler C) (thread : Nat) (ft : FiberAndThread C) : Prop :=
  (ft.thread = none ∨ ft.thread = some thread) ∧ ∀ f ∈ ft.fiber, (s.fiber f).state ≠ .EXEC

/-- The search takes the first entry that the thread may take. -/
theorem search_eq_entry {i k : Nat} {fts : List (FiberAndThread C)} {ft : FiberAndThread C}
    (h : s.search thread i fts = .entry k ft) :
    ∃ j, k = i + j ∧ fts[j]? = some ft ∧ s.Eligible thread ft ∧
      ∀ j' < j, ∀ ft', fts[j']? = some ft' → ¬ s.Eligible thread ft' := by
  induction fts generalizing i with
  | nil => cases h
  | cons it rest ih =>
    -- the entry in front is passed over
    have hpast (hskip : ¬ s.Eligible thread it) (h : s.search thread (i + 1) rest = .entry k ft) :
        ∃ j, k = i + j ∧ (it :: rest)[j]? = some ft ∧ s.Eligible thread ft ∧
          ∀ j' < j, ∀ ft', (it :: rest)[j']? = some ft' → ¬ s.Eligible thread ft' := by
      obtain ⟨j, hk, hj, helig, hfirst⟩ := ih h
      refine ⟨j + 1, by omega, by simpa using hj, helig, fun j' hj' ft' hft' => ?_⟩
      cases j' with
      | zero =>
        simp only [List.getElem?_cons_zero, Option.some.injEq] at hft'
        exact hft' ▸ hskip
      | succ j' => exact hfirst j' (by omega) ft' (by simpa using hft')
    rw [search] at h
    split at h
    · rename_i hforeign
      refine hpast (fun helig => ?_) h
      rcases helig.1 with hnone | hsame
      · exact hforeign.1 hnone
      · exact hforeign.2 hsame
    · rename_i hthread
      split at h
      · cases h
      · split at h
        · rename_i hexec
          refine hpast (fun helig => ?_) h
          obtain ⟨f, hf, hstate⟩ := (Option.any_eq_true _ _).mp hexec
          exact helig.2 f hf (by simpa using hstate)
        · rename_i hexec
          cases h
          refine ⟨0, rfl, rfl, ⟨?_, fun f hf hstate => ?_⟩, nofun⟩
          · rw [not_and_or, not_not, not_not] at hthread
            exact hthread
          · exact hexec ((Option.any_eq_true _ _).mpr ⟨f, hf, by simpa using hstate⟩)

/-! ## The statements -/

/-- The assertions that can fail in the loop of a worker. -/
inductive Fails (thread : Nat) (s : Scheduler C) (w : Worker C A I) : Abort → Prop
  | entry (pc : w.pc = .search) (found : s.search thread 0 s.queue = .null) :
      Fails thread s w .entry
  | reset {ft : FiberAndThread C} {f : Nat} (pc : w.pc = .taken ft) (cb : ft.cb.isSome)
      (cbFiber : w.cbFiber = some f)
      (state : ((s.fiber f).state.ended || (s.fiber f).state = .INIT) = false)
      (past : ∀ g ∈ ft.fiber, (s.fiber g).state.ended = true) :
      Fails thread s w .reset
  | swapIn {f : Nat} {own : Bool} (pc : w.pc = .swapIn f own) (state : (s.fiber f).state = .EXEC) :
      Fails thread s w .swapIn
  | idle (pc : w.pc = .noTask) (state : w.idleFiber = .EXEC) : Fails thread s w .swapIn

variable [Inhabited A] [Inhabited I]

/-- The statements of the loop, with the tests that lead to them. -/
inductive Statement (thread : Nat) (s : Scheduler C) (w : Worker C A I) :
    Scheduler C → Worker C A I → Prop
  | aborts {a : Abort} (fails : Fails thread s w a) : Statement thread s w (s.fail a) w
  | setStopping {first : Bool} (pc : w.pc = .stop first) :
      Statement thread s w { s with stopping := true } (w.goto (.ask first default))
  | exhausted (pc : w.pc = .search) (found : s.search thread 0 s.queue = .nothing) :
      Statement thread s w s (w.goto .noTask)
  | dequeue {i : Nat} {ft : FiberAndThread C} (pc : w.pc = .search)
      (found : s.search thread 0 s.queue = .entry i ft) :
      Statement thread s w
        { s with
          queue := s.queue.eraseIdx i
          activeThreadCount := s.activeThreadCount + 1 }
        (w.goto (.taken ft))
  | runFiber {ft : FiberAndThread C} {f : Nat} (pc : w.pc = .taken ft) (fiber : ft.fiber = some f)
      (live : (s.fiber f).state.ended = false) :
      Statement thread s w s (w.goto (.swapIn f false))
  | resetFiber {ft : FiberAndThread C} {f : Nat} {cb : C} (pc : w.pc = .taken ft)
      (hcb : ft.cb = some cb) (cbFiber : w.cbFiber = some f)
      (state : ((s.fiber f).state.ended || (s.fiber f).state = .INIT) = true)
      (past : ∀ g ∈ ft.fiber, (s.fiber g).state.ended = true) :
      Statement thread s w (s.setFiber f ⟨.INIT, some cb⟩) (w.goto (.swapIn f true))
  | makeFiber {ft : FiberAndThread C} {cb : C} (pc : w.pc = .taken ft) (hcb : ft.cb = some cb)
      (cbFiber : w.cbFiber = none) (past : ∀ g ∈ ft.fiber, (s.fiber g).state.ended = true) :
      Statement thread s w (s.newFiber cb)
        ⟨.swapIn s.fibers.length true, some s.fibers.length, w.idleFiber⟩
  | discard {ft : FiberAndThread C} (pc : w.pc = .taken ft)
      (past : ∀ g ∈ ft.fiber, (s.fiber g).state.ended = true) :
      Statement thread s w s (w.goto .skip)
  | skip (pc : w.pc = .skip) :
      Statement thread s w { s with activeThreadCount := s.activeThreadCount - 1 }
        (w.goto .search)
  | swapIn {f : Nat} {own : Bool} (pc : w.pc = .swapIn f own) (state : (s.fiber f).state ≠ .EXEC) :
      Statement thread s w (s.setFiber f { s.fiber f with state := .EXEC })
        (w.goto (.exec f own default))
  | swapOut {f : Nat} {own : Bool} (pc : w.pc = .swapOut f own) :
      Statement thread s w s (w.goto (.swapped f own))
  | swapped {f : Nat} {own : Bool} (pc : w.pc = .swapped f own) :
      Statement thread s w { s with activeThreadCount := s.activeThreadCount - 1 }
        (w.goto (.isReady f own))
  | ready {f : Nat} {own : Bool} (pc : w.pc = .isReady f own)
      (state : (s.fiber f).state = .READY) : Statement thread s w s (w.goto (.requeue f own))
  | notReady {f : Nat} {own : Bool} (pc : w.pc = .isReady f own)
      (state : (s.fiber f).state ≠ .READY) : Statement thread s w s (w.goto (.isEnded f own))
  | requeue {f : Nat} {own : Bool} (pc : w.pc = .requeue f own) :
      Statement thread s w (s.schedule [⟨some f, none, none⟩]) ((w.dropIf own).goto .search)
  | notEnded {f : Nat} {own : Bool} (pc : w.pc = .isEnded f own)
      (state : (s.fiber f).state.ended = false) : Statement thread s w s (w.goto (.hold f own))
  | recycle {f : Nat} (pc : w.pc = .isEnded f true) (state : (s.fiber f).state.ended = true) :
      Statement thread s w (s.setFiber f ⟨.INIT, none⟩) (w.goto .search)
  | ended {f : Nat} (pc : w.pc = .isEnded f false) (state : (s.fiber f).state.ended = true) :
      Statement thread s w s (w.goto .search)
  | hold {f : Nat} {own : Bool} (pc : w.pc = .hold f own) :
      Statement thread s w (s.setFiber f { s.fiber f with state := .HOLD })
        ((w.dropIf own).goto .search)
  | exit (pc : w.pc = .noTask) (state : w.idleFiber = .TERM) :
      Statement thread s w s (w.goto .done)
  | enterIdle (pc : w.pc = .noTask) (term : w.idleFiber ≠ .TERM) (exec : w.idleFiber ≠ .EXEC) :
      Statement thread s w s { w with pc := .idle default, idleFiber := .EXEC }
  | leaveIdle (pc : w.pc = .idleSwapped) :
      Statement thread s w s
        { w with
          pc := .search
          idleFiber := if w.idleFiber.ended then w.idleFiber else .HOLD }

/-- What follows the dequeue of an entry. -/
theorem dispatch_statement {ft : FiberAndThread C} (pc : w.pc = .taken ft) :
    Statement thread s w (w.dispatch s ft).1 (w.dispatch s ft).2 := by
  have hpast (h : (ft.fiber.filter fun f => !(s.fiber f).state.ended) = none) :
      ∀ g ∈ ft.fiber, (s.fiber g).state.ended = true := by
    intro g hg
    simpa using Option.filter_eq_none_iff.mp h g hg
  unfold Worker.dispatch
  split
  · rename_i f hf
    obtain ⟨hfiber, hlive⟩ := Option.filter_eq_some_iff.mp hf
    exact .runFiber pc hfiber (by simpa using hlive)
  · rename_i cb hnone hcb
    split
    · rename_i f hf
      cases hreset : (s.fiber f).reset (some cb) with
      | none =>
        refine .aborts (.reset pc (by simp [hcb]) hf ?_ (hpast hnone))
        unfold Fiber.reset at hreset
        split at hreset
        · cases hreset
        · rename_i hstate
          exact Bool.eq_false_iff.mpr hstate
      | some fiber =>
        obtain ⟨hstate, rfl⟩ := reset_eq_some.mp hreset
        exact .resetFiber pc hcb hf hstate (hpast hnone)
    · rename_i hcbFiber
      exact .makeFiber pc hcb hcbFiber (hpast hnone)
  · rename_i hnone _
    exact .discard pc (hpast hnone)

/-- Every step of a worker in its loop is one of the statements. -/
theorem advance_statement (h : w.advance thread s = some (s', w')) :
    Statement thread s w s' w' := by
  unfold Worker.advance at h
  cases hpc : w.pc with
  | dormant | ask | exec | idle | done => simp [hpc] at h
  | stop first =>
    simp only [hpc, Option.some.injEq] at h
    cases h
    exact .setStopping hpc
  | search =>
    simp only [hpc] at h
    split at h <;> cases h
    · exact .exhausted hpc (by assumption)
    · exact .aborts (.entry hpc (by assumption))
    · exact .dequeue hpc (by assumption)
  | taken ft =>
    simp only [hpc, Option.some.injEq] at h
    obtain ⟨rfl, rfl⟩ := Prod.mk.inj h
    exact dispatch_statement hpc
  | skip =>
    simp only [hpc, Option.some.injEq] at h
    cases h
    exact .skip hpc
  | swapIn f own =>
    simp only [hpc, Option.some.injEq] at h
    obtain ⟨rfl, rfl⟩ := Prod.mk.inj h
    cases hswap : (s.fiber f).swapIn with
    | none =>
      refine .aborts (.swapIn hpc ?_)
      unfold Fiber.swapIn at hswap
      split at hswap
      · assumption
      · cases hswap
    | some fiber =>
      obtain ⟨hstate, rfl⟩ := swapIn_eq_some.mp hswap
      exact .swapIn hpc hstate
  | swapOut f own =>
    simp only [hpc, Option.some.injEq] at h
    cases h
    exact .swapOut hpc
  | swapped f own =>
    simp only [hpc, Option.some.injEq] at h
    cases h
    exact .swapped hpc
  | isReady f own =>
    simp only [hpc, Option.some.injEq] at h
    cases h
    split
    · exact .ready hpc (by assumption)
    · exact .notReady hpc (by assumption)
  | requeue f own =>
    simp only [hpc, Option.some.injEq] at h
    cases h
    exact .requeue hpc
  | isEnded f own =>
    simp only [hpc, Option.some.injEq] at h
    split at h
    · rename_i hstate
      cases h
      exact .notEnded hpc (by simpa using hstate)
    · rename_i hstate
      have hended : (s.fiber f).state.ended = true := by simpa using hstate
      cases own with
      | true =>
        have hreset : (s.fiber f).reset none = some ⟨.INIT, none⟩ :=
          reset_eq_some.mpr ⟨by rw [hended, Bool.true_or], rfl⟩
        simp only [if_true, hreset, Worker.onFiber] at h
        cases h
        exact .recycle hpc hended
      | false =>
        cases h
        exact .ended hpc hended
  | hold f own =>
    simp only [hpc, Option.some.injEq] at h
    cases h
    exact .hold hpc
  | noTask =>
    simp only [hpc, Option.some.injEq] at h
    split at h
    · cases h
      exact .exit hpc (by assumption)
    · split at h <;> cases h
      · exact .aborts (.idle hpc (by assumption))
      · exact .enterIdle hpc (by assumption) (by assumption)
  | idleSwapped =>
    simp only [hpc, Option.some.injEq] at h
    cases h
    exact .leaveIdle hpc

/-! ## A task gives its thread back -/

/-- The ways in which a running task gives its thread back. -/
inductive Leaves (exit : Fiber.Exit) (s : Scheduler C) (w : Worker C A I) :
    Scheduler C → Worker C A I → Prop
  | aborts {f : Nat} {own : Bool} {a : A} (pc : w.pc = .exec f own a)
      (state : (s.fiber f).state ≠ .EXEC) : Leaves exit s w (s.fail .yield) w
  | returns {f : Nat} {own : Bool} {a : A} (pc : w.pc = .exec f own a) {fiber : Fiber C}
      (left : (s.fiber f).leave exit = some fiber) :
      Leaves exit s w (s.setFiber f fiber) (w.goto (.swapOut f own))

omit [Inhabited A] [Inhabited I] in
/-- A task leaves in one of these ways. -/
theorem leave_leaves {exit : Fiber.Exit} (h : w.leave exit s = some (s', w')) :
    Leaves exit s w s' w' := by
  unfold Worker.leave at h
  split at h
  · rename_i f own a hpc
    obtain ⟨rfl, rfl⟩ := Prod.mk.inj (Option.some.inj h)
    cases hleave : (s.fiber f).leave exit with
    | some fiber => exact .returns hpc hleave
    | none =>
      refine .aborts hpc fun hexec => ?_
      cases exit <;> simp [Fiber.leave, hexec] at hleave
  · cases h

/-! ## The whole -/

omit [Inhabited A] [Inhabited I] in
/-- After `stopping()` has answered in `stop` the worker is done, asks once more or starts `run`. -/
theorem Worker.answer_eq (first stopping : Bool) (w : Worker C A I) :
    w.answer first stopping = w.goto .done ∨ w.answer first stopping = w.goto (.stop false) ∨
      w.answer first stopping = .new .search := by
  cases stopping with
  | true => exact Or.inl rfl
  | false =>
    cases first with
    | true => exact Or.inr (Or.inl rfl)
    | false => exact Or.inr (Or.inr rfl)

/-- Code that uses the scheduler makes a fiber, or puts entries for fibers that exist into the
queue. -/
theorem apply_eq_some {a : Act C} (h : a.apply s = some s') :
    (∃ cb, a = .newFiber cb ∧ s' = s.newFiber cb) ∨
      (∀ ft ∈ a.entries, ∀ f ∈ ft.fiber, f < s.fibers.length) ∧ s' = s.schedule a.entries := by
  unfold Act.apply at h
  split at h
  · rename_i cb
    exact Or.inl ⟨cb, rfl, (Option.some.inj h).symm⟩
  · split at h
    · rename_i hvalid
      exact Or.inr ⟨hvalid, (Option.some.inj h).symm⟩
    · cases h

omit [Inhabited A] [Inhabited I] in
/-- Code that uses the scheduler writes no state. -/
theorem apply_state {act : Act C} {f : Nat} {state : Fiber.State}
    (h : act.apply s = some s') (hne : .INIT ≠ state) (hf : (s'.fiber f).state = state) :
    (s.fiber f).state = state := by
  rcases apply_eq_some h with ⟨cb, rfl, rfl⟩ | ⟨-, rfl⟩
  · exact state_of_newFiber hne hf
  · exact hf

/-- The steps of the whole, read backwards. -/
inductive System.Stepped (s : System C) : System.Step C → System C → Prop
  | statement {i : Nat} {w w' : Worker C Unit Unit} {s' : Scheduler C}
      (worker : s.workers[i]? = some w) (statement : Statement i s.scheduler w s' w') :
      Stepped s (.worker i .advance) { s with scheduler := s', workers := s.workers.set i w' }
  | act {i : Nat} {w : Worker C Unit Unit} {f : Nat} {own : Bool} {a : Act C} {s' : Scheduler C}
      (worker : s.workers[i]? = some w) (pc : w.pc = .exec f own ())
      (applied : a.apply s.scheduler = some s') :
      Stepped s (.worker i (.act a)) { s with scheduler := s' }
  | leave {i : Nat} {w w' : Worker C Unit Unit} {exit : Fiber.Exit} {s' : Scheduler C}
      (worker : s.workers[i]? = some w) (leaves : Leaves exit s.scheduler w s' w') :
      Stepped s (.worker i (.leave exit))
        { s with scheduler := s', workers := s.workers.set i w' }
  | idle {i : Nat} {w : Worker C Unit Unit} (worker : s.workers[i]? = some w)
      (pc : w.pc = .idle ()) :
      Stepped s (.worker i .probe)
        { s with workers := s.workers.set i (w.swapOutIdle s.scheduler.isStopping) }
  | answer {i : Nat} {w : Worker C Unit Unit} {first : Bool} (worker : s.workers[i]? = some w)
      (pc : w.pc = .ask first ()) :
      Stepped s (.worker i .probe)
        { s with workers := s.workers.set i (w.answer first s.scheduler.isStopping) }
  | outside {a : Act C} {s' : Scheduler C} (applied : a.apply s.scheduler = some s') :
      Stepped s (.outside a) { s with scheduler := s' }
  | stop :
      Stepped s .stop
        { s with
          scheduler := { s.scheduler with autoStop := true }
          workers := s.workers.map (·.callStop (s.workers.length = 1)) }
  | setStopping :
      Stepped s .setStopping { s with scheduler := { s.scheduler with stopping := true } }

/-- Every step is one of these. -/
theorem System.step_stepped {s t : System C} {a : System.Step C} (h : s.step a = some t) :
    s.Stepped a t := by
  unfold System.step at h
  split at h
  · cases h
  · cases a with
    | worker i mv =>
      obtain ⟨w, hw, h⟩ := Option.bind_eq_some_iff.mp h
      obtain ⟨⟨s', w'⟩, hmove, h⟩ := Option.bind_eq_some_iff.mp h
      cases h
      cases mv with
      | advance => exact .statement hw (advance_statement hmove)
      | act a =>
        simp only [Worker.move] at hmove
        split at hmove
        · rename_i f own u hpc
          obtain ⟨s'', happ, heq⟩ := Option.map_eq_some_iff.mp hmove
          obtain ⟨rfl, rfl⟩ := Prod.mk.inj heq
          have hset : s.workers.set i w = s.workers := by
            obtain ⟨hlt, hget⟩ := List.getElem?_eq_some_iff.mp hw
            rw [← hget, List.set_getElem_self]
          rw [hset]
          exact .act hw hpc happ
        · cases hmove
      | leave exit => exact .leave hw (leave_leaves hmove)
      | probe =>
        simp only [Worker.move] at hmove
        split at hmove
        · rename_i u hpc
          cases hmove
          exact .idle hw hpc
        · rename_i first u hpc
          cases hmove
          exact .answer hw hpc
        · cases hmove
    | outside a =>
      obtain ⟨s', happ, rfl⟩ := Option.map_eq_some_iff.mp h
      exact .outside happ
    | stop =>
      simp only at h
      split at h
      · cases h
      · cases h
        exact .stop
    | setStopping =>
      simp only at h
      split at h
      · cases h
        exact .setStopping
      · cases h

end Xupeng.Scheduler
