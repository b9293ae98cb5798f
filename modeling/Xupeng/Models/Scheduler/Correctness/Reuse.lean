import Xupeng.Core.History
import Xupeng.Models.Scheduler.Correctness.Exclusion
import Xupeng.Models.Scheduler.Interpretation.Queue
import Xupeng.Models.Scheduler.Interpretation.Wakeups

/-!
# Workers reuse the fibers of callbacks safely

A worker resets its `cb_fiber` for the next callback, and lets it go when a callback
yields. If the only calls of `schedule` for a callback's fiber are the wakeups of its
yields to `HOLD`, then `reset` is never called on a fiber that is in use, and `swapIn`
never on a callback's fiber that is executing.

For other fibers the assertion in `swapIn` can fail: two workers can take the same
fiber out of the queue, one entry each, before either has called `swapIn`.
-/

namespace Xupeng

/-- The callback of the fiber has been started and has not ended. -/
def Fiber.State.underway (s : State) : Bool := s = .EXEC || s = .HOLD || s = .READY

namespace Scheduler

variable {C A I : Type} {s s' : Scheduler C} {w w' : Worker C A I} {thread f : Nat}

/-! ## Fibers that are taken -/

/-- The fiber that the worker has taken and not yet swapped in. -/
def Pc.entering : Pc C A I → Option Nat
  | .taken ft => ft.fiber
  | .swapIn f _ => some f
  | _ => none

/-- A fiber that is entered is held. -/
theorem mem_held_of_entering (h : w.pc.entering = some f) : f ∈ w.held := by
  unfold Pc.entering at h
  unfold Worker.held
  split at h
  · rename_i hpc
    simp only [hpc]
    exact mem_targets.mpr (Or.inl h)
  · rename_i hpc
    simp only [hpc]
    exact List.mem_singleton.mpr (Option.some.inj h).symm
  · cases h

/-- The worker is in the idle fiber, or back from it and about to set its state. -/
def Pc.inIdle : Pc C A I → Bool
  | .idle _ | .idleSwapped => true
  | _ => false

section Loop

variable [Inhabited A] [Inhabited I]

/-- Only `swapIn` makes a fiber execute. -/
theorem Statement.exec_of_exec (h : Statement thread s w s' w')
    (hf : (s'.fiber f).state = .EXEC) :
    (s.fiber f).state = .EXEC ∨ ∃ own, w.pc = .swapIn f own := by
  cases h with
  | resetFiber | recycle | hold => exact Or.inl (state_of_setFiber (by simp) hf)
  | makeFiber => exact Or.inl (state_of_newFiber nofun hf)
  | @swapIn g own pc =>
    by_cases hg : f = g
    · exact Or.inr ⟨own, hg ▸ pc⟩
    · rw [fiber_setFiber_ne hg] at hf
      exact Or.inl hf
  | _ => exact Or.inl hf

/-- A worker takes a fiber that is not executing, and one for a callback is `INIT`. -/
theorem Statement.entering (h : Statement thread s w s' w')
    (hlen : ∀ g, w.cbFiber = some g → g < s.fibers.length)
    (hw : ∀ g, w.pc.entering = some g → (s.fiber g).state ≠ .EXEC)
    (hf : w'.pc.entering = some f) : (s'.fiber f).state ≠ .EXEC := by
  cases h with
  | aborts => exact hw f hf
  | dequeue pc found =>
    obtain ⟨j, -, -, helig, -⟩ := search_eq_entry found
    exact helig.2 f hf
  | runFiber pc fiber =>
    refine hw f ?_
    rw [pc]
    exact fiber.trans hf
  | @resetFiber ft g cb pc hcb cbFiber =>
    obtain rfl : g = f := Option.some.inj hf
    rw [fiber_setFiber_self (hlen g cbFiber)]
    nofun
  | makeFiber =>
    rw [fiber_newFiber, if_pos (Option.some.inj hf).symm]
    nofun
  | _ => cases hf

/-- The idle fiber is executing only while the worker is in it. -/
theorem Statement.inIdle (h : Statement thread s w s' w')
    (hw : w.idleFiber = .EXEC → w.pc.inIdle = true) (hidle : w'.idleFiber = .EXEC) :
    w'.pc.inIdle = true := by
  cases h with
  | aborts => exact hw hidle
  | enterIdle => rfl
  | leaveIdle pc =>
    dsimp only at hidle
    split at hidle
    · rename_i hended
      rw [hidle] at hended
      cases hended
    · cases hidle
  | @requeue _ own pc | @hold _ own pc =>
    have hidle : w.idleFiber = .EXEC := by cases own <;> exact hidle
    have := hw hidle
    rw [pc] at this
    cases this
  | setStopping pc | exhausted pc | dequeue pc | runFiber pc | resetFiber pc | makeFiber pc
  | discard pc | skip pc | swapIn pc | swapOut pc | swapped pc | ready pc | notReady pc
  | notEnded pc | recycle pc | ended pc | exit pc =>
    have := hw hidle
    rw [pc] at this
    cases this

/-- A statement aborts the process only by an assertion that fails. -/
theorem Statement.abort (h : Statement thread s w s' w') (hnone : s.abort = none) {a : Abort}
    (ha : s'.abort = some a) : Fails thread s w a := by
  cases h with
  | aborts fails =>
    cases ha
    exact fails
  | _ => exact absurd (hnone.symm.trans ha) nofun

/-- The loop does not touch a callback that has been started, but for the state of its fiber. -/
theorem Statement.underway (h : Statement thread s w s' w') (hlen : f < s.fibers.length)
    (hf : (s.fiber f).state.underway = true) :
    (s'.fiber f).cb = (s.fiber f).cb ∧ (s'.fiber f).state.underway = true := by
  -- a fiber that is reset has ended, or was not started
  have hreset {g : Nat} (fiber : Fiber C)
      (hg : ((s.fiber g).state.ended || (s.fiber g).state = .INIT) = true) :
      (s.setFiber g fiber).fiber f = s.fiber f := by
    refine fiber_setFiber_ne (fun hfg => ?_) fiber
    subst hfg
    cases hstate : (s.fiber f).state <;>
      simp [hstate, Fiber.State.underway, Fiber.State.ended] at hf hg
  have hset {g : Nat} {state : Fiber.State} (hstate : state.underway = true) :
      ((s.setFiber g { s.fiber g with state := state }).fiber f).cb = (s.fiber f).cb ∧
        ((s.setFiber g { s.fiber g with state := state }).fiber f).state.underway = true := by
    by_cases hfg : f = g
    · subst hfg
      rw [fiber_setFiber_self hlen]
      exact ⟨rfl, hstate⟩
    · rw [fiber_setFiber_ne hfg]
      exact ⟨rfl, hf⟩
  cases h with
  | resetFiber pc hcb cbFiber state =>
    rw [hreset _ state]
    exact ⟨rfl, hf⟩
  | recycle pc state =>
    rw [hreset _ (by rw [state, Bool.true_or])]
    exact ⟨rfl, hf⟩
  | makeFiber =>
    rw [fiber_newFiber, if_neg (Nat.ne_of_lt hlen)]
    exact ⟨rfl, hf⟩
  | swapIn | hold => exact hset rfl
  | _ => exact ⟨rfl, hf⟩

end Loop

/-- A callback that gives its thread back goes on later or has ended. -/
theorem Leaves.underway {exit : Fiber.Exit} (h : Leaves exit s w s' w')
    (hlen : f < s.fibers.length) (hf : (s.fiber f).state.underway = true) :
    (s'.fiber f).cb = (s.fiber f).cb ∧ (s'.fiber f).state.underway = true ∨
      w.pc.running = some f ∧ (s'.fiber f).state.ended = true := by
  cases h with
  | aborts => exact Or.inl ⟨rfl, hf⟩
  | @returns g own _ pc fiber left =>
    by_cases hfg : f = g
    · subst hfg
      rw [fiber_setFiber_self hlen]
      cases exit with
      | ret | throw =>
        cases left
        exact Or.inr ⟨by rw [pc]; rfl, rfl⟩
      | YieldToReady | YieldToHold =>
        simp only [Fiber.leave] at left
        split at left
        · cases left
          exact Or.inl ⟨rfl, by first | rfl | exact hf⟩
        · cases left
    · rw [fiber_setFiber_ne hfg]
      exact Or.inl ⟨rfl, hf⟩

/-- A fiber that executes after its callback gave the thread back did so before. -/
theorem Leaves.exec_of_exec {exit : Fiber.Exit} (h : Leaves exit s w s' w')
    (hf : (s'.fiber f).state = .EXEC) : (s.fiber f).state = .EXEC := by
  cases h with
  | aborts => exact hf
  | @returns g own _ pc fiber left =>
    cases exit with
    | ret | throw =>
      cases left
      exact state_of_setFiber (by simp) hf
    | YieldToReady =>
      simp only [Fiber.leave] at left
      split at left
      · cases left
        exact state_of_setFiber (by simp) hf
      · cases left
    | YieldToHold =>
      simp only [Fiber.leave] at left
      split at left
      · rename_i hexec
        cases left
        by_cases hg : f = g
        · exact hg ▸ hexec
        · rwa [fiber_setFiber_ne hg] at hf
      · cases left

/-- A task that leaves does not touch the idle fiber. -/
theorem Leaves.pc_eq {exit : Fiber.Exit} (h : Leaves exit s w s' w') :
    w.pc.inIdle = false ∧ w'.pc.entering = none ∧ w'.idleFiber = w.idleFiber := by
  cases h with
  | aborts pc =>
    rw [pc]
    exact ⟨rfl, rfl, rfl⟩
  | returns pc =>
    rw [pc]
    exact ⟨rfl, rfl, rfl⟩

namespace System

variable {s t : System C} {a : Step C} {h : Wakeups}

/-! ## The assertions -/

/-- A worker that takes a fiber which was not made for a callback takes it only if no other worker
has it in hand. -/
def TakesFreeFibers (x : System C × Wakeups) : Step C → Prop
  | .worker i .advance =>
    ∀ taken ∈ x.1.takes (.worker i .advance), ∀ f ∈ taken.2.fiber, f ∉ x.2.callbacks →
      ∀ v ∈ x.1.workers.eraseIdx i, f ∉ v.held
  | _ => True

instance (x : System C × Wakeups) (a : Step C) : Decidable (TakesFreeFibers x a) :=
  match a with
  | .worker i .advance => inferInstanceAs (Decidable (∀ taken ∈ x.1.takes (.worker i .advance), _))
  | .worker _ (.act _) | .worker _ (.leave _) | .worker _ .probe | .outside _ | .stop
  | .setStopping => isTrue trivial

/-- A worker has to do with a fiber that it has in hand. -/
theorem stage_ne_none {w : Worker C A I} (h : f ∈ w.held) : w.stage f ≠ none := by
  intro hnone
  obtain ⟨hpc, hkeeping⟩ := Option.or_eq_none_iff.mp hnone
  have hcb : w.cbFiber ≠ some f := fun hcb => nomatch (if_pos hcb).symm.trans hkeeping
  unfold Worker.held at h
  split at h
  · rename_i ft hw
    rcases mem_targets.mp h with hf | ⟨-, hf⟩
    · simp [hw, Pc.stage, hf] at hpc
    · exact hcb hf
  · rename_i hw
    simp [hw, Pc.stage, List.mem_singleton.mp h] at hpc
  · rename_i hw
    simp [hw, Pc.stage, List.mem_singleton.mp h] at hpc
  · rename_i hw
    simp [hw, Pc.stage, List.mem_singleton.mp h] at hpc
  · cases h

/-- The fibers of callbacks need no condition. -/
theorem takesFree_of_lives (hl : Lives (s, h)) (hfree : TakesFreeFibers (s, h) a) :
    s.TakesFree a := by
  unfold TakesFree
  split
  · rename_i i
    split
    · rename_i w hw
      split
      · rename_i k ft hpc hfound
        intro v hv f hf hheld
        have hv' := List.mem_of_mem_eraseIdx hv
        obtain ⟨j, -, hj, helig, -⟩ := search_eq_entry hfound
        rcases mem_targets.mp hf with hfib | ⟨-, hcb⟩
        · by_cases hcallback : f ∈ h.callbacks
          · have hsole := hl.sole_of_eligible (List.mem_of_getElem? hj) helig hfib hcallback
            exact stage_ne_none hheld (hsole.eq_none hv')
          · have htakes : s.takes (.worker i .advance) = some (k, ft) := by
              simp [takes, hw, Worker.takes, hpc, hfound]
            exact hfree _ htakes f hfib hcallback v hv hheld
        · have hmem := List.mem_of_getElem? hw
          have hkeeps : w.stage f = some .keeps := by
            rw [Worker.stage_of_none (by rw [hpc]; rfl)]
            exact if_pos hcb
          obtain ⟨o, hsole, -⟩ := hl.fits f (hl.keeps w hmem f hcb)
          obtain rfl := hsole.eq_of_some hmem hkeeps
          exact stage_ne_none hheld ((hkeeps ▸ hsole).eraseIdx hw v hv)
      · trivial
    · trivial
  · trivial

/-- No fiber that a worker has taken and not swapped in is executing. -/
def Enters (s : System C) : Prop :=
  ∀ w ∈ s.workers, ∀ f ∈ w.pc.entering, (s.scheduler.fiber f).state ≠ .EXEC

/-- Every step keeps the fibers that have been taken from executing. -/
theorem step_enters (hknown : s.Known) (hapart : s.workers.Pairwise Apart) (h : s.Enters)
    (hs : s.step a = some t) : t.Enters := by
  cases step_stepped hs with
  | @statement i w w' s' hw hst =>
    have hmem := List.mem_of_getElem? hw
    refine forall_mem_set_of_eraseIdx (fun v hv f hf hexec => ?_) fun f hf => ?_
    · rcases hst.exec_of_exec hexec with hold | ⟨own, pc⟩
      · exact h v (List.mem_of_mem_eraseIdx hv) f hf hold
      · -- the worker that swaps the fiber in has it in hand as well
        have hin : f ∈ w.held := mem_held_of_entering (by rw [pc]; rfl)
        exact pairwise_eraseIdx Apart.symm hapart hw v hv f hin (mem_held_of_entering hf)
    · exact hst.entering (fun g hg => hknown.workers w hmem g (Or.inr hg)) (h w hmem) hf
  | act hw pc happly =>
    exact fun w hw f hf hexec => h w hw f hf (apply_state happly nofun hexec)
  | leave hw hl =>
    refine forall_mem_set (fun v hv f hf hexec => ?_) fun f hf => ?_
    · exact h v hv f hf (hl.exec_of_exec hexec)
    · rw [hl.pc_eq.2.1] at hf
      cases hf
  | idle hw pc => exact forall_mem_set h nofun
  | @answer i w first hw pc =>
    refine forall_mem_set h fun f hf => ?_
    rcases Worker.answer_eq first s.scheduler.isStopping w with heq | heq | heq <;>
      rw [heq] at hf <;> cases hf
  | outside happly =>
    exact fun w hw f hf hexec => h w hw f hf (apply_state happly nofun hexec)
  | stop =>
    intro v hv f hf
    obtain ⟨w, hw, rfl⟩ := List.mem_map.mp hv
    unfold Worker.callStop at hf
    split at hf
    · cases hf
    · exact h w hw f hf
  | setStopping => exact h

/-- The idle fiber of a worker is executing only while the worker is in it. -/
def Idles (s : System C) : Prop := ∀ w ∈ s.workers, w.idleFiber = .EXEC → w.pc.inIdle = true

/-- Every step keeps the idle fibers in order. -/
theorem step_idles (h : s.Idles) (hs : s.step a = some t) : t.Idles := by
  -- a worker that is not in its idle fiber has one that is not executing
  have hnot {w : Worker C Unit Unit} (hw : w ∈ s.workers) (hpc : w.pc.inIdle = false)
      (hidle : w.idleFiber = .EXEC) : False :=
    Bool.false_ne_true (hpc.symm.trans (h w hw hidle))
  cases step_stepped hs with
  | statement hw hst => exact forall_mem_set h (hst.inIdle (h _ (List.mem_of_getElem? hw)))
  | act => exact h
  | leave hw hl =>
    obtain ⟨hpc, -, hsame⟩ := hl.pc_eq
    exact forall_mem_set h fun hidle => (hnot (List.mem_of_getElem? hw) hpc (hsame ▸ hidle)).elim
  | idle => exact forall_mem_set h fun _ => rfl
  | @answer i w first hw pc =>
    refine forall_mem_set h fun hidle => ?_
    have hask := hnot (List.mem_of_getElem? hw) (by rw [pc]; rfl)
    rcases Worker.answer_eq first s.scheduler.isStopping w with heq | heq | heq <;>
      rw [heq] at hidle
    · exact (hask hidle).elim
    · exact (hask hidle).elim
    · cases hidle
  | outside => exact h
  | stop =>
    intro v hv hidle
    obtain ⟨w, hw, rfl⟩ := List.mem_map.mp hv
    unfold Worker.callStop at hidle ⊢
    split at hidle
    · rename_i pc
      exact (hnot hw (by rw [pc]; rfl) hidle).elim
    · exact h w hw hidle
  | setStopping => exact h

/-- A worker resets its `cb_fiber` while the fiber is `INIT`, and swaps in no fiber that is
executing. -/
theorem not_fails (hl : Lives (s, h)) (henters : s.Enters) (hidles : s.Idles) {i : Nat}
    {w : Worker C Unit Unit} (hw : w ∈ s.workers) :
    ¬ Fails i s.scheduler w .reset ∧ ¬ Fails i s.scheduler w .swapIn := by
  constructor
  · rintro (_ | @⟨ft, f, pc, -, cbFiber, state, -⟩)
    have howns := hl.owns w hw
    simp only [Worker.Owns, pc] at howns
    have hft : ft.fiber ≠ some f := fun hft => howns f hft cbFiber
    have hpc : w.pc.stage f = none := by rw [pc, Pc.stage, if_neg hft]
    have hkeeps : w.stage f = some .keeps := (Worker.stage_of_none hpc).trans (if_pos cbFiber)
    obtain ⟨o, hsole, hfits⟩ := hl.fits f (hl.keeps w hw f cbFiber)
    obtain rfl := hsole.eq_of_some hw hkeeps
    rw [show (s.scheduler.fiber f).state = .INIT from hfits.1] at state
    cases state
  · intro hfails
    cases hfails with
    | swapIn pc state => exact henters w hw _ (by rw [pc]; rfl) state
    | idle pc state =>
      have hin := hidles w hw state
      rw [pc] at hin
      cases hin

theorem abort_eq_none (hs : s.step a = some t) : s.scheduler.abort = none := by
  unfold step at hs
  split at hs
  · cases hs
  · rename_i hnone
    simpa using hnone

/-- The process is not aborted by `reset` or `swapIn`. -/
theorem step_abort (hl : Lives (s, h)) (henters : s.Enters) (hidles : s.Idles)
    (hs : s.step a = some t) :
    t.scheduler.abort ≠ some .reset ∧ t.scheduler.abort ≠ some .swapIn := by
  have hnone := abort_eq_none hs
  have hkeep (hsame : t.scheduler.abort = s.scheduler.abort) :
      t.scheduler.abort ≠ some .reset ∧ t.scheduler.abort ≠ some .swapIn := by
    rw [hsame, hnone]
    exact ⟨nofun, nofun⟩
  cases step_stepped hs with
  | statement hw hst =>
    obtain ⟨hreset, hswapIn⟩ := not_fails hl henters hidles (List.mem_of_getElem? hw)
    exact ⟨fun ha => hreset (hst.abort hnone ha), fun ha => hswapIn (hst.abort hnone ha)⟩
  | act hw pc happly | outside happly =>
    refine hkeep ?_
    rcases apply_eq_some happly with ⟨cb, rfl, rfl⟩ | ⟨-, rfl⟩ <;> rfl
  | leave hw hleaves =>
    cases hleaves with
    | aborts => exact ⟨nofun, nofun⟩
    | returns => exact hkeep rfl
  | idle | answer | stop | setStopping => exact hkeep rfl

/-! ## Callbacks -/

/-- Neither `reset` nor `swapIn` has failed, and whatever happens next, a callback's fiber that was
started goes on with the same callback, or its callback was executing and has ended. -/
structure Reusable (x : System C × Wakeups) : Prop where
  reset : x.1.scheduler.abort ≠ some .reset
  swapIn : x.1.scheduler.abort ≠ some .swapIn
  underway : ∀ a t, x.1.step a = some t → ∀ f ∈ x.2.callbacks,
    (x.1.scheduler.fiber f).state.underway = true →
      (t.scheduler.fiber f).cb = (x.1.scheduler.fiber f).cb ∧
          (t.scheduler.fiber f).state.underway = true ∨
        (x.1.scheduler.fiber f).state = .EXEC ∧ (t.scheduler.fiber f).state.ended = true

/-- A fiber that is under way keeps its callback. -/
theorem step_underway (hl : Lives (s, h)) (hs : s.step a = some t) (hf : f ∈ h.callbacks)
    (hunder : (s.scheduler.fiber f).state.underway = true) :
    (t.scheduler.fiber f).cb = (s.scheduler.fiber f).cb ∧
        (t.scheduler.fiber f).state.underway = true ∨
      (s.scheduler.fiber f).state = .EXEC ∧ (t.scheduler.fiber f).state.ended = true := by
  have hlen := hl.made f hf
  cases step_stepped hs with
  | statement hw hst => exact Or.inl (hst.underway hlen hunder)
  | act hw pc happly | outside happly =>
    rcases apply_eq_some happly with ⟨cb, rfl, rfl⟩ | ⟨-, rfl⟩
    · dsimp only
      rw [fiber_newFiber, if_neg (Nat.ne_of_lt hlen)]
      exact Or.inl ⟨rfl, hunder⟩
    · exact Or.inl ⟨rfl, hunder⟩
  | leave hw hleaves =>
    refine (hleaves.underway hlen hunder).imp_right fun ⟨hrun, hended⟩ => ⟨?_, hended⟩
    obtain ⟨o, hsole, hfits⟩ := hl.fits f hf
    obtain rfl := hsole.eq_of_some (List.mem_of_getElem? hw) (stage_of_running hrun)
    exact hfits.1
  | idle | answer | stop | setStopping => exact Or.inl ⟨rfl, hunder⟩

/-- In every run in which the only calls of `schedule` for a callback's fiber are one wakeup for
each yield to `HOLD`, and in which a worker takes another fiber only while no other worker has it
in hand, the workers reuse the fibers of callbacks safely. -/
theorem callback_fibers_reusable (threads : Nat) (use_caller : Bool) (as : List (Step C))
    (honce : Guarded (recorded step Wakeups.record) WokenOnce (init threads use_caller, .empty) as)
    (hfree : Guarded (recorded step Wakeups.record) TakesFreeFibers
      (init threads use_caller, .empty) as) :
    Along (recorded step Wakeups.record) Reusable (init threads use_caller, .empty) as := by
  refine along_of_guarded (I := fun x : System C × Wakeups =>
    Lives x ∧ x.1.workers.Pairwise Apart ∧ x.1.Enters ∧ x.1.Idles ∧
      x.1.scheduler.abort ≠ some .reset ∧ x.1.scheduler.abort ≠ some .swapIn) ?_ ?_ ?_
    (honce.and hfree)
  · rintro x a y ⟨hl, hapart, henters, hidles, -⟩ ⟨honce, hfree⟩ hr
    refine of_recorded hr fun t hs => ?_
    have htakes := takesFree_of_lives hl hfree
    exact ⟨step_lives hl honce hs, step_apart hl.known hapart htakes hs,
      step_enters hl.known hapart henters hs, step_idles hidles hs,
      step_abort hl henters hidles hs⟩
  · rintro ⟨s, h⟩ ⟨hl, -, -, -, hreset, hswapIn⟩
    exact ⟨hreset, hswapIn, fun a t hs f hf => step_underway hl hs hf⟩
  · refine ⟨init_lives threads use_caller, init_apart threads use_caller, ?_, ?_, nofun, nofun⟩
    · intro w hw f hf
      obtain ⟨i, -, rfl⟩ := List.mem_map.mp hw
      split at hf <;> cases hf
    · intro w hw hidle
      obtain ⟨i, -, rfl⟩ := List.mem_map.mp hw
      cases hidle

/-- Worker 1 runs a fiber that is no callback's. A callback on worker 0 schedules its own fiber
and yields to `HOLD`. Worker 1 runs another callback, which returns, and uses its fiber for a third
one, while worker 0 goes on with the first. -/
def wokenAndReused : List (Step Bool) :=
  [.outside (.newFiber true), .outside (.schedule (.fiber (some 0)) none),
    .outside (.schedule (.cb (some true)) none),
    .worker 1 .advance, .worker 1 .advance, .worker 1 .advance, .worker 1 (.leave .ret),
    .worker 1 .advance, .worker 1 .advance, .worker 1 .advance, .worker 1 .advance,
    .worker 0 .advance, .worker 0 .advance, .worker 0 .advance,
    .worker 0 (.act (.schedule (.fiber (some 1)) none)), .worker 0 (.leave .YieldToHold),
    .worker 0 .advance, .worker 0 .advance, .worker 0 .advance, .worker 0 .advance,
    .worker 0 .advance, .worker 0 .advance, .worker 0 .advance, .worker 0 .advance,
    .outside (.schedule (.cb (some false)) none),
    .worker 1 .advance, .worker 1 .advance, .worker 1 .advance, .worker 1 (.leave .ret),
    .worker 1 .advance, .worker 1 .advance, .worker 1 .advance, .worker 1 .advance,
    .outside (.schedule (.cb (some true)) none),
    .worker 1 .advance, .worker 1 .advance, .worker 1 .advance]

/-- A callback fiber is woken up on the other worker. -/
theorem callback_fibers_reusable_wokenAndReused :
    ((run (recorded step Wakeups.record) (init 2 false, .empty) wokenAndReused).any fun x =>
        x.1.workers.map (·.pc) = [.exec 1 false (), .exec 2 true ()]) = true ∧
      Along (recorded step Wakeups.record) Reusable (init 2 false, .empty) wokenAndReused :=
  ⟨by decide +kernel,
    callback_fibers_reusable 2 false wokenAndReused (by decide +kernel) (by decide +kernel)⟩

/-- A fiber that is no callback's is scheduled twice. Both workers take it before either swaps it
in. -/
def takenTwice : List (Step Bool) :=
  [.outside (.newFiber true), .outside (.schedule (.fiber (some 0)) none),
    .outside (.schedule (.fiber (some 0)) none),
    .worker 0 .advance, .worker 1 .advance, .worker 0 .advance, .worker 1 .advance,
    .worker 0 .advance, .worker 1 .advance]

/-- There is no call of `schedule` for a callback's fiber, and the assertion in `swapIn` fails on
worker 1. -/
theorem swapIn_of_executing_fiber :
    Guarded (recorded step Wakeups.record) WokenOnce (init 2 false, .empty) takenTwice ∧
      (run (recorded step Wakeups.record) (init 2 false, .empty) takenTwice).isSome ∧
      ∀ x, run (recorded step Wakeups.record) (init 2 false, .empty) takenTwice = some x →
        x.1.workers.map (·.pc) = [.exec 0 false (), .swapIn 0 false] ∧
          x.1.scheduler.abort = some .swapIn ∧ ¬ Reusable x := by
  have hfacts : Guarded (recorded step Wakeups.record) WokenOnce (init 2 false, .empty) takenTwice ∧
      (run (recorded step Wakeups.record) (init 2 false, .empty) takenTwice).isSome ∧
      ∀ x, run (recorded step Wakeups.record) (init 2 false, .empty) takenTwice = some x →
        x.1.workers.map (·.pc) = [.exec 0 false (), .swapIn 0 false] ∧
          x.1.scheduler.abort = some .swapIn := by
    decide
  refine ⟨hfacts.1, hfacts.2.1, fun x hx => ?_⟩
  obtain ⟨hpcs, habort⟩ := hfacts.2.2 x hx
  exact ⟨hpcs, habort, fun hreusable => hreusable.swapIn habort⟩

end System

end Scheduler

end Xupeng
