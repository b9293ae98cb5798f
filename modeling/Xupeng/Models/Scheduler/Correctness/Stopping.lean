import Xupeng.Core.Run
import Xupeng.Models.Scheduler.Interpretation.Counting

/-!
# What `stopping()` says

`stopping()` looks at the queue and at the counter of active threads. A worker whose
task has yielded to `READY` decrements the counter first and puts the fiber back
into the queue afterwards. In between the fiber is in neither, and `stopping()` can
return true although there is a task left to run.

If no task yields to `READY` once `m_stopping` is set, and none is on its way back
when it is set, then `stopping()` is right.
-/

namespace Xupeng.Scheduler

variable {C A I : Type} {s s' : Scheduler C} {w w' : Worker C A I} {thread f : Nat}

/-- The worker has a fiber that yielded to `READY` and is not back in the queue. -/
def Worker.putsBack (s : Scheduler C) (w : Worker C A I) : Bool :=
  match w.pc with
  | .swapOut f _ | .swapped f _ | .isReady f _ => (s.fiber f).state = .READY
  | .requeue .. => true
  | _ => false

/-- Who has a fiber to put back has one when the states were not `READY` later than before. -/
theorem Worker.putsBack_mono
    (h : ∀ f, (s'.fiber f).state = .READY → (s.fiber f).state = .READY)
    (hw : w.putsBack s' = true) : w.putsBack s = true := by
  unfold Worker.putsBack at hw ⊢
  split at hw
  · exact decide_eq_true (h _ (of_decide_eq_true hw))
  · exact decide_eq_true (h _ (of_decide_eq_true hw))
  · exact decide_eq_true (h _ (of_decide_eq_true hw))
  · rfl
  · cases hw

section Loop

variable [Inhabited A] [Inhabited I]

/-- No statement of the loop makes a fiber `READY`. -/
theorem Statement.ready_of_ready (h : Statement thread s w s' w')
    (hf : (s'.fiber f).state = .READY) : (s.fiber f).state = .READY := by
  cases h with
  | resetFiber | swapIn | recycle | hold => exact state_of_setFiber (by simp) hf
  | makeFiber => exact state_of_newFiber nofun hf
  | _ => exact hf

/-- A worker gets a fiber to put back only from the task itself. -/
theorem Statement.putsBack (h : Statement thread s w s' w') (hw : w'.putsBack s' = true) :
    w.putsBack s = true := by
  cases h with
  | aborts => exact hw
  | swapOut pc | swapped pc =>
    unfold Worker.putsBack
    rw [pc]
    exact hw
  | ready pc state =>
    unfold Worker.putsBack
    rw [pc]
    exact decide_eq_true state
  | _ => cases hw

end Loop

/-- Only a yield to `READY` leaves a fiber ready. -/
theorem leave_ne_ready {fiber fiber' : Fiber C} {exit : Fiber.Exit} (hexit : exit ≠ .YieldToReady)
    (h : fiber.leave exit = some fiber') : fiber'.state ≠ .READY := by
  cases exit with
  | ret | throw =>
    cases h
    simp
  | YieldToReady => exact absurd rfl hexit
  | YieldToHold =>
    simp only [Fiber.leave] at h
    split at h
    · rename_i hexec
      cases h
      simp [hexec]
    · cases h

/-- A task that does not yield to `READY` makes no fiber `READY`. -/
theorem Leaves.ready_of_ready {exit : Fiber.Exit} (h : Leaves exit s w s' w')
    (hexit : exit ≠ .YieldToReady) (hf : (s'.fiber f).state = .READY) :
    (s.fiber f).state = .READY := by
  cases h with
  | aborts => exact hf
  | returns pc left => exact state_of_setFiber (leave_ne_ready hexit left) hf

/-- A task that does not yield to `READY` leaves nothing to put back. -/
theorem Leaves.putsBack {exit : Fiber.Exit} (h : Leaves exit s w s' w')
    (hexit : exit ≠ .YieldToReady) : w'.putsBack s' = false := by
  cases h with
  | aborts pc =>
    unfold Worker.putsBack
    rw [pc]
  | @returns f own _ pc fiber left =>
    refine decide_eq_false fun hready => ?_
    rw [fiber_setFiber] at hready
    split at hready
    · exact leave_ne_ready hexit left hready
    · rename_i hlen
      rw [fiber_of_length_le (by omega)] at hready
      cases hready

namespace System

variable {s t : System C} {a : Step C}

/-- No worker has a fiber to put back. -/
def AllBack (s : System C) : Prop := ∀ w ∈ s.workers, w.putsBack s.scheduler = false

/-- When `stopping()` returns true there is nothing left to run: the queue is empty, no worker is
executing a task, and none has a fiber to put back. -/
def StopsIdle (s : System C) : Prop :=
  s.scheduler.isStopping = true →
    s.scheduler.queue = [] ∧ (∀ w ∈ s.workers, w.pc.active = false) ∧ s.AllBack

/-- No task yields to `READY` once `m_stopping` is set, and it is set when no worker has a fiber
to put back. -/
def YieldsBeforeStop (s : System C) : Step C → Prop
  | .worker _ (.leave .YieldToReady) => s.scheduler.stopping = false
  | .worker i .advance =>
    match s.workers[i]? with
    | some ⟨.stop _, _, _⟩ => s.AllBack
    | _ => True
  | .setStopping => s.AllBack
  | _ => True

instance : Decidable s.AllBack := inferInstanceAs (Decidable (∀ w ∈ s.workers, _))

instance [DecidableEq C] : Decidable s.StopsIdle := inferInstanceAs (Decidable (_ → _))

instance (s : System C) (a : Step C) : Decidable (s.YieldsBeforeStop a) := by
  unfold YieldsBeforeStop
  split
  · infer_instance
  · split <;> infer_instance
  · infer_instance
  · infer_instance

/-- Once `m_stopping` is set no worker has a fiber to put back. -/
def Settled (s : System C) : Prop := s.scheduler.stopping = true → s.AllBack

/-- A step of a worker that makes no fiber `READY` and gets no fiber to put back. -/
theorem AllBack.set (h : s.AllBack) {i : Nat} {w w' : Worker C Unit Unit}
    (hw : s.workers[i]? = some w) {s' : Scheduler C}
    (hready : ∀ f, (s'.fiber f).state = .READY → (s.scheduler.fiber f).state = .READY)
    (hback : w'.putsBack s' = true → w.putsBack s.scheduler = true) :
    AllBack { s with scheduler := s', workers := s.workers.set i w' } := by
  refine forall_mem_set (fun v hv => ?_) ?_
  · exact Bool.eq_false_iff.mpr fun hb =>
      Bool.eq_false_iff.mp (h v hv) (Worker.putsBack_mono hready hb)
  · exact Bool.eq_false_iff.mpr fun hb =>
      Bool.eq_false_iff.mp (h w (List.mem_of_getElem? hw)) (hback hb)

/-- Code that uses the scheduler unsettles nobody. -/
theorem apply_settled (h : s.Settled) {act : Act C} {s' : Scheduler C}
    (ha : act.apply s.scheduler = some s') : Settled { s with scheduler := s' } := by
  have hstopping : s'.stopping = s.scheduler.stopping := by
    rcases apply_eq_some ha with ⟨cb, rfl, rfl⟩ | ⟨-, rfl⟩ <;> rfl
  intro hstop w hw
  exact Bool.eq_false_iff.mpr fun hb =>
    Bool.eq_false_iff.mp (h (hstopping ▸ hstop) w hw)
      (Worker.putsBack_mono (fun _ => apply_state ha nofun) hb)

/-- Every step under the condition keeps the workers without fibers to put back. -/
theorem step_settled (h : s.Settled) (hg : s.YieldsBeforeStop a) (hs : s.step a = some t) :
    t.Settled := by
  cases step_stepped hs with
  | @statement i w w' s' hw hst =>
    intro hstop
    have hback : s.AllBack := by
      cases hold : s.scheduler.stopping with
      | true => exact h hold
      | false =>
        -- the statement is the one that sets the flag
        cases hst with
        | setStopping pc =>
          obtain ⟨_, cbFiber, idleFiber⟩ := w
          cases pc
          simpa only [YieldsBeforeStop, hw] using hg
        | _ => exact absurd (hold.symm.trans hstop) Bool.false_ne_true
    exact hback.set hw (fun f => hst.ready_of_ready) hst.putsBack
  | act hw pc ha => exact apply_settled h ha
  | @leave i w w' exit s' hw hl =>
    intro hstop
    have hold : s.scheduler.stopping = true := by
      cases hl <;> exact hstop
    have hexit : exit ≠ .YieldToReady := by
      rintro rfl
      exact absurd (hg.symm.trans hold) Bool.false_ne_true
    have hnone := hl.putsBack hexit
    exact (h hold).set hw (fun f => hl.ready_of_ready hexit) fun hb =>
      absurd (hnone.symm.trans hb) Bool.false_ne_true
  | idle hw pc =>
    intro hstop
    exact (h hstop).set hw (fun f hf => hf) nofun
  | @answer i w first hw pc =>
    intro hstop
    refine (h hstop).set hw (fun f hf => hf) fun hb => ?_
    rcases Worker.answer_eq first s.scheduler.isStopping w with heq | heq | heq <;>
      rw [heq] at hb <;> cases hb
  | outside ha => exact apply_settled h ha
  | stop =>
    intro hstop v hv
    obtain ⟨w, hw, rfl⟩ := List.mem_map.mp hv
    refine Bool.eq_false_iff.mpr fun hb => Bool.eq_false_iff.mp (h hstop w hw) ?_
    unfold Worker.callStop at hb
    split at hb
    · cases hb
    · exact hb
  | setStopping => exact fun _ => hg

theorem init_settled (threads : Nat) (use_caller : Bool) :
    (init threads use_caller : System C).Settled := nofun

/-- Who is settled when the scheduler stops is idle. -/
theorem stopsIdle_of_settled (hc : s.Counted) (h : s.Settled) : s.StopsIdle := by
  intro hstopping
  simp only [isStopping, Bool.and_eq_true, decide_eq_true_eq, List.isEmpty_iff] at hstopping
  obtain ⟨⟨⟨-, hflag⟩, hqueue⟩, hcount⟩ := hstopping
  rw [Counted, hcount] at hc
  have hnone : s.workers.countP (·.pc.active) = 0 := by omega
  refine ⟨hqueue, fun w hw => ?_, h hflag⟩
  exact Bool.eq_false_iff.mpr (List.countP_eq_zero.mp hnone w hw)

/-- In every run in which no task yields to `READY` once `m_stopping` is set and none is on its
way back when it is set, `stopping()` returns true only when there is nothing left to run. -/
theorem stopping_sound (threads : Nat) (use_caller : Bool) (as : List (Step C))
    (hyield : Guarded step YieldsBeforeStop (init threads use_caller) as) :
    Along step StopsIdle (init threads use_caller) as :=
  along_of_guarded (I := fun s => s.Counted ∧ s.Settled)
    (fun _ _ _ hI hg hs => ⟨step_counted hI.1 hs, step_settled hI.2 hg hs⟩)
    (fun _ hI => stopsIdle_of_settled hI.1 hI.2)
    ⟨init_counted threads use_caller, init_settled threads use_caller⟩ hyield

/-- A callback yields to `READY` and is put back, then `stop` is called. The callback runs again
and returns, and worker 1 leaves its loop. -/
def yieldThenStop : List (Step Unit) :=
  [.outside (.schedule (.cb (some ())) none),
    .worker 0 .advance, .worker 0 .advance, .worker 0 .advance,
    .worker 0 (.leave .YieldToReady),
    .worker 0 .advance, .worker 0 .advance, .worker 0 .advance, .worker 0 .advance,
    .stop, .setStopping,
    .worker 0 .advance, .worker 0 .advance, .worker 0 .advance,
    .worker 0 (.leave .ret), .worker 0 .advance, .worker 0 .advance,
    .worker 1 .advance, .worker 1 .advance, .worker 1 .probe]

/-- A task yields while the scheduler stops. -/
theorem stopping_sound_yieldThenStop :
    (run step (init 2 false) yieldThenStop).any (·.scheduler.isStopping) ∧
      Along step StopsIdle (init 2 false) yieldThenStop :=
  ⟨by decide, stopping_sound 2 false yieldThenStop (by decide)⟩

/-- `stop` is called while a callback runs on worker 0. The callback yields to `READY`, and
worker 0 has decremented the counter but not put the fiber back. -/
def stopWhileYielding : List (Step Unit) :=
  [.outside (.schedule (.cb (some ())) none),
    .worker 0 .advance, .worker 0 .advance, .worker 0 .advance,
    .stop, .setStopping,
    .worker 0 (.leave .YieldToReady), .worker 0 .advance, .worker 0 .advance]

/-- `stopping()` returns true although the fiber is `READY` and not yet back in the queue. -/
theorem stopping_while_yielding :
    (run step (init 2 false) stopWhileYielding).isSome ∧
      ∀ s, run step (init 2 false) stopWhileYielding = some s →
        s.scheduler.isStopping = true ∧ (s.scheduler.fiber 0).state = .READY ∧
          s.workers.map (·.pc) = [.isReady 0 true, .search] ∧ ¬ s.StopsIdle := by
  decide

end System

end Xupeng.Scheduler
