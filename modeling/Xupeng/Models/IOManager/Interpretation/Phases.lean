import Xupeng.Models.IOManager.Interpretation.Debts
import Xupeng.Models.Timer.Interpretation.Pending

/-!
# How far a worker is on its way out of `run`

`stopping()` reads the timers, the counter of pending events and the queue one
after the other, and a worker whose idle fiber has returned still searches the queue
once more before it leaves. The phase of a worker counts what it has read on the way
out. A worker that goes back to work is in phase 0 again, except when its idle fiber
has ended: such a worker runs tasks in phase 3.
-/

namespace Xupeng.IOManager

variable {C : Type} {m m' : Members C} {w w' : Worker C} {thread : Nat}

/-! ## Phases -/

/-- What the worker has read on its way out: 1 that there are no timers, 2 that there are no
events, 3 that the queue is empty, so that its idle fiber has ended, 4 that there is nothing
in the queue for it. -/
def Worker.phase (w : Worker C) : Nat :=
  match w.pc with
  | .done => 4
  | .noTask => if w.idleFiber = .TERM then 4 else 0
  | .idle (.probe .pending) | .ask _ (.probe .pending) => 1
  | .idle (.probe .queue) | .ask _ (.probe .queue) => 2
  | .idle _ | .ask .. | .stop _ | .dormant => 0
  | _ => if w.idleFiber = .TERM then 3 else 0

/-- A worker in phase 4 runs nothing any more. -/
theorem Worker.not_runs_of_phase (h : 4 ≤ w.phase) (f : Nat) : ¬ w.pc.Runs f := by
  unfold Worker.phase at h
  cases hpc : w.pc with
  | exec | swapOut | swapped | isReady | isEnded | hold =>
    simp only [hpc] at h
    split at h <;> omega
  | _ => exact id

/-- What a worker reads in a step from one phase to another. -/
inductive Reads (thread : Nat) (m : Members C) : Nat → Nat → Prop
  | timer (h : m.timers.timers = []) : Reads thread m 0 1
  | pending (h : m.pendingEventCount = 0) : Reads thread m 1 2
  | queue {p : Nat} (h : m.scheduler.isStopping = true) (hp : 3 ≤ p) : Reads thread m 2 p
  | search (h : m.scheduler.search thread 0 m.scheduler.queue = .nothing) : Reads thread m 3 4
  | done : Reads thread m 4 4

/-- The step leaves the fibers and the work to be done alone. -/
structure SameWork (m m' : Members C) : Prop where
  fibers : m'.scheduler.fibers = m.scheduler.fibers
  queue : m'.scheduler.queue = m.scheduler.queue
  timers : m'.timers.timers = m.timers.timers
  pendingEventCount : m'.pendingEventCount = m.pendingEventCount

/-- How the phase of a worker changes in a step. -/
def Phased (thread : Nat) (m m' : Members C) (w w' : Worker C) : Prop :=
  w'.phase = 0 ∨ w.phase = 3 ∧ w'.phase = 3 ∨
    SameWork m m' ∧ Reads thread m w.phase w'.phase

/-- The worker is in the body of the loop of `run`, from the search on. -/
def InLoop : Scheduler.Pc C (Activity C) (Position C) → Prop
  | .dormant | .stop _ | .ask .. | .idle _ | .noTask | .done => False
  | _ => True

/-- In the loop a worker has stopped if its idle fiber has ended. -/
theorem InLoop.phase_eq (h : InLoop w.pc) : w.phase = if w.idleFiber = .TERM then 3 else 0 := by
  unfold Worker.phase
  cases hpc : w.pc <;> simp_all [InLoop]

/-- A worker that stays in the loop body stays in its phase. -/
theorem Phased.of_inLoop (hw : InLoop w.pc) (hw' : InLoop w'.pc)
    (h : w'.idleFiber = .TERM ↔ w.idleFiber = .TERM) : Phased thread m m' w w' := by
  by_cases hterm : w.idleFiber = .TERM
  · exact Or.inr (Or.inl ⟨by rw [hw.phase_eq, if_pos hterm],
      by rw [hw'.phase_eq, if_pos (h.mpr hterm)]⟩)
  · exact Or.inl (by rw [hw'.phase_eq, if_neg (mt h.mp hterm)])

/-- Entering a fiber is part of the loop. -/
theorem onFiber_inLoop {s : Scheduler C} {f : Nat} {a : Scheduler.Abort}
    {pc : Scheduler.Pc C (Activity C) (Position C)} (hw : InLoop w.pc) (hpc : InLoop pc)
    (o : Option (Fiber C)) : InLoop (w.onFiber s f a pc o).2.pc := by
  cases o with
  | none => exact hw
  | some fiber => exact hpc

theorem dispatch_inLoop {s : Scheduler C} (hw : InLoop w.pc) (ft : FiberAndThread C) :
    InLoop (w.dispatch s ft).2.pc := by
  unfold Scheduler.Worker.dispatch
  split
  · trivial
  · split
    · exact onFiber_inLoop hw (by trivial) _
    · trivial
  · trivial

/-- A statement of the loop raises the phase only at the last search. -/
theorem advance_phased {s : Scheduler C} (h : w.advance thread m.scheduler = some (s, w')) :
    Phased thread m { m with scheduler := s } w w' := by
  have hidle := (Scheduler.advance_framed h).2.idleFiber
  unfold Scheduler.Worker.advance at h
  have hstay (hpc : InLoop w.pc) (hpc' : InLoop w'.pc) :
    Phased thread m { m with scheduler := s } w w' := .of_inLoop hpc hpc' hidle
  cases hpc : w.pc with
  | dormant | ask | exec | idle | done => simp [hpc] at h
  | stop first =>
    simp only [hpc, Option.some.injEq] at h
    cases h
    exact Or.inl rfl
  | skip | swapOut | swapped | idleSwapped | requeue | hold =>
    simp only [hpc, Option.some.injEq] at h
    cases h
    exact hstay (by simp [hpc, InLoop]) trivial
  | taken ft =>
    have hw : InLoop w.pc := by simp [hpc, InLoop]
    simp only [hpc, Option.some.injEq] at h
    obtain ⟨rfl, rfl⟩ := Prod.mk.inj h
    exact hstay hw (dispatch_inLoop hw ft)
  | swapIn f own =>
    have hw : InLoop w.pc := by simp [hpc, InLoop]
    simp only [hpc, Option.some.injEq] at h
    obtain ⟨rfl, rfl⟩ := Prod.mk.inj h
    exact hstay hw (onFiber_inLoop hw (by trivial) _)
  | isReady f own =>
    simp only [hpc, Option.some.injEq] at h
    cases h
    refine hstay (by simp [hpc, InLoop]) ?_
    dsimp only [Scheduler.Worker.goto]
    split <;> trivial
  | isEnded f own =>
    have hw : InLoop w.pc := by simp [hpc, InLoop]
    simp only [hpc, Option.some.injEq] at h
    split at h
    · cases h
      exact hstay hw trivial
    · split at h
      · obtain ⟨rfl, rfl⟩ := Prod.mk.inj h
        exact hstay hw (onFiber_inLoop hw (by trivial) _)
      · cases h
        exact hstay hw trivial
  | search =>
    have hw : InLoop w.pc := by simp [hpc, InLoop]
    simp only [hpc] at h
    split at h <;> cases h
    · rename_i hnothing
      by_cases hterm : w.idleFiber = .TERM
      · refine Or.inr (Or.inr ⟨⟨rfl, rfl, rfl, rfl⟩, ?_⟩)
        have hphase : Worker.phase (w.goto .noTask) = 4 := if_pos hterm
        rw [hw.phase_eq, if_pos hterm, hphase]
        exact .search hnothing
      · exact Or.inl (by simp [Worker.phase, Scheduler.Worker.goto, hterm])
    · exact hstay hw hw
    · exact hstay hw trivial
  | noTask =>
    simp only [hpc, Option.some.injEq] at h
    split at h
    · rename_i hterm
      cases h
      refine Or.inr (Or.inr ⟨⟨rfl, rfl, rfl, rfl⟩, ?_⟩)
      simp only [Worker.phase, hpc, if_pos hterm]
      exact .done
    · rename_i hterm
      split at h <;> cases h
      · exact Or.inl (by simp [Worker.phase, hpc, hterm])
      · exact Or.inl rfl

/-- The clock readings of `getNextTimer` are not zero. -/
def Move.ClockSet : Move C → Prop
  | .probe now => now ≠ 0
  | _ => True

instance : (mv : Move C) → Decidable mv.ClockSet
  | .probe now => inferInstanceAs (Decidable (now ≠ 0))
  | .advance | .act _ | .leave _ | .wait _ | .expire .. | .push | .process _ | .effect | .swapOut =>
    isTrue trivial

/-- A read of `stopping()` that goes on has found nothing to do, and the others change nothing
either. -/
theorem probe_sameWork (now : UInt64) (p : Probe) : SameWork m (Worker.probe now m p).1 := by
  cases p
  · exact ⟨rfl, rfl, TimerManager.getNextTimer_timers now m.timers, rfl⟩
  · exact ⟨rfl, rfl, rfl, rfl⟩
  · exact ⟨rfl, rfl, rfl, rfl⟩

/-- A test in `idle` moves the phase on by one. -/
theorem probeIdle_phased {now : UInt64} (hnow : now ≠ 0) {p : Probe}
    (hpc : w.pc = .idle (.probe p)) :
    Phased thread m (Worker.probe now m p).1 w (w.probeIdle p (Worker.probe now m p).2) := by
  cases hb : (Worker.probe now m p).2 with
  | false => exact Or.inl rfl
  | true =>
    refine Or.inr (Or.inr ⟨probe_sameWork now p, ?_⟩)
    unfold Worker.phase
    rw [hpc]
    cases p with
    | timer => exact .timer (TimerManager.timers_eq_nil hnow (of_decide_eq_true hb))
    | pending => exact .pending (of_decide_eq_true hb)
    | queue => exact .queue hb le_rfl

theorem probeStop_phased {now : UInt64} (hnow : now ≠ 0) {first : Bool} {p : Probe}
    (hpc : w.pc = .ask first (.probe p)) :
    Phased thread m (Worker.probe now m p).1 w (w.probeStop first p (Worker.probe now m p).2) := by
  cases hb : (Worker.probe now m p).2 with
  | false =>
    left
    cases first <;> rfl
  | true =>
    refine Or.inr (Or.inr ⟨probe_sameWork now p, ?_⟩)
    unfold Worker.phase
    rw [hpc]
    cases p with
    | timer => exact .timer (TimerManager.timers_eq_nil hnow (of_decide_eq_true hb))
    | pending => exact .pending (of_decide_eq_true hb)
    | queue => exact .queue hb (show 3 ≤ 4 by omega)

/-- After `stopping()` has returned false, the worker is in phase 0 until it asks again. -/
theorem loop_phase {i : Position C} {mv : Move C} (h : w.loop m i mv = some (m', w')) :
    w'.phase = 0 := by
  cases Worker.looped h <;> rfl

/-- What a step of a worker does to its phase. -/
theorem move_phased {mv : Move C} (hclock : mv.ClockSet)
    (h : w.move thread m mv = some (m', w')) : Phased thread m m' w w' := by
  cases Worker.moved h with
  | advance step => exact advance_phased step
  | act pc => exact .of_inLoop (by simp [pc, InLoop]) trivial Iff.rfl
  | leave pc step =>
    have hw : InLoop w.pc := by simp [pc, InLoop]
    refine .of_inLoop hw ?_ (Scheduler.leave_framed (by rw [pc]; rfl) step).idleFiber
    simp only [Scheduler.Worker.leave, pc, Option.some.injEq] at step
    rw [← step]
    exact onFiber_inLoop hw (by trivial) _
  | probeIdle pc => exact probeIdle_phased hclock pc
  | probeStop pc => exact probeStop_phased hclock pc
  | loop pc step => exact Or.inl (loop_phase step)

/-! ## Executing fibers -/

@[simp] theorem perform_fibers (m : Members C) (e : Effect Target Nat C) :
    (m.perform e).scheduler.fibers = m.scheduler.fibers := by
  rcases e with _ | _ | ⟨_ | _, _⟩ | _ | _ <;> rfl

theorem runSection_fibers {p : Nat} {rt : Bool} {sec : Section Target Nat C}
    {es : List (Effect Target Nat C)} (h : m.runSection p rt sec = some (m', es)) :
    m'.scheduler.fibers = m.scheduler.fibers := by
  obtain ⟨o, -, hm⟩ := Option.map_eq_some_iff.mp h
  split at hm <;> cases hm <;> rfl

/-- Code that uses the manager makes new fibers, but executes none. -/
theorem act_exec {me : Option (FdContext.Caller Target Nat)} {activity activity' : Activity C}
    {a : Act C} (h : m.act me activity a = some (m', activity')) {f : Nat}
    (hf : (m'.scheduler.fiber f).state = .EXEC) : (m.scheduler.fiber f).state = .EXEC := by
  have hsame (hs : m'.scheduler.fibers = m.scheduler.fibers) :
      (m.scheduler.fiber f).state = .EXEC := by
    rwa [Scheduler.fiber, hs] at hf
  cases Members.acted h with
  | newFiber => exact Scheduler.newFiber_exec hf
  | commit _ ran => exact hsame (runSection_fibers ran)
  | effect => exact hsame (perform_fibers _ _)
  | _ => exact hf

theorem loop_fibers {i : Position C} {mv : Move C} (h : w.loop m i mv = some (m', w')) :
    m'.scheduler.fibers = m.scheduler.fibers := by
  cases Worker.looped h with
  | process ran => exact runSection_fibers ran
  | effect => exact perform_fibers _ _
  | _ => rfl

/-- Every step of a worker keeps the executing fibers answered for. -/
theorem move_answers {mv : Move C} (h : w.move thread m mv = some (m', w')) :
    Scheduler.Answers m.scheduler m'.scheduler w w' := by
  cases Worker.moved h with
  | advance step => exact Scheduler.advance_answers step
  | @act f own activity a r pc step =>
    intro g hg
    by_cases hfg : f = g
    · exact Or.inl hfg
    · exact Or.inr ⟨act_exec step hg, by simpa [pc, Scheduler.Pc.Runs] using hfg⟩
  | leave _ step => exact Scheduler.leave_answers step
  | @probeIdle now p pc =>
    exact .of_fibers (by cases p <;> rfl) (by simp [pc, Scheduler.Pc.Runs])
  | @probeStop now first p pc =>
    exact .of_fibers (by cases p <;> rfl) (by simp [pc, Scheduler.Pc.Runs])
  | loop pc step => exact .of_fibers (loop_fibers step) (by simp [pc, Scheduler.Pc.Runs])

end Xupeng.IOManager
