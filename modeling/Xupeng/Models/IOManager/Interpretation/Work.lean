import Xupeng.Models.IOManager.Interpretation.Phases

/-!
# What a step adds to the work

A step is told by its label, and by what the thread is in the middle of, whether it
adds a timer, registers an event or schedules a task. A step that is none of these
leaves no more timers and events and nothing new in the queue.
-/

namespace Xupeng.IOManager

variable {C : Type} {m m' : Members C}

/-! ## Creating steps -/

/-- The step adds a timer. -/
def Act.addsTimer : Act C → Bool
  | .addTimer .. => true
  | _ => false

/-- The step registers an event. -/
def Act.addsEvent : Activity C → Act C → Bool
  | .call call _, .commit rt => call.toSection.isAddEvent && rt
  | _, _ => false

/-- The step puts a task into the queue. -/
def Act.addsTask : Activity C → Act C → Bool
  | _, .schedule fts => fts.any fun ft => ft.fiber.isSome || ft.cb.isSome
  | .owed (.schedule .this _ :: _), .effect => true
  | _, _ => false

/-- The step puts a task for a particular thread into the queue. -/
def Act.pinsTask : Act C → Bool
  | .schedule fts => fts.any (·.thread.isSome)
  | _ => false

/-- From `m` to `m'` timers, events, tasks and tasks for a particular thread are new only if
the flags say so. -/
structure Grows (timer event task pinned : Bool) (m m' : Members C) : Prop where
  timers : timer = false → m'.timers.timers.length ≤ m.timers.timers.length
  events : event = false → m'.pendingEventCount ≤ m.pendingEventCount
  tasks : task = false → m'.scheduler.queue = m.scheduler.queue
  pinned : pinned = false → ∀ ft ∈ m'.scheduler.queue, ft ∈ m.scheduler.queue ∨ ft.thread = none

/-- A step that does not touch the queue. -/
theorem Grows.of_queue {timer event task pinned : Bool}
    (ht : timer = false → m'.timers.timers.length ≤ m.timers.timers.length)
    (he : event = false → m'.pendingEventCount ≤ m.pendingEventCount)
    (hq : m'.scheduler.queue = m.scheduler.queue) : Grows timer event task pinned m m' :=
  ⟨ht, he, fun _ => hq, fun _ _ hft => Or.inl (hq ▸ hft)⟩

theorem schedule_grows {fts : List (FiberAndThread C)} :
    Grows false false (fts.any fun ft => ft.fiber.isSome || ft.cb.isSome)
      (fts.any (·.thread.isSome)) m { m with scheduler := m.scheduler.schedule fts } := by
  refine ⟨fun _ => le_rfl, fun _ => le_rfl, ?_, ?_⟩
  · intro hnone
    have hnil : fts.filter (fun ft => ft.fiber.isSome || ft.cb.isSome) = [] :=
      List.filter_eq_nil_iff.mpr fun ft hft => by simpa using List.any_eq_false.mp hnone ft hft
    simp [Scheduler.schedule, hnil]
  · intro hnone ft hft
    rcases List.mem_append.mp hft with hold | hnew
    · exact Or.inl hold
    · have hpin := List.any_eq_false.mp hnone ft (List.mem_filter.mp hnew).1
      exact Or.inr (by simpa using hpin)

/-- The task that `triggerEvent` schedules is for any thread. -/
theorem perform_queue (m : Members C) (e : Effect Target Nat C) :
    ∀ ft ∈ (m.perform e).scheduler.queue, ft ∈ m.scheduler.queue ∨ ft.thread = none := by
  intro ft hft
  cases e with
  | schedule target task =>
    cases target with
    | other => exact Or.inl hft
    | this =>
      rcases List.mem_append.mp hft with hold | hnew
      · exact Or.inl hold
      · obtain rfl := List.mem_singleton.mp (List.mem_filter.mp hnew).1
        cases task <;> exact Or.inr rfl
  | _ => exact Or.inl hft

/-! ## Code that uses the manager -/

/-- The kind of a call does not depend on who makes it. -/
theorem resolve_isAddEvent {me : Option (FdContext.Caller Target Nat)}
    {call call' : Call Target Nat C} (h : call.resolve me = some call') :
    call'.toSection.isAddEvent = call.toSection.isAddEvent := by
  cases call with
  | addEvent caller fd event cb =>
    unfold Call.resolve at h
    dsimp only at h
    split at h <;> cases h <;> rfl
  | _ =>
    cases h
    rfl

/-- Code that uses the manager adds to the work only what its label says. -/
theorem act_grows (hg : m.table.Good) {me : Option (FdContext.Caller Target Nat)}
    {activity activity' : Activity C} (hl : ∀ e ∈ activity.debts, e.delta ≤ 0) {a : Act C}
    (h : m.act me activity a = some (m', activity')) :
    Grows a.addsTimer (a.addsEvent activity) (a.addsTask activity) a.pinsTask m m' := by
  cases Members.acted h with
  | schedule => exact schedule_grows
  | addTimer => exact .of_queue nofun (fun _ => le_rfl) rfl
  | cancel found =>
    exact .of_queue (fun _ => TimerManager.length_cancel_le found) (fun _ => le_rfl) rfl
  | refresh timer now =>
    exact .of_queue (fun _ => TimerManager.length_refresh_le timer now m.timers)
      (fun _ => le_rfl) rfl
  | reset timer ms from_now now =>
    exact .of_queue (fun _ => TimerManager.length_reset_le timer ms from_now now m.timers)
      (fun _ => le_rfl) rfl
  | newFiber | enter | grow | short =>
    exact .of_queue (fun _ => le_rfl) (fun _ => le_rfl) rfl
  | commit resolved ran =>
    obtain ⟨-, htimers, hscheduler, hpending⟩ := runSection_spec hg ran
    refine .of_queue (fun _ => by rw [htimers]) (fun hev => hpending ?_) (by rw [hscheduler])
    rw [resolve_isAddEvent resolved]
    exact hev
  | effect e es =>
    have hdelta := hl e List.mem_cons_self
    refine ⟨fun _ => ?_, fun _ => ?_, ?_, fun _ => perform_queue m e⟩
    · rcases e with _ | _ | ⟨_ | _, _⟩ | _ | _ <;> exact le_rfl
    · rw [perform_pendingEventCount]
      omega
    · rcases e with _ | _ | ⟨_ | _, _⟩ | _ | _ <;> first | exact fun _ => rfl | exact nofun

/-! ## Workers -/

/-- The step of a worker adds a timer. -/
def Move.addsTimer : Move C → Bool
  | .act a => a.addsTimer
  | _ => false

/-- The step of a worker registers an event. -/
def Worker.addsEvent (w : Worker C) : Move C → Bool
  | .act a =>
    match w.pc with
    | .exec _ _ activity => a.addsEvent activity
    | _ => false
  | _ => false

/-- The step of a worker schedules a task for a particular thread. -/
def Move.pinsTask : Move C → Bool
  | .act a => a.pinsTask
  | _ => false

/-- A worker whose idle fiber has ended adds to the work only what the task it runs adds. -/
theorem move_grows (hg : m.table.Good) {w w' : Worker C} (hl : ∀ e ∈ w.debts, e.delta ≤ 0)
    (hphase : w.phase = 3) {thread : Nat} {mv : Move C}
    (h : w.move thread m mv = some (m', w')) :
    Grows mv.addsTimer (w.addsEvent mv) true mv.pinsTask m m' := by
  have hrest {p : Position C} : w.pc ≠ .idle p ∧ ∀ b, w.pc ≠ .ask b p := by
    refine ⟨fun hpc => ?_, fun b hpc => ?_⟩ <;>
      · simp only [Worker.phase, hpc] at hphase
        split at hphase <;> simp_all
  cases Worker.moved h with
  | advance step =>
    exact ⟨fun _ => le_rfl, fun _ => le_rfl, Bool.noConfusion,
      fun _ => (Scheduler.advance_framed step).2.queue⟩
  | act pc step =>
    simp only [Worker.debts, pc] at hl
    have hgrows := act_grows hg hl step
    exact ⟨hgrows.timers, by simpa only [Worker.addsEvent, pc] using hgrows.events,
      Bool.noConfusion, hgrows.pinned⟩
  | leave pc step =>
    exact ⟨fun _ => le_rfl, fun _ => le_rfl, Bool.noConfusion,
      fun _ => (Scheduler.leave_framed (by rw [pc]; rfl) step).queue⟩
  | probeIdle pc => exact absurd pc hrest.1
  | probeStop pc => exact absurd pc (hrest.2 _)
  | loop pc => exact absurd pc hrest.1

end Xupeng.IOManager
