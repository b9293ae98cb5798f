import Mathlib.Data.List.TakeWhile
import Xupeng.Models.IOManager.Interpretation.Inversion
import Xupeng.Models.IOManager.Interpretation.Requests
import Xupeng.Models.IOManager.Interpretation.Table
import Xupeng.Models.Scheduler.Interpretation.Running

/-!
# The counter of pending events while effects are still to come

A section changes its context first and decrements `m_pendingEventCount` later, so
the counter runs ahead of the table by the decrements that are still to come. No
increment is ever to come: `addEvent` is the only section that increments, and it
does so before anything else can be observed.
-/

namespace Xupeng.IOManager

variable {S F C : Type}

/-! ## The effects that come after the first call of `schedule` -/

/-- The effects of triggering never increment the counter. -/
theorem triggerIf_delta {c : FdContext S F C} (hg : c.Good) {cond : Bool} {event : Event}
    {r : FdContext S F C × List (Effect S F C)} (h : c.triggerIf cond event = .ok r) :
    ∀ e ∈ r.2, e.delta ≤ 0 := by
  rcases triggerIf_eq hg h with ⟨-, rfl⟩ | ⟨-, -, -, s, t, -, rfl⟩
  · simp
  · simp [Effect.delta]

/-- Triggering makes the counter smaller only. -/
theorem triggerTwice_delta {c : FdContext S F C} (hg : c.Good) {cond cond' : Bool}
    {event event' : Event} {r r' : FdContext S F C × List (Effect S F C)}
    (h : c.triggerIf cond event = .ok r) (h' : r.1.triggerIf cond' event' = .ok r') :
    ∀ e ∈ r.2 ++ r'.2, e.delta ≤ 0 := by
  intro e he
  rcases List.mem_append.mp he with he | he
  · exact triggerIf_delta hg h e he
  · exact triggerIf_delta (triggerIf_ok hg h).1.good h' e he

/-- The section registers an event, if `epoll_ctl` succeeds. -/
def Section.isAddEvent : Section S F C → Bool
  | .addEvent .. => true
  | _ => false

/-- Only a successful `addEvent` increments the counter. -/
theorem Section.exec_delta {c : FdContext S F C} (hg : c.Good) {rt : Bool} {sec : Section S F C}
    (hsec : (sec.isAddEvent && rt) = false) {r : Result S F C} (h : sec.exec rt c = .ok r) :
    ∀ e ∈ r.effects, e.delta ≤ 0 := by
  cases Section.ran h with
  | unchanged => simp
  | addCallback | addFiber => cases hsec
  | delEvent =>
    intro e he
    rcases List.mem_cons.mp he with rfl | he
    · simp [Effect.delta]
    · obtain ⟨_, -, rfl⟩ := Option.map_eq_some_iff.mp (Option.mem_toList.mp he)
      exact le_rfl
  | cancelEvent _ trigger => exact triggerIf_delta hg trigger
  | cancelAll _ read write | process _ read write => exact triggerTwice_delta hg read write

/-- No increment comes after a call of `schedule`. -/
theorem Section.exec_late {c : FdContext S F C} (hg : c.Good) {rt : Bool} {sec : Section S F C}
    {r : Result S F C} (h : sec.exec rt c = .ok r) :
    ∀ e ∈ r.effects.dropWhile (!·.isSchedule), e.delta ≤ 0 := by
  by_cases hsec : (sec.isAddEvent && rt) = false
  · exact fun e he => exec_delta hg hsec h e ((List.dropWhile_suffix _).subset he)
  · -- `addEvent` does not call `schedule`
    cases Section.ran h with
    | unchanged | addCallback | addFiber => simp [Effect.isSchedule]
    | delEvent | cancelEvent | cancelAll | process => exact absurd rfl hsec

/-! ## Debts -/

/-- The effects that code in the middle of an operation has still to perform. -/
def Activity.debts : Activity C → List (Effect Target Nat C)
  | .call .. => []
  | .owed es => es

/-- The effects that the idle fiber has still to perform. -/
def Position.debts : Position C → List (Effect Target Nat C)
  | .process es _ => es
  | _ => []

/-- The effects that a worker has still to perform. -/
def Worker.debts (w : Worker C) : List (Effect Target Nat C) :=
  match w.pc with
  | .exec _ _ a => a.debts
  | .idle i => i.debts
  | _ => []

/-- A step of a thread from `m` with debts `es` to `m'` with debts `es'`: the table stays in
order, counter and table move together, only decrements are to come, and nothing but `stop`
requests to stop. -/
structure Conserves (m : Members C) (es : List (Effect Target Nat C)) (m' : Members C)
    (es' : List (Effect Target Nat C)) : Prop where
  good : m'.table.Good
  count_eq : m'.pendingEventCount + total Effect.delta es' - m'.table.card =
    m.pendingEventCount + total Effect.delta es - m.table.card
  late : ∀ e ∈ es', e.delta ≤ 0
  autoStop : m'.scheduler.autoStop = m.scheduler.autoStop

variable {m m' : Members C} {es es' : List (Effect Target Nat C)}

/-- A step that leaves the table, the counter and the debts alone. -/
theorem Conserves.of_eq (hg : m.table.Good) (hl : ∀ e ∈ es, e.delta ≤ 0)
    (ht : m'.table = m.table) (hp : m'.pendingEventCount = m.pendingEventCount)
    (ha : m'.scheduler.autoStop = m.scheduler.autoStop) : Conserves m es m' es :=
  ⟨ht ▸ hg, by rw [ht, hp], hl, ha⟩

/-- A section conserves the balance, touches neither the timers nor the scheduler, and increments
the counter only when it registers an event. -/
theorem runSection_spec (hg : m.table.Good) {p : Nat} {rt : Bool} {sec : Section Target Nat C}
    (h : m.runSection p rt sec = some (m', es')) :
    Conserves m [] m' es' ∧ m'.timers = m.timers ∧ m'.scheduler = m.scheduler ∧
      ((sec.isAddEvent && rt) = false → m'.pendingEventCount ≤ m.pendingEventCount) := by
  obtain ⟨o, ho, hm⟩ := Option.map_eq_some_iff.mp h
  obtain ⟨c, -, hgood, ⟨r, table, hr, rfl, hmoves⟩ | ⟨a, -, rfl, -⟩⟩ := Table.exec_cases hg ho
  · obtain ⟨rfl, rfl⟩ := Prod.mk.inj hm
    refine ⟨⟨hmoves.good, ?_, Section.exec_late hgood hr, rfl⟩, rfl, rfl, fun hsec => ?_⟩
    · -- the effects are split at the first call of `schedule`
      have hsplit := congrArg (total Effect.delta)
        (List.takeWhile_append_dropWhile (p := (!·.isSchedule)) (l := r.effects))
      rw [total_append] at hsplit
      have hcard := hmoves.card_eq
      simp only [total_nil]
      omega
    · have hle : total Effect.delta (r.effects.takeWhile (!·.isSchedule)) ≤ 0 :=
        total_nonpos fun e he =>
          Section.exec_delta hgood hsec hr e ((List.takeWhile_prefix _).subset he)
      dsimp only
      omega
  · obtain ⟨rfl, rfl⟩ := Prod.mk.inj hm
    exact ⟨.of_eq hg (by simp) rfl rfl rfl, rfl, rfl, fun _ => Int.le_refl _⟩

@[simp] theorem perform_table (m : Members C) (e : Effect Target Nat C) :
    (m.perform e).table = m.table := by
  rcases e with _ | _ | ⟨_ | _, _⟩ | _ | _ <;> rfl

@[simp] theorem perform_pendingEventCount (m : Members C) (e : Effect Target Nat C) :
    (m.perform e).pendingEventCount = m.pendingEventCount + e.delta := by
  rcases e with _ | _ | ⟨_ | _, _⟩ | _ | _ <;>
    simp [Members.perform, Effect.delta, Int.sub_eq_add_neg]

/-- An effect does not stop the scheduler. -/
theorem perform_autoStop (m : Members C) (e : Effect Target Nat C) :
    (m.perform e).scheduler.autoStop = m.scheduler.autoStop := by
  rcases e with _ | _ | ⟨_ | _, _⟩ | _ | _ <;> rfl

theorem perform_conserves (hg : m.table.Good) {e : Effect Target Nat C}
    (hl : ∀ d ∈ e :: es, d.delta ≤ 0) : Conserves m (e :: es) (m.perform e) es := by
  refine ⟨by rwa [perform_table], ?_, fun d hd => hl d (List.mem_cons_of_mem e hd),
    perform_autoStop m e⟩
  rw [perform_table, perform_pendingEventCount, total_cons]
  omega

/-- Every step of code that uses the manager conserves the balance. -/
theorem act_conserves (hg : m.table.Good) {me : Option (FdContext.Caller Target Nat)}
    {activity activity' : Activity C} (hl : ∀ e ∈ activity.debts, e.delta ≤ 0) {a : Act C}
    (h : m.act me activity a = some (m', activity')) :
    Conserves m activity.debts m' activity'.debts := by
  have hgrown (call : Call Target Nat C) : m.table.Moves (m.table.grow call) [] :=
    Table.contextResize_moves hg _
  have hcard (call : Call Target Nat C) :
      ((m.table.grow call).card : Int) = m.table.card := by
    simpa using (hgrown call).card_eq
  cases Members.acted h with
  | schedule | newFiber | addTimer | cancel | refresh | reset => exact .of_eq hg hl rfl rfl rfl
  | enter call =>
    -- the lookup leaves a call in progress or returns
    cases m.table.lookup call <;> exact .of_eq hg (by simp [Activity.debts]) rfl rfl rfl
  | grow | short =>
    exact ⟨(hgrown _).good, by simp only [hcard, Activity.debts], by simp [Activity.debts], rfl⟩
  | commit _ ran => exact (runSection_spec hg ran).1
  | effect => exact perform_conserves hg hl

/-! ## The steps of a worker -/

/-- A worker that has just come out of the loop owes nothing. -/
theorem debts_of_fresh {w : Worker C} (h : w.pc.Fresh) : w.debts = [] := by
  unfold Worker.debts
  split
  · rename_i hpc
    rw [hpc] at h
    rw [show _ = default from h]
    rfl
  · rename_i hpc
    rw [hpc] at h
    rw [show _ = default from h]
    rfl
  · rfl

theorem loop_conserves (hg : m.table.Good) {w w' : Worker C} {i : Position C}
    (hl : ∀ e ∈ i.debts, e.delta ≤ 0) {mv : Move C} (h : w.loop m i mv = some (m', w')) :
    Conserves m i.debts m' w'.debts := by
  cases Worker.looped h with
  | wait | expire | push | swapOut => exact .of_eq hg hl rfl rfl rfl
  | process ran => exact (runSection_spec hg ran).1
  | effect => exact perform_conserves hg hl

/-- A read of `stopping()` touches at most `m_tickled`. -/
theorem probe_conserves (hg : m.table.Good) (now : UInt64) (p : Probe) :
    Conserves m [] (Worker.probe now m p).1 [] := by
  cases p <;> exact .of_eq hg (by simp) rfl rfl rfl

theorem probeIdle_debts (w : Worker C) (p : Probe) (b : Bool) : (w.probeIdle p b).debts = [] := by
  cases b <;> cases p <;> rfl

theorem probeStop_debts (w : Worker C) (first : Bool) (p : Probe) (b : Bool) :
    (w.probeStop first p b).debts = [] := by
  cases b <;> cases p <;> cases first <;> rfl

/-- Every step of a worker conserves the balance. -/
theorem move_conserves (hg : m.table.Good) {w w' : Worker C} (hl : ∀ e ∈ w.debts, e.delta ≤ 0)
    {thread : Nat} {mv : Move C} (h : w.move thread m mv = some (m', w')) :
    Conserves m w.debts m' w'.debts := by
  cases Worker.moved h with
  | advance step =>
    obtain ⟨hfresh, hframed⟩ := Scheduler.advance_framed step
    rw [debts_of_fresh hfresh, debts_of_fresh hframed.fresh]
    exact .of_eq hg (by simp) rfl rfl hframed.autoStop
  | act pc step =>
    simp only [Worker.debts, pc] at hl ⊢
    exact act_conserves hg hl step
  | leave pc step =>
    have hfresh : w.pc.Fresh := by rw [pc]; rfl
    have hframed := Scheduler.leave_framed hfresh step
    rw [debts_of_fresh hfresh, debts_of_fresh hframed.fresh]
    exact .of_eq hg (by simp) rfl rfl hframed.autoStop
  | probeIdle pc =>
    rw [probeIdle_debts, Worker.debts, pc]
    exact probe_conserves hg _ _
  | probeStop pc =>
    rw [probeStop_debts, Worker.debts, pc]
    exact probe_conserves hg _ _
  | loop pc step =>
    simp only [Worker.debts, pc] at hl ⊢
    exact loop_conserves hg hl step

end Xupeng.IOManager
