import Xupeng.Models.IOManager.Interpretation.Phases
import Xupeng.Models.IOManager.Native.Tickle

/-!
# Which workers look at the queue again

A worker that is awake searches the queue before it waits in `epoll_wait`. A worker
that has found nothing in the queue goes to sleep, and looks at it again only when
`epoll_wait` has returned. A worker that has not entered `run`, or is leaving it, does
neither.
-/

namespace Xupeng

namespace Scheduler

variable {C : Type} {s : Scheduler C} {thread i : Nat} {fts : List (FiberAndThread C)}

/-- Entries that are put into an empty queue make `schedule` call `tickle`. -/
theorem needTickle_of_ne_nil (hnil : s.queue = []) (hq : (s.schedule fts).queue ≠ []) :
    needTickle fts s = true := by
  cases fts with
  | nil => exact absurd (by simpa [schedule] using hnil) hq
  | cons ft fts => simp [needTickle, hnil]

/-- A search that finds nothing, and passes over no entry for another thread, has met only
fibers that are executing. -/
theorem exec_of_search (h : s.search thread i fts = .nothing)
    (hme : s.tickleMe thread fts = false) {ft : FiberAndThread C} (hft : ft ∈ fts) :
    ∃ f, ft.fiber = some f ∧ (s.fiber f).state = .EXEC := by
  induction fts generalizing i with
  | nil => cases hft
  | cons it rest ih =>
    rw [search] at h
    rw [tickleMe] at hme
    split at h
    · rename_i hforeign
      rw [if_pos hforeign] at hme
      cases hme
    · rename_i hthread
      rw [if_neg hthread] at hme
      split at h
      · cases h
      · rename_i hnull
        rw [if_neg hnull] at hme
        split at h
        · rename_i hexec
          rw [if_pos hexec] at hme
          rcases List.mem_cons.mp hft with rfl | hrest
          · obtain ⟨f, hf, hstate⟩ := (Option.any_eq_true _ _).mp hexec
            exact ⟨f, hf, by simpa using hstate⟩
          · exact ih h hme hrest
        · cases h

end Scheduler

namespace IOManager

variable {C : Type} {m m' : Members C} {w w' : Worker C} {thread : Nat}

/-- What a worker is going to do about the queue, or about the timers. -/
inductive Attention
  /-- It is not in the loop of `run`, or leaves it. -/
  | absent
  /-- It waits before it looks again. -/
  | asleep
  /-- It looks again before it waits. -/
  | awake
  deriving DecidableEq, Repr

/-- What the worker is going to do about the queue. -/
def Worker.attention (w : Worker C) : Attention :=
  match w.pc with
  | .dormant | .stop _ | .ask .. | .done => .absent
  | .noTask => if w.idleFiber = .TERM then .absent else .asleep
  | .idle (.probe _) | .idle .wait => .asleep
  | _ => .awake

/-- A worker that runs a fiber is awake. -/
theorem Worker.attention_of_runs {f : Nat} (h : w.pc.Runs f) : w.attention = .awake := by
  unfold Worker.attention
  cases hpc : w.pc with
  | dormant | stop | ask | done | noTask | idle =>
    rw [hpc] at h
    cases h
  | _ => rfl

/-! ## What a step does to the attention of its worker -/

/-- The worker is awake after the step; or the queue and its attention are as they were; or it has
searched the queue and found nothing. -/
inductive Turns (thread : Nat) (m m' : Members C) (w w' : Worker C) (mv : Move C) : Prop
  | awake (attention : w'.attention = .awake)
  | same (queue : m'.scheduler.queue = m.scheduler.queue) (attention : w'.attention = w.attention)
  | exhausted (mv : mv = .advance) (pc : w.pc = .search) (scheduler : m'.scheduler = m.scheduler)
      (found : m.scheduler.search thread 0 m.scheduler.queue = .nothing)

/-- A statement of `run` turns the attention as it should. -/
theorem advance_turns {s : Scheduler C} (h : w.advance thread m.scheduler = some (s, w')) :
    Turns thread m { m with scheduler := s } w w' .advance := by
  cases Scheduler.advance_statement h with
  | aborts => exact .same rfl rfl
  | setStopping pc =>
    refine .same rfl ?_
    simp only [Worker.attention, pc, Scheduler.Worker.goto]
  | exhausted pc found => exact .exhausted rfl pc rfl found
  | exit pc state =>
    refine .same rfl ?_
    simp only [Worker.attention, pc, Scheduler.Worker.goto, state, if_pos]
  | enterIdle pc term exec =>
    refine .same rfl ?_
    simp only [Worker.attention, pc, term, if_false]
    rfl
  | _ => exact .awake rfl

/-- A read of `stopping()` in `idle` wakes the worker up if it was the last one. -/
theorem probeIdle_turns {now : UInt64} {p : Probe} (hpc : w.pc = .idle (.probe p)) :
    Turns thread m (Worker.probe now m p).1 w (w.probeIdle p (Worker.probe now m p).2)
      (.probe now) := by
  have hasleep : w.attention = .asleep := by simp only [Worker.attention, hpc]
  have hqueue := (probe_sameWork (m := m) now p).queue
  cases hb : (Worker.probe now m p).2 with
  | false => exact .same hqueue hasleep.symm
  | true =>
    cases p with
    | timer => exact .same hqueue hasleep.symm
    | pending => exact .same hqueue hasleep.symm
    | queue => exact .awake rfl

/-- A read of `stopping()` in `stop` leaves the worker outside of the loop, or lets it in. -/
theorem probeStop_turns {now : UInt64} {first : Bool} {p : Probe}
    (hpc : w.pc = .ask first (.probe p)) :
    Turns thread m (Worker.probe now m p).1 w (w.probeStop first p (Worker.probe now m p).2)
      (.probe now) := by
  have habsent : w.attention = .absent := by simp only [Worker.attention, hpc]
  have hqueue := (probe_sameWork (m := m) now p).queue
  have hanswer (b : Bool) :
      Turns thread m (Worker.probe now m p).1 w (w.answer first b) (.probe now) := by
    rcases Scheduler.Worker.answer_eq first b w with heq | heq | heq
    · exact .same hqueue (by rw [heq, habsent]; rfl)
    · exact .same hqueue (by rw [heq, habsent]; rfl)
    · exact .awake (by rw [heq]; rfl)
  cases hb : (Worker.probe now m p).2 with
  | false => exact hanswer false
  | true =>
    cases p with
    | timer => exact .same hqueue habsent.symm
    | pending => exact .same hqueue habsent.symm
    | queue => exact hanswer true

/-- What a step of a worker does to its attention. -/
theorem move_turns {mv : Move C} (h : w.move thread m mv = some (m', w')) :
    Turns thread m m' w w' mv := by
  cases Worker.moved h with
  | advance step => exact advance_turns step
  | act pc => exact .awake rfl
  | @leave _ _ _ r pc step =>
    obtain ⟨s, w'⟩ := r
    cases Scheduler.leave_leaves step with
    | aborts => exact .same rfl rfl
    | returns => exact .awake rfl
  | probeIdle pc => exact probeIdle_turns pc
  | probeStop pc => exact probeStop_turns pc
  | loop pc step =>
    apply Turns.awake
    cases Worker.looped step <;> rfl

/-! ## The workers that count as idle -/

/-- The worker is between `++m_idleThreadCount` and `--m_idleThreadCount`. -/
def Worker.idles (w : Worker C) : Bool :=
  match w.pc with
  | .idle _ | .idleSwapped => true
  | _ => false

/-- The worker has found nothing to do and has not been counted as idle yet. -/
def Worker.uncounted (w : Worker C) : Bool :=
  match w.pc with
  | .noTask => w.idleFiber ≠ .TERM
  | _ => false

/-- A worker that is asleep is counted as idle, or about to be. -/
theorem Worker.asleep_iff (hidles : w.idles = false) :
    w.attention = .asleep ↔ w.uncounted = true := by
  unfold Worker.attention Worker.uncounted
  unfold Worker.idles at hidles
  cases hpc : w.pc with
  | noTask => by_cases hterm : w.idleFiber = .TERM <;> simp [hterm]
  | idle p =>
    rw [hpc] at hidles
    cases hidles
  | _ => simp

/-- What a step of the worker adds to the counter. -/
def Worker.counterChange (w : Worker C) : Move C → Int
  | .advance => w.idleChange
  | _ => 0

/-- The counter of idle threads follows the workers. -/
theorem advance_idles {s s' : Scheduler C} (h : w.advance thread s = some (s', w')) :
    (w'.idles.toNat : Int) = w.idles.toNat + w.idleChange := by
  unfold Worker.idles Worker.idleChange
  cases Scheduler.advance_statement h with
  | aborts fails =>
    cases fails with
    | idle pc state => simp [pc, state]
    | entry pc | reset pc | swapIn pc => simp [pc]
  | enterIdle pc term exec => simp [pc, term, exec]
  | exit pc state => simp [pc, state, Scheduler.Worker.goto]
  | _ => simp_all [Scheduler.Worker.goto]

/-- The counter follows the workers that are between its two updates. -/
theorem move_idles {mv : Move C} (h : w.move thread m mv = some (m', w')) :
    (w'.idles.toNat : Int) = w.idles.toNat + w.counterChange mv := by
  have hstay (heq : w'.idles = w.idles) (hmv : w.counterChange mv = 0) :
      (w'.idles.toNat : Int) = w.idles.toNat + w.counterChange mv := by
    rw [heq, hmv, Int.add_zero]
  cases Worker.moved h with
  | advance step => exact advance_idles step
  | act pc => exact hstay (by simp [Worker.idles, Scheduler.Worker.goto, pc]) rfl
  | @leave _ _ _ r pc step =>
    refine hstay ?_ rfl
    obtain ⟨s, w'⟩ := r
    cases Scheduler.leave_leaves step with
    | aborts => rfl
    | returns => simp [Worker.idles, Scheduler.Worker.goto, pc]
  | @probeIdle now p pc =>
    have hold : w.idles = true := by simp only [Worker.idles, pc]
    refine hstay ?_ rfl
    rw [hold]
    unfold Worker.probeIdle
    split
    · cases p <;> rfl
    · rfl
  | @probeStop now first p pc =>
    refine hstay ?_ rfl
    have hanswer (b : Bool) : Worker.idles (w.answer first b) = false := by
      rcases Scheduler.Worker.answer_eq first b w with heq | heq | heq <;> rw [heq] <;> rfl
    have hold : w.idles = false := by simp only [Worker.idles, pc]
    rw [hold]
    unfold Worker.probeStop
    split
    · cases p
      · rfl
      · rfl
      · exact hanswer true
    · exact hanswer false
  | loop pc step =>
    have hold : w.idles = true := by simp only [Worker.idles, pc]
    refine hstay ?_ ?_
    · rw [hold]
      cases Worker.looped step <;> rfl
    · cases Worker.looped step <;> rfl

/-! ## Code that uses the manager -/

/-- Code that puts entries into an empty queue calls `tickle`. -/
theorem act_tickles {me : Option (FdContext.Caller Target Nat)} {activity activity' : Activity C}
    {a : Act C} (h : m.act me activity a = some (m', activity')) (hnil : m.scheduler.queue = [])
    (hq : m'.scheduler.queue ≠ []) : m.tickles activity a = true := by
  have hsame (hs : m'.scheduler.queue = m.scheduler.queue) : m.tickles activity a = true :=
    absurd (hs.trans hnil) hq
  cases Members.acted h with
  | schedule fts => exact Scheduler.needTickle_of_ne_nil hnil hq
  | @commit _ _ _ _ r _ ran =>
    obtain ⟨o, -, hm⟩ := Option.map_eq_some_iff.mp ran
    apply hsame
    split at hm <;> cases hm <;> rfl
  | effect e es =>
    cases e with
    | schedule target task =>
      cases target with
      | this => exact Scheduler.needTickle_of_ne_nil hnil hq
      | other => exact hsame rfl
    | _ => exact hsame rfl
  | _ => exact hsame rfl

end IOManager

end Xupeng
