import Xupeng.Models.IOManager.Interpretation.Attention
import Xupeng.Models.IOManager.Native.Poll
import Xupeng.Models.Timer.Interpretation.Clock

/-!
# Which workers look at the timers again

`stopping(next_timeout)` in `idle` reads the time to the next timer, and the worker
does not look at the timers again before `epoll_wait` has returned. A worker whose
idle fiber has returned never looks at them again, although it may still run tasks.

The history of a run has what was observed of the timers and, for each worker, its
`next_timeout` with the clock reading that it was computed from.
-/

namespace Xupeng.IOManager

variable {C : Type} {m m' : Members C} {w w' : Worker C} {thread : Nat}

/-! ## What a step does to the attention of its worker -/

/-- What the worker is going to do about the timers. -/
def Worker.timerAttention (w : Worker C) : Attention :=
  match w.pc with
  | .dormant | .stop _ | .ask .. | .done => .absent
  | .idle (.probe .pending) | .idle (.probe .queue) | .idle .wait => .asleep
  | .idle _ => .awake
  | _ => if w.idleFiber = .TERM then .absent else .awake

/-- The worker is in the loop of `run` itself. -/
def Worker.loops (w : Worker C) : Bool :=
  match w.pc with
  | .dormant | .stop _ | .ask .. | .idle _ | .done => false
  | _ => true

/-- A worker in the loop of `run` is going to look at the timers. -/
theorem Worker.timerAttention_of_loops (h : w.loops = true) :
    w.timerAttention = if w.idleFiber = .TERM then .absent else .awake := by
  unfold Worker.timerAttention
  unfold Worker.loops at h
  cases hpc : w.pc with
  | dormant | stop | ask | idle | done =>
    rw [hpc] at h
    cases h
  | _ => rfl

/-- A worker that does not look at the timers before it waits is counted as idle. -/
theorem Worker.idles_of_asleep (h : w.timerAttention = .asleep) : w.idles = true := by
  unfold Worker.timerAttention at h
  split at h
  · cases h
  · cases h
  · cases h
  · cases h
  · simp only [Worker.idles, *]
  · simp only [Worker.idles, *]
  · simp only [Worker.idles, *]
  · cases h
  · split at h <;> cases h

/-- The worker is awake after the step; or its attention is as it was; or it has read the timers;
or it has found that the manager is stopping. -/
inductive Watches (m : Members C) (w w' : Worker C) : Move C → Prop
  | awake {mv : Move C} (attention : w'.timerAttention = .awake) : Watches m w w' mv
  | same {mv : Move C} (attention : w'.timerAttention = w.timerAttention)
      (waits : w.pc ≠ .idle .wait) (reads : w.pc ≠ .idle (.probe .timer)) : Watches m w w' mv
  | reads {now : UInt64} (pc : w.pc = .idle (.probe .timer))
      (asleep : w'.timerAttention = .asleep)
      (none : w'.pc ≠ .idle .wait → (m.timers.getNextTimer now).2 = TimerManager.infinite) :
      Watches m w w' (.probe now)
  | leaves {now : UInt64} (pc : w.pc = .idle (.probe .queue))
      (absent : w'.timerAttention = .absent) : Watches m w w' (.probe now)

/-- A statement of the loop of `run` that leaves the idle fiber alone. -/
theorem Watches.of_loops {mv : Move C} (hold : w.loops = true) (hnew : w'.loops = true)
    (hidle : w'.idleFiber = w.idleFiber) : Watches m w w' mv := by
  have hpc (p : Position C) : w.pc ≠ .idle p := by
    intro hpc
    rw [Worker.loops, hpc] at hold
    cases hold
  refine .same ?_ (hpc _) (hpc _)
  rw [Worker.timerAttention_of_loops hold, Worker.timerAttention_of_loops hnew, hidle]

/-- A statement of `run` keeps the watch. -/
theorem advance_watches {s s' : Scheduler C} (h : w.advance thread s = some (s', w')) :
    Watches m w w' .advance := by
  cases Scheduler.advance_statement h with
  | aborts fails =>
    have hpc (p : Position C) : w.pc ≠ .idle p := by
      intro hpc
      cases fails <;> simp_all
    exact .same rfl (hpc _) (hpc _)
  | setStopping pc | exit pc state =>
    refine .same ?_ ?_ ?_ <;> simp_all [Worker.timerAttention, Scheduler.Worker.goto]
  | enterIdle => exact .awake rfl
  | leaveIdle pc =>
    refine .same ?_ (by simp [pc]) (by simp [pc])
    -- an idle fiber that has not returned is put in `HOLD`
    cases hidle : w.idleFiber <;>
      simp [Worker.timerAttention, pc, hidle, Fiber.State.ended]
  | requeue pc | hold pc =>
    exact .of_loops (by rw [Worker.loops, pc]) rfl (Scheduler.dropIf_idleFiber ..)
  | exhausted pc | dequeue pc | runFiber pc | resetFiber pc | makeFiber pc | discard pc | skip pc
  | swapIn pc | swapOut pc | swapped pc | ready pc | notReady pc | notEnded pc | recycle pc
  | ended pc => exact .of_loops (by rw [Worker.loops, pc]) rfl rfl

theorem probeIdle_watches {now : UInt64} {p : Probe} (hpc : w.pc = .idle (.probe p)) :
    Watches m w (w.probeIdle p (Worker.probe now m p).2) (.probe now) := by
  cases p with
  | timer =>
    have hb : (Worker.probe now m .timer).2 =
        decide ((m.timers.getNextTimer now).2 = TimerManager.infinite) := rfl
    by_cases hinf : (m.timers.getNextTimer now).2 = TimerManager.infinite
    · rw [hb, decide_eq_true hinf]
      exact .reads hpc rfl fun _ => hinf
    · rw [hb, decide_eq_false hinf]
      exact .reads hpc rfl fun hne => absurd rfl hne
  | pending =>
    refine .same ?_ (by simp [hpc]) (by simp [hpc])
    cases (Worker.probe now m .pending).2 <;>
      simp [Worker.probeIdle, Worker.next, Worker.timerAttention, hpc, Scheduler.Worker.goto]
  | queue =>
    cases (Worker.probe now m .queue).2 with
    | true => exact .leaves hpc rfl
    | false =>
      refine .same ?_ (by simp [hpc]) (by simp [hpc])
      simp [Worker.probeIdle, Worker.timerAttention, hpc, Scheduler.Worker.goto]

theorem probeStop_watches {now : UInt64} {first : Bool} {p : Probe}
    (hpc : w.pc = .ask first (.probe p)) (b : Bool) :
    Watches m w (w.probeStop first p b) (.probe now) := by
  have habsent : w.timerAttention = .absent := by simp only [Worker.timerAttention, hpc]
  have hsame {w' : Worker C} (h : w'.timerAttention = .absent) : Watches m w w' (.probe now) :=
    .same (h.trans habsent.symm) (by simp [hpc]) (by simp [hpc])
  have hanswer (b : Bool) : Watches m w (w.answer first b) (.probe now) := by
    rcases Scheduler.Worker.answer_eq first b w with heq | heq | heq
    · exact hsame (by rw [heq]; rfl)
    · exact hsame (by rw [heq]; rfl)
    · exact .awake (by rw [heq]; rfl)
  cases b with
  | false => exact hanswer false
  | true =>
    cases p with
    | timer | pending => exact hsame rfl
    | queue => exact hanswer true

/-- What a step of a worker does to its attention for the timers. -/
theorem move_watches {mv : Move C} (h : w.move thread m mv = some (m', w')) :
    Watches m w w' mv := by
  cases Worker.moved h with
  | advance step => exact advance_watches step
  | act pc => exact .of_loops (by rw [Worker.loops, pc]) rfl rfl
  | @leave _ _ _ r pc step =>
    obtain ⟨s, w'⟩ := r
    cases Scheduler.leave_leaves step with
    | aborts => exact .same rfl (by simp [pc]) (by simp [pc])
    | returns => exact .of_loops (by rw [Worker.loops, pc]) rfl rfl
  | probeIdle pc => exact probeIdle_watches pc
  | probeStop pc => exact probeStop_watches pc _
  | loop pc step =>
    apply Watches.awake
    cases Worker.looped step <;> rfl

/-! ## The operations on the timers -/

/-- The operation on the timers that code makes, with a callback that is not null. -/
def Act.timerOp : Act C → Option (TimerManager.Op C)
  | .addTimer addr now ms (some cb) recurring => some (.addTimer addr now ms cb recurring)
  | .cancel timer => some (.cancel timer)
  | .refresh timer now => some (.refresh timer now)
  | .reset timer ms from_now now => some (.reset timer ms from_now now)
  | _ => none

/-- The operation on the timers in a step of the worker. -/
def Worker.timerOp (w : Worker C) : Move C → Option (TimerManager.Op C)
  | .act a => a.timerOp
  | .probe now =>
    match w.pc with
    | .idle (.probe .timer) | .ask _ (.probe .timer) => some (.getNextTimer now)
    | _ => none
  | .expire addr now => some (.listExpiredCb addr now)
  | _ => none

/-- A callback is not null, and a new timer has an address that no timer of the set has. -/
def Act.Proper (timers : TimerManager C) : Act C → Prop
  | .addTimer addr _ _ cb _ => cb.isSome ∧ ∀ p ∈ timers.timers, (timers.deref p).addr ≠ addr
  | _ => True

instance (timers : TimerManager C) : (a : Act C) → Decidable (a.Proper timers)
  | .addTimer .. => inferInstanceAs (Decidable (_ ∧ _))
  | .schedule _ | .newFiber _ | .cancel _ | .refresh .. | .reset .. | .enter _ | .grow
  | .commit _ | .effect => isTrue trivial

/-- The timers before and after a step with this operation. -/
inductive TimerStep (timers : TimerManager C) :
    Option (TimerManager.Op C) → TimerManager C → Prop
  | none : TimerStep timers none timers
  | some {op : TimerManager.Op C} {t : TimerManager C} (step : timers.step op = some t) :
      TimerStep timers (some op) t

theorem perform_timers (m : Members C) (e : Effect Target Nat C) :
    (m.perform e).timers = m.timers := by
  cases e with
  | schedule target task => cases target <;> rfl
  | _ => rfl

theorem runSection_timers {p : Nat} {rt : Bool} {sec : Section Target Nat C}
    {r : Members C × List (Effect Target Nat C)} (h : m.runSection p rt sec = some r) :
    r.1.timers = m.timers := by
  obtain ⟨o, -, ho⟩ := Option.map_eq_some_iff.mp h
  split at ho <;> cases ho <;> rfl

/-- What code does to the timers, and that it calls `tickle` when it notifies. -/
theorem act_timers {me : Option (FdContext.Caller Target Nat)} {activity activity' : Activity C}
    {a : Act C} (h : m.act me activity a = some (m', activity')) (ha : a.Proper m.timers) :
    TimerStep m.timers a.timerOp m'.timers ∧
      ∀ op ∈ a.timerOp, m.timers.notifies op = true → m.tickles activity a = true := by
  -- a step that leaves the timers alone
  have hnone (hop : a.timerOp = none) (htimers : m'.timers = m.timers) :
      TimerStep m.timers a.timerOp m'.timers ∧
        ∀ op ∈ a.timerOp, m.timers.notifies op = true → m.tickles activity a = true := by
    rw [hop, htimers]
    exact ⟨.none, nofun⟩
  cases Members.acted h with
  | addTimer addr now ms cb recurring =>
    obtain ⟨hcb, haddr⟩ := ha
    cases cb with
    | none => cases hcb
    | some cb =>
      refine ⟨.some (if_pos haddr), fun op hop hnot => ?_⟩
      cases hop
      exact hnot
  | cancel found =>
    refine ⟨.some ?_, fun op hop hnot => ?_⟩
    · rw [TimerManager.step, found]
      rfl
    · cases hop
      cases hnot
  | refresh timer now =>
    refine ⟨.some rfl, fun op hop hnot => ?_⟩
    cases hop
    cases hnot
  | reset timer ms from_now now =>
    refine ⟨.some rfl, fun op hop hnot => ?_⟩
    cases hop
    exact hnot
  | commit resolved ran => exact hnone rfl (runSection_timers ran)
  | effect e es => exact hnone rfl (perform_timers m e)
  | _ => exact hnone rfl rfl

theorem probe_timers (now : UInt64) (m : Members C) (p : Probe) :
    (Worker.probe now m p).1.timers =
      if p = .timer then (m.timers.getNextTimer now).1 else m.timers := by
  cases p <;> rfl

/-- What a step of a worker does to the timers, and that it calls `tickle` when it notifies. -/
theorem move_timers {mv : Move C} (threads : Nat) (h : w.move thread m mv = some (m', w'))
    (ha : ∀ a, mv = .act a → a.Proper m.timers) :
    TimerStep m.timers (w.timerOp mv) m'.timers ∧
      ∀ op ∈ w.timerOp mv, m.timers.notifies op = true → 0 < w.tickles threads thread m mv := by
  -- a step that does not notify
  have hquiet (hstep : TimerStep m.timers (w.timerOp mv) m'.timers)
      (hnot : ∀ op ∈ w.timerOp mv, m.timers.notifies op = false) :
      TimerStep m.timers (w.timerOp mv) m'.timers ∧
        ∀ op ∈ w.timerOp mv, m.timers.notifies op = true →
          0 < w.tickles threads thread m mv := by
    refine ⟨hstep, fun op hop hyes => ?_⟩
    rw [hnot op hop] at hyes
    cases hyes
  have hprobe {now : UInt64} {p : Probe}
      (hop : w.timerOp mv = if p = .timer then some (.getNextTimer now) else none)
      (hm : m' = (Worker.probe now m p).1) :
      TimerStep m.timers (w.timerOp mv) m'.timers ∧
        ∀ op ∈ w.timerOp mv, m.timers.notifies op = true →
          0 < w.tickles threads thread m mv := by
    apply hquiet
    · rw [hm, probe_timers, hop]
      split
      · exact .some rfl
      · exact .none
    · rw [hop]
      split
      · rintro op ⟨⟩
        rfl
      · exact nofun
  cases Worker.moved h with
  | advance step => exact hquiet .none nofun
  | @act f own activity a r pc step =>
    obtain ⟨hstep, hnot⟩ := act_timers step (ha a rfl)
    refine ⟨hstep, fun op hop hyes => ?_⟩
    simp only [Worker.tickles, pc, hnot op hop hyes]
    exact Nat.one_pos
  | leave pc step => exact hquiet .none nofun
  | @probeIdle now p pc =>
    refine hprobe ?_ rfl
    simp only [Worker.timerOp, pc]
    cases p <;> rfl
  | @probeStop now first p pc =>
    refine hprobe ?_ rfl
    simp only [Worker.timerOp, pc]
    cases p <;> rfl
  | loop pc step =>
    cases Worker.looped step with
    | wait | push | swapOut => exact hquiet .none nofun
    | expire batch addr now =>
      refine hquiet (.some rfl) ?_
      rintro op ⟨⟩
      rfl
    | process ran =>
      apply hquiet
      · rw [runSection_timers ran]
        exact .none
      · exact nofun
    | effect e es batch =>
      apply hquiet
      · rw [perform_timers]
        exact .none
      · exact nofun

/-! ## The history -/

namespace Manager

/-- The step of code that uses the manager. -/
def Step.act : Step C → Option (Act C)
  | .worker _ (.act a) | .outside _ a => some a
  | _ => none

/-- The operation on the timers in a step. -/
def timerOp (s : Manager C) : Step C → Option (TimerManager.Op C)
  | .worker i mv => s.workers[i]?.bind fun w => w.timerOp mv
  | .outside _ a => a.timerOp
  | .stop | .setStopping => none

end Manager

/-- The value of `next_timeout` of a worker, and the clock reading that it was computed from. -/
structure Wait where
  now : UInt64
  next_timeout : UInt64
  deriving Inhabited

/-- What has been observed of the timers, and the last wait of each worker. -/
structure Readings where
  watch : TimerManager.Watch
  waits : Nat → Wait

namespace Tickling

/-- The operation on the timers in a step. -/
def timerOp (s : Tickling C) : Step C → Option (TimerManager.Op C)
  | .manager a => s.toManager.timerOp a
  | _ => none

/-- The worker that reads the timers in `idle`, and the clock reading. -/
def reads (s : Tickling C) : Step C → Option (Nat × UInt64)
  | .manager (.worker i (.probe now)) =>
    match s.workers[i]? with
    | some ⟨.idle (.probe .timer), _, _⟩ => some (i, now)
    | _ => none
  | _ => none

end Tickling

namespace Readings

/-- At the construction of the manager. -/
def start (now : UInt64) : Readings := ⟨.start now, fun _ => default⟩

/-- The observations after a step. -/
def record (s : Tickling C) (a : Tickling.Step C) (t : Tickling C) (h : Readings) : Readings where
  watch :=
    match s.timerOp a with
    | some op => TimerManager.Watch.record s.timers op t.timers h.watch
    | none => h.watch
  waits j :=
    match s.reads a with
    | some (i, now) => if j = i then ⟨now, (s.timers.getNextTimer now).2⟩ else h.waits j
    | none => h.waits j

section

variable {s t : Tickling C} {h : Readings} {w : Worker C} {i j : Nat} {mv : Move C}

/-- Without a reading of the clock no wait changes. -/
theorem waits_of_reads_none {a : Tickling.Step C} (hreads : s.reads a = none) :
    (record s a t h).waits = h.waits := by
  ext j : 1
  simp only [record, hreads]

/-- A worker that does not read the timers. -/
theorem reads_eq_none (hw : s.workers[i]? = some w) (hpc : w.pc ≠ .idle (.probe .timer)) :
    s.reads (.manager (.worker i mv)) = none := by
  unfold Tickling.reads
  split
  · rename_i heq
    cases heq
    split
    · rename_i heq
      rw [hw] at heq
      cases heq
      exact absurd rfl hpc
    · rfl
  · rfl

/-- The waits of the other workers are as they were. -/
theorem waits_of_ne (hj : j ≠ i) :
    (record s (.manager (.worker i mv)) t h).waits j = h.waits j := by
  dsimp only [record]
  split
  · rename_i k now heq
    unfold Tickling.reads at heq
    split at heq
    · rename_i hstep
      cases hstep
      split at heq
      · cases heq
        exact if_neg hj
      · cases heq
    · cases heq
  · rfl

theorem waits_self {now : UInt64} (hw : s.workers[i]? = some w)
    (hpc : w.pc = .idle (.probe .timer)) :
    (record s (.manager (.worker i (.probe now))) t h).waits i =
      ⟨now, (s.timers.getNextTimer now).2⟩ := by
  obtain ⟨pc, cbFiber, idleFiber⟩ := w
  cases hpc
  simp only [record, Tickling.reads, hw, if_true]

end

end Readings

/-! ## Runs in order -/

/-- A period is less than 25 days, `2 ^ 31` milliseconds. -/
def ShortPeriod : TimerManager.Op C → Prop
  | .addTimer _ _ ms _ _ | .reset _ ms _ _ => ms.toNat < 2 ^ 31
  | _ => True

instance : (op : TimerManager.Op C) → Decidable (ShortPeriod op)
  | .addTimer .. | .reset .. => inferInstanceAs (Decidable (_ < _))
  | .cancel _ | .refresh .. | .listExpiredCb .. | .getNextTimer _ => isTrue trivial

/-- The clock does not go back, no deadline passes the end of the 64-bit range, and new timers
have callbacks, addresses of their own and periods of less than 25 days. -/
def Regular (x : Tickling C × Readings) : Tickling.Step C → Prop
  | .manager a =>
    (∀ act ∈ a.act, act.Proper x.1.timers) ∧
      ∀ op ∈ x.1.toManager.timerOp a,
        TimerManager.Forward (x.1.timers, x.2.watch) op ∧
          TimerManager.NoWrap (x.1.timers, x.2.watch) op ∧ ShortPeriod op
  | _ => True

instance (x : Tickling C × Readings) : (a : Tickling.Step C) → Decidable (Regular x a)
  | .manager _ => inferInstanceAs (Decidable (_ ∧ _))
  | .check _ | .write _ | .wake .. | .drain _ => isTrue trivial

end Xupeng.IOManager
