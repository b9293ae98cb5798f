import Xupeng.Models.IOManager.Correctness.Shutdown
import Xupeng.Models.IOManager.Interpretation.Attention

/-!
# No task waits for a worker that sleeps

A worker counts as idle only some time after it has found the queue empty. A task that
is scheduled in between is not announced, because `tickle` finds no idle threads, and
the worker goes to sleep with the task in the queue. This is the only way in which a
wakeup is lost: whatever else happens, while there is something in the queue and a
worker sleeps, a wakeup is on its way or some worker is awake.
-/

namespace Xupeng.IOManager.Tickling

variable {C : Type} {s t : Tickling C} {attention : Worker C → Attention}

/-! ## What a step can be -/

/-- The steps of the whole, read backwards. -/
inductive Stepped (s : Tickling C) : Step C → Tickling C → Prop
  | manager {a : Manager.Step C} {m : Manager C} (step : s.toManager.step a = some m) :
      Stepped s (.manager a)
        { s with
          toManager := m
          idleThreadCount := s.idleThreadCount + s.toManager.idleChange a
          pending := s.pending ++ List.replicate (s.toManager.tickles a) a.thread }
  /-- `tickle` finds idle threads. -/
  | claim {thread : Thread} (idle : 0 < s.idleThreadCount) :
      Stepped s (.check thread)
        { s with
          pending := s.pending.erase thread
          writing := thread :: s.writing }
  /-- `tickle` finds no idle threads. -/
  | drop {thread : Thread} (none : ¬ 0 < s.idleThreadCount) :
      Stepped s (.check thread) { s with pending := s.pending.erase thread }
  | write {thread : Thread} :
      Stepped s (.write thread)
        { s with
          writing := s.writing.erase thread
          bytes := s.bytes + 1
          ready := true }
  | wake {i : Nat} {events : List (Nat × EpollEvents)} {m : Manager C}
      (step : s.toManager.step (.worker i (.wait events)) = some m) :
      Stepped s (.wake i events)
        { s with
          toManager := m
          ready := false
          reported := i :: s.reported }
  | drain {i : Nat} (batch : s.inBatch i = true) :
      Stepped s (.drain i)
        { s with
          bytes := 0
          reported := s.reported.erase i }

theorem step_stepped {a : Step C} (h : s.step a = some t) : s.Stepped a t := by
  cases a with
  | manager a =>
    simp only [step] at h
    split at h
    · cases h
    · obtain ⟨m, hm, rfl⟩ := Option.map_eq_some_iff.mp h
      exact .manager hm
  | check thread =>
    simp only [step] at h
    split at h
    · cases h
    split at h
    · split at h
      · cases h
        exact .claim (by assumption)
      · cases h
        exact .drop (by assumption)
    · cases h
  | write thread =>
    simp only [step] at h
    split at h
    · cases h
    split at h
    · cases h
      exact .write
    · cases h
  | wake i events =>
    simp only [step] at h
    split at h
    · cases h
    · obtain ⟨m, hm, rfl⟩ := Option.map_eq_some_iff.mp h
      exact .wake hm
  | drain i =>
    simp only [step] at h
    split at h
    · cases h
    split at h
    · rename_i hbatch
      cases h
      exact .drain hbatch.2
    · cases h

/-! ## The counter of idle threads -/

/-- The number of workers between the two updates of `m_idleThreadCount`. -/
def idlers (ws : List (Worker C)) : Nat := ws.countP Worker.idles

/-- The manager is in order, and the counter tells how many workers are idle. -/
structure Counted (s : Tickling C) : Prop where
  sound : s.toManager.Sound
  count : s.idleThreadCount = idlers s.workers

/-- Every step of the manager keeps the counter right. -/
theorem manager_counted {a : Manager.Step C} {m : Manager C} (h : s.toManager.step a = some m) :
    (idlers m.workers : Int) = idlers s.workers + s.toManager.idleChange a := by
  obtain ⟨i, mv, w, m, w', rfl, hw, hm, rfl⟩ | ⟨i, b, x, m, x', rfl, -, -, rfl⟩ | ⟨rfl, -, rfl⟩ |
    ⟨rfl, -, rfl⟩ := Manager.step_cases h
  · have hset := total_set (f := fun w => (Worker.idles w).toNat) hw w'
    have hmove := move_idles hm
    have hchange : s.toManager.idleChange (.worker i mv) = w.counterChange mv := by
      cases mv <;> simp only [Manager.idleChange, hw, Worker.counterChange]
    simp only [total_toNat] at hset
    rw [hchange]
    dsimp only [idlers]
    omega
  · exact (Int.add_zero _).symm
  · have hcall (w : Worker C) :
        Worker.idles (w.callStop (s.workers.length = 1)) = Worker.idles w := by
      unfold Worker.callStop
      split
      · rename_i hpc
        simp only [Worker.idles, hpc, Scheduler.Worker.goto]
      · rfl
    simp only [idlers, List.countP_map, Function.comp_def, hcall]
    exact (Int.add_zero _).symm
  · exact (Int.add_zero _).symm

/-- Every step keeps the idle threads counted. -/
theorem step_counted {a : Step C} (hs : s.Counted) (h : s.step a = some t) : t.Counted := by
  cases step_stepped h with
  | manager step =>
    refine ⟨Manager.step_sound hs.sound step, ?_⟩
    rw [hs.count, manager_counted step]
  | wake step =>
    refine ⟨Manager.step_sound hs.sound step, ?_⟩
    have hcount := manager_counted step
    simp only [Manager.idleChange, Int.add_zero] at hcount
    rw [hs.count, hcount]
  | claim | drop | write | drain => exact ⟨hs.sound, hs.count⟩

/-- When the counter is zero, the workers that are asleep have not been counted yet. -/
theorem Counted.asleep_iff (hs : s.Counted) (hzero : ¬ 0 < s.idleThreadCount) {w : Worker C}
    (hw : w ∈ s.workers) : w.attention = .asleep ↔ w.uncounted = true := by
  have hnone : idlers s.workers = 0 := by
    have hcount := hs.count
    omega
  apply Worker.asleep_iff
  simpa using List.countP_eq_zero.mp hnone w hw

/-! ## Tasks in the queue are attended to -/

/-- A wakeup is on its way, or some worker is awake. -/
def Alert (attention : Worker C → Attention) (s : Tickling C) : Prop :=
  s.pending ≠ [] ∨ s.writing ≠ [] ∨ s.signalled = true ∨ ∃ w ∈ s.workers, attention w = .awake

/-- While there is something in the queue and a worker is asleep, a wakeup is on its way or some
worker is awake. -/
def Attended (s : Tickling C) : Prop :=
  s.scheduler.queue ≠ [] → (∃ w ∈ s.workers, w.attention = .asleep) → s.Alert Worker.attention

/-- The step is a call of `tickle` that finds no idle threads, although there is something in the
queue and a worker that has found nothing there is about to be counted; and no other wakeup is on
its way and no worker is awake. -/
def Missed (s : Tickling C) : Step C → Prop
  | .check thread =>
    ¬ 0 < s.idleThreadCount ∧ s.scheduler.queue ≠ [] ∧ (∃ w ∈ s.workers, w.uncounted = true) ∧
      ¬ { s with pending := s.pending.erase thread }.Alert Worker.attention
  | _ => False

instance (attention : Worker C → Attention) (s : Tickling C) : Decidable (s.Alert attention) :=
  inferInstanceAs (Decidable (_ ∨ _ ∨ _ ∨ _))

instance (s : Tickling C) : (a : Step C) → Decidable (s.Missed a)
  | .check _ => inferInstanceAs (Decidable (_ ∧ _ ∧ _ ∧ _))
  | .manager _ | .write _ | .wake .. | .drain _ => isFalse id

/-- More calls of `tickle` and the same workers do no harm. -/
theorem Alert.of_same {calls : List Thread} (h : s.Alert attention)
    (hpending : t.pending = s.pending ++ calls) (hwriting : t.writing = s.writing)
    (hsignal : t.signalled = s.signalled)
    (hworkers : (∃ w ∈ s.workers, attention w = .awake) →
      ∃ w ∈ t.workers, attention w = .awake) : t.Alert attention := by
  unfold Alert at h ⊢
  rw [hpending, hwriting, hsignal]
  rcases h with hp | hw | hsig | hawake
  · exact Or.inl (List.append_ne_nil_of_left_ne_nil hp _)
  · exact Or.inr (Or.inl hw)
  · exact Or.inr (Or.inr (Or.inl hsig))
  · exact Or.inr (Or.inr (Or.inr (hworkers hawake)))

/-- A worker whose attention does not change can be replaced. -/
theorem exists_attention_set {ws : List (Worker C)} {i : Nat} {w w' : Worker C}
    (hw : ws[i]? = some w) (heq : attention w' = attention w) {x : Attention} :
    (∃ v ∈ ws.set i w', attention v = x) ↔ ∃ v ∈ ws, attention v = x := by
  constructor
  · rintro ⟨v, hv, hx⟩
    rcases List.mem_or_eq_of_mem_set hv with hmem | rfl
    · exact ⟨v, hmem, hx⟩
    · exact ⟨w, List.mem_of_getElem? hw, heq ▸ hx⟩
  · rintro ⟨v, hv, hx⟩
    by_cases hvw : v = w
    · exact ⟨w', mem_set_self w' hw, by rw [heq, ← hvw, hx]⟩
    · exact ⟨v, mem_set_of_ne w' hv hw hvw, hx⟩

/-- The call of `stop` changes the attention of no worker. -/
theorem callStop_attention (alone : Bool) (w : Worker C) :
    Worker.attention (w.callStop alone) = w.attention := by
  unfold Worker.callStop
  split
  · rename_i hpc
    simp only [Worker.attention, hpc, Scheduler.Worker.goto]
  · rfl

/-- A worker that has found nothing in a queue with something in it has passed over an entry for
another thread, or some other worker runs a fiber. -/
theorem tickles_or_awake (hs : s.Counted) {i : Nat} {w : Worker C} (w' : Worker C)
    (hw : s.workers[i]? = some w) (hpc : w.pc = .search)
    (hfound : s.scheduler.search i 0 s.scheduler.queue = .nothing)
    (hq : s.scheduler.queue ≠ []) :
    0 < w.tickles s.workers.length i s.toMembers .advance ∨
      ∃ v ∈ s.workers.set i w', v.attention = .awake := by
  cases hme : s.scheduler.tickleMe i s.scheduler.queue with
  | true =>
    left
    simp only [Worker.tickles, hpc, hme]
    exact Nat.one_pos
  | false =>
    right
    obtain ⟨ft, hft⟩ := List.exists_mem_of_ne_nil _ hq
    obtain ⟨f, -, hexec⟩ := Scheduler.exec_of_search hfound hme hft
    obtain ⟨v, hv, hruns⟩ := hs.sound.answered f hexec
    have hne : v ≠ w := by
      rintro rfl
      rw [hpc] at hruns
      cases hruns
    exact ⟨v, mem_set_of_ne w' hv hw hne, Worker.attention_of_runs hruns⟩

/-- Every step of the manager keeps the queue attended to. -/
theorem manager_attended (hs : s.Counted) (ha : s.Attended) {a : Manager.Step C} {m : Manager C}
    (h : s.toManager.step a = some m) (ht : t.toManager = m)
    (hpending : t.pending = s.pending ++ List.replicate (s.toManager.tickles a) a.thread)
    (hwriting : t.writing = s.writing) (hsignal : t.signalled = s.signalled) : t.Attended := by
  intro hq hasleep
  have hcalls (hn : 0 < s.toManager.tickles a) : t.Alert Worker.attention := by
    left
    rw [hpending]
    apply List.append_ne_nil_of_right_ne_nil
    simp only [ne_eq, List.replicate_eq_nil_iff]
    exact Nat.ne_of_gt hn
  obtain ⟨i, mv, w, m, w', rfl, hw, hm, rfl⟩ | ⟨i, b, x, m, x', rfl, hx, hm, rfl⟩ | ⟨rfl, -, rfl⟩ |
    ⟨rfl, -, rfl⟩ := Manager.step_cases h
  · have hworkers : t.workers = s.workers.set i w' := by rw [ht]
    have hmembers : t.toMembers = m := by rw [ht]
    cases move_turns hm with
    | awake attention =>
      refine Or.inr (Or.inr (Or.inr ⟨w', ?_, attention⟩))
      rw [hworkers]
      exact mem_set_self w' hw
    | same queue attention =>
      rw [hmembers, queue] at hq
      rw [hworkers, exists_attention_set hw attention] at hasleep
      refine (ha hq hasleep).of_same hpending hwriting hsignal ?_
      rw [hworkers, exists_attention_set hw attention]
      exact id
    | exhausted hmv pc scheduler found =>
      subst hmv
      rw [hmembers, scheduler] at hq
      rcases tickles_or_awake hs w' hw pc found hq with htickles | hawake
      · apply hcalls
        simpa only [Manager.tickles, hw] using htickles
      · rw [← hworkers] at hawake
        exact Or.inr (Or.inr (Or.inr hawake))
  · have hworkers : t.workers = s.workers := by rw [ht]
    have hmembers : t.toMembers = m := by rw [ht]
    by_cases hnil : s.scheduler.queue = []
    · apply hcalls
      rw [hmembers] at hq
      simp only [Manager.tickles, hx, act_tickles hm hnil hq, Bool.toNat_true]
      exact Nat.one_pos
    · rw [hworkers] at hasleep
      refine (ha hnil hasleep).of_same hpending hwriting hsignal ?_
      rw [hworkers]
      exact id
  · have hworkers : t.workers = s.workers.map (Worker.callStop (s.workers.length = 1)) := by
      rw [ht]
    have hmap {x : Attention} :
        (∃ w ∈ t.workers, w.attention = x) ↔ ∃ w ∈ s.workers, w.attention = x := by
      simp only [hworkers, List.mem_map, exists_exists_and_eq_and, callStop_attention]
    rw [ht] at hq
    refine (ha hq (hmap.mp hasleep)).of_same hpending hwriting hsignal ?_
    exact hmap.mpr
  · rw [ht] at hq hasleep
    refine (ha hq hasleep).of_same hpending hwriting hsignal ?_
    rw [ht]
    exact id

/-- A worker that has got the pipe from `epoll_wait` is awake. -/
theorem awake_of_wait {i : Nat} {events : List (Nat × EpollEvents)} {m : Manager C}
    (h : s.toManager.step (.worker i (.wait events)) = some m) :
    ∃ w ∈ m.workers, w.attention = .awake := by
  obtain ⟨j, mv, w, m, w', heq, hw, hm, rfl⟩ | ⟨_, _, _, _, _, heq, -⟩ | ⟨heq, -⟩ | ⟨heq, -⟩ :=
    Manager.step_cases h
  · cases heq
    refine ⟨w', mem_set_self w' hw, ?_⟩
    cases Worker.moved hm with
    | loop pc step =>
      cases Worker.looped step
      rfl
  · cases heq
  · cases heq
  · cases heq

/-- A worker that is between two entries of its batch is awake. -/
theorem awake_of_inBatch {i : Nat} (h : s.inBatch i = true) :
    ∃ w ∈ s.workers, w.attention = .awake := by
  unfold inBatch at h
  split at h
  · rename_i hw
    exact ⟨_, List.mem_of_getElem? hw, rfl⟩
  · cases h

/-- The queue stays attended to exactly when the step misses no wakeup. -/
theorem step_attended_iff {a : Step C} (hs : s.Counted) (ha : s.Attended)
    (h : s.step a = some t) : t.Attended ↔ ¬ s.Missed a := by
  cases step_stepped h with
  | manager step =>
    exact ⟨fun _ => id, fun _ => manager_attended hs ha step rfl rfl rfl rfl⟩
  | claim idle =>
    refine ⟨fun _ hmissed => hmissed.1 idle, fun _ _ _ => ?_⟩
    exact Or.inr (Or.inl (List.cons_ne_nil _ _))
  | drop none =>
    have hasleep : (∃ w ∈ s.workers, w.attention = .asleep) ↔
        ∃ w ∈ s.workers, w.uncounted = true :=
      exists_congr fun w => and_congr_right fun hw => hs.asleep_iff none hw
    constructor
    · rintro ht ⟨-, hq, huncounted, halert⟩
      exact halert (ht hq (hasleep.mpr huncounted))
    · intro hmissed hq hsleeps
      by_contra halert
      exact hmissed ⟨none, hq, hasleep.mp hsleeps, halert⟩
  | write =>
    refine ⟨fun _ => id, fun _ _ _ => Or.inr (Or.inr (Or.inl ?_))⟩
    simp [signalled]
  | wake step =>
    exact ⟨fun _ => id, fun _ _ _ => Or.inr (Or.inr (Or.inr (awake_of_wait step)))⟩
  | drain batch =>
    exact ⟨fun _ => id, fun _ _ _ => Or.inr (Or.inr (Or.inr (awake_of_inBatch batch)))⟩

/-! ## Whole runs -/

variable {now : UInt64} {threads others : Nat} {use_caller : Bool}

theorem init_counted (hthreads : 0 < threads) :
    (init now threads use_caller others : Tickling C).Counted := by
  refine ⟨Manager.init_sound hthreads, ?_⟩
  have hnone : idlers (Manager.init now threads use_caller others : Manager C).workers = 0 := by
    refine List.countP_eq_zero.mpr fun w hw => ?_
    obtain ⟨i, -, rfl⟩ := List.mem_map.mp hw
    split <;> exact Bool.false_ne_true
  exact (congrArg Int.ofNat hnone).symm

/-- For any number of workers and of threads outside, and any order of their steps: while there is
something in the queue and a worker is asleep, a wakeup is on its way or some worker is awake, as
long as no `tickle` finds the counter of idle threads at zero while a worker that has found
nothing is about to be counted and nobody else is going to look at the queue. -/
theorem queue_attended_iff (hthreads : 0 < threads) {as : List (Step C)}
    (h : (run step (init now threads use_caller others) as).isSome) :
    Along step Attended (init now threads use_caller others) as ↔
      Guarded step (fun s a => ¬ s.Missed a) (init now threads use_caller others) as := by
  refine along_iff_guarded (I := Counted) ?_ ?_ (init_counted hthreads) ?_ h
  · exact fun _ _ _ hs _ _ hstep => step_counted hs hstep
  · exact fun _ _ _ hs ha hstep => step_attended_iff hs ha hstep
  · exact fun hq => absurd rfl hq

/-- A task is scheduled while the only worker waits. The byte in the pipe wakes it up, and it
takes the task. -/
def scheduleWhileWaiting : List (Step Nat) :=
  [.manager (.worker 0 .advance), .manager (.worker 0 .advance), .manager (.worker 0 (.probe 5)),
    .manager (.worker 0 (.probe 5)), .manager (.worker 0 (.probe 5)),
    .manager (.outside 0 (.schedule [⟨none, some 1, none⟩])), .check (.outside 0),
    .write (.outside 0), .wake 0 [], .manager (.worker 0 (.expire 0 5)),
    .manager (.worker 0 .push), .drain 0, .manager (.worker 0 .swapOut),
    .manager (.worker 0 .advance), .manager (.worker 0 .advance)]

/-- The task is attended to all along. -/
theorem queue_attended_scheduleWhileWaiting :
    (run step (init 1 1 false 1) scheduleWhileWaiting).isSome ∧
      Along step Attended (init 1 1 false 1) scheduleWhileWaiting := by
  have hrun : (run step (init 1 1 false 1) scheduleWhileWaiting).isSome := by decide
  exact ⟨hrun, (queue_attended_iff (by decide) hrun).mpr (by decide)⟩

/-- A task is scheduled after the only worker has found the queue empty, and before it is
counted as idle. -/
def scheduleBeforeCounted : List (Step Nat) :=
  [.manager (.worker 0 .advance), .manager (.outside 0 (.schedule [⟨none, some 1, none⟩])),
    .check (.outside 0), .manager (.worker 0 .advance), .manager (.worker 0 (.probe 5)),
    .manager (.worker 0 (.probe 5)), .manager (.worker 0 (.probe 5))]

/-- The worker waits with the task in the queue, and nothing is going to wake it up. -/
theorem wakeup_lost_scheduleBeforeCounted :
    (run step (init 1 1 false 1) scheduleBeforeCounted).isSome ∧
      ∀ s, run step (init 1 1 false 1) scheduleBeforeCounted = some s →
        s.workers.map (·.pc) = [.idle .wait] ∧ s.scheduler.queue = [⟨none, some 1, none⟩] ∧
          ¬ s.Alert Worker.attention := by
  decide

end Xupeng.IOManager.Tickling
