import Xupeng.Core.Entries
import Xupeng.Models.IOManager.Interpretation.Work

/-!
# What is left when every worker has returned

The reads of `stopping()` are not taken together, so what one worker has read can be
out of date when it leaves. It is enough that some worker is still going to read: the
invariant says what holds once all workers have come as far as a given phase.
-/

namespace Xupeng.IOManager

variable {C : Type}

/-! ## The conditions on a run -/

namespace Manager

/-- After `stop` has been called, the threads outside create no tasks, timers and events. -/
def OutsideQuiet (s : Manager C) (a : Step C) : Prop :=
  match a with
  | .outside i b => s.scheduler.autoStop = true → ∀ x ∈ s.outside[i]?,
    b.addsTimer = false ∧ b.addsEvent x = false ∧ b.addsTask x = false
  | _ => True

/-- Some worker has not come as far as phase `k`. -/
def Awaited (s : Manager C) (k : Nat) : Prop := ∃ w ∈ s.workers, w.phase < k

/-- Timers that are there when `stop` is called, and timers added later, find a worker that has
not read yet that there are none; likewise for events. Tasks for a particular thread that are
scheduled after the call find a worker whose idle fiber has not ended. Clocks are not at zero. -/
def InTime (s : Manager C) (a : Step C) : Prop :=
  match a with
  | .stop => (s.timers.timers ≠ [] → s.Awaited 1) ∧ (s.pendingEventCount ≠ 0 → s.Awaited 2)
  | .worker i mv => mv.ClockSet ∧ (s.scheduler.autoStop = true → ∀ w ∈ s.workers[i]?,
    (mv.addsTimer = true → s.Awaited 1) ∧ (w.addsEvent mv = true → s.Awaited 2) ∧
      (mv.pinsTask = true → s.Awaited 3))
  | _ => True

instance (s : Manager C) (k : Nat) : Decidable (s.Awaited k) :=
  inferInstanceAs (Decidable (∃ w ∈ s.workers, w.phase < k))

instance (s : Manager C) : (a : Step C) → Decidable (s.OutsideQuiet a)
  | .outside .. => inferInstanceAs (Decidable (_ → _))
  | .worker .. | .stop | .setStopping => isTrue trivial

instance (s : Manager C) : (a : Step C) → Decidable (s.InTime a)
  | .stop => inferInstanceAs (Decidable ((_ → _) ∧ (_ → _)))
  | .worker .. => inferInstanceAs (Decidable (_ ∧ (_ → _)))
  | .outside .. | .setStopping => isTrue trivial

/-! ## What a step does -/

variable {s t : Manager C}

/-- Everything a step can be. -/
theorem step_cases {a : Step C} (h : s.step a = some t) :
    (∃ i mv w m w', a = .worker i mv ∧ s.workers[i]? = some w ∧
        w.move i s.toMembers mv = some (m, w') ∧
        t = { s with toMembers := m, workers := s.workers.set i w' }) ∨
      (∃ i b x m x', a = .outside i b ∧ s.outside[i]? = some x ∧
        s.toMembers.act none x b = some (m, x') ∧
        t = { s with toMembers := m, outside := s.outside.set i x' }) ∨
      (a = .stop ∧ s.scheduler.autoStop = false ∧
        t = { s with
          scheduler := { s.scheduler with autoStop := true }
          workers := s.workers.map (Worker.callStop (s.workers.length = 1)) }) ∨
      (a = .setStopping ∧ s.scheduler.autoStop = true ∧
        t = { s with scheduler := { s.scheduler with stopping := true } }) := by
  unfold step at h
  split at h
  · cases h
  split at h
  · obtain ⟨w, hw, h⟩ := Option.bind_eq_some_iff.mp h
    obtain ⟨r, hr, h⟩ := Option.bind_eq_some_iff.mp h
    exact Or.inl ⟨_, _, w, r.1, r.2, rfl, hw, hr, (Option.some.inj h).symm⟩
  · obtain ⟨x, hx, h⟩ := Option.bind_eq_some_iff.mp h
    obtain ⟨r, hr, h⟩ := Option.bind_eq_some_iff.mp h
    exact Or.inr (Or.inl ⟨_, _, x, r.1, r.2, rfl, hx, hr, (Option.some.inj h).symm⟩)
  · split at h
    · cases h
    · rename_i hauto
      exact Or.inr (Or.inr (Or.inl ⟨rfl, by simpa using hauto, (Option.some.inj h).symm⟩))
  · split at h
    · rename_i hauto
      simp only [Bool.and_eq_true] at hauto
      exact Or.inr (Or.inr (Or.inr ⟨rfl, hauto.1, (Option.some.inj h).symm⟩))
    · cases h

/-- The worker that the call of `stop` goes on in is in phase 0, owes nothing and runs nothing,
before and after. -/
theorem callStop_spec (alone : Bool) (w : Worker C) :
    (w.callStop alone).phase = w.phase ∧ (w.callStop alone).debts = w.debts ∧
      ∀ f, w.pc.Runs f → (w.callStop alone).pc.Runs f := by
  unfold Worker.callStop
  split
  · rename_i hpc
    simp [Worker.phase, Worker.debts, Scheduler.Worker.goto, Scheduler.Pc.Runs, hpc]
  · exact ⟨rfl, rfl, fun _ h => h⟩

/-! ## The invariant of every run -/

/-- The decrements still to come, over some threads. -/
def due {α : Type} (debts : α → List (Effect Target Nat C)) (l : List α) : Int :=
  total (fun x => total Effect.delta (debts x)) l

/-- The table is in order, the counter runs ahead of it by the decrements that are due, and
every executing fiber is run by a worker. -/
structure Sound (s : Manager C) : Prop where
  good : s.table.Good
  count : s.pendingEventCount + due Worker.debts s.workers + due Activity.debts s.outside =
    s.table.card
  late_workers : ∀ w ∈ s.workers, ∀ e ∈ w.debts, e.delta ≤ 0
  late_outside : ∀ x ∈ s.outside, ∀ e ∈ x.debts, e.delta ≤ 0
  answered : s.scheduler.Answered s.workers
  nonempty : s.workers ≠ []

/-- What is still owed makes the counter smaller only. -/
theorem due_nonpos {α : Type} {debts : α → List (Effect Target Nat C)} {l : List α}
    (h : ∀ x ∈ l, ∀ e ∈ debts x, e.delta ≤ 0) : due debts l ≤ 0 :=
  total_nonpos fun x hx => total_nonpos (h x hx)

/-- The counter of events is never negative. -/
theorem Sound.pendingEventCount_nonneg (h : s.Sound) : 0 ≤ s.pendingEventCount := by
  have hcount := h.count
  have hworkers := due_nonpos h.late_workers
  have houtside := due_nonpos h.late_outside
  omega

/-- One thread of a list takes a step and the others do not. -/
theorem due_set {α : Type} {debts : α → List (Effect Target Nat C)} {l : List α} {i : Nat}
    {x x' : α} (hx : l[i]? = some x) {m m' : Members C} (h : Conserves m (debts x) m' (debts x')) :
    m'.pendingEventCount + due debts (l.set i x') - m'.table.card =
      m.pendingEventCount + due debts l - m.table.card := by
  have hset := total_set (f := fun x => total Effect.delta (debts x)) hx x'
  have hcount := h.count_eq
  unfold due
  omega

/-- Every step keeps the table and the counter in step. -/
theorem step_sound (hs : s.Sound) {a : Step C} (h : s.step a = some t) : t.Sound := by
  obtain ⟨i, mv, w, m, w', -, hw, hm, rfl⟩ | ⟨i, b, x, m, x', -, hx, hm, rfl⟩ | ⟨-, -, rfl⟩ |
    ⟨-, -, rfl⟩ := step_cases h
  · have hc := move_conserves hs.good (hs.late_workers w (List.mem_of_getElem? hw)) hm
    refine ⟨hc.good, ?_, forall_mem_set hs.late_workers hc.late, hs.late_outside,
      hs.answered.set hw (move_answers hm), by simpa using hs.nonempty⟩
    have hcount := hs.count
    have hdue := due_set hw hc
    dsimp only
    omega
  · have hc := act_conserves hs.good (hs.late_outside x (List.mem_of_getElem? hx)) hm
    refine ⟨hc.good, ?_, hs.late_workers, forall_mem_set hs.late_outside hc.late, ?_, hs.nonempty⟩
    · have hcount := hs.count
      have hdue := due_set hx hc
      dsimp only
      omega
    · exact fun f hf => hs.answered f (act_exec hm hf)
  · refine ⟨hs.good, ?_, ?_, hs.late_outside, ?_, by simpa using hs.nonempty⟩
    · simp only [due, total_map, callStop_spec]
      exact hs.count
    · intro w hw
      obtain ⟨v, hv, rfl⟩ := List.mem_map.mp hw
      rw [(callStop_spec _ v).2.1]
      exact hs.late_workers v hv
    · intro f hf
      obtain ⟨v, hv, hr⟩ := hs.answered f hf
      exact ⟨_, List.mem_map_of_mem hv, (callStop_spec _ v).2.2 f hr⟩
  · exact ⟨hs.good, hs.count, hs.late_workers, hs.late_outside, hs.answered, hs.nonempty⟩

/-! ## What has been settled when all workers have come as far as a phase -/

/-- What the workers have found out together in a phase. -/
def Settled (m : Members C) : Nat → Prop
  | 1 => m.timers.timers = []
  | 2 => m.pendingEventCount = 0
  | 3 => ∀ ft ∈ m.scheduler.queue, ft.thread = none
  | 4 => m.scheduler.queue = []
  | _ => True

variable {m m' : Members C} {k : Nat}

/-- What has been settled stays settled while no work comes in. -/
theorem Settled.of_sameWork (h : Settled m k) (hs : SameWork m m') : Settled m' k := by
  unfold Settled at h ⊢
  rw [hs.queue, hs.timers, hs.pendingEventCount]
  exact h

/-- A step keeps settled what it does not add to; new tasks for any thread unsettle only that the
queue is empty. -/
theorem Settled.of_grows (h : Settled m k) {timer event task pinned : Bool}
    (hg : Grows timer event task pinned m m') (hp : 0 ≤ m'.pendingEventCount)
    (h1 : k = 1 → timer = false) (h2 : k = 2 → event = false) (h3 : k = 3 → pinned = false)
    (h4 : k = 4 → task = false) : Settled m' k := by
  unfold Settled at h ⊢
  split at h
  · have hlen := hg.timers (h1 rfl)
    rw [h] at hlen
    exact List.length_eq_zero_iff.mp (Nat.le_zero.mp hlen)
  · have hle := hg.events (h2 rfl)
    omega
  · intro ft hft
    rcases hg.pinned (h3 rfl) ft hft with hold | hnone
    · exact h ft hold
    · exact hnone
  · rw [hg.tasks (h4 rfl), h]
  · exact h

/-- The invariant of runs that are in time: as long as `stop` has not been called no idle fiber
has ended, and afterwards what all workers have read is settled. -/
structure Orderly (s : Manager C) : Prop where
  before : s.scheduler.autoStop = false → ∀ w ∈ s.workers, w.phase < 3
  settled : s.scheduler.autoStop = true →
    ∀ k, (∀ w ∈ s.workers, k ≤ w.phase) → Settled s.toMembers k

/-- When the last worker finds nothing in the queue, the queue is empty: it has no entries for
other threads, and a fiber that is executing would be run by a worker. -/
theorem queue_eq_nil_of_search (ht : t.scheduler.Answered t.workers)
    (hall : ∀ w ∈ t.workers, 4 ≤ w.phase) (hsame : SameWork m t.toMembers) (h3 : Settled m 3)
    {thread : Nat} (h : m.scheduler.search thread 0 m.scheduler.queue = .nothing) :
    m.scheduler.queue = [] := by
  apply List.eq_nil_iff_forall_not_mem.mpr
  intro ft hft
  rcases Scheduler.search_eq_nothing h hft with ⟨hpin, -⟩ | ⟨f, -, hexec⟩
  · exact hpin (h3 ft hft)
  · rw [Scheduler.fiber, ← hsame.fibers] at hexec
    obtain ⟨w, hw, hruns⟩ := ht f hexec
    exact Worker.not_runs_of_phase (hall w hw) f hruns

/-- What a worker reads settles the phases it passes. -/
theorem settled_of_reads {thread p p' : Nat} (hr : Reads thread m p p') (hk : p < k) (hk' : k ≤ p')
    (hsearch : p = 3 → m.scheduler.search thread 0 m.scheduler.queue = .nothing →
      m.scheduler.queue = []) : Settled m k := by
  cases hr with
  | timer h =>
    obtain rfl : k = 1 := by omega
    exact h
  | pending h =>
    obtain rfl : k = 2 := by omega
    exact h
  | queue h =>
    have hnil : m.scheduler.queue = [] := by
      simp only [Scheduler.isStopping, Bool.and_eq_true, List.isEmpty_iff] at h
      exact h.1.2
    unfold Settled
    split
    · omega
    · omega
    · simp [hnil]
    · exact hnil
    · trivial
  | search h =>
    obtain rfl : k = 4 := by omega
    exact hsearch rfl h
  | done => omega

/-- Before `stop` is called nothing can be read that ends an idle fiber. -/
theorem lt_three_of_reads {thread p p' : Nat} (hr : Reads thread m p p') (hp : p < 3)
    (hauto : m.scheduler.autoStop = false) : p' < 3 := by
  cases hr with
  | timer | pending => omega
  | queue h => simp [Scheduler.isStopping, hauto] at h
  | search | done => omega

/-- A step of a worker keeps settled what all workers have read. -/
theorem worker_settled {i : Nat} {w w' : Worker C} (hw : s.workers[i]? = some w)
    (ht : ({ s with toMembers := m, workers := s.workers.set i w' } : Manager C).Sound)
    (hsettled : ∀ k, (∀ v ∈ s.workers, k ≤ v.phase) → Settled s.toMembers k)
    {timer event pinned : Bool} (hgrows : w.phase = 3 → Grows timer event true pinned s.toMembers m)
    (htimer : timer = true → s.Awaited 1) (hevent : event = true → s.Awaited 2)
    (hpinned : pinned = true → s.Awaited 3) (hp : Phased i s.toMembers m w w')
    (hall : ∀ v ∈ s.workers.set i w', k ≤ v.phase) : Settled m k := by
  have hk : k ≤ w'.phase := hall w' (mem_set_self w' hw)
  -- if `w` had come as far as the others, then all workers had
  have hreached {j : Nat} (hj : j ≤ k) (hjw : j ≤ w.phase) : ∀ v ∈ s.workers, j ≤ v.phase :=
    forall_of_forall_set hw hjw fun v hv => hj.trans (hall v hv)
  rcases hp with hzero | ⟨hthree, hthree'⟩ | ⟨hsame, hreads⟩
  · obtain rfl : k = 0 := by omega
    trivial
  · have hbefore := hreached le_rfl (by omega)
    have hnone {j : Nat} (hj : k = j) : ¬ s.Awaited j := by
      rintro ⟨v, hv, hlt⟩
      exact absurd (hbefore v hv) (by omega)
    refine (hsettled k hbefore).of_grows (hgrows hthree) ht.pendingEventCount_nonneg
      ?_ ?_ ?_ (by omega)
    · exact fun hj => Bool.eq_false_iff.mpr (mt htimer (hnone hj))
    · exact fun hj => Bool.eq_false_iff.mpr (mt hevent (hnone hj))
    · exact fun hj => Bool.eq_false_iff.mpr (mt hpinned (hnone hj))
  · by_cases hkw : k ≤ w.phase
    · exact (hsettled k (hreached le_rfl hkw)).of_sameWork hsame
    · refine (settled_of_reads hreads (by omega) hk fun h3 hnothing => ?_).of_sameWork hsame
      have h4 : 4 ≤ k := by omega
      exact queue_eq_nil_of_search ht.answered (fun v hv => h4.trans (hall v hv)) hsame
        (hsettled 3 (hreached (by omega) (by omega))) hnothing

/-- Every quiet step in time keeps the order of the shutdown. -/
theorem step_orderly (hs : s.Sound) (ho : s.Orderly) {a : Step C} (hquiet : s.OutsideQuiet a)
    (htime : s.InTime a) (h : s.step a = some t) : t.Orderly := by
  have ht := step_sound hs h
  obtain ⟨i, mv, w, m, w', rfl, hw, hm, rfl⟩ | ⟨i, b, x, m, x', rfl, hx, hm, rfl⟩ |
    ⟨rfl, hauto, rfl⟩ | ⟨rfl, hauto, rfl⟩ := step_cases h
  · have hlate := hs.late_workers w (List.mem_of_getElem? hw)
    have hauto := (move_conserves hs.good hlate hm).autoStop
    have hp := move_phased htime.1 hm
    refine ⟨?_, ?_⟩
    · intro hstop
      have hauto : s.scheduler.autoStop = false := hauto ▸ hstop
      have hbefore := ho.before hauto
      have hlt := hbefore w (List.mem_of_getElem? hw)
      refine forall_mem_set hbefore ?_
      rcases hp with hzero | ⟨hthree, -⟩ | ⟨-, hreads⟩
      · omega
      · omega
      · exact lt_three_of_reads hreads hlt hauto
    · intro hstop k hall
      have hauto : s.scheduler.autoStop = true := hauto ▸ hstop
      obtain ⟨htimer, hevent, hpinned⟩ := htime.2 hauto w hw
      exact worker_settled hw ht (ho.settled hauto)
        (fun h3 => move_grows hs.good hlate h3 hm) htimer hevent hpinned hp hall
  · have hlate := hs.late_outside x (List.mem_of_getElem? hx)
    have hauto := (act_conserves hs.good hlate hm).autoStop
    refine ⟨fun hstop => ho.before (hauto ▸ hstop), ?_⟩
    intro hstop k hall
    have hauto : s.scheduler.autoStop = true := hauto ▸ hstop
    obtain ⟨htimer, hevent, htask⟩ := hquiet hauto x hx
    have hgrows := act_grows hs.good hlate hm
    -- the queue is as it was, so nothing in it is for a particular thread
    have hsame : Grows b.addsTimer (b.addsEvent x) (b.addsTask x) false s.toMembers m :=
      ⟨hgrows.timers, hgrows.events, hgrows.tasks,
        fun _ ft hft => Or.inl (hgrows.tasks htask ▸ hft)⟩
    exact (ho.settled hauto k hall).of_grows hsame ht.pendingEventCount_nonneg
      (fun _ => htimer) (fun _ => hevent) (fun _ => rfl) fun _ => htask
  · refine ⟨nofun, ?_⟩
    intro _ k hall
    have hall' : ∀ v ∈ s.workers, k ≤ v.phase := fun v hv =>
      (callStop_spec _ v).1 ▸ hall _ (List.mem_map_of_mem hv)
    have hnone : ¬ s.Awaited k := by
      rintro ⟨v, hv, hlt⟩
      exact absurd (hall' v hv) (by omega)
    obtain ⟨v, hv⟩ := List.exists_mem_of_ne_nil _ hs.nonempty
    have hk : k < 3 := (hall' v hv).trans_lt (ho.before hauto v hv)
    match k with
    | 0 => trivial
    | 1 => exact not_not.mp (mt htime.1 hnone)
    | 2 => exact not_not.mp (mt htime.2 hnone)
  · exact ⟨fun hstop => absurd (hauto.symm.trans hstop) nofun, fun _ => ho.settled hauto⟩

/-! ## Whole runs -/

variable {now : UInt64} {threads others : Nat} {use_caller : Bool}

theorem init_phase {w : Worker C}
    (hw : w ∈ (init now threads use_caller others : Manager C).workers) :
    w.phase = 0 ∧ w.debts = [] := by
  obtain ⟨i, -, rfl⟩ := List.mem_map.mp hw
  split <;> exact ⟨rfl, rfl⟩

theorem init_sound (hthreads : 0 < threads) :
    (init now threads use_caller others : Manager C).Sound := by
  have hm : Table.blank.Moves (Table.init : Table Target Nat C) [] := Table.init_moves
  have houtside {x : Activity C} (hx : x ∈ List.replicate others default) : x.debts = [] := by
    rw [List.eq_of_mem_replicate hx]
    rfl
  refine ⟨hm.good, ?_, ?_, ?_, ?_, ?_⟩
  · have hworkers : due Worker.debts (init now threads use_caller others : Manager C).workers = 0 :=
      total_eq_zero fun w hw => by rw [(init_phase hw).2]; rfl
    have hothers :
        due Activity.debts (init now threads use_caller others : Manager C).outside = 0 :=
      total_eq_zero fun x hx => by rw [houtside hx]; rfl
    rw [hworkers, hothers]
    exact hm.card_eq.symm
  · intro w hw
    simp [(init_phase hw).2]
  · intro x hx
    simp [houtside hx]
  · exact fun f hf => nomatch hf
  · simp [init]
    omega

theorem init_orderly : (init now threads use_caller others : Manager C).Orderly :=
  ⟨fun _ w hw => by rw [(init_phase hw).1]; omega, nofun⟩

/-- The shutdown is in order in every state. -/
theorem run_orderly (hthreads : 0 < threads) {as : List (Step C)}
    (hquiet : Guarded step OutsideQuiet (init now threads use_caller others) as)
    (htime : Guarded step InTime (init now threads use_caller others) as)
    (h : run step (init now threads use_caller others) as = some s) : s.Sound ∧ s.Orderly :=
  run_invariant_of_guarded (I := fun s => s.Sound ∧ s.Orderly)
    (fun _ _ _ hI hg h => ⟨step_sound hI.1 h, step_orderly hI.1 hI.2 hg.1 hg.2 h⟩)
    ⟨init_sound hthreads, init_orderly⟩ (hquiet.and htime) h

/-- For any number of workers and of threads outside: in every run that is in time and in which
the threads outside create nothing after `stop` was called, once every worker has returned the
queue is empty, no timer is pending and there are no pending events. -/
theorem no_work_lost (hthreads : 0 < threads) {as : List (Step C)}
    (hquiet : Guarded step OutsideQuiet (init now threads use_caller others) as)
    (htime : Guarded step InTime (init now threads use_caller others) as)
    (h : run step (init now threads use_caller others) as = some s)
    (hdone : ∀ w ∈ s.workers, w.pc = .done) :
    s.scheduler.queue = [] ∧ s.timers.timers = [] ∧ s.pendingEventCount = 0 := by
  obtain ⟨hs, ho⟩ := run_orderly hthreads hquiet htime h
  have hphase {w : Worker C} (hw : w ∈ s.workers) : w.phase = 4 := by
    simp [Worker.phase, hdone w hw]
  have hstop : s.scheduler.autoStop = true := by
    by_contra hauto
    obtain ⟨w, hw⟩ := List.exists_mem_of_ne_nil _ hs.nonempty
    have hlt := ho.before (by simpa using hauto) w hw
    rw [hphase hw] at hlt
    omega
  have hsettled (k : Nat) (hk : k ≤ 4) : Settled s.toMembers k :=
    ho.settled hstop k fun w hw => by rw [hphase hw]; exact hk
  exact ⟨hsettled 4 (by omega), hsettled 1 (by omega), hsettled 2 (by omega)⟩

/-- A task is scheduled and `stop` is called; then the task adds a timer, which a worker waits
for and runs before it leaves. -/
def addTimerInTask : List (Step Nat) :=
  [.outside 0 (.schedule [⟨none, some 1, none⟩]), .stop, .setStopping,
    -- the task
    .worker 0 .advance, .worker 0 .advance, .worker 0 .advance,
    .worker 0 (.act (.addTimer 0 5 10 (some 2) false)), .worker 0 (.leave .ret),
    .worker 0 .advance, .worker 0 .advance, .worker 0 .advance, .worker 0 .advance,
    -- the timer expires
    .worker 0 .advance, .worker 0 .advance, .worker 0 (.probe 5), .worker 0 (.wait []),
    .worker 0 (.expire 1 20), .worker 0 .push, .worker 0 .swapOut, .worker 0 .advance,
    -- its callback
    .worker 0 .advance, .worker 0 .advance, .worker 0 .advance, .worker 0 (.leave .ret),
    .worker 0 .advance, .worker 0 .advance, .worker 0 .advance, .worker 0 .advance,
    -- nothing is left
    .worker 0 .advance, .worker 0 .advance, .worker 0 (.probe 20), .worker 0 (.probe 20),
    .worker 0 (.probe 20), .worker 0 .advance, .worker 0 .advance, .worker 0 .advance]

/-- A task adds a timer while the manager stops. -/
theorem no_work_lost_addTimerInTask :
    ∃ s, run step (init 1 1 false 1) addTimerInTask = some s ∧
      s.scheduler.queue = [] ∧ s.timers.timers = [] ∧ s.pendingEventCount = 0 := by
  have hrun : (run step (init 1 1 false 1) addTimerInTask).isSome := by decide
  obtain ⟨s, hs⟩ := Option.isSome_iff_exists.mp hrun
  have hdone : ∀ s, run step (init 1 1 false 1) addTimerInTask = some s →
      ∀ w ∈ s.workers, w.pc = .done := by decide
  exact ⟨s, hs, no_work_lost (by decide) (by decide) (by decide) hs (hdone s hs)⟩

/-- A thread outside adds a timer and calls `stop`, both after the only worker has read that
there are no timers and before it reads on. -/
def addTimerBetweenReads : List (Step Nat) :=
  [.worker 0 .advance, .worker 0 .advance, .worker 0 (.probe 5),
    .outside 0 (.addTimer 0 5 10 (some 1) false), .stop, .setStopping,
    .worker 0 (.probe 5), .worker 0 (.probe 5), .worker 0 .advance, .worker 0 .advance,
    .worker 0 .advance]

/-- The threads outside create nothing after `stop` was called, the worker returns, and the
timer is still pending. -/
theorem timer_lost_addTimerBetweenReads :
    Guarded step OutsideQuiet (init 1 1 false 1) addTimerBetweenReads ∧
      (run step (init 1 1 false 1) addTimerBetweenReads).isSome ∧
      ∀ s, run step (init 1 1 false 1) addTimerBetweenReads = some s →
        (∀ w ∈ s.workers, w.pc = .done) ∧ s.timers.timers = [0] := by
  decide

end Manager

end Xupeng.IOManager
