import Mathlib.Data.List.Perm.Basic
import Xupeng.Models.Scheduler.Interpretation.Statements

/-!
# The life of a callback's fiber

A worker makes a fiber for a callback and keeps it in `cb_fiber` as long as its
callbacks return. A callback that yields takes its fiber away from the worker: it is
put back into the queue, or it waits for a wakeup. From then on any worker can run
it, and it is not used for another callback.

The stage of this life says in which states the fiber can be, whether it is in the
queue, and how many of its yields to `HOLD` have been answered.
-/

namespace Xupeng.Scheduler

variable {C A I : Type} {s s' : Scheduler C} {w w' : Worker C A I} {thread f : Nat}

/-! ## Stages -/

/-- Where a worker stands with a fiber. -/
inductive Stage
  /-- The fiber is its `cb_fiber` and has nothing to run. -/
  | keeps
  /-- Before `swapIn`, with a new callback. -/
  | starts
  /-- Before `swapIn`, with a callback that has yielded. -/
  | resumes
  | runs
  /-- After the callback gave the thread back, up to the test for `READY`. -/
  | leaves
  | putsBack
  /-- Before the test for `TERM` and `EXCEPT`. -/
  | tests
  /-- Before `m_state = Fiber::HOLD`. -/
  | holds
  deriving DecidableEq, Repr

/-- The stage of the fiber that the program counter is about. -/
def Pc.stage (f : Nat) : Pc C A I → Option Stage
  | .taken ft => if ft.fiber = some f then some .resumes else none
  | .swapIn g own => if g = f then some (if own then .starts else .resumes) else none
  | .exec g _ _ => if g = f then some .runs else none
  | .swapOut g _ | .swapped g _ | .isReady g _ => if g = f then some .leaves else none
  | .requeue g _ => if g = f then some .putsBack else none
  | .isEnded g _ => if g = f then some .tests else none
  | .hold g _ => if g = f then some .holds else none
  | _ => none

/-- Where a worker stands with a fiber that its program counter is not about. -/
def Worker.keeping (f : Nat) (w : Worker C A I) : Option Stage :=
  if w.cbFiber = some f then some .keeps else none

/-- Where the worker stands with the fiber. -/
def Worker.stage (f : Nat) (w : Worker C A I) : Option Stage := (w.pc.stage f).or (w.keeping f)

/-- A worker that runs its `cb_fiber` knows that it does, and has none before `run`. -/
def Worker.Owns (w : Worker C A I) : Prop :=
  match w.pc with
  | .dormant | .stop _ | .ask .. => w.cbFiber = none
  | .taken ft => ∀ g ∈ ft.fiber, w.cbFiber ≠ some g
  | .swapIn g own | .exec g own _ | .swapOut g own | .swapped g own | .isReady g own
  | .requeue g own | .isEnded g own | .hold g own => w.cbFiber = some g ↔ own = true
  | _ => True

/-- The number of entries for a fiber in the queue. -/
def queued (f : Nat) (s : Scheduler C) : Nat := s.queue.countP fun ft => ft.fiber = some f

/-- What is known of a fiber: its state, its entries in the queue, how often it has yielded to
`HOLD` and how many wakeups it got. -/
structure Life where
  state : Fiber.State
  queued : Nat
  held : Nat
  woken : Nat

namespace Life

variable {l : Life}

/-- It is not in the queue, and every yield to `HOLD` had its wakeup. -/
def Even (l : Life) : Prop := l.queued = 0 ∧ l.held = l.woken

/-- It has yielded to `HOLD`, and is in the queue if the wakeup has come. -/
def Asleep (l : Life) : Prop := l.queued ≤ 1 ∧ l.queued + l.held = l.woken + 1

/-- What a stage says of the fiber; without one no worker has to do with it. -/
def Fits (l : Life) : Option Stage → Prop
  | some .keeps | some .starts => l.state = .INIT ∧ l.Even
  | some .resumes => (l.state = .HOLD ∨ l.state = .READY) ∧ l.Even
  | some .runs => l.state = .EXEC ∧ l.queued ≤ 1 ∧ l.queued + l.held = l.woken
  | some .leaves => l.state = .EXEC ∧ l.Asleep ∨ (l.state = .READY ∨ l.state.ended) ∧ l.Even
  | some .putsBack => l.state = .READY ∧ l.Even
  | some .tests => l.state = .EXEC ∧ l.Asleep ∨ l.state.ended ∧ l.Even
  | some .holds => l.state = .EXEC ∧ l.Asleep
  | none =>
    l.state = .HOLD ∧ l.Asleep ∨ l.state = .READY ∧ l.queued = 1 ∧ l.held = l.woken ∨
      l.state.ended ∧ l.Even

/-- A fiber in the queue that is not executing is at no worker. -/
theorem Fits.eq_none {o : Option Stage} (h : l.Fits o) (hqueued : 0 < l.queued)
    (hstate : l.state ≠ .EXEC) : o = none := by
  have heven : ¬ l.Even := fun he => absurd he.1 (Nat.ne_of_gt hqueued)
  match o with
  | none => rfl
  | some .keeps | some .starts | some .resumes | some .putsBack => exact absurd h.2 heven
  | some .runs | some .holds => exact absurd h.1 hstate
  | some .leaves | some .tests =>
    rcases h with h | h
    · exact absurd h.1 hstate
    · exact absurd h.2 heven

/-- A wakeup puts the fiber into the queue. -/
def wake (l : Life) : Life := { l with queued := l.queued + 1, woken := l.woken + 1 }

/-- A fiber that is asleep may be woken up. -/
theorem Asleep.wake (h : l.Asleep) (hlt : l.woken < l.held) : l.wake.Asleep := by
  obtain ⟨hle, hsum⟩ := h
  refine ⟨?_, ?_⟩
  · change l.queued + 1 ≤ 1
    omega
  · change l.queued + 1 + l.held = l.woken + 1 + 1
    omega

/-- The wakeup for a yield to `HOLD` fits, wherever the fiber is. -/
theorem Fits.wake {o : Option Stage} (h : l.Fits o) (hlt : l.woken < l.held) :
    l.wake.Fits o := by
  have heven : ¬ l.Even := fun he => absurd he.2 (Nat.ne_of_gt hlt)
  match o with
  | some .keeps | some .starts | some .resumes | some .putsBack => exact absurd h.2 heven
  | some .runs =>
    have hsum := h.2.2
    omega
  | some .leaves | some .tests =>
    rcases h with ⟨hstate, hasleep⟩ | h
    · exact Or.inl ⟨hstate, hasleep.wake hlt⟩
    · exact absurd h.2 heven
  | some .holds => exact ⟨h.1, h.2.wake hlt⟩
  | none =>
    rcases h with ⟨hstate, hasleep⟩ | ⟨-, -, heq⟩ | h
    · exact Or.inl ⟨hstate, hasleep.wake hlt⟩
    · exact absurd heq (Nat.ne_of_gt hlt)
    · exact absurd h.2 heven

/-- A wakeup fits while the callback is executing and has had no other. -/
theorem Fits.wake_runs (h : l.Fits (some .runs)) (heq : l.woken = l.held) :
    l.wake.Fits (some .runs) := by
  obtain ⟨hstate, -, hsum⟩ := h
  refine ⟨hstate, ?_, ?_⟩
  · change l.queued + 1 ≤ 1
    omega
  · change l.queued + 1 + l.held = l.woken + 1
    omega

/-- A fiber that goes on has not ended. -/
theorem Fits.not_ended (h : l.Fits (some .resumes)) : l.state.ended = false := by
  rcases h.1 with he | he <;> rw [he] <;> rfl

end Life

/-- The life of a fiber, with its yields and wakeups counted elsewhere. -/
def life (s : Scheduler C) (f held woken : Nat) : Life :=
  ⟨(s.fiber f).state, s.queued f, held, woken⟩

/-! ## The queue -/

theorem queued_append (f : Nat) {fts : List (FiberAndThread C)} (h : s'.queue = s.queue ++ fts) :
    s'.queued f = s.queued f + fts.countP fun ft => ft.fiber = some f := by
  rw [queued, h, List.countP_append]
  rfl

/-- An entry that is taken is not counted any more. -/
theorem queued_eraseIdx {i : Nat} {ft : FiberAndThread C} (h : s.queue[i]? = some ft)
    (h' : s'.queue = s.queue.eraseIdx i) :
    s'.queued f + (if ft.fiber = some f then 1 else 0) = s.queued f := by
  obtain ⟨hlt, rfl⟩ := List.getElem?_eq_some_iff.mp h
  have hperm := (List.getElem_cons_eraseIdx_perm hlt).countP_eq fun ft => ft.fiber = some f
  rw [List.countP_cons] at hperm
  rw [queued, queued, h', ← hperm]
  simp

/-! ## Statements -/

/-- The program counter decides first. -/
theorem Worker.stage_of_some {x : Stage} (h : w.pc.stage f = some x) : w.stage f = some x := by
  rw [Worker.stage, h]
  rfl

/-- Then the callback fiber does. -/
theorem Worker.stage_of_none (h : w.pc.stage f = none) : w.stage f = w.keeping f := by
  rw [Worker.stage, h]
  rfl

theorem Worker.keeping_congr (h : w'.cbFiber = w.cbFiber) : w'.keeping f = w.keeping f := by
  rw [Worker.keeping, Worker.keeping, h]

theorem Worker.keeping_of_ne (h : w.cbFiber ≠ some f) : w.keeping f = none := if_neg h

/-- A worker that lets its `cb_fiber` go does not keep it, nor did it keep another fiber. -/
theorem Worker.keeping_dropIf {g : Nat} {own : Bool} {pc : Pc C A I}
    (howns : w.cbFiber = some g ↔ own = true) :
    ((w.dropIf own).goto pc).keeping f = if f = g then none else w.keeping f := by
  cases own with
  | true =>
    have hcb := howns.mpr rfl
    have hdrop : ((w.dropIf true).goto pc).keeping f = none := Worker.keeping_of_ne nofun
    split
    · exact hdrop
    · rename_i hf
      rw [hdrop, Worker.keeping_of_ne]
      rw [hcb]
      exact fun he => hf (Option.some.inj he).symm
  | false =>
    have hcb : w.cbFiber ≠ some g := fun he => Bool.false_ne_true (howns.mp he)
    split
    · rename_i hf
      exact Worker.keeping_of_ne (hf ▸ hcb)
    · rfl

/-- The life of the other fibers goes on. -/
theorem life_setFiber_ne {g : Nat} (h : f ≠ g) (fiber : Fiber C) (held woken : Nat) :
    (s.setFiber g fiber).life f held woken = s.life f held woken := by
  unfold life
  rw [fiber_setFiber_ne h]
  rfl

theorem life_setFiber_self (h : f < s.fibers.length) (fiber : Fiber C) (held woken : Nat) :
    (s.setFiber f fiber).life f held woken = { s.life f held woken with state := fiber.state } := by
  unfold life
  rw [fiber_setFiber_self h]
  rfl

theorem life_newFiber (h : f < s.fibers.length) (cb : C) (held woken : Nat) :
    (s.newFiber cb).life f held woken = s.life f held woken := by
  unfold life
  rw [fiber_newFiber, if_neg (Nat.ne_of_lt h)]
  rfl

variable [Inhabited A] [Inhabited I] {held woken : Nat} {o : Option Stage}

/-- A statement that is not about a fiber changes nothing for it. -/
theorem Statement.elsewhere (h : Statement thread s w s' w') (howns : w.Owns)
    (hlen : f < s.fibers.length) (hpc : w.pc.stage f = none) (hpc' : w'.pc.stage f = none) :
    w'.stage f = w.stage f ∧ s'.life f held woken = s.life f held woken := by
  rw [Worker.stage_of_none hpc, Worker.stage_of_none hpc']
  cases h with
  | aborts | setStopping | exhausted | discard | skip | runFiber | swapOut | swapped | ready
  | notReady | notEnded | ended | exit | enterIdle | leaveIdle =>
    exact ⟨Worker.keeping_congr rfl, rfl⟩
  | @dequeue i ft pc found =>
    refine ⟨Worker.keeping_congr rfl, ?_⟩
    have hne : ft.fiber ≠ some f := by simpa [Worker.goto, Pc.stage] using hpc'
    obtain ⟨j, rfl, hj, -⟩ := search_eq_entry found
    rw [Nat.zero_add]
    unfold life
    have hqueued : queued f { s with
        queue := s.queue.eraseIdx j
        activeThreadCount := s.activeThreadCount + 1 } + _ = s.queued f := queued_eraseIdx hj rfl
    rw [← hqueued, if_neg hne]
    rfl
  | @resetFiber ft g cb pc =>
    have hne : g ≠ f := by simpa [Worker.goto, Pc.stage] using hpc'
    exact ⟨Worker.keeping_congr rfl, life_setFiber_ne hne.symm _ _ _⟩
  | makeFiber pc hcb cbFiber =>
    refine ⟨?_, life_newFiber hlen _ _ _⟩
    rw [Worker.keeping_of_ne (w := w) (by simp [cbFiber])]
    exact Worker.keeping_of_ne fun he => Nat.ne_of_gt hlen (Option.some.inj he)
  | @swapIn g own pc =>
    have hne : g ≠ f := by simpa [pc, Pc.stage] using hpc
    exact ⟨Worker.keeping_congr rfl, life_setFiber_ne hne.symm _ _ _⟩
  | @requeue g own pc =>
    have hne : g ≠ f := by simpa [pc, Pc.stage] using hpc
    simp only [Worker.Owns, pc] at howns
    refine ⟨by rw [Worker.keeping_dropIf howns, if_neg hne.symm], ?_⟩
    unfold life
    rw [queued_append (s := s) f rfl]
    simp [hne, Scheduler.fiber, schedule]
  | @recycle g pc =>
    have hne : g ≠ f := by simpa [pc, Pc.stage] using hpc
    exact ⟨Worker.keeping_congr rfl, life_setFiber_ne hne.symm _ _ _⟩
  | @hold g own pc =>
    have hne : g ≠ f := by simpa [pc, Pc.stage] using hpc
    simp only [Worker.Owns, pc] at howns
    exact ⟨by rw [Worker.keeping_dropIf howns, if_neg hne.symm], life_setFiber_ne hne.symm _ _ _⟩

/-- A statement about a fiber moves it to a stage that fits. -/
theorem Statement.fits (h : Statement thread s w s' w') (howns : w.Owns)
    (hlen : f < s.fibers.length) {stage : Stage} (hpc : w.pc.stage f = some stage)
    (hfits : (s.life f held woken).Fits (some stage)) :
    (s'.life f held woken).Fits (w'.stage f) := by
  cases h with
  | aborts =>
    rw [Worker.stage_of_some hpc]
    exact hfits
  | setStopping pc | exhausted pc | dequeue pc | skip pc | exit pc | enterIdle pc | leaveIdle pc =>
    simp [pc, Pc.stage] at hpc
  | @runFiber ft g pc fiber =>
    obtain ⟨rfl, rfl⟩ : g = f ∧ Stage.resumes = stage := by simpa [pc, Pc.stage, fiber] using hpc
    rw [Worker.stage_of_some (x := .resumes) (by simp [Worker.goto, Pc.stage])]
    exact hfits
  | discard pc past | resetFiber pc hcb cbFiber state past | makeFiber pc hcb cbFiber past =>
    obtain ⟨hft, rfl⟩ : _ = some f ∧ Stage.resumes = stage := by simpa [pc, Pc.stage] using hpc
    have hended := past f hft
    rw [show (s.fiber f).state.ended = false from hfits.not_ended] at hended
    cases hended
  | @swapIn g own pc state =>
    obtain ⟨rfl, rfl⟩ : g = f ∧ (if own then Stage.starts else .resumes) = stage := by
      simpa [pc, Pc.stage] using hpc
    have heven : (s.life g held woken).Even := by cases own <;> exact hfits.2
    have hqueued : s.queued g = 0 := heven.1
    have hheld : held = woken := heven.2
    rw [Worker.stage_of_some (x := .runs) (by simp [Worker.goto, Pc.stage]),
      life_setFiber_self hlen]
    refine ⟨rfl, ?_, ?_⟩
    · exact Nat.le_trans (Nat.le_of_eq hqueued) (Nat.zero_le 1)
    · exact (congrArg (· + held) hqueued).trans ((Nat.zero_add held).trans hheld)
  | swapOut pc | swapped pc =>
    obtain ⟨rfl, rfl⟩ : _ = f ∧ Stage.leaves = stage := by simpa [pc, Pc.stage] using hpc
    rw [Worker.stage_of_some (x := .leaves) (by simp [Worker.goto, Pc.stage])]
    exact hfits
  | @ready g own pc state =>
    obtain ⟨rfl, rfl⟩ : g = f ∧ Stage.leaves = stage := by simpa [pc, Pc.stage] using hpc
    rw [Worker.stage_of_some (x := .putsBack) (by simp [Worker.goto, Pc.stage])]
    rcases hfits with hfits | hfits
    · exact absurd (hfits.1.symm.trans state) nofun
    · exact ⟨state, hfits.2⟩
  | @notReady g own pc state =>
    obtain ⟨rfl, rfl⟩ : g = f ∧ Stage.leaves = stage := by simpa [pc, Pc.stage] using hpc
    rw [Worker.stage_of_some (x := .tests) (by simp [Worker.goto, Pc.stage])]
    rcases hfits with hfits | ⟨hready | hended, heven⟩
    · exact Or.inl hfits
    · exact absurd hready state
    · exact Or.inr ⟨hended, heven⟩
  | @requeue g own pc =>
    obtain ⟨rfl, rfl⟩ : g = f ∧ Stage.putsBack = stage := by simpa [pc, Pc.stage] using hpc
    simp only [Worker.Owns, pc] at howns
    rw [Worker.stage_of_none rfl, Worker.keeping_dropIf howns, if_pos rfl]
    have hqueued : queued g (s.schedule [⟨some g, none, none⟩]) = s.queued g + 1 := by
      rw [queued_append (s := s) g rfl]
      simp
    refine Or.inr (Or.inl ⟨hfits.1, ?_, hfits.2.2⟩)
    exact hqueued.trans (congrArg (· + 1) hfits.2.1)
  | @notEnded g own pc state =>
    obtain ⟨rfl, rfl⟩ : g = f ∧ Stage.tests = stage := by simpa [pc, Pc.stage] using hpc
    rw [Worker.stage_of_some (x := .holds) (by simp [Worker.goto, Pc.stage])]
    rcases hfits with hfits | hfits
    · exact hfits
    · exact absurd (state.symm.trans hfits.1) Bool.false_ne_true
  | @recycle g pc state =>
    obtain ⟨rfl, rfl⟩ : g = f ∧ Stage.tests = stage := by simpa [pc, Pc.stage] using hpc
    simp only [Worker.Owns, pc] at howns
    have hkeeps : (w.goto .search).stage g = some .keeps := by
      rw [Worker.stage_of_none rfl]
      exact if_pos (howns.mpr trivial)
    rw [hkeeps, life_setFiber_self hlen]
    rcases hfits with hfits | hfits
    · rw [show (s.fiber g).state = .EXEC from hfits.1] at state
      cases state
    · exact ⟨rfl, hfits.2⟩
  | @ended g pc state =>
    obtain ⟨rfl, rfl⟩ : g = f ∧ Stage.tests = stage := by simpa [pc, Pc.stage] using hpc
    simp only [Worker.Owns, pc] at howns
    have hnone : (w.goto .search).stage g = none := by
      rw [Worker.stage_of_none rfl]
      exact if_neg fun he => Bool.false_ne_true (howns.mp he)
    rw [hnone]
    rcases hfits with hfits | hfits
    · rw [show (s.fiber g).state = .EXEC from hfits.1] at state
      cases state
    · exact Or.inr (Or.inr hfits)
  | @hold g own pc =>
    obtain ⟨rfl, rfl⟩ : g = f ∧ Stage.holds = stage := by simpa [pc, Pc.stage] using hpc
    simp only [Worker.Owns, pc] at howns
    rw [Worker.stage_of_none rfl, Worker.keeping_dropIf howns, if_pos rfl,
      life_setFiber_self hlen]
    exact Or.inl ⟨rfl, hfits.2⟩

/-- A worker comes to a fiber by a dequeue, or by a new callback for the fiber it keeps. -/
theorem Statement.fits_of_new (h : Statement thread s w s' w') (hlen : f < s.fibers.length)
    (hpc : w.pc.stage f = none) {stage : Stage} (hpc' : w'.pc.stage f = some stage)
    (hfits : (s.life f held woken).Fits o) (ho : w.stage f = none ∨ o = w.stage f) :
    o = w.stage f ∧ (s'.life f held woken).Fits (w'.stage f) := by
  rw [Worker.stage_of_some hpc']
  cases h with
  | aborts => exact absurd (hpc.symm.trans hpc') nofun
  | @dequeue i ft pc found =>
    obtain ⟨hft, rfl⟩ : ft.fiber = some f ∧ Stage.resumes = stage := by
      simpa [Worker.goto, Pc.stage] using hpc'
    obtain ⟨j, rfl, hj, helig, -⟩ := search_eq_entry found
    rw [Nat.zero_add]
    have hqueued : queued f { s with
        queue := s.queue.eraseIdx j
        activeThreadCount := s.activeThreadCount + 1 } + _ = s.queued f := queued_eraseIdx hj rfl
    rw [if_pos hft] at hqueued
    have hpos : 0 < s.queued f := by omega
    obtain rfl := hfits.eq_none hpos (helig.2 f hft)
    have hnone : w.stage f = none := ho.elim id Eq.symm
    refine ⟨hnone.symm, ?_⟩
    have hle : s.queued f ≤ 1 ∧ held = woken ∧
        ((s.fiber f).state = .HOLD ∨ (s.fiber f).state = .READY) := by
      rcases hfits with ⟨hstate, hle, hsum⟩ | ⟨hstate, hone, heq⟩ | ⟨-, hzero, -⟩
      · simp only [life] at hle hsum
        exact ⟨hle, by omega, Or.inl hstate⟩
      · exact ⟨Nat.le_of_eq hone, heq, Or.inr hstate⟩
      · exact absurd hzero (Nat.ne_of_gt hpos)
    refine ⟨hle.2.2, ?_, hle.2.1⟩
    change queued f _ = 0
    omega
  | @resetFiber ft g cb pc hcb cbFiber =>
    obtain ⟨rfl, rfl⟩ : g = f ∧ Stage.starts = stage := by
      simpa [Worker.goto, Pc.stage] using hpc'
    have hkeeps : w.stage g = some .keeps := (Worker.stage_of_none hpc).trans (if_pos cbFiber)
    rw [hkeeps] at ho ⊢
    obtain rfl := ho.resolve_left nofun
    rw [life_setFiber_self hlen]
    exact ⟨rfl, rfl, hfits.2⟩
  | makeFiber =>
    have heq : s.fibers.length = f := by
      simp only [Pc.stage] at hpc'
      split at hpc'
      · assumption
      · cases hpc'
    exact absurd heq (Nat.ne_of_gt hlen)
  | runFiber pc fiber =>
    simp [pc, Pc.stage, fiber] at hpc
    simp [Worker.goto, Pc.stage, hpc] at hpc'
  | swapIn pc | swapOut pc | swapped pc | ready pc | notReady pc | notEnded pc =>
    simp [pc, Pc.stage] at hpc
    simp [Worker.goto, Pc.stage, hpc] at hpc'
  | setStopping | exhausted | discard | skip | requeue | recycle | ended | hold | exit | enterIdle
  | leaveIdle => cases hpc'

/-- A statement leaves a fiber as it is, or the worker is the one that has to do with it and moves
it to a stage that fits. -/
theorem Statement.life_step (h : Statement thread s w s' w') (howns : w.Owns)
    (hlen : f < s.fibers.length) (hfits : (s.life f held woken).Fits o)
    (ho : w.stage f = none ∨ o = w.stage f) :
    w'.stage f = w.stage f ∧ s'.life f held woken = s.life f held woken ∨
      o = w.stage f ∧ (s'.life f held woken).Fits (w'.stage f) := by
  cases hpc : w.pc.stage f with
  | some stage =>
    have hstage := Worker.stage_of_some hpc
    rw [hstage] at ho ⊢
    obtain rfl := ho.resolve_left nofun
    exact Or.inr ⟨rfl, h.fits howns hlen hpc hfits⟩
  | none =>
    cases hpc' : w'.pc.stage f with
    | none => exact Or.inl (h.elsewhere howns hlen hpc hpc')
    | some stage => exact Or.inr (h.fits_of_new hlen hpc hpc' hfits ho)

/-- A worker that takes only fibers that are not its `cb_fiber` goes on to know which is. -/
theorem Statement.owns (h : Statement thread s w s' w') (howns : w.Owns)
    (htakes : ∀ i ft, w.pc = .search → s.search thread 0 s.queue = .entry i ft →
      ∀ g ∈ ft.fiber, w.cbFiber ≠ some g) : w'.Owns := by
  cases h with
  | aborts => exact howns
  | dequeue pc found => exact htakes _ _ pc found
  | runFiber pc fiber =>
    simp only [Worker.Owns, pc] at howns
    exact ⟨fun he => absurd he (howns _ fiber), nofun⟩
  | resetFiber pc hcb cbFiber => exact ⟨fun _ => rfl, fun _ => cbFiber⟩
  | makeFiber => exact ⟨fun _ => rfl, fun _ => rfl⟩
  | setStopping pc | swapIn pc | swapOut pc | swapped pc | ready pc | notReady pc | notEnded pc =>
    simp only [Worker.Owns, pc] at howns
    exact howns
  | exhausted | discard | skip | requeue | recycle | ended | hold | exit | enterIdle | leaveIdle =>
    trivial

/-! ## A callback gives its thread back -/

omit [Inhabited A] [Inhabited I] in
/-- A task that leaves keeps what its worker owns. -/
theorem Leaves.owns {exit : Fiber.Exit} (h : Leaves exit s w s' w') (howns : w.Owns) :
    w'.Owns := by
  cases h with
  | aborts => exact howns
  | returns pc =>
    simp only [Worker.Owns, pc] at howns
    exact howns

omit [Inhabited A] [Inhabited I] in
/-- A callback that gives its thread back changes nothing for other fibers. -/
theorem Leaves.elsewhere {exit : Fiber.Exit} (h : Leaves exit s w s' w')
    (hpc : w.pc.stage f = none) :
    w'.stage f = w.stage f ∧ s'.life f held woken = s.life f held woken := by
  cases h with
  | aborts => exact ⟨rfl, rfl⟩
  | @returns g own _ pc =>
    have hne : g ≠ f := by simpa [pc, Pc.stage] using hpc
    refine ⟨?_, life_setFiber_ne hne.symm _ _ _⟩
    rw [Worker.stage_of_none hpc, Worker.stage_of_none (by simp [Worker.goto, Pc.stage, hne])]
    exact Worker.keeping_congr rfl

omit [Inhabited A] [Inhabited I] in
/-- A fiber that is woken before it yields to `HOLD` has to yield, and then every way to leave
fits. -/
theorem Leaves.fits {exit : Fiber.Exit} (h : Leaves exit s w s' w') (hlen : f < s.fibers.length)
    (hpc : w.pc.stage f = some .runs) (hfits : (s.life f held woken).Fits (some .runs))
    (hexit : held < woken → exit = .YieldToHold) :
    (s'.life f (held + if exit = .YieldToHold then 1 else 0) woken).Fits (w'.stage f) := by
  obtain ⟨hstate, hle, hsum⟩ := hfits
  simp only [life] at hstate hle hsum
  cases h with
  | @aborts g own _ pc state =>
    obtain rfl : g = f := by simpa [pc, Pc.stage] using hpc
    exact absurd hstate state
  | @returns g own _ pc fiber left =>
    obtain rfl : g = f := by simpa [pc, Pc.stage] using hpc
    rw [Worker.stage_of_some (x := .leaves) (by simp [Worker.goto, Pc.stage]),
      life_setFiber_self hlen]
    cases exit with
    | YieldToHold =>
      simp only [Fiber.leave, if_pos hstate, Option.some.injEq] at left
      subst left
      refine Or.inl ⟨hstate, hle, ?_⟩
      simp only [life, if_true]
      omega
    | ret | throw | YieldToReady =>
      have heven : s.queued g = 0 ∧ held = woken := by
        have hnot : ¬ held < woken := by
          intro hlt
          cases hexit hlt
        omega
      simp only [Fiber.leave, hstate, if_true, Option.some.injEq] at left
      subst left
      refine Or.inr ⟨?_, heven.1, heven.2⟩
      simp [Fiber.State.ended]

end Xupeng.Scheduler
