import Xupeng.Core.Tally
import Xupeng.Models.Scheduler.Interpretation.Statements

/-!
# The fibers that the workers point to

A pointer that the queue or a worker holds points to a fiber that has been made, so
a fiber that a worker makes is new to all others. From its dequeue up to the end of
`swapOut` a worker has a fiber in hand: it is going to run it or it is on its stack.
-/

namespace Xupeng.Scheduler

variable {C A I : Type} {s s' : Scheduler C} {w w' : Worker C A I} {thread f : Nat}

/-- The fiber that the worker has to do with. -/
def Pc.Mentions (f : Nat) : Pc C A I → Prop
  | .taken ft => ft.fiber = some f
  | .swapIn g _ | .exec g _ _ | .swapOut g _ | .swapped g _ | .isReady g _ | .requeue g _
  | .isEnded g _ | .hold g _ => g = f
  | _ => False

/-- The worker has a pointer to the fiber. -/
def Worker.Refers (f : Nat) (w : Worker C A I) : Prop := w.pc.Mentions f ∨ w.cbFiber = some f

/-- The fibers that the worker runs when it goes on with the entry. -/
def Worker.targets (w : Worker C A I) (ft : FiberAndThread C) : List Nat :=
  ft.fiber.toList ++ if ft.cb.isSome then w.cbFiber.toList else []

/-- The fiber that the worker has in hand, from the dequeue up to the end of `swapOut`. -/
def Worker.held (w : Worker C A I) : List Nat :=
  match w.pc with
  | .taken ft => w.targets ft
  | .swapIn f _ | .exec f _ _ | .swapOut f _ => [f]
  | _ => []

/-- The fiber that the worker is on, between the start of `swapIn` and the end of `swapOut`. -/
def Worker.inside (w : Worker C A I) : List Nat :=
  match w.pc with
  | .exec f _ _ | .swapOut f _ => [f]
  | _ => []

/-- A fiber that is run is held. -/
theorem mem_held_of_mem_inside (h : f ∈ w.inside) : f ∈ w.held := by
  unfold Worker.inside at h
  unfold Worker.held
  split at h <;> simp_all

theorem mem_targets {ft : FiberAndThread C} :
    f ∈ w.targets ft ↔ ft.fiber = some f ∨ ft.cb.isSome ∧ w.cbFiber = some f := by
  unfold Worker.targets
  split <;> simp_all

/-- A fiber that is held is pointed to. -/
theorem refers_of_mem_held (h : f ∈ w.held) : w.Refers f := by
  unfold Worker.held at h
  unfold Worker.Refers
  split at h
  · rename_i ft hpc
    rcases mem_targets.mp h with hf | hf
    · exact Or.inl (by simpa [hpc, Pc.Mentions] using hf)
    · exact Or.inr hf.2
  · exact Or.inl (by simp_all [Pc.Mentions])
  · exact Or.inl (by simp_all [Pc.Mentions])
  · exact Or.inl (by simp_all [Pc.Mentions])
  · cases h

/-- Dropping the callback fiber leaves fewer pointers. -/
theorem Worker.Refers.of_dropIf {own : Bool} {pc : Pc C A I}
    (h : ((w.dropIf own).goto pc).Refers f) : pc.Mentions f ∨ w.cbFiber = some f := by
  cases own with
  | true => exact Or.inl (by simpa [Worker.dropIf, Worker.goto, Worker.Refers] using h)
  | false => exact h

variable [Inhabited A] [Inhabited I]

/-- A statement gets its pointers from the worker or from the queue, or makes the fiber. -/
theorem Statement.refers (h : Statement thread s w s' w') (hf : w'.Refers f) :
    w.Refers f ∨ (∃ ft ∈ s.queue, ft.fiber = some f) ∨
      f = s.fibers.length ∧ s'.fibers.length = s.fibers.length + 1 := by
  -- the worker keeps `cb_fiber`, and what it has to do with it had before
  have hkeep {pc : Pc C A I} (hf : pc.Mentions f ∨ w.cbFiber = some f)
      (hpc : pc.Mentions f → w.pc.Mentions f) : w.Refers f :=
    hf.imp_left hpc
  cases h with
  | aborts => exact Or.inl hf
  | dequeue pc found =>
    rcases hf with hf | hf
    · obtain ⟨j, _, hj, _⟩ := search_eq_entry found
      exact Or.inr (Or.inl ⟨_, List.mem_of_getElem? hj, hf⟩)
    · exact Or.inl (Or.inr hf)
  | makeFiber pc hcb cbFiber =>
    refine Or.inr (Or.inr ⟨?_, by simp [newFiber]⟩)
    rcases hf with hf | hf
    · exact hf.symm
    · exact (Option.some.inj hf).symm
  | resetFiber pc hcb cbFiber =>
    rcases hf with hf | hf
    · exact Or.inl (Or.inr (hf ▸ cbFiber))
    · exact Or.inl (Or.inr hf)
  | requeue pc => exact Or.inl (hkeep hf.of_dropIf False.elim)
  | hold pc => exact Or.inl (hkeep hf.of_dropIf False.elim)
  | runFiber pc fiber => exact Or.inl (hkeep hf fun h => by rw [pc, Pc.Mentions, fiber, h])
  | setStopping pc | exhausted pc | discard pc | skip pc | recycle pc | ended pc
  | exit pc | enterIdle pc | leaveIdle pc => exact Or.inl (hkeep hf False.elim)
  | swapIn pc | swapOut pc | swapped pc | ready pc | notReady pc | notEnded pc =>
    exact Or.inl (hkeep hf fun h => by rwa [pc])

/-- A statement puts only fibers into the queue that the worker had. -/
theorem Statement.queue (h : Statement thread s w s' w') {ft : FiberAndThread C}
    (hft : ft ∈ s'.queue) : ft ∈ s.queue ∨ ∃ f, ft = ⟨some f, none, none⟩ ∧ w.pc.Mentions f := by
  cases h with
  | dequeue => exact Or.inl (List.mem_of_mem_eraseIdx hft)
  | requeue pc =>
    rcases List.mem_append.mp hft with hold | hnew
    · exact Or.inl hold
    · obtain rfl := List.mem_singleton.mp (List.mem_filter.mp hnew).1
      exact Or.inr ⟨_, rfl, by rw [pc, Pc.Mentions]⟩
  | _ => exact Or.inl hft

theorem Statement.length_fibers (h : Statement thread s w s' w') :
    s.fibers.length ≤ s'.fibers.length := by
  cases h <;> simp [setFiber, newFiber, schedule, fail]

/-- What a worker gets in hand it dequeues or it makes; everything else it had. -/
theorem Statement.held (h : Statement thread s w s' w') (hf : f ∈ w'.held) :
    f ∈ w.held ∨ f = s.fibers.length ∨
      ∃ i ft, w.pc = .search ∧ s.search thread 0 s.queue = .entry i ft ∧ f ∈ w.targets ft := by
  cases h with
  | aborts => exact Or.inl hf
  | dequeue pc found => exact Or.inr (Or.inr ⟨_, _, pc, found, hf⟩)
  | makeFiber => exact Or.inr (Or.inl (List.mem_singleton.mp hf))
  | runFiber pc fiber =>
    obtain rfl := List.mem_singleton.mp hf
    exact Or.inl (by rw [Worker.held, pc]; exact mem_targets.mpr (Or.inl fiber))
  | resetFiber pc hcb cbFiber =>
    obtain rfl := List.mem_singleton.mp hf
    exact Or.inl (by rw [Worker.held, pc]; exact mem_targets.mpr (Or.inr ⟨by simp [hcb], cbFiber⟩))
  | swapIn pc => exact Or.inl (by rwa [Worker.held, pc])
  | _ => cases hf

/-! ## The whole -/

namespace System

variable {s t : System C} {a : Step C}

/-- Every pointer in the queue and at a worker points to a fiber. -/
structure Known (s : System C) : Prop where
  queue : ∀ ft ∈ s.scheduler.queue, ∀ f ∈ ft.fiber, f < s.scheduler.fibers.length
  workers : ∀ w ∈ s.workers, ∀ f, w.Refers f → f < s.scheduler.fibers.length

theorem init_known (threads : Nat) (use_caller : Bool) :
    (init threads use_caller : System C).Known := by
  refine ⟨nofun, fun w hw f hf => ?_⟩
  obtain ⟨i, _, rfl⟩ := List.mem_map.mp hw
  split at hf <;> rcases hf with hf | hf <;> cases hf

/-- Code that uses the scheduler knows the fibers that it names. -/
theorem Known.apply (h : s.Known) {act : Act C} {s' : Scheduler C}
    (ha : act.apply s.scheduler = some s') : Known { s with scheduler := s' } := by
  rcases apply_eq_some ha with ⟨cb, rfl, rfl⟩ | ⟨hvalid, rfl⟩
  · refine ⟨fun ft hft f hf => ?_, fun w hw f hf => ?_⟩
    · have := h.queue ft hft f hf
      simp only [newFiber, List.length_append, List.length_singleton]
      omega
    · have := h.workers w hw f hf
      simp only [newFiber, List.length_append, List.length_singleton]
      omega
  · refine ⟨fun ft hft f hf => ?_, h.workers⟩
    rcases List.mem_append.mp hft with hold | hnew
    · exact h.queue ft hold f hf
    · exact hvalid ft (List.mem_filter.mp hnew).1 f hf

/-- Every step keeps the pointers valid. -/
theorem step_known (h : s.Known) (hs : s.step a = some t) : t.Known := by
  have hworker {i : Nat} {w : Worker C Unit Unit} (hw : s.workers[i]? = some w) (f : Nat)
      (hf : w.Refers f) : f < s.scheduler.fibers.length :=
    h.workers w (List.mem_of_getElem? hw) f hf
  cases step_stepped hs with
  | statement hw hst =>
    have hlen := hst.length_fibers
    refine ⟨fun ft hft f hf => ?_, forall_mem_set (fun v hv f hf => ?_) fun f hf => ?_⟩
    · rcases hst.queue hft with hold | ⟨g, rfl, hg⟩
      · exact Nat.lt_of_lt_of_le (h.queue ft hold f hf) hlen
      · cases hf
        exact Nat.lt_of_lt_of_le (hworker hw f (Or.inl hg)) hlen
    · exact Nat.lt_of_lt_of_le (h.workers v hv f hf) hlen
    · rcases hst.refers hf with hold | ⟨ft, hft, hfib⟩ | ⟨rfl, hnew⟩
      · exact Nat.lt_of_lt_of_le (hworker hw f hold) hlen
      · exact Nat.lt_of_lt_of_le (h.queue ft hft f hfib) hlen
      · dsimp only
        omega
  | act hw pc ha => exact h.apply ha
  | leave hw hl =>
    cases hl with
    | aborts pc =>
      exact ⟨h.queue, forall_mem_set h.workers (hworker hw)⟩
    | returns pc =>
      refine ⟨fun ft hft f hf => ?_, forall_mem_set (fun v hv f hf => ?_) fun f hf => ?_⟩
      · simpa [setFiber] using h.queue ft hft f hf
      · simpa [setFiber] using h.workers v hv f hf
      · have := hworker hw f (hf.imp_left fun hm => by rwa [pc])
        simpa [setFiber] using this
  | idle hw pc =>
    refine ⟨h.queue, forall_mem_set h.workers fun f hf => ?_⟩
    exact hworker hw f (Or.inr (hf.resolve_left not_false))
  | @answer i w first hw pc =>
    refine ⟨h.queue, forall_mem_set h.workers fun f hf => ?_⟩
    have hcb : w.cbFiber = some f := by
      rcases Worker.answer_eq first s.scheduler.isStopping w with heq | heq | heq <;>
        rw [heq] at hf
      · exact hf.resolve_left not_false
      · exact hf.resolve_left not_false
      · rcases hf with hf | hf <;> cases hf
    exact hworker hw f (Or.inr hcb)
  | outside ha => exact h.apply ha
  | stop =>
    refine ⟨h.queue, fun v hv f hf => ?_⟩
    obtain ⟨w, hw, rfl⟩ := List.mem_map.mp hv
    refine h.workers w hw f ?_
    unfold Worker.callStop at hf
    split at hf
    · exact Or.inr (hf.resolve_left not_false)
    · exact hf
  | setStopping => exact ⟨h.queue, h.workers⟩

end System

end Xupeng.Scheduler
