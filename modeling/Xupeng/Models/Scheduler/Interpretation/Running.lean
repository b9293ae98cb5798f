import Xupeng.Core.Entries
import Xupeng.Models.Scheduler.Interpretation.Statements

/-!
# Which worker answers for a fiber that is executing

A worker that has set the state of a fiber to `EXEC` looks at the state again
before it lets go of the fiber, and lets go only of a fiber that is not executing
at that moment. So a fiber in state `EXEC` is always run by some worker, even when
a fiber is run by two.
-/

namespace Xupeng.Scheduler

variable {C A I : Type} {s s' : Scheduler C} {f g : Nat}

/-! ## Fibers -/

/-- A fiber runs if it did, or if it was set to. -/
theorem setFiber_exec {fiber : Fiber C} (h : ((s.setFiber f fiber).fiber g).state = .EXEC) :
    g = f ∧ fiber.state = .EXEC ∨ g ≠ f ∧ (s.fiber g).state = .EXEC := by
  by_cases hg : g = f
  · refine Or.inl ⟨hg, ?_⟩
    rw [fiber_setFiber] at h
    split at h
    · exact h
    · rename_i hlen
      rw [fiber_of_length_le (by omega)] at h
      cases h
  · rw [fiber_setFiber_ne hg] at h
    exact Or.inr ⟨hg, h⟩

theorem newFiber_exec {cb : C} (h : ((s.newFiber cb).fiber g).state = .EXEC) :
    (s.fiber g).state = .EXEC :=
  state_of_newFiber nofun h

/-- The search ends without an entry only past entries for other threads and entries whose
fiber is executing. -/
theorem search_eq_nothing {thread i : Nat} {fts : List (FiberAndThread C)}
    (h : s.search thread i fts = .nothing) {ft : FiberAndThread C} (hft : ft ∈ fts) :
    ft.thread ≠ none ∧ ft.thread ≠ some thread ∨
      ∃ f, ft.fiber = some f ∧ (s.fiber f).state = .EXEC := by
  induction fts generalizing i with
  | nil => cases hft
  | cons it rest ih =>
    rw [search] at h
    split at h
    · rename_i hforeign
      rcases List.mem_cons.mp hft with rfl | hrest
      · exact Or.inl hforeign
      · exact ih h hrest
    · split at h
      · cases h
      · split at h
        · rename_i hexec
          rcases List.mem_cons.mp hft with rfl | hrest
          · cases hf : ft.fiber with
            | none => simp [hf] at hexec
            | some f => exact Or.inr ⟨f, rfl, by simpa [hf] using hexec⟩
          · exact ih h hrest
        · cases h

/-! ## Workers -/

/-- The worker has swapped the fiber in and still has to look at its state. -/
def Pc.Runs (f : Nat) : Pc C A I → Prop
  | .exec g _ _ | .swapOut g _ | .swapped g _ | .isReady g _ | .isEnded g _ | .hold g _ => g = f
  | _ => False

/-- After the step of a worker from `w` to `w'`, a fiber that is executing is run by `w'`, or it
was executing before and `w` has nothing to do with it. -/
def Answers (s s' : Scheduler C) (w w' : Worker C A I) : Prop :=
  ∀ f, (s'.fiber f).state = .EXEC →
    w'.pc.Runs f ∨ (s.fiber f).state = .EXEC ∧ ¬ w.pc.Runs f

variable {w w' : Worker C A I}

/-- A step that changes no fiber, and lets go of none. -/
theorem Answers.of_fibers (h : s'.fibers = s.fibers) (hw : ∀ f, w.pc.Runs f → w'.pc.Runs f) :
    Answers s s' w w' := by
  intro f hf
  by_cases hr : w.pc.Runs f
  · exact Or.inl (hw f hr)
  · refine Or.inr ⟨?_, hr⟩
    rwa [Scheduler.fiber, h] at hf

/-- A step that changes one fiber: if it is executing afterwards then `w'` runs it. -/
theorem Answers.of_setFiber {fiber : Fiber C} (hx : fiber.state = .EXEC → w'.pc.Runs f)
    (hw : ∀ g, g ≠ f → w.pc.Runs g → w'.pc.Runs g) : Answers s (s.setFiber f fiber) w w' := by
  intro g hg
  rcases setFiber_exec hg with ⟨rfl, hexec⟩ | ⟨hne, hexec⟩
  · exact Or.inl (hx hexec)
  · by_cases hr : w.pc.Runs g
    · exact Or.inl (hw g hne hr)
    · exact Or.inr ⟨hexec, hr⟩

/-- A step that lets go of a fiber that is not executing. -/
theorem Answers.of_release (h : s'.fibers = s.fibers) (hx : (s.fiber f).state ≠ .EXEC)
    (hw : ∀ g, w.pc.Runs g → g = f) : Answers s s' w w' := by
  intro g hg
  rw [Scheduler.fiber, h] at hg
  exact Or.inr ⟨hg, fun hr => hx (hw g hr ▸ hg)⟩

/-- Every statement of `run` keeps the executing fibers answered for. -/
theorem advance_answers [Inhabited A] [Inhabited I] {thread : Nat}
    (h : w.advance thread s = some (s', w')) : Answers s s' w w' := by
  -- a worker that runs no fiber cannot let go of one
  have hnot {pc : Pc C A I} (hpc : w.pc = pc) (hruns : ∀ g, ¬ pc.Runs g) (g : Nat) :
      ¬ w.pc.Runs g := hpc ▸ hruns g
  have hother {pc : Pc C A I} {f : Nat} (hpc : w.pc = pc) (hruns : ∀ g, pc.Runs g → g = f) :
      ∀ g, w.pc.Runs g → g = f := hpc ▸ hruns
  cases advance_statement h with
  | aborts => exact .of_fibers rfl fun _ hf => hf
  | setStopping pc | exhausted pc | dequeue pc | runFiber pc | discard pc | skip pc | requeue pc
  | exit pc | enterIdle pc | leaveIdle pc =>
    exact .of_fibers rfl fun g hg => absurd hg (hnot pc (fun _ => id) g)
  | resetFiber pc => exact .of_setFiber nofun fun g _ hg => absurd hg (hnot pc (fun _ => id) g)
  | makeFiber pc => exact fun g hg => Or.inr ⟨newFiber_exec hg, hnot pc (fun _ => id) g⟩
  | swapIn pc => exact .of_setFiber (fun _ => rfl) fun g _ hg => absurd hg (hnot pc (fun _ => id) g)
  | swapOut pc | swapped pc | notReady pc | notEnded pc =>
    refine .of_fibers rfl fun g hg => ?_
    rwa [pc] at hg
  | ready pc state =>
    exact .of_release rfl (by simp [state]) (hother pc fun _ => Eq.symm)
  | recycle pc =>
    exact .of_setFiber nofun fun g hne hg => absurd (hother pc (fun _ => Eq.symm) g hg) hne
  | ended pc state =>
    refine .of_release rfl (fun hexec => ?_) (hother pc fun _ => Eq.symm)
    rw [hexec] at state
    cases state
  | hold pc =>
    exact .of_setFiber nofun fun g hne hg => absurd (hother pc (fun _ => Eq.symm) g hg) hne

/-- A task that gives the thread back is still answered for. -/
theorem leave_answers {exit : Fiber.Exit} (h : w.leave exit s = some (s', w')) :
    Answers s s' w w' := by
  cases leave_leaves h with
  | aborts => exact .of_fibers rfl fun _ hf => hf
  | returns pc =>
    refine .of_setFiber (fun _ => rfl) fun g hne hg => absurd ?_ hne
    rw [pc] at hg
    exact hg.symm

/-- Every fiber that is executing is run by one of the workers. -/
def Answered (s : Scheduler C) (ws : List (Worker C A I)) : Prop :=
  ∀ f, (s.fiber f).state = .EXEC → ∃ w ∈ ws, w.pc.Runs f

/-- A worker answers for the fiber that it runs. -/
theorem Answered.set {ws : List (Worker C A I)} (h : s.Answered ws) {i : Nat} (hi : ws[i]? = some w)
    (ha : Answers s s' w w') : s'.Answered (ws.set i w') := by
  intro f hf
  rcases ha f hf with hr | ⟨hexec, hr⟩
  · exact ⟨w', mem_set_self w' hi, hr⟩
  · obtain ⟨v, hv, hvr⟩ := h f hexec
    have hne : v ≠ w := by
      rintro rfl
      exact hr hvr
    exact ⟨v, mem_set_of_ne w' hv hi hne, hvr⟩

/-! ## What the loop does not touch -/

/-- The idle fiber is not dropped. -/
theorem dropIf_idleFiber (own : Bool) (w : Worker C A I) :
    (w.dropIf own).idleFiber = w.idleFiber := by
  cases own <;> rfl

variable [Inhabited A] [Inhabited I]

/-- A task or the idle fiber has the thread, if at all, at its start. -/
def Pc.Fresh : Pc C A I → Prop
  | .exec _ _ a => a = default
  | .idle i | .ask _ i => i = default
  | _ => True

/-- The request to stop stays as it is, what is put into the queue is for any thread, nothing is
in the middle of anything, and the idle fiber ends only by itself. -/
structure Framed (s s' : Scheduler C) (w w' : Worker C A I) : Prop where
  autoStop : s'.autoStop = s.autoStop
  queue : ∀ ft ∈ s'.queue, ft ∈ s.queue ∨ ft.thread = none
  fresh : w'.pc.Fresh
  idleFiber : w'.idleFiber = .TERM ↔ w.idleFiber = .TERM

/-- A statement changes no fiber but the worker's own. -/
theorem advance_framed {thread : Nat} (h : w.advance thread s = some (s', w')) :
    w.pc.Fresh ∧ Framed s s' w w' := by
  have hfresh : w.pc.Fresh := by
    cases hpc : w.pc with
    | ask | exec | idle => simp [Worker.advance, hpc] at h
    | _ => trivial
  refine ⟨hfresh, ?_⟩
  cases advance_statement h with
  | aborts => exact ⟨rfl, fun _ => Or.inl, hfresh, Iff.rfl⟩
  | dequeue => exact ⟨rfl, fun _ hft => Or.inl (List.mem_of_mem_eraseIdx hft), trivial, Iff.rfl⟩
  | requeue =>
    refine ⟨rfl, fun ft hft => ?_, trivial, by simp only [Worker.goto, dropIf_idleFiber]⟩
    rcases List.mem_append.mp hft with hold | hnew
    · exact Or.inl hold
    · exact Or.inr (List.mem_singleton.mp (List.mem_filter.mp hnew).1 ▸ rfl)
  | hold => exact ⟨rfl, fun _ => Or.inl, trivial, by simp only [Worker.goto, dropIf_idleFiber]⟩
  | enterIdle pc term => exact ⟨rfl, fun _ => Or.inl, rfl, by simp [term]⟩
  | leaveIdle =>
    refine ⟨rfl, fun _ => Or.inl, trivial, ?_⟩
    cases hidle : w.idleFiber <;> simp [Fiber.State.ended]
  | setStopping | swapIn => exact ⟨rfl, fun _ => Or.inl, rfl, Iff.rfl⟩
  | _ => exact ⟨rfl, fun _ => Or.inl, trivial, Iff.rfl⟩

theorem leave_framed {exit : Fiber.Exit} (hfresh : w.pc.Fresh)
    (h : w.leave exit s = some (s', w')) : Framed s s' w w' := by
  cases leave_leaves h with
  | aborts => exact ⟨rfl, fun _ => Or.inl, hfresh, Iff.rfl⟩
  | returns => exact ⟨rfl, fun _ => Or.inl, trivial, Iff.rfl⟩

end Xupeng.Scheduler
