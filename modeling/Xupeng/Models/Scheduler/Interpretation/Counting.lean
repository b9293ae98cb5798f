import Xupeng.Models.Scheduler.Interpretation.Statements
import Xupeng.Core.Tally

/-!
# The counter of active threads

A worker increments `m_activeThreadCount` with the dequeue of an entry and decrements
it in one of three places. The counter is at every moment the number of workers
between the two.
-/

namespace Xupeng.Scheduler

variable {C A I : Type} {s s' : Scheduler C} {w w' : Worker C A I} {thread : Nat}

/-- The worker is between a dequeue and the decrement that belongs to it. -/
def Pc.active : Pc C A I → Bool
  | .taken _ | .skip | .swapIn .. | .exec .. | .swapOut .. | .swapped .. => true
  | _ => false

variable [Inhabited A] [Inhabited I]

/-- A statement moves the counter as it moves the worker. -/
theorem Statement.activeThreadCount (h : Statement thread s w s' w') :
    s'.activeThreadCount + w.pc.active.toNat = s.activeThreadCount + w'.pc.active.toNat := by
  cases h with
  | aborts => rfl
  | exhausted pc | setStopping pc | dequeue pc | runFiber pc | resetFiber pc | makeFiber pc
  | discard pc | swapIn pc | swapOut pc | ready pc | notReady pc | requeue pc | notEnded pc
  | recycle pc | ended pc | hold pc | exit pc | enterIdle pc | leaveIdle pc =>
    simp [pc, Pc.active, Worker.goto, setFiber, newFiber, schedule]
  | skip pc | swapped pc =>
    simp [pc, Pc.active, Worker.goto]

omit [Inhabited A] [Inhabited I] in
/-- A task that leaves is still counted. -/
theorem Leaves.activeThreadCount {exit : Fiber.Exit} (h : Leaves exit s w s' w') :
    s'.activeThreadCount = s.activeThreadCount ∧ w'.pc.active = w.pc.active := by
  cases h with
  | aborts => exact ⟨rfl, rfl⟩
  | returns pc => exact ⟨rfl, by rw [pc]; rfl⟩

namespace System

variable {s t : System C} {a : Step C}

/-- The counter is the number of workers that are active. -/
def Counted (s : System C) : Prop :=
  s.scheduler.activeThreadCount = s.workers.countP (·.pc.active)

theorem init_counted (threads : Nat) (use_caller : Bool) :
    (init threads use_caller : System C).Counted := by
  have hzero : (init threads use_caller : System C).workers.countP (·.pc.active) = 0 := by
    refine List.countP_eq_zero.mpr fun w hw => ?_
    obtain ⟨i, -, rfl⟩ := List.mem_map.mp hw
    split <;> simp [Worker.new, Pc.active]
  rw [Counted, hzero]
  rfl

/-- A worker and the counter move together. -/
theorem Counted.set (h : s.Counted) {i : Nat} {w w' : Worker C Unit Unit}
    (hw : s.workers[i]? = some w) {s' : Scheduler C}
    (hcount : s'.activeThreadCount + w.pc.active.toNat =
      s.scheduler.activeThreadCount + w'.pc.active.toNat) :
    Counted { s with scheduler := s', workers := s.workers.set i w' } := by
  have hset := total_set (f := fun w : Worker C Unit Unit => w.pc.active.toNat) hw w'
  rw [total_toNat, total_toNat] at hset
  unfold Counted at h ⊢
  dsimp only
  omega

/-- Code that uses the scheduler counts nobody. -/
theorem apply_activeThreadCount {s s' : Scheduler C} {a : Act C} (h : a.apply s = some s') :
    s'.activeThreadCount = s.activeThreadCount := by
  rcases apply_eq_some h with ⟨cb, rfl, rfl⟩ | ⟨-, rfl⟩ <;> rfl

/-- Every step keeps the counter right. -/
theorem step_counted (h : s.Counted) (hs : s.step a = some t) : t.Counted := by
  cases step_stepped hs with
  | statement hw hst => exact h.set hw hst.activeThreadCount
  | act hw pc ha =>
    rw [Counted, apply_activeThreadCount ha]
    exact h
  | leave hw hl =>
    refine h.set hw ?_
    rw [hl.activeThreadCount.1, hl.activeThreadCount.2]
  | idle hw pc => exact h.set hw (by simp [pc, Pc.active, Worker.swapOutIdle])
  | @answer i w first hw pc =>
    refine h.set hw ?_
    rcases Worker.answer_eq first s.scheduler.isStopping w with heq | heq | heq <;>
      simp [heq, pc, Pc.active, Worker.goto, Worker.new]
  | outside ha =>
    rw [Counted, apply_activeThreadCount ha]
    exact h
  | stop =>
    unfold Counted at h ⊢
    dsimp only
    rw [h, List.countP_map]
    congr 1
    refine List.countP_congr fun w _ => ?_
    simp only [Function.comp_apply, Worker.callStop]
    split
    · rename_i hpc
      simp [hpc, Pc.active, Worker.goto]
    · rfl
  | setStopping => exact h

end System

end Xupeng.Scheduler
