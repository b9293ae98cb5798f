import Xupeng.Models.Scheduler.Interpretation.Holding

/-!
# A fiber runs on one worker at a time

The search of the queue passes over a fiber that is executing. That is all that
keeps a fiber from being run twice, and the state says `EXEC` neither between the
dequeue of a fiber and its `swapIn`, nor between `YieldToReady` and the end of
`swapOut`. A fiber that is in the queue a second time can be taken in between.

If no worker takes an entry for a fiber that another worker has in hand, no fiber
is on two workers, however the steps interleave.
-/

namespace Xupeng.Scheduler.System

variable {C : Type} {s t : System C} {a : Step C}

/-- No fiber is between the start of `swapIn` and the end of `swapOut` on two workers. -/
def Exclusive (s : System C) : Prop :=
  s.workers.Pairwise fun v w => ∀ f ∈ v.inside, f ∉ w.inside

instance : Decidable s.Exclusive := inferInstanceAs (Decidable (List.Pairwise _ _))

/-- The entry that the step takes out of the queue is for a fiber that no other worker has in
hand. -/
def TakesFree (s : System C) : Step C → Prop
  | .worker i .advance =>
    match s.workers[i]? with
    | some w =>
      match w.pc, s.scheduler.search i 0 s.scheduler.queue with
      | .search, .entry _ ft =>
        ∀ v ∈ s.workers.eraseIdx i, ∀ f ∈ w.targets ft, f ∉ v.held
      | _, _ => True
    | none => True
  | _ => True

instance (s : System C) (a : Step C) : Decidable (s.TakesFree a) := by
  match a with
  | .worker i .advance =>
    dsimp only [TakesFree]
    match s.workers[i]? with
    | none => exact isTrue trivial
    | some w =>
      dsimp only
      match w.pc, s.scheduler.search i 0 s.scheduler.queue with
      | .search, .entry _ _ => infer_instance
      | .search, .nothing | .search, .null => exact isTrue trivial
      | .dormant, _ | .stop _, _ | .ask _ _, _ | .taken _, _ | .skip, _ | .swapIn _ _, _
      | .exec _ _ _, _ | .swapOut _ _, _ | .swapped _ _, _ | .isReady _ _, _ | .requeue _ _, _
      | .isEnded _ _, _ | .hold _ _, _ | .noTask, _ | .idle _, _ | .idleSwapped, _ | .done, _ =>
        exact isTrue trivial
  | .worker _ (.act _) | .worker _ (.leave _) | .worker _ .probe | .outside _ | .stop
  | .setStopping => exact isTrue trivial

/-- The two workers have no fiber in hand together. -/
def Apart (v w : Worker C Unit Unit) : Prop := ∀ f ∈ v.held, f ∉ w.held

theorem Apart.symm (v w : Worker C Unit Unit) (h : Apart v w) : Apart w v :=
  fun f hw hv => h f hv hw

/-- A worker that gets no fiber in hand stays apart from the others. -/
theorem pairwise_apart_set {ws : List (Worker C Unit Unit)} {i : Nat} {w w' : Worker C Unit Unit}
    (h : ws.Pairwise Apart) (hw : ws[i]? = some w) (hheld : ∀ f ∈ w'.held, f ∈ w.held) :
    (ws.set i w').Pairwise Apart :=
  pairwise_set Apart.symm h fun v hv f hf =>
    pairwise_eraseIdx Apart.symm h hw v hv f (hheld f hf)

/-- Every step that takes only free fibers keeps the workers apart. -/
theorem step_apart (hk : s.Known) (h : s.workers.Pairwise Apart) (hfree : s.TakesFree a)
    (hs : s.step a = some t) : t.workers.Pairwise Apart := by
  cases step_stepped hs with
  | @statement i w w' s' hw hst =>
    refine pairwise_set Apart.symm h fun v hv f hf => ?_
    rcases hst.held hf with hold | rfl | ⟨k, ft, hpc, hfound, htarget⟩
    · exact pairwise_eraseIdx Apart.symm h hw v hv f hold
    · -- the other workers know only fibers that have been made
      intro hheld
      have hlt := hk.workers v (List.mem_of_mem_eraseIdx hv) _ (refers_of_mem_held hheld)
      exact Nat.lt_irrefl _ hlt
    · simp only [TakesFree, hw, hpc, hfound] at hfree
      exact hfree v hv f htarget
  | act hw pc ha => exact h
  | leave hw hl =>
    refine pairwise_apart_set h hw fun f hf => ?_
    cases hl with
    | aborts => exact hf
    | returns pc => rwa [Worker.held, pc]
  | idle hw pc =>
    refine pairwise_apart_set h hw fun f hf => ?_
    cases hf
  | @answer i w first hw pc =>
    refine pairwise_apart_set h hw fun f hf => ?_
    rcases Worker.answer_eq first s.scheduler.isStopping w with heq | heq | heq <;>
      rw [heq] at hf <;> cases hf
  | outside ha => exact h
  | stop =>
    refine List.pairwise_map.mpr (h.imp fun {v w} hvw f hv hw => ?_)
    have hheld (u : Worker C Unit Unit) (hu : f ∈ (u.callStop (s.workers.length = 1)).held) :
        f ∈ u.held := by
      unfold Worker.callStop at hu
      split at hu
      · cases hu
      · exact hu
    exact hvw f (hheld v hv) (hheld w hw)
  | setStopping => exact h

theorem init_apart (threads : Nat) (use_caller : Bool) :
    (init threads use_caller : System C).workers.Pairwise Apart := by
  refine List.pairwise_map.mpr (List.pairwise_of_forall fun i j f hf => ?_)
  split at hf <;> cases hf

/-- Workers that are apart run different fibers. -/
theorem exclusive_of_apart (h : s.workers.Pairwise Apart) : s.Exclusive :=
  h.imp fun hvw f hv hw => hvw f (mem_held_of_mem_inside hv) (mem_held_of_mem_inside hw)

/-- In every run in which a worker takes an entry out of the queue only while no other worker has
the fiber of the entry in hand, no fiber is ever on two workers. -/
theorem fiber_exclusive (threads : Nat) (use_caller : Bool) (as : List (Step C))
    (hfree : Guarded step TakesFree (init threads use_caller) as) :
    Along step Exclusive (init threads use_caller) as :=
  along_of_guarded (I := fun s => s.Known ∧ s.workers.Pairwise Apart)
    (fun _ _ _ hI hg hs => ⟨step_known hI.1 hs, step_apart hI.1 hI.2 hg hs⟩)
    (fun _ hI => exclusive_of_apart hI.2)
    ⟨init_known threads use_caller, init_apart threads use_caller⟩ hfree

/-- A fiber is scheduled again while it runs on worker 0. It yields to `HOLD`, and worker 1
takes it after worker 0 has let go of it. -/
def wakeWhileRunning : List (Step Unit) :=
  [.outside (.newFiber ()), .outside (.schedule (.fiber (some 0)) none),
    .worker 0 .advance, .worker 0 .advance, .worker 0 .advance,
    .worker 0 (.act (.schedule (.fiber (some 0)) none)), .worker 0 (.leave .YieldToHold),
    .worker 0 .advance, .worker 0 .advance, .worker 0 .advance, .worker 0 .advance,
    .worker 0 .advance, .worker 1 .advance, .worker 1 .advance, .worker 1 .advance]

/-- A fiber is scheduled again while it runs. -/
theorem fiber_exclusive_wakeWhileRunning :
    (run step (init 2 false) wakeWhileRunning).isSome ∧
      Along step Exclusive (init 2 false) wakeWhileRunning :=
  ⟨by decide, fiber_exclusive 2 false wakeWhileRunning (by decide)⟩

/-- A fiber is scheduled again while it runs on worker 0. It yields to `READY`, and worker 1
takes it before worker 0 has left its stack. -/
def takenWhileYielding : List (Step Unit) :=
  [.outside (.newFiber ()), .outside (.schedule (.fiber (some 0)) none),
    .worker 0 .advance, .worker 0 .advance, .worker 0 .advance,
    .worker 0 (.act (.schedule (.fiber (some 0)) none)), .worker 0 (.leave .YieldToReady),
    .worker 1 .advance, .worker 1 .advance, .worker 1 .advance]

/-- Worker 1 executes the fiber while worker 0 is still in the `swapOut` of the same fiber. -/
theorem fiber_on_two_workers :
    (run step (init 2 false) takenWhileYielding).isSome ∧
      ∀ s, run step (init 2 false) takenWhileYielding = some s →
        s.workers.map (·.pc) = [.swapOut 0 false, .exec 0 false ()] ∧ ¬ s.Exclusive := by
  decide

end Xupeng.Scheduler.System
