import Mathlib.Logic.Function.Basic
import Xupeng.Core.History
import Xupeng.Models.Scheduler.Interpretation.Holding
import Xupeng.Models.Scheduler.Interpretation.Queue

/-!
# The thread of a task

`schedule(fc, thread)` asks for a thread, and the request is a member of the queue
entry. The search respects it. But a worker whose task has yielded to `READY` puts
the fiber back with `schedule(ft.fiber)`, and the new entry is for any thread.

The history of a run has the request of each task, in the queue and on a worker. A
task that yields to `READY` stays the same task.
-/

namespace Xupeng.Scheduler

variable {C A I : Type} {s s' : Scheduler C} {w w' : Worker C A I} {thread : Nat}

/-- The worker has left the stack of the task, or is leaving it, and has not put it back. -/
def Pc.leaving : Pc C A I → Bool
  | .swapOut .. | .swapped .. | .isReady .. | .requeue .. => true
  | _ => false

/-- A worker that has left its loop stays out of it. -/
theorem Statement.leaving [Inhabited A] [Inhabited I] (h : Statement thread s w s' w')
    (hw : w'.pc.leaving = true) : w.pc.leaving = true := by
  cases h with
  | aborts => exact hw
  | swapOut pc | swapped pc | ready pc =>
    rw [pc]
    rfl
  | _ => cases hw

namespace System

variable {s t : System C} {a : Step C}

/-- The threads that the tasks have been scheduled for. -/
structure Requests where
  /-- Of the tasks in the queue, in the order of the queue. -/
  queued : List (Option Nat)
  /-- Of the task that each worker has taken last, while it is not over. -/
  running : Nat → Option Nat

namespace Requests

variable {h : Requests}

def empty : Requests := ⟨[], fun _ => none⟩

/-- The requests of the tasks that a step pushes: a worker puts its own task back. -/
def pushed (s : System C) (h : Requests) : Step C → List (Option Nat)
  | .worker i .advance => (s.pushes (.worker i .advance)).map fun _ => h.running i
  | a => (s.pushes a).map (·.thread)

/-- The worker that a step gives another request: it takes an entry, or its task is over. -/
def changed (s : System C) (h : Requests) : Step C → Option (Nat × Option Nat)
  | .worker i .advance =>
    (s.takes (.worker i .advance)).map fun taken => (i, h.queued.getD taken.1 none)
  | .worker _ (.leave .YieldToReady) => none
  | .worker i (.leave _) => some (i, none)
  | _ => none

/-- The requests of the running tasks after a step. -/
def next (s : System C) (h : Requests) (a : Step C) (j : Nat) : Option Nat :=
  match h.changed s a with
  | some (i, request) => Function.update h.running i request j
  | none => h.running j

/-- The requests after a step from `s`. -/
def record (s : System C) (a : Step C) (_ : System C) (h : Requests) : Requests where
  queued := remaining ((s.takes a).map Prod.fst) h.queued ++ h.pushed s a
  running := h.next s a

end Requests

/-- Every slice of a task that was scheduled for a thread is on that thread. -/
def OnThread (x : System C × Requests) : Prop :=
  ∀ i < x.1.workers.length, ∀ w ∈ x.1.workers[i]?, w.inside ≠ [] →
    ∀ thread ∈ x.2.running i, thread = i

/-- A task that was scheduled for a thread does not yield to `READY`. -/
def YieldsFree (x : System C × Requests) : Step C → Prop
  | .worker i (.leave .YieldToReady) => x.2.running i = none
  | _ => True

instance (x : System C × Requests) : Decidable (OnThread x) := by
  unfold OnThread
  infer_instance

instance (x : System C × Requests) (a : Step C) : Decidable (YieldsFree x a) :=
  match a with
  | .worker i (.leave .YieldToReady) => inferInstanceAs (Decidable (x.2.running i = none))
  | .worker _ (.leave .ret) | .worker _ (.leave .throw) | .worker _ (.leave .YieldToHold)
  | .worker _ .advance | .worker _ (.act _) | .worker _ .probe | .outside _ | .stop
  | .setStopping => isTrue trivial

/-- The requests are those of the entries, the workers respect them, and a task that a worker
is going to put back has none. -/
structure Requested (x : System C × Requests) : Prop where
  queued : x.2.queued = x.1.scheduler.queue.map (·.thread)
  running : ∀ i, ∀ thread ∈ x.2.running i, thread = i
  leaving : ∀ i, ∀ w ∈ x.1.workers[i]?, w.pc.leaving = true → x.2.running i = none

variable {h : Requests}

/-- What is left of the queue can be counted after a map. -/
theorem map_remaining {α β : Type} (f : α → β) (taken : Option Nat) (queue : List α) :
    (remaining taken queue).map f = remaining taken (queue.map f) := by
  cases taken with
  | none => rfl
  | some k => exact (List.eraseIdx_map ..).symm

/-- What a worker puts back is for any thread, and so was its task. -/
theorem Requested.pushed (hq : Requested (s, h)) (a : Step C) :
    h.pushed s a = (s.pushes a).map (·.thread) := by
  unfold Requests.pushed
  split
  · rename_i i
    refine List.map_congr_left fun ft hft => ?_
    cases hw : s.workers[i]? with
    | none => simp [pushes, hw] at hft
    | some w =>
      simp only [pushes, hw, Option.map_some, Option.getD_some, Worker.pushes] at hft
      split at hft
      · rename_i f own pc
        rw [List.mem_singleton.mp hft]
        exact hq.leaving i w hw (by rw [pc]; rfl)
      · cases hft
  · rfl

/-- A worker takes an entry for its own thread or for any thread. -/
theorem Requested.changed (hq : Requested (s, h)) {i : Nat} {request : Option Nat}
    (hc : h.changed s a = some (i, request)) : ∀ thread ∈ request, thread = i := by
  intro thread hthread
  unfold Requests.changed at hc
  split at hc
  · obtain ⟨⟨k, ft⟩, htakes, heq⟩ := Option.map_eq_some_iff.mp hc
    obtain ⟨rfl, rfl⟩ := Prod.mk.inj heq
    obtain ⟨_, ha, hk, helig, -⟩ := takes_first htakes
    cases ha
    have hqueued : h.queued = s.scheduler.queue.map (·.thread) := hq.queued
    have hrequest : h.queued.getD k none = ft.thread := by
      rw [hqueued, List.getD_eq_getElem?_getD, List.getElem?_map, hk]
      rfl
    have hown : ft.thread = some thread := hrequest.symm.trans hthread
    rcases helig.1 with hany | hsame
    · exact absurd (hany.symm.trans hown) nofun
    · exact Option.some.inj (hown.symm.trans hsame)
  · cases hc
  · cases hc
    cases hthread
  · cases hc

/-- An entry is taken on the thread that it asks for. -/
theorem Requested.next (hq : Requested (s, h)) (a : Step C) :
    ∀ i, ∀ thread ∈ h.next s a i, thread = i := by
  intro i thread hi
  unfold Requests.next at hi
  split at hi
  · rename_i j request hc
    by_cases hij : i = j
    · subst hij
      rw [Function.update_self] at hi
      exact hq.changed hc thread hi
    · rw [Function.update_of_ne hij] at hi
      exact hq.running i thread hi
  · exact hq.running i thread hi

/-- A step of a worker leaves the requests of the others alone. -/
theorem next_of_ne {i j : Nat} (hij : j ≠ i) (mv : Move C) :
    h.next s (.worker i mv) j = h.running j := by
  unfold Requests.next
  split
  · rename_i k request hc
    have hk : k = i := by
      unfold Requests.changed at hc
      split at hc
      · rename_i ha
        cases ha
        obtain ⟨_, -, heq⟩ := Option.map_eq_some_iff.mp hc
        exact (Prod.mk.inj heq).1.symm
      · cases hc
      · rename_i ha
        cases ha
        cases hc
        rfl
      · cases hc
    exact Function.update_of_ne (hk ▸ hij) _ _
  · rfl

/-- A worker that is leaving a task takes nothing. -/
theorem next_of_leaving {i : Nat} {w : Worker C Unit Unit} (hw : s.workers[i]? = some w)
    (hpc : w.pc.leaving = true) : h.next s (.worker i .advance) i = h.running i := by
  have hsearch : w.pc ≠ .search := by
    intro hsearch
    rw [hsearch] at hpc
    cases hpc
  simp [Requests.next, Requests.changed, takes, hw, Worker.takes_of_ne hsearch]

/-- A worker whose task gives the thread back has no request left. -/
theorem next_leave {i : Nat} {exit : Fiber.Exit}
    (hfree : YieldsFree (s, h) (.worker i (.leave exit))) :
    h.next s (.worker i (.leave exit)) i = none := by
  cases exit with
  | YieldToReady => exact hfree
  | ret | throw | YieldToHold => exact Function.update_self ..

/-- A worker changes; the others keep what they have. -/
theorem Requested.leaving_set (hq : Requested (s, h)) (mv : Move C) {i j : Nat}
    {v w' : Worker C Unit Unit}
    (hset : w'.pc.leaving = true → h.next s (.worker i mv) i = none)
    (hv : (s.workers.set i w')[j]? = some v) (hpc : v.pc.leaving = true) :
    h.next s (.worker i mv) j = none := by
  by_cases hij : j = i
  · subst hij
    rw [List.getElem?_set_self'] at hv
    obtain ⟨_, -, rfl⟩ := Option.map_eq_some_iff.mp hv
    exact hset hpc
  · rw [List.getElem?_set_ne (Ne.symm hij)] at hv
    rw [next_of_ne hij]
    exact hq.leaving j v hv hpc

/-- Every step under the condition keeps the requests. -/
theorem step_requested (hq : Requested (s, h)) (hfree : YieldsFree (s, h) a)
    (hs : s.step a = some t) : Requested (t, Requests.record s a t h) := by
  refine ⟨?_, hq.next a, ?_⟩
  · have hqueued : h.queued = s.scheduler.queue.map (·.thread) := hq.queued
    simp only [Requests.record]
    rw [step_queue hs, List.map_append, map_remaining, hq.pushed, hqueued]
  · intro j v hv hpc
    cases step_stepped hs with
    | @statement i w w' s' hw hst =>
      refine hq.leaving_set .advance (fun hpc' => ?_) hv hpc
      have hold := hst.leaving hpc'
      rw [next_of_leaving hw hold]
      exact hq.leaving i w hw hold
    | act hw pc ha => exact hq.leaving j v hv hpc
    | leave hw hl => exact hq.leaving_set (.leave _) (fun _ => next_leave hfree) hv hpc
    | idle hw pc =>
      refine hq.leaving_set .probe (fun hpc' => ?_) hv hpc
      cases hpc'
    | @answer i w first hw pc =>
      refine hq.leaving_set .probe (fun hpc' => ?_) hv hpc
      rcases Worker.answer_eq first s.scheduler.isStopping w with heq | heq | heq <;>
        rw [heq] at hpc' <;> cases hpc'
    | outside ha => exact hq.leaving j v hv hpc
    | stop =>
      rw [Option.mem_def, List.getElem?_map] at hv
      obtain ⟨w, hw, rfl⟩ := Option.map_eq_some_iff.mp hv
      unfold Worker.callStop at hpc
      split at hpc
      · cases hpc
      · exact hq.leaving j w hw hpc
    | setStopping => exact hq.leaving j v hv hpc

theorem init_requested (threads : Nat) (use_caller : Bool) :
    Requested ((init threads use_caller : System C), .empty) :=
  ⟨rfl, nofun, fun _ _ _ _ => rfl⟩

/-- In every run in which no task that was scheduled for a thread yields to `READY`, every slice
of such a task is on its thread. -/
theorem slices_on_thread (threads : Nat) (use_caller : Bool) (as : List (Step C))
    (hfree : Guarded (recorded step Requests.record) YieldsFree
      (init threads use_caller, .empty) as) :
    Along (recorded step Requests.record) OnThread (init threads use_caller, .empty) as := by
  refine along_of_guarded (I := Requested) ?_ ?_ (init_requested threads use_caller) hfree
  · exact fun x a y hq hg hr => of_recorded hr fun t hs => step_requested hq hg hs
  · rintro x hq i - w - - thread hi
    exact hq.running i thread hi

/-- A callback for thread 1 waits in front of one for any thread. Worker 0 passes over it, and
each worker runs one of them; the one on worker 0 yields to `READY`. -/
def passedOver : List (Step Unit) :=
  [.outside (.schedule (.cb (some ())) (some 1)), .outside (.schedule (.cb (some ())) none),
    .worker 0 .advance, .worker 0 .advance, .worker 0 .advance,
    .worker 1 .advance, .worker 1 .advance, .worker 1 .advance,
    .worker 0 (.leave .YieldToReady),
    .worker 0 .advance, .worker 0 .advance, .worker 0 .advance, .worker 0 .advance]

/-- An entry that worker 0 passes over runs on worker 1. -/
theorem slices_on_thread_passedOver :
    ((run (recorded step Requests.record) (init 2 false, .empty) passedOver).any fun x =>
        x.2.running 1 = some 1) = true ∧
      Along (recorded step Requests.record) OnThread (init 2 false, .empty) passedOver :=
  ⟨by decide, slices_on_thread 2 false passedOver (by decide)⟩

/-- A callback for thread 0 runs there and yields to `READY`. Worker 0 puts its fiber back, and
worker 1 takes it. -/
def yieldedToOther : List (Step Unit) :=
  [.outside (.schedule (.cb (some ())) (some 0)),
    .worker 0 .advance, .worker 0 .advance, .worker 0 .advance,
    .worker 0 (.leave .YieldToReady),
    .worker 0 .advance, .worker 0 .advance, .worker 0 .advance, .worker 0 .advance,
    .worker 1 .advance, .worker 1 .advance, .worker 1 .advance]

/-- The second slice of the callback is on worker 1. -/
theorem slice_on_other_thread :
    (run (recorded step Requests.record) (init 2 false, .empty) yieldedToOther).isSome ∧
      ∀ x, run (recorded step Requests.record) (init 2 false, .empty) yieldedToOther = some x →
        x.1.workers.map (·.pc) = [.search, .exec 0 false ()] ∧ x.2.running 1 = some 0 ∧
          ¬ OnThread x := by
  decide

end System

end Xupeng.Scheduler
