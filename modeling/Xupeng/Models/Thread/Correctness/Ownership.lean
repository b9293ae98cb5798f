import Xupeng.Core.Entries
import Xupeng.Core.Pointwise
import Xupeng.Models.Thread.Interpretation.Handshake

/-!
# What the owner of a thread can rely on

When the constructor of `Thread` has returned, `getId` is the id of the new thread, and
the thread itself does not use the object any more; only its callback can, by `SetName`.
So an owner may destroy the object at any time if the callback does not call `SetName`
after that.

`Semaphore::wait` throws when `sem_wait` is interrupted by a signal. The constructor then
throws while the new thread goes on with the object.
-/

namespace Xupeng.Thread

variable {C : Type}

/-- What the owner of an object can rely on. -/
structure Slot.Served (s : Slot C) : Prop where
  /-- No use of the object after its end. -/
  safe : s.dangling = false
  /-- When the constructor has returned, the id is set and the callback has been taken. -/
  ready : s.life ≠ .making → s.object.m_id = s.thread.tid ∧ s.object.m_cb = none
  /-- `getName` is the name that the thread itself knows, from then on. -/
  named : s.life = .made → s.object.m_name ≠ "" ∧ s.thread.t_thread_name = s.object.m_name
  /-- The callback is called once. -/
  once : s.thread.called = if s.thread.pc.called then [s.given] else []
  /-- A thread that has been joined has ended. -/
  joined : s.object.m_thread = false → s.thread.pc = .ended

/-- A thread serves its owner if it keeps to the handshake. -/
theorem Slot.Agrees.served {s : Slot C} (h : s.Agrees) : s.Served where
  safe := h.safe
  ready hlife := by
    have hpast : s.thread.pc.identified = true ∧ s.thread.pc.taken = true := by
      have hnotified := h.notified hlife
      revert hnotified
      cases s.thread.pc <;> decide
    have hcb := h.cb
    rw [if_pos hpast.2] at hcb
    exact ⟨h.id hpast.1, (Prod.ext_iff.mp hcb).2⟩
  named hlife := by
    have hnamed : s.thread.pc.named = true := by
      have hnotified := h.notified (by rw [hlife]; exact Life.noConfusion)
      revert hnotified
      cases s.thread.pc <;> decide
    exact ⟨h.name.1, h.name.2 (by rw [hlife]; exact Life.noConfusion) hnamed⟩
  once := h.called
  joined := h.joined

namespace System

variable {s t : System C} {a : Step C}

/-- The id of the thread that an object has started. -/
def tid (s : System C) (i : Nat) : Option Int := s.slots[i]?.map fun slot => slot.thread.tid

/-- The owners of all objects are served, and `m_threadIds` are the ids of the scheduler's
threads, in order. -/
structure Served (s : System C) : Prop where
  slots : ∀ slot ∈ s.slots, slot.Served
  ids : List.Forall₂ (fun i id => s.tid i = some id) s.m_threads s.m_threadIds

/-- What the users of the threads have to see to. -/
def Proper (s : System C) : Step C → Prop
  | .act i a => ∀ slot ∈ s.slots[i]?, slot.Proper a
  | _ => True

instance (s : System C) (a : Step C) : Decidable (s.Proper a) :=
  match a with
  | .act _ _ => inferInstanceAs (Decidable (∀ slot ∈ _, _))
  | .construct .. | .pushId _ => isTrue trivial

/-- The invariant of a run. -/
structure Agrees (s : System C) : Prop where
  slots : ∀ slot ∈ s.slots, slot.Agrees
  ids : List.Forall₂ (fun i id => s.tid i = some id) s.m_threads s.m_threadIds

/-- The handshake serves the owners. -/
theorem Agrees.served (h : s.Agrees) : s.Served :=
  ⟨fun slot hslot => (h.slots slot hslot).served, h.ids⟩

theorem tid_set {i : Nat} {slot slot' : Slot C} (hi : s.slots[i]? = some slot)
    (htid : slot'.thread.tid = slot.thread.tid) (j : Nat) :
    tid { s with slots := s.slots.set i slot' } j = s.tid j := by
  unfold tid
  dsimp only
  by_cases hij : i = j
  · subst hij
    rw [List.getElem?_set_self (List.getElem?_eq_some_iff.mp hi).1, hi]
    exact congrArg some htid
  · rw [List.getElem?_set_ne hij]

theorem tid_append {slots : List (Slot C)} {i : Nat} {id : Int} (hi : s.tid i = some id) :
    tid { s with slots := s.slots ++ slots } i = some id := by
  obtain ⟨slot, hslot, rfl⟩ := Option.map_eq_some_iff.mp hi
  have hlt := (List.getElem?_eq_some_iff.mp hslot).1
  unfold tid
  dsimp only
  rw [List.getElem?_append_left hlt, hslot]
  rfl

/-- Every step keeps all objects and their threads in agreement. -/
theorem Agrees.step (h : s.Agrees) (ha : s.Proper a) (hs : s.step a = some t) : t.Agrees := by
  cases a with
  | construct cb name created =>
    cases created with
    | none =>
      cases hs
      exact h
    | some tid =>
      cases hs
      constructor
      · exact List.forall_mem_append.mpr
          ⟨h.slots, List.forall_mem_singleton.mpr (Slot.Agrees.new cb name tid)⟩
      · exact h.ids.imp fun i id => tid_append
  | act i act =>
    obtain ⟨slot, hi, hs⟩ := Option.bind_eq_some_iff.mp hs
    obtain ⟨slot', hslot, rfl⟩ := Option.map_eq_some_iff.mp hs
    have hagrees := (h.slots slot (List.mem_of_getElem? hi)).step (ha slot hi) hslot
    constructor
    · exact forall_mem_set h.slots hagrees
    · apply h.ids.imp
      intro j id hj
      rw [tid_set hi (Slot.step_tid hslot)]
      exact hj
  | pushId i =>
    obtain ⟨slot, hi, hs⟩ := Option.bind_eq_some_iff.mp hs
    obtain ⟨hmade, hs⟩ := Option.ite_none_right_eq_some.mp hs
    cases hs
    have hserved := (h.slots slot (List.mem_of_getElem? hi)).served
    have hid := (hserved.ready (by rw [hmade]; exact Life.noConfusion)).1
    have htid : s.tid i = some slot.object.m_id := by
      rw [tid, hi, hid]
      rfl
    exact ⟨h.slots, List.rel_append h.ids (.cons htid .nil)⟩

theorem Agrees.init : Agrees ({} : System C) where
  slots _ h := by cases h
  ids := .nil

end System

/-- In every run in which no `sem_wait` of a constructor is interrupted and no callback calls
`SetName` after the end of its object, no object is used after its end, a constructor returns
when the id is set and the callback taken, each callback is called once, `join` returns when the
thread has ended, and `m_threadIds` of the scheduler are the ids of its threads. -/
theorem threads_served (as : List (System.Step C))
    (h : Guarded System.step System.Proper ({} : System C) as) :
    Along System.step System.Served ({} : System C) as := by
  apply along_of_guarded (I := System.Agrees) ?_ ?_ .init h
  · intro s a t hs ha ht
    exact hs.step ha ht
  · intro s hs
    exact hs.served

/-- A thread is started, given a name by its callback, joined and destroyed. -/
def wholeLife : List (System.Step Nat) :=
  [.construct 3 "worker" (some 7)] ++ List.replicate 6 (.act 0 .run) ++
    [.act 0 (.wait true), .pushId 0, .act 0 .run, .act 0 (.setName "busy"), .act 0 .run,
      .act 0 .join, .act 0 .destroy]

/-- A thread from its constructor to its destructor. -/
theorem threads_served_wholeLife : Along System.step System.Served {} wholeLife := by
  have h : Guarded System.step System.Proper {} wholeLife := by decide +kernel
  exact threads_served wholeLife h

/-- The steps of one object and its thread are steps of the process. -/
theorem System.run_act {s : System C} {i : Nat} {slot slot' : Slot C} {acts : List Act}
    (hi : s.slots[i]? = some slot) (hr : run Slot.step slot acts = some slot') :
    ∃ t, run System.step s (acts.map (.act i)) = some t ∧ t.slots[i]? = some slot' := by
  induction acts generalizing s slot with
  | nil =>
    cases hr
    exact ⟨s, rfl, hi⟩
  | cons a acts ih =>
    obtain ⟨next, hnext, hr⟩ := run_cons_eq_some.mp hr
    have hlt := (List.getElem?_eq_some_iff.mp hi).1
    have hs : s.step (.act i a) = some { s with slots := s.slots.set i next } := by
      simp only [System.step, hi, Option.bind_some, hnext, Option.map_some]
    have hi' : (s.slots.set i next)[i]? = some next := List.getElem?_set_self hlt
    obtain ⟨t, ht, hslot⟩ := ih (s := { s with slots := s.slots.set i next }) hi' hr
    exact ⟨t, run_cons_eq_some.mpr ⟨_, hs, ht⟩, hslot⟩

/-- No thread hangs: in every state of such a run, each object that has not come to its end gets,
by its own steps and those of its thread, to where its constructor has returned, its callback has
been called once, its thread has ended and it has been joined. -/
theorem threads_complete (as : List (System.Step C)) {s : System C}
    (h : Guarded System.step System.Proper ({} : System C) as)
    (hr : run System.step {} as = some s) {i : Nat} {slot : Slot C}
    (hi : s.slots[i]? = some slot) (hlife : slot.life ≠ .gone) :
    ∃ (acts : List Act) (t : System C) (slot' : Slot C),
      run System.step s (acts.map (.act i)) = some t ∧ t.slots[i]? = some slot' ∧
        slot'.life = .made ∧ slot'.object.m_thread = false ∧ slot'.thread.pc = .ended ∧
          slot'.thread.called = [slot.given] := by
  have hagrees : s.Agrees :=
    run_invariant_of_guarded (fun s a t hs ha ht => hs.step ha ht) .init h hr
  obtain ⟨acts, slot', hslot, hslotAgrees, hmade, hjoined, hgiven⟩ :=
    (hagrees.slots slot (List.mem_of_getElem? hi)).completes hlife
  obtain ⟨t, ht, hti⟩ := System.run_act hi hslot
  have hended := hslotAgrees.joined hjoined
  refine ⟨acts, t, slot', ht, hti, hmade, hjoined, hended, ?_⟩
  have hcalled := hslotAgrees.called
  rw [hended, hgiven] at hcalled
  exact hcalled

/-- A thread that has just been created. -/
def justCreated : System Nat where
  slots := [{ object := .new 3 "worker", thread := { tid := 7 }, given := 3 }]

/-- A thread that has just been created. -/
theorem threads_complete_justCreated :
    ∃ (acts : List Act) (t : System Nat) (slot : Slot Nat),
      run System.step justCreated (acts.map (.act 0)) = some t ∧ t.slots[0]? = some slot ∧
        slot.life = .made ∧ slot.object.m_thread = false ∧ slot.thread.pc = .ended ∧
          slot.thread.called = [3] := by
  have h : Guarded System.step System.Proper {} [.construct 3 "worker" (some 7)] := by
    decide +kernel
  have hi : justCreated.slots[0]? =
      some { object := .new 3 "worker", thread := { tid := 7 }, given := 3 } := rfl
  exact threads_complete [.construct 3 "worker" (some 7)] h rfl hi Life.noConfusion

/-! ## Objects that are used after their end -/

/-- `sem_wait` is interrupted, and the new thread reads the name of an object that is gone. -/
def interruptedWait : List (System.Step Nat) :=
  [.construct 3 "worker" (some 7), .act 0 (.wait false), .act 0 .run, .act 0 .run]

/-- The owner destroys the object, and the callback sets its name. -/
def detachedThread : List (System.Step Nat) :=
  [.construct 3 "worker" (some 7)] ++ List.replicate 6 (.act 0 .run) ++
    [.act 0 (.wait true), .act 0 .destroy, .act 0 .run, .act 0 (.setName "busy")]

/-- A run that uses an object after its end. -/
theorem not_served_of_dangling {as : List (System.Step C)}
    (h : (run System.step ({} : System C) as).map (fun s => s.slots.map Slot.dangling) =
      some [true]) : ¬ Along System.step System.Served ({} : System C) as := by
  intro hserved
  obtain ⟨s, hs, hslots⟩ := Option.map_eq_some_iff.mp h
  have hmem : true ∈ s.slots.map Slot.dangling := by
    rw [hslots]
    exact List.mem_singleton_self true
  obtain ⟨slot, hslot, hdangling⟩ := List.mem_map.mp hmem
  rw [((hserved.of_run hs).slots slot hslot).safe] at hdangling
  cases hdangling

/-- An interrupted wait lets the object end too early. -/
theorem not_served_interruptedWait :
    ¬ Along System.step System.Served {} interruptedWait := by
  apply not_served_of_dangling
  decide +kernel

/-- So does a detached thread that sets its name. -/
theorem not_served_detachedThread :
    ¬ Along System.step System.Served {} detachedThread := by
  apply not_served_of_dangling
  decide +kernel

end Xupeng.Thread
