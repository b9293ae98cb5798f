import Xupeng.Core.History
import Xupeng.Models.Timer.Interpretation.Operations

/-!
# Callbacks are delivered at most once

The history of a run has the callbacks that were given to `addTimer`, and in order
what `listExpiredCb` has output and which timers were cancelled. A timer that has
fired for good or was cancelled has no callback, no operation gives it one again,
and only timers that have one are in the set.
-/

namespace Xupeng.TimerManager

variable {C : Type} {m t : TimerManager C} {op : Op C}

/-- What is observed of the deliveries. -/
inductive Event (C : Type)
  /-- `listExpiredCb` has taken these timers out of the set, and has output these functions. -/
  | output (timers : List Nat) (cbs : List (Option C))
  /-- `cancel` of this timer has returned true. -/
  | cancelled (timer : Nat)
  deriving DecidableEq, Repr

/-- The timers whose callbacks the event delivers. -/
def Event.delivered : Event C → List Nat
  | .output timers _ => timers
  | .cancelled _ => []

/-- What a run has delivered. -/
structure Deliveries (C : Type) where
  /-- The callbacks that were given to `addTimer`, one for each timer. -/
  callbacks : List C
  events : List (Event C)
  deriving DecidableEq, Repr

namespace Deliveries

def empty : Deliveries C := ⟨[], []⟩

/-- The deliveries after an operation on `m`. -/
def record (m : TimerManager C) (op : Op C) (_ : TimerManager C) (h : Deliveries C) :
    Deliveries C :=
  match op with
  | .addTimer _ _ _ cb _ => { h with callbacks := h.callbacks ++ [cb] }
  | .cancel p =>
    match m.cancel p with
    | some (_, true) => { h with events := h.events ++ [.cancelled p] }
    | _ => h
  | .listExpiredCb addr now =>
    let output := .output (m.expired addr now) (m.listExpiredCb addr now).2
    { h with events := h.events ++ [output] }
  | _ => h

/-- All deliveries, in order. -/
def delivered (events : List (Event C)) : List Nat := events.flatMap Event.delivered

end Deliveries

/-- At most one delivery for a timer that does not recur, none after it was cancelled, and each
output has the callbacks of different timers. -/
structure AtMostOnce (x : TimerManager C × Deliveries C) : Prop where
  oneShot : ∀ p, (x.1.deref p).recurring = false →
    (Deliveries.delivered x.2.events).count p ≤ 1
  cancelled : ∀ before p after, x.2.events = before ++ .cancelled p :: after →
    p ∉ Deliveries.delivered after
  output : ∀ ps cbs, .output ps cbs ∈ x.2.events →
    ps.Nodup ∧ (∀ p ∈ ps, p < x.2.callbacks.length) ∧ cbs = ps.map fun p => x.2.callbacks[p]?

/-! ## The invariant -/

/-- What the history and the timers have to do with each other. -/
structure Delivered (x : TimerManager C × Deliveries C) : Prop where
  sound : x.1.Sound []
  length : x.2.callbacks.length = x.1.heap.length
  callbacks : ∀ p c, (x.1.deref p).cb = some c → x.2.callbacks[p]? = some c
  /-- A timer that does not recur has been delivered once or is still pending. -/
  oneShot : ∀ p, (x.1.deref p).recurring = false →
    (Deliveries.delivered x.2.events).count p + (x.1.deref p).cb.toList.length ≤ 1
  dead : ∀ p, .cancelled p ∈ x.2.events → p < x.1.heap.length ∧ (x.1.deref p).cb = none
  cancelled : ∀ before p after, x.2.events = before ++ .cancelled p :: after →
    p ∉ Deliveries.delivered after
  output : ∀ ps cbs, .output ps cbs ∈ x.2.events →
    ps.Nodup ∧ (∀ p ∈ ps, p < x.2.callbacks.length) ∧ cbs = ps.map fun p => x.2.callbacks[p]?

namespace Delivered

variable {h : Deliveries C}

theorem new (now : UInt64) : Delivered ((TimerManager.new now : TimerManager C), .empty) where
  sound := new_sound now
  length := rfl
  callbacks := by simp [TimerManager.new, deref]
  oneShot := by simp [TimerManager.new, deref, Deliveries.delivered, Deliveries.empty]
  dead := nofun
  cancelled before p after heq := by simp [Deliveries.empty] at heq
  output := nofun

/-- A timer delivers once, and not after it was cancelled. -/
theorem atMostOnce {x : TimerManager C × Deliveries C} (hx : Delivered x) : AtMostOnce x where
  oneShot p hp := Nat.le_trans (Nat.le_add_right _ _) (hx.oneShot p hp)
  cancelled := hx.cancelled
  output := hx.output

/-- What has been delivered is a timer that was made. -/
theorem lt_length (hx : Delivered (m, h)) {p : Nat} (hp : p ∈ Deliveries.delivered h.events) :
    p < m.heap.length := by
  obtain ⟨e, he, hpe⟩ := List.mem_flatMap.mp hp
  cases e with
  | output ps cbs => exact hx.length ▸ (hx.output ps cbs he).2.1 p hpe
  | cancelled q => cases hpe

/-- Nothing is observed, and callbacks are only taken away. -/
theorem keep (hx : Delivered (m, h)) (hsound : t.Sound [])
    (hlen : t.heap.length = m.heap.length)
    (hrec : ∀ q, (t.deref q).recurring = (m.deref q).recurring)
    (hcb : ∀ q, (t.deref q).cb = (m.deref q).cb ∨ (t.deref q).cb = none) : Delivered (t, h) where
  sound := hsound
  length := hx.length.trans hlen.symm
  callbacks p c hc := by
    rcases hcb p with heq | hnone
    · exact hx.callbacks p c (heq ▸ hc)
    · rw [hnone] at hc
      cases hc
  oneShot p hp := by
    have hold : (Deliveries.delivered h.events).count p + (m.deref p).cb.toList.length ≤ 1 :=
      hx.oneShot p (hrec p ▸ hp)
    rcases hcb p with heq | hnone
    · simpa only [heq] using hold
    · simp only [hnone, Option.toList_none, List.length_nil]
      omega
  dead p hp := by
    obtain ⟨hlt, hnone⟩ := hx.dead p hp
    refine ⟨hlen ▸ hlt, ?_⟩
    rcases hcb p with heq | hnone'
    · exact heq.trans hnone
    · exact hnone'
  cancelled := hx.cancelled
  output := hx.output

/-- A timer is made. -/
theorem addTimer (hx : Delivered (m, h)) {addr : Nat} {now ms : UInt64} {cb : C}
    {recurring : Bool} (hs : m.step (.addTimer addr now ms cb recurring) = some t)
    (hlen : t.heap.length = m.heap.length + 1) :
    Delivered (t, { h with callbacks := h.callbacks ++ [cb] }) := by
  have hderef (q : Nat) := hx.sound.deref_step hs q
  have hlength : h.callbacks.length = m.heap.length := hx.length
  -- the timers that exist are as before
  have hold {q : Nat} (hq : q ≠ m.heap.length) : t.deref q = m.deref q := by
    rw [hderef, outcome, if_neg hq]
  have hnew : t.deref m.heap.length = ⟨recurring, ms, now + ms, some cb, addr⟩ := by
    rw [hderef, outcome, if_pos rfl]
  refine ⟨hx.sound.step hs, ?_, fun p c hc => ?_, fun p hp => ?_, fun p hp => ?_, hx.cancelled,
    fun ps cbs hmem => ?_⟩
  · simp [hlength, hlen]
  · by_cases hp : p = m.heap.length
    · dsimp only at hc ⊢
      rw [hp, hnew] at hc
      rw [hp, ← hlength, List.getElem?_concat_length]
      exact hc
    · have hc' : (m.deref p).cb = some c := by rwa [← hold hp]
      have hlt : p < h.callbacks.length := by
        rw [hlength]
        exact lt_length_of_isSome_cb (by rw [hc']; rfl)
      rw [List.getElem?_append_left hlt]
      exact hx.callbacks p c hc'
  · by_cases hpl : p = m.heap.length
    · have hnot : p ∉ Deliveries.delivered h.events := fun hmem =>
        Nat.ne_of_lt (hx.lt_length hmem) hpl
      dsimp only
      rw [List.count_eq_zero.mpr hnot, hpl, hnew]
      exact Nat.le_refl 1
    · rw [hold hpl] at hp ⊢
      exact hx.oneShot p hp
  · obtain ⟨hlt, hnone⟩ := hx.dead p hp
    refine ⟨by rw [hlen]; exact Nat.lt_succ_of_lt hlt, ?_⟩
    rw [hold (Nat.ne_of_lt hlt)]
    exact hnone
  · obtain ⟨hnodup, hlt, hcbs⟩ := hx.output ps cbs hmem
    refine ⟨hnodup, fun p hp => ?_, ?_⟩
    · rw [List.length_append]
      exact Nat.lt_of_lt_of_le (hlt p hp) (Nat.le_add_right _ _)
    · rw [hcbs]
      refine List.map_congr_left fun p hp => ?_
      exact (List.getElem?_append_left (hlt p hp)).symm

/-- The event at the end of a list, or one before. -/
theorem append_eq_append_cons {e e' : Event C} {events before after : List (Event C)}
    (h : events ++ [e] = before ++ e' :: after) :
    after = [] ∧ e' = e ∨ ∃ after', after = after' ++ [e] ∧ events = before ++ e' :: after' := by
  rcases List.eq_nil_or_concat after with rfl | ⟨after', e'', rfl⟩
  · obtain ⟨-, heq⟩ := List.append_inj' h rfl
    exact Or.inl ⟨rfl, (List.singleton_inj.mp heq).symm⟩
  · rw [List.concat_eq_append, ← List.cons_append, ← List.append_assoc] at h
    obtain ⟨hevents, heq⟩ := List.append_inj' h rfl
    refine Or.inr ⟨after', ?_, hevents⟩
    rw [List.concat_eq_append, ← List.singleton_inj.mp heq]

/-- A timer that has no callback any more was cancelled. -/
theorem cancel (hx : Delivered (t, h)) {p : Nat} (hlt : p < t.heap.length)
    (hnone : (t.deref p).cb = none) :
    Delivered (t, { h with events := h.events ++ [.cancelled p] }) := by
  have hdelivered : Deliveries.delivered (h.events ++ [.cancelled p]) =
      Deliveries.delivered h.events := by
    simp [Deliveries.delivered, Event.delivered]
  refine ⟨hx.sound, hx.length, hx.callbacks, fun q hq => ?_, fun q hq => ?_,
    fun before q after heq => ?_, fun ps cbs hmem => ?_⟩
  · rw [hdelivered]
    exact hx.oneShot q hq
  · rcases List.mem_append.mp hq with hold | hlast
    · exact hx.dead q hold
    · cases List.mem_singleton.mp hlast
      exact ⟨hlt, hnone⟩
  · rcases append_eq_append_cons heq with ⟨rfl, -⟩ | ⟨after', rfl, hevents⟩
    · exact List.not_mem_nil
    · have hnot := hx.cancelled before q after' hevents
      simpa [Deliveries.delivered, Event.delivered] using hnot
  · rcases List.mem_append.mp hmem with hold | hlast
    · exact hx.output ps cbs hold
    · cases List.mem_singleton.mp hlast

/-- The callbacks of timers that had one are output; those that do not recur have none after. -/
theorem expire (hx : Delivered (m, h)) {addr : Nat} {now : UInt64} :
    Delivered ((m.listExpiredCb addr now).1, { h with
      events := h.events ++ [.output (m.expired addr now) (m.listExpiredCb addr now).2] }) := by
  have hstep : m.step (.listExpiredCb addr now) = some (m.listExpiredCb addr now).1 := rfl
  have hnot : ¬ Op.Makes (.listExpiredCb addr now : Op C) := id
  have hcb (q : Nat) := outcome_cb m hnot q
  have hderef (q : Nat) := hx.sound.deref_step hstep q
  have hkeep : Delivered ((m.listExpiredCb addr now).1, h) :=
    hx.keep (hx.sound.step hstep) ((step_frame hstep).heap hnot)
      (fun q => by rw [hderef]; exact (hcb q).1) fun q => by rw [hderef]; exact (hcb q).2
  have hsome {q : Nat} (hq : q ∈ m.expired addr now) : (m.deref q).cb.isSome :=
    hx.sound.mem_iff.mp (mem_timers_of_mem_expired hq)
  have hnodup : (m.expired addr now).Nodup :=
    hx.sound.increasing.nodup.sublist (List.take_sublist _ _)
  refine ⟨hkeep.sound, hkeep.length, hkeep.callbacks, fun q hq => ?_, fun q hq => ?_,
    fun before q after heq => ?_, fun ps cbs hmem => ?_⟩
  · have hdelivered : Deliveries.delivered
        (h.events ++ [.output (m.expired addr now) (m.listExpiredCb addr now).2]) =
        Deliveries.delivered h.events ++ m.expired addr now := by
      simp [Deliveries.delivered, Event.delivered]
    rw [hdelivered, List.count_append]
    by_cases hmem : q ∈ m.expired addr now
    · -- it was pending before, and has no callback now
      have hq' : (m.deref q).recurring = false := by
        rw [← (hcb q).1, ← hderef]
        exact hq
      have hold := hx.oneShot q hq'
      obtain ⟨c, hc⟩ := Option.isSome_iff_exists.mp (hsome hmem)
      have hnone : ((m.listExpiredCb addr now).1.deref q).cb = none := by
        rw [hderef, outcome, if_pos hmem, fired, if_neg (by rw [hq']; exact Bool.false_ne_true)]
      simp only [hc, Option.toList_some, List.length_singleton] at hold
      simp only [hnone, Option.toList_none, List.length_nil]
      have hone := List.nodup_iff_count_le_one.mp hnodup q
      omega
    · have hold := hkeep.oneShot q hq
      simp only [List.count_eq_zero.mpr hmem]
      omega
  · rcases List.mem_append.mp hq with hold | hlast
    · exact hkeep.dead q hold
    · cases List.mem_singleton.mp hlast
  · rcases append_eq_append_cons heq with ⟨-, hlast⟩ | ⟨after', rfl, hevents⟩
    · cases hlast
    · have hnot := hx.cancelled before q after' hevents
      have hmem : .cancelled q ∈ h.events := by
        rw [hevents]
        exact List.mem_append_right _ List.mem_cons_self
      have hnow : q ∉ m.expired addr now := by
        intro hexp
        have hc := hsome hexp
        rw [(hx.dead q hmem).2] at hc
        cases hc
      simp only [Deliveries.delivered, List.flatMap_append, List.mem_append] at hnot ⊢
      rintro (hold | hlast)
      · exact hnot hold
      · exact hnow (by simpa [Event.delivered] using hlast)
  · rcases List.mem_append.mp hmem with hold | hlast
    · exact hx.output ps cbs hold
    · cases List.mem_singleton.mp hlast
      have hcall {q : Nat} (hq : q ∈ m.expired addr now) :
          (m.deref q).cb = h.callbacks[q]? := by
        obtain ⟨c, hc⟩ := Option.isSome_iff_exists.mp (hsome hq)
        rw [hc]
        exact (hx.callbacks q c hc).symm
      refine ⟨hnodup, fun q hq => ?_, ?_⟩
      · rw [show h.callbacks.length = m.heap.length from hx.length]
        exact lt_length_of_isSome_cb (hsome hq)
      · rw [hx.sound.ordered.listExpiredCb_cbs]
        exact List.map_congr_left fun q hq => hcall hq

/-- Every operation keeps the history in step with the timers. -/
theorem step (hx : Delivered (m, h)) (hs : m.step op = some t) :
    Delivered (t, Deliveries.record m op t h) := by
  have hderef (q : Nat) := hx.sound.deref_step hs q
  have hkeep (hop : ¬ op.Makes) : Delivered (t, h) :=
    hx.keep (hx.sound.step hs) ((step_frame hs).heap hop)
      (fun q => by rw [hderef]; exact (outcome_cb m hop q).1)
      fun q => by rw [hderef]; exact (outcome_cb m hop q).2
  cases op with
  | addTimer addr now ms cb recurring =>
    refine hx.addTimer hs ?_
    obtain ⟨-, rfl⟩ := of_step_addTimer hs
    obtain ⟨timers, hadd⟩ := addTimer_with addr now ms (some cb) recurring m
    rw [hadd]
    exact List.length_append
  | cancel p =>
    simp only [Deliveries.record]
    split
    · rename_i m' hcancel
      have hsome : (m.deref p).cb.isSome := by
        by_contra hnone
        rw [cancel_of_isNone (Bool.eq_false_iff.mpr hnone)] at hcancel
        cases hcancel
      have hlen : t.heap.length = m.heap.length := (step_frame hs).heap id
      refine (hkeep id).cancel ?_ ?_
      · rw [hlen]
        exact lt_length_of_isSome_cb hsome
      · rw [hderef, outcome, if_pos rfl]
    · exact hkeep id
  | refresh p now | reset p ms from_now now | getNextTimer now => exact hkeep id
  | listExpiredCb addr now =>
    cases hs
    exact hx.expire

end Delivered

/-- Whatever the operations and their clock readings, callbacks are delivered at most once for a
timer that does not recur, not after the timer was cancelled, and once in each output. -/
theorem delivered_at_most_once (now : UInt64) (ops : List (Op C)) :
    Along (recorded step Deliveries.record) AtMostOnce (new now, .empty) ops :=
  along_of_invariant (I := Delivered)
    (fun _ _ _ hx hr => of_recorded hr fun _ hs => hx.step hs) (fun _ hx => hx.atMostOnce)
    (.new now) ops

end Xupeng.TimerManager
