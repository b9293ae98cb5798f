import Mathlib.Algebra.Group.Nat.Defs
import Xupeng.Core.History
import Xupeng.Models.Timer.Interpretation.Operations

/-!
# Deadlines and the clock

The history of a run has the latest clock reading, the time at which each timer was
last armed, the earliest deadline that the last `getNextTimer` has seen, and whether
`onTimerInsertedAtFront` has been called since.

As long as the clock does not go back and no deadline passes the end of the 64-bit
range, a pending timer's deadline is its arming time plus its period, and the arming
time is not in the future.
-/

namespace Xupeng.TimerManager

variable {C : Type} {m t : TimerManager C} {op : Op C}

/-! ## The history -/

/-- The clock reading of an operation. -/
def Op.reading : Op C → Option UInt64
  | .addTimer _ now _ _ _ | .refresh _ now | .listExpiredCb _ now | .getNextTimer now => some now
  | .reset _ _ from_now now => if from_now then some now else none
  | .cancel _ => none

/-- The timers that an operation arms at its clock reading. -/
def arms (m : TimerManager C) : Op C → List Nat
  | .addTimer .. => [m.heap.length]
  | .refresh p _ => [p]
  | .reset p _ from_now _ => if from_now then [p] else []
  | .listExpiredCb addr now => m.expired addr now
  | .cancel _ | .getNextTimer _ => []

/-- What has been observed of the clock and of the deadlines. -/
structure Watch where
  /-- The latest clock reading. -/
  clock : UInt64
  /-- When each timer was armed last. -/
  armed : Nat → UInt64
  /-- The earliest deadline at the last `getNextTimer`; none for infinity. -/
  seen : Option UInt64
  /-- Since then a step has called `onTimerInsertedAtFront`, or is about to. -/
  notified : Bool

namespace Watch

/-- At the construction of the manager. -/
def start (now : UInt64) : Watch := ⟨now, fun _ => 0, none, false⟩

/-- The observations after an operation on `m`. -/
def record (m : TimerManager C) (op : Op C) (_ : TimerManager C) (h : Watch) : Watch where
  clock := op.reading.getD h.clock
  armed q := if q ∈ m.arms op then op.reading.getD h.clock else h.armed q
  seen :=
    match op with
    | .getNextTimer _ => m.timers.head?.map fun p => (m.deref p).next
    | _ => h.seen
  notified :=
    match op with
    | .getNextTimer _ => false
    | op => h.notified || m.notifies op

end Watch

/-- The clock does not go back. -/
def Forward (x : TimerManager C × Watch) (op : Op C) : Prop :=
  ∀ now ∈ op.reading, x.2.clock ≤ now

/-- No deadline that the operation computes passes the end of the 64-bit range. -/
def NoWrap (x : TimerManager C × Watch) : Op C → Prop
  | .addTimer _ now ms _ _ => now.toNat + ms.toNat < 2 ^ 64
  | .refresh p now => (x.1.deref p).cb.isSome → now.toNat + (x.1.deref p).ms.toNat < 2 ^ 64
  | .reset p ms from_now now => (x.1.deref p).cb.isSome →
      (if from_now then now else (x.1.deref p).next - (x.1.deref p).ms).toNat + ms.toNat < 2 ^ 64
  | .listExpiredCb _ now => ∀ p ∈ x.1.timers, (x.1.deref p).recurring = true →
      (x.1.deref p).next ≤ now → now.toNat + (x.1.deref p).ms.toNat < 2 ^ 64
  | .cancel _ | .getNextTimer _ => True

instance (x : TimerManager C × Watch) (op : Op C) : Decidable (Forward x op) :=
  inferInstanceAs (Decidable (∀ now ∈ op.reading, x.2.clock ≤ now))

instance (x : TimerManager C × Watch) (op : Op C) : Decidable (NoWrap x op) := by
  cases op <;> simp only [NoWrap] <;> infer_instance

/-! ## Expired timers -/

/-- Without a rollover, a timer expires only after its deadline. -/
theorem Ordered.next_le_of_mem_expired {addr p : Nat} {now : UInt64} {held : List Nat}
    (h : m.Ordered held) (hp : p ∈ m.expired addr now) (hroll : m.previouseTime ≤ now) :
    (m.deref p).next ≤ now := by
  have hnot : (m.detectClockRollover now).2 = false := by
    simp [detectClockRollover, UInt64.not_lt.mpr hroll]
  rcases (h.mem_expired_iff.mp hp).2 with hyes | hnext
  · rw [hnot] at hyes
    cases hyes
  · exact hnext

/-! ## Armed timers -/

/-- How a timer comes to have a callback after an operation, and what it then is: the operation has
left it alone or armed it. -/
inductive Armed (m : TimerManager C) (p : Nat) : Op C → Timer C → Prop
  | kept {op : Op C} (hcb : (m.deref p).cb.isSome) (harms : p ∉ m.arms op) :
    Armed m p op (m.deref p)
  | made {addr : Nat} {now ms : UInt64} {cb : C} {recurring : Bool} (hp : p = m.heap.length) :
    Armed m p (.addTimer addr now ms cb recurring) ⟨recurring, ms, now + ms, some cb, addr⟩
  | refreshed {now : UInt64} (hcb : (m.deref p).cb.isSome) :
    Armed m p (.refresh p now) { m.deref p with next := now + (m.deref p).ms }
  | reset {ms : UInt64} {from_now : Bool} {now : UInt64} (hcb : (m.deref p).cb.isSome) :
    Armed m p (.reset p ms from_now now) (rearmed ms from_now now (m.deref p))
  | fired {addr : Nat} {now : UInt64} (hexp : p ∈ m.expired addr now)
    (hrec : (m.deref p).recurring = true) :
    Armed m p (.listExpiredCb addr now) { m.deref p with next := now + (m.deref p).ms }

/-- A timer that is armed after a call was armed by it or before. -/
theorem armed_outcome {p : Nat} (hp : (m.outcome p op).cb.isSome) :
    Armed m p op (m.outcome p op) := by
  cases op with
  | addTimer addr now ms cb recurring =>
    simp only [outcome] at hp ⊢
    split at hp
    · rename_i hpl
      rw [if_pos hpl]
      exact .made hpl
    · rename_i hpl
      rw [if_neg hpl]
      exact .kept hp fun hmem => hpl (List.mem_singleton.mp hmem)
  | cancel q =>
    simp only [outcome] at hp ⊢
    split at hp
    · cases hp
    · rename_i hpq
      rw [if_neg hpq]
      exact .kept hp List.not_mem_nil
  | refresh q now =>
    simp only [outcome] at hp ⊢
    split at hp
    · rename_i hpq
      obtain ⟨rfl, hcb⟩ := hpq
      rw [if_pos ⟨rfl, hcb⟩]
      exact .refreshed hcb
    · rename_i hpq
      rw [if_neg hpq]
      exact .kept hp fun hmem => hpq ⟨List.mem_singleton.mp hmem, hp⟩
  | reset q ms from_now now =>
    simp only [outcome] at hp ⊢
    split at hp
    · rename_i hpq
      obtain ⟨rfl, hcb⟩ := hpq
      rw [if_pos ⟨rfl, hcb⟩]
      exact .reset hcb
    · rename_i hpq
      rw [if_neg hpq]
      refine .kept hp fun hmem => hpq ⟨?_, hp⟩
      simp only [arms] at hmem
      split at hmem
      · exact List.mem_singleton.mp hmem
      · cases hmem
  | listExpiredCb addr now =>
    simp only [outcome] at hp ⊢
    split at hp
    · rename_i hexp
      rw [if_pos hexp]
      unfold TimerManager.fired at hp ⊢
      split at hp
      · rename_i hrec
        rw [if_pos hrec]
        exact .fired hexp hrec
      · cases hp
    · rename_i hexp
      rw [if_neg hexp]
      exact .kept hp hexp
  | getNextTimer now => exact .kept hp List.not_mem_nil

/-! ## The invariant -/

/-- Every pending timer is due one period after it was armed, and was not armed in the future. -/
structure Timed (x : TimerManager C × Watch) : Prop where
  sound : x.1.Sound []
  previous : x.1.previouseTime ≤ x.2.clock
  deadline : ∀ p, (x.1.deref p).cb.isSome →
    (x.1.deref p).next.toNat = (x.2.armed p).toNat + (x.1.deref p).ms.toNat
  past : ∀ p, (x.1.deref p).cb.isSome → x.2.armed p ≤ x.2.clock

theorem Timed.start (now : UInt64) : Timed ((new now : TimerManager C), Watch.start now) where
  sound := new_sound now
  previous := UInt64.le_refl now
  deadline := by simp [new, deref]
  past := by simp [new, deref]

variable {h : Watch}

/-- What the operation does to a pending timer, under the conditions on the clock. -/
theorem Timed.outcome (hx : Timed (m, h)) (hw : NoWrap (m, h) op) (hf : Forward (m, h) op)
    {p : Nat} (hp : (m.outcome p op).cb.isSome) :
    (m.outcome p op).next.toNat =
        ((Watch.record m op t h).armed p).toNat + (m.outcome p op).ms.toNat ∧
      (Watch.record m op t h).armed p ≤ (Watch.record m op t h).clock := by
  -- a timer that the operation leaves alone
  have hsame (hcb : (m.deref p).cb.isSome) (harmed : p ∉ m.arms op) :
      (m.deref p).next.toNat =
          ((Watch.record m op t h).armed p).toNat + (m.deref p).ms.toNat ∧
        (Watch.record m op t h).armed p ≤ (Watch.record m op t h).clock := by
    have hclock : h.clock ≤ (Watch.record m op t h).clock := by
      dsimp only [Watch.record]
      cases hr : op.reading with
      | none => exact UInt64.le_refl _
      | some now => exact hf now hr
    have harm : (Watch.record m op t h).armed p = h.armed p := if_neg harmed
    rw [harm]
    exact ⟨hx.deadline p hcb, UInt64.le_trans (hx.past p hcb) hclock⟩
  -- a timer that the operation arms at its clock reading
  have hnew {now ms : UInt64} (harmed : p ∈ m.arms op) (hr : op.reading = some now)
      (hlt : now.toNat + ms.toNat < 2 ^ 64) :
      (now + ms).toNat = ((Watch.record m op t h).armed p).toNat + ms.toNat ∧
        (Watch.record m op t h).armed p ≤ (Watch.record m op t h).clock := by
    have harm : (Watch.record m op t h).armed p = now := by
      dsimp only [Watch.record]
      rw [if_pos harmed, hr]
      rfl
    have hclock : (Watch.record m op t h).clock = now := by
      dsimp only [Watch.record]
      rw [hr]
      rfl
    rw [harm, hclock, UInt64.toNat_add, Nat.mod_eq_of_lt hlt]
    exact ⟨rfl, UInt64.le_refl now⟩
  have harmed := armed_outcome hp
  generalize m.outcome p op = timer at harmed ⊢
  cases harmed with
  | kept hcb harms => exact hsame hcb harms
  | made hpl => exact hnew (List.mem_singleton.mpr hpl) rfl hw
  | refreshed hcb => exact hnew (List.mem_singleton.mpr rfl) rfl (hw hcb)
  | @reset ms from_now now hcb =>
    have hlt := hw hcb
    cases from_now with
    | true => exact hnew (List.mem_singleton.mpr rfl) rfl hlt
    | false =>
      -- the old deadline less the old period is the time of the arming
      have hdeadline := hx.deadline p hcb
      have hstart : (m.deref p).next - (m.deref p).ms = h.armed p := by
        refine UInt64.toNat_inj.mp ?_
        have hle : (m.deref p).ms ≤ (m.deref p).next := by
          rw [UInt64.le_iff_toNat_le]
          dsimp only at hdeadline
          omega
        rw [UInt64.toNat_sub_of_le _ _ hle]
        dsimp only at hdeadline
        omega
      simp only [rearmed, Bool.false_eq_true, if_false] at hlt ⊢
      rw [hstart] at hlt ⊢
      refine ⟨?_, hx.past p hcb⟩
      rw [UInt64.toNat_add, Nat.mod_eq_of_lt hlt]
      rfl
  | @fired addr now hexp hrec =>
    have hnext : (m.deref p).next ≤ now :=
      hx.sound.ordered.next_le_of_mem_expired hexp (UInt64.le_trans hx.previous (hf now rfl))
    exact hnew hexp rfl (hw p (mem_timers_of_mem_expired hexp) hrec hnext)

/-- Every operation under the conditions on the clock keeps the deadlines right. -/
theorem Timed.step (hx : Timed (m, h)) (hf : Forward (m, h) op) (hw : NoWrap (m, h) op)
    (hs : m.step op = some t) : Timed (t, Watch.record m op t h) := by
  have hderef (q : Nat) : t.deref q = m.outcome q op := hx.sound.deref_step hs q
  refine ⟨hx.sound.step hs, ?_, fun p hp => ?_, fun p hp => ?_⟩
  · have hold : m.previouseTime ≤ h.clock := hx.previous
    rcases (step_frame hs).previouseTime with heq | ⟨addr, now, rfl, heq⟩
    · dsimp only [Watch.record]
      rw [heq]
      cases hr : op.reading with
      | none => exact hold
      | some now => exact UInt64.le_trans hold (hf now hr)
    · exact UInt64.le_of_eq heq
  · dsimp only at hp ⊢
    rw [hderef] at hp ⊢
    exact (hx.outcome hw hf hp).1
  · dsimp only at hp ⊢
    rw [hderef] at hp
    exact (hx.outcome hw hf hp).2

end Xupeng.TimerManager
