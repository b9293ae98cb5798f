import Xupeng.Core.History
import Xupeng.Models.Hook.Interpretation.Calls
import Xupeng.Models.Hook.Interpretation.Steps
import Xupeng.Models.Timer.Interpretation.Clock

/-!
# What the original functions have answered

The history of a run has, for each fiber, the last hooked call that came to its loop:
what the original function returned each time it was called there, when the first timer
of the call was armed, whether `epoll_ctl` has refused its event, and what the hooked
function returned to the program.
-/

namespace Xupeng.Hook

/-- The original function has to be called again: it was interrupted, or it would block. -/
def Again (r : Ret) : Prop := r.value = -1 ∧ (r.errno = some EINTR ∨ r.errno = some EAGAIN)

/-- A hooked call that has come to its loop. -/
structure Transfer where
  wait : Wait
  /-- What the original function has returned, call by call. -/
  answers : List Ret
  /-- The clock reading of the first `addConditionTimer`. -/
  began : Option UInt64
  /-- Whether `epoll_ctl` has failed in `addEvent`. -/
  refused : Bool
  /-- What the hooked function has returned, and the latest clock reading before that. -/
  ended : Option (Ret × UInt64)

/-- What has been observed of the clock and of the calls. -/
structure Transfers where
  /-- The latest clock reading. -/
  clock : UInt64
  /-- The last call of each fiber. -/
  calls : Nat → Option Transfer

/-- The call that arms a timer in a step, and the clock reading. Without a timeout it arms none. -/
def System.arming (s : System) : Step → Option (Wait × UInt64)
  | .fiber f (.arm _ now) =>
    match s.fibers[f]? with
    | some (.waiting w .arm) => if w.timeout = ~~~0 then none else some (w, now)
    | _ => none
  | _ => none

/-- The clock reading of a step. -/
def System.reading (s : System) : Step → Option UInt64
  | .expire _ now => some now
  | a => (s.arming a).map (·.2)

/-- What the original function returns in a step of the call. -/
def Wait.answered (k : Kernel) (w : Wait) : Act → List Ret
  | .retry answer =>
    match w.fn with
    | .io fn => [(k.call (.io fn w.fd) answer).2]
    | .connect .. => []
  | _ => []

/-- Whether `epoll_ctl` fails in a step of the call. -/
def Act.refused : Act → Bool
  | .addEvent rt => !rt
  | _ => false

/-- The call after a step of its fiber to `pc`. -/
def Transfer.next (answers : List Ret) (refused : Bool) (reading : Option UInt64) (clock : UInt64)
    (pc : Pc) (c : Transfer) : Transfer where
  wait := c.wait
  answers := c.answers ++ answers
  began := c.began.or reading
  refused := c.refused || refused
  ended :=
    match pc with
    | .user (some r) => some (r, clock)
    | _ => c.ended

namespace Transfers

/-- At the start of the process. -/
def start (now : UInt64) : Transfers := ⟨now, fun _ => none⟩

/-- The observations after a step. -/
def record (s : System) (a : Step) (t : System) (h : Transfers) : Transfers where
  clock := (s.reading a).getD h.clock
  calls g :=
    match a with
    | .fiber f act =>
      if g = f then
        match s.fibers[f]?, t.fibers[f]? with
        | some (.user _), some (.waiting w _) => some ⟨w, [], none, false, none⟩
        | some (.waiting w _), some pc =>
          (h.calls f).map (Transfer.next (w.answered s.process.kernel act) act.refused
            (s.reading a) ((s.reading a).getD h.clock) pc)
        | _, _ => h.calls f
      else h.calls g
    | _ => h.calls g

end Transfers

/-- The clock does not go back, and no deadline passes the end of the 64-bit range. -/
def Clocked (x : System × Transfers) (a : Step) : Prop :=
  (∀ now ∈ x.1.reading a, x.2.clock ≤ now) ∧
    ∀ arms ∈ x.1.arming a, arms.2.toNat + arms.1.timeout.toNat < 2 ^ 64

instance (x : System × Transfers) (a : Step) : Decidable (Clocked x a) :=
  inferInstanceAs (Decidable (_ ∧ _))

/-! ## The history along a step -/

section

variable {s t : System} {h : Transfers} {f g : Nat} {act : Act} {a : Step}

theorem Transfers.calls_of_ne (hg : ∀ act, a ≠ .fiber g act) :
    (Transfers.record s a t h).calls g = h.calls g := by
  dsimp only [Transfers.record]
  split
  · rename_i f act
    split
    · rename_i hgf
      exact absurd (by rw [hgf]) (hg act)
    · rfl
  · rfl

/-- The call of a fiber that goes on or returns. -/
theorem Transfers.calls_waiting {w : Wait} {p : Point} {pc : Pc}
    (hs : s.fibers[f]? = some (.waiting w p)) (ht : t.fibers[f]? = some pc) :
    (Transfers.record s (.fiber f act) t h).calls f =
      (h.calls f).map (Transfer.next (w.answered s.process.kernel act) act.refused
        (s.reading (.fiber f act)) (Transfers.record s (.fiber f act) t h).clock pc) := by
  simp only [Transfers.record, hs, ht, if_true]

/-- A call that begins has no answers yet. -/
theorem Transfers.calls_entered {last : Option Ret} {w : Wait} {p : Point}
    (hs : s.fibers[f]? = some (.user last)) (ht : t.fibers[f]? = some (.waiting w p)) :
    (Transfers.record s (.fiber f act) t h).calls f = some ⟨w, [], none, false, none⟩ := by
  simp only [Transfers.record, hs, ht, if_true]

/-- A fiber that is in no call before the step and in none after it. -/
theorem Transfers.calls_outside {pc pc' : Pc} (hs : s.fibers[f]? = some pc)
    (ht : t.fibers[f]? = some pc') (hpc : pc.tinfo = none) (hpc' : pc'.tinfo = none) :
    (Transfers.record s (.fiber f act) t h).calls f = h.calls f := by
  simp only [Transfers.record, hs, ht, if_true]
  cases pc with
  | waiting => cases hpc
  | user =>
    cases pc' with
    | waiting => cases hpc'
    | _ => rfl
  | closing => rfl

/-- The clock does not go back. -/
theorem Transfers.clock_le (hclock : Clocked (s, h) a) :
    h.clock ≤ (Transfers.record s a t h).clock := by
  dsimp only [Transfers.record]
  cases hr : s.reading a with
  | none => exact UInt64.le_refl _
  | some now => exact hclock.1 now hr

end

end Xupeng.Hook
