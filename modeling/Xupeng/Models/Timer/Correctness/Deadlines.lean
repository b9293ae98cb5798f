import Xupeng.Models.Timer.Interpretation.Clock

/-!
# No timer fires early

With a clock that does not go back, a callback is output only after the period of
its timer has passed since the timer was armed, as long as no deadline passes the
end of the 64-bit range. The deadlines are sums of `uint64_t` without a check, and a
sum that wraps around is a deadline in the past.
-/

namespace Xupeng.TimerManager

variable {C : Type}

/-- Whatever `listExpiredCb` outputs next, the period of the timer has passed since it was
armed. -/
def Punctual (x : TimerManager C × Watch) : Prop :=
  ∀ addr now, x.2.clock ≤ now → ∀ p ∈ x.1.expired addr now,
    (x.2.armed p).toNat + (x.1.deref p).ms.toNat ≤ now.toNat

theorem Timed.punctual {x : TimerManager C × Watch} (hx : Timed x) : Punctual x := by
  intro addr now hnow p hp
  have hsome := hx.sound.mem_iff.mp (mem_timers_of_mem_expired hp)
  have hnext := hx.sound.ordered.next_le_of_mem_expired hp (UInt64.le_trans hx.previous hnow)
  rw [← hx.deadline p hsome]
  exact UInt64.le_iff_toNat_le.mp hnext

/-- In every run with a clock that does not go back and deadlines that do not wrap around, no
callback is output before the period of its timer has passed. -/
theorem no_early_firing (now : UInt64) (ops : List (Op C))
    (hforward : Guarded (recorded step Watch.record) Forward (new now, .start now) ops)
    (hwrap : Guarded (recorded step Watch.record) NoWrap (new now, .start now) ops) :
    Along (recorded step Watch.record) Punctual (new now, .start now) ops :=
  along_of_guarded (I := Timed)
    (fun _ _ _ hx hg hr => of_recorded hr fun _ hs => hx.step hg.1 hg.2 hs)
    (fun _ hx => hx.punctual) (.start now) (hforward.and hwrap)

/-- A recurring timer fires, is given a longer period, and is refreshed. -/
def rearmedTimer : List (Op Unit) :=
  [.addTimer 16 1000 50 () true, .listExpiredCb 32 1060, .reset 0 70 false 1060, .refresh 0 1080,
    .listExpiredCb 32 1200]

/-- A timer that is armed again. -/
theorem no_early_firing_rearmedTimer :
    (run (recorded step Watch.record) (new 1000, .start 1000) rearmedTimer).isSome ∧
      Along (recorded step Watch.record) Punctual (new 1000, .start 1000) rearmedTimer :=
  ⟨by decide, no_early_firing 1000 rearmedTimer (by decide) (by decide)⟩

/-- A timer with the longest period, `~0ull`. -/
def longestPeriod : List (Op Unit) := [.addTimer 16 1000 infinite () false]

/-- The timer expires in the millisecond in which it was armed: its deadline has wrapped around. -/
theorem fires_early_longestPeriod :
    Guarded (recorded step Watch.record) Forward (new 1000, .start 1000) longestPeriod ∧
      (run (recorded step Watch.record) (new 1000, .start 1000) longestPeriod).isSome ∧
      ∀ x, run (recorded step Watch.record) (new 1000, .start 1000) longestPeriod = some x →
        (x.1.listExpiredCb 32 1000).2 = [some ()] ∧ ¬ Punctual x := by
  have hfires : ∀ x,
      run (recorded step Watch.record) (new 1000, .start 1000) longestPeriod = some x →
        (x.1.listExpiredCb 32 1000).2 = [some ()] ∧ x.2.clock ≤ 1000 ∧
          0 ∈ x.1.expired 32 1000 ∧
          (1000 : UInt64).toNat < (x.2.armed 0).toNat + (x.1.deref 0).ms.toNat := by
    decide
  refine ⟨by decide, by decide, fun x hx => ?_⟩
  obtain ⟨houtput, hclock, hexpired, hearly⟩ := hfires x hx
  exact ⟨houtput, fun hp => Nat.not_lt.mpr (hp 32 1000 hclock 0 hexpired) hearly⟩

end Xupeng.TimerManager
