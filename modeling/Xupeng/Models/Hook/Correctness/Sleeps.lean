import Mathlib.Tactic.NormNum
import Xupeng.Models.Hook.Native.Functions

/-!
# How long the hooked sleeps sleep

Each of them converts its argument to the milliseconds of a timer. `sleep` multiplies in 32
bits, `usleep` and `nanosleep` round down, and `nanosleep` keeps the milliseconds in an
`int`, which is widened with its sign. A request of 2 ^ 31 ms or more thus sleeps far too
short or for ages.
-/

namespace Xupeng.Hook

/-- The milliseconds of a `timespec`, rounded down. -/
def wholeMs (tv_sec tv_nsec : Int) : Int := tv_sec * 1000 + tv_nsec / 1000000

/-- When the milliseconds, narrowed to an `int` and widened to a `uint64_t`, are not less than the
time asked for: they are not negative as an `int`, and neither narrowing nor rounding has
lost anything; or they are negative, and the time is below what the sign makes of them. -/
def LongEnough (tv_sec tv_nsec : Int) : Prop :=
  if wholeMs tv_sec tv_nsec % 2 ^ 32 < 2 ^ 31 then
    wholeMs tv_sec tv_nsec < 2 ^ 31 ∧ tv_nsec % 1000000 = 0
  else
    wholeMs tv_sec tv_nsec < 2 ^ 64 - 2 ^ 32 ∨
      wholeMs tv_sec tv_nsec < 2 ^ 64 ∧ tv_nsec % 1000000 = 0

/-- A number of milliseconds that goes through an `int`. -/
theorem toNat_signExtend_ofInt {r : Int} (h : 0 ≤ r) :
    ((UInt64.ofBitVec ((BitVec.ofInt 32 r).signExtend 64)).toNat : Int) =
      r % 2 ^ 32 + if r % 2 ^ 32 < 2 ^ 31 then 0 else 2 ^ 64 - 2 ^ 32 := by
  obtain ⟨n, rfl⟩ := Int.eq_ofNat_of_zero_le h
  rw [UInt64.toNat_ofBitVec, BitVec.toNat_signExtend, BitVec.ofInt_natCast, BitVec.msb_eq_decide,
    BitVec.toNat_setWidth, BitVec.toNat_ofNat]
  simp only [decide_eq_true_eq]
  split
  · rw [if_neg (by omega)]
    omega
  · rw [if_pos (by omega)]
    omega

/-- The fiber sleeps for a product that may wrap around. -/
theorem sleep_eq (seconds : UInt32) (answer : Answer) (s : Process) :
    sleep true seconds answer s = .ok (.sleep (seconds * 1000).toUInt64) s := rfl

/-- The fiber sleeps for whole milliseconds. -/
theorem usleep_eq (usec : UInt32) (answer : Answer) (s : Process) :
    usleep true usec answer s = .ok (.sleep (usec / 1000).toUInt64) s := rfl

/-- The two truncating divisions of `nanosleep` are one. -/
theorem nanosleep_eq {tv_nsec : Int} (h : 0 ≤ tv_nsec) (tv_sec : Int) (rem : Nat)
    (answer : Answer) (s : Process) :
    nanosleep true tv_sec tv_nsec rem answer s =
      .ok (.sleep (UInt64.ofBitVec ((BitVec.ofInt 32 (wholeMs tv_sec tv_nsec)).signExtend 64)))
        s := by
  have hdiv : (tv_nsec.tdiv 1000).tdiv 1000 = tv_nsec / 1000000 := by
    rw [Int.tdiv_eq_ediv_of_nonneg h, Int.tdiv_eq_ediv_of_nonneg (by omega)]
    omega
  unfold nanosleep wholeMs
  rw [hdiv]
  rfl

/-- The product is not too small exactly if it fits. -/
theorem le_sleep_iff (seconds : UInt32) :
    seconds.toNat * 1000 ≤ (seconds * 1000).toUInt64.toNat ↔ seconds.toNat * 1000 < 2 ^ 32 := by
  rw [UInt32.toNat_toUInt64, UInt32.toNat_mul]
  change _ ≤ seconds.toNat * 1000 % 2 ^ 32 ↔ _
  omega

/-- No microseconds are lost exactly if there are none beyond the milliseconds. -/
theorem le_usleep_iff (usec : UInt32) :
    usec.toNat ≤ (usec / 1000).toUInt64.toNat * 1000 ↔ usec.toNat % 1000 = 0 := by
  rw [UInt32.toNat_toUInt64, UInt32.toNat_div]
  change _ ≤ usec.toNat / 1000 * 1000 ↔ _
  omega

/-- The same for seconds and nanoseconds, which go through an `int`. -/
theorem le_nanosleep_iff {tv_sec tv_nsec : Int} (hsec : 0 ≤ tv_sec) (hnsec : 0 ≤ tv_nsec) :
    tv_sec * 1000000000 + tv_nsec ≤
        (UInt64.ofBitVec
          ((BitVec.ofInt 32 (wholeMs tv_sec tv_nsec)).signExtend 64)).toNat * 1000000 ↔
      LongEnough tv_sec tv_nsec := by
  have hwhole : 0 ≤ wholeMs tv_sec tv_nsec := by
    unfold wholeMs
    omega
  -- the request is the whole milliseconds and what rounding drops
  have hsplit : tv_sec * 1000000000 + tv_nsec =
      wholeMs tv_sec tv_nsec * 1000000 + tv_nsec % 1000000 := by
    unfold wholeMs
    omega
  rw [toNat_signExtend_ofInt hwhole, hsplit]
  unfold LongEnough
  split <;> omega

/-- On a thread with the hook enabled, `sleep` passes a delay to its timer that is not shorter
than the time asked for exactly when the product does not leave 32 bits, `usleep` exactly when
the time is whole milliseconds, and `nanosleep` exactly when the time is `LongEnough`. -/
theorem sleeps_not_shorter_iff (s : Process) (answer : Answer) :
    (∀ seconds : UInt32, ∃ ms, sleep true seconds answer s = .ok (.sleep ms) s ∧
      (seconds.toNat * 1000 ≤ ms.toNat ↔ seconds.toNat * 1000 < 2 ^ 32)) ∧
    (∀ usec : UInt32, ∃ ms, usleep true usec answer s = .ok (.sleep ms) s ∧
      (usec.toNat ≤ ms.toNat * 1000 ↔ usec.toNat % 1000 = 0)) ∧
    ∀ (tv_sec tv_nsec : Int) (rem : Nat), 0 ≤ tv_sec → 0 ≤ tv_nsec →
      ∃ ms, nanosleep true tv_sec tv_nsec rem answer s = .ok (.sleep ms) s ∧
        (tv_sec * 1000000000 + tv_nsec ≤ ms.toNat * 1000000 ↔ LongEnough tv_sec tv_nsec) := by
  refine ⟨fun seconds => ?_, fun usec => ?_, fun tv_sec tv_nsec rem hsec hnsec => ?_⟩
  · exact ⟨_, sleep_eq seconds answer s, le_sleep_iff seconds⟩
  · exact ⟨_, usleep_eq usec answer s, le_usleep_iff usec⟩
  · exact ⟨_, nanosleep_eq hnsec tv_sec rem answer s, le_nanosleep_iff hsec hnsec⟩

/-- A process that has opened nothing. -/
def sleeper : Process := ⟨.new, ⟨[], fun _ => none, []⟩⟩

/-- One second and one millisecond. -/
theorem sleeps_not_shorter_wholeMs :
    ∃ ms, nanosleep true 1 1000000 0 (.succeeds 0) sleeper = .ok (.sleep ms) sleeper ∧
      (1 : Int) * 1000000000 + 1000000 ≤ ms.toNat * 1000000 := by
  have hlong : LongEnough 1 1000000 := by norm_num [LongEnough, wholeMs]
  obtain ⟨ms, hms, hle⟩ := (sleeps_not_shorter_iff sleeper (.succeeds 0)).2.2 1 1000000 0
    (by decide) (by decide)
  exact ⟨ms, hms, hle.mpr hlong⟩

/-- 4294968 s sleep for 704 ms, and one microsecond or one nanosecond not at all. -/
theorem sleeps_shorter :
    sleep true 4294968 (.succeeds 0) sleeper = .ok (.sleep 704) sleeper ∧
      usleep true 1 (.succeeds 0) sleeper = .ok (.sleep 0) sleeper ∧
      nanosleep true 0 1 0 (.succeeds 0) sleeper = .ok (.sleep 0) sleeper ∧
      nanosleep true 4294968 0 0 (.succeeds 0) sleeper = .ok (.sleep 704) sleeper := by
  refine ⟨rfl, rfl, rfl, rfl⟩

end Xupeng.Hook
