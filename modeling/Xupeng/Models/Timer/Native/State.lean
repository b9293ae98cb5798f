import Mathlib.Data.List.Basic

/-!
# Timers and their manager

A `Timer::ptr` is an index into the list of all timers ever made. `m_timers` is
the list of the pointers in the set, in the order of the tree: searching walks
past the elements that the comparator puts before the key. Every clock reading of
`GetCurrentMS` is an argument, and so is the address of every new object, since
the comparator breaks ties by address.
-/

namespace Xupeng

/-- `Timer` -/
structure Timer (C : Type) where
  recurring : Bool
  ms : UInt64
  next : UInt64
  cb : Option C
  /-- The address of the object. -/
  addr : Nat
  deriving DecidableEq, Repr

/-- `Timer::Comparator`, for pointers that are not null. -/
def Timer.less {C : Type} (lhs rhs : Timer C) : Bool :=
  if lhs.next < rhs.next then true
  else if rhs.next < lhs.next then false
  else lhs.addr < rhs.addr

/-- `TimerManager` -/
structure TimerManager (C : Type) where
  /-- All timers that have been made. -/
  heap : List (Timer C)
  /-- `m_timers` -/
  timers : List Nat
  /-- `m_tickled` -/
  tickled : Bool
  /-- `m_previouseTime` -/
  previouseTime : UInt64
  deriving DecidableEq, Repr

namespace TimerManager

variable {C : Type}

/-- The constructor, at clock reading `now`. -/
def new (now : UInt64) : TimerManager C := ⟨[], [], false, now⟩

/-- `~0ull` -/
def infinite : UInt64 := ~~~0

/-- The timer a pointer points to. -/
def deref (m : TimerManager C) (p : Nat) : Timer C := m.heap.getD p ⟨false, 0, 0, none, 0⟩

/-- Change the timer a pointer points to. -/
def modify (p : Nat) (f : Timer C → Timer C) (m : TimerManager C) : TimerManager C :=
  { m with heap := m.heap.set p (f (m.deref p)) }

/-! ## The set -/

/-- The number of elements before `m_timers.lower_bound(key)`. -/
def lowerBound (key : Timer C) (m : TimerManager C) : Nat :=
  (m.timers.takeWhile fun p => (m.deref p).less key).length

/-- `m_timers.find(p)` as an index, none for `end()`. -/
def find (p : Nat) (m : TimerManager C) : Option Nat :=
  let i := m.lowerBound (m.deref p)
  match m.timers[i]? with
  | some q => if (m.deref p).less (m.deref q) then none else some i
  | none => none

/-- `m_timers.erase(it)` -/
def erase (i : Nat) (m : TimerManager C) : TimerManager C :=
  { m with timers := m.timers.eraseIdx i }

/-- `m_timers.insert(p)`, with the index of the iterator it returns. -/
def insert (p : Nat) (m : TimerManager C) : TimerManager C × Nat :=
  let i := m.lowerBound (m.deref p)
  match m.timers[i]? with
  | some q =>
    if (m.deref p).less (m.deref q) then ({ m with timers := m.timers.insertIdx i p }, i)
    else (m, i)
  | none => ({ m with timers := m.timers ++ [p] }, i)

/-! ## The operations -/

/-- The protected `addTimer(val, lock)`, and whether it calls `onTimerInsertedAtFront`. -/
def addTimerLocked (p : Nat) (m : TimerManager C) : TimerManager C × Bool :=
  let r := m.insert p
  let at_front := r.2 = 0 && !m.tickled
  (if at_front then { r.1 with tickled := true } else r.1, at_front)

/-- `addTimer(ms, cb, recurring)`: the new pointer is the length of the heap before. -/
def addTimer (addr : Nat) (now ms : UInt64) (cb : Option C) (recurring : Bool)
    (m : TimerManager C) : TimerManager C × Bool :=
  let timer : Timer C := ⟨recurring, ms, now + ms, cb, addr⟩
  { m with heap := m.heap ++ [timer] }.addTimerLocked m.heap.length

/-- `Timer::cancel`; none when it erases `end()`. -/
def cancel (p : Nat) (m : TimerManager C) : Option (TimerManager C × Bool) :=
  if (m.deref p).cb.isSome then
    let m := m.modify p fun t => { t with cb := none }
    (m.find p).map fun i => (m.erase i, true)
  else some (m, false)

/-- `Timer::refresh` -/
def refresh (p : Nat) (now : UInt64) (m : TimerManager C) : TimerManager C × Bool :=
  if (m.deref p).cb.isNone then (m, false)
  else
    match m.find p with
    | none => (m, false)
    | some i => (((m.erase i).modify p fun t => { t with next := now + t.ms }).insert p |>.1, true)

/-- `Timer::reset` -/
def reset (p : Nat) (ms : UInt64) (from_now : Bool) (now : UInt64) (m : TimerManager C) :
    TimerManager C × Bool :=
  if ms = (m.deref p).ms ∧ !from_now then (m, true)
  else if (m.deref p).cb.isNone then (m, false)
  else
    match m.find p with
    | none => (m, false)
    | some i =>
      let m := (m.erase i).modify p fun t =>
        { t with ms := ms, next := (if from_now then now else t.next - t.ms) + ms }
      (m.addTimerLocked p |>.1, true)

/-- `getNextTimer` -/
def getNextTimer (now_ms : UInt64) (m : TimerManager C) : TimerManager C × UInt64 :=
  let m := { m with tickled := false }
  match m.timers with
  | [] => (m, infinite)
  | p :: _ =>
    (m, if (m.deref p).next ≤ now_ms then 0 else (m.deref p).next - now_ms)

/-- `detectClockRollover` -/
def detectClockRollover (now_ms : UInt64) (m : TimerManager C) : TimerManager C × Bool :=
  ({ m with previouseTime := now_ms },
    now_ms < m.previouseTime && now_ms < m.previouseTime - 60 * 60 * 1000)

/-- The last loop of `listExpiredCb`. -/
def fire (now_ms : UInt64) : List Nat → TimerManager C → TimerManager C × List (Option C)
  | [], m => (m, [])
  | p :: expired, m =>
    let cb := (m.deref p).cb
    let m :=
      if (m.deref p).recurring then
        ((m.modify p fun t => { t with next := now_ms + t.ms }).insert p).1
      else m.modify p fun t => { t with cb := none }
    let r := fire now_ms expired m
    (r.1, cb :: r.2)

/-- `listExpiredCb`, with the callbacks it appends to `cbs`; `addr` is the address of the
timer made for the search. -/
def listExpiredCb (addr : Nat) (now_ms : UInt64) (m : TimerManager C) :
    TimerManager C × List (Option C) :=
  match m.timers with
  | [] => (m, [])
  | first :: _ =>
    let (m, rollover) := m.detectClockRollover now_ms
    if !rollover ∧ now_ms < (m.deref first).next then (m, [])
    else
      let i := if rollover then m.timers.length else m.lowerBound ⟨false, 0, now_ms, none, addr⟩
      let same := ((m.timers.drop i).takeWhile fun p => (m.deref p).next = now_ms).length
      { m with timers := m.timers.drop (i + same) }.fire now_ms (m.timers.take (i + same))

end TimerManager

end Xupeng
