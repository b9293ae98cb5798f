import Xupeng.Models.FdManager.Interpretation.Entries
import Xupeng.Models.Hook.Correctness.Recycling
import Xupeng.Models.Socket.Native.Timeouts
import Xupeng.Models.Timer.Interpretation.Operations

/-!
# Whether the timeouts of a socket take effect

A timeout is meant to go from `setRecvTimeout` or `setSendTimeout` through the hooked
function for socket options into the context of the descriptor, where the getters and
`do_io` read it. The hooked function is not called, so the context keeps what it had.
The timeout takes effect exactly when the context has it already.
-/

namespace Xupeng.Socket

open Hook (System Wait timeoutSo)

/-- The two directions. -/
inductive Direction
  | recv
  | send
  deriving DecidableEq, Repr

namespace Direction

/-- The option for the timeout of the direction. -/
def option : Direction → Int
  | recv => SO_RCVTIMEO
  | send => SO_SNDTIMEO

def other : Direction → Direction
  | recv => send
  | send => recv

/-- `setRecvTimeout` or `setSendTimeout` -/
def set (v : Int64) (rt : Int) (s : Socket) : Direction → Program Empty Process Unit
  | recv => s.setRecvTimeout v rt
  | send => s.setSendTimeout v rt

/-- `getRecvTimeout` or `getSendTimeout` -/
def get (s : Socket) : Direction → Program Empty Process Int64
  | recv => s.getRecvTimeout
  | send => s.getSendTimeout

end Direction

/-- Whenever the call goes on to arm its timer, this is one of `v` milliseconds. -/
def Arms (w : Wait) (v : Int64) : Prop :=
  ∀ (s t : System) (f addr : Nat) (now : UInt64), s.fibers[f]? = some (.waiting w .arm) →
    s.step (.fiber f (.arm addr now)) = some t →
      ∃ timer, t.fibers[f]? = some (.waiting w (.register (some timer))) ∧
        (t.timers.deref timer).ms.toInt64 = v

/-- What is asked of a timeout that was set: the getter returns it, that of the other direction
returns what it did, and as long as the contexts are left alone each `do_io` of the
direction that gets to wait arms a timer for it. -/
structure TakesEffect (d : Direction) (v : Int64) (s : Socket) (before after : Process) :
    Prop where
  reads : d.get s after = .ok v after
  other : ∃ u, d.other.get s before = .ok u before ∧ d.other.get s after = .ok u after
  waits : ∀ fn, timeoutSo fn = d.option → ∀ (x y : System) (f : Nat) connectTimeout answer w,
    x.process.fds = after.fds →
      x.step (.fiber f (.call connectTimeout (.io fn s.fd) answer)) = some y →
        y.fibers[f]? = some (.waiting w .retry) → Arms w v

variable {s : Socket} {process : Process} {p : Nat} {ctx : FdCtx}

/-- Setting a timeout changes nothing in the process. -/
theorem set_eq (d : Direction) (v : Int64) (rt : Int) (s : Socket) (process : Process) :
    d.set v rt s process = .ok () process := by
  cases d <;> rfl

theorem get_eq (d : Direction) (hptr : process.fds.ptr s.fd = some p)
    (hctx : process.fds.heap[p]? = some ctx) :
    d.get s process = .ok (ctx.getTimeout d.option).toInt64 process := by
  cases d <;> exact FdManager.get_bind_deref hptr hctx _

/-- How `do_io` begins on a descriptor with a context. -/
theorem enter_eq {fd : Int} (hptr : process.fds.ptr fd = some p)
    (hctx : process.fds.heap[p]? = some ctx) (timeout_so : Int) :
    Hook.enter true fd timeout_so process =
      .ok (if ctx.isClosed then .error EBADF
        else if !ctx.isSocket || ctx.userNonblock then .direct
        else .retry (ctx.getTimeout timeout_so)) process := by
  refine (FdManager.get_bind_deref hptr hctx _).trans ?_
  dsimp only
  split
  · rfl
  · split <;> rfl

/-- `do_io` returns, or goes on to wait with the timeout of the context. -/
theorem doIo_cases {fd : Int} (hptr : process.fds.ptr fd = some p)
    (hctx : process.fds.heap[p]? = some ctx) (fn : IoFun) (answer : Xupeng.Answer) :
    ∃ reply t, Hook.doIo true fn fd answer process = .ok reply t ∧
      (reply = .retry (ctx.getTimeout (timeoutSo fn)) ∨ ∃ r, reply = .ret r) := by
  have henter := enter_eq hptr hctx (timeoutSo fn)
  generalize hentry : (if ctx.isClosed then Hook.Entry.error EBADF
    else if !ctx.isSocket || ctx.userNonblock then .direct
    else .retry (ctx.getTimeout (timeoutSo fn))) = entry at henter
  unfold Hook.doIo
  rw [Program.bind_of_ok henter]
  cases entry with
  | direct => exact ⟨_, _, rfl, .inr ⟨_, rfl⟩⟩
  | error errno => exact ⟨_, _, rfl, .inr ⟨_, rfl⟩⟩
  | retry timeout =>
    refine ⟨_, _, rfl, .inl ?_⟩
    split at hentry
    · cases hentry
    · split at hentry <;> cases hentry
      rfl

/-- The functions on top of `do_io` do not change where it gets to. -/
theorem io_retry {fd : Int} {fn : IoFun} {answer : Xupeng.Answer} {t : Process}
    {timeout : UInt64} (hptr : process.fds.ptr fd = some p)
    (hctx : process.fds.heap[p]? = some ctx)
    (h : Hook.io true fn fd answer process = .ok (.retry timeout) t) :
    timeout = ctx.getTimeout (timeoutSo fn) := by
  obtain ⟨reply, u, hdo, hreply⟩ := doIo_cases hptr hctx fn answer
  unfold Hook.io at h
  rw [Program.bind_of_ok hdo] at h
  rcases hreply with rfl | ⟨r, rfl⟩
  · cases fn <;> cases h <;> rfl
  · cases fn with
    | accept addr addrlen =>
      dsimp only at h
      split at h
      · cases hget : FdManager.get r.value true u with
        | ok q v =>
          rw [Program.bind_of_ok hget] at h
          cases h
        | throw e v => cases e
        | fault =>
          rw [Program.bind_of_fault hget] at h
          cases h
      · cases h
    | _ => cases h

/-- A call of `do_io` that gets to wait has the timeout of the context. -/
theorem call_timeout {x y : System} {fd : Int} {fn : IoFun} {f : Nat} {connectTimeout : UInt64}
    {answer : Xupeng.Answer} {w : Wait} (hptr : x.process.fds.ptr fd = some p)
    (hctx : x.process.fds.heap[p]? = some ctx)
    (h : x.step (.fiber f (.call connectTimeout (.io fn fd) answer)) = some y)
    (hw : y.fibers[f]? = some (.waiting w .retry)) : w.timeout = ctx.getTimeout (timeoutSo fn) := by
  obtain ⟨pc, hpc, ⟨e, rfl, haborts⟩ | ⟨u, pc', rfl, hproceeds⟩⟩ := System.step_ended h
  · cases haborts
  · obtain rfl : pc' = .waiting w .retry := by
      rw [System.proceeds_self hpc hproceeds] at hw
      exact Option.some.inj hw
    cases hproceeds with
    | enterIo last connectTimeout fn fd answer timeout process hprog =>
      exact io_retry hptr hctx hprog

/-- A wait with a timeout arms a timer for it. -/
theorem arms_of_timeout {w : Wait} (h : w.timeout ≠ ~~~0) : Arms w w.timeout.toInt64 := by
  intro s t f addr now hpc hs
  have hs := System.step_waiting hpc hs
  simp only [System.wait, if_neg h] at hs
  obtain ⟨timers, htimers, rfl⟩ := Option.map_eq_some_iff.mp hs
  refine ⟨s.timers.heap.length, System.goto_self (s := { s with timers := timers }) hpc _, ?_⟩
  simp only [TimerManager.step] at htimers
  split at htimers
  · cases htimers
    simp only [System.goto, TimerManager.deref_addTimer, if_true]
  · cases htimers

/-- A positive timeout is not the one that stands for none. -/
theorem toUInt64_ne_infinite {v : Int64} (hv : 0 < v) : v.toUInt64 ≠ ~~~0 := by
  intro heq
  have hminus : v = -1 := by
    rw [← Int64.toInt64_toUInt64 v, heq]
    rfl
  rw [hminus] at hv
  exact absurd hv (by decide)

/-- After `setRecvTimeout(v)` or `setSendTimeout(v)` on a socket whose descriptor has a context,
the timeout is in effect exactly when the context has had it before. -/
theorem timeout_takes_effect_iff (d : Direction) (v : Int64) (hv : 0 < v) (s : Socket)
    (before : Process) (p : Nat) (ctx : FdCtx)
    (hptr : before.fds.ptr s.fd = some p) (hctx : before.fds.heap[p]? = some ctx) :
    ∃ after, d.set v 0 s before = .ok () after ∧
      (TakesEffect d v s before after ↔ ctx.getTimeout d.option = v.toUInt64) := by
  refine ⟨before, set_eq d v 0 s before, fun h => ?_, fun h => ?_⟩
  · have hreads := h.reads
    rw [get_eq d hptr hctx] at hreads
    cases hreads
    rw [UInt64.toUInt64_toInt64]
  · refine ⟨?_, ⟨_, get_eq d.other hptr hctx, get_eq d.other hptr hctx⟩, ?_⟩
    · rw [get_eq d hptr hctx, h, Int64.toInt64_toUInt64]
    · intro fn hfn x y f connectTimeout answer w hfds hstep hw
      rw [← hfds] at hptr hctx
      have htimeout : w.timeout = v.toUInt64 := by
        rw [call_timeout hptr hctx hstep hw, hfn, h]
      have hne : w.timeout ≠ ~~~0 := by
        rw [htimeout]
        exact toUInt64_ne_infinite hv
      have harms := arms_of_timeout hne
      rw [htimeout, Int64.toInt64_toUInt64] at harms
      exact harms

/-- A `Socket` with the descriptor 5. -/
def fifth : Socket := ⟨some ⟨5, by decide, ⟨2, []⟩⟩, 2, 1, 0, false, none, none⟩

/-- The descriptor 5 is a socket with a receive timeout of 10 ms. -/
def tenMs : Process where
  fds := ⟨[⟨true, true, true, false, false, 5, 10, ~~~0⟩], (List.replicate 64 none).set 5 (some 0)⟩
  kernel := Hook.emptyKernel

/-- A timeout of ten milliseconds that was set before. -/
theorem timeout_takes_effect_tenMs : ∃ after, fifth.setRecvTimeout 10 0 tenMs = .ok () after ∧
    TakesEffect .recv 10 fifth tenMs after := by
  obtain ⟨after, hset, hiff⟩ := timeout_takes_effect_iff .recv 10 (by decide) fifth tenMs 0
    ⟨true, true, true, false, false, 5, 10, ~~~0⟩ rfl rfl
  exact ⟨after, hset, hiff.mpr rfl⟩

/-- The fiber reads from the socket, which has nothing to read, and arms its timer. -/
def readAndArm : List Hook.Step :=
  [.fiber 0 (.call (~~~0) (.io (.read 4096 512) 5) (.succeeds 0)),
    .fiber 0 (.retry (.fails EAGAIN)), .fiber 0 (.arm 1 100)]

/-- On a socket that was just made, `setRecvTimeout(100)` leaves `getRecvTimeout` at -1, and the
next `read` waits without a timer. -/
theorem timeout_lost_readAndArm : ∃ x y,
    run System.step (.init 1 0 Hook.emptyKernel) [Hook.makeSocket 0] = some x ∧
      fifth.setRecvTimeout 100 0 x.process = .ok () x.process ∧
      fifth.getRecvTimeout x.process = .ok (-1) x.process ∧
      run System.step x readAndArm = some y ∧
      y.fibers = [.waiting ⟨.io (.read 4096 512), 5, ~~~0, 0⟩ (.register none)] := by
  refine ⟨_, _, rfl, rfl, rfl, rfl, rfl⟩

end Xupeng.Socket
