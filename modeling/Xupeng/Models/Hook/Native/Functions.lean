import Xupeng.Models.FdManager.State

/-!
# The hooked functions

Each function of `hook.cc` on a thread, with `enabled` for `t_hook_enable` and with the
kernel's answer to the original function that it calls. A function that goes on to
suspend its fiber ends here with what it waits for; the waiting of `do_io`, and
`cancelAll` in `close`, are steps of the fibers in `Hook.System`.

No library has functions of the names `getsocket` and `setsocket`, so `dlsym` returns null
for both. `setsocket` calls itself where the hook is disabled; it takes fuel, and none
means that it has not returned.
-/

namespace Xupeng.Hook

/-- How far a hooked function gets on its own. -/
inductive Reply
  | ret (r : Ret)
  /-- A sleep arms a timer of this many milliseconds and yields. -/
  | sleep (ms : UInt64)
  /-- `do_io` reaches `retry`, with this value of `to`. -/
  | retry (timeout : UInt64)
  /-- `connect_with_timeout` waits for the connection. -/
  | connecting (timeout_ms : UInt64)
  deriving DecidableEq, Repr

def EINPROGRESS : Int := 115

/-- Call the original function. -/
def original (c : SysCall) (answer : Answer) : Program Empty Process Ret := fun s =>
  let r := s.kernel.call c answer
  .ok r.2 { s with kernel := r.1 }

/-- `return f(…)` of the original function. -/
def passThrough (c : SysCall) (answer : Answer) : Program Empty Process Reply := do
  let r ← original c answer
  pure (.ret r)

/-! ## Waiting for events -/

/-- `timeout_so`, the last argument of `do_io` before the forwarded ones. -/
def timeoutSo : IoFun → Int
  | .accept .. | .read .. | .readv .. | .recv .. | .recvfrom .. | .recvmsg .. => SO_RCVTIMEO
  | .write .. | .writev .. | .send .. | .sendto .. | .sendmsg .. => SO_SNDTIMEO

/-- What `do_io` decides before it calls the original function. -/
inductive Entry
  /-- `return fun(fd, …)` -/
  | direct
  /-- It returns -1 with this `errno`. -/
  | error (errno : Int)
  /-- It goes on at `retry`, with this value of `to`. -/
  | retry (timeout : UInt64)
  deriving DecidableEq, Repr

/-- `do_io` up to `retry`. -/
def enter (enabled : Bool) (fd timeout_so : Int) : Program Empty Process Entry :=
  if !enabled then pure .direct
  else do
    let ctx ← FdManager.get fd false
    match ← FdManager.deref ctx with
    | none => pure .direct
    | some ctx =>
      if ctx.isClosed then pure (.error EBADF)
      else if !ctx.isSocket || ctx.userNonblock then pure .direct
      else pure (.retry (ctx.getTimeout timeout_so))

/-- `do_io` -/
def doIo (enabled : Bool) (fn : IoFun) (fd : Int) (answer : Answer) :
    Program Empty Process Reply := do
  match ← enter enabled fd (timeoutSo fn) with
  | .direct => passThrough (.io fn fd) answer
  | .error errno => pure (.ret (.error errno))
  | .retry timeout => pure (.retry timeout)

/-- The functions that are `do_io` alone, and `accept`, which makes a context for the new
descriptor whether the hook is enabled or not. -/
def io (enabled : Bool) (fn : IoFun) (fd : Int) (answer : Answer) :
    Program Empty Process Reply := do
  let reply ← doIo enabled fn fd answer
  match fn, reply with
  | .accept .., .ret r =>
    if 0 ≤ r.value then
      let _ ← FdManager.get r.value true
      pure reply
    else pure reply
  | _, _ => pure reply

/-- `connect_with_timeout` -/
def connectWithTimeout (enabled : Bool) (fd : Int) (addr addrlen : Nat) (timeout_ms : UInt64)
    (answer : Answer) : Program Empty Process Reply :=
  if !enabled then passThrough (.connect fd addr addrlen) answer
  else do
    let ctx ← FdManager.get fd false
    match ← FdManager.deref ctx with
    | none => pure (.ret (.error EBADF))
    | some ctx =>
      if ctx.isClosed then pure (.ret (.error EBADF))
      else if !ctx.isSocket || ctx.userNonblock then passThrough (.connect fd addr addrlen) answer
      else do
        let r ← original (.connect fd addr addrlen) answer
        if r.value = -1 ∧ r.errno = some EINPROGRESS then pure (.connecting timeout_ms)
        else pure (.ret r)

/-! ## Sleeping -/

/-- `sleep` -/
def sleep (enabled : Bool) (seconds : UInt32) (answer : Answer) : Program Empty Process Reply :=
  if !enabled then passThrough (.sleep seconds) answer
  else pure (.sleep (seconds * 1000).toUInt64)

/-- `usleep` -/
def usleep (enabled : Bool) (usec : UInt32) (answer : Answer) : Program Empty Process Reply :=
  if !enabled then passThrough (.usleep usec) answer
  else pure (.sleep (usec / 1000).toUInt64)

/-- `nanosleep`; the milliseconds are an `int`. -/
def nanosleep (enabled : Bool) (tv_sec tv_nsec : Int) (rem : Nat) (answer : Answer) :
    Program Empty Process Reply :=
  if !enabled then passThrough (.nanosleep tv_sec tv_nsec rem) answer
  else
    let timeout_ms := BitVec.ofInt 32 (tv_sec * 1000 + (tv_nsec.tdiv 1000).tdiv 1000)
    pure (.sleep (UInt64.ofBitVec (timeout_ms.signExtend 64)))

/-! ## Descriptors and their flags -/

/-- `socket` -/
def socket (enabled : Bool) (domain type protocol : Int) (answer : Answer) :
    Program Empty Process Reply :=
  if !enabled then passThrough (.socket domain type protocol) answer
  else do
    let fd ← original (.socket domain type protocol) answer
    if fd.value = -1 then pure (.ret fd)
    else
      let _ ← FdManager.get fd.value true
      pure (.ret fd)

/-- `m_datas[fd].reset()` -/
def del (fd : Int) : Program Empty Process Unit := fun s =>
  match s.fds.del fd with
  | some fds => .ok () { s with fds := fds }
  | none => .fault

/-- `close`, apart from `cancelAll`. -/
def close (enabled : Bool) (fd : Int) (answer : Answer) : Program Empty Process Reply :=
  if !enabled then passThrough (.close fd) answer
  else do
    let ctx ← FdManager.get fd false
    if ctx.isSome then
      del fd
      passThrough (.close fd) answer
    else passThrough (.close fd) answer

/-- The context of a descriptor, unless `!ctx || ctx->isClose() || !ctx->isSocket()`. -/
def managed (fd : Int) : Program Empty Process (Option (Option Nat × FdCtx)) := do
  let p ← FdManager.get fd false
  let ctx ← FdManager.deref p
  pure ((ctx.filter fun ctx => !ctx.isClosed && ctx.isSocket).map (p, ·))

/-- `v ? arg | O_NONBLOCK : arg & ~O_NONBLOCK` -/
def withNonblock (v : Bool) (arg : BitVec 32) : BitVec 32 :=
  if v then arg ||| O_NONBLOCK else arg &&& ~~~O_NONBLOCK

/-- `fcntl` -/
def fcntl (fd : Int) (cmd : Fcntl) (answer : Answer) : Program Empty Process Ret :=
  match cmd with
  | .flags c arg => do
    match ← managed fd with
    | none => original (.fcntl fd cmd) answer
    | some (p, ctx) =>
      FdManager.modify p fun ctx => { ctx with userNonblock := hasFlag O_NONBLOCK arg }
      original (.fcntl fd (.flags c (withNonblock ctx.sysNonblock arg))) answer
  | .query _ => do
    let arg ← original (.fcntl fd cmd) answer
    match ← managed fd with
    | none => pure arg
    | some (_, ctx) =>
      pure { arg with value := (withNonblock ctx.userNonblock (BitVec.ofInt 32 arg.value)).toInt }
  | .int .. | .get _ | .ptr .. => original (.fcntl fd cmd) answer
  -- the argument is not passed on
  | .other c _ => original (.fcntl fd (.other c none)) answer

/-- `ioctl` -/
def ioctl (fd : Int) (request : Ioctl) (answer : Answer) : Program Empty Process Ret :=
  match request with
  -- `*(int *)arg`
  | .fionbio none => fun _ => .fault
  | .fionbio (some arg) => do
    match ← managed fd with
    | none => original (.ioctl fd request) answer
    | some (p, _) =>
      FdManager.modify p fun ctx => { ctx with userNonblock := arg ≠ 0 }
      original (.ioctl fd request) answer
  | .other .. => original (.ioctl fd request) answer

/-! ## Socket options -/

/-- `tv->tv_sec * 1000 + tv->tv_usec / 1000`, as a `uint64_t`. -/
def Timeval.ms (tv : Timeval) : UInt64 := UInt64.ofInt (tv.tv_sec * 1000 + tv.tv_usec.tdiv 1000)

/-- `setTimeout` of the context of a descriptor, if there is one. -/
def setTimeout (fd type : Int) (v : UInt64) : Program Empty Process Unit := do
  let ctx ← FdManager.get fd false
  if ctx.isSome then FdManager.modify ctx (·.setTimeout type v) else pure ()

/-- The part of `setsocket` before the original function is called. -/
def recordTimeout (fd level optname : Int) (optval : Timeval) : Program Empty Process Unit :=
  if level = SOL_SOCKET ∧ (optname = SO_RCVTIMEO ∨ optname = SO_SNDTIMEO) then
    setTimeout fd optname (Timeval.ms optval)
  else pure ()

/-- `getsocket_f(…)` and `setsocket_f(…)`: a call through a null pointer. -/
def nullCall : Program Empty Process Reply := fun _ => .fault

/-- `setsocket` -/
def setsocket (enabled : Bool) (fd level optname : Int) (optval : Timeval) :
    (fuel : Nat) → Option (Program Empty Process Reply)
  | 0 => none
  | fuel + 1 =>
    if !enabled then setsocket enabled fd level optname optval fuel
    else some do
      recordTimeout fd level optname optval
      nullCall

/-- A call of an interposed function; `connectTimeout` is `s_connect_timeout`. -/
def call (enabled : Bool) (connectTimeout : UInt64) (fuel : Nat) (c : SysCall)
    (answer : Answer) : Option (Program Empty Process Reply) :=
  match c with
  | .sleep seconds => some (sleep enabled seconds answer)
  | .usleep usec => some (usleep enabled usec answer)
  | .nanosleep tv_sec tv_nsec rem => some (nanosleep enabled tv_sec tv_nsec rem answer)
  | .socket domain type protocol => some (socket enabled domain type protocol answer)
  | .connect fd addr addrlen =>
    some (connectWithTimeout enabled fd addr addrlen connectTimeout answer)
  | .io fn fd => some (io enabled fn fd answer)
  | .close fd => some (close enabled fd answer)
  | .fcntl fd cmd => some (.ret <$> fcntl fd cmd answer)
  | .ioctl fd request => some (.ret <$> ioctl fd request answer)
  | .getsocket .. => some nullCall
  | .setsocket fd level optname optval _ => setsocket enabled fd level optname optval fuel

end Xupeng.Hook
