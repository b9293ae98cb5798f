import Xupeng.Core.Program
import Xupeng.Models.Kernel.State

/-!
# Descriptor contexts

`FdCtx` records what the hooked functions know about a descriptor, and `FdManager`
keeps the contexts in a vector indexed by the descriptor. A `FdCtx::ptr` is an index
into the list of all contexts ever made.

`get` looks a context up under the read lock and makes one under the write lock.
Neither section tests the index against both ends of the vector, so an access
outside of it is a fault.
-/

namespace Xupeng

/-- `FdCtx` -/
structure FdCtx where
  isInit : Bool
  isSocket : Bool
  sysNonblock : Bool
  userNonblock : Bool
  isClosed : Bool
  fd : Int
  recvTimeout : UInt64
  sendTimeout : UInt64
  deriving DecidableEq, Repr

namespace FdCtx

/-- `init`. The calls that it makes succeed on a descriptor that exists. -/
def init (ctx : FdCtx) (k : Kernel) : FdCtx × Kernel :=
  if ctx.isInit then (ctx, k)
  else
    let ctx := { ctx with recvTimeout := ~~~0, sendTimeout := ~~~0 }
    -- `fstat`
    let ctx :=
      match k.file ctx.fd with
      | none => { ctx with isInit := false, isSocket := false }
      | some f => { ctx with isInit := true, isSocket := f.socket }
    if ctx.isSocket then
      let r := k.call (.fcntl ctx.fd (.query .F_GETFL)) (.succeeds 0)
      let flags := BitVec.ofInt 32 r.2.value
      -- `~` and not `!`: the test never fails
      let k :=
        if ~~~(flags &&& O_NONBLOCK) ≠ 0 then
          (r.1.call (.fcntl ctx.fd (.flags .F_SETFL (flags ||| O_NONBLOCK))) (.succeeds 0)).1
        else r.1
      ({ ctx with sysNonblock := true, userNonblock := false, isClosed := false }, k)
    else ({ ctx with sysNonblock := false, userNonblock := false, isClosed := false }, k)

/-- `new FdCtx(fd)` -/
def new (fd : Int) (k : Kernel) : FdCtx × Kernel :=
  FdCtx.init ⟨false, false, false, false, false, fd, ~~~0, ~~~0⟩ k

/-- `setTimeout` -/
def setTimeout (type : Int) (v : UInt64) (ctx : FdCtx) : FdCtx :=
  if type = SO_RCVTIMEO then { ctx with recvTimeout := v } else { ctx with sendTimeout := v }

/-- `getTimeout` -/
def getTimeout (type : Int) (ctx : FdCtx) : UInt64 :=
  if type = SO_RCVTIMEO then ctx.recvTimeout else ctx.sendTimeout

end FdCtx

/-- `FdManager` -/
structure FdManager where
  /-- Every context that has been made. -/
  heap : List FdCtx
  /-- `m_datas` -/
  datas : List (Option Nat)
  deriving DecidableEq, Repr

namespace FdManager

/-- The constructor: `m_datas.resize(64)`. -/
def new : FdManager := ⟨[], List.replicate 64 none⟩

/-- How the read-locked section of `get` ends. -/
inductive Found
  /-- It returns this pointer. -/
  | ptr (p : Option Nat)
  /-- It goes on to make a context. -/
  | missing
  /-- It accesses `m_datas` outside of its bounds. -/
  | outOfBounds
  deriving DecidableEq, Repr

/-- The read-locked section of `get`. -/
def find (fd : Int) (auto_create : Bool) (m : FdManager) : Found :=
  if m.datas.length ≤ fd then if auto_create then .missing else .ptr none
  else if fd < 0 then .outOfBounds
  else
    let p := (m.datas[fd.toNat]?).join
    if p.isSome || !auto_create then .ptr p else .missing

/-- `m_datas[fd] = ctx`; none when this is outside of the bounds. -/
def store (fd : Int) (ctx : FdCtx) (m : FdManager) : Option (FdManager × Nat) :=
  if 0 ≤ fd ∧ fd < m.datas.length then
    some (⟨m.heap ++ [ctx], m.datas.set fd.toNat (some m.heap.length)⟩, m.heap.length)
  else none

/-- `del`; none when it accesses `m_datas` outside of its bounds. -/
def del (fd : Int) (m : FdManager) : Option FdManager :=
  if m.datas.length ≤ fd then some m
  else if fd < 0 then none
  else some { m with datas := m.datas.set fd.toNat none }

/-- The pointer that `m_datas` has for a descriptor; null where there is no entry. -/
def ptr (m : FdManager) (fd : Int) : Option Nat :=
  if 0 ≤ fd then (m.datas[fd.toNat]?).join else none

end FdManager

/-- What the hooked functions work on: the contexts and the kernel. -/
structure Process where
  fds : FdManager
  kernel : Kernel

namespace FdManager

/-- `FdMgr::GetInstance()->get(fd, auto_create)` -/
def get (fd : Int) (auto_create : Bool) : Program Empty Process (Option Nat) := fun s =>
  match s.fds.find fd auto_create with
  | .ptr p => .ok p s
  | .outOfBounds => .fault
  | .missing =>
    let r := FdCtx.new fd s.kernel
    match s.fds.store fd r.1 with
    | some (fds, p) => .ok (some p) ⟨fds, r.2⟩
    | none => .fault

/-- The context a pointer points to. -/
def deref (p : Option Nat) : Program Empty Process (Option FdCtx) := fun s =>
  .ok (p.bind fun p => s.fds.heap[p]?) s

/-- Change the context a pointer points to. -/
def modify (p : Option Nat) (f : FdCtx → FdCtx) : Program Empty Process Unit := fun s =>
  match p with
  | some p => .ok () { s with fds := { s.fds with heap := s.fds.heap.modify p f } }
  | none => .fault

end FdManager

end Xupeng
