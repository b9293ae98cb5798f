import Xupeng.Core.Run

/-!
# The read/write mutex and its scoped guards

`pthread_rwlock_t` is the pair of facts glibc keeps in it: how many read holds
there are, and which thread has the write hold. The two scoped guards share one
body; each passes the acquisition its constructor and its `lock()` call. The
interleavings are the runs of `Guards.step`, one label for each construction,
`lock()`, `unlock()` and destruction of a guard on one mutex.
-/

namespace Xupeng.Mutex

/-- A thread, as `pthread_self` tells them apart. -/
abbrev ThreadId := Nat

/-- The state of `pthread_rwlock_t`. -/
structure RWMutex where
  /-- Number of read holds. -/
  readers : Nat
  /-- The thread that has the write hold. -/
  writer : Option ThreadId
  deriving DecidableEq, Repr

/-- `pthread_rwlock_init`: nobody holds the lock. -/
def RWMutex.init : RWMutex := ⟨0, none⟩

/-- `RWMutex::rdlock`, granted only while no thread holds the write lock. -/
def RWMutex.rdlock (m : RWMutex) : Option RWMutex :=
  match m.writer with
  | none => some { m with readers := m.readers + 1 }
  | some _ => none

/-- `RWMutex::wrlock`, granted only while nobody holds the lock. -/
def RWMutex.wrlock (m : RWMutex) (t : ThreadId) : Option RWMutex :=
  if m.readers = 0 ∧ m.writer = none then some { m with writer := some t } else none

/-- `RWMutex::unlock` releases one hold: the caller's write hold if it has that. -/
def RWMutex.unlock (m : RWMutex) (t : ThreadId) : RWMutex :=
  if m.writer = some t then { m with writer := none } else { m with readers := m.readers - 1 }

/-- The two guard types that `RWMutex` declares. -/
inductive GuardKind
  /-- `RWMutex::ReadLock` -/
  | readLock
  /-- `RWMutex::WriteLock` -/
  | writeLock
  deriving DecidableEq, Repr

/-- A live guard object: its type, the thread it lives on and its `m_locked`. -/
structure Guard where
  kind : GuardKind
  thread : ThreadId
  locked : Bool
  deriving DecidableEq, Repr

/-! ## The guards' bodies -/

/-- Constructor of a scoped guard over the acquisition it calls. -/
def ScopedLock.construct (acquire : RWMutex → Option RWMutex) (m : RWMutex) :
    Option (RWMutex × Bool) :=
  (acquire m).map fun m' => (m', true)

/-- `lock()` of a scoped guard: acquires only while `m_locked` is false. -/
def ScopedLock.lock (acquire : RWMutex → Option RWMutex) (m : RWMutex) (locked : Bool) :
    Option (RWMutex × Bool) :=
  if locked then some (m, locked) else (acquire m).map fun m' => (m', true)

/-- `unlock()` of a scoped guard: releases only while `m_locked` is true. -/
def ScopedLock.unlock (m : RWMutex) (t : ThreadId) (locked : Bool) : RWMutex × Bool :=
  if locked then (m.unlock t, false) else (m, locked)

/-- `ReadScopedLockImpl::ReadScopedLockImpl` -/
def ReadScopedLockImpl.construct := ScopedLock.construct RWMutex.rdlock

/-- `ReadScopedLockImpl::lock` -/
def ReadScopedLockImpl.lock := ScopedLock.lock RWMutex.rdlock

/-- `WriteScopedLockImpl::WriteScopedLockImpl`; the call in it is `m_mutex.rdlock()`. -/
def WriteScopedLockImpl.construct := ScopedLock.construct RWMutex.rdlock

/-- `WriteScopedLockImpl::lock`; the call in it is `m_mutex.rdlock()`. -/
def WriteScopedLockImpl.lock := ScopedLock.lock RWMutex.rdlock

/-- The constructor selected by the guard's type. -/
def GuardKind.construct : GuardKind → RWMutex → Option (RWMutex × Bool)
  | .readLock => ReadScopedLockImpl.construct
  | .writeLock => WriteScopedLockImpl.construct

/-- The `lock()` selected by the guard's type. -/
def GuardKind.lock : GuardKind → RWMutex → Bool → Option (RWMutex × Bool)
  | .readLock => ReadScopedLockImpl.lock
  | .writeLock => WriteScopedLockImpl.lock

/-! ## Interleavings of guard operations -/

/-- One mutex and every guard ever constructed on it; a destroyed guard leaves `none`. -/
structure Guards where
  mutex : RWMutex
  guards : List (Option Guard)
  deriving DecidableEq, Repr

/-- A fresh mutex without guards. -/
def Guards.init : Guards := ⟨RWMutex.init, []⟩

/-- One operation of one thread on one guard, taken at the moment it is granted. -/
inductive GuardOp
  | construct (k : GuardKind) (t : ThreadId)
  | lock (g : Nat)
  | unlock (g : Nat)
  | destroy (g : Nat)
  deriving DecidableEq, Repr

/-- The step of an operation; an acquisition that has to wait is not enabled yet. -/
def Guards.step (s : Guards) : GuardOp → Option Guards
  | .construct k t =>
    (k.construct s.mutex).map fun r => ⟨r.1, s.guards ++ [some ⟨k, t, r.2⟩]⟩
  | .lock g =>
    match s.guards[g]? with
    | some (some x) =>
      (x.kind.lock s.mutex x.locked).map fun r =>
        ⟨r.1, s.guards.set g (some { x with locked := r.2 })⟩
    | _ => none
  | .unlock g =>
    match s.guards[g]? with
    | some (some x) =>
      let r := ScopedLock.unlock s.mutex x.thread x.locked
      some ⟨r.1, s.guards.set g (some { x with locked := r.2 })⟩
    | _ => none
  | .destroy g =>
    match s.guards[g]? with
    | some (some x) => some ⟨(ScopedLock.unlock s.mutex x.thread x.locked).1, s.guards.set g none⟩
    | _ => none

/-- Guard `g` is alive, of type `k`, and its `m_locked` is true. -/
def Guards.Holds (s : Guards) (g : Nat) (k : GuardKind) : Prop :=
  ∃ x, s.guards[g]? = some (some x) ∧ x.kind = k ∧ x.locked = true

/-- At most one guard is held as a write lock, and then none as a read lock. -/
def Guards.Exclusive (s : Guards) : Prop :=
  (∀ g h, s.Holds g .writeLock → s.Holds h .writeLock → g = h) ∧
    ∀ g h, s.Holds g .writeLock → ¬ s.Holds h .readLock

/-- The type of the guard that takes the lock in this step, if one does. -/
def Guards.acquires (s : Guards) : GuardOp → Option GuardKind
  | .construct k _ => some k
  | .lock g =>
    match s.guards[g]? with
    | some (some x) => if x.locked then none else some x.kind
    | _ => none
  | .unlock _ | .destroy _ => none

/-- The lock is free for a guard of this type: nobody holds the underlying
rwlock for a write guard, no write guard is held for a read guard. -/
def Guards.Free (s : Guards) : GuardKind → Prop
  | .writeLock => s.mutex.readers = 0 ∧ s.mutex.writer = none
  | .readLock => ∀ g, ¬ s.Holds g .writeLock

/-- Every guard that takes the lock in this step finds it free for its type. -/
def Guards.FreeWhenTaken (s : Guards) (a : GuardOp) : Prop :=
  ∀ k, s.acquires a = some k → s.Free k

end Xupeng.Mutex
