import Xupeng.Models.FdManager.State

/-!
# The entries of the descriptor manager

The constructor gives `m_datas` 64 entries and nothing changes their number. What `get`,
the storing of a new context and `del` do to an entry is said here once, for a descriptor
that has one.
-/

namespace Xupeng.FdManager

variable {fd fd' : Int} {m m' : FdManager} {ctx : FdCtx} {p : Nat}

/-- The vector has the entries of the constructor, and they point to contexts of their own
descriptors. -/
structure Sound (m : FdManager) : Prop where
  length : m.datas.length = 64
  made : ∀ fd p, m.ptr fd = some p → ∃ ctx, m.heap[p]? = some ctx ∧ ctx.fd = fd

/-- The descriptor has an entry. -/
def HasEntry (fd : Int) : Prop := 0 ≤ fd ∧ fd < 64

instance (fd : Int) : Decidable (HasEntry fd) := inferInstanceAs (Decidable (_ ∧ _))

/-- The entry with the number of the descriptor. -/
theorem ptr_of_nonneg (h : 0 ≤ fd) (m : FdManager) : m.ptr fd = (m.datas[fd.toNat]?).join :=
  if_pos h

/-- A negative descriptor has no context. -/
theorem nonneg_of_ptr (hp : m.ptr fd = some p) : 0 ≤ fd := by
  by_contra hneg
  rw [ptr, if_neg hneg] at hp
  cases hp

/-- Where there is a context there is an entry. -/
theorem hasEntry_of_ptr (h : m.Sound) (hp : m.ptr fd = some p) : HasEntry fd := by
  unfold ptr at hp
  split at hp
  · rename_i hfd
    have hlt : fd.toNat < m.datas.length := by
      by_contra hge
      rw [List.getElem?_eq_none (Nat.le_of_not_lt hge)] at hp
      cases hp
    have hlength := h.length
    exact ⟨hfd, by omega⟩
  · cases hp

theorem new_sound : new.Sound := by
  refine ⟨List.length_replicate, fun fd p hp => ?_⟩
  unfold ptr new at hp
  split at hp
  · rw [List.getElem?_replicate] at hp
    split at hp <;> cases hp
  · cases hp

/-! ## Changing an entry -/

/-- Two descriptors that are not negative have different entries. -/
theorem ptr_set (h : m.Sound) (hfd : HasEntry fd) (x : Option Nat) (heap : List FdCtx)
    (fd' : Int) :
    ptr ⟨heap, m.datas.set fd.toNat x⟩ fd' = if fd' = fd then x else m.ptr fd' := by
  obtain ⟨hlow, hhigh⟩ := hfd
  have hlength := h.length
  unfold ptr
  by_cases hnonneg : 0 ≤ fd'
  · rw [if_pos hnonneg, if_pos hnonneg, List.getElem?_set]
    by_cases heq : fd' = fd
    · rw [if_pos heq, if_pos (by omega), if_pos (by omega)]
      rfl
    · rw [if_neg heq, if_neg (by omega)]
  · rw [if_neg hnonneg, if_neg hnonneg, if_neg (by omega)]

/-- The manager after `m_datas[fd] = ctx`. -/
def stored (fd : Int) (ctx : FdCtx) (m : FdManager) : FdManager :=
  ⟨m.heap ++ [ctx], m.datas.set fd.toNat (some m.heap.length)⟩

/-- A context is stored only where there is an entry. -/
theorem store_eq (h : m.Sound) (fd : Int) (ctx : FdCtx) :
    m.store fd ctx = if HasEntry fd then some (m.stored fd ctx, m.heap.length) else none := by
  unfold store HasEntry stored
  rw [h.length]
  rfl

/-- No other descriptor gets another context. -/
theorem ptr_stored (h : m.Sound) (hfd : HasEntry fd) (ctx : FdCtx) (fd' : Int) :
    (m.stored fd ctx).ptr fd' = if fd' = fd then some m.heap.length else m.ptr fd' :=
  ptr_set h hfd _ _ fd'

/-- The manager stays sound if the context is of that descriptor. -/
theorem Sound.stored (h : m.Sound) (hfd : HasEntry fd) (hctx : ctx.fd = fd) :
    (m.stored fd ctx).Sound := by
  refine ⟨(List.length_set).trans h.length, fun fd' p hp => ?_⟩
  rw [ptr_stored h hfd] at hp
  split at hp
  · rename_i heq
    cases hp
    exact ⟨ctx, List.getElem?_concat_length, hctx.trans heq.symm⟩
  · obtain ⟨old, hold, hown⟩ := h.made fd' p hp
    have hlt : p < m.heap.length := (List.getElem?_eq_some_iff.mp hold).1
    exact ⟨old, (List.getElem?_append_left hlt).trans hold, hown⟩

/-- `del` of a descriptor that is not negative. Without an entry there is nothing to do. -/
theorem del_eq (h : m.Sound) (hfd : 0 ≤ fd) :
    ∃ t, m.del fd = some t ∧ t.Sound ∧ ∀ fd', t.ptr fd' = if fd' = fd then none else m.ptr fd' := by
  have hlength := h.length
  unfold del
  by_cases hhigh : (m.datas.length : Int) ≤ fd
  · refine ⟨m, if_pos hhigh, h, fun fd' => ?_⟩
    split
    · rename_i heq
      rw [heq, ptr_of_nonneg hfd, List.getElem?_eq_none (by omega)]
      rfl
    · rfl
  · have hentry : HasEntry fd := ⟨hfd, by omega⟩
    rw [if_neg hhigh, if_neg (by omega)]
    have hptr := ptr_set h hentry none m.heap
    refine ⟨_, rfl, ⟨(List.length_set).trans h.length, fun fd' p hp => ?_⟩, hptr⟩
    rw [hptr] at hp
    split at hp
    · cases hp
    · exact h.made fd' p hp

theorem del_of_neg (hfd : fd < 0) (m : FdManager) : m.del fd = none := by
  rw [del, if_neg (by omega), if_pos hfd]

/-! ## `get` -/

theorem find_of_neg (hfd : fd < 0) (auto_create : Bool) (m : FdManager) :
    m.find fd auto_create = .outOfBounds := by
  rw [find, if_neg (by omega), if_pos hfd]

/-- The read-locked section returns the pointer of the entry, except where a context is to be
made. -/
theorem find_of_nonneg (hfd : 0 ≤ fd) (auto_create : Bool) (m : FdManager) :
    m.find fd auto_create =
      if (m.ptr fd).isSome ∨ auto_create = false then .ptr (m.ptr fd) else .missing := by
  have hptr := ptr_of_nonneg hfd m
  unfold find
  by_cases hhigh : (m.datas.length : Int) ≤ fd
  · rw [List.getElem?_eq_none (by omega)] at hptr
    rw [if_pos hhigh, hptr]
    cases auto_create <;> rfl
  · rw [if_neg hhigh, if_neg (by omega), ← hptr]
    cases auto_create <;> simp

theorem new_fd (fd : Int) (k : Kernel) : (FdCtx.new fd k).1.fd = fd := by
  unfold FdCtx.new FdCtx.init
  rw [if_neg Bool.false_ne_true]
  dsimp only
  cases k.file fd with
  | none => rfl
  | some f =>
    dsimp only
    split <;> rfl

/-- `get` reads the entry of a descriptor that is not negative. -/
theorem get_of_found {s : Process} (hfd : 0 ≤ fd) (auto_create : Bool)
    (hfound : (s.fds.ptr fd).isSome ∨ auto_create = false) :
    get fd auto_create s = .ok (s.fds.ptr fd) s := by
  rw [get, find_of_nonneg hfd, if_pos hfound]

/-- `get` makes a context for a descriptor that has an entry and no context. -/
theorem get_of_missing {s : Process} (h : s.fds.Sound) (hfd : HasEntry fd)
    (hnone : s.fds.ptr fd = none) :
    get fd true s = .ok (some s.fds.heap.length)
      ⟨s.fds.stored fd (FdCtx.new fd s.kernel).1, (FdCtx.new fd s.kernel).2⟩ := by
  rw [get, find_of_nonneg hfd.1, if_neg (by simp [hnone])]
  simp only [store_eq h, if_pos hfd]

theorem get_of_neg (hfd : fd < 0) (auto_create : Bool) (s : Process) :
    get fd auto_create s = .fault := by
  rw [get, find_of_neg hfd]

/-- Behind the entries there is no place for a new context. -/
theorem get_of_ge {s : Process} (h : s.fds.Sound) (hfd : 64 ≤ fd) : get fd true s = .fault := by
  have hentry : ¬ HasEntry fd := fun hin => by
    have := hin.2
    omega
  have hnone : s.fds.ptr fd = none := by
    by_contra hsome
    obtain ⟨p, hp⟩ := Option.ne_none_iff_exists'.mp hsome
    exact hentry (hasEntry_of_ptr h hp)
  rw [get, find_of_nonneg (by omega), if_neg (by simp [hnone])]
  simp only [store_eq h, if_neg hentry]

/-- The pointer of a descriptor is read by `get` and `deref`. -/
theorem get_bind_deref {β : Type} {process : Process} (hptr : process.fds.ptr fd = some p)
    (hctx : process.fds.heap[p]? = some ctx) (next : Option FdCtx → Program Empty Process β) :
    (do next (← deref (← get fd false))) process =
      next (some ctx) process := by
  have hnonneg := nonneg_of_ptr hptr
  have hget := get_of_found (s := process) hnonneg false (.inr rfl)
  have hderef : deref (some p) process = .ok (some ctx) process := by
    simp only [deref, Option.bind_some, hctx]
  rw [Program.bind_of_ok hget, hptr, Program.bind_of_ok hderef]

end Xupeng.FdManager
