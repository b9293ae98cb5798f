import Xupeng.Core.Run
import Xupeng.Models.FdManager.Interpretation.Entries
import Xupeng.Models.Hook.Native.Functions
import Xupeng.Models.Socket.Native.Timeouts

/-!
# The descriptor manager as a map

`m_datas` is never resized, so a context can be made for the descriptors below 64 only, and
neither `get` nor `del` tests for a negative one. Within these bounds the manager is the
map that it is meant to be.
-/

namespace Xupeng.FdManager

/-- The calls on the manager. -/
inductive Op
  | get (fd : Int) (auto_create : Bool)
  | del (fd : Int)
  deriving DecidableEq, Repr

/-- What a call does to the process; none when it accesses `m_datas` outside of its bounds. -/
def step (s : Process) : Op → Option Process
  | .get fd auto_create =>
    match get fd auto_create s with
    | .ok _ t => some t
    | _ => none
  | .del fd => (s.fds.del fd).map fun fds => { s with fds := fds }

/-- The descriptors for which a call is within bounds. -/
def Op.InBounds : Op → Prop
  | .get fd true => 0 ≤ fd ∧ fd < 64
  | .get fd false => 0 ≤ fd
  | .del fd => 0 ≤ fd

instance : (op : Op) → Decidable op.InBounds
  | .get _ true => inferInstanceAs (Decidable (_ ∧ _))
  | .get _ false => inferInstanceAs (Decidable (_ ≤ _))
  | .del _ => inferInstanceAs (Decidable (_ ≤ _))

/-- The manager is a map for the descriptor: a context that was asked for is there, and stays
until it is deleted; one that was deleted is gone until it is asked for. -/
structure IsMap (fd : Int) (s : Process) : Prop where
  found : fd < 64 → ∃ p ctx t, get fd true s = .ok (some p) t ∧
    t.fds.heap[p]? = some ctx ∧ ctx.fd = fd ∧
    ∀ ops u, run step t ops = some u → .del fd ∉ ops → ∀ b, get fd b u = .ok (some p) u
  deleted : ∃ t, step s (.del fd) = some t ∧
    ∀ ops u, run step t ops = some u → .get fd true ∉ ops → get fd false u = .ok none u

variable {s t : Process} {op : Op} {fd : Int} {p : Nat}

/-- What a step within bounds does: it leaves the entries alone, makes the context of one
descriptor, or deletes it. -/
theorem step_cases (h : s.fds.Sound) (hin : op.InBounds) : ∃ t, step s op = some t ∧
    t.fds.Sound ∧
      (t = s ∨
        (∃ fd, op = .get fd true ∧ s.fds.ptr fd = none ∧
          ∀ fd', t.fds.ptr fd' = if fd' = fd then some s.fds.heap.length else s.fds.ptr fd') ∨
        ∃ fd, op = .del fd ∧
          ∀ fd', t.fds.ptr fd' = if fd' = fd then none else s.fds.ptr fd') := by
  rcases op with ⟨fd, _ | _⟩ | fd
  · have hget := get_of_found (s := s) hin false (.inr rfl)
    exact ⟨s, by simp only [step, hget], h, .inl rfl⟩
  · by_cases hnone : s.fds.ptr fd = none
    · have hget := get_of_missing h hin hnone
      refine ⟨_, by simp only [step, hget]; rfl, h.stored hin (new_fd fd s.kernel), ?_⟩
      exact .inr (.inl ⟨fd, rfl, hnone, ptr_stored h hin _⟩)
    · have hget := get_of_found (s := s) hin.1 true
        (.inl (Option.isSome_iff_ne_none.mpr hnone))
      exact ⟨s, by simp only [step, hget], h, .inl rfl⟩
  · obtain ⟨fds, hdel, hsound, hptr⟩ := del_eq h hin
    exact ⟨{ s with fds := fds }, by simp only [step, hdel, Option.map_some], hsound,
      .inr (.inr ⟨fd, rfl, hptr⟩)⟩

/-- Outside of the bounds there is no step. -/
theorem step_eq_none (h : s.fds.Sound) (hout : ¬ op.InBounds) : step s op = none := by
  rcases op with ⟨fd, _ | _⟩ | fd
  · simp only [step, get_of_neg (Int.not_le.mp hout)]
  · have hcase : fd < 0 ∨ 64 ≤ fd := by
      have hout : ¬ (0 ≤ fd ∧ fd < 64) := hout
      omega
    rcases hcase with hneg | hge
    · simp only [step, get_of_neg hneg]
    · simp only [step, get_of_ge h hge]
  · simp only [step, del_of_neg (Int.not_le.mp hout), Option.map_none]

/-- What has not failed was within the bounds. -/
theorem inBounds_of_step (h : s.fds.Sound) (hs : step s op = some t) : op.InBounds := by
  by_contra hout
  rw [step_eq_none h hout] at hs
  cases hs

/-- Every call keeps the manager sound. -/
theorem sound_step (h : s.fds.Sound) (hs : step s op = some t) : t.fds.Sound := by
  obtain ⟨u, hu, hsound, -⟩ := step_cases h (inBounds_of_step h hs)
  exact Option.some.inj (hu.symm.trans hs) ▸ hsound

/-- A context stays until it is deleted. -/
theorem ptr_step_of_ne_del (h : s.fds.Sound) (hs : step s op = some t) (hop : op ≠ .del fd)
    (hp : s.fds.ptr fd = some p) : t.fds.ptr fd = some p := by
  obtain ⟨u, hu, -, hcase⟩ := step_cases h (inBounds_of_step h hs)
  cases Option.some.inj (hu.symm.trans hs)
  obtain rfl | ⟨fd', rfl, hnone, hptr⟩ | ⟨fd', rfl, hptr⟩ := hcase
  · exact hp
  · rw [hptr]
    split
    · rename_i heq
      rw [← heq, hp] at hnone
      cases hnone
    · exact hp
  · rw [hptr, if_neg (by rintro rfl; exact hop rfl)]
    exact hp

/-- Where there is no context there is none until it is asked for. -/
theorem ptr_step_of_ne_get (h : s.fds.Sound) (hs : step s op = some t)
    (hop : op ≠ .get fd true) (hp : s.fds.ptr fd = none) : t.fds.ptr fd = none := by
  obtain ⟨u, hu, -, hcase⟩ := step_cases h (inBounds_of_step h hs)
  cases Option.some.inj (hu.symm.trans hs)
  obtain rfl | ⟨fd', rfl, -, hptr⟩ | ⟨fd', rfl, hptr⟩ := hcase
  · exact hp
  · rw [hptr, if_neg (by rintro rfl; exact hop rfl)]
    exact hp
  · rw [hptr]
    split
    · rfl
    · exact hp

/-- What an operation other than `op` keeps, a run without `op` keeps. -/
theorem ptr_run {x : Option Nat} (op : Op)
    (hstep : ∀ s t a, s.fds.Sound → step s a = some t → a ≠ op → s.fds.ptr fd = x →
      t.fds.ptr fd = x)
    {ops : List Op} (h : s.fds.Sound) (hs : run step s ops = some t) (hop : op ∉ ops)
    (hx : s.fds.ptr fd = x) : t.fds.ptr fd = x := by
  induction ops generalizing s with
  | nil =>
    cases hs
    exact hx
  | cons a ops ih =>
    obtain ⟨u, ha, hu⟩ := run_cons_eq_some.mp hs
    rw [List.mem_cons, not_or] at hop
    exact ih (sound_step h ha) hu hop.2 (hstep s u a h ha (Ne.symm hop.1) hx)

/-- A descriptor with an entry gets a context. -/
theorem get_true (h : s.fds.Sound) (hfd : HasEntry fd) : ∃ p t, get fd true s = .ok (some p) t ∧
    t.fds.Sound ∧ t.fds.ptr fd = some p := by
  cases hptr : s.fds.ptr fd with
  | none =>
    refine ⟨_, _, get_of_missing h hfd hptr, h.stored hfd (new_fd fd s.kernel), ?_⟩
    rw [ptr_stored h hfd, if_pos rfl]
  | some p =>
    have hget := get_of_found (s := s) hfd.1 true (.inl (by rw [hptr]; rfl))
    rw [hptr] at hget
    exact ⟨p, s, hget, h, hptr⟩

/-- On the descriptors that are not negative it is a map. -/
theorem Sound.isMap (h : s.fds.Sound) (hfd : 0 ≤ fd) : IsMap fd s := by
  constructor
  · intro hlt
    obtain ⟨p, t, hget, hsound, hptr⟩ := get_true h ⟨hfd, hlt⟩
    obtain ⟨ctx, hctx, hown⟩ := hsound.made fd p hptr
    refine ⟨p, ctx, t, hget, hctx, hown, fun ops u hu hops b => ?_⟩
    have hkept := ptr_run (.del fd) (fun _ _ _ hs ha hne => ptr_step_of_ne_del hs ha hne)
      hsound hu hops hptr
    rw [get_of_found hfd b (.inl (by rw [hkept]; rfl)), hkept]
  · obtain ⟨fds, hdel, hsound, hptr⟩ := del_eq h hfd
    refine ⟨{ s with fds := fds }, by simp only [step, hdel, Option.map_some],
      fun ops u hu hops => ?_⟩
    have hkept := ptr_run (.get fd true) (fun _ _ _ hs ha hne => ptr_step_of_ne_get hs ha hne)
      hsound hu hops ((hptr fd).trans (if_pos rfl))
    rw [get_of_found hfd false (.inr rfl), hkept]

/-- A run is possible exactly when each of its calls is within bounds. -/
theorem isSome_run_iff (h : s.fds.Sound) (ops : List Op) :
    (run step s ops).isSome ↔ ∀ op ∈ ops, op.InBounds := by
  induction ops generalizing s with
  | nil => simp
  | cons op ops ih =>
    rw [List.forall_mem_cons]
    by_cases hin : op.InBounds
    · obtain ⟨t, ht, hsound, -⟩ := step_cases h hin
      simp only [run, ht, Option.bind_some, ih hsound, hin, true_and]
    · simp [run, step_eq_none h hin, hin]

/-- Every access of a sequence of calls is within the bounds of `m_datas` exactly when contexts
are made for descriptors from 0 to 63 only and no descriptor is negative; and as long as
they are, the manager is a map. -/
theorem descriptors_mapped_iff (k : Kernel) (ops : List Op) :
    ((run step ⟨.new, k⟩ ops).isSome ↔ ∀ op ∈ ops, op.InBounds) ∧
      Along step (fun s => ∀ fd, 0 ≤ fd → IsMap fd s) ⟨.new, k⟩ ops := by
  refine ⟨isSome_run_iff new_sound ops, ?_⟩
  refine along_of_invariant (I := fun s : Process => s.fds.Sound) ?_ ?_ new_sound ops
  · intro s a t hs ht
    exact sound_step hs ht
  · intro s hs fd hfd
    exact hs.isMap hfd

/-- A process that has opened nothing. -/
def noDescriptors : Process := ⟨.new, ⟨[], fun _ => none, []⟩⟩

/-- The hooked `socket` stores behind the last entry once the kernel returns 64, and a `Socket`
that has no descriptor yet reads in front of the first one when asked for its timeout. -/
theorem descriptors_not_mapped :
    Hook.socket true 2 1 0 (.succeeds 64) noDescriptors = .fault ∧
      (⟨none, 2, 1, 0, false, none, none⟩ : Socket).getSendTimeout noDescriptors = .fault ∧
      (run step noDescriptors [.get 64 true]).isSome = false ∧
      (run step noDescriptors [.get (-1) false]).isSome = false ∧
      (run step noDescriptors [.del (-1)]).isSome = false := by
  refine ⟨?_, ?_, ?_, ?_, ?_⟩ <;> rfl

end Xupeng.FdManager
