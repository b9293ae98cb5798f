import Xupeng.Core.Run
import Xupeng.Models.FdManager.Interpretation.Entries
import Xupeng.Models.FdManager.Native.Threads

/-!
# Whether a descriptor has one context

The write-locked section of `get` does not look again whether a context has been made since
the lookup. If two threads ask for the context of a descriptor at once, each makes one,
and the second replaces the first. The calls share one context exactly when every
creation finds the entry still null.
-/

namespace Xupeng.FdManager

/-- All calls `get(fd, true)` have returned the context that `m_datas` has for the descriptor,
and what is changed through one result is read through every other. -/
structure OneContext (fd : Int) (s : Threads) : Prop where
  stored : ∀ p, ⟨fd, true, p⟩ ∈ s.returned → p.isSome ∧ p = s.process.fds.ptr fd
  seen : ∀ p q, ⟨fd, true, p⟩ ∈ s.returned → ⟨fd, true, q⟩ ∈ s.returned →
    ∀ f : FdCtx → FdCtx, ∃ ctx t, deref q s.process = .ok (some ctx) s.process ∧
      modify p f s.process = .ok () t ∧ deref q t = .ok (some (f ctx)) t

/-- A context for the descriptor is made only where there is none. -/
def CreatesMissing (fd : Int) (s : Threads) (a : Access) : Prop :=
  ∀ i, a = .create i → s.pending[i]? = some fd → s.process.fds.ptr fd = none

/-- The entries are sound, and a context of the descriptor is one that a call has returned. -/
structure Tracked (fd : Int) (s : Threads) : Prop where
  sound : s.process.fds.Sound
  returned : ∀ p, s.process.fds.ptr fd = some p → ⟨fd, true, some p⟩ ∈ s.returned

variable {s t : Threads} {a : Access} {fd : Int}

/-- A pointer into the list of contexts reads what was changed through it. -/
theorem deref_modify {process : Process} {p : Nat} {ctx : FdCtx}
    (hp : process.fds.heap[p]? = some ctx) (f : FdCtx → FdCtx) :
    ∃ t, modify (some p) f process = .ok () t ∧ deref (some p) t = .ok (some (f ctx)) t := by
  refine ⟨_, rfl, ?_⟩
  simp only [deref, Option.bind_some, List.getElem?_modify, hp, if_true]
  rfl

/-- With sound entries it is enough that the results are the stored pointer. -/
theorem oneContext_iff (h : s.process.fds.Sound) : OneContext fd s ↔
    ∀ p, ⟨fd, true, p⟩ ∈ s.returned → p.isSome ∧ p = s.process.fds.ptr fd := by
  refine ⟨OneContext.stored, fun hstored => ⟨hstored, fun p q hp hq f => ?_⟩⟩
  obtain ⟨hsome, hpeq⟩ := hstored p hp
  obtain ⟨-, hqeq⟩ := hstored q hq
  obtain ⟨r, rfl⟩ := Option.isSome_iff_exists.mp hsome
  cases hqeq.trans hpeq.symm
  obtain ⟨ctx, hctx, -⟩ := h.made fd r hpeq.symm
  obtain ⟨t, hmodify, hderef⟩ := deref_modify hctx f
  refine ⟨ctx, t, ?_, hmodify, hderef⟩
  simp only [deref, Option.bind_some, hctx]

/-- What a step of the threads can do when the entries are sound. -/
inductive Took (s : Threads) : Access → Threads → Prop
  | found (fd : Int) (auto_create : Bool)
      (h : (s.process.fds.ptr fd).isSome ∨ auto_create = false) :
    Took s (.lookup fd auto_create)
      { s with returned := s.returned ++ [⟨fd, auto_create, s.process.fds.ptr fd⟩] }
  | missed (fd : Int) (auto_create : Bool) :
    Took s (.lookup fd auto_create) { s with pending := s.pending ++ [fd] }
  | created (i : Nat) (fd : Int) (h : s.pending[i]? = some fd) (hfd : HasEntry fd) (ctx : FdCtx)
      (hctx : ctx.fd = fd) (k : Kernel) :
    Took s (.create i) ⟨⟨s.process.fds.stored fd ctx, k⟩, s.pending.eraseIdx i,
      s.returned ++ [⟨fd, true, some s.process.fds.heap.length⟩]⟩
  | deleted (fd : Int) (fds : FdManager) (hsound : fds.Sound)
      (h : ∀ fd', fds.ptr fd' = if fd' = fd then none else s.process.fds.ptr fd') :
    Took s (.del fd) { s with process.fds := fds }
  | set (i : Nat) (type : Int) (v : UInt64) (process : Process) (hsound : process.fds.Sound)
      (h : process.fds.ptr = s.process.fds.ptr) :
    Took s (.setTimeout i type v) { s with process := process }

/-- A change of the timeouts keeps the entries. -/
theorem modify_setTimeout {process : Process} (h : process.fds.Sound) (p : Nat) (type : Int)
    (v : UInt64) : ∃ t, modify (some p) (·.setTimeout type v) process = .ok () t ∧
      t.fds.Sound ∧ t.fds.ptr = process.fds.ptr := by
  refine ⟨_, rfl, ⟨h.length, fun fd q hq => ?_⟩, rfl⟩
  obtain ⟨ctx, hctx, hown⟩ := h.made fd q hq
  by_cases hpq : p = q
  · refine ⟨ctx.setTimeout type v, ?_, ?_⟩
    · rw [List.getElem?_modify, hctx]
      exact congrArg some (if_pos hpq)
    · unfold FdCtx.setTimeout
      split <;> exact hown
  · refine ⟨ctx, ?_, hown⟩
    rw [List.getElem?_modify, hctx]
    exact congrArg some (if_neg hpq)

/-- Every step of a thread is one of these. -/
theorem took_of_step (h : s.process.fds.Sound) (hs : s.step a = some t) : Took s a t := by
  cases a with
  | lookup fd auto_create =>
    simp only [Threads.step] at hs
    by_cases hfd : 0 ≤ fd
    · rw [find_of_nonneg hfd] at hs
      by_cases hfound : (s.process.fds.ptr fd).isSome ∨ auto_create = false
      · simp only [if_pos hfound, Option.some.injEq] at hs
        exact hs ▸ .found fd auto_create hfound
      · simp only [if_neg hfound, Option.some.injEq] at hs
        exact hs ▸ .missed fd auto_create
    · rw [find_of_neg (Int.not_le.mp hfd)] at hs
      cases hs
  | create i =>
    obtain ⟨fd, hi, hs⟩ := Option.bind_eq_some_iff.mp hs
    obtain ⟨⟨fds, p⟩, hstore, rfl⟩ := Option.map_eq_some_iff.mp hs
    rw [store_eq h] at hstore
    split at hstore
    · rename_i hfd
      cases hstore
      exact .created i fd hi hfd _ (new_fd fd _) _
    · cases hstore
  | del fd =>
    obtain ⟨fds, hdel, rfl⟩ := Option.map_eq_some_iff.mp hs
    have hfd : 0 ≤ fd := by
      by_contra hneg
      rw [del_of_neg (Int.not_le.mp hneg)] at hdel
      cases hdel
    obtain ⟨fds', hdel', hsound, hptr⟩ := del_eq h hfd
    cases hdel.symm.trans hdel'
    exact .deleted fd fds hsound hptr
  | setTimeout i type v =>
    obtain ⟨⟨fd, auto_create, p⟩, -, hs⟩ := Option.bind_eq_some_iff.mp hs
    cases p with
    | none => cases hs
    | some p =>
      obtain ⟨process, hmodify, hsound, hptr⟩ := modify_setTimeout h p type v
      simp only [hmodify, Option.some.injEq] at hs
      exact hs ▸ .set i type v process hsound hptr

/-- The invariant of the runs that do not delete the descriptor. -/
theorem Tracked.took (h : Tracked fd s) (ha : a ≠ .del fd) (ht : Took s a t) : Tracked fd t := by
  cases ht with
  | found fd' auto_create hfound =>
    exact ⟨h.sound, fun p hp => List.mem_append_left _ (h.returned p hp)⟩
  | missed fd' auto_create => exact ⟨h.sound, h.returned⟩
  | created i fd' hi hfd' ctx hctx k =>
    refine ⟨h.sound.stored hfd' hctx, fun p hp => ?_⟩
    rw [ptr_stored h.sound hfd'] at hp
    split at hp
    · rename_i heq
      cases hp
      rw [heq]
      exact List.mem_append_right _ List.mem_cons_self
    · exact List.mem_append_left _ (h.returned p hp)
  | deleted fd' fds hsound hptr =>
    refine ⟨hsound, fun p hp => ?_⟩
    rw [hptr, if_neg (by rintro rfl; exact ha rfl)] at hp
    exact h.returned p hp
  | set i type v process hsound hptr =>
    refine ⟨hsound, fun p hp => h.returned p ?_⟩
    rw [← hptr]
    exact hp

/-- A step keeps the one context exactly when it does not make a second one. -/
theorem Tracked.oneContext_iff_createsMissing (h : Tracked fd s) (hone : OneContext fd s)
    (ha : a ≠ .del fd) (ht : Took s a t) : OneContext fd t ↔ CreatesMissing fd s a := by
  have hstored := hone.stored
  rw [oneContext_iff (h.took ha ht).sound]
  cases ht with
  | found fd' auto_create hfound =>
    refine iff_of_true (fun p hp => ?_) nofun
    rcases List.mem_append.mp hp with hold | hnew
    · exact hstored p hold
    · obtain ⟨rfl, rfl, rfl⟩ : fd = fd' ∧ true = auto_create ∧ p = s.process.fds.ptr fd' := by
        simpa using hnew
      exact ⟨hfound.resolve_right nofun, rfl⟩
  | missed fd' auto_create => exact iff_of_true hstored nofun
  | created i fd' hi hfd' ctx hctx k =>
    constructor
    · intro hall j hj hfd
      cases hj
      cases hi.symm.trans hfd
      -- a context that was there is one that a call has returned, and it is replaced
      by_contra hne
      obtain ⟨p, hp⟩ := Option.ne_none_iff_exists'.mp hne
      obtain ⟨-, heq⟩ := hall (some p) (List.mem_append_left _ (h.returned p hp))
      rw [ptr_stored h.sound hfd', if_pos rfl] at heq
      cases heq
      obtain ⟨old, hold, -⟩ := h.sound.made _ _ hp
      exact absurd (List.getElem?_eq_some_iff.mp hold).1 (Nat.lt_irrefl _)
    · intro hnone p hp
      rw [ptr_stored h.sound hfd']
      rcases List.mem_append.mp hp with hold | hnew
      · obtain ⟨hsome, heq⟩ := hstored p hold
        refine ⟨hsome, ?_⟩
        rw [if_neg, heq]
        rintro rfl
        rw [heq, hnone i rfl hi] at hsome
        cases hsome
      · obtain ⟨rfl, rfl⟩ : fd = fd' ∧ p = some s.process.fds.heap.length := by
          simpa using hnew
        exact ⟨rfl, (if_pos rfl).symm⟩
  | deleted fd' fds hsound hptr =>
    refine iff_of_true (fun p hp => ?_) nofun
    have hne : fd ≠ fd' := by
      rintro rfl
      exact ha rfl
    rw [hptr, if_neg hne]
    exact hstored p hp
  | set i type v process hsound hptr =>
    refine iff_of_true (fun p hp => ?_) nofun
    rw [show process.fds.ptr fd = s.process.fds.ptr fd by rw [hptr]]
    exact hstored p hp

theorem init_tracked (fd : Int) (k : Kernel) : Tracked fd (.init k) := by
  refine ⟨new_sound, fun p hp => ?_⟩
  obtain ⟨ctx, hctx, -⟩ := new_sound.made fd p hp
  cases hctx

/-- In every run of the threads that does not delete the descriptor, the calls `get(fd, true)`
share the one context that is stored exactly when each creation finds none stored. -/
theorem one_context_iff (fd : Int) (k : Kernel) (as : List Access) (hdel : .del fd ∉ as)
    (hrun : (run Threads.step (.init k) as).isSome) :
    Along Threads.step (OneContext fd) (.init k) as ↔
      Guarded Threads.step (CreatesMissing fd) (.init k) as := by
  have hne {a : Access} (ha : a ∈ as) : a ≠ .del fd := fun heq => hdel (heq ▸ ha)
  refine along_iff_guarded_of_mem (I := Tracked fd) ?_ ?_ (init_tracked fd k) ?_ hrun
  · intro s t a ha hs _ _ ht
    exact hs.took (hne ha) (took_of_step hs.sound ht)
  · intro s t a ha hs hone ht
    exact hs.oneContext_iff_createsMissing hone (hne ha) (took_of_step hs.sound ht)
  · exact ⟨nofun, nofun⟩

/-- Two threads, of which the second asks when the first has made the context. -/
def oneAfterTheOther : List Access :=
  [.lookup 5 true, .create 0, .lookup 5 true, .setTimeout 0 SO_RCVTIMEO 100]

/-- Two threads ask for the same descriptor, one after the other. -/
theorem one_context_oneAfterTheOther :
    Along Threads.step (OneContext 5) (.init ⟨[], fun _ => none, []⟩) oneAfterTheOther := by
  refine (one_context_iff 5 _ oneAfterTheOther (by decide) (by rfl)).mpr ?_
  refine ⟨nofun, fun t ht => ?_⟩
  cases ht
  refine ⟨fun _ _ _ => rfl, fun t ht => ?_⟩
  cases ht
  refine ⟨nofun, fun t ht => ?_⟩
  cases ht
  exact ⟨nofun, fun t ht => trivial⟩

/-- Two threads that both look before either makes the context. The first sets a timeout. -/
def bothAtOnce : List Access :=
  [.lookup 5 true, .lookup 5 true, .create 0, .create 0, .setTimeout 0 SO_RCVTIMEO 100]

/-- The calls return different contexts, and the stored one does not have the timeout. -/
theorem two_contexts_bothAtOnce :
    ∃ s, run Threads.step (.init ⟨[], fun _ => none, []⟩) bothAtOnce = some s ∧
      s.returned = [⟨5, true, some 0⟩, ⟨5, true, some 1⟩] ∧ s.process.fds.ptr 5 = some 1 ∧
      (s.process.fds.heap.map fun ctx => ctx.getTimeout SO_RCVTIMEO) = [100, ~~~0] ∧
      ¬ OneContext 5 s := by
  refine ⟨_, rfl, rfl, rfl, rfl, fun h => ?_⟩
  cases (h.stored (some 0) List.mem_cons_self).2

end Xupeng.FdManager
