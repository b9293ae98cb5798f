import Xupeng.Models.Mutex.State
import Mathlib.Data.List.Count

/-!
# Reader/writer exclusion of the scoped guards

The underlying rwlock only ever sees read holds, one for each locked guard, so
it cannot keep a write guard alone. Exclusion therefore rests on the moment of
each acquisition, and holds along a run exactly when every guard takes the lock
while it is free for the guard's type.
-/

namespace Xupeng.Mutex

/-- The rwlock has no write hold and one read hold for each locked guard. -/
def Guards.Linked (s : Guards) : Prop :=
  s.mutex.writer = none ∧
    s.mutex.readers = s.guards.countP fun o => o.any fun x => x.locked

theorem Guards.init_linked : Guards.init.Linked := ⟨rfl, rfl⟩

/-- One guard changes the number of those that hold the lock by one. -/
private theorem countP_locked_set {l : List (Option Guard)} {g : Nat} {x : Guard}
    (h : l[g]? = some (some x)) (y : Option Guard) :
    (l.set g y).countP (fun o => o.any fun x => x.locked) + (if x.locked then 1 else 0) =
      l.countP (fun o => o.any fun x => x.locked) + (if y.any fun x => x.locked then 1 else 0) := by
  obtain ⟨hg, hx⟩ := List.getElem?_eq_some_iff.mp h
  rw [List.countP_set hg, hx]
  have hpos : x.locked = true → 0 < l.countP fun o => o.any fun x => x.locked := by
    intro hl
    exact List.countP_pos_iff.mpr ⟨some x, List.mem_of_getElem? h, hl⟩
  cases hl : x.locked
  · simp [hl]
  · have := hpos hl
    simp only [Option.any_some, hl, if_true]
    omega

/-- A granted read acquisition on a mutex without writer adds one read hold. -/
private theorem rdlock_eq_some {m m' : RWMutex} (h : m.rdlock = some m') :
    m'.writer = m.writer ∧ m'.readers = m.readers + 1 := by
  unfold RWMutex.rdlock at h
  split at h
  · cases h
    exact ⟨rfl, rfl⟩
  · cases h

/-- What a construction does, whichever type the guard has. -/
theorem GuardKind.construct_eq_some {k : GuardKind} {m : RWMutex} {r : RWMutex × Bool}
    (h : k.construct m = some r) :
    r.1.writer = m.writer ∧ r.1.readers = m.readers + 1 ∧ r.2 = true := by
  have h' : (m.rdlock.map fun m' => (m', true)) = some r := by cases k <;> exact h
  obtain ⟨m', hm, rfl⟩ := Option.map_eq_some_iff.mp h'
  exact ⟨(rdlock_eq_some hm).1, (rdlock_eq_some hm).2, rfl⟩

/-- What `lock()` does, whichever type the guard has. -/
theorem GuardKind.lock_eq_some {k : GuardKind} {m : RWMutex} {l : Bool} {r : RWMutex × Bool}
    (h : k.lock m l = some r) :
    r.1.writer = m.writer ∧ r.1.readers = m.readers + (if l then 0 else 1) ∧ r.2 = true := by
  have h' : ScopedLock.lock RWMutex.rdlock m l = some r := by cases k <;> exact h
  cases l with
  | true =>
    cases h'
    exact ⟨rfl, rfl, rfl⟩
  | false =>
    obtain ⟨m', hm, rfl⟩ := Option.map_eq_some_iff.mp h'
    exact ⟨(rdlock_eq_some hm).1, (rdlock_eq_some hm).2, rfl⟩

/-- What `unlock()` does on a mutex without writer. -/
theorem ScopedLock.unlock_of_no_writer {m : RWMutex} (h : m.writer = none) (t : ThreadId)
    (l : Bool) :
    (ScopedLock.unlock m t l).1.writer = none ∧
      (ScopedLock.unlock m t l).1.readers = m.readers - (if l then 1 else 0) ∧
        (ScopedLock.unlock m t l).2 = false := by
  cases l <;> simp [ScopedLock.unlock, RWMutex.unlock, h]

/-- The steps of the guards. -/
inductive Guards.Stepped (s : Guards) : GuardOp → Guards → Prop
  | construct {k : GuardKind} {i : ThreadId} {r : RWMutex × Bool}
      (granted : k.construct s.mutex = some r) :
      Stepped s (.construct k i) ⟨r.1, s.guards ++ [some ⟨k, i, r.2⟩]⟩
  | lock {g : Nat} {x : Guard} {r : RWMutex × Bool} (alive : s.guards[g]? = some (some x))
      (granted : x.kind.lock s.mutex x.locked = some r) :
      Stepped s (.lock g) ⟨r.1, s.guards.set g (some { x with locked := r.2 })⟩
  | unlock {g : Nat} {x : Guard} (alive : s.guards[g]? = some (some x)) :
      Stepped s (.unlock g)
        ⟨(ScopedLock.unlock s.mutex x.thread x.locked).1,
          s.guards.set g (some { x with
            locked := (ScopedLock.unlock s.mutex x.thread x.locked).2 })⟩
  | destroy {g : Nat} {x : Guard} (alive : s.guards[g]? = some (some x)) :
      Stepped s (.destroy g)
        ⟨(ScopedLock.unlock s.mutex x.thread x.locked).1, s.guards.set g none⟩

/-- Every step of a guard is one of these. -/
theorem Guards.stepped {s t : Guards} {a : GuardOp} (h : s.step a = some t) : s.Stepped a t := by
  cases a with
  | construct k i =>
    obtain ⟨r, hk, rfl⟩ := Option.map_eq_some_iff.mp h
    exact .construct hk
  | lock g =>
    simp only [step] at h
    split at h
    · rename_i x hx
      obtain ⟨r, hk, rfl⟩ := Option.map_eq_some_iff.mp h
      exact .lock hx hk
    · cases h
  | unlock g =>
    simp only [step] at h
    split at h
    · rename_i x hx
      cases h
      exact .unlock hx
    · cases h
  | destroy g =>
    simp only [step] at h
    split at h
    · rename_i x hx
      cases h
      exact .destroy hx
    · cases h

/-- Every guard operation keeps the rwlock and the `m_locked` flags linked. -/
theorem Guards.step_linked (s : Guards) (a : GuardOp) (t : Guards) (hs : s.Linked)
    (h : s.step a = some t) : t.Linked := by
  obtain ⟨hw, hr⟩ := hs
  cases stepped h with
  | construct granted =>
    obtain ⟨h1, h2, h3⟩ := GuardKind.construct_eq_some granted
    refine ⟨h1.trans hw, ?_⟩
    simp [h2, h3, hr]
  | @lock g x r alive granted =>
    obtain ⟨h1, h2, h3⟩ := GuardKind.lock_eq_some granted
    refine ⟨h1.trans hw, ?_⟩
    have hc := countP_locked_set alive (some { x with locked := r.2 })
    simp only [Option.any_some, h3] at hc ⊢
    cases hl : x.locked <;> simp [hl] at hc h2 <;> omega
  | @unlock g x alive =>
    obtain ⟨h1, h2, h3⟩ := ScopedLock.unlock_of_no_writer hw x.thread x.locked
    refine ⟨h1, ?_⟩
    have hc := countP_locked_set alive (some { x with locked := false })
    simp only [Option.any_some, h3] at hc ⊢
    cases hl : x.locked <;> simp [hl] at hc h2 ⊢ <;> omega
  | @destroy g x alive =>
    obtain ⟨h1, h2, _⟩ := ScopedLock.unlock_of_no_writer hw x.thread x.locked
    refine ⟨h1, ?_⟩
    have hc := countP_locked_set alive none
    cases hl : x.locked <;> simp [hl] at hc h2 ⊢ <;> omega

/-- In a linked state the rwlock is without holders exactly when no guard is held. -/
theorem Guards.Linked.free_writeLock_iff {s : Guards} (hs : s.Linked) :
    s.Free .writeLock ↔ ∀ g k, ¬ s.Holds g k := by
  simp only [Free, hs.1, hs.2, and_true, List.countP_eq_zero]
  constructor
  · rintro h g k ⟨x, hx, -, hl⟩
    exact h (some x) (List.mem_of_getElem? hx) hl
  · intro h o ho hl
    obtain ⟨g, hg⟩ := List.mem_iff_getElem?.mp ho
    cases o with
    | none => cases hl
    | some x => exact h g x.kind ⟨x, hg, rfl, hl⟩

/-- Holding in a guard list with one entry replaced. -/
private theorem holds_set {s : Guards} {g : Nat} {x : Guard}
    (hx : s.guards[g]? = some (some x)) (m : RWMutex) (y : Option Guard) (h : Nat)
    (k : GuardKind) :
    (Guards.mk m (s.guards.set g y)).Holds h k ↔
      if h = g then ∃ z, y = some z ∧ z.kind = k ∧ z.locked = true else s.Holds h k := by
  obtain ⟨hg, -⟩ := List.getElem?_eq_some_iff.mp hx
  unfold Guards.Holds
  by_cases he : h = g
  · subst he
    simp [hg]
  · simp [List.getElem?_set_ne (Ne.symm he), he]

/-- Holding in a guard list with one entry more. -/
private theorem holds_append (s : Guards) (m : RWMutex) (x : Guard) (h : Nat) (k : GuardKind) :
    (Guards.mk m (s.guards ++ [some x])).Holds h k ↔
      s.Holds h k ∨ h = s.guards.length ∧ x.kind = k ∧ x.locked = true := by
  unfold Guards.Holds
  rcases Nat.lt_trichotomy h s.guards.length with hlt | rfl | hgt
  · simp [List.getElem?_append_left hlt, Nat.ne_of_lt hlt]
  · simp
  · have hold : s.guards[h]? = none := List.getElem?_eq_none (Nat.le_of_lt hgt)
    have hnew : (s.guards ++ [some x])[h]? = none := by
      rw [List.getElem?_eq_none_iff, List.length_append, List.length_singleton]
      exact hgt
    simp [hold, hnew, Nat.ne_of_gt hgt]

/-- An entry that holds the lock only if it did before lets no other guard hold it. -/
private theorem holds_of_holds_set {s : Guards} {g : Nat} {x : Guard}
    (hx : s.guards[g]? = some (some x)) {m : RWMutex} {y : Option Guard}
    (hy : ∀ z, y = some z → z.locked = true → z.kind = x.kind ∧ x.locked = true) {h : Nat}
    {k : GuardKind} (hset : (Guards.mk m (s.guards.set g y)).Holds h k) : s.Holds h k := by
  rw [holds_set hx] at hset
  split at hset
  · rename_i heq
    obtain ⟨z, hz, rfl, hlocked⟩ := hset
    obtain ⟨hkind, hold⟩ := hy z hz hlocked
    exact heq ▸ ⟨x, hx, hkind.symm, hold⟩
  · exact hset

/-- A step either lets one more guard hold the lock, of the type it acquires
for, or lets no guard hold it that did not before. -/
theorem Guards.step_holds {s t : Guards} {a : GuardOp} (h : s.step a = some t) :
    (∃ k g, s.acquires a = some k ∧ (∀ j, ¬ s.Holds g j) ∧
      ∀ i j, t.Holds i j ↔ s.Holds i j ∨ i = g ∧ j = k) ∨
    s.acquires a = none ∧ ∀ i j, t.Holds i j → s.Holds i j := by
  cases stepped h with
  | @construct k thread r granted =>
    refine Or.inl ⟨k, s.guards.length, rfl, ?_, fun i j => ?_⟩
    · rintro j ⟨x, hx, -⟩
      simp at hx
    · rw [holds_append, (GuardKind.construct_eq_some granted).2.2]
      simp [eq_comm]
  | @lock g x r alive granted =>
    have hlocked := (GuardKind.lock_eq_some granted).2.2
    cases hl : x.locked with
    | false =>
      refine Or.inl ⟨x.kind, g, by simp [acquires, alive, hl], ?_, fun i j => ?_⟩
      · rintro j ⟨y, hy, -, hyl⟩
        cases Option.some.inj (Option.some.inj (alive.symm.trans hy))
        simp [hl] at hyl
      · rw [holds_set alive]
        by_cases hi : i = g
        · subst hi
          simp only [Holds, alive, hlocked, hl, if_true, Option.some.injEq, exists_eq_left',
            and_true, Bool.false_eq_true, and_false, false_or, true_and]
          exact eq_comm
        · simp [hi]
    | true =>
      refine Or.inr ⟨by simp [acquires, alive, hl], fun i j => holds_of_holds_set alive ?_⟩
      rintro z hz -
      cases hz
      exact ⟨rfl, hl⟩
  | @unlock g x alive =>
    refine Or.inr ⟨rfl, fun i j => holds_of_holds_set alive ?_⟩
    rintro z hz hlocked
    cases hz
    cases hl : x.locked <;> simp [ScopedLock.unlock, hl] at hlocked
  | destroy alive =>
    refine Or.inr ⟨rfl, fun i j => holds_of_holds_set alive ?_⟩
    rintro z hz
    cases hz

/-- From an exclusive state, a step reaches an exclusive state exactly when a
guard that takes the lock in it finds the lock free for its type. -/
theorem Guards.step_exclusive_iff (s : Guards) (a : GuardOp) (t : Guards) (hs : s.Linked)
    (he : s.Exclusive) (h : s.step a = some t) : t.Exclusive ↔ s.FreeWhenTaken a := by
  rcases step_holds h with ⟨k, g, ha, hg, ht⟩ | ⟨ha, ht⟩
  · simp only [FreeWhenTaken, ha, Option.some.injEq, forall_eq']
    cases k with
    | writeLock =>
      rw [hs.free_writeLock_iff]
      constructor
      · intro hex i j hij
        have hgt : t.Holds g .writeLock := (ht g .writeLock).mpr (Or.inr ⟨rfl, rfl⟩)
        cases j with
        | readLock => exact hex.2 g i hgt ((ht i .readLock).mpr (Or.inl hij))
        | writeLock =>
          have hi := hex.1 i g ((ht i .writeLock).mpr (Or.inl hij)) hgt
          exact hg .writeLock (hi ▸ hij)
      · intro hfree
        have honly (i : Nat) (j : GuardKind) (hij : t.Holds i j) : i = g ∧ j = .writeLock :=
          ((ht i j).mp hij).resolve_left (hfree i j)
        refine ⟨fun i j hi hj => (honly i _ hi).1.trans (honly j _ hj).1.symm, ?_⟩
        intro i j _ hj
        cases (honly j _ hj).2
    | readLock =>
      have hw (i : Nat) : t.Holds i .writeLock ↔ s.Holds i .writeLock := by simp [ht]
      constructor
      · intro hex i hi
        exact hex.2 i g ((hw i).mpr hi) ((ht g .readLock).mpr (Or.inr ⟨rfl, rfl⟩))
      · intro hfree
        exact ⟨fun i j hi _ => absurd ((hw i).mp hi) (hfree i),
          fun i j hi _ => absurd ((hw i).mp hi) (hfree i)⟩
  · refine iff_of_true ⟨?_, ?_⟩ (by simp [FreeWhenTaken, ha])
    · intro i j hi hj
      exact he.1 i j (ht i _ hi) (ht j _ hj)
    · intro i j hi hj
      exact he.2 i j (ht i _ hi) (ht j _ hj)

theorem Guards.init_exclusive : Guards.init.Exclusive := by
  constructor <;> rintro g h ⟨x, hx, -⟩ <;> simp [init] at hx

/-- In every run of guard operations, by any threads in any order, the guards
exclude one another in every state reached exactly when every step that takes
the lock finds it free for the type of guard that takes it. -/
theorem exclusive_along_iff_freeWhenTaken (ops : List GuardOp)
    (hr : (run Guards.step Guards.init ops).isSome) :
    Along Guards.step Guards.Exclusive Guards.init ops ↔
      Guarded Guards.step Guards.FreeWhenTaken Guards.init ops :=
  along_iff_guarded (fun s a t hs _ _ => Guards.step_linked s a t hs) Guards.step_exclusive_iff
    Guards.init_linked Guards.init_exclusive hr

/-- No write guard is held exactly if none of the guards is one. -/
theorem Guards.free_readLock_iff {s : Guards} : s.Free .readLock ↔
    ∀ o ∈ s.guards, ∀ x ∈ o, x.kind = .writeLock → x.locked = false := by
  constructor
  · intro h o ho x hx hkind
    obtain ⟨g, hg⟩ := List.getElem?_of_mem ho
    exact Bool.eq_false_iff.mpr fun hlocked => h g ⟨x, hg.trans (congrArg some hx), hkind, hlocked⟩
  · rintro h g ⟨x, hg, hkind, hlocked⟩
    cases hlocked.symm.trans (h _ (List.mem_of_getElem? hg) x rfl hkind)

instance (s : Guards) : (k : GuardKind) → Decidable (s.Free k)
  | .writeLock => inferInstanceAs (Decidable (_ ∧ _))
  | .readLock => decidable_of_iff _ Guards.free_readLock_iff.symm

instance (s : Guards) (a : GuardOp) : Decidable (s.FreeWhenTaken a) :=
  decidableForallStep (P := s.Free) (s.acquires a)

/-- Two readers, released, then a lone writer: a run that meets the condition. -/
theorem exclusive_along_readers_then_writer :
    let ops : List GuardOp := [.construct .readLock 1, .construct .readLock 2, .unlock 0,
      .destroy 1, .construct .writeLock 1]
    Guarded Guards.step Guards.FreeWhenTaken Guards.init ops ∧
      (run Guards.step Guards.init ops).isSome ∧
      Along Guards.step Guards.Exclusive Guards.init ops := by
  intro ops
  have hfree : Guarded Guards.step Guards.FreeWhenTaken Guards.init ops := by decide
  exact ⟨hfree, by decide, (exclusive_along_iff_freeWhenTaken ops (by decide)).mpr hfree⟩

/-- Two threads construct a write guard each, and both hold the lock. -/
theorem two_writeLocks_held :
    ∃ s, run Guards.step Guards.init [.construct .writeLock 1, .construct .writeLock 2] = some s ∧
      ¬ s.Exclusive := by
  refine ⟨_, rfl, ?_⟩
  rintro ⟨h, -⟩
  have h01 := h 0 1 ⟨_, rfl, rfl, rfl⟩ ⟨_, rfl, rfl, rfl⟩
  cases h01

end Xupeng.Mutex
