import Mathlib.Data.List.Nodup
import Mathlib.Data.List.Perm.Basic
import Mathlib.Data.Prod.Lex
import Xupeng.Core.Ordered
import Xupeng.Models.Timer.Native.Operation

/-!
# The set of timers

`m_timers` is ordered by deadline and address, and it holds the timers that have a
callback. The deadlines are members of the timers themselves, so the set is in
order only because an operation takes a timer out before it changes its deadline.
The invariant is therefore stated with the timers that an operation has taken out
and not yet put back.
-/

namespace Xupeng.TimerManager

variable {C : Type} {m : TimerManager C} {p q i : Nat} {held : List Nat}

/-! ## Keys -/

/-- The key of a timer in the set. -/
def key (m : TimerManager C) (p : Nat) : ℕ ×ₗ ℕ :=
  toLex ((m.deref p).next.toNat, (m.deref p).addr)

/-- The comparator compares the keys. -/
theorem less_iff_key_lt (m : TimerManager C) (p q : Nat) :
    (m.deref p).less (m.deref q) = true ↔ m.key p < m.key q := by
  unfold Timer.less key
  rw [Prod.Lex.toLex_lt_toLex, ← UInt64.lt_iff_toNat_lt]
  split
  · rename_i hlt
    simp [hlt]
  · rename_i hge
    split
    · rename_i hgt
      have hne : (m.deref p).next.toNat ≠ (m.deref q).next.toNat := by
        have := UInt64.lt_iff_toNat_lt.mp hgt
        omega
      simp [hge, hne]
    · rename_i hle
      have heq : (m.deref p).next.toNat = (m.deref q).next.toNat := by
        rw [UInt64.lt_iff_toNat_lt] at hge hle
        omega
      simp [hge, heq]

theorem next_le_of_key_lt (hlt : m.key p < m.key q) : (m.deref p).next ≤ (m.deref q).next := by
  rw [key, key, Prod.Lex.toLex_lt_toLex] at hlt
  rw [UInt64.le_iff_toNat_le]
  omega

/-- The place where the comparison puts the timer. -/
theorem lowerBound_eq_position (m : TimerManager C) (p : Nat) :
    m.lowerBound (m.deref p) = position m.key (m.key p) m.timers := by
  have hfun : (fun q => (m.deref q).less (m.deref p)) = fun q => decide (m.key q < m.key p) := by
    funext q
    rw [Bool.eq_iff_iff, less_iff_key_lt, decide_eq_true_iff]
  rw [lowerBound, position, hfun]

/-! ## The heap -/

/-- A change touches one timer, if it is in the heap. -/
theorem deref_modify (p q : Nat) (f : Timer C → Timer C) (m : TimerManager C) :
    (m.modify p f).deref q = if p = q ∧ p < m.heap.length then f (m.deref p) else m.deref q := by
  simp only [deref, modify, List.getD_eq_getElem?_getD, List.getElem?_set]
  by_cases hpq : p = q
  · subst hpq
    by_cases hlt : p < m.heap.length
    · simp [hlt]
    · simp [hlt]
  · simp [hpq]

theorem deref_modify_ne {f : Timer C → Timer C} (h : q ≠ p) :
    (m.modify p f).deref q = m.deref q := by
  rw [deref_modify, if_neg fun hpq => h hpq.1.symm]

theorem lt_length_of_isSome_cb (h : (m.deref p).cb.isSome) : p < m.heap.length := by
  by_contra hge
  rw [deref, List.getD_eq_getElem?_getD, List.getElem?_eq_none (Nat.le_of_not_lt hge)] at h
  cases h

@[simp] theorem deref_erase (i : Nat) (m : TimerManager C) : (m.erase i).deref = m.deref := rfl

@[simp] theorem deref_insert (p : Nat) (m : TimerManager C) :
    (m.insert p).1.deref = m.deref := by
  unfold insert
  dsimp only
  split
  · split <;> rfl
  · rfl

@[simp] theorem deref_addTimerLocked (p : Nat) (m : TimerManager C) :
    (m.addTimerLocked p).1.deref = m.deref := by
  rw [← deref_insert p m]
  unfold addTimerLocked
  dsimp only
  split <;> rfl

/-! ## The timers that have a callback -/

/-- These are the timers that have a callback, and they are different objects. -/
structure Alive (timer : Nat → Timer C) (ps : List Nat) : Prop where
  addrs : (ps.map fun p => (timer p).addr).Nodup
  pending : ∀ p, p ∈ ps ↔ (timer p).cb.isSome

variable {timer : Nat → Timer C} {ps ps' : List Nat}

/-- The order does not matter for that. -/
theorem Alive.perm (h : Alive timer ps) (hp : ps.Perm ps') : Alive timer ps' :=
  ⟨(hp.map _).nodup_iff.mp h.addrs, fun p => hp.mem_iff.symm.trans (h.pending p)⟩

theorem Alive.nodup (h : Alive timer ps) : ps.Nodup := List.Nodup.of_map _ h.addrs

/-! ## Order -/

/-- The set is in order, and with the timers that are taken out it holds different objects. -/
structure Ordered (m : TimerManager C) (held : List Nat) : Prop where
  increasing : Increasing m.key m.timers
  addrs : ((held ++ m.timers).map fun p => (m.deref p).addr).Nodup
  made : ∀ p ∈ held ++ m.timers, p < m.heap.length

namespace Ordered

theorem nodup (h : m.Ordered held) : (held ++ m.timers).Nodup := List.Nodup.of_map _ h.addrs

theorem not_mem (h : m.Ordered (p :: held)) : p ∉ m.timers := fun hmem =>
  (List.nodup_cons.mp h.nodup).1 (List.mem_append_right held hmem)

/-- Two different objects have different keys. -/
theorem key_ne (h : m.Ordered (p :: held)) (hq : q ∈ m.timers) : m.key q ≠ m.key p := by
  intro heq
  have haddr : (m.deref q).addr = (m.deref p).addr := congrArg (fun k => (ofLex k).2) heq
  have hmem : (m.deref q).addr ∈ (held ++ m.timers).map fun q => (m.deref q).addr :=
    List.mem_map_of_mem (List.mem_append_right held hq)
  rw [haddr] at hmem
  exact (List.nodup_cons.mp h.addrs).1 hmem

/-- A timer that is taken out can be given up. -/
theorem release (h : m.Ordered (p :: held)) : m.Ordered held :=
  ⟨h.increasing, (List.nodup_cons.mp h.addrs).2, fun q hq => h.made q (List.mem_cons_of_mem p hq)⟩

/-- A timer that is taken out can be changed, but its address stays. -/
theorem modify (h : m.Ordered (p :: held)) (f : Timer C → Timer C)
    (haddr : ∀ t, (f t).addr = t.addr) : (m.modify p f).Ordered (p :: held) := by
  have hsame (q : Nat) : ((m.modify p f).deref q).addr = (m.deref q).addr := by
    rw [deref_modify]
    split
    · rename_i hpq
      rw [haddr, hpq.1]
    · rfl
  refine ⟨h.increasing.congr fun q hq => ?_, ?_, fun q hq => ?_⟩
  · have hne : q ≠ p := fun heq => h.not_mem (heq ▸ hq)
    rw [key, key, deref_modify_ne hne]
  · simp only [hsame]
    exact h.addrs
  · have hlen : (m.modify p f).heap.length = m.heap.length := List.length_set
    rw [hlen]
    exact h.made q hq

/-- A timer that is taken out is put back at the position of its key. -/
theorem insert_eq (h : m.Ordered (p :: held)) :
    m.insert p =
      ({ m with timers := m.timers.insertIdx (position m.key (m.key p) m.timers) p },
        position m.key (m.key p) m.timers) := by
  have hle : position m.key (m.key p) m.timers ≤ m.timers.length :=
    (List.takeWhile_sublist _).length_le
  simp only [TimerManager.insert, lowerBound_eq_position]
  cases hq : m.timers[position m.key (m.key p) m.timers]? with
  | none =>
    have hlen := le_antisymm hle (List.getElem?_eq_none_iff.mp hq)
    simp only [hlen, List.insertIdx_length_self]
  | some q =>
    have hne : m.key p ≠ m.key q := (h.key_ne (List.mem_of_getElem? hq)).symm
    have hless : (m.deref p).less (m.deref q) = true :=
      (less_iff_key_lt m p q).mpr (lt_of_le_of_ne (le_of_getElem?_position hq) hne)
    simp only [hless, if_true]

theorem insert_perm (h : m.Ordered (p :: held)) :
    (p :: (held ++ m.timers)).Perm (held ++ (m.insert p).1.timers) := by
  have hle : position m.key (m.key p) m.timers ≤ m.timers.length :=
    (List.takeWhile_sublist _).length_le
  rw [h.insert_eq]
  have hperm := (List.perm_insertIdx p m.timers hle).symm.append_left held
  exact List.perm_middle.symm.trans hperm

theorem insert (h : m.Ordered (p :: held)) : (m.insert p).1.Ordered held := by
  have hperm := h.insert_perm
  have hheap : (m.insert p).1.heap = m.heap := by rw [h.insert_eq]
  refine ⟨?_, ?_, fun q hq => ?_⟩
  · rw [h.insert_eq]
    exact h.increasing.insertIdx fun q hq => h.key_ne hq
  · rw [deref_insert]
    exact (hperm.map _).nodup_iff.mp h.addrs
  · rw [hheap]
    exact h.made q (hperm.mem_iff.mpr hq)

/-- The set after the timer was put back. -/
theorem mem_insert (h : m.Ordered (p :: held)) :
    q ∈ (m.insert p).1.timers ↔ q = p ∨ q ∈ m.timers := by
  have hle : position m.key (m.key p) m.timers ≤ m.timers.length :=
    (List.takeWhile_sublist _).length_le
  rw [h.insert_eq]
  exact List.mem_insertIdx hle

end Ordered

/-! ## The invariant -/

/-- The set is in order, and with the timers that are taken out it holds those that have a
callback. -/
structure Sound (m : TimerManager C) (held : List Nat) : Prop where
  increasing : Increasing m.key m.timers
  alive : Alive m.deref (held ++ m.timers)

namespace Sound

theorem ordered (h : m.Sound held) : m.Ordered held :=
  ⟨h.increasing, h.alive.addrs, fun p hp => lt_length_of_isSome_cb ((h.alive.pending p).mp hp)⟩

theorem not_mem (h : m.Sound (p :: held)) : p ∉ m.timers := h.ordered.not_mem

theorem mem_iff (h : m.Sound []) : p ∈ m.timers ↔ (m.deref p).cb.isSome := h.alive.pending p

/-- A timer in the set is found. -/
theorem find_eq_some (h : m.Sound held) (hp : p ∈ m.timers) :
    ∃ i, m.find p = some i ∧ m.timers[i]? = some p := by
  have hpos := h.increasing.getElem?_position hp
  rw [← lowerBound_eq_position] at hpos
  refine ⟨m.lowerBound (m.deref p), ?_, hpos⟩
  have hless : (m.deref p).less (m.deref p) = false := by
    rw [Bool.eq_false_iff, ne_eq, less_iff_key_lt]
    exact lt_irrefl _
  simp only [find, hpos, hless, Bool.false_eq_true, if_false]

/-- A timer that is taken out. -/
theorem erase (h : m.Sound held) (hi : m.timers[i]? = some p) : (m.erase i).Sound (p :: held) := by
  refine ⟨h.increasing.sublist (List.eraseIdx_sublist _ i), h.alive.perm ?_⟩
  obtain ⟨hlt, rfl⟩ := List.getElem?_eq_some_iff.mp hi
  have hperm := (List.getElem_cons_eraseIdx_perm hlt).symm.append_left held
  exact hperm.trans List.perm_middle

/-- A timer that is taken out can be given another deadline. -/
theorem modify (h : m.Sound (p :: held)) (f : Timer C → Timer C)
    (haddr : ∀ t, (f t).addr = t.addr) (hcb : ∀ t, (f t).cb = t.cb) :
    (m.modify p f).Sound (p :: held) := by
  have hordered := h.ordered.modify f haddr
  refine ⟨hordered.increasing, hordered.addrs, fun q => ?_⟩
  have hsame : ((m.modify p f).deref q).cb = (m.deref q).cb := by
    rw [deref_modify]
    split
    · rename_i hpq
      rw [hcb, hpq.1]
    · rfl
  rw [hsame]
  exact h.alive.pending q

/-- A timer that is taken out can lose its callback. -/
theorem kill (h : m.Sound (p :: held)) :
    (m.modify p fun t => { t with cb := none }).Sound held := by
  have hordered := (h.ordered.modify (fun t => { t with cb := none }) fun _ => rfl).release
  have hlt := h.ordered.made p List.mem_cons_self
  have hnot : p ∉ held ++ m.timers := (List.nodup_cons.mp h.alive.nodup).1
  refine ⟨hordered.increasing, hordered.addrs, fun q => ?_⟩
  by_cases hq : q = p
  · subst hq
    rw [deref_modify, if_pos ⟨rfl, hlt⟩]
    exact ⟨fun hmem => absurd hmem hnot, nofun⟩
  · rw [deref_modify_ne hq, ← h.alive.pending q, List.cons_append, List.mem_cons]
    simp [hq, TimerManager.modify]

theorem insert (h : m.Sound (p :: held)) : (m.insert p).1.Sound held := by
  refine ⟨h.ordered.insert.increasing, ?_⟩
  rw [deref_insert]
  exact h.alive.perm h.ordered.insert_perm

/-- The flag and the notice do not matter. -/
theorem addTimerLocked (h : m.Sound (p :: held)) : (m.addTimerLocked p).1.Sound held := by
  have hinsert := h.insert
  unfold TimerManager.addTimerLocked
  dsimp only
  split
  · exact ⟨hinsert.increasing, hinsert.alive⟩
  · exact hinsert

end Sound

end Xupeng.TimerManager
