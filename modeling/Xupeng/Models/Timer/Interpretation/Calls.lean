import Xupeng.Models.Timer.Interpretation.Set

/-!
# What each call does to the set and to the timers

A call keeps the set sound. The loop of `listExpiredCb` works on timers that have been
taken out of the set, and puts the recurring ones back.
-/

namespace Xupeng.TimerManager

variable {C : Type} {m : TimerManager C} {p q : Nat} {ps held : List Nat} {now ms : UInt64}

theorem new_sound (now : UInt64) : (new now : TimerManager C).Sound [] :=
  ⟨List.Pairwise.nil, List.nodup_nil, fun p => by simp [new, deref]⟩

/-! ## Making a timer -/

theorem deref_append (m : TimerManager C) (timer : Timer C) (q : Nat) :
    { m with heap := m.heap ++ [timer] }.deref q =
      if q = m.heap.length then timer else m.deref q := by
  simp only [deref, List.getD_eq_getElem?_getD, List.getElem?_append]
  rcases Nat.lt_trichotomy q m.heap.length with h | h | h
  · simp [h, Nat.ne_of_lt h]
  · simp [h]
  · have hsub : ∃ n, q - m.heap.length = n + 1 := ⟨q - m.heap.length - 1, by omega⟩
    obtain ⟨n, hn⟩ := hsub
    simp [Nat.not_lt_of_gt h, Nat.ne_of_gt h, hn]

/-- A new timer is not in the set yet. -/
theorem Sound.append (h : m.Sound []) (timer : Timer C) (hcb : timer.cb.isSome)
    (haddr : ∀ p ∈ m.timers, (m.deref p).addr ≠ timer.addr) :
    { m with heap := m.heap ++ [timer] }.Sound [m.heap.length] := by
  have hold {q : Nat} (hq : q ∈ m.timers) :
      { m with heap := m.heap ++ [timer] }.deref q = m.deref q := by
    have hlt := lt_length_of_isSome_cb (h.mem_iff.mp hq)
    rw [deref_append, if_neg (Nat.ne_of_lt hlt)]
  refine ⟨h.increasing.congr fun q hq => ?_, ?_, fun q => ?_⟩
  · rw [key, key, hold hq]
  · rw [List.singleton_append, List.map_cons, List.nodup_cons,
      List.map_congr_left fun q hq => by rw [hold hq]]
    refine ⟨fun hmem => ?_, h.alive.addrs⟩
    obtain ⟨q, hq, heq⟩ := List.mem_map.mp hmem
    rw [deref_append, if_pos rfl] at heq
    exact haddr q hq heq
  · rw [List.singleton_append, List.mem_cons, deref_append]
    split
    · simp_all
    · rename_i hne
      rw [← h.mem_iff]
      exact or_iff_right hne

/-- A timer is added at an address that no other one has. -/
theorem Sound.addTimer (h : m.Sound []) {addr : Nat} {cb : C} {recurring : Bool}
    (haddr : ∀ p ∈ m.timers, (m.deref p).addr ≠ addr) :
    (m.addTimer addr now ms (some cb) recurring).1.Sound [] := by
  have happend := h.append ⟨recurring, ms, now + ms, some cb, addr⟩ rfl haddr
  exact happend.addTimerLocked

/-- It is due after its period, and the others stay. -/
theorem deref_addTimer (m : TimerManager C) (addr : Nat) (cb : Option C) (recurring : Bool)
    (q : Nat) :
    (m.addTimer addr now ms cb recurring).1.deref q =
      if q = m.heap.length then ⟨recurring, ms, now + ms, cb, addr⟩ else m.deref q := by
  simp only [addTimer, deref_addTimerLocked, deref_append]

/-! ## Operations on a timer -/

theorem deref_modify_of_lt (hp : p < m.heap.length) (f : Timer C → Timer C) (q : Nat) :
    (m.modify p f).deref q = if q = p then f (m.deref p) else m.deref q := by
  rw [deref_modify]
  simp only [hp, and_true, eq_comm]

/-- A timer with a callback is in the heap. -/
theorem deref_modify_of_isSome (hp : (m.deref p).cb.isSome) (f : Timer C → Timer C) (q : Nat) :
    (m.modify p f).deref q = if q = p then f (m.deref p) else m.deref q :=
  deref_modify_of_lt (lt_length_of_isSome_cb hp) f q

/-- `cancel` finds a timer that has a callback, and takes it out. -/
theorem Sound.cancel_of_isSome (h : m.Sound []) (hp : (m.deref p).cb.isSome) :
    ∃ i, m.timers[i]? = some p ∧
      m.cancel p = some ((m.erase i).modify p fun t => { t with cb := none }, true) := by
  obtain ⟨i, hfind, hi⟩ := h.find_eq_some (h.mem_iff.mpr hp)
  refine ⟨i, hi, ?_⟩
  -- the callback plays no part in the search
  have hkey : (m.modify p fun t => { t with cb := none }).key = m.key := by
    funext q
    simp only [key, deref_modify]
    split
    · rename_i hpq
      rw [hpq.1]
    · rfl
  have hless (q : Nat) : ((m.modify p fun t => { t with cb := none }).deref p).less
      ((m.modify p fun t => { t with cb := none }).deref q) = (m.deref p).less (m.deref q) := by
    rw [Bool.eq_iff_iff, less_iff_key_lt, less_iff_key_lt, hkey]
  have hfind' : (m.modify p fun t => { t with cb := none }).find p = m.find p := by
    simp only [find, lowerBound_eq_position, hkey, hless]
    rfl
  rw [cancel, if_pos hp]
  simp only [hfind', hfind, Option.map_some]
  rfl

/-- A timer without a callback is not cancelled. -/
theorem cancel_of_isNone (hp : (m.deref p).cb.isSome = false) : m.cancel p = some (m, false) := by
  rw [cancel, if_neg (by rw [hp]; exact Bool.false_ne_true)]

/-- A timer that is cancelled leaves the set and loses its callback. -/
theorem Sound.cancel (h : m.Sound []) {r : TimerManager C × Bool} (hr : m.cancel p = some r) :
    r.1.Sound [] := by
  cases hp : (m.deref p).cb.isSome with
  | true =>
    obtain ⟨i, hi, hcancel⟩ := h.cancel_of_isSome hp
    cases hcancel.symm.trans hr
    exact (h.erase hi).kill
  | false =>
    cases (cancel_of_isNone hp).symm.trans hr
    exact h

/-- `refresh` of a timer that has a callback takes it out and puts it back. -/
theorem Sound.refresh_of_isSome (h : m.Sound []) (hp : (m.deref p).cb.isSome) (now : UInt64) :
    ∃ i, m.timers[i]? = some p ∧ m.refresh p now =
      ((((m.erase i).modify p fun t => { t with next := now + t.ms }).insert p).1, true) := by
  obtain ⟨i, hfind, hi⟩ := h.find_eq_some (h.mem_iff.mpr hp)
  refine ⟨i, hi, ?_⟩
  have hnone : (m.deref p).cb.isNone = false := by simpa using hp
  simp only [refresh, hnone, Bool.false_eq_true, if_false, hfind]

/-- A timer without a callback is not refreshed. -/
theorem refresh_of_isNone (hp : (m.deref p).cb.isSome = false) :
    m.refresh p now = (m, false) := by
  have hnone : (m.deref p).cb.isNone = true := by simpa using hp
  rw [refresh, if_pos hnone]

/-- A timer is taken out, changed and inserted again. -/
theorem Sound.refresh (h : m.Sound []) : (m.refresh p now).1.Sound [] := by
  cases hp : (m.deref p).cb.isSome with
  | true =>
    obtain ⟨i, hi, hrefresh⟩ := h.refresh_of_isSome hp now
    rw [hrefresh]
    have hmodify := (h.erase hi).modify (fun t => { t with next := now + t.ms })
      (fun _ => rfl) fun _ => rfl
    exact hmodify.insert
  | false =>
    rw [refresh_of_isNone hp]
    exact h

/-- The new deadline and period of a timer that is reset. -/
def rearmed (ms : UInt64) (from_now : Bool) (now : UInt64) (t : Timer C) : Timer C :=
  { t with ms := ms, next := (if from_now then now else t.next - t.ms) + ms }

/-- `reset` of a timer that has a callback takes it out and puts it back. -/
theorem Sound.reset_of_isSome (h : m.Sound []) (hp : (m.deref p).cb.isSome) {from_now : Bool}
    (hms : ¬ (ms = (m.deref p).ms ∧ !from_now)) (now : UInt64) :
    ∃ i, m.find p = some i ∧ m.timers[i]? = some p ∧ m.reset p ms from_now now =
      ((((m.erase i).modify p (rearmed ms from_now now)).addTimerLocked p).1, true) := by
  obtain ⟨i, hfind, hi⟩ := h.find_eq_some (h.mem_iff.mpr hp)
  refine ⟨i, hfind, hi, ?_⟩
  have hnone : (m.deref p).cb.isNone = false := by simpa using hp
  rw [reset, if_neg hms]
  simp only [hnone, Bool.false_eq_true, if_false, hfind]
  rfl

/-- A timer without a callback is not reset. -/
theorem reset_of_isNone (hp : (m.deref p).cb.isSome = false) (from_now : Bool) :
    (m.reset p ms from_now now).1 = m := by
  have hnone : (m.deref p).cb.isNone = true := by simpa using hp
  unfold reset
  split
  · rfl
  · rfl

/-- A timer is inserted again with its new period. -/
theorem Sound.reset (h : m.Sound []) (from_now : Bool) :
    (m.reset p ms from_now now).1.Sound [] := by
  cases hp : (m.deref p).cb.isSome with
  | true =>
    by_cases hms : ms = (m.deref p).ms ∧ !from_now
    · rw [TimerManager.reset, if_pos hms]
      exact h
    · obtain ⟨i, -, hi, hreset⟩ := h.reset_of_isSome hp hms now
      rw [hreset]
      have hmodify := (h.erase hi).modify (rearmed ms from_now now) (fun _ => rfl) fun _ => rfl
      exact hmodify.addTimerLocked
  | false =>
    rw [reset_of_isNone hp]
    exact h

/-! ## The loop over the expired timers -/

/-- What becomes of a timer that expires. -/
def fired (now : UInt64) (t : Timer C) : Timer C :=
  if t.recurring then { t with next := now + t.ms } else { t with cb := none }

/-- One turn of the loop. -/
def fireOne (now : UInt64) (p : Nat) (m : TimerManager C) : TimerManager C :=
  if (m.deref p).recurring then ((m.modify p fun t => { t with next := now + t.ms }).insert p).1
  else m.modify p fun t => { t with cb := none }

theorem fire_cons (now : UInt64) (p : Nat) (ps : List Nat) (m : TimerManager C) :
    m.fire now (p :: ps) =
      (((m.fireOne now p).fire now ps).1, (m.deref p).cb :: ((m.fireOne now p).fire now ps).2) :=
  rfl

/-- A timer that recurs goes back into the set. -/
theorem Sound.fireOne (h : m.Sound (p :: held)) : (m.fireOne now p).Sound held := by
  unfold TimerManager.fireOne
  split
  · have hmodify := h.modify (fun t => { t with next := now + t.ms }) (fun _ => rfl) fun _ => rfl
    exact hmodify.insert
  · exact h.kill

/-- What the turn of a timer keeps, with this timer no longer taken out, the loop keeps. -/
theorem fire_rule {I : TimerManager C → List Nat → Prop}
    (hturn : ∀ m p held, I m (p :: held) → I (m.fireOne now p) held) (h : I m (ps ++ held)) :
    I (m.fire now ps).1 held := by
  induction ps generalizing m with
  | nil => exact h
  | cons p ps ih =>
    rw [fire_cons]
    exact ih (hturn m p (ps ++ held) h)

theorem Sound.fire (h : m.Sound (ps ++ held)) : (m.fire now ps).1.Sound held :=
  fire_rule (fun _ _ _ h => h.fireOne) h

/-- The other timers stay as they are. -/
theorem deref_fireOne (hp : p < m.heap.length) (q : Nat) :
    (m.fireOne now p).deref q = if q = p then fired now (m.deref p) else m.deref q := by
  unfold fireOne fired
  split
  · rw [deref_insert, deref_modify_of_lt hp]
  · rw [deref_modify_of_lt hp]

/-- Firing keeps the set in order. -/
theorem Ordered.fireOne (h : m.Ordered (p :: held)) : (m.fireOne now p).Ordered held := by
  unfold TimerManager.fireOne
  split
  · exact (h.modify (fun t => { t with next := now + t.ms }) fun _ => rfl).insert
  · exact (h.modify (fun t => { t with cb := none }) fun _ => rfl).release

/-- Of all timers that were taken out. -/
theorem Ordered.fire (h : m.Ordered (ps ++ held)) : (m.fire now ps).1.Ordered held :=
  fire_rule (fun _ _ _ h => h.fireOne) h

/-- A recurring timer is in the set after its turn, and the turn leaves the other timers there. -/
theorem Ordered.mem_fireOne (h : m.Ordered (p :: held)) :
    q ∈ (m.fireOne now p).timers ↔ q ∈ m.timers ∨ q = p ∧ (m.deref p).recurring = true := by
  unfold TimerManager.fireOne
  split
  · rename_i hrec
    rw [(h.modify (fun t => { t with next := now + t.ms }) fun _ => rfl).mem_insert, or_comm]
    simp only [hrec, and_true]
    rfl
  · rename_i hrec
    simp only [hrec, Bool.false_eq_true, and_false, or_false]
    rfl

/-- The timers that wait for their turn are others. -/
theorem Ordered.ne_of_mem (h : m.Ordered ((p :: ps) ++ held)) (hq : q ∈ ps) : q ≠ p := by
  rintro rfl
  exact (List.nodup_cons.mp h.nodup).1 (List.mem_append_left _ (List.mem_append_left _ hq))

/-- The loop fires its timers, and leaves the others alone. -/
theorem Ordered.deref_fire (h : m.Ordered (ps ++ held)) (q : Nat) :
    (m.fire now ps).1.deref q = if q ∈ ps then fired now (m.deref q) else m.deref q := by
  induction ps generalizing m with
  | nil => rfl
  | cons p ps ih =>
    rw [fire_cons, ih h.fireOne, deref_fireOne (h.made p List.mem_cons_self)]
    by_cases hqp : q = p
    · subst hqp
      have hnot : q ∉ ps := fun hmem => h.ne_of_mem hmem rfl
      simp [hnot]
    · simp [hqp]

/-- The loop outputs the callbacks of its timers. -/
theorem Ordered.fire_cbs (h : m.Ordered (ps ++ held)) :
    (m.fire now ps).2 = ps.map fun p => (m.deref p).cb := by
  induction ps generalizing m with
  | nil => rfl
  | cons p ps ih =>
    rw [fire_cons, ih h.fireOne, List.map_cons]
    refine congrArg _ (List.map_congr_left fun q hq => ?_)
    rw [deref_fireOne (h.made p List.mem_cons_self), if_neg (h.ne_of_mem hq)]

/-- The loop puts its recurring timers into the set, and takes none out. -/
theorem Ordered.mem_fire (h : m.Ordered (ps ++ held)) :
    q ∈ (m.fire now ps).1.timers ↔
      q ∈ m.timers ∨ q ∈ ps ∧ (m.deref q).recurring = true := by
  induction ps generalizing m with
  | nil => simp [TimerManager.fire]
  | cons p ps ih =>
    have hsame (hq : q ∈ ps) : (m.fireOne now p).deref q = m.deref q := by
      rw [deref_fireOne (h.made p List.mem_cons_self), if_neg (h.ne_of_mem hq)]
    have hrest : (q ∈ ps ∧ ((m.fireOne now p).deref q).recurring = true) ↔
        q ∈ ps ∧ (m.deref q).recurring = true :=
      and_congr_right fun hq => by rw [hsame hq]
    rw [fire_cons, ih h.fireOne, h.mem_fireOne, hrest, List.mem_cons, or_assoc]
    refine or_congr_right ?_
    rw [or_and_right]
    refine or_congr_left (and_congr_right fun hq => ?_)
    rw [hq]

/-! ## `listExpiredCb` -/

/-- How many timers `listExpiredCb` takes out of the set. -/
def due (addr : Nat) (now_ms : UInt64) (m : TimerManager C) : Nat :=
  match m.timers with
  | [] => 0
  | first :: _ =>
    let rollover := (m.detectClockRollover now_ms).2
    if !rollover ∧ now_ms < (m.deref first).next then 0
    else
      let i := if rollover then m.timers.length else m.lowerBound ⟨false, 0, now_ms, none, addr⟩
      i + ((m.timers.drop i).takeWhile fun p => (m.deref p).next = now_ms).length

/-- The timers that `listExpiredCb` takes out of the set. -/
def expired (addr : Nat) (now : UInt64) (m : TimerManager C) : List Nat :=
  m.timers.take (m.due addr now)

/-- The manager when the loop of `listExpiredCb` begins. -/
def cut (addr : Nat) (now : UInt64) (m : TimerManager C) : TimerManager C :=
  { m with
    timers := m.timers.drop (m.due addr now)
    previouseTime := if m.timers = [] then m.previouseTime else now }

/-- The expired timers are cut off and fired. -/
theorem listExpiredCb_eq (addr : Nat) (now : UInt64) (m : TimerManager C) :
    m.listExpiredCb addr now = (m.cut addr now).fire now (m.expired addr now) := by
  cases ht : m.timers with
  | nil =>
    obtain ⟨heap, timers, tickled, previouseTime⟩ := m
    cases ht
    rfl
  | cons first rest =>
    have hcut : m.cut addr now =
        { m with timers := m.timers.drop (m.due addr now), previouseTime := now } := by
      simp [cut, ht]
    rw [hcut, expired]
    by_cases hc : !(m.detectClockRollover now).2 ∧ now < (m.deref first).next
    · have hdue : m.due addr now = 0 := by
        simp only [due, ht]
        exact if_pos hc
      rw [hdue]
      simp only [listExpiredCb, ht]
      refine (if_pos hc).trans ?_
      simp [detectClockRollover, fire, ht]
    · simp only [listExpiredCb, due, ht]
      rw [if_neg hc]
      refine (if_neg hc).trans ?_
      simp only [detectClockRollover, lowerBound, ht]
      rfl

variable {addr : Nat}

theorem expired_append_cut (addr : Nat) (now : UInt64) (m : TimerManager C) :
    m.expired addr now ++ (m.cut addr now).timers = m.timers :=
  List.take_append_drop _ _

/-- When the loop begins, the expired timers are taken out. -/
theorem Sound.cut (h : m.Sound []) : (m.cut addr now).Sound (m.expired addr now ++ []) := by
  refine ⟨h.increasing.sublist (List.drop_sublist _ _), ?_⟩
  rw [List.append_nil, expired_append_cut]
  exact h.alive

theorem Ordered.cut (h : m.Ordered []) : (m.cut addr now).Ordered (m.expired addr now ++ []) := by
  refine ⟨h.increasing.sublist (List.drop_sublist _ _), ?_, ?_⟩
  · rw [List.append_nil, expired_append_cut]
    exact h.addrs
  · rw [List.append_nil, expired_append_cut]
    exact h.made

/-- The whole call keeps the set sound. -/
theorem Sound.listExpiredCb (h : m.Sound []) : (m.listExpiredCb addr now).1.Sound [] := by
  rw [listExpiredCb_eq]
  exact h.cut.fire

/-- It needs no more than the order. -/
theorem Ordered.listExpiredCb (h : m.Ordered []) : (m.listExpiredCb addr now).1.Ordered [] := by
  rw [listExpiredCb_eq]
  exact h.cut.fire

/-- The timers that had expired are fired once each. -/
theorem Ordered.deref_listExpiredCb (h : m.Ordered []) (q : Nat) :
    (m.listExpiredCb addr now).1.deref q =
      if q ∈ m.expired addr now then fired now (m.deref q) else m.deref q := by
  rw [listExpiredCb_eq, h.cut.deref_fire]
  rfl

/-- `listExpiredCb` outputs the callbacks of the timers that it takes out of the set. -/
theorem Ordered.listExpiredCb_cbs (h : m.Ordered []) :
    (m.listExpiredCb addr now).2 = (m.expired addr now).map fun p => (m.deref p).cb := by
  rw [listExpiredCb_eq, h.cut.fire_cbs]
  rfl

/-- Afterwards the set holds the timers that are not expired and those that recur. -/
theorem Ordered.mem_listExpiredCb (h : m.Ordered []) :
    q ∈ (m.listExpiredCb addr now).1.timers ↔
      q ∈ m.timers ∧ (q ∈ m.expired addr now → (m.deref q).recurring = true) := by
  have hcut : (m.cut addr now).Ordered (m.expired addr now ++ []) := h.cut
  have hsplit : q ∈ m.timers ↔ q ∈ m.expired addr now ∨ q ∈ (m.cut addr now).timers := by
    rw [← expired_append_cut addr now m, List.mem_append]
  have hnot : q ∈ m.expired addr now → q ∉ (m.cut addr now).timers := by
    intro hexp hmem
    have hnodup := hcut.nodup
    rw [List.append_nil] at hnodup
    exact (List.nodup_append.mp hnodup).2.2 q hexp q hmem rfl
  have hderef : (m.cut addr now).deref q = m.deref q := rfl
  rw [listExpiredCb_eq, hcut.mem_fire, hsplit, hderef]
  by_cases hexp : q ∈ m.expired addr now
  · simp [hexp, hnot hexp]
  · simp [hexp]

/-- The deadlines in the set do not decrease. -/
theorem Ordered.deadlines (h : m.Ordered held) :
    m.timers.Pairwise fun p q => (m.deref p).next.toNat ≤ (m.deref q).next.toNat := by
  refine List.Pairwise.imp (fun {p q} hlt => ?_) h.increasing
  exact UInt64.le_iff_toNat_le.mp (next_le_of_key_lt hlt)

/-- The timer made for the search comes after the timers with earlier deadlines, and before those
with later ones. -/
theorem less_key {t : Timer C} {addr : Nat} {now : UInt64} :
    (t.less ⟨false, 0, now, none, addr⟩ = true → t.next.toNat ≤ now.toNat) ∧
      (t.next.toNat < now.toNat → t.less ⟨false, 0, now, none, addr⟩ = true) := by
  simp only [← UInt64.le_iff_toNat_le, ← UInt64.lt_iff_toNat_lt]
  unfold Timer.less
  dsimp only
  constructor
  · intro hless
    split at hless
    · exact UInt64.le_of_lt (by assumption)
    · split at hless
      · cases hless
      · exact UInt64.not_lt.mp (by assumption)
  · intro hlt
    rw [if_pos hlt]

/-- `listExpiredCb` takes out the timers whose deadlines are not later than the clock reading, and
all timers when it detects a rollover. -/
theorem Ordered.expired_eq (h : m.Ordered held) (addr : Nat) (now : UInt64) :
    m.expired addr now = m.timers.filter fun p =>
      (m.detectClockRollover now).2 || decide ((m.deref p).next.toNat ≤ now.toNat) := by
  unfold TimerManager.expired due
  cases ht : m.timers with
  | nil => rfl
  | cons first rest =>
    cases hroll : (m.detectClockRollover now).2 with
    | true =>
      simp only [Bool.not_true, Bool.false_eq_true, false_and, if_false, if_true, Bool.true_or]
      rw [List.filter_true, List.take_of_length_le (Nat.le_add_right _ _)]
    | false =>
      have hsorted := h.deadlines
      rw [ht] at hsorted
      simp only [Bool.not_false, true_and, Bool.false_eq_true, if_false, Bool.false_or]
      by_cases hlate : now < (m.deref first).next
      · -- no timer is due
        rw [if_pos hlate, List.take_zero, eq_comm, List.filter_eq_nil_iff]
        intro p hp
        have hfirst : (m.deref first).next.toNat ≤ (m.deref p).next.toNat := by
          rcases List.mem_cons.mp hp with rfl | hmem
          · exact Nat.le_refl _
          · exact (List.pairwise_cons.mp hsorted).1 p hmem
        have hnow := UInt64.lt_iff_toNat_lt.mp hlate
        simp only [decide_eq_true_iff]
        omega
      · have hsame : (fun p => decide ((m.deref p).next = now)) =
            fun p => decide ((m.deref p).next.toNat = now.toNat) := by
          funext p
          simp only [UInt64.toNat_inj]
        rw [if_neg hlate, lowerBound, ht, hsame]
        exact take_cut hsorted (fun p _ => less_key.1) fun p _ => less_key.2

/-- The timers that expire, one by one. -/
theorem Ordered.mem_expired_iff (h : m.Ordered held) :
    p ∈ m.expired addr now ↔ p ∈ m.timers ∧
      ((m.detectClockRollover now).2 = true ∨ (m.deref p).next ≤ now) := by
  rw [h.expired_eq, List.mem_filter, Bool.or_eq_true, decide_eq_true_iff, UInt64.le_iff_toNat_le]

/-- Only timers of the set expire. -/
theorem mem_timers_of_mem_expired (h : p ∈ m.expired addr now) : p ∈ m.timers :=
  List.mem_of_mem_take h

end Xupeng.TimerManager
