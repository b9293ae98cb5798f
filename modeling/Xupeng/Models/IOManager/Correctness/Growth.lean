import Xupeng.Models.IOManager.Correctness.Accounting
import Xupeng.Models.IOManager.Correctness.Kernel

/-!
# The event table grows

`addEvent` resizes the table when it has found it too short, to one and a half times
its descriptor. A thread that has measured the table before another one made it longer
makes it shorter, and the descriptors behind the new end get other contexts when the
table grows again.

The size is compared as an `int`. From `2 ^ 31` contexts on every call takes the table
for too short, and the descriptors 0 and 1 are not in the table that they ask for.
-/

namespace Xupeng.IOManager

variable {S F C : Type}

namespace Table

variable {t : Table S F C} {fd : Nat}

/-! ## The size -/

theorem length_contextResize (size : Nat) (t : Table S F C) :
    (t.contextResize size).fdContexts.length = size := by
  simp only [contextResize, List.length_append, List.length_take, List.length_map,
    List.length_range]
  omega

/-- The contexts below it stay. -/
theorem contextResize_fdContexts {size i : Nat} (hi : i < size) (hp : t.fdContexts[i]? = some p) :
    (t.contextResize size).fdContexts[i]? = some p := by
  have hlt : i < t.fdContexts.length := (List.getElem?_eq_some_iff.mp hp).1
  rw [contextResize, List.getElem?_append_left (by rw [List.length_take]; omega),
    List.getElem?_take_of_lt hi, hp]

/-- The size is compared as an `int`. -/
theorem covers_iff_ite (t : Table S F C) (fd : Nat) :
    t.covers fd ↔ (fd : Int) < if 2 * (t.fdContexts.length % 2 ^ 32) < 2 ^ 32
      then ((t.fdContexts.length % 2 ^ 32 : Nat) : Int)
      else ((t.fdContexts.length % 2 ^ 32 : Nat) : Int) - (2 ^ 32 : Nat) := by
  rw [covers, covered, BitVec.toInt_eq_toNat_cond, BitVec.toNat_ofNat]

/-- A call that finds the table long enough indexes it within its bounds. -/
theorem lt_of_covers (h : t.covers fd) : fd < t.fdContexts.length := by
  rw [covers_iff_ite] at h
  have hmod : t.fdContexts.length % 2 ^ 32 ≤ t.fdContexts.length := Nat.mod_le _ _
  split at h <;> omega

/-- For tables that are not too large that makes no difference. -/
theorem covers_iff (hsize : t.fdContexts.length < 2 ^ 31) :
    t.covers fd ↔ fd < t.fdContexts.length := by
  rw [covers_iff_ite, Nat.mod_eq_of_lt (by omega), if_pos (by omega)]
  exact Int.ofNat_lt

/-- A table with `2 ^ 31` contexts or more is too short for every descriptor. -/
theorem not_covers (hlow : 2 ^ 31 ≤ t.fdContexts.length) (hhigh : t.fdContexts.length < 2 ^ 32) :
    ¬ t.covers fd := by
  rw [covers_iff_ite, Nat.mod_eq_of_lt hhigh, if_neg (by omega)]
  omega

/-- An event behind the table makes it grow. -/
theorem lookup_of_not_covers {call : Call S F C} (hcall : call.isAddEvent = true)
    (h : ¬ t.covers call.fd) : t.lookup call = some .grow := by
  cases call with
  | addEvent caller fd event cb => exact if_neg h
  | delEvent fd event | cancelEvent fd event | cancelAll fd => cases hcall

theorem not_covers_of_lookup {call : Call S F C} (h : t.lookup call = some .grow) :
    ¬ t.covers call.fd := by
  intro hcovers
  unfold lookup at h
  rw [if_pos hcovers] at h
  obtain ⟨p, -, hstage⟩ := Option.map_eq_some_iff.mp h
  cases hstage

end Table

namespace State

variable {s t : State S F C} {a : Step S F C} {call : Call S F C}

/-! ## What a step does to the table -/

/-- The step has resized the table for `call`. -/
structure Grown (s : State S F C) (call : Call S F C) (t : State S F C) : Prop where
  table : t.toTable = s.toTable.grow call
  abort : t.abort = if call.fd < call.fd * 3 / 2 then none else some .outOfBounds
  calls : t.calls.length = s.calls.length
  waiting : ∀ c, (c, .grow) ∈ t.calls → (c, .grow) ∈ s.calls

/-- The step has left `m_fdContexts` alone. -/
structure Kept (s : State S F C) (a : Step S F C) (t : State S F C) : Prop where
  fdContexts : t.fdContexts = s.fdContexts
  abort : t.abort ≠ some .outOfBounds
  /-- A call that waits to resize the table did so before, or has just found it too short. -/
  waiting : ∀ c, (c, .grow) ∈ t.calls →
    (c, .grow) ∈ s.calls ∨ a = .enter c ∧ ¬ s.toTable.covers c.fd

theorem step_grow (habort : s.abort = none) {i : Nat} (hcall : s.calls[i]? = some (call, .grow)) :
    ∃ t, s.step (.grow i) = some t ∧ Grown s call t := by
  have hsize : (s.toTable.grow call).fdContexts.length = call.fd * 3 / 2 :=
    Table.length_contextResize _ _
  have hstep : s.step (.grow i) = s.grow i := if_neg (by simp [habort])
  rw [hstep, State.grow, hcall]
  dsimp only
  by_cases hlt : call.fd < call.fd * 3 / 2
  · have hfd : (s.toTable.grow call).fdContexts[call.fd]? =
        some ((s.toTable.grow call).fdContexts[call.fd]) := List.getElem?_eq_getElem (by omega)
    rw [hfd]
    refine ⟨_, rfl, rfl, ?_, List.length_set, fun c hc => ?_⟩
    · rw [if_pos hlt]
      exact habort
    · rcases List.mem_or_eq_of_mem_set hc with hold | hnew
      · exact hold
      · cases hnew
  · rw [List.getElem?_eq_none (by omega)]
    refine ⟨_, rfl, rfl, ?_, rfl, fun c hc => hc⟩
    rw [if_neg hlt]

/-- A call of `addEvent` that finds the table too short. -/
theorem step_enter_of_not_covers (call : Call S F C) (habort : s.abort = none)
    (hadd : call.isAddEvent = true) (hshort : ¬ s.toTable.covers call.fd) :
    s.step (.enter call) = some { s with calls := s.calls ++ [(call, .grow)] } := by
  unfold step
  rw [if_neg (by simp [habort])]
  dsimp only
  rw [enter, Table.lookup_of_not_covers hadd hshort]

/-- A section changes neither `m_fdContexts` nor the calls in progress. -/
theorem runSection_kept (hg : s.toTable.Good) (habort : s.abort = none) {p : Nat} {rt : Bool}
    {sec : Section S F C} (ht : s.runSection p rt sec = some t) :
    t.fdContexts = s.fdContexts ∧ t.calls = s.calls ∧ t.abort ≠ some .outOfBounds := by
  obtain ⟨o, ho, hstate⟩ := Option.map_eq_some_iff.mp ht
  obtain ⟨c, hc, rfl⟩ := Option.map_eq_some_iff.mp ho
  rcases Section.exec_cases (hg c (List.mem_of_getElem? hc)) rt sec with
    ⟨r, hr, -⟩ | ⟨x, hx, hwhich⟩
  · rw [hr] at hstate
    subst hstate
    have hnone : s.abort ≠ some .outOfBounds := by simp [habort]
    exact ⟨rfl, rfl, hnone⟩
  · rw [hx] at hstate
    subst hstate
    refine ⟨rfl, rfl, ?_⟩
    rcases hwhich with rfl | rfl | rfl | ⟨rfl, -⟩ <;> exact fun h => nomatch h

theorem enter_kept (habort : s.abort = none) (call : Call S F C) :
    Kept s (.enter call) (s.enter call) := by
  have hnone : s.abort ≠ some .outOfBounds := by simp [habort]
  unfold enter
  split
  · rename_i stage hlookup
    refine ⟨rfl, hnone, fun c hc => ?_⟩
    rcases List.mem_append.mp hc with hold | hnew
    · exact Or.inl hold
    · obtain ⟨rfl, rfl⟩ := Prod.mk.inj (List.mem_singleton.mp hnew)
      exact Or.inr ⟨rfl, Table.not_covers_of_lookup hlookup⟩
  · exact ⟨rfl, hnone, fun c hc => Or.inl hc⟩

/-- A step resizes the table or leaves it alone. -/
theorem grown_or_kept (hg : s.toTable.Good) (hs : s.step a = some t) :
    (∃ i call, a = .grow i ∧ s.abort = none ∧ s.calls[i]? = some (call, .grow) ∧
        Grown s call t) ∨ Kept s a t := by
  obtain ⟨habort, htaken⟩ := step_taken hs
  cases htaken with
  | enter call => exact Or.inr (enter_kept habort call)
  | @grow i _ ht =>
    unfold grow at ht
    split at ht
    · rename_i call hcall
      obtain ⟨u, hu, hgrown⟩ := step_grow habort hcall
      cases hu.symm.trans hs
      exact Or.inl ⟨i, call, rfl, habort, hcall, hgrown⟩
    · cases ht
  | wait ht =>
    obtain ⟨batch, -, rfl⟩ := Option.map_eq_some_iff.mp ht
    exact Or.inr ⟨rfl, by simp [habort], fun c hc => Or.inl hc⟩
  | @exec _ p sec rt calls batches _ hsec hcalls ht =>
    obtain ⟨hfd, hkept, hbounds⟩ :=
      runSection_kept (s := { s with calls := calls, batches := batches }) hg habort ht
    refine Or.inr ⟨hfd, hbounds, fun c hc => Or.inl ?_⟩
    rw [hkept] at hc
    exact hcalls _ hc

/-! ## Growing -/

/-- The table has not become shorter, every descriptor has kept its context, and the indices are
within bounds: those of calls that find the table long enough, and that of the call that has
resized it. -/
structure Grows (s t : State S F C) : Prop where
  size : s.fdContexts.length ≤ t.fdContexts.length
  context : ∀ fd p : Nat, s.fdContexts[fd]? = some p → t.fdContexts[fd]? = some p
  found : ∀ fd, t.toTable.covers fd → fd < t.fdContexts.length
  resized : t.abort ≠ some .outOfBounds

/-- The table grows in this step. -/
def OnlyGrows (s : State S F C) (a : Step S F C) : Prop := ∀ t, s.step a = some t → Grows s t

/-- A step that resizes the table asks for at least the size that it has. -/
def AsksForMore (s : State S F C) : Step S F C → Prop
  | .grow i =>
    s.abort = none → ∀ x ∈ s.calls[i]?, x.2 = .grow → s.fdContexts.length ≤ x.1.fd * 3 / 2
  | _ => True

instance (s : State S F C) (a : Step S F C) : Decidable (s.AsksForMore a) :=
  match a with
  | .grow _ => inferInstanceAs (Decidable (s.abort = none → _))
  | .enter _ | .commit _ _ | .wait _ | .process _ _ => isTrue trivial

/-- A table that is kept has not lost anything. -/
theorem Kept.grows (h : Kept s a t) : Grows s t where
  size := Nat.le_of_eq (congrArg List.length h.fdContexts.symm)
  context fd p hp := by
    rw [h.fdContexts]
    exact hp
  found _ := Table.lt_of_covers
  resized := h.abort

/-- The tables that a resize makes longer already have the 32 contexts of the constructor, so the
descriptor is within the new one. -/
theorem Grown.grows (h : Grown s call t) (hmin : 32 ≤ s.fdContexts.length)
    (hsize : s.fdContexts.length ≤ call.fd * 3 / 2) : Grows s t where
  size := by
    rw [h.table, Table.grow, Table.length_contextResize]
    exact hsize
  context fd p hp := by
    have hlt : fd < s.fdContexts.length := (List.getElem?_eq_some_iff.mp hp).1
    rw [h.table]
    exact Table.contextResize_fdContexts (Nat.lt_of_lt_of_le hlt hsize) hp
  found _ := Table.lt_of_covers
  resized := by
    rw [h.abort, if_pos (by omega)]
    exact nofun

/-- A resize keeps the table exactly if it asks for more than there is. -/
theorem onlyGrows_iff (hg : s.toTable.Good) (hmin : 32 ≤ s.fdContexts.length)
    (a : Step S F C) : s.OnlyGrows a ↔ s.AsksForMore a := by
  constructor
  · intro hgrows
    cases a with
    | grow i =>
      rintro habort ⟨call, stage⟩ hcall rfl
      obtain ⟨t, ht, hgrown⟩ := step_grow habort hcall
      have hsize := (hgrows t ht).size
      rw [hgrown.table, Table.grow, Table.length_contextResize] at hsize
      exact hsize
    | enter call | commit i rt | wait events | process i rt => trivial
  · intro hmore t ht
    rcases grown_or_kept hg ht with ⟨i, call, rfl, habort, hcall, hgrown⟩ | hkept
    · exact hgrown.grows hmin (hmore habort (call, .grow) hcall rfl)
    · exact hkept.grows

/-! ## Descriptors that an `int` can count -/

/-- The sizes stay below `2 ^ 31`, and a call that waits to resize the table is about a descriptor
behind the table of the constructor. -/
structure Countable (s : State S F C) : Prop where
  sound : s.Sound
  min : 32 ≤ s.fdContexts.length
  max : s.fdContexts.length < 2 ^ 31
  waiting : ∀ call, (call, .grow) ∈ s.calls → 32 ≤ call.fd ∧ call.fd * 3 / 2 < 2 ^ 31
  inBounds : s.abort ≠ some .outOfBounds

/-- The call that begins would not make the table too long for an `int`. -/
def Moderate (_ : State S F C) : Step S F C → Prop
  | .enter call => call.fd * 3 / 2 < 2 ^ 31
  | _ => True

instance (s : State S F C) (a : Step S F C) : Decidable (s.Moderate a) :=
  match a with
  | .enter call => inferInstanceAs (Decidable (call.fd * 3 / 2 < 2 ^ 31))
  | .grow _ | .commit _ _ | .wait _ | .process _ _ => isTrue trivial

theorem init_length : (init : State S F C).fdContexts.length = 32 :=
  Table.length_contextResize 32 .blank

theorem init_countable : (init : State S F C).Countable where
  sound := init_sound
  min := Nat.le_of_eq init_length.symm
  max := by
    rw [init_length]
    decide
  waiting := nofun
  inBounds := nofun

/-- It still does if no descriptor is too large. -/
theorem Countable.step (h : s.Countable) (ha : s.Moderate a) (hs : s.step a = some t) :
    t.Countable := by
  have hsound : t.Sound := step_sound s a t h.sound hs
  rcases grown_or_kept h.sound.good hs with ⟨i, call, rfl, -, hcall, hgrown⟩ | hkept
  · obtain ⟨hmin, hmax⟩ := h.waiting call (List.mem_of_getElem? hcall)
    have hsize : t.fdContexts.length = call.fd * 3 / 2 := by
      rw [hgrown.table]
      exact Table.length_contextResize _ _
    refine ⟨hsound, by omega, by omega, fun c hc => h.waiting c (hgrown.waiting c hc), ?_⟩
    rw [hgrown.abort, if_pos (by omega)]
    exact nofun
  · refine ⟨hsound, ?_, ?_, fun c hc => ?_, hkept.abort⟩
    · rw [hkept.fdContexts]
      exact h.min
    · rw [hkept.fdContexts]
      exact h.max
    · rcases hkept.waiting c hc with hold | ⟨rfl, hshort⟩
      · exact h.waiting c hold
      · rw [Table.covers_iff h.max] at hshort
        have hmin := h.min
        exact ⟨by omega, ha⟩

/-! ## All runs -/

/-- In every interleaving the table grows, with all contexts and indices, exactly when every resize
asks for at least the size that the table has. Where no descriptor is too large for the table to be
counted by an `int`, the indices are within bounds in any case. -/
theorem table_grows_iff (as : List (Step S F C)) :
    (Guarded step OnlyGrows init as ↔ Guarded step AsksForMore (init : State S F C) as) ∧
      (Guarded step Moderate (init : State S F C) as →
        Along step (fun s => s.abort ≠ some .outOfBounds) (init : State S F C) as) := by
  constructor
  · have hinit : (init : State S F C).Sound ∧ 32 ≤ (init : State S F C).fdContexts.length :=
      ⟨init_sound, Nat.le_of_eq init_length.symm⟩
    have hall : Guarded step (fun _ _ => True) (init : State S F C) as :=
      .of_forall (fun _ _ => trivial) _ _
    refine guarded_iff_guarded (I := fun s => s.Sound ∧ 32 ≤ s.fdContexts.length) ?_ ?_ hinit hall
    · rintro s a t ⟨hsound, hmin⟩ - hgrows hs
      exact ⟨step_sound s a t hsound hs, Nat.le_trans hmin (hgrows t hs).size⟩
    · rintro s a ⟨hsound, hmin⟩ -
      exact onlyGrows_iff hsound.good hmin a
  · intro hmoderate
    exact along_of_guarded (I := Countable) (fun _ _ _ h ha hs => h.step ha hs)
      (fun _ h => h.inBounds) init_countable hmoderate

/-- The table grows twice, and two events of a descriptor are registered, one of which is
triggered and one cancelled. -/
def growingTable : List (Step Unit Unit Unit) :=
  [.enter (register 32 .READ), .enter (register 48 .READ), .grow 0, .grow 1, .commit 0 true,
    .commit 0 true, .enter (register 48 .WRITE), .commit 0 true, .wait [(48, ⟨.READ, false⟩)],
    .process 0 true, .enter (.cancelAll 48), .commit 0 true]

/-- Two resizes, one after the other. -/
theorem table_grows_growingTable :
    (run step init growingTable).isSome ∧ Guarded step OnlyGrows init growingTable ∧
      Along step (fun s => s.abort ≠ some .outOfBounds) init growingTable :=
  ⟨by decide +kernel, (table_grows_iff growingTable).1.mpr (by decide +kernel),
    (table_grows_iff growingTable).2 (by decide +kernel)⟩

/-- Calls for the descriptors 48 and 32 find the table too short, and resize it in this order. Then
a second call for 48 does. -/
def crossingCalls : List (Step Unit Unit Unit) :=
  [.enter (register 48 .READ), .enter (register 32 .READ), .grow 0, .grow 1,
    .enter (register 48 .WRITE), .grow 2]

/-- The size of the table, and the context of the descriptor 48. -/
def sizeAndContext (s : State Unit Unit Unit) : Nat × Option Nat :=
  (s.fdContexts.length, s.fdContexts[48]?)

/-- A call for a descriptor that makes the table too long for an `int`, and one for 0. -/
def hugeDescriptor : List (Step Unit Unit Unit) :=
  [.enter (register 1431655766 .READ), .grow 0, .enter (register 0 .READ), .grow 1]

/-- The second call finds the table too short, and makes one in which its descriptor has no
place. -/
theorem outOfBounds_hugeDescriptor :
    ∃ s, run step init hugeDescriptor = some s ∧ s.abort = some .outOfBounds := by
  have hshort : ¬ (init : State Unit Unit Unit).toTable.covers 1431655766 := by
    rw [Table.covers_iff init_countable.max, init_length]
    decide
  have hfirst := step_enter_of_not_covers (register 1431655766 .READ) rfl rfl hshort
  obtain ⟨s, hs, hgrown⟩ := step_grow
    (s := { init with calls := [(register 1431655766 .READ, .grow)] }) (i := 0) rfl rfl
  have hsize : s.fdContexts.length = 2147483649 := by
    rw [hgrown.table]
    exact Table.length_contextResize _ _
  have habort : s.abort = none := hgrown.abort
  have hlong : ¬ s.toTable.covers 0 := Table.not_covers (by omega) (by omega)
  have hsecond := step_enter_of_not_covers (register 0 .READ) habort rfl hlong
  have hcall : (s.calls ++ [(register 0 .READ, Stage.grow)])[1]? =
      some (register 0 .READ, .grow) := by
    rw [List.getElem?_append_right (by rw [hgrown.calls]; rfl), hgrown.calls]
    rfl
  obtain ⟨t, ht, hlast⟩ := step_grow
    (s := { s with calls := s.calls ++ [(register 0 .READ, .grow)] }) habort hcall
  refine ⟨t, ?_, hlast.abort⟩
  refine run_cons_eq_some.mpr ⟨_, hfirst, ?_⟩
  refine run_cons_eq_some.mpr ⟨s, hs, ?_⟩
  refine run_cons_eq_some.mpr ⟨_, hsecond, ?_⟩
  exact run_cons_eq_some.mpr ⟨t, ht, rfl⟩

/-- The second of the crossing calls makes the table shorter, and the third one gives the descriptor
another context. With the huge descriptor an index is out of bounds. -/
theorem table_shrinks_crossingCalls :
    (run step init (crossingCalls.take 3)).map sizeAndContext = some (72, some 48) ∧
      (run step init (crossingCalls.take 4)).map sizeAndContext = some (48, none) ∧
      (run step init crossingCalls).map sizeAndContext = some (72, some 72) ∧
      ∃ s, run step init hugeDescriptor = some s ∧ s.abort = some .outOfBounds :=
  ⟨by decide +kernel, by decide +kernel, by decide +kernel, outOfBounds_hugeDescriptor⟩

end State

end Xupeng.IOManager
