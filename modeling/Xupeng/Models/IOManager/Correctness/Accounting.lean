import Xupeng.Models.IOManager.Interpretation.Steps

/-!
# The event table accounts for every event

In every reachable state each flag tells whether its slot is filled, the counter
is the number of flags, and every task that was registered is still owed, was
scheduled, or was dropped.
-/

namespace Xupeng.IOManager.State

variable {S F C : Type} {s t : State S F C}

/-- The tasks that `addEvent` has registered and returned 0 for. -/
def registered (s : State S F C) : Multiset (S × Task F C) := total Effect.registered? s.trace

/-- The tasks handed to their schedulers. -/
def handed (s : State S F C) : Multiset (S × Task F C) := total Effect.scheduled? s.trace

/-- The tasks dropped by a `delEvent` that returned true. -/
def dropped (s : State S F C) : Multiset (S × Task F C) := total Effect.dropped? s.trace

/-- The invariant of the table. -/
structure Sound (s : State S F C) : Prop where
  good : s.toTable.Good
  count : s.pendingEventCount = s.toTable.card
  ledger : s.registered = s.pending + s.handed + s.dropped
  slot : s.abort ≠ some .addEventSlot

theorem init_sound : (init : State S F C).Sound := by
  have hm : Table.blank.Moves (Table.init : Table S F C) [] := Table.init_moves
  exact ⟨hm.good, hm.card_eq.symm, hm.ledger, nofun⟩

/-- A step that hands out what it removes keeps it sound. -/
theorem Sound.moved (h : s.Sound) {es : List (Effect S F C)} (hm : Moved s t es) : t.Sound := by
  refine ⟨hm.table.good, ?_, ?_, ?_⟩
  · rw [hm.pendingEventCount, h.count, hm.table.card_eq]
  · have hledger := h.ledger
    unfold registered handed dropped at hledger ⊢
    rw [hm.trace, total_append, total_append, total_append, hledger]
    calc s.pending + total Effect.scheduled? s.trace + total Effect.dropped? s.trace +
          total Effect.registered? es
        = (s.pending + total Effect.registered? es) + total Effect.scheduled? s.trace +
          total Effect.dropped? s.trace := by ac_rfl
      _ = _ := by
          rw [hm.table.ledger]
          ac_rfl
  · rcases hm.abort with ha | ha <;> simp [ha]

/-- So does a step that aborts, but for one assertion. -/
theorem Sound.aborted (h : s.Sound) {a : Abort} (hab : Aborted s t a) (ha : a ≠ .addEventSlot) :
    t.Sound := by
  have hledger := h.ledger
  unfold registered handed dropped at hledger
  refine ⟨?_, ?_, ?_, ?_⟩
  · rw [hab.table]
    exact h.good
  · rw [hab.pendingEventCount, hab.table, h.count]
  · unfold registered handed dropped
    rw [hab.trace, hab.table, hledger]
  · rw [hab.abort]
    exact fun he => ha (Option.some.inj he)

/-- Every step keeps the invariant. -/
theorem step_sound (s : State S F C) (a : Step S F C) (t : State S F C) (hs : s.Sound)
    (h : s.step a = some t) : t.Sound := by
  obtain ⟨-, hm⟩ | ⟨p, sec, rt, c, -, -, -, ⟨r, -, hm⟩ | ⟨x, -, hab, hwhich⟩⟩ :=
    step_cases hs.good h
  · exact hs.moved hm
  · exact hs.moved hm
  · apply hs.aborted hab
    rcases hwhich with rfl | rfl | rfl | ⟨rfl, -⟩ <;> exact nofun

theorem run_sound {as : List (Step S F C)} (h : run step init as = some s) : s.Sound :=
  run_invariant step_sound init_sound h

/-! ## The invariant in the source's terms -/

/-- The flag is set iff the slot has a scheduler and exactly one of a fiber and a callback,
and clear iff the slot has none of the three. -/
def Reflects (ctx : EventContext S F C) (flag : Bool) : Prop :=
  (flag = true ↔ ctx.scheduler.isSome ∧ (ctx.fiber.isSome ↔ ¬ ctx.cb.isSome)) ∧
    (flag = false ↔ ctx.scheduler = none ∧ ctx.fiber = none ∧ ctx.cb = none)

theorem reflects_of_agrees {ctx : EventContext S F C} {flag : Bool} (h : ctx.Agrees flag) :
    Reflects ctx flag := by
  cases flag with
  | false =>
    rw [h.of_clear rfl]
    simp [Reflects, EventContext.empty]
  | true =>
    obtain ⟨⟨s, t⟩, hst⟩ := Option.isSome_iff_exists.mp (h.of_set rfl)
    rcases EventContext.held_eq_some.mp hst with ⟨f, -, rfl⟩ | ⟨c, -, rfl⟩ <;> simp [Reflects]

/-- In every reachable state `m_pendingEventCount` is the number of flags set over all
contexts, every flag reflects its slot, and `addEvent` has not found a filled slot. -/
theorem event_table_invariant (as : List (Step S F C)) (s : State S F C)
    (h : run step init as = some s) :
    s.pendingEventCount = (total (fun c => c.events.card) s.contexts : Nat) ∧
      (∀ c ∈ s.contexts, Reflects c.read c.events.read ∧ Reflects c.write c.events.write) ∧
      s.abort ≠ some .addEventSlot := by
  have hs := run_sound h
  refine ⟨hs.count, ?_, hs.slot⟩
  intro c hc
  exact ⟨reflects_of_agrees (hs.good c hc).read, reflects_of_agrees (hs.good c hc).write⟩

/-- A callback is registered for reading and a fiber for writing on descriptor 3; then the
first of them is delivered. -/
def registerAndDeliver : List (Step Unit Nat Nat) :=
  [.enter (.addEvent ⟨(), 7, .EXEC⟩ 3 .READ (some 1)),
    .enter (.addEvent ⟨(), 7, .EXEC⟩ 3 .WRITE none),
    .commit 1 true, .commit 0 true, .wait [(3, ⟨.READ, false⟩)], .process 0 true]

/-- One of two events has been delivered. -/
theorem event_table_invariant_one_left :
    ∃ s, run step init registerAndDeliver = some s ∧ s.pendingEventCount = 1 ∧
      total (fun c => c.events.card) s.contexts = 1 := by
  refine ⟨_, rfl, rfl, ?_⟩
  exact Int.ofNat_inj.mp (event_table_invariant registerAndDeliver _ rfl).1.symm

/-! ## Every registration is settled once -/

/-- Every registration for which `addEvent` returned 0 is pending in a context, handed to its
own scheduler, or dropped by `delEvent`: over all registrations the numbers add up, so a
registration made once is in exactly one of these situations, exactly once. -/
theorem registrations_settled [DecidableEq S] [DecidableEq F] [DecidableEq C]
    (as : List (Step S F C)) (s : State S F C) (h : run step init as = some s)
    (r : S × Task F C) :
    s.registered.count r = s.pending.count r + s.handed.count r + s.dropped.count r ∧
      (s.registered.count r = 1 →
        (s.pending.count r = 1 ∧ s.handed.count r = 0 ∧ s.dropped.count r = 0) ∨
          (s.pending.count r = 0 ∧ s.handed.count r = 1 ∧ s.dropped.count r = 0) ∨
            (s.pending.count r = 0 ∧ s.handed.count r = 0 ∧ s.dropped.count r = 1)) := by
  have hsum : s.registered.count r = s.pending.count r + s.handed.count r + s.dropped.count r := by
    rw [(run_sound h).ledger, Multiset.count_add, Multiset.count_add]
  refine ⟨hsum, ?_⟩
  intro hone
  omega

/-- A callback has been handed out once. -/
theorem registrations_settled_delivered :
    ∃ s, run step init registerAndDeliver = some s ∧ s.handed.count ((), .cb 1) = 1 ∧
      s.pending.count ((), .cb 1) = 0 := by
  refine ⟨_, rfl, rfl, ?_⟩
  have hsettled := (registrations_settled registerAndDeliver _ rfl ((), .cb 1)).2 rfl
  rcases hsettled with ⟨-, hz, -⟩ | ⟨hz, -, -⟩ | ⟨hz, -, -⟩
  · exact absurd hz (by decide)
  · exact hz
  · exact hz

end Xupeng.IOManager.State
