import Xupeng.Models.IOManager.Interpretation.Ledger

/-!
# The sections, one by one

For a context in order, each section is reduced to `remove` and `insert`: what it
leaves when it succeeds, and which assertion it can run into. Only the loop of
`idle` can call `triggerEvent` for a flag that is not set.
-/

namespace Xupeng.IOManager

variable {S F C : Type} {c : FdContext S F C} {event : Event}

/-- A computation that may abort succeeds when its parts do. -/
theorem bind_eq_ok {α β : Type} {x : Except Abort α} {k : α → Except Abort β} {b : β} :
    (x >>= k) = .ok b ↔ ∃ a, x = .ok a ∧ k a = .ok b := by
  cases x with
  | error e => simp [bind, Except.bind]
  | ok a => simp [bind, Except.bind]

/-- The bits can be set without the slots. -/
theorem slot_with_events (c : FdContext S F C) (events : Event) :
    ({ c with events := events } : FdContext S F C).slot event = c.slot event := rfl

/-! ## Triggering -/

/-- An event that is not registered is not triggered. -/
theorem triggerEvent_of_clear (h : c.events.inter event = .NONE) :
    c.triggerEvent event = .error .triggerEvent := by
  simp only [FdContext.triggerEvent, h, if_true]

/-- Nor are two at once. -/
theorem triggerEvent_of_not_single (h : c.events.inter event ≠ .NONE) (he : ¬ event.Single) :
    c.triggerEvent event = .error .getContext := by
  simp only [FdContext.triggerEvent, h, if_false, getContext_of_not_single he]
  rfl

/-- A set flag is cleared and its task handed to its scheduler. -/
theorem triggerEvent_of_set (he : event.Single) (h : c.events.inter event ≠ .NONE) {s : S}
    {t : Task F C} (hst : (c.slot event).held = some (s, t)) :
    c.triggerEvent event = .ok (c.remove event, [.schedule s t]) := by
  simp only [FdContext.triggerEvent, h, if_false, getContext_of_single he, slot_with_events]
  rcases EventContext.held_eq_some.mp hst with ⟨f, rfl, hctx⟩ | ⟨cb, rfl, hctx⟩
  · rw [hctx]
    rfl
  · rw [hctx]
    rfl

/-- Emptying a filled slot, with its task scheduled and the counter decremented. -/
theorem remove_moves (h : c.Good) (he : event.Single) (hset : c.events.inter event ≠ .NONE) {s : S}
    {t : Task F C} (hst : (c.slot event).held = some (s, t)) :
    Moves c (c.remove event) [.schedule s t, .decrement] ∧
      Moves c (c.remove event) [.decrement, .dropped s t] := by
  obtain ⟨hgood, hcard, hpend⟩ := remove_spec h he hset hst
  have hfd : (c.remove event).fd = c.fd := by
    rcases he with rfl | rfl <;> rfl
  refine ⟨⟨hgood, hfd, ?_, ?_⟩, ⟨hgood, hfd, ?_, ?_⟩⟩
  · simp only [total_cons, total_nil, Effect.delta]
    omega
  · simp [hpend, Effect.registered?, Effect.scheduled?, Effect.dropped?]
  · simp only [total_cons, total_nil, Effect.delta]
    omega
  · simp [hpend, Effect.registered?, Effect.scheduled?, Effect.dropped?]

/-- A conditional trigger that does not abort does nothing, or empties a filled slot. -/
theorem triggerIf_eq (h : c.Good) {cond : Bool} {r : FdContext S F C × List (Effect S F C)}
    (hr : c.triggerIf cond event = .ok r) :
    cond = false ∧ r = (c, []) ∨
      cond = true ∧ event.Single ∧ c.events.inter event ≠ .NONE ∧ ∃ s t,
        (c.slot event).held = some (s, t) ∧ r = (c.remove event, [.schedule s t, .decrement]) := by
  cases cond with
  | false => exact Or.inl ⟨rfl, (Except.ok.inj hr).symm⟩
  | true =>
    by_cases hset : c.events.inter event = .NONE
    · simp only [FdContext.triggerIf, if_true, triggerEvent_of_clear hset] at hr
      cases hr
    · by_cases he : event.Single
      · obtain ⟨s, t, hst⟩ := h.held_of_set he hset
        simp only [FdContext.triggerIf, if_true, triggerEvent_of_set he hset hst] at hr
        exact Or.inr ⟨rfl, he, hset, s, t, hst, (Except.ok.inj hr).symm⟩
      · simp only [FdContext.triggerIf, if_true, triggerEvent_of_not_single hset he] at hr
        cases hr

/-- What a conditional trigger does, when it does not abort. -/
theorem triggerIf_ok (h : c.Good) {cond : Bool} {r : FdContext S F C × List (Effect S F C)}
    (hr : c.triggerIf cond event = .ok r) :
    Moves c r.1 r.2 ∧ (r.1.events = if cond then c.events.without event else c.events) ∧
      (cond = true → c.events.inter event ≠ .NONE) := by
  rcases triggerIf_eq h hr with ⟨rfl, rfl⟩ | ⟨rfl, he, hset, s, t, hst, rfl⟩
  · exact ⟨Moves.refl h, rfl, nofun⟩
  · refine ⟨(remove_moves h he hset hst).1, ?_, fun _ => hset⟩
    rcases he with rfl | rfl <;> rfl

/-- A conditional trigger of a single event aborts exactly for a flag that is not set. -/
theorem triggerIf_error (h : c.Good) (he : event.Single) {cond : Bool} {a : Abort}
    (hr : c.triggerIf cond event = .error a) :
    a = .triggerEvent ∧ cond = true ∧ c.events.inter event = .NONE := by
  cases cond with
  | false => cases hr
  | true =>
    by_cases hset : c.events.inter event = .NONE
    · simp only [FdContext.triggerIf, if_true, triggerEvent_of_clear hset] at hr
      exact ⟨(Except.error.inj hr).symm, rfl, hset⟩
    · obtain ⟨s, t, hst⟩ := h.held_of_set he hset
      simp only [FdContext.triggerIf, if_true, triggerEvent_of_set he hset hst] at hr
      cases hr

/-! ## Registering and deleting -/

/-- Filling an empty slot, with the counter incremented. -/
theorem insert_moves (h : c.Good) (he : event.Single) (hclear : c.events.inter event = .NONE)
    {ctx : EventContext S F C} {s : S} {t : Task F C} (hst : ctx.held = some (s, t)) :
    Moves c (c.insert event ctx) [.increment, .registered s t] := by
  obtain ⟨hgood, hcard, hpend⟩ := insert_spec h he hclear hst
  refine ⟨hgood, ?_, ?_, ?_⟩
  · rcases he with rfl | rfl <;> rfl
  · simp only [total_cons, total_nil, Effect.delta]
    omega
  · simp [hpend, Effect.registered?, Effect.scheduled?, Effect.dropped?]

/-- `addEvent` fills the slot, or leaves the context alone, or aborts; the slot it finds
is always empty. -/
theorem addEvent_cases (h : c.Good) (caller : FdContext.Caller S F) (fd : Nat) (event : Event)
    (cb : Option C) (rt : Bool) :
    (∃ r, c.addEvent caller fd event cb rt = .ok r ∧ Moves c r.ctx r.effects) ∨
      ∃ a, c.addEvent caller fd event cb rt = .error a ∧
        (a = .addEventBusy ∨ a = .getContext ∨ a = .fiberState) := by
  by_cases hclear : c.events.inter event = .NONE
  · cases rt with
    | false =>
      refine Or.inl ⟨⟨c, none, [], false⟩, ?_, Moves.refl h⟩
      simp [FdContext.addEvent, hclear]
    | true =>
      by_cases he : event.Single
      · have hempty := h.empty_of_clear he hclear
        cases cb with
        | some cb =>
          refine Or.inl ⟨⟨c.insert event ⟨some caller.scheduler, none, some cb⟩,
            some ⟨if c.events ≠ .NONE then .MOD else .ADD, fd, c.events.union event⟩,
            [.increment, .registered caller.scheduler (.cb cb)], true⟩, ?_, insert_moves h he hclear
            (EventContext.held_eq_some.mpr (Or.inr ⟨cb, rfl, rfl⟩))⟩
          simp only [FdContext.addEvent, hclear, ne_eq, not_true_eq_false, if_false,
            Bool.not_true, Bool.false_eq_true, getContext_of_single he, slot_with_events, hempty]
          rfl
        | none =>
          by_cases hexec : caller.state = .EXEC
          · refine Or.inl ⟨⟨c.insert event ⟨some caller.scheduler, some caller.fiber, none⟩,
              some ⟨if c.events ≠ .NONE then .MOD else .ADD, fd, c.events.union event⟩,
              [.increment, .registered caller.scheduler (.fiber caller.fiber)], true⟩, ?_,
              insert_moves h he hclear
                (EventContext.held_eq_some.mpr (Or.inl ⟨caller.fiber, rfl, rfl⟩))⟩
            simp only [FdContext.addEvent, hclear, ne_eq, not_true_eq_false, if_false,
              Bool.not_true, Bool.false_eq_true, getContext_of_single he, slot_with_events, hempty,
              hexec]
            rfl
          · refine Or.inr ⟨.fiberState, ?_, Or.inr (Or.inr rfl)⟩
            simp only [FdContext.addEvent, hclear, ne_eq, not_true_eq_false, if_false,
              Bool.not_true, Bool.false_eq_true, getContext_of_single he, slot_with_events, hempty,
              hexec, not_false_eq_true, if_true]
            rfl
      · refine Or.inr ⟨.getContext, ?_, Or.inr (Or.inl rfl)⟩
        simp only [FdContext.addEvent, hclear, ne_eq, not_true_eq_false, if_false,
          Bool.not_true, Bool.false_eq_true, getContext_of_not_single he]
        rfl
  · refine Or.inr ⟨.addEventBusy, ?_, Or.inl rfl⟩
    simp [FdContext.addEvent, hclear]

/-- `delEvent` empties the slot, or leaves the context alone; it aborts only for an event
that is neither `READ` nor `WRITE`. -/
theorem delEvent_cases (h : c.Good) (fd : Nat) (event : Event) (rt : Bool) :
    (∃ r, c.delEvent fd event rt = .ok r ∧ Moves c r.ctx r.effects) ∨
      c.delEvent fd event rt = .error .getContext := by
  by_cases hclear : c.events.inter event = .NONE
  · refine Or.inl ⟨⟨c, none, [], false⟩, ?_, Moves.refl h⟩
    simp only [FdContext.delEvent, hclear, if_true]
  cases rt with
  | false =>
    refine Or.inl ⟨⟨c, none, [], false⟩, ?_, Moves.refl h⟩
    simp only [FdContext.delEvent, hclear, if_false, Bool.not_false, if_true]
  | true =>
    simp only [FdContext.delEvent, hclear, if_false, Bool.not_true, Bool.false_eq_true]
    by_cases he : event.Single
    · obtain ⟨s, t, hst⟩ := h.held_of_set he hclear
      refine Or.inl ⟨⟨c.remove event,
        some ⟨if c.events.without event ≠ .NONE then .MOD else .DEL, fd, c.events.without event⟩,
        [.decrement, .dropped s t], true⟩, ?_, (remove_moves h he hclear hst).2⟩
      rw [getContext_of_single he, slot_with_events]
      simp only [bind, Except.bind, hst, Option.map_some, Option.toList_some]
      rfl
    · rw [getContext_of_not_single he]
      exact Or.inr rfl

/-- `cancelEvent` hands the task over, or leaves the context alone; it aborts only for an
event that is neither `READ` nor `WRITE`. -/
theorem cancelEvent_cases (h : c.Good) (fd : Nat) (event : Event) (rt : Bool) :
    (∃ r, c.cancelEvent fd event rt = .ok r ∧ Moves c r.ctx r.effects) ∨
      c.cancelEvent fd event rt = .error .getContext := by
  by_cases hclear : c.events.inter event = .NONE
  · refine Or.inl ⟨⟨c, none, [], false⟩, ?_, Moves.refl h⟩
    simp only [FdContext.cancelEvent, hclear, if_true]
  cases rt with
  | false =>
    refine Or.inl ⟨⟨c, none, [], false⟩, ?_, Moves.refl h⟩
    simp only [FdContext.cancelEvent, hclear, if_false, Bool.not_false, if_true]
  | true =>
    simp only [FdContext.cancelEvent, hclear, if_false, Bool.not_true, Bool.false_eq_true]
    cases hr : c.triggerIf true event with
    | ok r => exact Or.inl ⟨⟨r.1, _, r.2, true⟩, rfl, (triggerIf_ok h hr).1⟩
    | error a =>
      refine Or.inr ?_
      by_cases he : event.Single
      · exact absurd (triggerIf_error h he hr).2.2 hclear
      · simp only [FdContext.triggerIf, if_true, triggerEvent_of_not_single hclear he] at hr
        obtain rfl : .getContext = a := Except.error.inj hr
        rfl

/-- `cancelAll` hands all tasks over or leaves the context alone, and never aborts. -/
theorem cancelAll_cases (h : c.Good) (fd : Nat) (rt : Bool) :
    ∃ r, c.cancelAll fd rt = .ok r ∧ Moves c r.ctx r.effects := by
  by_cases hnone : c.events = .NONE
  · refine ⟨⟨c, none, [], false⟩, ?_, Moves.refl h⟩
    simp only [FdContext.cancelAll, hnone, if_true]
  cases rt with
  | false =>
    refine ⟨⟨c, none, [], false⟩, ?_, Moves.refl h⟩
    simp only [FdContext.cancelAll, hnone, if_false, Bool.not_false, if_true]
  | true =>
    simp only [FdContext.cancelAll, hnone, if_false, Bool.not_true, Bool.false_eq_true]
    cases hr₁ : c.triggerIf c.events.read .READ with
    | error a =>
      obtain ⟨-, hread, hclear⟩ := triggerIf_error h (Or.inl rfl) hr₁
      simp [Event.inter, Event.READ, Event.NONE, hread] at hclear
    | ok r₁ =>
      obtain ⟨hm₁, he₁, -⟩ := triggerIf_ok h hr₁
      cases hr₂ : r₁.1.triggerIf r₁.1.events.write .WRITE with
      | error a =>
        obtain ⟨-, hwrite, hclear⟩ := triggerIf_error hm₁.good (Or.inr rfl) hr₂
        simp [Event.inter, Event.WRITE, Event.NONE, hwrite] at hclear
      | ok r₂ =>
        obtain ⟨hm₂, he₂, -⟩ := triggerIf_ok hm₁.good hr₂
        have hdone : r₂.1.events = .NONE := by
          rw [he₂, he₁]
          rcases c.events with ⟨_ | _, _ | _⟩ <;> rfl
        refine ⟨⟨r₂.1, some ⟨.DEL, fd, .NONE⟩, r₁.2 ++ r₂.2, true⟩, ?_, hm₁.trans hm₂⟩
        simp only [bind, Except.bind, hr₂, hdone, ne_eq, not_true_eq_false, if_false]

/-! ## Processing an entry of a batch -/

/-- An entry that names, besides a flag that is set, one that is not. -/
def Stale (event : EpollEvents) (rt : Bool) (c : FdContext S F C) : Prop :=
  rt = true ∧ c.events.inter (c.realEvents event) ≠ .NONE ∧
    (c.realEvents event).without c.events ≠ .NONE

/-- Processing an entry aborts in `triggerEvent` exactly when the entry is stale, and hands
the tasks over or leaves the context alone otherwise. -/
theorem process_cases (h : c.Good) (event : EpollEvents) (rt : Bool) :
    (¬ Stale event rt c ∧ ∃ r, c.process event rt = .ok r ∧ Moves c r.ctx r.effects) ∨
      (Stale event rt c ∧ c.process event rt = .error .triggerEvent) := by
  generalize hreal : c.realEvents event = real
  have hstale : Stale event rt c ↔
      rt = true ∧ c.events.inter real ≠ .NONE ∧ real.without c.events ≠ .NONE := by
    rw [Stale, hreal]
  rw [hstale]
  by_cases hnone : c.events.inter real = .NONE
  · refine Or.inl ⟨fun hs => hs.2.1 hnone, ⟨c, none, [], false⟩, ?_, Moves.refl h⟩
    simp only [FdContext.process, hreal, hnone, if_true]
  cases rt with
  | false =>
    refine Or.inl ⟨(fun hs => nomatch hs.1), ⟨c, none, [], false⟩, ?_, Moves.refl h⟩
    simp only [FdContext.process, hreal, hnone, if_false, Bool.not_false, if_true]
  | true =>
    rw [eq_self, true_and]
    simp only [FdContext.process, hreal, hnone, if_false, Bool.not_true, Bool.false_eq_true]
    cases hr₁ : c.triggerIf real.read .READ with
    | error a =>
      obtain ⟨rfl, hread, hclear⟩ := triggerIf_error h (Or.inl rfl) hr₁
      refine Or.inr ⟨⟨hnone, ?_⟩, rfl⟩
      simp_all [Event.inter, Event.without, Event.READ, Event.NONE]
    | ok r₁ =>
      obtain ⟨hm₁, he₁, hset₁⟩ := triggerIf_ok h hr₁
      have hwrite : r₁.1.events.write = c.events.write := by
        rw [he₁]
        split <;> simp [Event.without, Event.READ]
      cases hr₂ : r₁.1.triggerIf real.write .WRITE with
      | error a =>
        obtain ⟨rfl, hw, hclear⟩ := triggerIf_error hm₁.good (Or.inr rfl) hr₂
        refine Or.inr ⟨⟨hnone, ?_⟩, by simp only [bind, Except.bind, hr₂]⟩
        simp_all [Event.inter, Event.without, Event.WRITE, Event.NONE]
      | ok r₂ =>
        obtain ⟨hm₂, -, hset₂⟩ := triggerIf_ok hm₁.good hr₂
        refine Or.inl ⟨?_, ⟨r₂.1,
          some ⟨if c.events.without real ≠ .NONE then .MOD else .DEL, c.fd, c.events.without real⟩,
          r₁.2 ++ r₂.2, true⟩, by simp only [bind, Except.bind, hr₂], hm₁.trans hm₂⟩
        rintro ⟨-, hmore⟩
        apply hmore
        -- both flags of the entry have been found set
        simp only [Event.inter, hwrite, Event.READ, Event.WRITE, Event.NONE] at hset₁ hset₂
        rcases real with ⟨_ | _, _ | _⟩ <;> simp_all [Event.without, Event.NONE]

/-! ## Any section -/

/-- Every section that does not abort keeps the context in order and its effects in balance.
The assertions that can fail are those on the arguments of a call, and the one of
`triggerEvent` for a stale entry. -/
theorem Section.exec_cases (h : c.Good) (rt : Bool) (sec : Section S F C) :
    (∃ r, sec.exec rt c = .ok r ∧ Moves c r.ctx r.effects) ∨
      ∃ a, sec.exec rt c = .error a ∧
        (a = .addEventBusy ∨ a = .getContext ∨ a = .fiberState ∨
          a = .triggerEvent ∧ ∃ event, sec = .process event) := by
  cases sec with
  | addEvent caller fd event cb =>
    rcases addEvent_cases h caller fd event cb rt with hok | ⟨a, ha, hcases⟩
    · exact Or.inl hok
    · refine Or.inr ⟨a, ha, ?_⟩
      rcases hcases with rfl | rfl | rfl <;> simp
  | delEvent fd event =>
    rcases delEvent_cases h fd event rt with hok | ha
    · exact Or.inl hok
    · exact Or.inr ⟨_, ha, Or.inr (Or.inl rfl)⟩
  | cancelEvent fd event =>
    rcases cancelEvent_cases h fd event rt with hok | ha
    · exact Or.inl hok
    · exact Or.inr ⟨_, ha, Or.inr (Or.inl rfl)⟩
  | cancelAll fd => exact Or.inl (cancelAll_cases h fd rt)
  | process event =>
    rcases process_cases h event rt with ⟨-, hok⟩ | ⟨-, ha⟩
    · exact Or.inl hok
    · exact Or.inr ⟨_, ha, Or.inr (Or.inr (Or.inr ⟨rfl, event, rfl⟩))⟩

end Xupeng.IOManager
