import Xupeng.Models.IOManager.Interpretation.Requests

/-!
# What a section does to each slot

`addEvent` fills the slot of its event and leaves the other one alone. The other sections
leave a slot as it is or empty it, and `cancelEvent` empties the slot of its event when
`epoll_ctl` succeeds.
-/

namespace Xupeng.IOManager

variable {S F C : Type} {c c' c'' : FdContext S F C} {event : Event} {rt : Bool}
  {r : Result S F C}

/-- Every slot of `c'` is as in `c`, or empty. -/
def Fewer (c c' : FdContext S F C) : Prop :=
  ∀ e : Event, e.Single → c'.slot e = c.slot e ∨ c'.slot e = .empty

theorem Fewer.refl (c : FdContext S F C) : Fewer c c := fun _ _ => Or.inl rfl

theorem Fewer.trans (h : Fewer c c') (h' : Fewer c' c'') : Fewer c c'' := by
  intro e he
  obtain hsame | hempty := h' e he
  · rw [hsame]
    exact h e he
  · exact Or.inr hempty

/-- The slot of an event that is removed is empty. -/
theorem slot_remove (he : event.Single) : (c.remove event).slot event = .empty := by
  rcases he with rfl | rfl <;> rfl

theorem remove_fewer (he : event.Single) : Fewer c (c.remove event) := by
  rintro e (rfl | rfl) <;> rcases he with rfl | rfl
  · exact Or.inr rfl
  · exact Or.inl rfl
  · exact Or.inl rfl
  · exact Or.inr rfl

/-- A section has emptied slots and registered nothing. -/
structure Empties (c c' : FdContext S F C) (es : List (Effect S F C)) : Prop where
  fewer : Fewer c c'
  registered : total Effect.registered? es = 0

theorem Empties.refl (c : FdContext S F C) : Empties c c [] := ⟨Fewer.refl c, rfl⟩

theorem Empties.trans {es es' : List (Effect S F C)} (h : Empties c c' es)
    (h' : Empties c' c'' es') : Empties c c'' (es ++ es') := by
  refine ⟨h.fewer.trans h'.fewer, ?_⟩
  rw [total_append, h.registered, h'.registered, add_zero]

/-- Triggering empties the slot and schedules what was in it. -/
theorem triggerIf_empties (h : c.Good) {cond : Bool} {x : FdContext S F C × List (Effect S F C)}
    (hx : c.triggerIf cond event = .ok x) : Empties c x.1 x.2 := by
  rcases triggerIf_eq h hx with ⟨-, rfl⟩ | ⟨-, he, -, s, t, -, rfl⟩
  · exact Empties.refl c
  · exact ⟨remove_fewer he, rfl⟩

/-- A section that does not abort is in balance. -/
theorem Section.moves (h : c.Good) (sec : Section S F C) (hr : sec.exec rt c = .ok r) :
    Moves c r.ctx r.effects := by
  obtain ⟨r', hr', hmoves⟩ | ⟨a, ha, -⟩ := Section.exec_cases h rt sec
  · cases hr'.symm.trans hr
    exact hmoves
  · cases ha.symm.trans hr

/-- It leaves its context in order. -/
theorem Section.good (h : c.Good) (sec : Section S F C) (hr : sec.exec rt c = .ok r) :
    r.ctx.Good :=
  (Section.moves h sec hr).good

/-- `cancelEvent` empties its slot, or nothing happens. -/
theorem cancelEvent_slots (h : c.Good) {fd : Nat} (hr : c.cancelEvent fd event rt = .ok r) :
    Empties c r.ctx r.effects ∧ (rt = true → event.Single → r.ctx.slot event = .empty) := by
  have hran : Section.Ran c rt (.cancelEvent fd event) r := Section.ran hr
  cases hran with
  | unchanged unasked =>
    refine ⟨Empties.refl c, fun hrt he => h.empty_of_clear he ?_⟩
    by_contra hset
    exact absurd ((if_neg hset).symm.trans (unasked hrt)) (Option.some_ne_none _)
  | cancelEvent asked trigger =>
    refine ⟨triggerIf_empties h trigger, fun _ he => ?_⟩
    rcases triggerIf_eq h trigger with ⟨hcond, -⟩ | ⟨-, -, -, s, t, -, rfl⟩
    · cases hcond
    · exact slot_remove he

/-- So does triggering both events. -/
theorem triggerTwice_empties (h : c.Good) {cond cond' : Bool} {event' : Event}
    {x y : FdContext S F C × List (Effect S F C)} (hx : c.triggerIf cond event = .ok x)
    (hy : x.1.triggerIf cond' event' = .ok y) : Empties c y.1 (x.2 ++ y.2) :=
  (triggerIf_empties h hx).trans (triggerIf_empties (triggerIf_ok h hx).1.good hy)

theorem cancelAll_empties (h : c.Good) {fd : Nat} (hr : c.cancelAll fd rt = .ok r) :
    Empties c r.ctx r.effects := by
  have hran : Section.Ran c rt (.cancelAll fd) r := Section.ran hr
  cases hran with
  | unchanged => exact Empties.refl c
  | cancelAll _ read write => exact triggerTwice_empties h read write

theorem process_empties (h : c.Good) {e : EpollEvents} (hr : c.process e rt = .ok r) :
    Empties c r.ctx r.effects := by
  have hran : Section.Ran c rt (.process e) r := Section.ran hr
  cases hran with
  | unchanged => exact Empties.refl c
  | process _ read write => exact triggerTwice_empties h read write

/-- `addEvent` fills the slot of its event with the running fiber, or nothing happens. -/
theorem addEvent_slots {caller : FdContext.Caller S F} {fd : Nat} (he : event.Single)
    (hr : c.addEvent caller fd event none rt = .ok r) {e : Event} (he' : e.Single) :
    r.ctx.slot e = c.slot e ∨
      e = event ∧ r.ctx.slot e = ⟨some caller.scheduler, some caller.fiber, none⟩ := by
  have hran : Section.Ran c rt (.addEvent caller fd event none) r := Section.ran hr
  cases hran with
  | unchanged => exact Or.inl rfl
  | addFiber =>
    rcases he with rfl | rfl <;> rcases he' with rfl | rfl
    · exact Or.inr ⟨rfl, rfl⟩
    · exact Or.inl rfl
    · exact Or.inl rfl
    · exact Or.inr ⟨rfl, rfl⟩

end Xupeng.IOManager
