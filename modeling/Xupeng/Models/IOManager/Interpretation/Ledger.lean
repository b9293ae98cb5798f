import Mathlib.Algebra.Order.Group.Multiset
import Xupeng.Models.IOManager.Native.Table

/-!
# What a section does to its context

A context is in order when each flag says whether its slot is filled. The tasks
in the slots are what the context owes. Every section keeps the context in order,
and its effects balance: what was owed before and what is registered is owed
afterwards, scheduled or dropped, and `m_pendingEventCount` moves with the number
of flags. `Moves` says all of that once; it composes along the effects.
-/

namespace Xupeng.IOManager

variable {S F C : Type}

/-! ## Slots -/

/-- The slot is filled when its flag is set and empty when it is not. -/
structure EventContext.Agrees (ctx : EventContext S F C) (flag : Bool) : Prop where
  of_set : flag = true → ctx.held.isSome
  of_clear : flag = false → ctx = .empty

/-- Both slots agree with their flags. -/
structure FdContext.Good (c : FdContext S F C) : Prop where
  read : c.read.Agrees c.events.read
  write : c.write.Agrees c.events.write

/-- The task in a slot, where the flag is set. -/
def EventContext.owed (ctx : EventContext S F C) (flag : Bool) : Multiset (S × Task F C) :=
  if flag then ↑ctx.held.toList else 0

/-- The tasks that a context still has to hand over. -/
def FdContext.pending (c : FdContext S F C) : Multiset (S × Task F C) :=
  c.read.owed c.events.read + c.write.owed c.events.write

/-- An empty slot goes with a clear bit. -/
theorem EventContext.empty_agrees : (EventContext.empty : EventContext S F C).Agrees false :=
  ⟨nofun, fun _ => rfl⟩

theorem FdContext.new_good (fd : Nat) : (FdContext.new fd : FdContext S F C).Good :=
  ⟨EventContext.empty_agrees, EventContext.empty_agrees⟩

/-- A slot that holds a task has a scheduler and exactly one of a fiber and a callback. -/
theorem EventContext.held_eq_some {ctx : EventContext S F C} {s : S} {t : Task F C} :
    ctx.held = some (s, t) ↔
      (∃ f, t = .fiber f ∧ ctx = ⟨some s, some f, none⟩) ∨
        ∃ c, t = .cb c ∧ ctx = ⟨some s, none, some c⟩ := by
  obtain ⟨_ | s', _ | f, _ | c⟩ := ctx <;>
    simp [EventContext.held, and_comm, eq_comm]

/-! ## Effects -/

/-- The task an effect registers. -/
def Effect.registered? : Effect S F C → Multiset (S × Task F C)
  | .registered s t => {(s, t)}
  | _ => 0

/-- The task an effect hands to a scheduler. -/
def Effect.scheduled? : Effect S F C → Multiset (S × Task F C)
  | .schedule s t => {(s, t)}
  | _ => 0

/-- The task an effect drops. -/
def Effect.dropped? : Effect S F C → Multiset (S × Task F C)
  | .dropped s t => {(s, t)}
  | _ => 0

/-- `c` turns into `c'` with these effects, in order and in balance. -/
structure Moves (c c' : FdContext S F C) (es : List (Effect S F C)) : Prop where
  good : c'.Good
  fd_eq : c'.fd = c.fd
  card_eq : (c'.events.card : Int) = c.events.card + total Effect.delta es
  ledger : c.pending + total Effect.registered? es =
    c'.pending + total Effect.scheduled? es + total Effect.dropped? es

theorem Moves.refl {c : FdContext S F C} (h : c.Good) : Moves c c [] :=
  ⟨h, rfl, by simp, by simp⟩

theorem Moves.trans {c c' c'' : FdContext S F C} {es es' : List (Effect S F C)}
    (h : Moves c c' es) (h' : Moves c' c'' es') : Moves c c'' (es ++ es') where
  good := h'.good
  fd_eq := h'.fd_eq.trans h.fd_eq
  card_eq := by
    rw [h'.card_eq, h.card_eq, total_append, add_assoc]
  ledger := by
    rw [total_append, total_append, total_append, ← add_assoc, h.ledger]
    calc c'.pending + total Effect.scheduled? es + total Effect.dropped? es +
          total Effect.registered? es'
        = (c'.pending + total Effect.registered? es') + total Effect.scheduled? es +
          total Effect.dropped? es := by ac_rfl
      _ = _ := by rw [h'.ledger]; ac_rfl

/-! ## Filling and emptying a slot -/

/-- A slot is emptied and its flag cleared. -/
def FdContext.remove (event : Event) (c : FdContext S F C) : FdContext S F C :=
  { c with events := c.events.without event }.setContext event .empty

/-- A slot is filled and its flag set. -/
def FdContext.insert (event : Event) (ctx : EventContext S F C) (c : FdContext S F C) :
    FdContext S F C :=
  { c with events := c.events.union event }.setContext event ctx

/-- The slot of an event. -/
def FdContext.slot (event : Event) (c : FdContext S F C) : EventContext S F C :=
  if event = .READ then c.read else c.write

/-- The event is one that `getContext` knows. -/
def Event.Single (event : Event) : Prop := event = .READ ∨ event = .WRITE

theorem getContext_of_single {event : Event} (h : event.Single) (c : FdContext S F C) :
    c.getContext event = .ok (c.slot event) := by
  rcases h with rfl | rfl <;> rfl

/-- Two events at once have none. -/
theorem getContext_of_not_single {event : Event} (h : ¬ event.Single) (c : FdContext S F C) :
    c.getContext event = .error .getContext := by
  have hr : event ≠ .READ := fun he => h (Or.inl he)
  have hw : event ≠ .WRITE := fun he => h (Or.inr he)
  simp only [FdContext.getContext, hr, hw, if_false]

namespace FdContext.Good

variable {c : FdContext S F C} {event : Event}

/-- A set flag belongs to a filled slot. -/
theorem held_of_set (h : c.Good) (he : event.Single) (hset : c.events.inter event ≠ .NONE) :
    ∃ s t, (c.slot event).held = some (s, t) := by
  have hsome : (c.slot event).held.isSome := by
    rcases he with rfl | rfl
    · apply h.read.of_set
      by_contra hclear
      exact hset (by simp_all [Event.inter, Event.READ, Event.NONE])
    · apply h.write.of_set
      by_contra hclear
      exact hset (by simp_all [Event.inter, Event.WRITE, Event.NONE])
  obtain ⟨⟨s, t⟩, hst⟩ := Option.isSome_iff_exists.mp hsome
  exact ⟨s, t, hst⟩

/-- A clear flag belongs to an empty slot. -/
theorem empty_of_clear (h : c.Good) (he : event.Single) (hclear : c.events.inter event = .NONE) :
    c.slot event = .empty := by
  rcases he with rfl | rfl
  · exact h.read.of_clear (by simpa [Event.inter, Event.READ, Event.NONE] using hclear)
  · exact h.write.of_clear (by simpa [Event.inter, Event.WRITE, Event.NONE] using hclear)

end FdContext.Good

/-- Emptying a filled slot settles what it owed. -/
theorem remove_spec {c : FdContext S F C} {event : Event} (h : c.Good) (he : event.Single)
    (hset : c.events.inter event ≠ .NONE) {s : S} {t : Task F C}
    (hst : (c.slot event).held = some (s, t)) :
    (c.remove event).Good ∧ (c.remove event).events.card + 1 = c.events.card ∧
      c.pending = (c.remove event).pending + {(s, t)} := by
  obtain ⟨r, w, fd, ⟨er, ew⟩⟩ := c
  rcases he with rfl | rfl
  · obtain rfl : er = true := by
      by_contra hc
      exact hset (by simp_all [Event.inter, Event.READ, Event.NONE])
    have hr : r.held = some (s, t) := hst
    refine ⟨⟨EventContext.empty_agrees, ?_⟩, ?_, ?_⟩
    · simpa [FdContext.remove, FdContext.setContext, Event.without, Event.READ] using h.write
    · simp [FdContext.remove, FdContext.setContext, Event.without, Event.READ, Event.card,
        Nat.add_comm]
    · simp [FdContext.pending, FdContext.remove, FdContext.setContext, Event.without, Event.READ,
        EventContext.owed, hr]
      rw [← Multiset.singleton_add, add_comm]
  · obtain rfl : ew = true := by
      by_contra hc
      exact hset (by simp_all [Event.inter, Event.WRITE, Event.NONE])
    have hw : w.held = some (s, t) := hst
    refine ⟨⟨?_, EventContext.empty_agrees⟩, ?_, ?_⟩
    · simpa [FdContext.remove, FdContext.setContext, Event.without, Event.READ, Event.WRITE]
        using h.read
    · simp [FdContext.remove, FdContext.setContext, Event.without, Event.READ, Event.WRITE,
        Event.card]
    · simp [FdContext.pending, FdContext.remove, FdContext.setContext, Event.without, Event.READ,
        Event.WRITE, EventContext.owed, hw]

/-- Filling an empty slot makes it owe its task. -/
theorem insert_spec {c : FdContext S F C} {event : Event} (h : c.Good) (he : event.Single)
    (hclear : c.events.inter event = .NONE) {ctx : EventContext S F C} {s : S} {t : Task F C}
    (hst : ctx.held = some (s, t)) :
    (c.insert event ctx).Good ∧ (c.insert event ctx).events.card = c.events.card + 1 ∧
      (c.insert event ctx).pending = c.pending + {(s, t)} := by
  have hctx : ctx.Agrees true := ⟨fun _ => by simp [hst], nofun⟩
  obtain ⟨r, w, fd, ⟨er, ew⟩⟩ := c
  rcases he with rfl | rfl
  · obtain rfl : er = false := by simpa [Event.inter, Event.READ, Event.NONE] using hclear
    refine ⟨⟨?_, ?_⟩, ?_, ?_⟩
    · simpa [FdContext.insert, FdContext.setContext, Event.union, Event.READ] using hctx
    · simpa [FdContext.insert, FdContext.setContext, Event.union, Event.READ] using h.write
    · simp [FdContext.insert, FdContext.setContext, Event.union, Event.READ, Event.card,
        Nat.add_comm]
    · simp [FdContext.pending, FdContext.insert, FdContext.setContext, Event.union, Event.READ,
        EventContext.owed, hst]
      rw [← Multiset.singleton_add, add_comm]
  · obtain rfl : ew = false := by simpa [Event.inter, Event.WRITE, Event.NONE] using hclear
    refine ⟨⟨?_, ?_⟩, ?_, ?_⟩
    · simpa [FdContext.insert, FdContext.setContext, Event.union, Event.READ, Event.WRITE]
        using h.read
    · simpa [FdContext.insert, FdContext.setContext, Event.union, Event.READ, Event.WRITE]
        using hctx
    · simp [FdContext.insert, FdContext.setContext, Event.union, Event.READ, Event.WRITE,
        Event.card]
    · simp [FdContext.pending, FdContext.insert, FdContext.setContext, Event.union, Event.READ,
        Event.WRITE, EventContext.owed, hst]

end Xupeng.IOManager
