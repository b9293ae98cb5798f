import Xupeng.Core.Entries
import Xupeng.Models.IOManager.Interpretation.Sections

/-!
# What happens to the table as a whole

Growing adds contexts in order that owe nothing; a section moves one context. In
both cases the totals over all contexts change as the effects say.
-/

namespace Xupeng.IOManager.Table

variable {S F C : Type} {t : Table S F C}

/-- Every context is in order. -/
def Good (t : Table S F C) : Prop := ∀ c ∈ t.contexts, c.Good

/-- The number of flags set over all contexts. -/
def card (t : Table S F C) : Nat := total (fun c => c.events.card) t.contexts

/-- The tasks still pending in some context. -/
def pending (t : Table S F C) : Multiset (S × Task F C) := total FdContext.pending t.contexts

/-- `t` turns into `t'` with these effects, in order and in balance. -/
structure Moves (t t' : Table S F C) (es : List (Effect S F C)) : Prop where
  good : t'.Good
  card_eq : (t'.card : Int) = t.card + total Effect.delta es
  ledger : t.pending + total Effect.registered? es =
    t'.pending + total Effect.scheduled? es + total Effect.dropped? es

theorem Moves.refl (h : t.Good) : Moves t t [] := ⟨h, by simp, by simp⟩

/-- New contexts are empty, so nothing moves. -/
theorem contextResize_moves (h : t.Good) (size : Nat) : Moves t (t.contextResize size) [] := by
  obtain ⟨fds, hfds⟩ : ∃ fds : List Nat,
      (t.contextResize size).contexts = t.contexts ++ fds.map FdContext.new :=
    ⟨(List.range (size - (t.fdContexts.take size).length)).map
      ((t.fdContexts.take size).length + ·), by simp [contextResize]⟩
  have hnew {M : Type} [AddCommMonoid M] {f : FdContext S F C → M}
      (hf : ∀ fd, f (FdContext.new fd) = 0) : total f (fds.map FdContext.new) = 0 := by
    apply total_eq_zero
    intro c hc
    obtain ⟨fd, -, rfl⟩ := List.mem_map.mp hc
    exact hf fd
  refine ⟨?_, ?_, ?_⟩
  · intro c hc
    rw [hfds, List.mem_append] at hc
    rcases hc with hc | hc
    · exact h c hc
    · obtain ⟨fd, -, rfl⟩ := List.mem_map.mp hc
      exact FdContext.new_good fd
  · rw [card, hfds, total_append, hnew fun _ => rfl]
    simp [card]
  · rw [pending, pending, hfds, total_append, hnew fun _ => rfl]
    simp

/-- The constructor makes contexts that owe nothing. -/
theorem init_moves : Moves (blank : Table S F C) init [] :=
  contextResize_moves (fun _ hc => absurd hc List.not_mem_nil) 32

/-- Replacing a context by what a section leaves of it. -/
theorem set_moves (h : t.Good) {p : Nat} {c c' : FdContext S F C} {es : List (Effect S F C)}
    (hc : t.contexts[p]? = some c) (hm : IOManager.Moves c c' es) {t' : Table S F C}
    (ht' : t'.contexts = t.contexts.set p c') : Moves t t' es := by
  refine ⟨?_, ?_, ?_⟩
  · intro d hd
    rw [ht'] at hd
    exact forall_mem_set h hm.good d hd
  · have hset := total_set (f := fun c : FdContext S F C => c.events.card) hc c'
    have hcard := hm.card_eq
    unfold card
    rw [ht']
    omega
  · have hset := total_set (f := FdContext.pending) hc c'
    unfold pending
    rw [ht']
    -- the old slot contents stand on both sides and cancel
    apply add_right_cancel (b := c.pending)
    calc total FdContext.pending t.contexts + total Effect.registered? es + c.pending
        = total FdContext.pending t.contexts + (c.pending + total Effect.registered? es) := by
          ac_rfl
      _ = (total FdContext.pending t.contexts + c'.pending) + total Effect.scheduled? es +
          total Effect.dropped? es := by
          rw [hm.ledger]
          ac_rfl
      _ = _ := by
          rw [← hset]
          ac_rfl

/-- A section moves the table or aborts, for one of the reasons a section can have. -/
theorem exec_cases (h : t.Good) {p : Nat} {rt : Bool} {sec : Section S F C}
    {o : Except Abort (Table S F C × List (Effect S F C))} (ho : t.exec p rt sec = some o) :
    ∃ c, t.contexts[p]? = some c ∧ c.Good ∧
      ((∃ r t', sec.exec rt c = .ok r ∧ o = .ok (t', r.effects) ∧ Moves t t' r.effects) ∨
        ∃ a, sec.exec rt c = .error a ∧ o = .error a ∧
          (a = .addEventBusy ∨ a = .getContext ∨ a = .fiberState ∨
            a = .triggerEvent ∧ ∃ event, sec = .process event)) := by
  obtain ⟨c, hc, rfl⟩ := Option.map_eq_some_iff.mp ho
  have hgood := h c (List.mem_of_getElem? hc)
  refine ⟨c, hc, hgood, ?_⟩
  rcases Section.exec_cases hgood rt sec with ⟨r, hr, hm⟩ | ⟨a, ha, hwhich⟩
  · refine Or.inl ⟨r, { t with
      contexts := t.contexts.set p r.ctx
      interest := applyCtl p t.interest r.ctl }, hr, by rw [hr]; rfl, set_moves h hc hm rfl⟩
  · exact Or.inr ⟨a, ha, by rw [ha]; rfl, hwhich⟩

end Xupeng.IOManager.Table
