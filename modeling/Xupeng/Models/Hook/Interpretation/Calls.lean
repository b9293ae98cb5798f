import Xupeng.Models.Hook.Interpretation.Steps

/-!
# The calls in progress

Each call that may wait has a `timer_info` of its own, and the callbacks of a call are for
its descriptor and its event. A step that begins no call keeps the calls in progress, or
ends one of them.
-/

namespace Xupeng.Hook

/-- Every call of `l'` is one of `l`, of the same fiber. -/
def SameCalls (l' l : List Pc) : Prop :=
  ∀ (f : Nat) w p', l'[f]? = some (.waiting w p') → ∃ p, l[f]? = some (.waiting w p)

/-- The calls in progress have different `timer_info` objects, out of `n`. -/
structure Numbered (l : List Pc) (n : Nat) : Prop where
  lt : ∀ (f : Nat) w p, l[f]? = some (.waiting w p) → w.tinfo < n
  inj : ∀ (f g : Nat) w w' p p', l[f]? = some (.waiting w p) → l[g]? = some (.waiting w' p') →
    w.tinfo = w'.tinfo → f = g

/-- The callback is for the descriptor and the event of the call that it belongs to, if this is
in progress. -/
def Matches (l : List Pc) (c : Callback) : Prop :=
  ∀ (f : Nat) w p, l[f]? = some (.waiting w p) → w.tinfo = c.winfo →
    c.fd = w.fd ∧ c.event = w.fn.event

/-- A call of the list after one fiber has moved. -/
theorem waiting_of_set {l : List Pc} {f g : Nat} {pc : Pc} {w : Wait} {p : Point}
    (h : (l.set f pc)[g]? = some (.waiting w p)) :
    g = f ∧ pc = .waiting w p ∨ g ≠ f ∧ l[g]? = some (.waiting w p) := by
  by_cases hgf : f = g
  · subst hgf
    rw [List.getElem?_set_self'] at h
    obtain ⟨pc', -, hpc⟩ := Option.map_eq_some_iff.mp h
    exact Or.inl ⟨rfl, hpc⟩
  · rw [List.getElem?_set_ne hgf] at h
    exact Or.inr ⟨Ne.symm hgf, h⟩

theorem SameCalls.refl (l : List Pc) : SameCalls l l := fun _ _ p' h => ⟨p', h⟩

/-- A fiber goes on in the call that it is in, or leaves it. -/
theorem SameCalls.set {l : List Pc} {f : Nat} {pc : Pc}
    (h : ∀ w p', pc = .waiting w p' → ∃ p, l[f]? = some (.waiting w p)) :
    SameCalls (l.set f pc) l := by
  intro g w p' hg
  obtain ⟨rfl, hpc⟩ | ⟨-, hg⟩ := waiting_of_set hg
  · exact h w p' hpc
  · exact ⟨p', hg⟩

/-- A fiber goes on in its call. -/
theorem SameCalls.within {l : List Pc} {f : Nat} {w : Wait} {p : Point}
    (h : l[f]? = some (.waiting w p)) (p' : Point) : SameCalls (l.set f (.waiting w p')) l := by
  refine .set fun w' q heq => ?_
  cases heq
  exact ⟨p, h⟩

/-- A move without an effect on shared objects begins no call. -/
theorem SameCalls.goes {l : List Pc} {f : Nat} {pc pc' : Pc} (h : l[f]? = some pc)
    (hgoes : Goes pc pc') : SameCalls (l.set f pc') l := by
  cases hgoes with
  | user | closing => exact .set nofun
  | waiting | short | yield | resume => exact .within h _

theorem Numbered.mono {l l' : List Pc} {n : Nat} (h : Numbered l n) (hsame : SameCalls l' l) :
    Numbered l' n := by
  refine ⟨fun f w p hf => ?_, fun f g w w' p p' hf hg heq => ?_⟩
  · obtain ⟨q, hq⟩ := hsame f w p hf
    exact h.lt f w q hq
  · obtain ⟨q, hq⟩ := hsame f w p hf
    obtain ⟨q', hq'⟩ := hsame g w' p' hg
    exact h.inj f g w w' q q' hq hq' heq

theorem Matches.mono {l l' : List Pc} {c : Callback} (h : Matches l c) (hsame : SameCalls l' l) :
    Matches l' c := by
  intro f w p hf heq
  obtain ⟨q, hq⟩ := hsame f w p hf
  exact h f w q hq heq

/-- What holds of every call after one fiber has moved. -/
theorem forall_waiting_set {Q : Nat → Wait → Point → Prop} {l : List Pc} {f : Nat} {pc : Pc}
    (hown : ∀ w p, pc = .waiting w p → Q f w p)
    (hother : ∀ (g : Nat) w p, g ≠ f → l[g]? = some (.waiting w p) → Q g w p) (g : Nat) (w : Wait)
    (p : Point) (hg : (l.set f pc)[g]? = some (.waiting w p)) : Q g w p := by
  obtain ⟨rfl, hpc⟩ | ⟨hne, hg⟩ := waiting_of_set hg
  · exact hown w p hpc
  · exact hother g w p hne hg

/-- A new call with a new `timer_info`. -/
theorem Numbered.enter {l : List Pc} {n f : Nat} {w : Wait} {p : Point} (h : Numbered l n)
    (hw : w.tinfo = n) : Numbered (l.set f (.waiting w p)) (n + 1) := by
  refine ⟨fun g w' p' hg => ?_, fun g g' w₁ w₂ p₁ p₂ hg hg' heq => ?_⟩
  · obtain ⟨-, hpc⟩ | ⟨-, hg⟩ := waiting_of_set hg
    · cases hpc
      omega
    · have hlt := h.lt g w' p' hg
      omega
  · obtain ⟨hgf, hpc⟩ | ⟨-, hold⟩ := waiting_of_set hg
    · obtain ⟨hgf', -⟩ | ⟨-, hold'⟩ := waiting_of_set hg'
      · exact hgf.trans hgf'.symm
      · cases hpc
        have hlt := h.lt g' w₂ p₂ hold'
        omega
    · obtain ⟨-, hpc⟩ | ⟨-, hold'⟩ := waiting_of_set hg'
      · cases hpc
        have hlt := h.lt g w₁ p₁ hold
        omega
      · exact h.inj g g' w₁ w₂ p₁ p₂ hold hold' heq

end Xupeng.Hook
