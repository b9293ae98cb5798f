import Mathlib.Data.List.Forall2
import Mathlib.Data.List.Perm.Basic

/-!
# Lists related element by element

Facts on `List.Forall₂` beside those of the library: how it composes with another relation,
with a function that is applied to every element and may fail, and with looking up a key.
-/

namespace Xupeng

variable {α β γ : Type}

/-- A relation that is kept by `E` on its left is kept element by element. -/
theorem forall₂_left_of_forall₂ {E : α → α → Prop} {R : α → β → Prop}
    (h : ∀ a a' b, R a b → E a a' → R a' b) {l l' : List α} {m : List β}
    (hR : List.Forall₂ R l m) (hE : List.Forall₂ E l l') : List.Forall₂ R l' m := by
  induction hR generalizing l' with
  | nil =>
    cases hE
    exact List.Forall₂.nil
  | cons hab _ ih =>
    cases hE with
    | cons haa hl => exact List.Forall₂.cons (h _ _ _ hab haa) (ih hl)

/-- Every element on the right is what the function gives for the one on the left. -/
theorem mapM_eq_some_of_forall₂ {f : α → Option β} {l : List α} {m : List β}
    (h : List.Forall₂ (fun a b => f a = some b) l m) : l.mapM f = some m := by
  induction h with
  | nil => rfl
  | cons hab _ ih => simp [List.mapM_cons, hab, ih]

/-- A function that fails for an element fails for the list. -/
theorem mapM_eq_none_of_mem {f : α → Option β} {l : List α} {a : α} (ha : a ∈ l)
    (hf : f a = none) : l.mapM f = none := by
  induction l with
  | nil => cases ha
  | cons b l ih =>
    rcases List.mem_cons.mp ha with rfl | hmem
    · simp [List.mapM_cons, hf]
    · simp [List.mapM_cons, ih hmem]

/-- Every result is that of an element. -/
theorem exists_of_mem_mapM {f : α → Option β} {l : List α} {m : List β} (h : l.mapM f = some m)
    {b : β} (hb : b ∈ m) : ∃ a ∈ l, f a = some b := by
  induction l generalizing m with
  | nil =>
    cases h
    cases hb
  | cons a l ih =>
    simp only [List.mapM_cons, Option.bind_eq_bind, Option.bind_eq_some_iff] at h
    obtain ⟨c, hc, m, hm, heq⟩ := h
    cases heq
    rcases List.mem_cons.mp hb with rfl | hb
    · exact ⟨a, List.mem_cons_self, hc⟩
    · obtain ⟨a', ha, hf⟩ := ih hm hb
      exact ⟨a', List.mem_cons_of_mem _ ha, hf⟩

/-- A function that gives a related result for every element gives a list of related results. -/
theorem exists_mapM_of_forall {f : α → Option β} {R : α → β → Prop} {l : List α}
    (h : ∀ a ∈ l, ∃ b, f a = some b ∧ R a b) : ∃ m, l.mapM f = some m ∧ List.Forall₂ R l m := by
  induction l with
  | nil => exact ⟨[], rfl, List.Forall₂.nil⟩
  | cons a l ih =>
    obtain ⟨b, hb, hab⟩ := h a List.mem_cons_self
    obtain ⟨m, hm, hlm⟩ := ih fun a ha => h a (List.mem_cons_of_mem _ ha)
    exact ⟨b :: m, by simp [List.mapM_cons, hb, hm], List.Forall₂.cons hab hlm⟩

/-! ## Keys -/

/-- The values that two lists of the same keys give for one of them are related. -/
theorem rel_lookup_of_forall₂ [BEq α] {R : β → γ → Prop} {l : List (α × β)} {m : List (α × γ)}
    (h : List.Forall₂ (fun a b => b.1 = a.1 ∧ R a.2 b.2) l m) (key : α) :
    Option.Rel R (l.lookup key) (m.lookup key) := by
  induction h with
  | nil => exact Option.Rel.none
  | @cons a b l m hab _ ih =>
    obtain ⟨k, x⟩ := a
    obtain ⟨k', y⟩ := b
    obtain ⟨rfl, hxy⟩ := hab
    rw [List.lookup_cons, List.lookup_cons]
    cases key == k' with
    | true => exact Option.Rel.some hxy
    | false => exact ih

/-- Where no key occurs twice, the order of the entries does not matter. -/
theorem lookup_of_perm [BEq α] [LawfulBEq α] {l m : List (α × β)} (h : l.Perm m)
    (hl : (l.map Prod.fst).Nodup) (key : α) : l.lookup key = m.lookup key := by
  induction h with
  | nil => rfl
  | cons a _ ih =>
    rw [List.lookup_cons, List.lookup_cons, ih (List.nodup_cons.mp hl).2]
  | swap a b l =>
    obtain ⟨k, x⟩ := a
    obtain ⟨k', y⟩ := b
    have hne : k' ≠ k := fun heq => (List.nodup_cons.mp hl).1 (by simp [heq])
    simp only [List.lookup_cons]
    by_cases hk : key = k
    · simp [hk, beq_eq_false_iff_ne.mpr hne.symm]
    · simp [beq_eq_false_iff_ne.mpr hk]
  | trans h _ ih ih' => exact (ih hl).trans (ih' ((h.map Prod.fst).nodup_iff.mp hl))

end Xupeng
