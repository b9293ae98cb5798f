import Mathlib.Data.List.Basic

/-!
# At most one entry has a value

`Sole g l o` says that `o` is all that the partial measure `g` finds in the list:
no entry has a value, or exactly one has and it is `o`. When the entries change one
at a time, the entry with the value can change its value or lose it, and an entry
can get one while no other has one.
-/

namespace Xupeng

variable {α β : Type*} {g : α → Option β} {l : List α} {o : Option β} {i : Nat} {a b : α}

/-- What the entries have under `g`, in any number, is `o`. -/
def Sole (g : α → Option β) (l : List α) (o : Option β) : Prop := l.filterMap g = o.toList

/-- The values before and behind an entry stay when it is replaced. -/
theorem exists_filterMap_set (g : α → Option β) (h : l[i]? = some a) :
    ∃ l₁ l₂, l.filterMap g = l₁ ++ (g a).toList ++ l₂ ∧
      (l.eraseIdx i).filterMap g = l₁ ++ l₂ ∧
      ∀ b, (l.set i b).filterMap g = l₁ ++ (g b).toList ++ l₂ := by
  obtain ⟨hlt, rfl⟩ := List.getElem?_eq_some_iff.mp h
  refine ⟨(l.take i).filterMap g, (l.drop (i + 1)).filterMap g, ?_, ?_, fun b => ?_⟩
  · have hsplit : l = l.take i ++ [l[i]] ++ l.drop (i + 1) := by simp
    conv_lhs => rw [hsplit]
    rw [List.filterMap_append, List.filterMap_append]
    congr 2
  · rw [List.eraseIdx_eq_take_drop_succ, List.filterMap_append]
  · rw [List.set_eq_take_append_cons_drop, if_pos hlt, List.filterMap_append, List.append_assoc]
    congr 1
    cases hg : g b <;> simp [hg]

namespace Sole

theorem of_forall (h : ∀ a ∈ l, g a = none) : Sole g l none := List.filterMap_eq_nil_iff.mpr h

/-- An entry with a value has the value that was found. -/
theorem eq_of_some (h : Sole g l o) (ha : a ∈ l) {c : β} (hc : g a = some c) : o = some c := by
  have hmem : c ∈ o.toList := h ▸ List.mem_filterMap.mpr ⟨a, ha, hc⟩
  exact Option.mem_toList.mp hmem

/-- If nothing was found no entry has a value. -/
theorem eq_none (h : Sole g l none) (ha : a ∈ l) : g a = none := by
  cases hc : g a with
  | none => rfl
  | some c => cases h.eq_of_some ha hc

/-- Who has something has the only one. -/
theorem none_or_eq (h : Sole g l o) (hi : l[i]? = some a) : g a = none ∨ o = g a := by
  cases hc : g a with
  | none => exact Or.inl rfl
  | some c => exact Or.inr (h.eq_of_some (List.mem_of_getElem? hi) hc)

/-- An entry is replaced by one with the same value, or without one like it. -/
theorem set_same (h : Sole g l o) (hi : l[i]? = some a) (hb : g b = g a) :
    Sole g (l.set i b) o := by
  obtain ⟨l₁, l₂, hl, -, hset⟩ := exists_filterMap_set g hi
  unfold Sole at h ⊢
  rw [hset, hb, ← hl, h]

/-- The others have no value if this entry is all that was found. -/
theorem eraseIdx (h : Sole g l (g a)) (hi : l[i]? = some a) : ∀ c ∈ l.eraseIdx i, g c = none := by
  obtain ⟨l₁, l₂, hl, herase, -⟩ := exists_filterMap_set g hi
  have hlen := congrArg List.length (hl.symm.trans h)
  have hnil : (l.eraseIdx i).filterMap g = [] := by
    refine List.eq_nil_of_length_eq_zero ?_
    rw [herase]
    simp only [List.length_append] at hlen ⊢
    omega
  intro c hc
  exact List.filterMap_eq_nil_iff.mp hnil c hc

/-- The entry that is all that was found can be replaced. -/
theorem set (h : Sole g l (g a)) (hi : l[i]? = some a) (b : α) : Sole g (l.set i b) (g b) := by
  obtain ⟨l₁, l₂, hl, -, hset⟩ := exists_filterMap_set g hi
  have hlen := congrArg List.length (hl.symm.trans h)
  simp only [List.length_append] at hlen
  obtain rfl : l₁ = [] := List.eq_nil_of_length_eq_zero (by omega)
  obtain rfl : l₂ = [] := List.eq_nil_of_length_eq_zero (by omega)
  unfold Sole
  rw [hset, List.nil_append, List.append_nil]

/-- Entries may change if their values do not. -/
theorem map (h : Sole g l o) {f : α → α} (hf : ∀ a ∈ l, g (f a) = g a) : Sole g (l.map f) o := by
  unfold Sole at h ⊢
  rw [List.filterMap_map, ← h]
  exact List.filterMap_congr hf

end Sole

end Xupeng
