import Mathlib.Data.List.Basic

/-!
# Lists in which one entry is replaced or removed

A table changes one entry at a time. What holds of the entries, or of pairs of them, is kept
if it holds of the new entry, and every entry other than the old one stays.
-/

namespace Xupeng

variable {α : Type*}

/-! ## Entries that stay -/

/-- An entry other than the one that is removed stays. -/
theorem mem_eraseIdx_of_ne {l : List α} {i : Nat} {a b : α} (ha : a ∈ l) (hi : l[i]? = some b)
    (hne : a ≠ b) : a ∈ l.eraseIdx i := by
  obtain ⟨j, hj⟩ := List.mem_iff_getElem?.mp ha
  refine List.mem_eraseIdx_iff_getElem?.mpr ⟨j, ?_, hj⟩
  rintro rfl
  exact hne (Option.some.inj (hj.symm.trans hi))

/-- An entry other than the one that is replaced stays. -/
theorem mem_set_of_ne {l : List α} {i : Nat} {a b : α} (c : α) (ha : a ∈ l) (hi : l[i]? = some b)
    (hne : a ≠ b) : a ∈ l.set i c := by
  obtain ⟨j, hj⟩ := List.mem_iff_getElem?.mp ha
  refine List.mem_iff_getElem?.mpr ⟨j, ?_⟩
  rw [List.getElem?_set_ne, hj]
  rintro rfl
  exact hne (Option.some.inj (hj.symm.trans hi))

/-- The new entry is there. -/
theorem mem_set_self {l : List α} {i : Nat} {b : α} (c : α) (hi : l[i]? = some b) :
    c ∈ l.set i c := by
  obtain ⟨hlt, -⟩ := List.getElem?_eq_some_iff.mp hi
  exact List.mem_set hlt c

/-- The old entry is exchanged for the new one. -/
theorem set_append_perm {l : List α} {i : Nat} {a : α} (b : α) (hi : l[i]? = some a) :
    (l.set i b ++ [a]).Perm (l ++ [b]) := by
  obtain ⟨hlt, rfl⟩ := List.getElem?_eq_some_iff.mp hi
  have hsplit : l = l.take i ++ l[i] :: l.drop (i + 1) := by simp
  rw [List.set_eq_take_append_cons_drop, if_pos hlt]
  conv_rhs => rw [hsplit]
  simp only [List.append_assoc, List.cons_append]
  refine List.Perm.append_left _ ?_
  have hlast (c : α) : (l.drop (i + 1) ++ [c]).Perm (c :: l.drop (i + 1)) := List.perm_append_comm
  exact ((hlast l[i]).cons b).trans ((List.Perm.swap _ _ _).trans ((hlast b).symm.cons _))

/-! ## What holds of all entries -/

/-- What holds of all entries and of the new one holds after the replacement. -/
theorem forall_mem_set {P : α → Prop} {l : List α} {i : Nat} {b : α} (h : ∀ a ∈ l, P a)
    (hb : P b) : ∀ a ∈ l.set i b, P a := by
  intro a ha
  rcases List.mem_or_eq_of_mem_set ha with hmem | rfl
  · exact h a hmem
  · exact hb

/-- What holds of all other entries and of the new one holds after the replacement. -/
theorem forall_mem_set_of_eraseIdx {P : α → Prop} {l : List α} {i : Nat} {b : α}
    (h : ∀ a ∈ l.eraseIdx i, P a) (hb : P b) : ∀ a ∈ l.set i b, P a := by
  intro a ha
  obtain ⟨j, hj⟩ := List.mem_iff_getElem?.mp ha
  by_cases hij : i = j
  · subst hij
    rw [List.getElem?_set_self'] at hj
    obtain ⟨_, -, rfl⟩ := Option.map_eq_some_iff.mp hj
    exact hb
  · rw [List.getElem?_set_ne hij] at hj
    exact h a (List.mem_eraseIdx_iff_getElem?.mpr ⟨j, Ne.symm hij, hj⟩)

/-- What holds of all entries after one was replaced held before, if it held of the old one. -/
theorem forall_of_forall_set {P : α → Prop} {l : List α} {i : Nat} {a b : α} (h : l[i]? = some a)
    (ha : P a) (hset : ∀ c ∈ l.set i b, P c) : ∀ c ∈ l, P c := by
  intro c hc
  obtain ⟨j, hj⟩ := List.mem_iff_getElem?.mp hc
  by_cases hij : i = j
  · subst hij
    rw [h] at hj
    exact Option.some.inj hj ▸ ha
  · exact hset c (List.mem_iff_getElem?.mpr ⟨j, by rw [List.getElem?_set_ne hij, hj]⟩)

/-! ## What holds of pairs of entries -/

/-- In a list whose entries are related in pairs, an entry is related to all others. -/
theorem pairwise_eraseIdx {R : α → α → Prop} (hsymm : ∀ a b, R a b → R b a) {l : List α}
    (h : l.Pairwise R) {i : Nat} {a : α} (hi : l[i]? = some a) : ∀ b ∈ l.eraseIdx i, R a b := by
  intro b hb
  obtain ⟨hlt, rfl⟩ := List.getElem?_eq_some_iff.mp hi
  obtain ⟨j, hj, hij, rfl⟩ := List.mem_eraseIdx_iff_getElem.mp hb
  rw [List.pairwise_iff_getElem] at h
  rcases Nat.lt_or_gt_of_ne hij with hlt' | hgt
  · exact hsymm _ _ (h j i hj hlt hlt')
  · exact h i j hlt hj hgt

/-- An entry that is related to all others can be put in the place of one. -/
theorem pairwise_set {R : α → α → Prop} (hsymm : ∀ a b, R a b → R b a) {l : List α}
    (h : l.Pairwise R) {i : Nat} {b : α} (hb : ∀ c ∈ l.eraseIdx i, R b c) :
    (l.set i b).Pairwise R := by
  rw [List.pairwise_iff_getElem] at h ⊢
  intro j k hj hk hjk
  simp only [List.length_set] at hj hk
  have hother {n : Nat} (hn : n < l.length) (hne : i ≠ n) : R b l[n] :=
    hb _ (List.mem_eraseIdx_iff_getElem.mpr ⟨n, hn, hne.symm, rfl⟩)
  simp only [List.getElem_set]
  split <;> split
  · omega
  · exact hother hk (by assumption)
  · exact hsymm _ _ (hother hj (by assumption))
  · exact h j k hj hk hjk

end Xupeng
