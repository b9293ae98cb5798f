import Mathlib.Data.List.InsertIdx
import Mathlib.Data.List.TakeWhile
import Mathlib.Order.Defs.LinearOrder
import Mathlib.Order.Lattice

/-!
# Sets kept as lists in the order of their keys

An ordered set is a list whose keys increase strictly, with keys in a linear order.
The position of a key is the number of elements before it. A member stands at the
position of its key, and a new element is inserted there. The elements up to a key
are a front part of the list.
-/

namespace Xupeng

variable {α β : Type*} [LinearOrder β] {key : α → β} {l : List α} {a b : α}

/-- The keys increase strictly. -/
def Increasing (key : α → β) (l : List α) : Prop := l.Pairwise fun a b => key a < key b

/-- The number of elements whose keys are less. -/
def position (key : α → β) (k : β) (l : List α) : Nat := (l.takeWhile fun a => key a < k).length

theorem position_cons_of_lt {k : β} (h : key a < k) (l : List α) :
    position key k (a :: l) = position key k l + 1 := by
  simp [position, h]

theorem position_cons_of_le {k : β} (h : k ≤ key a) (l : List α) :
    position key k (a :: l) = 0 := by
  simp [position, Std.not_lt.mpr h]

theorem Increasing.nodup (h : Increasing key l) : l.Nodup := by
  refine List.Pairwise.imp (fun {a b} hab => ?_) h
  rintro rfl
  exact lt_irrefl _ hab

/-- The order depends only on the keys of the members. -/
theorem Increasing.congr {key' : α → β} (h : Increasing key l) (hk : ∀ a ∈ l, key' a = key a) :
    Increasing key' l := by
  refine List.Pairwise.imp_of_mem (fun {a b} ha hb hab => ?_) h
  rw [hk a ha, hk b hb]
  exact hab

/-- A member stands at the position of its key. -/
theorem Increasing.getElem?_position (h : Increasing key l) (ha : a ∈ l) :
    l[position key (key a) l]? = some a := by
  induction l with
  | nil => cases ha
  | cons c l ih =>
    obtain ⟨hc, hl⟩ := List.pairwise_cons.mp h
    rcases List.mem_cons.mp ha with rfl | hmem
    · rw [position_cons_of_le (le_refl _)]
      rfl
    · rw [position_cons_of_lt (hc a hmem), List.getElem?_cons_succ]
      exact ih hl hmem

/-- A key that is not in front has an element before it. -/
theorem exists_lt_of_position_ne_zero {k : β} (h : position key k l ≠ 0) :
    ∃ a ∈ l, key a < k := by
  cases l with
  | nil => exact absurd rfl h
  | cons c l =>
    refine ⟨c, List.mem_cons_self, ?_⟩
    by_contra hge
    exact h (position_cons_of_le (not_lt.mp hge) l)

/-- What stands at the position of a key is not before it. -/
theorem le_of_getElem?_position {k : β} (h : l[position key k l]? = some b) : k ≤ key b := by
  induction l with
  | nil => cases h
  | cons c l ih =>
    rcases lt_or_ge (key c) k with hlt | hge
    · rw [position_cons_of_lt hlt, List.getElem?_cons_succ] at h
      exact ih h
    · rw [position_cons_of_le hge] at h
      cases h
      exact hge

/-- An element with a new key is inserted at its position. -/
theorem Increasing.insertIdx (h : Increasing key l) (hnew : ∀ b ∈ l, key b ≠ key a) :
    Increasing key (l.insertIdx (position key (key a) l) a) := by
  induction l with
  | nil => exact List.pairwise_singleton _ _
  | cons c l ih =>
    obtain ⟨hc, hl⟩ := List.pairwise_cons.mp h
    rcases lt_or_ge (key c) (key a) with hlt | hge
    · rw [position_cons_of_lt hlt, List.insertIdx_succ_cons]
      refine List.pairwise_cons.mpr ⟨fun b hb => ?_, ih hl fun b hb => hnew b (.tail c hb)⟩
      rcases List.eq_or_mem_of_mem_insertIdx hb with rfl | hmem
      · exact hlt
      · exact hc b hmem
    · have hac : key a < key c := lt_of_le_of_ne hge (hnew c List.mem_cons_self).symm
      rw [position_cons_of_le hge, List.insertIdx_zero]
      refine List.pairwise_cons.mpr ⟨fun b hb => ?_, h⟩
      rcases List.mem_cons.mp hb with rfl | hmem
      · exact hac
      · exact lt_trans hac (hc b hmem)

/-! ## The elements up to a key -/

/-- Where no key is less, the elements with the key come first. -/
theorem takeWhile_eq_filter {k : β} (h : l.Pairwise fun a b => key a ≤ key b)
    (hk : ∀ a ∈ l, k ≤ key a) : (l.takeWhile fun a => key a = k) = l.filter fun a => key a ≤ k := by
  induction l with
  | nil => rfl
  | cons c l ih =>
    obtain ⟨hc, hl⟩ := List.pairwise_cons.mp h
    have hck := hk c List.mem_cons_self
    have hrec := ih hl fun a ha => hk a (List.mem_cons_of_mem c ha)
    by_cases heq : key c = k
    · simp only [List.takeWhile_cons, List.filter_cons, heq, le_refl, decide_true, if_true, hrec]
    · have hgt : k < key c := lt_of_le_of_ne hck (Ne.symm heq)
      have hnone : (l.filter fun a => key a ≤ k) = [] := by
        rw [List.filter_eq_nil_iff]
        intro a ha
        rw [decide_eq_true_iff]
        exact not_le.mpr (lt_of_lt_of_le hgt (hc a ha))
      have hout : ¬ key c ≤ k := not_le.mpr hgt
      simp only [List.takeWhile_cons, List.filter_cons, heq, hout, decide_false,
        Bool.false_eq_true, if_false, hnone]

/-- The cut behind the elements that a search passes and behind those with the key after them is
the cut behind the elements up to the key, whichever elements with the key the search passes. -/
theorem take_cut {k : β} {passed : α → Bool} (h : l.Pairwise fun a b => key a ≤ key b)
    (hle : ∀ a ∈ l, passed a = true → key a ≤ k) (hlt : ∀ a ∈ l, key a < k → passed a = true) :
    l.take ((l.takeWhile passed).length +
        ((l.drop (l.takeWhile passed).length).takeWhile fun a => key a = k).length) =
      l.filter fun a => key a ≤ k := by
  induction l with
  | nil => rfl
  | cons c l ih =>
    obtain ⟨hc, hl⟩ := List.pairwise_cons.mp h
    cases hpass : passed c with
    | true =>
      have hrec := ih hl (fun a ha => hle a (List.mem_cons_of_mem c ha))
        fun a ha => hlt a (List.mem_cons_of_mem c ha)
      have hkeep : key c ≤ k := hle c List.mem_cons_self hpass
      rw [List.takeWhile_cons_of_pos hpass, List.length_cons, List.drop_succ_cons,
        Nat.add_right_comm, List.take_succ_cons, hrec, List.filter_cons]
      simp only [hkeep, decide_true, if_true]
    | false =>
      -- the search stops here, and from here on no key is less
      have hfrom : k ≤ key c := by
        by_contra hless
        rw [hlt c List.mem_cons_self (not_le.mp hless)] at hpass
        cases hpass
      have hall : ∀ a ∈ c :: l, k ≤ key a := by
        intro a ha
        rcases List.mem_cons.mp ha with rfl | hmem
        · exact hfrom
        · exact le_trans hfrom (hc a hmem)
      have hstop : (c :: l).takeWhile passed = [] :=
        List.takeWhile_cons_of_neg (by rw [hpass]; exact Bool.false_ne_true)
      rw [hstop, List.length_nil, Nat.zero_add, List.drop_zero, ← takeWhile_eq_filter h hall]
      exact (List.prefix_iff_eq_take.mp (List.takeWhile_prefix _)).symm

end Xupeng
