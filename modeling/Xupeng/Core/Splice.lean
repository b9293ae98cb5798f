import Mathlib.Data.List.Basic

/-!
# Overwriting a stretch of a list

`splice l i xs` puts `xs` in place of the elements of `l` from index `i` on and
extends `l` where `xs` runs past its end. The lemmas move a splice through a
concatenation, which is what an operation on a buffer stored in pieces needs.
-/

namespace Xupeng

variable {α : Type*}

/-- `l` with `xs` written over it from index `i`. -/
def splice (l : List α) (i : Nat) (xs : List α) : List α :=
  l.take i ++ xs ++ l.drop (i + xs.length)

@[simp] theorem splice_nil (l : List α) (i : Nat) : splice l i [] = l := by
  simp [splice]

theorem length_splice {l : List α} {i : Nat} (h : i ≤ l.length) (xs : List α) :
    (splice l i xs).length = max l.length (i + xs.length) := by
  simp only [splice, List.length_append, List.length_take, List.length_drop]
  omega

/-- A splice that stays inside a list keeps its length. -/
theorem length_splice_of_le {l : List α} {i : Nat} {xs : List α} (h : i + xs.length ≤ l.length) :
    (splice l i xs).length = l.length := by
  rw [length_splice (by omega), Nat.max_eq_left h]

/-- Reading back at the place of the splice. -/
theorem drop_splice {l : List α} {i : Nat} (h : i ≤ l.length) (xs : List α) :
    (splice l i xs).drop i = xs ++ l.drop (i + xs.length) := by
  rw [splice, List.append_assoc, List.drop_append_of_le_length (by simp [h])]
  simp

/-- Splicing at the end is appending. -/
theorem splice_length (l xs : List α) : splice l l.length xs = l ++ xs := by
  simp [splice, List.drop_eq_nil_of_le]

/-- Two splices one after the other are one. -/
theorem splice_splice {l : List α} {i : Nat} (h : i ≤ l.length) (xs ys : List α) :
    splice (splice l i xs) (i + xs.length) ys = splice l i (xs ++ ys) := by
  have hfront : (l.take i ++ xs).length = i + xs.length := by
    rw [List.length_append, List.length_take]
    omega
  have hl : splice l i xs = (l.take i ++ xs) ++ l.drop (i + xs.length) := rfl
  rw [hl, splice, ← hfront, List.take_left, List.drop_length_add_append, List.drop_drop, hfront,
    splice, List.length_append, Nat.add_assoc, List.append_assoc, List.append_assoc,
    List.append_assoc, List.append_assoc]

theorem splice_append_left {a : List α} {i : Nat} {xs : List α} (h : i + xs.length ≤ a.length)
    (b : List α) : splice (a ++ b) i xs = splice a i xs ++ b := by
  simp only [splice, List.take_append_of_le_length (show i ≤ a.length by omega),
    List.drop_append_of_le_length h, List.append_assoc]

theorem splice_append_right {a : List α} {i : Nat} (h : a.length ≤ i) (b xs : List α) :
    splice (a ++ b) i xs = a ++ splice b (i - a.length) xs := by
  obtain ⟨j, rfl⟩ := Nat.exists_eq_add_of_le h
  simp only [splice, Nat.add_sub_cancel_left, List.take_length_add_append, Nat.add_assoc,
    List.drop_length_add_append, List.append_assoc]

/-- A splice over the border of two pieces writes the first part of `xs` to the
end of the first piece and the rest to the front of the second. -/
theorem splice_append_across {a : List α} {i : Nat} {xs : List α} (hi : i ≤ a.length)
    (h : a.length ≤ i + xs.length) (b : List α) :
    splice (a ++ b) i xs =
      splice a i (xs.take (a.length - i)) ++ splice b 0 (xs.drop (a.length - i)) := by
  have hlen : (xs.take (a.length - i)).length = a.length - i := by
    rw [List.length_take]
    omega
  have hrest : i + xs.length = a.length + (xs.drop (a.length - i)).length := by
    rw [List.length_drop]
    omega
  have hfirst : splice a i (xs.take (a.length - i)) = a.take i ++ xs.take (a.length - i) := by
    rw [splice, hlen, List.drop_eq_nil_of_le (by omega), List.append_nil]
  rw [hfirst, splice, hrest, List.drop_length_add_append, List.take_append_of_le_length hi, splice,
    List.take_zero, List.nil_append, Nat.zero_add, List.append_assoc, List.append_assoc]
  rw [← List.append_assoc (xs.take _), List.take_append_drop]

/-- The front of a list that holds a splice, cut anywhere after the splice. -/
theorem take_splice {l : List α} {i n : Nat} {xs : List α} (hi : i ≤ l.length)
    (hn : i + xs.length ≤ n) : (splice l i xs).take n = splice (l.take n) i xs := by
  have hmin : min i n = i := by omega
  have hfront : (l.take i ++ xs).length = i + xs.length := by
    rw [List.length_append, List.length_take]
    omega
  rw [splice, List.take_append, List.take_of_length_le (by omega), hfront, splice,
    List.take_take, hmin, List.drop_take]

/-- Cutting what a splice has covered anyway changes nothing. -/
theorem splice_take {l : List α} {i n : Nat} {xs : List α} (hi : i ≤ n)
    (hn : n ≤ i + xs.length) (hl : l.length ≤ i + xs.length) :
    splice (l.take n) i xs = splice l i xs := by
  have h1 : min i n = i := by omega
  simp only [splice, List.take_take, h1]
  rw [List.drop_eq_nil_of_le (by rw [List.length_take]; omega), List.drop_eq_nil_of_le hl]

end Xupeng
