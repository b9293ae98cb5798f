import Mathlib.Algebra.BigOperators.Group.List.Basic
import Xupeng.Core.Entries

/-!
# Totals over a list whose entries change one at a time

`total f l` adds up a measure over the entries of a list, in any commutative
monoid. Replacing one entry changes the total by the difference of the two
entries, which is how a counter or a ledger is kept in step with a table.
-/

namespace Xupeng

variable {α M : Type*} [AddCommMonoid M]

/-- The sum of a measure over the entries. -/
def total (f : α → M) (l : List α) : M := (l.map f).sum

@[simp] theorem total_nil (f : α → M) : total f [] = 0 := rfl

@[simp] theorem total_cons (f : α → M) (a : α) (l : List α) :
    total f (a :: l) = f a + total f l := by
  simp [total]

@[simp] theorem total_append (f : α → M) (l₁ l₂ : List α) :
    total f (l₁ ++ l₂) = total f l₁ + total f l₂ := by
  simp [total]

/-- The items can be counted before they are mapped. -/
theorem total_map {β : Type*} (f : β → M) (g : α → β) (l : List α) :
    total f (l.map g) = total (fun a => f (g a)) l := by
  simp [total, Function.comp_def]

/-- Replacing an entry moves the total from the old measure to the new one. -/
theorem total_set {f : α → M} {l : List α} {i : Nat} {a : α} (h : l[i]? = some a) (b : α) :
    total f (l.set i b) + f a = total f l + f b := by
  induction l generalizing i with
  | nil => cases h
  | cons c l ih =>
    cases i with
    | zero =>
      obtain rfl : c = a := by simpa using h
      rw [List.set_cons_zero, total_cons, total_cons]
      ac_rfl
    | succ i =>
      have hi : l[i]? = some a := by simpa using h
      rw [List.set_cons_succ, total_cons, total_cons, add_assoc, ih hi, add_assoc]

/-- Counting is a total. -/
theorem total_toNat (p : α → Bool) (l : List α) :
    total (fun a => (p a).toNat) l = l.countP p := by
  induction l with
  | nil => rfl
  | cons a l ih =>
    rw [total_cons, ih, List.countP_cons, Nat.add_comm]
    cases p a <;> rfl

/-- Entries of measure zero do not count. -/
theorem total_eq_zero {f : α → M} {l : List α} (h : ∀ a ∈ l, f a = 0) : total f l = 0 := by
  induction l with
  | nil => rfl
  | cons a l ih =>
    rw [total_cons, h a List.mem_cons_self, zero_add]
    exact ih fun b hb => h b (List.mem_cons_of_mem a hb)

/-- A total of measures that are not positive is not positive. -/
theorem total_nonpos {f : α → Int} {l : List α} (h : ∀ a ∈ l, f a ≤ 0) : total f l ≤ 0 := by
  induction l with
  | nil => exact Int.le_refl 0
  | cons a l ih =>
    have ha := h a List.mem_cons_self
    have hl := ih fun b hb => h b (List.mem_cons_of_mem a hb)
    rw [total_cons]
    omega

end Xupeng
