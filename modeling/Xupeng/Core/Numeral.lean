import Mathlib.Data.List.Basic

/-!
# Numerals

`Nat.toDigits` writes a number in a base up to sixteen. `readNumeral` reads a non-empty sequence
of digits, in either case and with leading zeros.
-/

namespace Xupeng

/-- The value of a digit. A character that is none has the value 16. -/
def digitValue (c : Char) : Nat :=
  if '0' ≤ c ∧ c ≤ '9' then c.toNat - '0'.toNat
  else if 'a' ≤ c ∧ c ≤ 'f' then c.toNat - 'a'.toNat + 10
  else if 'A' ≤ c ∧ c ≤ 'F' then c.toNat - 'A'.toNat + 10
  else 16

/-- The number that digits stand for, behind a number that is already read. -/
def numeralFrom (b acc : Nat) (l : List Char) : Nat :=
  l.foldl (fun acc c => acc * b + digitValue c) acc

/-- A condition on the characters of a list is decided along the list. -/
local instance (priority := high) decidableForallMemChar {p : Char → Prop} [DecidablePred p]
    (l : List Char) : Decidable (∀ c ∈ l, p c) :=
  List.decidableBAll p l

/-- The number that a numeral in base `b` stands for. -/
def readNumeral (b : Nat) (l : List Char) : Option Nat :=
  if l ≠ [] ∧ ∀ c ∈ l, digitValue c < b then some (numeralFrom b 0 l) else none

/-- A digit has the value that it was written for. -/
theorem digitValue_digitChar {n : Nat} (h : n < 16) : digitValue n.digitChar = n := by
  have hall : (List.range 16).all fun n => digitValue n.digitChar = n := by decide
  simpa using List.all_eq_true.mp hall n (List.mem_range.mpr h)

/-- Every character that is written is a digit of the base. -/
theorem digitValue_lt_of_mem {b n : Nat} (hb : 1 < b) (hb' : b ≤ 16) {c : Char}
    (hc : c ∈ Nat.toDigits b n) : digitValue c < b := by
  induction n using Nat.strongRecOn with
  | ind n ih =>
    rw [Nat.toDigits_eq_if hb] at hc
    split at hc
    · rename_i hlt
      cases List.mem_singleton.mp hc
      rwa [digitValue_digitChar (by omega)]
    · rename_i hge
      rcases List.mem_append.mp hc with hmem | hmem
      · exact ih (n / b) (Nat.div_lt_self (by omega) hb) hmem
      · have hmod : n % b < b := Nat.mod_lt n (by omega)
        cases List.mem_singleton.mp hmem
        rwa [digitValue_digitChar (by omega)]

/-- The digits of a number are read back. -/
theorem numeralFrom_toDigits {b n : Nat} (hb : 1 < b) (hb' : b ≤ 16) :
    numeralFrom b 0 (Nat.toDigits b n) = n := by
  induction n using Nat.strongRecOn with
  | ind n ih =>
    rw [Nat.toDigits_eq_if hb]
    split
    · rename_i hlt
      simp [numeralFrom, digitValue_digitChar (show n < 16 by omega)]
    · have hmod : n % b < b := Nat.mod_lt n (by omega)
      have hrec := ih (n / b) (Nat.div_lt_self (by omega) hb)
      unfold numeralFrom at hrec ⊢
      rw [List.foldl_append, hrec, List.foldl_cons, List.foldl_nil,
        digitValue_digitChar (by omega), Nat.div_add_mod']

/-- A number is read back. -/
theorem readNumeral_toDigits {b : Nat} (hb : 1 < b) (hb' : b ≤ 16) (n : Nat) :
    readNumeral b (Nat.toDigits b n) = some n := by
  have hdigits : Nat.toDigits b n ≠ [] ∧ ∀ c ∈ Nat.toDigits b n, digitValue c < b :=
    ⟨Nat.toDigits_ne_nil, fun c hc => digitValue_lt_of_mem hb hb' hc⟩
  rw [readNumeral, if_pos hdigits, numeralFrom_toDigits hb hb']

/-- A character that is no digit does not occur in a number. -/
theorem notMem_toDigits {b n : Nat} (hb : 1 < b) (hb' : b ≤ 16) {c : Char}
    (hc : b ≤ digitValue c) : c ∉ Nat.toDigits b n :=
  fun hmem => Nat.not_lt.mpr hc (digitValue_lt_of_mem hb hb' hmem)

/-! ## Decimal numbers -/

/-- `os << n` for an unsigned number -/
def decimal (n : Nat) : List Char := Nat.toDigits 10 n

/-- A number in decimals is read back. -/
theorem readNumeral_decimal (n : Nat) : readNumeral 10 (decimal n) = some n :=
  readNumeral_toDigits (by decide) (by decide) n

/-- A number is written with digits only. -/
theorem notMem_decimal {c : Char} (h : 10 ≤ digitValue c) (n : Nat) : c ∉ decimal n :=
  notMem_toDigits (by decide) (by decide) h

theorem decimal_inj {m n : Nat} (h : decimal m = decimal n) : m = n := by
  have hread := congrArg (readNumeral 10) h
  rw [readNumeral_decimal, readNumeral_decimal] at hread
  exact Option.some.inj hread

end Xupeng
