import Mathlib.Data.List.TakeWhile

/-!
# C strings

A text is a list of characters, one for each byte. A function that takes a C string sees the
text up to its first NUL, and `strcasecmp` compares in lower case.
-/

namespace Xupeng

/-- A literal is made of its characters, which saves decoding it. -/
theorem notMem_toList_ofList {c : Char} {l : List Char} (h : c ∉ l) :
    c ∉ (String.ofList l).toList := by
  rwa [String.toList_ofList]

/-- `memchr` -/
def memchr (c : Char) (str : List Char) : Option Nat := str.findIdx? (· == c)

/-- A character that is not there is not found. -/
theorem memchr_eq_none_iff {c : Char} {l : List Char} : memchr c l = none ↔ c ∉ l := by
  rw [memchr, List.findIdx?_eq_none_iff]
  constructor
  · intro h hmem
    exact absurd (h c hmem) (by simp)
  · intro h d hd
    exact beq_eq_false_iff_ne.mpr fun heq => h (heq ▸ hd)

theorem memchr_append {c : Char} {l : List Char} (h : c ∉ l) (rest : List Char) :
    memchr c (l ++ c :: rest) = some l.length := by
  have hnone : l.findIdx? (· == c) = none := memchr_eq_none_iff.mpr h
  simp [memchr, List.findIdx?_append, hnone, List.findIdx?_cons]

/-- What is found is the length of the text in front of the first one. -/
theorem memchr_eq_some_iff {c : Char} {l : List Char} {i : Nat} :
    memchr c l = some i ↔ ∃ t r, l = t ++ c :: r ∧ c ∉ t ∧ i = t.length := by
  constructor
  · intro h
    have hmem : c ∈ l := by
      by_contra hnot
      rw [memchr_eq_none_iff.mpr hnot] at h
      cases h
    obtain ⟨t, r, rfl, ht⟩ := List.eq_append_cons_of_mem hmem
    rw [memchr_append ht] at h
    exact ⟨t, r, rfl, ht, (Option.some.inj h).symm⟩
  · rintro ⟨t, r, rfl, ht, rfl⟩
    exact memchr_append ht r

theorem forall_ne_of_notMem {c : Char} {t : List Char} (ht : c ∉ t) :
    ∀ d ∈ t, (d ≠ c : Bool) := by
  intro d hd
  rw [decide_eq_true_iff]
  rintro rfl
  exact ht hd

/-- The text in front of the first `c` and the text behind it. -/
def cutAt (c : Char) (str : List Char) : List Char × List Char :=
  (str.takeWhile (· ≠ c), (str.dropWhile (· ≠ c)).tail)

theorem cutAt_append {c : Char} {t : List Char} (ht : c ∉ t) (v : List Char) :
    cutAt c (t ++ c :: v) = (t, v) := by
  have hall := forall_ne_of_notMem ht
  rw [cutAt, List.takeWhile_append_of_pos hall, List.dropWhile_append_of_pos hall]
  simp

theorem cutAt_of_notMem {c : Char} {t : List Char} (ht : c ∉ t) : cutAt c t = (t, []) := by
  have hall := forall_ne_of_notMem ht
  rw [cutAt, List.takeWhile_eq_self_iff.mpr hall, List.dropWhile_eq_nil_iff.mpr hall,
    List.tail_nil]

/-- What a function that takes a C string sees. -/
def cString (str : List Char) : List Char := str.takeWhile (· ≠ '\x00')

/-- The characters of the list are tried, not all characters. -/
instance decidableAvoids (chars str : List Char) : Decidable (∀ c ∈ chars, c ∉ str) :=
  List.decidableBAll (fun c => c ∉ str) chars

theorem cString_of_notMem {l : List Char} (h : '\x00' ∉ l) : cString l = l := by
  rw [cString, List.takeWhile_eq_self_iff]
  exact forall_ne_of_notMem h

/-! ## Letters in either case -/

/-- The text in lower case. -/
def foldCase (str : List Char) : List Char := str.map Char.toLower

/-- Capital letters are 32 in front of the small ones. -/
theorem toNat_toLower (c : Char) :
    c.toLower.toNat = if 65 ≤ c.toNat ∧ c.toNat ≤ 90 then c.toNat + 32 else c.toNat := by
  have hrange : (c.val ≥ 'A'.val ∧ c.val ≤ 'Z'.val) = (65 ≤ c.toNat ∧ c.toNat ≤ 90) := rfl
  unfold Char.toLower
  split
  · rename_i h
    rw [hrange] at h
    rw [if_pos h]
    refine (UInt32.toNat_add _ _).trans (Nat.mod_eq_of_lt ?_)
    exact (by omega : c.toNat + 32 < 4294967296)
  · rename_i h
    rw [hrange] at h
    rw [if_neg h]

/-- A character in front of the letters is no letter in lower case. -/
theorem toLower_of_lt {c : Char} (hc : c.toNat < 65) : c.toLower = c := by
  apply Char.toNat_inj.mp
  rw [toNat_toLower, if_neg (by omega)]

theorem eq_of_toLower_eq_of_lt {c d : Char} (hc : c.toNat < 65) (h : d.toLower = c) : d = c := by
  apply Char.toNat_inj.mp
  have hlower := toNat_toLower d
  rw [h] at hlower
  split at hlower <;> omega

/-- Such characters are kept in lower case. -/
theorem mem_foldCase_iff {c : Char} (hc : c.toNat < 65) {str : List Char} :
    c ∈ foldCase str ↔ c ∈ str := by
  rw [foldCase, List.mem_map]
  constructor
  · rintro ⟨d, hd, hdc⟩
    rwa [← eq_of_toLower_eq_of_lt hc hdc]
  · exact fun h => ⟨c, h, toLower_of_lt hc⟩

/-- Two texts are alike for `strcasecmp` if they have this in common, and it compares them by it. -/
def caseKey (str : List Char) : List Char := foldCase (cString str)

theorem caseKey_of_notMem {str : List Char} (h : '\x00' ∉ str) : caseKey str = foldCase str := by
  rw [caseKey, cString_of_notMem h]

end Xupeng
