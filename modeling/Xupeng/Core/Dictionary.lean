import Xupeng.Core.Ordered

/-!
# Dictionaries

The entries of a dictionary are in the order of their keys, and names with the same key are one
name for it. An entry that is there keeps its name when a value is assigned, and everything when
one is inserted.
-/

namespace Xupeng

/-- Entries in strict order of the keys of their names. -/
structure Dictionary {α β : Type*} [LinearOrder β] (key : α → β) (γ : Type*) where
  entries : List (α × γ)
  sorted : Increasing (fun e => key e.1) entries

namespace Dictionary

variable {α β γ : Type*} [LinearOrder β] {key : α → β}

/-- The dictionary without entries. -/
def empty : Dictionary key γ := ⟨[], List.Pairwise.nil⟩

/-- The first entry of a list under a name. -/
def first (key : α → β) (l : List (α × γ)) (k : α) : Option (α × γ) :=
  l.find? fun e => key e.1 = key k

/-- The entry under a name. -/
def find (m : Dictionary key γ) (k : α) : Option (α × γ) := first key m.entries k

/-- The value under a name. -/
def value (m : Dictionary key γ) (k : α) : Option γ := (m.find k).map Prod.snd

/-- The entry takes the place of the one with its key. -/
def put (m : Dictionary key γ) (e : α × γ) : Dictionary key γ where
  entries := m.entries.filter (fun d => key d.1 < key e.1) ++
    e :: m.entries.filter fun d => key e.1 < key d.1
  sorted := by
    refine List.pairwise_append.mpr ⟨m.sorted.filter _, List.pairwise_cons.mpr
      ⟨fun b hb => ?_, m.sorted.filter _⟩, fun a ha b hb => ?_⟩
    · simpa using (List.mem_filter.mp hb).2
    · have hlt : key a.1 < key e.1 := by simpa using (List.mem_filter.mp ha).2
      rcases List.mem_cons.mp hb with rfl | hb
      · exact hlt
      · exact lt_trans hlt (by simpa using (List.mem_filter.mp hb).2)

/-- A value is inserted unless there is one. -/
def insert (m : Dictionary key γ) (e : α × γ) : Dictionary key γ :=
  if (m.find e.1).isSome then m else m.put e

/-- A value is assigned. -/
def assign (m : Dictionary key γ) (k : α) (v : γ) : Dictionary key γ :=
  m.put (match m.find k with
    | some e => e.1
    | none => k, v)

/-- The entry under a name is removed. -/
def erase (m : Dictionary key γ) (k : α) : Dictionary key γ where
  entries := m.entries.filter fun e => key e.1 ≠ key k
  sorted := m.sorted.filter _

/-- Values are inserted one after another. -/
def insertAll (m : Dictionary key γ) (l : List (α × γ)) : Dictionary key γ := l.foldl insert m

variable {m : Dictionary key γ} {k k' : α} {e : α × γ} {v : γ}

/-- There is an entry as soon as some key is alike. -/
theorem first_isSome_iff {l : List (α × γ)} :
    (first key l k).isSome ↔ ∃ e ∈ l, key e.1 = key k := by
  simp only [first, List.find?_isSome, decide_eq_true_eq]

theorem find_empty : (empty : Dictionary key γ).find k = none := rfl

/-- An entry is found exactly by the keys that are like its own. -/
theorem find_eq_some_iff : m.find k = some e ↔ e ∈ m.entries ∧ key e.1 = key k := by
  constructor
  · intro h
    exact ⟨List.mem_of_find?_eq_some h, by simpa using List.find?_some h⟩
  · rintro ⟨hmem, hkey⟩
    have hsome : (m.find k).isSome := first_isSome_iff.mpr ⟨e, hmem, hkey⟩
    obtain ⟨d, hd⟩ := Option.isSome_iff_exists.mp hsome
    have hdkey : key d.1 = key k := by simpa using List.find?_some hd
    -- both stand at the position of their key
    have hd' := m.sorted.getElem?_position (List.mem_of_find?_eq_some hd)
    have he' := m.sorted.getElem?_position hmem
    rw [hkey, ← hdkey] at he'
    rw [hd, ← hd', ← he']

/-- Names with the same key are one name. -/
theorem find_congr (h : key k = key k') : m.find k = m.find k' := by
  simp only [find, first, h]

/-- An entry replaces the one with a like key, if there is one. -/
theorem mem_put {d : α × γ} : d ∈ (m.put e).entries ↔
    d = e ∨ d ∈ m.entries ∧ key d.1 ≠ key e.1 := by
  simp only [put, List.mem_append, List.mem_cons, List.mem_filter, decide_eq_true_eq,
    ne_iff_lt_or_gt]
  tauto

/-- Only the keys that are like the new one find another entry. -/
theorem find_put : (m.put e).find k = if key e.1 = key k then some e else m.find k := by
  ext d
  rw [find_eq_some_iff, mem_put]
  split
  · rename_i h
    rw [Option.some_inj, ← h]
    constructor
    · rintro ⟨rfl | ⟨-, hne⟩, hd⟩
      · rfl
      · exact absurd hd hne
    · rintro rfl
      exact ⟨.inl rfl, rfl⟩
  · rename_i h
    rw [find_eq_some_iff]
    constructor
    · rintro ⟨rfl | ⟨hd, -⟩, hk⟩
      · exact absurd hk h
      · exact ⟨hd, hk⟩
    · rintro ⟨hd, hk⟩
      exact ⟨.inr ⟨hd, fun he => h (he.symm.trans hk)⟩, hk⟩

/-- What is there is found first. -/
theorem find_insert :
    (m.insert e).find k = (m.find k).or (if key e.1 = key k then some e else none) := by
  rw [insert]
  split
  · rename_i hsome
    split
    · rename_i h
      rw [← find_congr h]
      obtain ⟨d, hd⟩ := Option.isSome_iff_exists.mp hsome
      rw [hd, Option.some_or]
    · rw [Option.or_none]
  · rename_i hnone
    rw [find_put]
    split
    · rename_i h
      rw [← find_congr h, Option.not_isSome_iff_eq_none.mp hnone, Option.none_or]
    · rw [Option.or_none]

/-- Of several entries under a name, what is there is found first and then the first inserted. -/
theorem find_insertAll (m : Dictionary key γ) (l : List (α × γ)) :
    (m.insertAll l).find k = (m.find k).or (first key l k) := by
  induction l generalizing m with
  | nil => exact Option.or_none.symm
  | cons e l ih =>
    have hrec := ih (m.insert e)
    rw [find_insert] at hrec
    rw [insertAll, List.foldl_cons, ← insertAll, hrec, Option.or_assoc, first, first,
      List.find?_cons]
    by_cases h : key e.1 = key k
    · simp [h]
    · simp [h]

theorem insertAll_append (m : Dictionary key γ) (l l' : List (α × γ)) :
    m.insertAll (l ++ l') = (m.insertAll l).insertAll l' :=
  List.foldl_append

/-- What is there already comes before what is inserted. -/
theorem value_insertAll (m : Dictionary key γ) (l : List (α × γ)) :
    (m.insertAll l).value k =
      (m.value k).or (((empty : Dictionary key γ).insertAll l).value k) := by
  rw [value, value, value, find_insertAll, find_insertAll, find_empty, Option.none_or]
  cases m.find k <;> rfl

/-- An assignment changes the value for like keys only. -/
theorem value_assign : (m.assign k v).value k' = if key k = key k' then some v else m.value k' := by
  have hname : key (match m.find k with
      | some e => e.1
      | none => k) = key k := by
    cases h : m.find k with
    | none => rfl
    | some e => exact (find_eq_some_iff.mp h).2
  rw [assign, value, find_put, hname]
  split <;> rfl

/-- What is erased is not found by any like key. -/
theorem value_erase : (m.erase k).value k' = if key k = key k' then none else m.value k' := by
  rw [value, value]
  have hfind : (m.erase k).find k' = if key k = key k' then none else m.find k' := by
    ext d
    rw [find_eq_some_iff, erase, List.mem_filter, decide_eq_true_iff]
    split
    · rename_i h
      rw [h]
      simp
    · rename_i h
      rw [find_eq_some_iff]
      constructor
      · rintro ⟨⟨hd, -⟩, hk⟩
        exact ⟨hd, hk⟩
      · rintro ⟨hd, hk⟩
        exact ⟨⟨hd, fun he => h (he.symm.trans hk)⟩, hk⟩
  rw [hfind]
  split <;> rfl

end Dictionary

end Xupeng
