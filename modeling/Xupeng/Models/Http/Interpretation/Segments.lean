import Xupeng.Models.Http.Native.Params

/-!
# Segments of a parameter text

Split at the separator, every segment with an `=` stands for a pair. The scanner takes the same
values, but a segment without `=` is carried over, with its separator, into the next key.
-/

namespace Xupeng.Http

/-- The pairs of the segments that have one. -/
def segmentPairs (flag : Char) (str : List Char) : List (List Char × List Char) :=
  (str.splitOn flag).filterMap fun s => if '=' ∈ s then some (cutAt '=' s) else none

/-- The pairs of the segments, where the segments without `=` stay in front of the next key. -/
def carriedPairs (flag : Char) : List Char → List (List Char) → List (List Char × List Char)
  | _, [] => []
  | carried, s :: ss =>
    if '=' ∈ s then (carried ++ (cutAt '=' s).1, (cutAt '=' s).2) :: carriedPairs flag [] ss
    else carriedPairs flag (carried ++ s ++ [flag]) ss

/-- The pairs that `PARSE_PARAM` takes. -/
def scannedPairs (flag : Char) (str : List Char) : List (List Char × List Char) :=
  carriedPairs flag [] (str.splitOn flag)

/-- No segment without `=` stands in front of one with `=`. -/
def PairsFirst (flag : Char) (str : List Char) : Prop :=
  (str.splitOn flag).Pairwise fun s t => '=' ∈ t → '=' ∈ s

instance (flag : Char) (str : List Char) : Decidable (PairsFirst flag str) :=
  inferInstanceAs (Decidable (List.Pairwise _ _))

variable {flag : Char} {carried str s t v : List Char}

/-- A segment has no separator, and all its characters are from the text. -/
theorem of_mem_splitOn {c : Char} {l : List Char} (hs : s ∈ l.splitOn c) : c ∉ s ∧ s ⊆ l := by
  induction l generalizing s with
  | nil =>
    rw [List.splitOn_nil] at hs
    cases List.mem_singleton.mp hs
    exact ⟨List.not_mem_nil, List.nil_subset _⟩
  | cons d l ih =>
    obtain ⟨first, rest, hsplit⟩ := List.exists_cons_of_ne_nil (List.splitOn_ne_nil c l)
    rw [List.splitOn_cons_eq_if_modifyHead] at hs
    split at hs
    · rcases List.mem_cons.mp hs with rfl | hmem
      · exact ⟨List.not_mem_nil, List.nil_subset _⟩
      · exact ⟨(ih hmem).1, List.subset_cons_of_subset d (ih hmem).2⟩
    · rename_i hd
      rw [hsplit, List.modifyHead_cons] at hs
      rw [hsplit] at ih
      rcases List.mem_cons.mp hs with rfl | hmem
      · have hne : c ≠ d := fun heq => hd (heq ▸ beq_self_eq_true d)
        obtain ⟨hc, hsub⟩ := ih List.mem_cons_self
        exact ⟨List.not_mem_cons_of_ne_of_not_mem hne hc, List.cons_subset_cons d hsub⟩
      · obtain ⟨hc, hsub⟩ := ih (List.mem_cons_of_mem first hmem)
        exact ⟨hc, List.subset_cons_of_subset d hsub⟩

/-! ## What the scanner takes -/

/-- Up to the next `=` every character belongs to the key, also a separator. -/
theorem carriedPairs_cons {c : Char} (hc : c ≠ '=') (carried l : List Char) :
    carriedPairs flag carried ((c :: l).splitOn flag) =
      carriedPairs flag (carried ++ [c]) (l.splitOn flag) := by
  rw [List.splitOn_cons_eq_if_modifyHead]
  split
  · rename_i hflag
    rw [carriedPairs, if_neg List.not_mem_nil, List.append_nil, eq_of_beq hflag]
  · obtain ⟨s, ss, hsplit⟩ := List.exists_cons_of_ne_nil (List.splitOn_ne_nil flag l)
    have hmem : '=' ∈ c :: s ↔ '=' ∈ s := by simp [hc.symm]
    have hcut : cutAt '=' (c :: s) = (c :: (cutAt '=' s).1, (cutAt '=' s).2) := by simp [cutAt, hc]
    rw [hsplit, List.modifyHead_cons, carriedPairs, carriedPairs, hcut]
    simp only [hmem, List.append_assoc, List.cons_append, List.nil_append]

theorem carriedPairs_append (ht : '=' ∉ t) (flag : Char) (carried l : List Char) :
    carriedPairs flag carried ((t ++ l).splitOn flag) =
      carriedPairs flag (carried ++ t) (l.splitOn flag) := by
  induction t generalizing carried with
  | nil => rw [List.nil_append, List.append_nil]
  | cons c t ih =>
    obtain ⟨hc, ht⟩ := List.ne_and_not_mem_of_not_mem_cons ht
    rw [List.cons_append, carriedPairs_cons (Ne.symm hc), ih ht, List.append_assoc,
      List.singleton_append]

theorem scannedPairs_of_notMem (h : '=' ∉ str) : scannedPairs flag str = [] := by
  have hscan := carriedPairs_append h flag [] []
  rw [List.append_nil, List.splitOn_nil] at hscan
  rw [scannedPairs, hscan, carriedPairs, if_neg List.not_mem_nil, carriedPairs]

/-- A key with the last value. -/
theorem scannedPairs_last (hflag : flag ≠ '=') (ht : '=' ∉ t) (hv : flag ∉ v) :
    scannedPairs flag (t ++ '=' :: v) = [(t, v)] := by
  have hsplit : ('=' :: v).splitOn flag = ['=' :: v] := by
    rw [List.splitOn_eq_singleton]
    exact List.not_mem_cons_of_ne_of_not_mem hflag hv
  have hcut : cutAt '=' ('=' :: v) = ([], v) := cutAt_append List.not_mem_nil v
  rw [scannedPairs, carriedPairs_append ht, hsplit, carriedPairs, if_pos List.mem_cons_self, hcut,
    List.append_nil, carriedPairs, List.nil_append]

/-- A key with its value, and what follows. -/
theorem scannedPairs_more (hflag : flag ≠ '=') (ht : '=' ∉ t) (hv : flag ∉ v) (str : List Char) :
    scannedPairs flag (t ++ '=' :: (v ++ flag :: str)) = (t, v) :: scannedPairs flag str := by
  have hmem : flag ∉ '=' :: v := List.not_mem_cons_of_ne_of_not_mem hflag hv
  have hsplit := List.splitOn_append_cons_self_of_not_mem hmem str
  have hcut : cutAt '=' ('=' :: v) = ([], v) := cutAt_append List.not_mem_nil v
  rw [List.cons_append] at hsplit
  rw [scannedPairs, carriedPairs_append ht, hsplit, carriedPairs, if_pos List.mem_cons_self, hcut,
    List.append_nil, List.nil_append, scannedPairs]

/-- The text in front of the place where a character is found, and the text behind it. -/
theorem find_eq_some {c : Char} {pos i : Nat} (h : find str c pos = some i) :
    ∃ t r, str.drop pos = t ++ c :: r ∧ c ∉ t ∧ i = pos + t.length ∧ str.drop i = c :: r ∧
      str.drop (i + 1) = r := by
  obtain ⟨j, hj, rfl⟩ := Option.map_eq_some_iff.mp h
  obtain ⟨t, r, hdrop, ht, rfl⟩ := memchr_eq_some_iff.mp hj
  have hat : str.drop (pos + t.length) = c :: r := by
    rw [← List.drop_drop, hdrop, List.drop_left]
  refine ⟨t, r, hdrop, ht, rfl, hat, ?_⟩
  rw [← List.drop_drop, hat, List.drop_one, List.tail_cons]

/-- A piece of the text that begins at a position. -/
theorem substr_of_drop_eq {pos n : Nat} {r : List Char} (h : str.drop pos = t ++ r)
    (hn : n = t.length) : substr str pos n = t := by
  rw [substr, h, hn, List.take_left]

/-- The parser inserts what the scanner takes. -/
theorem parseParam_eq (u : StringUtil) (hflag : flag ≠ '=') (trim : List Char → List Char)
    (str : List Char) (pos : Nat) (m : MapType) :
    parseParam u flag trim str pos m = m.insertAll
      ((scannedPairs flag (str.drop pos)).map fun p => (trim p.1, u.urlDecode p.2)) := by
  fun_induction parseParam u flag trim str pos m with
  | case1 pos m hkey =>
    rw [find, Option.map_eq_none_iff, memchr_eq_none_iff] at hkey
    rw [scannedPairs_of_notMem hkey]
    rfl
  | case2 pos m key hkey hpos =>
    obtain ⟨t, v, hdrop, ht, rfl, hat, hval⟩ := find_eq_some hkey
    rw [find, Option.map_eq_none_iff, memchr_eq_none_iff, hat] at hpos
    have hv : flag ∉ v := fun hmem => hpos (List.mem_cons_of_mem _ hmem)
    rw [substr_of_drop_eq hdrop (Nat.add_sub_cancel_left pos _), hval, hdrop,
      scannedPairs_last hflag ht hv]
    rfl
  | case3 pos m key hkey next hpos ih =>
    obtain ⟨t, r, hdrop, ht, rfl, hat, hval⟩ := find_eq_some hkey
    obtain ⟨w, str', hat', hw, rfl, -, hnext⟩ := find_eq_some hpos
    -- the separator is searched from the `=` on
    obtain ⟨v, rfl, hr⟩ : ∃ v, w = '=' :: v ∧ r = v ++ flag :: str' := by
      rw [hat] at hat'
      cases w with
      | nil => exact absurd (List.cons.inj hat').1.symm hflag
      | cons c v => exact ⟨v, by rw [(List.cons.inj hat').1], (List.cons.inj hat').2⟩
    have hv : flag ∉ v := fun hmem => hw (List.mem_cons_of_mem _ hmem)
    have hlength : pos + t.length + ('=' :: v).length - (pos + t.length) - 1 = v.length := by
      rw [Nat.add_sub_cancel_left, List.length_cons, Nat.add_sub_cancel]
    rw [ih, hnext, substr_of_drop_eq hdrop (Nat.add_sub_cancel_left pos _),
      substr_of_drop_eq (hval.trans hr) hlength, hdrop, hr, scannedPairs_more hflag ht hv]
    rfl

/-! ## Where the scanner agrees with the segments -/

theorem carriedPairs_eq_nil {ss : List (List Char)} (h : ∀ t ∈ ss, '=' ∉ t) (flag : Char)
    (carried : List Char) : carriedPairs flag carried ss = [] := by
  induction ss generalizing carried with
  | nil => rw [carriedPairs]
  | cons s ss ih =>
    obtain ⟨hs, hss⟩ := List.forall_mem_cons.mp h
    rw [carriedPairs, if_neg hs, ih hss]

/-- Nothing is carried when the pairs come first. -/
theorem scannedPairs_of_pairsFirst (h : PairsFirst flag str) :
    scannedPairs flag str = segmentPairs flag str := by
  unfold PairsFirst at h
  unfold scannedPairs segmentPairs
  generalize str.splitOn flag = segments at h ⊢
  induction segments with
  | nil => rw [carriedPairs, List.filterMap_nil]
  | cons s ss ih =>
    obtain ⟨hs, hss⟩ := List.pairwise_cons.mp h
    by_cases heq : '=' ∈ s
    · rw [carriedPairs, if_pos heq, List.nil_append, ih hss, List.filterMap_cons, if_pos heq]
    · have hnone : ∀ t ∈ s :: ss, '=' ∉ t :=
        List.forall_mem_cons.mpr ⟨heq, fun t ht hmem => heq (hs t ht hmem)⟩
      rw [carriedPairs_eq_nil hnone, eq_comm, List.filterMap_eq_nil_iff]
      exact fun t ht => if_neg (hnone t ht)

/-- What is carried stays in the next key. -/
theorem exists_carried {ss : List (List Char)} (hc : flag ∈ carried) (h : ∃ t ∈ ss, '=' ∈ t) :
    ∃ p ∈ carriedPairs flag carried ss, flag ∈ p.1 := by
  induction ss generalizing carried with
  | nil => obtain ⟨t, ht, -⟩ := h; cases ht
  | cons s ss ih =>
    by_cases heq : '=' ∈ s
    · rw [carriedPairs, if_pos heq]
      exact ⟨_, List.mem_cons_self, List.mem_append_left _ hc⟩
    · rw [carriedPairs, if_neg heq]
      obtain ⟨t, ht, htm⟩ := h
      rcases List.mem_cons.mp ht with rfl | hmem
      · exact absurd htm heq
      · exact ih (by simp [hc]) ⟨t, hmem, htm⟩

/-- A segment without `=` in front of one with `=` gets into a key. -/
theorem exists_scanned_of_not_pairsFirst (h : ¬ PairsFirst flag str) :
    ∃ p ∈ scannedPairs flag str, flag ∈ p.1 := by
  unfold PairsFirst at h
  unfold scannedPairs
  generalize str.splitOn flag = segments at h ⊢
  induction segments with
  | nil => exact absurd List.Pairwise.nil h
  | cons s ss ih =>
    by_cases heq : '=' ∈ s
    · have hss : ¬ ss.Pairwise fun s t => '=' ∈ t → '=' ∈ s := fun hss =>
        h (List.pairwise_cons.mpr ⟨fun _ _ _ => heq, hss⟩)
      obtain ⟨p, hp, hmem⟩ := ih hss
      rw [carriedPairs, if_pos heq]
      exact ⟨p, List.mem_cons_of_mem _ hp, hmem⟩
    · have hpair : ∃ t ∈ ss, '=' ∈ t := by
        by_contra hnone
        refine h (List.pairwise_cons.mpr ⟨fun t ht hmem => absurd ⟨t, ht, hmem⟩ hnone, ?_⟩)
        exact List.pairwise_of_forall_mem_list fun s _ t ht hmem => absurd ⟨t, ht, hmem⟩ hnone
      rw [carriedPairs, if_neg heq]
      exact exists_carried (by simp) hpair

/-! ## The characters of keys -/

/-- A key that is meant has no separator in it. -/
theorem of_mem_segmentPairs {p : List Char × List Char} (hp : p ∈ segmentPairs flag str) :
    flag ∉ p.1 ∧ p.1 ⊆ str := by
  obtain ⟨s, hs, hcut⟩ := List.mem_filterMap.mp hp
  split at hcut
  · cases hcut
    obtain ⟨hflag, hsub⟩ := of_mem_splitOn hs
    have hkey : (cutAt '=' s).1 ⊆ s := List.takeWhile_subset _
    exact ⟨fun hmem => hflag (hkey hmem), fun c hc => hsub (hkey hc)⟩
  · cases hcut

/-- A key has only characters of the text. -/
theorem notMem_of_mem_carriedPairs {c : Char} (hc : c ≠ flag) {ss : List (List Char)}
    (hss : ∀ s ∈ ss, c ∉ s) {carried : List Char} (hcarried : c ∉ carried)
    {p : List Char × List Char} (hp : p ∈ carriedPairs flag carried ss) : c ∉ p.1 := by
  induction ss generalizing carried with
  | nil => rw [carriedPairs] at hp; cases hp
  | cons s ss ih =>
    obtain ⟨hs, hss⟩ := List.forall_mem_cons.mp hss
    rw [carriedPairs] at hp
    split at hp
    · rcases List.mem_cons.mp hp with rfl | hmem
      · have hkey : c ∉ (cutAt '=' s).1 := fun hmem => hs (List.takeWhile_subset _ hmem)
        exact fun hmem => (List.mem_append.mp hmem).elim hcarried hkey
      · exact ih hss List.not_mem_nil hmem
    · exact ih hss (by simp [hcarried, hs, hc]) hp

/-- The same for a whole scan. -/
theorem notMem_of_mem_scannedPairs {c : Char} (hc : c ≠ flag) (h : c ∉ str)
    {p : List Char × List Char} (hp : p ∈ scannedPairs flag str) : c ∉ p.1 :=
  notMem_of_mem_carriedPairs hc (fun _ hs hmem => h ((of_mem_splitOn hs).2 hmem))
    List.not_mem_nil hp

end Xupeng.Http
