import Mathlib.Data.List.Basic

/-!
# Lines

A line ends with CR and LF. A block of lines ends with an empty line, and what follows it is not
read. A text that is written as one line can have several in it.
-/

namespace Xupeng

/-- The end of a line. -/
def crlf : List Char := ['\r', '\n']

/-- The lines of a block and the text behind it, where `line` is what is read of a line. -/
def readLines (line : List Char) : List Char → Option (List (List Char) × List Char)
  | [] => none
  | '\r' :: '\n' :: rest =>
    if line = [] then some ([], rest)
    else (readLines [] rest).map fun x => (line :: x.1, x.2)
  | c :: rest => readLines (line ++ [c]) rest

/-- The lines of a text, where `line` is what is read of the first. -/
def cutLines (line : List Char) : List Char → List (List Char)
  | [] => [line]
  | '\r' :: '\n' :: rest => line :: cutLines [] rest
  | c :: rest => cutLines (line ++ [c]) rest

/-- The text has no end of a line in it. -/
def OneLine (l : List Char) : Prop := cutLines [] l = [l]

instance (l : List Char) : Decidable (OneLine l) := inferInstanceAs (Decidable (_ = _))

/-- Lines, an empty line and a text. -/
def block (lines : List (List Char)) (rest : List Char) : List Char :=
  lines.flatMap (· ++ crlf) ++ crlf ++ rest

variable {line l rest : List Char} {c : Char}

/-! ## Cutting -/

theorem cutLines_cons (h : ∀ r, c = '\r' → rest ≠ '\n' :: r) :
    cutLines line (c :: rest) = cutLines (line ++ [c]) rest := by
  rw [cutLines]
  exact h

theorem readLines_cons (h : ∀ r, c = '\r' → rest ≠ '\n' :: r) :
    readLines line (c :: rest) = readLines (line ++ [c]) rest := by
  rw [readLines]
  exact h

/-- A CR in front of the end of a line does not end it. -/
theorem no_crlf_append (h : ∀ r, c = '\r' → l ≠ '\n' :: r) (rest : List Char) :
    ∀ r, c = '\r' → l ++ (crlf ++ rest) ≠ '\n' :: r := by
  intro r hc heq
  cases l with
  | nil => cases heq
  | cons d l =>
    cases heq
    exact h l hc rfl

/-- Up to a CR everything belongs to the line. -/
theorem cutLines_append (hl : '\r' ∉ l) (line text : List Char) :
    cutLines line (l ++ text) = cutLines (line ++ l) text := by
  induction l generalizing line with
  | nil => rw [List.nil_append, List.append_nil]
  | cons c l ih =>
    obtain ⟨hc, hl⟩ := List.ne_and_not_mem_of_not_mem_cons hl
    rw [List.cons_append, cutLines_cons fun _ heq => absurd heq.symm hc, ih hl, List.append_assoc,
      List.singleton_append]

/-- What is read of the first line stands in front of it. -/
theorem exists_cutLines (l : List Char) :
    ∃ first lines, ∀ line, cutLines line l = (line ++ first) :: lines := by
  induction l with
  | nil => exact ⟨[], [], fun line => by rw [cutLines, List.append_nil]⟩
  | cons c rest ih =>
    by_cases hc : ∃ r, c = '\r' ∧ rest = '\n' :: r
    · obtain ⟨r, rfl, rfl⟩ := hc
      exact ⟨[], cutLines [] r, fun line => by rw [cutLines, List.append_nil]⟩
    · obtain ⟨first, lines, hlines⟩ := ih
      refine ⟨c :: first, lines, fun line => ?_⟩
      rw [cutLines_cons fun r hr heq => hc ⟨r, hr, heq⟩, hlines, List.append_assoc,
        List.singleton_append]

/-- Behind the end of a line the next one begins. -/
theorem cutLines_crlf (line l rest : List Char) :
    cutLines line (l ++ (crlf ++ rest)) = cutLines line l ++ cutLines [] rest := by
  fun_induction cutLines line l with
  | case1 line => rfl
  | case2 line r ih =>
    rw [List.cons_append, List.cons_append, cutLines, ih, List.cons_append]
  | case3 line c r hc ih => rw [List.cons_append, cutLines_cons (no_crlf_append hc rest), ih]

/-- Without CR there is no end of a line. -/
theorem OneLine.of_notMem (hl : '\r' ∉ l) : OneLine l := by
  have hcut := cutLines_append hl [] []
  rwa [List.append_nil, List.nil_append, cutLines] at hcut

/-- A text in front of the first end of a line belongs to the first line. -/
theorem OneLine.append (hl : '\r' ∉ l) (hrest : OneLine rest) : OneLine (l ++ rest) := by
  obtain ⟨first, lines, hlines⟩ := exists_cutLines rest
  rw [OneLine, hlines, List.nil_append, List.cons.injEq] at hrest
  rw [OneLine, cutLines_append hl, hlines, List.nil_append, hrest.1, hrest.2]

/-! ## Reading -/

/-- The lines of a text without an empty one are read. -/
theorem readLines_crlf (h : [] ∉ cutLines line l) (rest : List Char) :
    readLines line (l ++ (crlf ++ rest)) =
      (readLines [] rest).map fun x => (cutLines line l ++ x.1, x.2) := by
  fun_induction cutLines line l with
  | case1 line =>
    rw [List.nil_append, crlf, List.cons_append, List.cons_append, List.nil_append, readLines,
      if_neg fun hnil => h (by rw [hnil]; exact List.mem_cons_self)]
    rfl
  | case2 line r ih =>
    obtain ⟨hline, hr⟩ := List.ne_and_not_mem_of_not_mem_cons h
    rw [List.cons_append, List.cons_append, readLines, if_neg hline.symm, ih hr, Option.map_map]
    rfl
  | case3 line c r hc ih => rw [List.cons_append, readLines_cons (no_crlf_append hc rest), ih h]

/-- The lines that are read are those in front of the first empty one. -/
theorem cutLines_of_readLines {lines : List (List Char)} {text : List Char}
    (h : readLines line text = some (lines, rest)) :
    cutLines line text = lines ++ [] :: cutLines [] rest ∧ [] ∉ lines := by
  fun_induction readLines line text generalizing lines with
  | case1 => cases h
  | case2 r =>
    cases h
    exact ⟨by rw [cutLines, List.nil_append], List.not_mem_nil⟩
  | case3 line r hline ih =>
    obtain ⟨⟨lines, rest⟩, hread, heq⟩ := Option.map_eq_some_iff.mp h
    cases heq
    obtain ⟨hcut, hlines⟩ := ih hread
    rw [cutLines, hcut, List.cons_append]
    exact ⟨rfl, List.not_mem_cons_of_ne_of_not_mem (Ne.symm hline) hlines⟩
  | case4 line c r hc ih =>
    rw [cutLines_cons hc]
    exact ih h

/-- The lines of a block are read back. -/
theorem readLines_block {lines : List (List Char)} (h : ∀ l ∈ lines, [] ∉ cutLines [] l)
    (rest : List Char) :
    readLines [] (block lines rest) = some (lines.flatMap (cutLines []), rest) := by
  induction lines with
  | nil => rfl
  | cons l lines ih =>
    obtain ⟨hl, hlines⟩ := List.forall_mem_cons.mp h
    have hblock : block (l :: lines) rest = l ++ (crlf ++ block lines rest) := by
      simp [block]
    rw [hblock, readLines_crlf hl, ih hlines]
    rfl

/-- A block is read line by line if each text is one. -/
theorem readLines_block_of_oneLine {lines : List (List Char)}
    (h : ∀ l ∈ lines, l ≠ [] ∧ OneLine l) (rest : List Char) :
    readLines [] (block lines rest) = some (lines, rest) := by
  have hcut : ∀ l ∈ lines, cutLines [] l = [l] := fun l hl => (h l hl).2
  rw [readLines_block fun l hl => ?_, List.flatMap_congr hcut, List.flatMap_singleton']
  rw [hcut l hl, List.mem_singleton]
  exact (h l hl).1.symm

end Xupeng
