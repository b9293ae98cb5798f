import Mathlib.Algebra.GroupWithZero.Nat
import Xupeng.Models.Log.Correctness.Grammar

/-!
# Escaping `%`

A `%` in a text is meant to be written as two. The loop of `init` takes the first as text and
does not skip the second, which then starts a directive. So a pattern with an escaped `%`
is in error or has too many of them: each `%` of the pattern is one of a text or begins a
directive.
-/

namespace Xupeng.Log

/-- A text, or a known directive whose body can be put in braces. -/
def Token.Writable (t : Token) : Prop :=
  match t with
  | text _ => True
  | directive _ format => t.known ∧ '}' ∉ format.toList

/-- A text with every `%` doubled, or a directive with its body. -/
def Token.encode : Token → List Char
  | text str => str.toList.flatMap fun c => if c = '%' then ['%', '%'] else [c]
  | directive str format => '%' :: (str.toList ++ '{' :: (format.toList ++ ['}']))

/-- The pattern for tokens. -/
def encode (ts : List Token) : String := String.ofList (ts.flatMap Token.encode)

/-- How many `%` an element takes. -/
def Element.percents : Element → Nat
  | literal c => if c = '%' then 1 else 0
  | directive _ body => body.count '%' + 1

def percents (es : List Element) : Nat := (es.map Element.percents).sum

/-- How many `%` the texts have. -/
def textPercents (ts : List Token) : Nat :=
  (ts.map fun t => match t with
    | .text str => str.toList.count '%'
    | .directive .. => 0).sum

/-! ## Counting -/

theorem textPercents_text (str : String) (ts : List Token) :
    textPercents (.text str :: ts) = str.toList.count '%' + textPercents ts := rfl

theorem textPercents_directive (str format : String) (ts : List Token) :
    textPercents (.directive str format :: ts) = textPercents ts := Nat.zero_add _

theorem percents_append (es es' : List Element) :
    percents (es ++ es') = percents es + percents es' := by
  simp [percents]

theorem count_eq_zero {str : List Char} (h : ∀ c ∈ str, c ≠ '%') : str.count '%' = 0 :=
  List.count_eq_zero.mpr fun hmem => h '%' hmem rfl

/-- Without an error each `%` of the pattern is in an element. -/
theorem count_parse (l : List Char) (p : Parsing) (herror : (parse l 0 p).error = false) :
    l.count '%' + percents (p.flush.flatMap Token.elements) =
      percents ((parse l 0 p).flush.flatMap Token.elements) := by
  refine parse_rec (motive := fun l p => l.count '%' +
    percents (p.flush.flatMap Token.elements) =
      percents ((parse l 0 p).flush.flatMap Token.elements)) ?_ ?_ ?_ ?_ l p herror
  · exact fun p => Nat.zero_add _
  · intro c rest p hc ih
    rw [parse_literal hc, ← ih, elements_literal, percents_append, List.count_cons_of_ne hc]
    simp [percents, Element.percents, hc]
  · intro rest p ih
    change _ = percents ((parse ('%' :: rest) 0 { p with nstr := p.nstr ++ ['%'] }).flush.flatMap _)
    rw [← ih, elements_literal, percents_append, List.count_cons_self]
    simp only [percents, Element.percents, List.map_cons, List.map_nil, List.sum_cons,
      List.sum_nil, if_true]
    omega
  · intro rest str format used p hnext hscan ih
    obtain ⟨hstr, hcase⟩ := scanned_cases hscan
    have hcount : rest.count '%' = format.count '%' + (rest.drop used).count '%' := by
      rcases hcase with ⟨hrest, hformat, -⟩ | ⟨hrest, -⟩
      · rw [hformat]
        conv_lhs => rw [hrest, List.count_append, count_eq_zero hstr]
        rfl
      · conv_lhs => rw [hrest, List.count_append, count_eq_zero hstr]
        simp
    rw [parse_directive hnext hscan, ← ih, elements_directive, percents_append,
      List.count_cons_self, hcount]
    simp only [percents, Element.percents, List.map_cons, List.map_nil, List.sum_cons,
      List.sum_nil]
    omega

/-- Doubling them doubles their number. -/
theorem count_doubled (str : List Char) :
    (str.flatMap fun c => if c = '%' then ['%', '%'] else [c]).count '%' =
      2 * str.count '%' := by
  induction str with
  | nil => rfl
  | cons c str ih =>
    rw [List.flatMap_cons, List.count_append, ih]
    by_cases hc : c = '%'
    · subst hc
      rw [if_pos rfl]
      simp only [List.count_cons_self, List.count_nil]
      omega
    · rw [if_neg hc, List.count_cons_of_ne hc, List.count_cons_of_ne hc, List.count_nil,
        Nat.zero_add]

/-- A text has its own percent signs. -/
theorem percents_text (str : List Char) :
    percents (str.map .literal) = str.count '%' := by
  induction str with
  | nil => rfl
  | cons c str ih =>
    rw [List.map_cons, percents, List.map_cons, List.sum_cons]
    change _ + percents (str.map .literal) = _
    rw [ih, List.count_cons, Nat.add_comm]
    simp only [Element.percents, beq_iff_eq]

/-- A directive that can be written has a known letter. -/
theorem name_of_writable {str format : String} (h : (Token.directive str format).Writable) :
    ∃ k ∈ names, str.toList = [k] := by
  rw [← isSome_lookup_iff, String.ofList_toList]
  exact h.1

/-- The pattern has each `%` of a text once more than the elements. -/
theorem count_encode {ts : List Token} (h : ∀ t ∈ ts, t.Writable) :
    (ts.flatMap Token.encode).count '%' =
      percents (ts.flatMap Token.elements) + textPercents ts := by
  induction ts with
  | nil => rfl
  | cons t ts ih =>
    obtain ⟨ht, hts⟩ := List.forall_mem_cons.mp h
    rw [List.flatMap_cons, List.flatMap_cons, List.count_append, percents_append, ih hts]
    cases t with
    | text str =>
      rw [textPercents_text, Token.encode, Token.elements, count_doubled, percents_text]
      omega
    | directive str format =>
      obtain ⟨k, hk, hstr⟩ := name_of_writable ht
      have hne : k ≠ '%' := by
        rintro rfl
        exact absurd hk (by decide)
      have hone : (Token.encode (.directive str format)).count '%' =
          percents (Token.elements (.directive str format)) := by
        simp [Token.encode, Token.elements, percents, Element.percents, hstr, hne]
      rw [textPercents_directive, hone, Nat.add_assoc]

theorem textPercents_eq_zero_iff (ts : List Token) :
    textPercents ts = 0 ↔ ∀ str, .text str ∈ ts → '%' ∉ str.toList := by
  induction ts with
  | nil => exact iff_of_true rfl nofun
  | cons t ts ih =>
    cases t with
    | text str =>
      rw [textPercents_text, Nat.add_eq_zero_iff, ih, List.count_eq_zero]
      simp only [List.mem_cons, Token.text.injEq, forall_eq_or_imp]
    | directive str format =>
      rw [textPercents_directive, ih]
      simp only [List.mem_cons, reduceCtorEq, false_or]

/-! ## Texts without `%` -/

/-- Text without percent signs can stand anywhere. -/
theorem wellFormed_literals {str : List Char} (h : '%' ∉ str) {ps : List Piece}
    (hps : WellFormed ps) : WellFormed (str.map .literal ++ ps) := by
  induction str with
  | nil => exact hps
  | cons c str ih =>
    rw [List.mem_cons, not_or] at h
    exact ⟨Ne.symm h.1, ih h.2⟩

/-- Text without percent signs is written as it is. -/
theorem encode_text {str : String} (h : '%' ∉ str.toList) :
    (Token.text str).encode = render (str.toList.map .literal) := by
  rw [Token.encode, render, List.flatMap_map]
  apply List.flatMap_congr
  intro c hc
  have hne : c ≠ '%' := by
    rintro rfl
    exact h hc
  exact if_neg hne

/-- Without a `%` in a text, the pattern is well-formed. -/
theorem exists_written {ts : List Token} (h : ∀ t ∈ ts, t.Writable)
    (htexts : ∀ str, .text str ∈ ts → '%' ∉ str.toList) :
    ∃ ps, WellFormed ps ∧ render ps = ts.flatMap Token.encode ∧
      ps.map Piece.element = ts.flatMap Token.elements := by
  induction ts with
  | nil => exact ⟨[], trivial, rfl, rfl⟩
  | cons t ts ih =>
    obtain ⟨ht, hts⟩ := List.forall_mem_cons.mp h
    obtain ⟨ps, hps, hrender, helements⟩ := ih hts fun str hmem =>
      htexts str (List.mem_cons_of_mem t hmem)
    cases t with
    | text str =>
      have hstr := htexts str List.mem_cons_self
      refine ⟨str.toList.map .literal ++ ps, wellFormed_literals hstr hps, ?_, ?_⟩
      · rw [List.flatMap_cons, ← hrender, encode_text hstr]
        exact List.flatMap_append
      · rw [List.map_append, helements, List.flatMap_cons, Token.elements, List.map_map]
        rfl
    | directive str format =>
      obtain ⟨k, hk, hstr⟩ := name_of_writable ht
      refine ⟨.directive k (some format.toList) :: ps, ⟨hk, ht.2, hps⟩, ?_, ?_⟩
      · rw [List.flatMap_cons, ← hrender, Token.encode, hstr]
        rfl
      · rw [List.map_cons, helements, List.flatMap_cons, Token.elements, hstr]
        rfl

/-- The pattern for tokens is accepted and read back, texts that meet being joined, exactly when no
text has a `%`. -/
theorem percent_escape_iff (ts : List Token) (h : ∀ t ∈ ts, t.Writable) :
    ((LogFormatter.init (encode ts)).error = false ∧
      (tokens (encode ts)).flatMap Token.elements = ts.flatMap Token.elements ∧
      Maximal (tokens (encode ts))) ↔
    ∀ str, .text str ∈ ts → '%' ∉ str.toList := by
  have hwritten : (encode ts).toList = ts.flatMap Token.encode := String.toList_ofList
  constructor
  · rintro ⟨haccepted, helements, -⟩
    have herror := (Bool.or_eq_false_iff.mp haccepted).1
    have hcount := count_parse (encode ts).toList {} herror
    have hempty : percents (Parsing.flush {} |>.flatMap Token.elements) = 0 := rfl
    rw [hempty, Nat.add_zero, hwritten, count_encode h, ← hwritten] at hcount
    change _ = percents ((tokens (encode ts)).flatMap Token.elements) at hcount
    rw [helements] at hcount
    apply (textPercents_eq_zero_iff ts).mp
    omega
  · intro htexts
    obtain ⟨ps, hps, hrender, hpieces⟩ := exists_written h htexts
    obtain ⟨haccepted, helements⟩ := init_of_render hps (hrender.trans hwritten.symm)
    have herror := (Bool.or_eq_false_iff.mp haccepted).1
    exact ⟨haccepted, helements.trans hpieces, maximal_parse _ _ herror ⟨nofun, .nil⟩ nofun⟩

/-- A text and a directive with a body. -/
def hourOnly : List Token := [.text "at ", .directive "d" "%H"]

/-- A date of which only the hour is shown. -/
theorem percent_escape_hourOnly :
    (LogFormatter.init (encode hourOnly)).error = false ∧
      (tokens (encode hourOnly)).flatMap Token.elements = hourOnly.flatMap Token.elements ∧
      Maximal (tokens (encode hourOnly)) := by
  have hwritable : ∀ t ∈ hourOnly, t.Writable := by
    intro t ht
    rcases List.mem_cons.mp ht with rfl | ht
    · trivial
    · cases List.mem_singleton.mp ht
      exact ⟨by decide, by decide⟩
  refine (percent_escape_iff hourOnly hwritable).mpr fun str hmem => ?_
  rcases List.mem_cons.mp hmem with heq | hmem
  · cases heq
    decide
  · cases List.mem_singleton.mp hmem

/-- The text `%` is written `%%`, which is in error. In front of a directive it is accepted, and
read as the text `%%`. -/
theorem percent_escape_lost :
    encode [.text "%"] = "%%" ∧ (LogFormatter.init "%%").error = true ∧
      encode [.text "%", .directive "m" ""] = "%%%m\x7b\x7d" ∧
      (LogFormatter.init "%%%m\x7b\x7d").error = false ∧
      tokens "%%%m\x7b\x7d" = [.text "%%", .directive "m" ""] := by
  decide

end Xupeng.Log
