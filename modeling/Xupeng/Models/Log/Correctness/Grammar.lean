import Mathlib.Data.List.Chain
import Xupeng.Models.Log.Interpretation.Scanning

/-!
# The grammar of patterns

A pattern without a doubled `%` is accepted exactly when it can be written as characters of
text and known directives, where a directive without braces has to end before a letter or
a brace. The tokens are then these characters and directives in their order, with texts as
long as possible.
-/

namespace Xupeng.Log

/-- The names in `s_format_items`. -/
def names : List Char := "mprctndflTFN".toList

/-- A part of a pattern: a character of text, or a directive that may have a body in braces. -/
inductive Piece
  | literal (c : Char)
  | directive (k : Char) (body : Option (List Char))
  deriving DecidableEq, Repr

/-- How a piece is written. -/
def Piece.render : Piece → List Char
  | literal c => [c]
  | directive k none => ['%', k]
  | directive k (some body) => '%' :: k :: '{' :: (body ++ ['}'])

/-- How pieces are written. -/
def render (ps : List Piece) : List Char := ps.flatMap Piece.render

/-- The grammar. -/
def WellFormed : List Piece → Prop
  | [] => True
  | .literal c :: ps => c ≠ '%' ∧ WellFormed ps
  | .directive k none :: ps => k ∈ names ∧ Stops (render ps) ∧ WellFormed ps
  | .directive k (some body) :: ps => k ∈ names ∧ '}' ∉ body ∧ WellFormed ps

/-- What tokens and pieces stand for: the characters of the texts, and the directives with name
and body. -/
inductive Element
  | literal (c : Char)
  | directive (name body : List Char)
  deriving DecidableEq, Repr

/-- An absent body counts as the empty one. -/
def Piece.element : Piece → Element
  | literal c => .literal c
  | directive k body => .directive [k] (body.getD [])

def Token.elements : Token → List Element
  | text str => str.toList.map .literal
  | directive str format => [.directive str.toList format.toList]

def Token.isText : Token → Bool
  | text _ => true
  | directive .. => false

/-- No text is empty, and no text follows a text. -/
structure Maximal (tokens : List Token) : Prop where
  nonempty : Token.text "" ∉ tokens
  apart : tokens.IsChain fun a b => ¬ (a.isText ∧ b.isText)

/-- The tokens that `init` makes of a pattern. -/
def tokens (pattern : String) : List Token := (parse pattern.toList 0 {}).flush

/-! ## Names -/

/-- Every directive is a letter. -/
theorem isAlpha_of_mem_names {k : Char} (h : k ∈ names) : k.isAlpha := by
  have hall : names.all Char.isAlpha = true := by decide
  exact List.all_eq_true.mp hall k h

/-- A directive is known if its name is one of the letters. -/
theorem isSome_lookup_iff (str : List Char) :
    (formatItems.lookup (String.ofList str)).isSome ↔ ∃ k ∈ names, str = [k] := by
  have hkeys : formatItems.map Prod.fst = names.map fun k => String.ofList [k] := rfl
  have hmem : (formatItems.lookup (String.ofList str)).isSome ↔
      String.ofList str ∈ formatItems.map Prod.fst := by
    rw [List.lookup_isSome_iff, List.mem_map]
    refine exists_congr fun e => and_congr_right fun _ => ?_
    rw [beq_iff_eq, eq_comm]
  rw [hmem, hkeys, List.mem_map]
  simp only [String.ofList_inj, eq_comm]

/-! ## Elements -/

/-- Pending text comes behind what has been read. -/
theorem elements_flush (p : Parsing) :
    p.flush.flatMap Token.elements =
      p.vec.flatMap Token.elements ++ p.nstr.map .literal := by
  unfold Parsing.flush
  split
  · rename_i hnil
    rw [hnil, List.map_nil, List.append_nil]
  · rw [List.flatMap_append, List.flatMap_singleton, Token.elements, String.toList_ofList]

/-- A directive comes behind the pending text. -/
theorem elements_directive (str format : List Char) (p : Parsing) :
    (p.directive str format).flush.flatMap Token.elements =
      p.flush.flatMap Token.elements ++ [.directive str format] := by
  rw [elements_flush]
  simp [Parsing.directive, Token.elements]

/-- A character is added to the pending text. -/
theorem elements_literal (c : Char) (p : Parsing) :
    ({ p with nstr := p.nstr ++ [c] } : Parsing).flush.flatMap Token.elements =
      p.flush.flatMap Token.elements ++ [.literal c] := by
  rw [elements_flush, elements_flush]
  simp

/-! ## From pieces to tokens -/

theorem scanName_bare {k : Char} (hk : k ∈ names) {rest : List Char} (h : Stops rest) :
    scanName [] (k :: rest) = some ([k], [], 1) := by
  rw [scanName_letter [] (isAlpha_of_mem_names hk)]
  exact scanName_of_stops [k] h

theorem scanName_braced {k : Char} (hk : k ∈ names) {body : List Char} (h : '}' ∉ body)
    (rest : List Char) :
    scanName [] (k :: '{' :: (body ++ '}' :: rest)) = some ([k], body, body.length + 3) := by
  rw [scanName_letter [] (isAlpha_of_mem_names hk), scanName, if_pos rfl, scanFormat_append _ _ h]
  simp [Nat.add_comm, Nat.add_assoc]

/-- A directive does not begin with a percent sign. -/
theorem head?_ne_percent {k : Char} (hk : k ∈ names) (rest : List Char) :
    (k :: rest).head? ≠ some '%' := by
  intro heq
  cases heq
  exact absurd hk (by decide)

/-- Well-formed pieces are parsed without an error, each to its element. -/
theorem parse_render {ps : List Piece} (h : WellFormed ps) (p : Parsing) :
    (parse (render ps) 0 p).error = p.error ∧
      (parse (render ps) 0 p).flush.flatMap Token.elements =
        p.flush.flatMap Token.elements ++ ps.map Piece.element := by
  induction ps generalizing p with
  | nil => exact ⟨rfl, (List.append_nil _).symm⟩
  | cons piece ps ih =>
    have hnext {q : Parsing} (hps : WellFormed ps) (herror : q.error = p.error)
        (hq : q.flush.flatMap Token.elements =
          p.flush.flatMap Token.elements ++ [piece.element]) :
        (parse (render ps) 0 q).error = p.error ∧
          (parse (render ps) 0 q).flush.flatMap Token.elements =
            p.flush.flatMap Token.elements ++ (piece :: ps).map Piece.element := by
      obtain ⟨hkeep, helements⟩ := ih hps q
      refine ⟨hkeep.trans herror, ?_⟩
      rw [helements, hq, List.append_assoc]
      rfl
    cases piece with
    | literal c =>
      obtain ⟨hc, hps⟩ := h
      change (parse (c :: render ps) 0 p).error = _ ∧
        (parse (c :: render ps) 0 p).flush.flatMap _ = _
      rw [parse_literal hc]
      exact hnext hps rfl (elements_literal c p)
    | directive k body =>
      cases body with
      | none =>
        obtain ⟨hk, hstops, hps⟩ := h
        change (parse ('%' :: k :: render ps) 0 p).error = _ ∧
          (parse ('%' :: k :: render ps) 0 p).flush.flatMap _ = _
        rw [parse_directive (head?_ne_percent hk _) (scanName_bare hk hstops)]
        exact hnext hps rfl (elements_directive [k] [] p)
      | some body =>
        obtain ⟨hk, hbody, hps⟩ := h
        have hrender : render (.directive k (some body) :: ps) =
            '%' :: k :: '{' :: (body ++ '}' :: render ps) := by
          simp [render, Piece.render]
        have hdrop : (k :: '{' :: (body ++ '}' :: render ps)).drop (body.length + 3) =
            render ps := by
          simp
        rw [hrender, parse_directive (head?_ne_percent hk _) (scanName_braced hk hbody _), hdrop]
        exact hnext hps rfl (elements_directive [k] body p)

/-- A directive is one of the elements. -/
theorem mem_elements_of_directive {str format : String} {l : List Token}
    (h : Token.directive str format ∈ l) :
    .directive str.toList format.toList ∈ l.flatMap Token.elements :=
  List.mem_flatMap_of_mem h List.mem_cons_self

/-- All directives are known exactly if all of their letters are. -/
theorem known_iff {l : List Token} :
    l.all Token.known ↔ ∀ name body, .directive name body ∈ l.flatMap Token.elements →
      ∃ k ∈ names, name = [k] := by
  rw [List.all_eq_true]
  constructor
  · intro h name body hmem
    obtain ⟨token, htoken, hmem⟩ := List.mem_flatMap.mp hmem
    have hknown := h token htoken
    cases token with
    | text str =>
      obtain ⟨c, -, hc⟩ := List.mem_map.mp hmem
      cases hc
    | directive str format =>
      cases List.mem_singleton.mp hmem
      rw [← isSome_lookup_iff, String.ofList_toList]
      exact hknown
  · intro h token htoken
    cases token with
    | text str => rfl
    | directive str format =>
      have hname := h _ _ (mem_elements_of_directive htoken)
      rwa [← isSome_lookup_iff, String.ofList_toList] at hname

/-- A pattern that is well formed has known directives only. -/
theorem mem_names_of_wellFormed {ps : List Piece} (h : WellFormed ps) {k : Char}
    {body : Option (List Char)} (hmem : .directive k body ∈ ps) : k ∈ names := by
  induction ps with
  | nil => cases hmem
  | cons piece ps ih =>
    rcases List.mem_cons.mp hmem with rfl | hrest
    · cases body <;> exact h.1
    · cases piece with
      | literal c => exact ih h.2 hrest
      | directive k body => cases body <;> exact ih h.2.2 hrest

/-- A well-formed pattern is accepted. -/
theorem init_of_render {ps : List Piece} (h : WellFormed ps) {pattern : String}
    (hpattern : render ps = pattern.toList) :
    (LogFormatter.init pattern).error = false ∧
      (tokens pattern).flatMap Token.elements = ps.map Piece.element := by
  obtain ⟨herror, helements⟩ := parse_render h {}
  rw [hpattern] at herror helements
  have hknown : (tokens pattern).all Token.known := by
    refine known_iff.mpr fun name body hmem => ?_
    rw [tokens, helements] at hmem
    obtain ⟨piece, hpiece, hname⟩ := List.mem_map.mp hmem
    cases piece with
    | literal c => cases hname
    | directive k body =>
      cases hname
      exact ⟨k, mem_names_of_wellFormed h hpiece, rfl⟩
  refine ⟨?_, helements⟩
  change ((parse pattern.toList 0 {}).error || !(tokens pattern).all Token.known) = false
  rw [herror, hknown]
  rfl

/-! ## From tokens to pieces -/

/-- The elements that the loop has found stay. -/
theorem elements_kept (l : List Char) (p : Parsing) (herror : (parse l 0 p).error = false) :
    p.flush.flatMap Token.elements <+: (parse l 0 p).flush.flatMap Token.elements := by
  refine parse_rec (motive := fun l p => p.flush.flatMap Token.elements <+:
    (parse l 0 p).flush.flatMap Token.elements) ?_ ?_ ?_ ?_ l p herror
  · exact fun p => List.prefix_rfl
  · intro c rest p hc ih
    rw [parse_literal hc]
    rw [elements_literal] at ih
    exact (List.prefix_append _ _).trans ih
  · intro rest p ih
    rw [elements_literal] at ih
    exact (List.prefix_append _ _).trans ih
  · intro rest str format used p hnext hscan ih
    rw [parse_directive hnext hscan]
    rw [elements_directive] at ih
    exact (List.prefix_append _ _).trans ih

/-- A pattern without a doubled `%` that is parsed into known directives is well-formed. -/
theorem exists_pieces (l : List Char) (p : Parsing) (herror : (parse l 0 p).error = false)
    (hdouble : ¬ ['%', '%'] <:+: l) (hknown : (parse l 0 p).flush.all Token.known) :
    ∃ ps, WellFormed ps ∧ render ps = l := by
  revert hdouble hknown herror
  refine fun herror => parse_rec (motive := fun l p => (parse l 0 p).error = false →
    ¬ ['%', '%'] <:+: l → (parse l 0 p).flush.all Token.known →
      ∃ ps, WellFormed ps ∧ render ps = l) ?_ ?_ ?_ ?_ l p herror herror
  · exact fun p _ _ _ => ⟨[], trivial, rfl⟩
  · intro c rest p hc ih herror hdouble hknown
    rw [parse_literal hc] at herror hknown
    have hrest : ¬ ['%', '%'] <:+: rest := fun h =>
      hdouble (h.trans (List.suffix_cons c rest).isInfix)
    obtain ⟨ps, hps, hrender⟩ := ih herror hrest hknown
    exact ⟨.literal c :: ps, ⟨hc, hps⟩, congrArg (c :: ·) hrender⟩
  · intro rest p _ _ hdouble _
    exact absurd (List.prefix_append ['%', '%'] rest).isInfix hdouble
  · intro rest str format used p hnext hscan ih herror hdouble hknown
    rw [parse_directive hnext hscan] at herror hknown
    have hafter : rest.drop used <:+: '%' :: rest :=
      ((List.drop_suffix used rest).trans (List.suffix_cons '%' rest)).isInfix
    obtain ⟨ps, hps, hrender⟩ := ih herror (fun h => hdouble (h.trans hafter)) hknown
    -- the directive is among the tokens, so its name is known
    have hmem : .directive str format ∈
        (parse (rest.drop used) 0 (p.directive str format)).flush.flatMap Token.elements := by
      refine (elements_kept _ _ herror).subset ?_
      rw [elements_directive]
      exact List.mem_append_right _ List.mem_cons_self
    obtain ⟨k, hk, rfl⟩ := known_iff.mp hknown str format hmem
    obtain ⟨-, ⟨hrest, rfl, hstops⟩ | ⟨hrest, hbody⟩⟩ := scanned_cases hscan
    · refine ⟨.directive k none :: ps, ⟨hk, hrender ▸ hstops, hps⟩, ?_⟩
      change '%' :: k :: render ps = '%' :: rest
      rw [hrender]
      exact congrArg ('%' :: ·) hrest.symm
    · refine ⟨.directive k (some format) :: ps, ⟨hk, hbody, hps⟩, ?_⟩
      have hwritten : render (.directive k (some format) :: ps) =
          '%' :: ([k] ++ '{' :: (format ++ '}' :: render ps)) := by
        simp [render, Piece.render]
      rw [hwritten, hrender, ← hrest]

/-! ## Maximal texts -/

theorem maximal_append_directive {l : List Token} (h : Maximal l) (str format : String) :
    Maximal (l ++ [.directive str format]) := by
  refine ⟨fun hmem => ?_, ?_⟩
  · rcases List.mem_append.mp hmem with hmem | hmem
    · exact h.nonempty hmem
    · cases List.mem_singleton.mp hmem
  · refine List.isChain_append.mpr ⟨h.apart, List.isChain_singleton _, fun a _ b hb => ?_⟩
    cases hb
    exact fun htext => Bool.false_ne_true htext.2

/-- The text that is left may follow a directive. -/
theorem maximal_flush {p : Parsing} (h : Maximal p.vec)
    (hlast : ∀ token ∈ p.vec.getLast?, token.isText = false) : Maximal p.flush := by
  unfold Parsing.flush
  split
  · exact h
  · rename_i hne
    refine ⟨fun hmem => ?_, ?_⟩
    · rcases List.mem_append.mp hmem with hmem | hmem
      · exact h.nonempty hmem
      · have heq := Token.text.inj (List.mem_singleton.mp hmem)
        apply hne
        rw [← String.toList_ofList (l := p.nstr), ← heq]
        rfl
    · refine List.isChain_append.mpr ⟨h.apart, List.isChain_singleton _, fun a ha b _ htext => ?_⟩
      rw [hlast a ha] at htext
      exact Bool.false_ne_true htext.1

/-- The parser never leaves two texts side by side. -/
theorem maximal_parse (l : List Char) (p : Parsing) (herror : (parse l 0 p).error = false)
    (h : Maximal p.vec) (hlast : ∀ token ∈ p.vec.getLast?, token.isText = false) :
    Maximal (parse l 0 p).flush := by
  revert h hlast
  refine parse_rec (motive := fun l p => Maximal p.vec →
    (∀ token ∈ p.vec.getLast?, token.isText = false) → Maximal (parse l 0 p).flush)
    ?_ ?_ ?_ ?_ l p herror
  · exact fun p h hlast => maximal_flush h hlast
  · intro c rest p hc ih h hlast
    rw [parse_literal hc]
    exact ih h hlast
  · intro rest p ih h hlast
    exact ih h hlast
  · intro rest str format used p hnext hscan ih h hlast
    rw [parse_directive hnext hscan]
    refine ih (maximal_append_directive (maximal_flush h hlast) _ _) fun token htoken => ?_
    rw [Parsing.directive, List.getLast?_concat] at htoken
    cases htoken
    rfl

/-- A pattern is accepted by the parser and then by the table of directives. -/
theorem of_accepted {pattern : String} (h : (LogFormatter.init pattern).error = false) :
    (parse pattern.toList 0 {}).error = false ∧ (tokens pattern).all Token.known := by
  obtain ⟨herror, hknown⟩ := Bool.or_eq_false_iff.mp h
  exact ⟨herror, Bool.not_eq_eq_eq_not.mp hknown⟩

/-- For every pattern without two `%` in a row: it is accepted exactly when it is well-formed, and
then its tokens are the pieces in their order, with texts as long as possible. -/
theorem pattern_grammar (pattern : String) (hdouble : ¬ ['%', '%'] <:+: pattern.toList) :
    ((LogFormatter.init pattern).error = false ↔
      ∃ ps, WellFormed ps ∧ render ps = pattern.toList) ∧
    ∀ ps, WellFormed ps → render ps = pattern.toList →
      (tokens pattern).flatMap Token.elements = ps.map Piece.element ∧
        Maximal (tokens pattern) := by
  refine ⟨⟨fun h => ?_, fun ⟨ps, hps, hrender⟩ => (init_of_render hps hrender).1⟩,
    fun ps hps hrender => ?_⟩
  · obtain ⟨herror, hknown⟩ := of_accepted h
    exact exists_pieces _ _ herror hdouble hknown
  · obtain ⟨haccepted, helements⟩ := init_of_render hps hrender
    refine ⟨helements, maximal_parse _ _ (of_accepted haccepted).1 ⟨nofun, .nil⟩ nofun⟩

/-- A level in brackets and the hour. -/
def dated : List Piece :=
  [.literal '[', .directive 'p' none, .literal ']', .directive 'd' (some ['%', 'H'])]

theorem pattern_grammar_dated :
    (LogFormatter.init (String.ofList (render dated))).error = false ∧
      (tokens (String.ofList (render dated))).flatMap Token.elements =
        [.literal '[', .directive ['p'] [], .literal ']', .directive ['d'] ['%', 'H']] := by
  have hwritten : render dated = (String.ofList (render dated)).toList :=
    String.toList_ofList.symm
  have hdouble : ¬ ['%', '%'] <:+: (String.ofList (render dated)).toList := by
    rw [← hwritten]
    decide
  have hps : WellFormed dated := by
    refine ⟨by decide, by decide, ?_, by decide, by decide, by decide, trivial⟩
    intro c hc
    cases hc
    decide
  obtain ⟨haccepted, htokens⟩ := pattern_grammar (String.ofList (render dated)) hdouble
  exact ⟨haccepted.mpr ⟨dated, hps, hwritten⟩, (htokens dated hps hwritten).1⟩

end Xupeng.Log
