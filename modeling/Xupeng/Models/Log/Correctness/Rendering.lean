import Mathlib.Algebra.Order.BigOperators.Group.List
import Mathlib.Algebra.Order.Ring.Nat
import Xupeng.Models.Log.Correctness.Grammar
import Xupeng.Models.Log.Native.Format

/-!
# What formatting makes of a pattern

A pattern stands for its texts and for what its directives say about an event, in this order.
The items of the texts write nothing, and a date that is too long for its buffer is not
written as it should be. So the output is as it should be for exactly the patterns without
any text, at times where the dates fit.
-/

namespace Xupeng.Log

variable {calendar : Calendar} {buf : String} {level : Level} {event : LogEvent} {pattern : String}

/-- The format of a date, which has a default. -/
def dateFormat (format : String) : String :=
  if format = "" then "%Y-%m-%d %H:%M:%S" else format

/-- What a token stands for. -/
def Token.expansion (calendar : Calendar) (level : Level) (event : LogEvent) : Token → String
  | text str => str
  | directive "m" _ => event.content
  | directive "p" _ => level.toString
  | directive "r" _ => toString event.elapse
  | directive "c" _ => event.logger.name
  | directive "t" _ => toString event.threadId
  | directive "n" _ => "\n"
  | directive "d" format => calendar (dateFormat format) event.time
  | directive "f" _ => event.file
  | directive "l" _ => toString event.line
  | directive "T" _ => "\t"
  | directive "F" _ => toString event.fiberId
  | directive "N" _ => event.threadName
  | directive _ _ => ""

/-- What a pattern stands for. -/
def rendered (calendar : Calendar) (pattern : String) (level : Level) (event : LogEvent) :
    List Char :=
  (tokens pattern).flatMap fun token => (token.expansion calendar level event).toList

/-- The date of a directive is short enough for the buffer. -/
def Fits (calendar : Calendar) (event : LogEvent) (format : String) : Prop :=
  (calendar (dateFormat format) event.time).utf8ByteSize < 64

/-- A token whose item writes what the token stands for. -/
def Token.Shown (calendar : Calendar) (event : LogEvent) : Token → Prop
  | text _ => False
  | directive str format => str = "d" → Fits calendar event format

/-! ## Items -/

/-- The items write one after the other. -/
theorem formatTo_eq (calendar : Calendar) (buf : String) (level : Level) (event : LogEvent)
    (f : LogFormatter) (ofs : List Char) :
    f.formatTo calendar buf ofs level event =
      ofs ++ f.items.flatMap fun item => (item.written calendar buf level event).toList := by
  unfold LogFormatter.formatTo
  generalize f.items = items
  induction items generalizing ofs with
  | nil => exact (List.append_nil ofs).symm
  | cons item items ih =>
    rw [List.foldl_cons, ih, List.flatMap_cons, FormatItem.format, List.append_assoc]

/-- The item of a date writes what the buffer holds. -/
theorem written_date (format : String) :
    (Token.directive "d" format).item.written calendar buf level event =
      strftime calendar buf (dateFormat format) event.time := rfl

/-- Every other item of a known directive writes the expansion. -/
theorem written_of_ne {str format : String} (h : (Token.directive str format).known)
    (hne : str ≠ "d") :
    (Token.directive str format).item.written calendar buf level event =
      (Token.directive str format).expansion calendar level event := by
  have hname := (isSome_lookup_iff str.toList).mp (by rw [String.ofList_toList]; exact h)
  obtain ⟨k, hk, hstr⟩ := hname
  obtain rfl : str = String.ofList [k] := by rw [← hstr, String.ofList_toList]
  change k ∈ ['m', 'p', 'r', 'c', 't', 'n', 'd', 'f', 'l', 'T', 'F', 'N'] at hk
  simp only [List.mem_cons, List.not_mem_nil, or_false] at hk
  rcases hk with rfl | rfl | rfl | rfl | rfl | rfl | rfl | rfl | rfl | rfl | rfl | rfl
  case inr.inr.inr.inr.inr.inr.inl => exact absurd rfl hne
  all_goals rfl

/-- An item writes what its directive stands for. -/
theorem written_of_shown {token : Token} (hknown : token.known)
    (h : token.Shown calendar event) :
    token.item.written calendar buf level event = token.expansion calendar level event := by
  cases token with
  | text str => exact h.elim
  | directive str format =>
    by_cases hd : str = "d"
    · subst hd
      rw [written_date]
      exact if_pos (h rfl)
    · exact written_of_ne hknown hd

/-- With nothing in the buffer, a token that is not shown is written shorter. -/
theorem length_written_lt {token : Token} (hne : token ≠ .text "")
    (h : ¬ token.Shown calendar event) :
    (token.item.written calendar "" level event).length <
      (token.expansion calendar level event).length := by
  cases token with
  | text str =>
    have hpos : str.length ≠ 0 := fun hzero =>
      hne (congrArg Token.text (String.length_eq_zero_iff.mp hzero))
    exact Nat.pos_of_ne_zero hpos
  | directive str format =>
    obtain ⟨rfl, hlong⟩ := Classical.not_imp.mp h
    have hwritten : strftime calendar "" (dateFormat format) event.time = "" := if_neg hlong
    rw [written_date, hwritten]
    refine Nat.pos_of_ne_zero fun hzero => hlong ?_
    change (calendar (dateFormat format) event.time).length = 0 at hzero
    rw [Fits, String.length_eq_zero_iff.mp hzero]
    decide

/-! ## Patterns -/

/-- A pattern that is accepted has known directives only. -/
theorem known_of_accepted (h : (LogFormatter.init pattern).error = false) :
    ∀ token ∈ tokens pattern, token.known :=
  List.all_eq_true.mp (of_accepted h).2

/-- The texts of an accepted pattern are not empty. -/
theorem text_ne_empty (h : (LogFormatter.init pattern).error = false) {token : Token}
    (hmem : token ∈ tokens pattern) : token ≠ .text "" := by
  rintro rfl
  exact (maximal_parse _ _ (of_accepted h).1 ⟨nofun, .nil⟩ nofun).nonempty hmem

theorem items_init (pattern : String) :
    (LogFormatter.init pattern).items = (tokens pattern).map Token.item := rfl

/-- Both overloads write what the items of the tokens write. -/
theorem format_eq (pattern : String) :
    (LogFormatter.init pattern).format calendar buf level event =
      (tokens pattern).flatMap fun token =>
        (token.item.written calendar buf level event).toList := by
  have hto := formatTo_eq calendar buf level event (LogFormatter.init pattern) []
  rw [items_init, List.flatMap_map, List.nil_append] at hto
  exact hto

/-- A stream gets the text of the other function. -/
theorem formatTo_eq_format (f : LogFormatter) (ofs : List Char) :
    f.formatTo calendar buf ofs level event = ofs ++ f.format calendar buf level event := by
  have hself := formatTo_eq calendar buf level event f []
  rw [formatTo_eq, LogFormatter.format]
  exact congrArg (ofs ++ ·) hself.symm

/-- If a token is not shown, the output with nothing in the buffer is too short. -/
theorem shown_of_format_eq (h : (LogFormatter.init pattern).error = false)
    (heq : (LogFormatter.init pattern).format calendar "" level event =
      rendered calendar pattern level event) {token : Token} (hmem : token ∈ tokens pattern) :
    token.Shown calendar event := by
  by_contra hnot
  have hle : ∀ t ∈ tokens pattern, (t.item.written calendar "" level event).toList.length ≤
      (t.expansion calendar level event).toList.length := by
    intro t ht
    by_cases hshown : t.Shown calendar event
    · rw [written_of_shown (known_of_accepted h t ht) hshown]
    · exact (length_written_lt (text_ne_empty h ht) hshown).le
  have hlt := List.sum_lt_sum _ _ hle ⟨token, hmem, length_written_lt (text_ne_empty h hmem) hnot⟩
  rw [← List.length_flatMap, ← List.length_flatMap, ← format_eq, heq, rendered] at hlt
  exact lt_irrefl _ hlt

/-- For every pattern that is accepted and every event: both overloads write the texts and the
expansions of the directives, whatever an overfull buffer holds, exactly if the pattern has no
text and its dates fit into the buffer. -/
theorem format_renders_iff (calendar : Calendar) (pattern : String)
    (h : (LogFormatter.init pattern).error = false) (level : Level) (event : LogEvent)
    (ofs : List Char) :
    (∀ buf, (LogFormatter.init pattern).format calendar buf level event =
        rendered calendar pattern level event ∧
      (LogFormatter.init pattern).formatTo calendar buf ofs level event =
        ofs ++ rendered calendar pattern level event) ↔
      (∀ str, .text str ∉ tokens pattern) ∧
        ∀ format, .directive "d" format ∈ tokens pattern → Fits calendar event format := by
  constructor
  · intro heq
    have hshown {token : Token} (hmem : token ∈ tokens pattern) : token.Shown calendar event :=
      shown_of_format_eq h (heq "").1 hmem
    exact ⟨fun str hmem => hshown hmem, fun format hmem => hshown hmem rfl⟩
  · rintro ⟨htext, hdate⟩ buf
    have hshown : ∀ token ∈ tokens pattern, token.Shown calendar event := by
      rintro (str | ⟨str, format⟩) hmem
      · exact absurd hmem (htext str)
      · rintro rfl
        exact hdate format hmem
    have hformat : (LogFormatter.init pattern).format calendar buf level event =
        rendered calendar pattern level event := by
      rw [format_eq, rendered]
      refine List.flatMap_congr fun token hmem => ?_
      rw [written_of_shown (known_of_accepted h token hmem) (hshown token hmem)]
    exact ⟨hformat, by rw [formatTo_eq_format, hformat]⟩

/-- An event with a short message. -/
def greeting : LogEvent where
  file := "main.cc"
  line := 7
  elapse := 0
  threadId := 1
  fiberId := 0
  time := 0
  threadName := "main"
  content := "hi"
  logger := { name := "root" }

/-- A message with its date. -/
theorem format_renders_message :
    (LogFormatter.init "%m%d").format (fun _ _ => "0:00") "" .info greeting =
      ['h', 'i', '0', ':', '0', '0'] := by
  have htokens : tokens "%m%d" = [.directive "m" "", .directive "d" ""] := by decide
  have hformat := format_renders_iff (fun _ _ => "0:00") "%m%d" (by decide) .info greeting []
  refine ((hformat.mpr ⟨fun str hmem => ?_, fun format _ => ?_⟩) "").1
  · simp [htokens] at hmem
  · exact (by decide : "0:00".utf8ByteSize < 64)

/-- The brackets are lost, and other text in their place changes nothing. -/
theorem format_loses_text :
    (LogFormatter.init "[%m]").error = false ∧
      rendered (fun _ _ => "") "[%m]" .info greeting = ['[', 'h', 'i', ']'] ∧
      (LogFormatter.init "[%m]").format (fun _ _ => "") "" .info greeting = ['h', 'i'] ∧
      (LogFormatter.init "<%m>").format (fun _ _ => "") "" .info greeting = ['h', 'i'] := by
  refine ⟨?_, ?_, ?_, ?_⟩ <;> decide

end Xupeng.Log
