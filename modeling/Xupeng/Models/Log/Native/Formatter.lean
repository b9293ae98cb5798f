import Mathlib.Data.List.Basic

/-!
# Log formatters

`LogFormatter::init` cuts a pattern into texts and directives and makes an item of each. At a
`%` that another `%` follows, one `%` is taken as text and the loop goes on with the second
one, which starts a directive of its own. A directive whose brace is not closed leaves a text
in its place and what follows the `%` is taken once more, as text.
-/

namespace Xupeng.Log

/-- `LogFormatter::FormatItem` -/
inductive FormatItem
  | message
  | level
  | elapse
  | name
  | threadId
  | newLine
  | dateTime (format : String)
  | fileName
  | line
  | tab
  | fiberId
  | threadName
  | string (text : String)
  deriving DecidableEq, Repr

/-- The constructor of `StringFormatItem`, which does not keep its argument. -/
def FormatItem.ofString (_str : String) : FormatItem := string ""

/-- The constructor of `DateTimeFormatItem` -/
def FormatItem.ofFormat (format : String) : FormatItem :=
  dateTime (if format = "" then "%Y-%m-%d %H:%M:%S" else format)

/-- `s_format_items` -/
def formatItems : List (String × (String → FormatItem)) :=
  [("m", fun _ => .message), ("p", fun _ => .level), ("r", fun _ => .elapse),
    ("c", fun _ => .name), ("t", fun _ => .threadId), ("n", fun _ => .newLine),
    ("d", .ofFormat), ("f", fun _ => .fileName), ("l", fun _ => .line), ("T", fun _ => .tab),
    ("F", fun _ => .fiberId), ("N", fun _ => .threadName)]

/-- A part of a pattern: a text, or a directive with what stands in its braces. -/
inductive Token
  | text (str : String)
  | directive (str format : String)
  deriving DecidableEq, Repr

/-- The rest of a directive from behind its brace: its name, what stands in the braces and how
many characters it has. Without a closing brace there is none. -/
def scanFormat (str : List Char) : List Char → List Char → Option (List Char × List Char × Nat)
  | _, [] => none
  | format, c :: rest =>
    if c = '}' then some (str, format, str.length + format.length + 2)
    else scanFormat str (format ++ [c]) rest

/-- A directive from behind its `%`. -/
def scanName : List Char → List Char → Option (List Char × List Char × Nat)
  | str, [] => some (str, [], str.length)
  | str, c :: rest =>
    if c = '{' then scanFormat str [] rest
    else if c.isAlpha ∨ c = '}' then scanName (str ++ [c]) rest
    else some (str, [], str.length)

/-- The loop of `init`: the text since the last token, the tokens, and `m_error`. -/
structure Parsing where
  nstr : List Char := []
  vec : List Token := []
  error : Bool := false
  deriving DecidableEq, Repr

/-- The tokens with the text that is left. -/
def Parsing.flush (p : Parsing) : List Token :=
  if p.nstr = [] then p.vec else p.vec ++ [.text (String.ofList p.nstr)]

/-- The loop over the characters, with the number of those that a directive has used. -/
def parse : List Char → Nat → Parsing → Parsing
  | [], _, p => p
  | _ :: rest, skip + 1, p => parse rest skip p
  | c :: rest, 0, p =>
    if c ≠ '%' then parse rest 0 { p with nstr := p.nstr ++ [c] }
    else if rest.head? = some '%' then parse rest 0 { p with nstr := p.nstr ++ ['%'] }
    else
      match scanName [] rest with
      | some (str, format, used) =>
        parse rest used
          { p with
            nstr := []
            vec := p.flush ++ [.directive (String.ofList str) (String.ofList format)] }
      | none =>
        parse rest 0 { p with vec := p.vec ++ [.text "<<pattern_error>>"], error := true }

/-- `LogFormatter` -/
structure LogFormatter where
  pattern : String
  items : List FormatItem
  error : Bool
  deriving DecidableEq, Repr

/-- Whether a directive is one of `s_format_items`. -/
def Token.known : Token → Bool
  | text _ => true
  | directive str _ => (formatItems.lookup str).isSome

/-- The item of a token. -/
def Token.item : Token → FormatItem
  | text str => .ofString str
  | directive str format =>
    match formatItems.lookup str with
    | some make => make format
    | none => .ofString ("<<error_format %" ++ str ++ ">>")

/-- `LogFormatter::init` -/
def LogFormatter.init (pattern : String) : LogFormatter :=
  let parsed := parse pattern.toList 0 {}
  let vec := parsed.flush
  { pattern
    items := vec.map Token.item
    error := parsed.error || !vec.all Token.known }

@[simp]
theorem LogFormatter.pattern_init (pattern : String) : (init pattern).pattern = pattern := rfl

end Xupeng.Log
