import Xupeng.Models.Log.Native.Logger

/-!
# Formatting of events

Each item writes its part of an event to a stream. The two overloads of `LogFormatter::format`
have the same loop over the items, one on a stream of its own and one on a stream that is
given. No item reads the logger that is passed beside the event.

A date is written to a buffer of 64 bytes first.
-/

namespace Xupeng.Log

/-- `LogEvent`, with what `m_ss` holds as its content. -/
structure LogEvent where
  file : String
  line : Int32
  elapse : UInt32
  threadId : UInt32
  fiberId : UInt32
  time : UInt64
  threadName : String
  content : String
  logger : Logger
  deriving DecidableEq, Repr

/-- The text that `localtime_r` and `strftime` make of a format and a time. -/
abbrev Calendar := String → UInt64 → String

/-- The contents of the buffer after `strftime`: the text, if it fits with its terminator, and
otherwise something unspecified. -/
def strftime (calendar : Calendar) (buf format : String) (time : UInt64) : String :=
  if (calendar format time).utf8ByteSize < 64 then calendar format time else buf

/-- What an item writes. -/
def FormatItem.written (calendar : Calendar) (buf : String) (level : Level) (event : LogEvent) :
    FormatItem → String
  | message => event.content
  | .level => level.toString
  | elapse => toString event.elapse
  | name => event.logger.name
  | threadId => toString event.threadId
  | newLine => "\n"
  | dateTime format => strftime calendar buf format event.time
  | fileName => event.file
  | line => toString event.line
  | tab => "\t"
  | fiberId => toString event.fiberId
  | threadName => event.threadName
  | string text => text

/-- `FormatItem::format` -/
def FormatItem.format (calendar : Calendar) (buf : String) (level : Level) (event : LogEvent)
    (os : List Char) (item : FormatItem) : List Char :=
  os ++ (item.written calendar buf level event).toList

/-- `LogFormatter::format` to a stream -/
def LogFormatter.formatTo (calendar : Calendar) (buf : String) (f : LogFormatter)
    (ofs : List Char) (level : Level) (event : LogEvent) : List Char :=
  f.items.foldl (FormatItem.format calendar buf level event) ofs

/-- `LogFormatter::format` to a string -/
def LogFormatter.format (calendar : Calendar) (buf : String) (f : LogFormatter) (level : Level)
    (event : LogEvent) : List Char :=
  f.items.foldl (FormatItem.format calendar buf level event) []

end Xupeng.Log
