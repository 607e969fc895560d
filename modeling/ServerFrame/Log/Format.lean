import Mathlib.Data.List.Basic

/-!
# Log events and how they are formatted

A formatter is the list of items that its pattern was parsed into. What `localtime_r` and
`strftime` make of a format and a time is a parameter.
-/
namespace ServerFrame.Log

inductive LogLevel where
  | unknown | debug | info | warn | error | fatal
  deriving DecidableEq, Repr

namespace LogLevel

def value : LogLevel → Nat
  | .unknown => 0
  | .debug => 1
  | .info => 2
  | .warn => 3
  | .error => 4
  | .fatal => 5

instance : LE LogLevel := ⟨fun a b => a.value ≤ b.value⟩

instance decidableLe (a b : LogLevel) : Decidable (a ≤ b) :=
  inferInstanceAs (Decidable (a.value ≤ b.value))

def toString : LogLevel → String
  | .debug => "DEBUG"
  | .info => "INFO"
  | .warn => "WARN"
  | .error => "ERROR"
  | .fatal => "FATAL"
  | .unknown => "UNKNOWN"

end LogLevel

/-- `logger` is the name of the logger. -/
structure LogEvent where
  file : String
  line : Int32
  elapse : UInt32
  threadId : UInt32
  fiberId : UInt32
  time : UInt64
  threadName : String
  content : String
  logger : String
  deriving DecidableEq, Repr

inductive FormatItem where
  | message
  | level
  | elapse
  | name
  | threadId
  | newLine
  | dateTime (format : String)
  | filename
  | line
  | tab
  | fiberId
  | threadName
  | text (string : String)
  deriving DecidableEq, Repr

/-- `FormatItem::Format`: what the item writes. -/
def FormatItem.format (strftime : String → UInt64 → String) (level : LogLevel) (event : LogEvent) :
    FormatItem → String
  | .message => event.content
  | .level => level.toString
  | .elapse => toString event.elapse
  | .name => event.logger
  | .threadId => toString event.threadId
  | .newLine => "\n"
  | .dateTime format =>
    strftime (if format = "" then "%Y-%m-%d %H:%M:%S" else format) event.time
  | .filename => event.file
  | .line => toString event.line
  | .tab => "\t"
  | .fiberId => toString event.fiberId
  | .threadName => event.threadName
  | .text string => string

structure LogFormatter where
  items : List FormatItem
  deriving DecidableEq, Repr

/-- `LogFormatter::Format` into a string. -/
def LogFormatter.format (strftime : String → UInt64 → String) (formatter : LogFormatter)
    (level : LogLevel) (event : LogEvent) : String :=
  String.join (formatter.items.map fun item => item.format strftime level event)

end ServerFrame.Log
