/-!
# Events

What is reported while a task is read, grounded and expanded. An event has a level, a message
and named fields. The events of a stage are read off the stage's input and result.
-/

namespace StripsReach

/-- How much an event matters, most first. -/
inductive Level where
  | error
  | warn
  | info
  | debug
  | trace
  deriving DecidableEq, Repr

def Level.word : Level → String
  | error => "ERROR"
  | warn => "WARN"
  | info => "INFO"
  | debug => "DEBUG"
  | trace => "TRACE"

/-- How important the level is, from zero for the most important. -/
def Level.rank : Level → Nat
  | error => 0
  | warn => 1
  | info => 2
  | debug => 3
  | trace => 4

def Level.isWithin (level least : Level) : Bool := level.rank ≤ least.rank

def Level.colourCode : Level → Nat
  | error => 31
  | warn => 33
  | info => 32
  | debug => 34
  | trace => 35

/-- The value of a field: a number or a text. -/
inductive FieldValue where
  | number (n : Nat)
  | text (s : String)
  deriving DecidableEq, Repr

def FieldValue.toText : FieldValue → String
  | number n => toString n
  | text s => s

/-- One report. -/
structure Event where
  level : Level
  message : String
  fields : List (String × FieldValue) := []
  deriving DecidableEq, Repr

namespace Event

def notRecognised (what place : String) (fields : List (String × FieldValue)) : Event :=
  ⟨.warn, s!"{what} is not recognized in {place}", fields⟩

/-- The event on one line, its level perhaps in colour. -/
def line (colour : Bool) (e : Event) : String :=
  let level :=
    if colour then s!"\x1b[{e.level.colourCode}m{e.level.word}\x1b[0m" else e.level.word
  let fields := e.fields.map fun field => s!" {field.1}={field.2.toText}"
  s!"{level} {e.message}" ++ String.join fields

def within (least : Level) (events : List Event) : List Event :=
  events.filter (·.level.isWithin least)

def warnings (events : List Event) : List Event :=
  events.filter (·.level = .warn)

end Event

/-- How much the program reports. -/
inductive Verbosity where
  | silent
  | normal
  | verbose
  | debug
  deriving DecidableEq, Repr

namespace Verbosity

/-- All verbosities, least first. -/
def all : List Verbosity := [silent, normal, verbose, debug]

def word : Verbosity → String
  | silent => "silent"
  | normal => "normal"
  | verbose => "verbose"
  | debug => "debug"

def level : Verbosity → Level
  | silent => .error
  | normal => .info
  | verbose => .debug
  | debug => .trace

/-- The verbosity that `s` asks for; `ignoreCase` lets ASCII capitals stand for small letters. -/
def ofWord? (ignoreCase : Bool) (s : String) : Option Verbosity :=
  all.find? fun v => v.word = if ignoreCase then s.map Char.toLower else s

end Verbosity

end StripsReach
