import StripsReach.Event
import StripsReach.Report.Output

/-!
# The command line

A call names a domain file, a problem file and last a report. Options stand anywhere before the
report. An option that takes a value takes it from the rest of its word, with or without an
equals sign, or from the next word, which may not look like an option. No option is given twice,
and no path is empty. Whatever breaks these rules, and any wish for help, is not a call.
-/

namespace StripsReach

/-- What a call of the program asks for. -/
structure Invocation where
  report : ReportKind
  domain : String
  problem : String
  config : Option String := none
  outputDir : String := "."
  format : ReportFormat := .text
  verbosity : Verbosity := .normal
  colour : Bool := false
  deriving DecidableEq, Repr

namespace CommandLine

/-- The options that take a value. -/
inductive Key where
  | config
  | outputDir
  | format
  | verbosity
  deriving DecidableEq, Repr

namespace Key

def long : Key → String
  | config => "config"
  | outputDir => "output-dir"
  | format => "format"
  | verbosity => "verbosity"

/-- The short name of the option, if it has one. -/
def short? : Key → Option Char
  | config => none
  | outputDir => some 'o'
  | format => some 'f'
  | verbosity => some 'v'

def all : List Key := [config, outputDir, format, verbosity]

def ofLong? (name : String) : Option Key := all.find? fun key => key.long = name

def ofShort? (c : Char) : Option Key := all.find? fun key => key.short? = some c

end Key

def colourLong : String := "colour"

def colourShort : Char := 'c'

/-- What the words read so far ask for. -/
structure Progress where
  paths : List String := []
  config : Option String := none
  outputDir : Option String := none
  format : Option ReportFormat := none
  verbosity : Option Verbosity := none
  colour : Bool := false

namespace Progress

/-- A value that was not given before. -/
def once {α : Type} (before now : Option α) : Option α := if before.isSome then none else now

/-- A path, which is not empty. -/
def path? (s : String) : Option String := if s.isEmpty then none else some s

/-- One more path. There are no more than two. -/
def addPath (p : Progress) (s : String) : Option Progress := do
  let path ← path? s
  if p.paths.length < 2 then some { p with paths := p.paths ++ [path] } else none

def setValue (p : Progress) (key : Key) (value : String) : Option Progress := do
  match key with
  | .config => some { p with config := some (← once p.config (path? value)) }
  | .outputDir => some { p with outputDir := some (← once p.outputDir (path? value)) }
  | .format => some { p with format := some (← once p.format (ReportFormat.ofWord? value)) }
  | .verbosity =>
    some { p with verbosity := some (← once p.verbosity (Verbosity.ofWord? false value)) }

def setColour (p : Progress) : Option Progress :=
  if p.colour then none else some { p with colour := true }

/-- The call, once the report is known. -/
def invocation? (p : Progress) (report : ReportKind) : Option Invocation :=
  match p.paths with
  | [domain, problem] =>
    some
      { report, domain, problem
        config := p.config
        outputDir := p.outputDir.getD "."
        format := p.format.getD .text
        verbosity := p.verbosity.getD .normal
        colour := p.colour }
  | _ => none

end Progress

/-- What has been read, and the option that still waits for its value. -/
abbrev Step := Progress × Option Key

/-- A word of short names after its hyphen. The first of them that takes a value takes all that
follows. -/
def shorts (p : Progress) : List Char → Option Step
  | [] => some (p, none)
  | c :: rest =>
    if c = colourShort then do
      let p ← p.setColour
      shorts p rest
    else do
      let key ← Key.ofShort? c
      match rest with
      | [] => some (p, some key)
      | '=' :: value => return (← p.setValue key (String.ofList value), none)
      | value => return (← p.setValue key (String.ofList value), none)

def long (p : Progress) (word : List Char) : Option Step := do
  let name := String.ofList (word.takeWhile (· ≠ '='))
  match word.dropWhile (· ≠ '=') with
  | [] =>
    if name = colourLong then return (← p.setColour, none)
    else return (p, some (← Key.ofLong? name))
  | _ :: value => return (← p.setValue (← Key.ofLong? name) (String.ofList value), none)

/-- A word that is not the name of a report. -/
def word (p : Progress) (s : String) : Option Step :=
  match s.toList with
  | '-' :: '-' :: rest => long p rest
  | '-' :: c :: rest => shorts p (c :: rest)
  | _ => return (← p.addPath s, none)

def isValue (s : String) : Bool := s = "-" || !s.startsWith "-"

/-- The word that asks for help in place of a report. -/
def helpWord : String := "help"

def parseAfter (p : Progress) : List String → Option Invocation
  | [] => none
  | s :: rest =>
    match ReportKind.ofWord? s with
    | some report => if rest = [] || rest = ["--"] then p.invocation? report else none
    | none =>
      if s = helpWord then none
      else
        match word p s with
        | none => none
        | some (p, none) => parseAfter p rest
        | some (p, some key) =>
          match rest with
          | [] => none
          | value :: rest =>
            if isValue value then
              match p.setValue key value with
              | some p => parseAfter p rest
              | none => none
            else none

def parse? (words : List String) : Option Invocation := parseAfter {} words

def usage : String :=
  "Usage: [-o|--output-dir DIR] [-f|--format text|json] [-v|--verbosity LEVEL] [-c|--colour]" ++
    " [--config FILE] DOMAIN PROBLEM graphplan|relaxation"

end CommandLine

end StripsReach
