import StripsReach.Name
import StripsReach.Text.Position

/-!
# Why a task is refused

Every reason for which a domain, a problem, a configuration or a file is refused, and the one
text that reports it. Nothing is built from a refused input.
-/

namespace StripsReach

/-- The two files that a task is read from. -/
inductive Document where
  | domain
  | problem
  deriving DecidableEq, Repr

/-- The definitions of a domain that carry a name of their own. -/
inductive Definition where
  | predicate
  | action
  deriving DecidableEq, Repr

/-- Why a file cannot be read or written. -/
inductive FileFault where
  | notFound
  | alreadyThere
  | notDirectory
  | isDirectory
  /-- The path, or a name on the way, has more bytes than paths or names may have. -/
  | nameTooLong
  /-- The path has a character that no path has. -/
  | badPath
  | notText
  | other (text : String)
  deriving DecidableEq, Repr

/-- A reason for which an input is refused. A `context` names the part of the input. -/
inductive Fault where
  /-- A closing parenthesis that closes nothing. -/
  | missingOpen (place : Text.Position)
  /-- An opening parenthesis that is never closed. -/
  | missingClose (place : Text.Position)
  /-- A text of no or several expressions. -/
  | notOneExpression (count : Nat)
  | notADefinition (document : Document)
  | expectedList (context : String)
  | expectedName (context : String)
  /-- A hyphen with no name before it to give a type to. -/
  | unexpectedHyphen (context : String)
  /-- A hyphen with no type after it. -/
  | missingType (context : String)
  | missingActionName
  | malformedParameters (action : Name)
  | unsupportedRequirement (key : Name)
  | redefinition (definition : Definition) (name : Name)
  | domainMismatch (expected found : Name)
  /-- A negation of none or several literals. -/
  | negationArity (context : String) (arity : Nat)
  | undeclaredType (parameter : Name) (definition : Definition) (owner type : Name)
  | cyclicTypes (type : Name)
  /-- A schema with more assignments than a machine word counts. -/
  | uncountable (action : Name)
  | file (path : String) (cause : FileFault)
  | invalidConfig (path : String)
  deriving DecidableEq, Repr

namespace Document

def word : Document → String
  | domain => "domain"
  | problem => "problem"

end Document

namespace Definition

def word : Definition → String
  | predicate => "predicate"
  | action => "action"

end Definition

namespace FileFault

/-- The text of the fault, with the number that operating systems give it. -/
def message : FileFault → String
  | notFound => "No such file or directory (os error 2)"
  | alreadyThere => "File exists (os error 17)"
  | notDirectory => "Not a directory (os error 20)"
  | isDirectory => "Is a directory (os error 21)"
  | nameTooLong => "File name too long (os error 36)"
  | badPath => "file name contained an unexpected NUL byte"
  | notText => "stream did not contain valid UTF-8"
  | other text => text

end FileFault

namespace Fault

def message : Fault → String
  | missingOpen place =>
    s!"missing open parenthesis at line {place.line}, column {place.column}"
  | missingClose place =>
    "missing close parenthesis for the expression opened at " ++
      s!"line {place.line}, column {place.column}"
  | notOneExpression count =>
    s!"malformed expression: expected exactly one top-level expression, found {count}"
  | notADefinition document => s!"input does not match the {document.word} pattern"
  | expectedList context => s!"expected a list in {context}"
  | expectedName context => s!"expected a name in {context}"
  | unexpectedHyphen context => s!"unexpected hyphen in {context}"
  | missingType context => s!"hyphen without a type in {context}"
  | missingActionName => "action without name definition"
  | malformedParameters action => s!"malformed parameter list in action {action}"
  | unsupportedRequirement key => s!"requirement {key} not supported"
  | redefinition definition name => s!"{definition.word} {name} redefined"
  | domainMismatch expected found =>
    s!"problem refers to domain {found}, but the parsed domain is {expected}"
  | negationArity context arity =>
    s!"unexpected not in {context}: negation takes exactly one literal, found {arity}"
  | undeclaredType parameter definition owner type =>
    s!"parameter {parameter} of {definition.word} {owner} refers to undeclared type {type}"
  | cyclicTypes type => s!"type hierarchy contains a cycle through {type}"
  | uncountable action => s!"action {action} has too many assignments to count"
  | file path cause => s!"failed to read {path}: {cause.message}"
  | invalidConfig path => s!"invalid config {path}"

end Fault

end StripsReach
