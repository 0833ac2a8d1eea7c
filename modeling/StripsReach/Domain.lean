import StripsReach.SExpr.Reader
import StripsReach.TypeHierarchy
import StripsReach.Requirement
import StripsReach.Schema.Predicate
import StripsReach.Schema.Action

/-!
# Domains

A domain is written as a list of sections after a common head. Each section is a list that
starts with its keyword. The sections are read in order, so the first fault in the text is the
one reported. Predicates and actions may be spread over several sections but have names of their
own; of the other kinds of section the last one counts. Sections with another keyword are passed
over with a warning.
-/

namespace StripsReach

/-- The types, predicates and actions that problems are posed over. -/
structure Domain where
  name : Name := "unknown"
  requirements : List Requirement := []
  types : TypeHierarchy := .root
  predicates : List PredicateSchema := []
  actions : List ActionSchema := []
  deriving DecidableEq, Repr

namespace Domain

def predicate? (d : Domain) (name : Name) : Option PredicateSchema :=
  d.predicates.find? fun p => p.name = name

def action? (d : Domain) (name : Name) : Option ActionSchema :=
  d.actions.find? fun a => a.name = name

/-- The kinds of section. -/
inductive Section where
  | name
  | requirements
  | types
  | predicates
  | action
  deriving DecidableEq, Repr

namespace Section

def keyword : Section → Name
  | name => "domain"
  | requirements => ":requirements"
  | types => ":types"
  | predicates => ":predicates"
  | action => ":action"

def ofKeyword? (keyword : Name) : Option Section :=
  [name, requirements, types, predicates, action].find? fun kind => kind.keyword = keyword

end Section

def addPredicate (d : Domain) (e : SExpr) : Except Fault Domain := do
  let predicate ← PredicateSchema.ofSExpr e
  if (d.predicate? predicate.name).isSome then
    .error (.redefinition .predicate predicate.name)
  else .ok { d with predicates := d.predicates ++ [predicate] }

def addAction (d : Domain) (items : List SExpr) : Except Fault Domain := do
  let action ← ActionSchema.ofItems items
  if (d.action? action.name).isSome then .error (.redefinition .action action.name)
  else .ok { d with actions := d.actions ++ [action] }

def addSection (d : Domain) (kind : Section) (body : List SExpr) : Except Fault Domain :=
  match kind with
  | .name =>
    match body with
    | .word name :: _ => .ok { d with name }
    | _ => .error (.expectedName "domain")
  | .requirements => do
    let requirements ← Requirement.ofItems body
    .ok { d with requirements }
  | .types => do
    let types ← TypeHierarchy.ofItems body
    .ok { d with types }
  | .predicates => body.foldlM addPredicate d
  | .action => d.addAction body

def add (d : Domain) : SExpr → Except Fault Domain
  | .list (.word keyword :: body) =>
    match Section.ofKeyword? keyword with
    | some kind => d.addSection kind body
    | none => .ok d
  | _ => .error (.expectedList "domain")

/-- The sections of a definition, which come after its head. -/
def sections? : SExpr → Option (List SExpr)
  | .list (head :: sections) => if head.isWord "define" then some sections else none
  | _ => none

def ofSExpr (e : SExpr) : Except Fault Domain :=
  match sections? e with
  | some sections => sections.foldlM add {}
  | none => .error (.notADefinition .domain)

def sectionWarnings : SExpr → List Event
  | .list (.word keyword :: body) =>
    match Section.ofKeyword? keyword with
    | some .action => ActionSchema.warnings body
    | some _ => []
    | none => [.notRecognised keyword "domain" []]
  | _ => []

def warnings (e : SExpr) : List Event := ((sections? e).getD []).flatMap sectionWarnings

/-- The domain that a text defines, with the warnings about it. -/
def ofText (text : String) : Except Fault (Domain × List Event) := do
  let e ← SExpr.read text
  let domain ← ofSExpr e
  .ok (domain, warnings e)

end Domain

end StripsReach
