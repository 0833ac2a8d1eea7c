import StripsReach.Domain
import StripsReach.Catalog

/-!
# Problems

A problem of a domain: its objects, the atoms that hold at first, and the goal. It is written
like a domain, in sections that are read in order; of every kind of section the last one counts.
Once all are read, the objects are put into a catalog over the domain's types.
-/

namespace StripsReach

/-- What the sections of a problem say. -/
structure ProblemText where
  name : Name := "unknown"
  objects : TypedList := []
  init : List Atom := []
  goal : Conjunction := {}
  deriving DecidableEq, Repr

/-- A problem of the domain named `domain`, with the objects of every type. -/
structure Problem extends ProblemText where
  domain : Name
  catalog : Catalog
  deriving DecidableEq, Repr

namespace Problem

/-- The kinds of section. -/
inductive Section where
  | name
  | domain
  | requirements
  | objects
  | init
  | goal
  deriving DecidableEq, Repr

namespace Section

def keyword : Section → Name
  | name => "problem"
  | domain => ":domain"
  | requirements => ":requirements"
  | objects => ":objects"
  | init => ":init"
  | goal => ":goal"

def ofKeyword? (keyword : Name) : Option Section :=
  [name, domain, requirements, objects, init, goal].find? fun kind => kind.keyword = keyword

end Section

/-- The last item, which has to be a word. -/
def lastName (context : String) (body : List SExpr) : Except Fault Name :=
  match body.getLast? with
  | some (.word name) => .ok name
  | _ => .error (.expectedName context)

/-- What has been read together with a section of a known kind, of a problem of `domain`. -/
def addSection (domain : Name) (p : ProblemText) (kind : Section) (body : List SExpr) :
    Except Fault ProblemText :=
  match kind with
  | .name => do
    let name ← lastName "problem" body
    .ok { p with name }
  | .domain => do
    let found ← lastName "domain" body
    if found = domain then .ok p else .error (.domainMismatch domain found)
  | .requirements => .ok p
  | .objects => do
    let objects ← TypedList.ofItems "objects" body
    .ok { p with objects }
  | .init => do
    let init ← body.mapM (Atom.ofSExpr "init")
    .ok { p with init }
  | .goal =>
    match body with
    | [] => .error (.expectedList "goals")
    | e :: _ => do
      let goal ← Conjunction.ofSExpr "goals" e
      .ok { p with goal }

def add (domain : Name) (p : ProblemText) : SExpr → Except Fault ProblemText
  | .list (.word keyword :: body) =>
    match Section.ofKeyword? keyword with
    | some kind => addSection domain p kind body
    | none => .ok p
  | _ => .error (.expectedList "problem")

/-- The problem that an expression defines for `domain`, whose objects are put into a catalog
with the given exceptions. -/
def ofSExpr (domain : Domain) (flattened : List FlattenedSubtype) (e : SExpr) :
    Except Fault Problem :=
  match Domain.sections? e with
  | some sections => do
    let text ← sections.foldlM (add domain.name) {}
    let catalog ← Catalog.close domain.types text.objects flattened
    .ok { text with domain := domain.name, catalog }
  | none => .error (.notADefinition .problem)

def sectionEvents : SExpr → List Event
  | .list (.word keyword :: _) =>
    match Section.ofKeyword? keyword with
    | some .requirements =>
      [⟨.debug, "ignoring requirements in problem, the domain declares them", []⟩]
    | some _ => []
    | none => [.notRecognised keyword "problem" []]
  | _ => []

def events (e : SExpr) : List Event := ((Domain.sections? e).getD []).flatMap sectionEvents

/-- The problem that a text defines for `domain`, with what is reported about it. -/
def ofText (domain : Domain) (flattened : List FlattenedSubtype) (text : String) :
    Except Fault (Problem × List Event) := do
  let e ← SExpr.read text
  let problem ← ofSExpr domain flattened e
  .ok (problem, events e)

end Problem

end StripsReach
