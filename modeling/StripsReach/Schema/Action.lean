import StripsReach.Conjunction
import StripsReach.TypedList
import StripsReach.Event

/-!
# Action schemas

An action is defined by a name and three optional parts, each a key and what follows it. Of a
part given twice the later counts. What is neither a key nor follows one is passed over with a
warning.
-/

namespace StripsReach

/-- An action with typed parameters. The positive effects are added, the negative ones deleted.
-/
structure ActionSchema where
  name : Name
  parameters : TypedList := []
  precondition : Conjunction := {}
  effect : Conjunction := {}
  deriving DecidableEq, Repr

namespace ActionSchema

/-- The parts of an action's definition. -/
inductive Part where
  | parameters
  | precondition
  | effect
  deriving DecidableEq, Repr

namespace Part

def key : Part → Name
  | parameters => ":parameters"
  | precondition => ":precondition"
  | effect => ":effect"

def ofSExpr? (e : SExpr) : Option Part :=
  [parameters, precondition, effect].find? fun part => e.isWord part.key

end Part

def missingPart (name : Name) : Part → Fault
  | .parameters => .malformedParameters name
  | .precondition => .expectedList s!"{name} preconditions"
  | .effect => .expectedList s!"{name} effects"

def withPart (schema : ActionSchema) (part : Part) (e : SExpr) : Except Fault ActionSchema :=
  match part with
  | .parameters =>
    match e with
    | .word _ => .error (.malformedParameters schema.name)
    | .list items =>
      match TypedList.ofItems s!"{schema.name} parameters" items with
      | .ok parameters => .ok { schema with parameters }
      | .error _ => .error (.malformedParameters schema.name)
  | .precondition => do
    let precondition ← Conjunction.ofSExpr s!"{schema.name} preconditions" e
    .ok { schema with precondition }
  | .effect => do
    let effect ← Conjunction.ofSExpr s!"{schema.name} effects" e
    .ok { schema with effect }

def withParts (schema : ActionSchema) : List SExpr → Except Fault ActionSchema
  | [] => .ok schema
  | e :: rest =>
    match Part.ofSExpr? e with
    | none => withParts schema rest
    | some part =>
      match rest with
      | [] => .error (missingPart schema.name part)
      | value :: rest =>
        match schema.withPart part value with
        | .ok schema => withParts schema rest
        | .error fault => .error fault

def ofItems : List SExpr → Except Fault ActionSchema
  | .word name :: rest => withParts { name } rest
  | _ => .error .missingActionName

/-- The expressions among `items` that are neither the key of a part nor follow one. -/
def strays : List SExpr → List SExpr
  | [] => []
  | e :: rest =>
    match Part.ofSExpr? e with
    | none => e :: strays rest
    | some _ =>
      match rest with
      | [] => []
      | _ :: rest => strays rest

def warnings : List SExpr → List Event
  | .word name :: rest =>
    (strays rest).map fun e => .notRecognised e.text "action" [("action", .text name)]
  | _ => []

end ActionSchema

end StripsReach
