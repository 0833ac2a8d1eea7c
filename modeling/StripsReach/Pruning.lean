import StripsReach.Schema.Action

/-!
# Pruning rules

A rule names an action and two of its parameters, and rejects the assignments that give both the
same object. A rule whose positions are not both parameters of the action rejects nothing, and
is reported.
-/

namespace StripsReach

/-- Rejects assignments of `action` with the same object at both positions, counted from zero.
-/
structure PruningRule where
  action : Name
  first : Nat
  second : Nat
  deriving DecidableEq, Repr

namespace PruningRule

/-- Driving from a place to itself, and lifting or dropping a crate from or onto itself, are left
out unless a configuration says otherwise. -/
def standard : List PruningRule :=
  ["drive", "lift", "drop"].map fun action => ⟨action, 1, 2⟩

def rejects (rule : PruningRule) (action : Name) (objects : List Name) : Bool :=
  rule.action = action &&
    match objects[rule.first]?, objects[rule.second]? with
    | some a, some b => a = b
    | _, _ => false

def keeps (rules : List PruningRule) (action : Name) (objects : List Name) : Bool :=
  rules.all fun rule => !rule.rejects action objects

/-- Whether the rule names the schema and one of its positions is not a parameter of it. -/
def isOutOfRange (rule : PruningRule) (schema : ActionSchema) : Bool :=
  rule.action = schema.name &&
    (schema.parameters.length ≤ rule.first || schema.parameters.length ≤ rule.second)

/-- The warnings about rules that can never apply to the schema they name. -/
def warnings (rules : List PruningRule) (schema : ActionSchema) : List Event :=
  (rules.filter (·.isOutOfRange schema)).map fun rule =>
    ⟨.warn, s!"pruning positions ({rule.first}, {rule.second}) out of range, rule ignored",
      [("action", .text schema.name), ("arity", .number schema.parameters.length)]⟩

end PruningRule

end StripsReach
