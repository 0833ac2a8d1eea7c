import StripsReach.TypedList

/-!
# Predicate schemas
-/

namespace StripsReach

/-- A predicate with its typed parameters. -/
structure PredicateSchema where
  name : Name
  parameters : TypedList
  deriving DecidableEq, Repr

namespace PredicateSchema

def arity (p : PredicateSchema) : Nat := p.parameters.length

def ofSExpr : SExpr → Except Fault PredicateSchema
  | .word _ => .error (.expectedList "predicates")
  | .list (.word name :: rest) => .mk name <$> TypedList.ofItems "predicates" rest
  | .list _ => .error (.expectedName "predicates")

end PredicateSchema

end StripsReach
