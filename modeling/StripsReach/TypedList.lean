import StripsReach.SExpr
import StripsReach.Fault

/-!
# Typed lists

Parameters and objects are declared in runs: names, then a hyphen and the type of all of them.
The names at the end that no hyphen follows have the universal type.
-/

namespace StripsReach

/-- A name with its declared type. -/
structure Typed where
  value : Name
  type : Name
  deriving DecidableEq, Repr

/-- Names with their types, in the order of their declaration. -/
abbrev TypedList := List Typed

namespace TypedList

/-- The declared names, without their types. -/
def values (list : TypedList) : List Name := list.map Typed.value

/-- The names in `pending`, all of one type. -/
def ofRun (pending : List Name) (type : Name) : TypedList :=
  pending.map fun value => ⟨value, type⟩

/-- The typed list that `items` declare after the names in `pending`, which still wait for their
type. -/
def ofItemsAfter (context : String) (pending : List Name) :
    List SExpr → Except Fault TypedList
  | [] => .ok (ofRun pending objectType)
  | .list _ :: _ => .error (.expectedName context)
  | .word name :: rest =>
    if name = "-" then
      if pending.isEmpty then .error (.unexpectedHyphen context)
      else
        match rest with
        | .word type :: rest => (ofRun pending type ++ ·) <$> ofItemsAfter context [] rest
        | _ => .error (.missingType context)
    else ofItemsAfter context (pending ++ [name]) rest

def ofItems (context : String) (items : List SExpr) : Except Fault TypedList :=
  ofItemsAfter context [] items

end TypedList

end StripsReach
