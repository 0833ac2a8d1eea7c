/-!
# Names

Predicates, actions, types, objects and variables are named by text, and names are ordered by
code point. One type exists in every task.
-/

namespace StripsReach

/-- What a predicate, action, type, object or variable is called. -/
abbrev Name := String

/-- The universal type: every type without a supertype of its own is placed under it. -/
def objectType : Name := "object"

end StripsReach
