/-!
# Settings

The values that a configuration is written in, whatever its notation: texts, whole numbers,
lists, and tables of named values. Values of other kinds are kept apart from these, but no
setting takes them.
-/

namespace StripsReach

/-- A value of a configuration. -/
inductive Setting where
  | text (s : String)
  | integer (n : Int)
  /-- A fraction, a truth value, a date or nothing. -/
  | other
  | list (items : List Setting)
  | table (fields : List (String × Setting))
  deriving Inhabited, Repr

end StripsReach
