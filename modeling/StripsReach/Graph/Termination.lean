import StripsReach.Event

/-!
# How the growth of a graph ends

A graph grows level by level until a level enables no action, or enables some but nothing new
comes of them.
-/

namespace StripsReach

/-- Why a graph stops growing. -/
inductive Stop where
  /-- The enabled actions bring about nothing new. -/
  | fixpoint
  /-- No action is enabled. -/
  | deadEnd
  deriving DecidableEq, Repr

namespace Stop

def words : Stop → String
  | fixpoint => "fixpoint"
  | deadEnd => "dead end"

def tag : Stop → String
  | fixpoint => "fixpoint"
  | deadEnd => "dead-end"

end Stop

/-- Why a graph stops growing, and its last level. -/
structure Termination where
  kind : Stop
  level : Nat
  deriving DecidableEq, Repr

end StripsReach
