import StripsReach.Atom
import StripsReach.SExpr
import StripsReach.Fault

/-!
# Conjunctions of literals

Preconditions, effects and goals are conjunctions of atoms and negated atoms, and the two are
kept apart. Written, a conjunction is a list headed by the word for it, a single literal or the
empty list.
-/

namespace StripsReach

/-- The atom that an expression writes: a list of words, the predicate first. -/
def Atom.ofSExpr (context : String) : SExpr → Except Fault Atom
  | .word _ => .error (.expectedList context)
  | .list [] => .error (.expectedName context)
  | .list (head :: rest) =>
    match head.word?, rest.mapM SExpr.word? with
    | some predicate, some arguments => .ok ⟨predicate, arguments⟩
    | _, _ => .error (.expectedName context)

def Fact.ofSExpr (context : String) : SExpr → Except Fault Fact
  | .list (head :: rest) =>
    if head.isWord "not" then
      match rest with
      | [inner] => Fact.deleted <$> Atom.ofSExpr context inner
      | _ => .error (.negationArity context rest.length)
    else Fact.holding <$> Atom.ofSExpr context (.list (head :: rest))
  | e => Fact.holding <$> Atom.ofSExpr context e

/-- The atoms that are asserted and the atoms that are negated, each in the order of writing. -/
structure Conjunction where
  positive : List Atom := []
  negative : List Atom := []
  deriving DecidableEq, Repr

namespace Conjunction

def ofFacts (facts : List Fact) : Conjunction where
  positive := (facts.filter (·.polarity = .positive)).map Fact.atom
  negative := (facts.filter (·.polarity = .negative)).map Fact.atom

/-- The literals that an expression joins: the items after the word for a conjunction, or the
expression itself. The empty list joins none. -/
def literals (items : List SExpr) : List SExpr :=
  match items with
  | [] => []
  | head :: rest => if head.isWord "and" then rest else [.list items]

def ofSExpr (context : String) : SExpr → Except Fault Conjunction
  | .word _ => .error (.expectedList context)
  | .list items => ofFacts <$> (literals items).mapM (Fact.ofSExpr context)

def substitute (bindings : List (Name × Name)) (c : Conjunction) : Conjunction where
  positive := c.positive.map (·.substitute bindings)
  negative := c.negative.map (·.substitute bindings)

end Conjunction

end StripsReach
