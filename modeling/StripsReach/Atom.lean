import StripsReach.Name

/-!
# Atoms and facts

An atom is a predicate applied to arguments. A fact is an atom together with a polarity: that it
holds, or that an action has made it false. Atoms are ordered by predicate, then by arguments, a
shorter list of arguments before a longer one that extends it. Positive facts come before
negative ones. Both orders are total, and only equal things tie.
-/

namespace StripsReach

/-- A predicate applied to arguments: variables and objects in a schema, objects in a state. -/
structure Atom where
  predicate : Name
  arguments : List Name
  deriving DecidableEq, Repr

namespace Atom

/-- By predicate, then by arguments. -/
instance : Ord Atom where
  compare := compareLex (compareOn Atom.predicate) (compareOn Atom.arguments)

instance : Std.TransOrd Atom :=
  inferInstanceAs
    (Std.TransCmp (compareLex (compareOn Atom.predicate) (compareOn Atom.arguments)))

instance : Std.LawfulEqOrd Atom where
  eq_of_compare {a b} h := by
    have h : (compareLex (compareOn Atom.predicate) (compareOn Atom.arguments)) a b = .eq := h
    simp only [compareLex_eq_eq, compareOn, Std.LawfulEqCmp.compare_eq_iff_eq] at h
    cases a; cases b; simp_all

/-- A name followed by names, in parentheses. -/
def listing (name : Name) (names : List Name) : String :=
  "(" ++ " ".intercalate (name :: names) ++ ")"

def text (a : Atom) : String := listing a.predicate a.arguments

/-- The atom with every argument that is bound replaced by its value. All replacements are made
at once, and of two bindings of a variable the first counts. -/
def substitute (bindings : List (Name × Name)) (a : Atom) : Atom :=
  { a with arguments := a.arguments.map fun x => (bindings.lookup x).getD x }

end Atom

/-- Whether a fact says that its atom holds or that it has been made false. -/
inductive Polarity where
  | positive
  | negative
  deriving DecidableEq, Repr

namespace Polarity

def opposite : Polarity → Polarity
  | positive => negative
  | negative => positive

def word : Polarity → String
  | positive => "positive"
  | negative => "negative"

/-- Zero for positive, one for negative. -/
def rank : Polarity → Nat
  | positive => 0
  | negative => 1

end Polarity

/-- An atom that holds, or the record that it was deleted. -/
structure Fact where
  polarity : Polarity
  atom : Atom
  deriving DecidableEq, Repr

namespace Fact

/-- Positive facts first, then by atom. -/
instance : Ord Fact where
  compare := compareLex (compareOn fun f : Fact => f.polarity.rank) (compareOn Fact.atom)

instance : Std.TransOrd Fact :=
  inferInstanceAs
    (Std.TransCmp (compareLex (compareOn fun f : Fact => f.polarity.rank) (compareOn Fact.atom)))

instance : Std.LawfulEqOrd Fact where
  eq_of_compare {f g} h := by
    have h : (compareLex (compareOn fun f : Fact => f.polarity.rank) (compareOn Fact.atom)) f g
        = .eq := h
    simp only [compareLex_eq_eq, compareOn, Std.LawfulEqCmp.compare_eq_iff_eq] at h
    obtain ⟨p, a⟩ := f
    obtain ⟨q, b⟩ := g
    cases p <;> cases q <;> simp_all [Polarity.rank]

def holding (a : Atom) : Fact := ⟨.positive, a⟩

def deleted (a : Atom) : Fact := ⟨.negative, a⟩

def negated (f : Fact) : Fact := { f with polarity := f.polarity.opposite }

/-- The atom's text, negated if the fact is. -/
def text (f : Fact) : String :=
  match f.polarity with
  | .positive => f.atom.text
  | .negative => "(not " ++ f.atom.text ++ ")"

end Fact

end StripsReach
