import StripsReach.Pruning
import StripsReach.Catalog
import StripsReach.Text.Lowercase
import StripsReach.Toml.Document

/-!
# Configurations

A configuration gives the pruning rules and the flattening rules of a task. Without pruning
rules of its own the standard ones count; an empty list of them prunes nothing. Names are taken
in lower case, as everywhere. Other keys are refused in the configuration itself and passed over
inside a rule. A rule may also be written as the list of its values.
-/

namespace StripsReach

/-- The rules for pruning and for catalogs. -/
structure Config where
  rules : List PruningRule := PruningRule.standard
  flattened : List FlattenedSubtype := []
  deriving DecidableEq, Repr

namespace Config

/-- How lists of a fixed length are read: with the further items that they may have passed over,
or refused. -/
inductive Excess where
  | allowed
  | refused
  deriving DecidableEq, Repr

def Excess.items? (excess : Excess) (count : Nat) (items : List Setting) : Option (List Setting) :=
  match excess with
  | allowed => some (items.take count)
  | refused => if items.length ≤ count then some items else none

/-- The values of the named fields, where a list gives them in the same order. -/
def fields? (excess : Excess) (names : List String) : Setting → Option (List (Option Setting))
  | .table fields => some (names.map fun name => fields.lookup name)
  | .list items => do
    let items ← excess.items? names.length items
    some ((List.range names.length).map fun i => items[i]?)
  | _ => none

/-- A name, in lower case. -/
def name? : Setting → Option Name
  | .text s => some (Text.lowercase s)
  | _ => none

def list? : Setting → Option (List Setting)
  | .list items => some items
  | _ => none

/-- The largest position, plus one: the least number of more than 64 bits. -/
def positionBound : Nat := 18446744073709551616

/-- A position of a parameter, from zero. -/
def position? : Setting → Option Nat
  | .integer n => if 0 ≤ n ∧ n < positionBound then some n.toNat else none
  | _ => none

def rule? (excess : Excess) (s : Setting) : Option PruningRule := do
  match ← fields? excess ["action", "positions"] s with
  | [some action, some positions] => do
    let action ← name? action
    let items ← list? positions
    match ← excess.items? 2 items with
    | [first, second] => some ⟨action, ← position? first, ← position? second⟩
    | _ => none
  | _ => none

def flattened? (excess : Excess) (s : Setting) : Option FlattenedSubtype := do
  match ← fields? excess ["type", "subtype"] s with
  | [some type, some subtype] => some ⟨← name? type, ← name? subtype⟩
  | _ => none

def keys : List String := ["pruning", "flattened-subtypes"]

def knownKeys : Setting → Bool
  | .table fields => fields.all fun field => keys.contains field.1
  | _ => true

def ofSetting? (excess : Excess) (s : Setting) : Option Config := do
  if knownKeys s then
    match ← fields? excess keys s with
    | [pruning, flattened] => do
      let rules ← match pruning with
        | none => some PruningRule.standard
        | some rules => (← list? rules).mapM (rule? excess)
      let flattened ← match flattened with
        | none => some []
        | some rules => (← list? rules).mapM (flattened? excess)
      some { rules, flattened }
    | _ => none
  else none

/-- The configuration that a TOML document writes, where a list of a fixed length may have more
items. -/
def ofToml? (text : String) : Option Config := Toml.parse? text >>= ofSetting? .allowed

end Config

end StripsReach
