import StripsReach.Setting

/-!
# Tables of TOML

A document fills nested tables by headers, by dotted keys and by inline tables. No key is given
twice, and a table that has been filled in one way is not filled in another: dotted keys only
add to tables that dotted keys have made, and a header opens a table once. The path of a header
leads through the last table of an array of tables.
-/

namespace StripsReach.Toml

/-- How a table came to be. -/
inductive Origin where
  /-- By a header of its own. -/
  | header
  /-- By the header of a table inside it. -/
  | implied
  /-- By a dotted key. -/
  | dotted
  deriving DecidableEq, Repr

/-- What stands under a key. -/
inductive Node where
  | value (setting : Setting)
  | table (origin : Origin) (fields : List (String × Node))
  | tables (elements : List (List (String × Node)))

abbrev Fields := List (String × Node)

namespace Fields

/-- The fields with `node` under `key`, which is there already. -/
def replace (fields : Fields) (key : String) (node : Node) : Fields :=
  fields.map fun field => if field.1 = key then (key, node) else field

/-- The fields after those of the table at the end of `path` have been changed. `enter` tells
which tables the path may lead through, and `missing` what a table is that the path makes. -/
def update (enter : Origin → Bool) (missing : Origin) (change : Origin → Fields → Option Fields) :
    (path : List String) → (origin : Origin) → (fields : Fields) → Option Fields
  | [], origin, fields => change origin fields
  | key :: path, _, fields =>
    match fields.lookup key with
    | none => do
      let inner ← update enter missing change path missing []
      some (fields ++ [(key, .table missing inner)])
    | some (.value _) => none
    | some (.table origin inner) =>
      if enter origin then do
        let inner ← update enter missing change path origin inner
        some (fields.replace key (.table origin inner))
      else none
    | some (.tables elements) =>
      match elements.reverse with
      | [] => none
      | last :: others => do
        let last ← update enter missing change path .header last
        some (fields.replace key (.tables (others.reverse ++ [last])))

def add (fields : Fields) (key : String) (node : Node) : Option Fields :=
  if (fields.lookup key).isSome then none else some (fields ++ [(key, node)])

/-- The fields with a value under a dotted key, where `path` is all of the key but its last part.
-/
def addValue (fields : Fields) (path : List String) (key : String) (value : Setting) :
    Option Fields :=
  let change (origin : Origin) (fields : Fields) : Option Fields :=
    if path.isEmpty || origin = .dotted then fields.add key (.value value) else none
  update (· ≠ .header) .dotted change path .header fields

def openTable (fields : Fields) (path : List String) (key : String) : Option Fields :=
  let change (_ : Origin) (fields : Fields) : Option Fields :=
    match fields.lookup key with
    | none => some (fields ++ [(key, .table .header [])])
    | some (.table .implied inner) => some (fields.replace key (.table .header inner))
    | some _ => none
  update (fun _ => true) .implied change path .header fields

def openElement (fields : Fields) (path : List String) (key : String) : Option Fields :=
  let change (_ : Origin) (fields : Fields) : Option Fields :=
    match fields.lookup key with
    | none => some (fields ++ [(key, .tables [[]])])
    | some (.tables elements) => some (fields.replace key (.tables (elements ++ [[]])))
    | some _ => none
  update (fun _ => true) .implied change path .header fields

/-- The fields with a value under a dotted key in the table that a header has opened. -/
def addUnder (fields : Fields) (opened path : List String) (key : String) (value : Setting) :
    Option Fields :=
  update (fun _ => true) .implied (fun _ fields => fields.addValue path key value) opened .header
    fields

end Fields

mutual

def Node.toSetting : Node → Setting
  | .value setting => setting
  | .table _ fields => .table (settings fields)
  | .tables elements => .list (tableSettings elements)

def settings : List (String × Node) → List (String × Setting)
  | [] => []
  | (key, node) :: fields => (key, node.toSetting) :: settings fields

def tableSettings : List (List (String × Node)) → List Setting
  | [] => []
  | fields :: elements => .table (settings fields) :: tableSettings elements

end

end StripsReach.Toml
