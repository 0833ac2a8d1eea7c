import StripsReach.Toml.Number
import StripsReach.Toml.Table

/-!
# TOML documents

A document is a list of statements, one a line: a value under a key, the header of a table, or
the header of one more table in an array. Values under keys belong to the table opened last. A
document that breaks a rule has no settings at all.
-/

namespace StripsReach.Toml

open Scan

/-- How deep arrays and inline tables may be nested, and how many parts a key may have. -/
def nestingLimit : Nat := 80

/-- The characters of a key without quotes. -/
def isKeyChar (c : Char) : Bool := c.isAlphanum || c = '-' || c = '_'

/-- One part of a key, in quotes or without. -/
def keyPart : Scan String :=
  shortString <|> (String.ofList <$> longest1 isKeyChar)

/-- The further parts of a key, each after a dot. -/
def keyRest (rounds : Nat) : Scan (List String) :=
  match rounds with
  | 0 => pure []
  | rounds + 1 => do
    spaces
    let dot ← optional (exactly ['.'])
    if dot.isSome then do
      spaces
      let part ← keyPart
      (part :: ·) <$> keyRest rounds
    else pure []

/-- A key: all but its last part, and that part. -/
def key : Scan (List String × String) := fun s =>
  let scan : Scan (List String × String) := do
    spaces
    let first ← keyPart
    let rest ← keyRest s.length
    let parts := first :: rest
    if nestingLimit ≤ parts.length then failure
    else pure (parts.dropLast, parts.getLastD first)
  scan.run s

mutual

/-- A value. Every call counts `rounds` down, and arrays and inline tables count `depth` down. -/
def value (rounds depth : Nat) : Scan Setting :=
  match rounds with
  | 0 => failure
  | rounds + 1 => do
    match ← peek with
    | some '[' => do
      if depth = 0 then failure
      exactly ['[']
      gap
      .list <$> arrayRest rounds (depth - 1)
    | some '\x7b' => do
      if depth = 0 then failure
      exactly ['\x7b']
      spaces
      let closed ← optional (exactly ['\x7d'])
      if closed.isSome then pure (.table [])
      else (.table ∘ settings) <$> inlineRest rounds (depth - 1) []
    | _ =>
      (Setting.text <$> string) <|>
      (do dateTime; pure .other) <|>
      (do fraction; pure .other) <|>
      (Setting.integer <$> integer) <|>
      (do exactly "true".toList; pure .other) <|>
      (do exactly "false".toList; pure .other)

/-- The rest of an array, whose items are separated by commas. One may follow the last item. -/
def arrayRest (rounds depth : Nat) : Scan (List Setting) :=
  match rounds with
  | 0 => failure
  | rounds + 1 => do
    let closed ← optional (exactly [']'])
    if closed.isSome then pure []
    else do
      let item ← value rounds depth
      gap
      let comma ← optional (exactly [','])
      if comma.isSome then do
        gap
        (item :: ·) <$> arrayRest rounds depth
      else do
        exactly [']']
        pure [item]

/-- The rest of an inline table that has `fields` so far, whose fields are separated by commas.
None follows the last field. -/
def inlineRest (rounds depth : Nat) (fields : Fields) : Scan Fields :=
  match rounds with
  | 0 => failure
  | rounds + 1 => do
    let (path, name) ← key
    spaces
    exactly ['=']
    spaces
    let item ← value rounds depth
    spaces
    match fields.addValue path name item with
    | none => failure
    | some fields =>
      let comma ← optional (exactly [','])
      if comma.isSome then inlineRest rounds depth fields
      else do
        exactly ['\x7d']
        pure fields

end

/-- What a line of a document says. -/
inductive Statement where
  | field (path : List String) (name : String) (value : Setting)
  | table (path : List String) (name : String)
  | element (path : List String) (name : String)

def statement : Scan Statement := fun s =>
  let header (opening closing : List Char) : Scan (List String × String) := do
    exactly opening
    let name ← key
    spaces
    exactly closing
    endOfLine
    pure name
  let scan : Scan Statement :=
    (do let (path, name) ← header ['[', '['] [']', ']']; pure (.element path name)) <|>
    (do let (path, name) ← header ['['] [']']; pure (.table path name)) <|>
    (do
      let (path, name) ← key
      spaces
      exactly ['=']
      spaces
      let item ← value (2 * s.length + 2) (nestingLimit - 1)
      endOfLine
      pure (.field path name item))
  scan.run s

def statements (rounds : Nat) : Scan (List Statement) :=
  match rounds with
  | 0 => failure
  | rounds + 1 => do
    gap
    match ← peek with
    | none => pure []
    | some _ => do
      let first ← statement
      (first :: ·) <$> statements rounds

/-- What a document has said so far: all its fields, and the path of the table opened last. -/
structure Progress where
  fields : Fields := []
  opened : List String := []

def Progress.add (p : Progress) : Statement → Option Progress
  | .field path name value => do
    let fields ← p.fields.addUnder p.opened path name value
    some { p with fields }
  | .table path name => do
    let fields ← p.fields.openTable path name
    some ⟨fields, path ++ [name]⟩
  | .element path name => do
    let fields ← p.fields.openElement path name
    some ⟨fields, path ++ [name]⟩

/-- The settings of a document. A byte order mark at its start is passed over. -/
def parse? (text : String) : Option Setting := do
  let chars := text.toList
  let chars := if chars.head? = some '\ufeff' then chars.drop 1 else chars
  let (lines, _) ← (statements (chars.length + 1)).run chars
  let progress ← lines.foldlM Progress.add {}
  some (.table (settings progress.fields))

end StripsReach.Toml
