/-!
# JSON

The values that reports are made of, and their layout over lines. Fields stay in the order in
which they are given, and numbers are natural.
-/

namespace StripsReach

/-- A JSON value without truth values and fractions, of which reports have none. -/
inductive Json where
  | null
  | number (n : Nat)
  | string (s : String)
  | array (items : List Json)
  | object (fields : List (String × Json))
  deriving Repr

namespace Json

/-- A number, or null for none. -/
def ofNat? : Option Nat → Json
  | some n => number n
  | none => null

def hexDigit (n : Nat) : Char := "0123456789abcdef".toList.getD n '0'

/-- A character as it stands between the quotes of a string. Quotes, backslashes and control
characters are written by codes, all others as they are. -/
def escapeChar (c : Char) : List Char :=
  if c = '"' then ['\\', '"']
  else if c = '\\' then ['\\', '\\']
  else if c = '\n' then ['\\', 'n']
  else if c = '\r' then ['\\', 'r']
  else if c = '\t' then ['\\', 't']
  else if c = '\x08' then ['\\', 'b']
  else if c = '\x0c' then ['\\', 'f']
  else if c.toNat < 32 then
    ['\\', 'u', '0', '0', hexDigit (c.toNat / 16), hexDigit (c.toNat % 16)]
  else [c]

def quote (s : String) : String :=
  "\"" ++ String.ofList (s.toList.flatMap escapeChar) ++ "\""

/-- A new line at a depth of nesting, two spaces for each. -/
def newline (depth : Nat) : String := "\n" ++ String.ofList (List.replicate (2 * depth) ' ')

/-- Values between brackets, each on lines of its own if there are any. -/
def block (opening closing : String) (depth : Nat) (items : List String) : String :=
  if items.isEmpty then opening ++ closing
  else
    opening ++ newline (depth + 1) ++ ("," ++ newline (depth + 1)).intercalate items ++
      newline depth ++ closing

mutual

/-- The value laid out over lines, where its own lines start at `depth`. -/
def layout (depth : Nat) : Json → String
  | null => "null"
  | number n => toString n
  | string s => quote s
  | array items => block "[" "]" depth (layoutItems (depth + 1) items)
  | object fields => block "\x7b" "\x7d" depth (layoutFields (depth + 1) fields)

/-- The items of an array, each laid out. -/
def layoutItems (depth : Nat) : List Json → List String
  | [] => []
  | item :: items => layout depth item :: layoutItems depth items

/-- The fields of an object, each laid out after its name. -/
def layoutFields (depth : Nat) : List (String × Json) → List String
  | [] => []
  | (name, value) :: fields =>
    (quote name ++ ": " ++ layout depth value) :: layoutFields depth fields

end

def pretty (j : Json) : String := j.layout 0

end Json

end StripsReach
