import StripsReach.Setting

/-!
# Scanning TOML

A scan takes something from the front of a text or fails. Here are the scans of single
characters, of blanks, comments and ends of lines, and of strings in their four notations.
-/

namespace StripsReach.Toml

/-- Takes a value from the front of a text and leaves the rest, or fails. -/
abbrev Scan := StateT (List Char) Option

namespace Scan

/-- The next character, which stays where it is. -/
def peek : Scan (Option Char) := fun s => some (s.head?, s)

def one (test : Char → Bool) : Scan Char
  | c :: rest => if test c then some (c, rest) else none
  | [] => none

def exactly : List Char → Scan Unit
  | [] => pure ()
  | c :: cs => do
    let _ ← one (· = c)
    exactly cs

/-- The longest run of characters that pass the test. -/
def longest (test : Char → Bool) : Scan (List Char) :=
  fun s => some (s.takeWhile test, s.dropWhile test)

/-- The longest run of characters that pass the test, of which there has to be one. -/
def longest1 (test : Char → Bool) : Scan (List Char) := do
  let first ← one test
  let rest ← longest test
  pure (first :: rest)

/-- What `scan` takes, as often as it takes something but at most so many times. -/
def atMost (scan : Scan Unit) : (rounds : Nat) → Scan Unit
  | 0 => pure ()
  | rounds + 1 => do
    let found ← optional scan
    if found.isSome then atMost scan rounds else pure ()

/-- What `scan` takes, as often as it takes something. It may not take the empty text. -/
def many (scan : Scan Unit) : Scan Unit := fun s => atMost scan s.length s

end Scan

open Scan

def isSpace (c : Char) : Bool := c = ' ' || c = '\t'

/-- The characters that texts are made of: tabs and all that are not control characters. -/
def isPlain (c : Char) : Bool := c = '\t' || (32 ≤ c.toNat && c.toNat ≠ 127)

/-- Spaces and tabs, if there are any. -/
def spaces : Scan Unit := do
  let _ ← longest isSpace

/-- A line feed, or a carriage return and a line feed. -/
def newline : Scan Unit := exactly ['\n'] <|> exactly ['\r', '\n']

def comment : Scan Unit := do
  exactly ['#']
  let _ ← longest isPlain

def endOfText : Scan Unit
  | [] => some ((), [])
  | _ :: _ => none

def endOfLine : Scan Unit := do
  spaces
  let _ ← optional comment
  newline <|> endOfText

/-- Spaces or tabs, at least one. -/
def someSpaces : Scan Unit := do
  let _ ← longest1 isSpace

/-- Blanks, comments and ends of lines. -/
def gap : Scan Unit := many (someSpaces <|> newline <|> comment)

def hexValue (c : Char) : Nat :=
  if c.isDigit then c.toNat - '0'.toNat
  else if c.isLower then c.toNat - 'a'.toNat + 10
  else c.toNat - 'A'.toNat + 10

def isHexDigit (c : Char) : Bool :=
  c.isDigit || ('a' ≤ c && c ≤ 'f') || ('A' ≤ c && c ≤ 'F')

def digitsValue (base : Nat) (digits : List Char) : Nat :=
  digits.foldl (fun n c => base * n + hexValue c) 0

/-- As many characters as asked for, all of which pass the test. -/
def several (count : Nat) (test : Char → Bool) : Scan (List Char) :=
  (List.replicate count ()).mapM fun _ => one test

def codePoint (count : Nat) : Scan Char := do
  let digits ← several count isHexDigit
  let n := digitsValue 16 digits
  if n.isValidChar then pure (Char.ofNat n) else failure

def escaped : Scan Char := do
  let c ← one fun _ => true
  match c with
  | 'b' => pure '\x08'
  | 't' => pure '\t'
  | 'n' => pure '\n'
  | 'f' => pure '\x0c'
  | 'r' => pure '\r'
  | '"' => pure '"'
  | '\\' => pure '\\'
  | 'u' => codePoint 4
  | 'U' => codePoint 8
  | _ => failure

/-- The rest of a string in double quotes, of at most so many characters. -/
def basicRest (rounds : Nat) : Scan (List Char) :=
  match rounds with
  | 0 => failure
  | rounds + 1 => do
    let c ← one isPlain
    if c = '"' then pure []
    else if c = '\\' then do
      let d ← escaped
      (d :: ·) <$> basicRest rounds
    else (c :: ·) <$> basicRest rounds

/-- The rest of a string in single quotes, which has no escapes. -/
def literalRest : Scan (List Char) := do
  let content ← longest fun c => isPlain c && c ≠ '\''
  exactly ['\'']
  pure content

/-- The end of a line after a backslash in a string, with all blanks and ends of lines that
follow. -/
def foldedLine : Scan Unit := do
  spaces
  newline
  many (someSpaces <|> newline)

/-- The rest of a string over several lines between three `quote`s, which has escapes if
`escapes` is set. One or two quotes in a row belong to the string, and of more than three the
last three end it. -/
def multilineRest (quote : Char) (escapes : Bool) (rounds : Nat) : Scan (List Char) :=
  match rounds with
  | 0 => failure
  | rounds + 1 => do
    let quotes ← longest (· = quote)
    if 3 ≤ quotes.length then
      if quotes.length ≤ 5 then pure (quotes.drop 3) else failure
    else
      let piece ← (do newline; pure ['\n']) <|>
        (do
          let c ← one isPlain
          if escapes ∧ c = '\\' then
            (do foldedLine; pure []) <|> (do let d ← escaped; pure [d])
          else pure [c])
      (quotes ++ piece ++ ·) <$> multilineRest quote escapes rounds

/-- A string on one line, in double or single quotes. -/
def shortString : Scan String := fun s =>
  let scan : Scan (List Char) :=
    (do exactly ['"']; basicRest s.length) <|> (do exactly ['\'']; literalRest)
  (String.ofList <$> scan).run s

def string : Scan String := fun s =>
  let scan (quote : Char) (escapes : Bool) : Scan (List Char) := do
    exactly [quote, quote, quote]
    let _ ← optional newline
    multilineRest quote escapes s.length
  ((String.ofList <$> (scan '"' true <|> scan '\'' false)) <|> shortString).run s

end StripsReach.Toml
