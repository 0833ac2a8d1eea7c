import StripsReach.SExpr
import StripsReach.Fault
import StripsReach.Text.Lowercase
import StripsReach.Text.Position

/-!
# Reading parenthesised expressions

A text is read in lower case. Words are the longest runs of characters other than parentheses,
semicolons and blanks. Blanks and comments may stand between two words or parentheses; a comment
runs from a semicolon to the end of its line. A text holds exactly one expression.

The reader takes one expression from the front of a text and hands on the rest, which is
shorter, so it ends. What it cannot read starts at an unbalanced parenthesis: at a closing one
that closes nothing, or at the outermost opening one that is never closed.
-/

namespace StripsReach.SExpr

/-- Space, tab, carriage return and line feed. -/
def isBlank (c : Char) : Bool := c = ' ' || c = '\t' || c = '\r' || c = '\n'

def endsLine (c : Char) : Bool := c = '\r' || c = '\n'

def isDelimiter (c : Char) : Bool := c = '(' || c = ')' || c = ';' || isBlank c

/-- What is left of a text after its blanks and comments, where `comment` tells whether the text
starts inside a comment. -/
def skipFrom (comment : Bool) : List Char → List Char
  | [] => []
  | c :: rest =>
    if comment then skipFrom (!endsLine c) rest
    else if isBlank c then skipFrom false rest
    else if c = ';' then skipFrom true rest
    else c :: rest

def skipGap (s : List Char) : List Char := skipFrom false s

/-- What is left of a text after the comments at its very front and the blanks after them. -/
def skipComments (s : List Char) : List Char :=
  if s.head? = some ';' then skipGap s else s

theorem length_skipFrom_le (comment : Bool) (s : List Char) :
    (skipFrom comment s).length ≤ s.length := by
  induction s generalizing comment with
  | nil => simp [skipFrom]
  | cons c rest ih =>
    have hf := ih false
    have ht := ih true
    have hc := ih (!endsLine c)
    simp only [skipFrom, List.length_cons]
    split
    · omega
    · split
      · omega
      · split
        · omega
        · simp

theorem length_skipGap_le (s : List Char) : (skipGap s).length ≤ s.length :=
  length_skipFrom_le false s

theorem length_dropWhile_le (p : Char → Bool) (s : List Char) :
    (s.dropWhile p).length ≤ s.length := by
  induction s with
  | nil => simp
  | cons c rest ih =>
    simp only [List.dropWhile_cons]
    split
    · exact Nat.le_succ_of_le ih
    · exact Nat.le_refl _

mutual

/-- The expression at the very front of `s`, with a rest that is shorter than `s`. -/
def readFront (s : List Char) : Option (SExpr × { rest : List Char // rest.length < s.length }) :=
  match s with
  | [] => none
  | c :: s' =>
    if c = '(' then
      let found := readRun s'
      match h : skipGap found.2.1 with
      | ')' :: rest =>
        some (.list found.1, ⟨rest, by
          have h₁ := length_skipGap_le found.2.1
          have h₂ := found.2.2
          rw [h] at h₁
          simp only [List.length_cons] at h₁ ⊢
          omega⟩)
      | _ => none
    else if isDelimiter c then none
    else
      some (.word (String.ofList (c :: s'.takeWhile (!isDelimiter ·))),
        ⟨s'.dropWhile (!isDelimiter ·), Nat.lt_succ_of_le (length_dropWhile_le _ _)⟩)
termination_by 2 * s.length

/-- The longest run of expressions at the front of `s`, a gap allowed before each, with a rest
that is no longer than `s` and starts with the gap that nothing follows. -/
def readRun (s : List Char) : List SExpr × { rest : List Char // rest.length ≤ s.length } :=
  match readFront (skipGap s) with
  | none => ([], ⟨s, Nat.le_refl _⟩)
  | some (item, ⟨rest, h⟩) =>
    let found := readRun rest
    (item :: found.1, ⟨found.2.1, by
      have h₁ := length_skipGap_le s
      have h₂ := found.2.2
      omega⟩)
termination_by 2 * s.length + 1
decreasing_by
  · have h₁ := length_skipGap_le s
    omega
  · have h₁ := length_skipGap_le s
    omega

end

def readWord? (s : List Char) : Option (SExpr × List Char) :=
  match s.takeWhile (!isDelimiter ·) with
  | [] => none
  | chars => some (.word (String.ofList chars), s.dropWhile (!isDelimiter ·))

def readFront? (s : List Char) : Option (SExpr × List Char) :=
  (readFront s).map fun found => (found.1, found.2.1)

def readLower (s : List Char) : Except Fault SExpr :=
  let found := readRun s
  match skipGap found.2.1 with
  | [] =>
    match found.1 with
    | [item] => .ok item
    | items => .error (.notOneExpression items.length)
  | c :: rest =>
    let place := Text.Position.after (Text.before s (c :: rest))
    .error (if c = ')' then .missingOpen place else .missingClose place)

/-- The expression that a text holds, read in lower case. -/
def read (text : String) : Except Fault SExpr :=
  readLower (Text.lowercaseChars text.toList)

end StripsReach.SExpr
