import StripsReach.Text.CaseTable

/-!
# Lower case

The lower case of a text, by the full rules of Unicode. Every character has a lower case that
depends on nothing else, but for the capital sigma: it becomes a final sigma where it ends a
word, that is, where the nearest letter before it belongs to the word and none follows.
-/

namespace StripsReach.Text

/-- Whether the code point of `c` lies in one of the inclusive `ranges`. -/
def inRanges (ranges : List (Nat × Nat)) (c : Char) : Bool :=
  ranges.any fun range => range.1 ≤ c.toNat && c.toNat ≤ range.2

/-- Letters that have an upper, lower or title case. -/
def isCased (c : Char) : Bool := inRanges casedRanges c

def isIgnorable (c : Char) : Bool := inRanges ignorableRanges c

/-- The lower case of code point `n`, if the range has it. -/
def CaseRange.lower? (range : CaseRange) (n : Nat) : Option Nat :=
  if range.first ≤ n ∧ n ≤ range.last ∧ (n - range.first) % range.step = 0 then
    some (range.image + (n - range.first))
  else
    none

/-- The lower case of a character on its own. The dotted capital I is the only one whose lower
case is two characters. -/
def lowerChar (c : Char) : List Char :=
  if c.toNat < 128 then [c.toLower]
  else if c = 'İ' then ['i', '\u0307']
  else
    match caseRanges.findSome? (·.lower? c.toNat) with
    | some n => [Char.ofNat n]
    | none => [c]

/-- Whether the first character that is not ignorable is a cased letter. -/
def startsCased (s : List Char) : Bool :=
  match s.dropWhile isIgnorable with
  | [] => false
  | c :: _ => isCased c

/-- The lower case of a sigma between `done`, nearest character first, and `rest`. -/
def lowerSigma (done rest : List Char) : Char :=
  if startsCased done && !startsCased rest then 'ς' else 'σ'

/-- The lower case of a text that follows `done`, nearest character first. -/
def lowercaseAfter (done : List Char) : List Char → List Char
  | [] => []
  | c :: rest =>
    (if c = 'Σ' then [lowerSigma done rest] else lowerChar c) ++ lowercaseAfter (c :: done) rest

def lowercaseChars (s : List Char) : List Char := lowercaseAfter [] s

def lowercase (s : String) : String := String.ofList (lowercaseChars s.toList)

end StripsReach.Text
