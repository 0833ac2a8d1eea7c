/-!
# Places in a text

A place is counted in lines and in characters of its line, both from one. Only a line feed
starts a new line.
-/

namespace StripsReach.Text

/-- A line and a character of that line, both counted from one. -/
structure Position where
  line : Nat
  column : Nat
  deriving DecidableEq, Repr

/-- The place reached once `done` has been read from the start of a text. -/
def Position.after (done : List Char) : Position where
  line := 1 + done.count '\n'
  column := 1 + (done.reverse.takeWhile (· ≠ '\n')).length

/-- The part of `text` before `rest`, where `rest` is what is left of `text`. -/
def before (text rest : List Char) : List Char :=
  text.take (text.length - rest.length)

/-- The number of bytes that characters take in UTF-8. -/
def byteLength (s : List Char) : Nat :=
  (String.ofList s).utf8ByteSize

end StripsReach.Text
