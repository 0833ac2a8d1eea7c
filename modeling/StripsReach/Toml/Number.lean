import StripsReach.Toml.Scan

/-!
# Numbers and dates in TOML

Whole numbers have a sign or a base, and underscores between digits; they fit a signed machine
word of 64 bits. Fractions and dates are checked for their form but have no value here, since no
setting takes them.
-/

namespace StripsReach.Toml

open Scan

def digits (test : Char → Bool) : Scan (List Char) := fun s =>
  let scan : Scan (List Char) := do
    let first ← one test
    let rest ← longest fun c => test c || c = '_'
    if (first :: rest).getLast? = some '_' ∨ ('_', '_') ∈ rest.zip rest.tail then failure
    else pure ((first :: rest).filter (· ≠ '_'))
  scan.run s

/-- A sign, if there is one. The value tells whether it is negative. -/
def sign : Scan Bool :=
  (do exactly ['-']; pure true) <|> (do exactly ['+']; pure false) <|> pure false

/-- Decimal digits without a needless zero in front. -/
def decimalDigits : Scan (List Char) := do
  let found ← digits Char.isDigit
  match found with
  | ['0'] => pure found
  | '0' :: _ => failure
  | _ => pure found

/-- The largest whole number, which has 63 bits, plus one. -/
def integerBound : Nat := 9223372036854775808

def decimalInteger : Scan Int := do
  let negative ← sign
  let n := digitsValue 10 (← decimalDigits)
  if negative then
    if n ≤ integerBound then pure (-(n : Int)) else failure
  else if n < integerBound then pure n
  else failure

/-- A whole number in another base, after a zero and the letter of the base. -/
def basedInteger (letter : Char) (base : Nat) (test : Char → Bool) : Scan Int := do
  exactly ['0', letter]
  let n := digitsValue base (← digits test)
  if n < integerBound then pure n else failure

def integer : Scan Int :=
  basedInteger 'x' 16 isHexDigit <|>
  basedInteger 'o' 8 (fun c => '0' ≤ c && c ≤ '7') <|>
  basedInteger 'b' 2 (fun c => c = '0' || c = '1') <|>
  decimalInteger

/-- Half a unit in the last place above the largest number of double precision, where numbers
begin to be rounded to infinity. -/
def doubleBound : Nat := Nat.pow 2 1024 - Nat.pow 2 970

def isHuge (n : Nat) (exponent : Int) : Bool :=
  if n = 0 then false
  else
    let magnitude := exponent + (Nat.toDigits 10 n).length
    if magnitude ≤ 308 then false
    else if 310 ≤ magnitude then true
    else if 0 ≤ exponent then doubleBound ≤ n * Nat.pow 10 exponent.toNat
    else doubleBound * Nat.pow 10 (-exponent).toNat ≤ n

def exponent : Scan Int := do
  let _ ← one fun c => c = 'e' || c = 'E'
  let negative ← sign
  let n : Int := digitsValue 10 (← digits Char.isDigit)
  pure (if negative then -n else n)

/-- A number with a fraction or an exponent, or one of the special words for numbers. Positive
numbers that are too large are refused. -/
def fraction : Scan Unit := do
  let negative ← sign
  (exactly ['i', 'n', 'f']) <|> (exactly ['n', 'a', 'n']) <|> do
    let whole ← decimalDigits
    let places ← optional (do exactly ['.']; digits Char.isDigit)
    let power ← optional exponent
    if places.isNone && power.isNone then failure
    let shift := (places.getD []).length
    let n := digitsValue 10 (whole ++ places.getD [])
    if !negative && isHuge n (power.getD 0 - shift) then failure

/-- A number of exactly so many digits that lies between two bounds. -/
def numeral (count low high : Nat) : Scan Nat := do
  let n := digitsValue 10 (← several count Char.isDigit)
  if low ≤ n ∧ n ≤ high then pure n else failure

def daysIn (year month : Nat) : Nat :=
  if month = 2 then if year % 4 = 0 ∧ (year % 100 ≠ 0 ∨ year % 400 = 0) then 29 else 28
  else if month ∈ [4, 6, 9, 11] then 30
  else 31

def date : Scan Unit := do
  let year ← numeral 4 0 9999
  exactly ['-']
  let month ← numeral 2 1 12
  exactly ['-']
  let _ ← numeral 2 1 (daysIn year month)

/-- A time of day, where a minute may have a leap second. -/
def time : Scan Unit := do
  let _ ← numeral 2 0 23
  exactly [':']
  let _ ← numeral 2 0 59
  exactly [':']
  let _ ← numeral 2 0 60
  let _ ← optional (do exactly ['.']; let _ ← longest1 Char.isDigit)

def zone : Scan Unit := do
  let c ← one fun c => c = 'z' || c = 'Z' || c = '+' || c = '-'
  if c = '+' || c = '-' then do
    let _ ← numeral 2 0 23
    exactly [':']
    let _ ← numeral 2 0 59

/-- A date, a time, or a date with a time and perhaps a zone. -/
def dateTime : Scan Unit :=
  (do
    date
    let _ ← optional (do
      let _ ← one fun c => c = 't' || c = 'T' || c = ' '
      time
      let _ ← optional zone)) <|>
  time

end StripsReach.Toml
