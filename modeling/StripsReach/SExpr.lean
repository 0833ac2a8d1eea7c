import StripsReach.Name

/-!
# Parenthesised expressions

Domains and problems are written as nested lists of words. An expression has one written form:
words as they are, lists in parentheses with one space between two items.
-/

namespace StripsReach

/-- A word or an ordered list of expressions. -/
inductive SExpr where
  | word (name : Name)
  | list (items : List SExpr)
  deriving Repr

namespace SExpr

mutual

def decEq : (a b : SExpr) → Decidable (a = b)
  | .word m, .word n => if h : m = n then isTrue (by rw [h]) else isFalse (by simp [h])
  | .word _, .list _ => isFalse (by simp)
  | .list _, .word _ => isFalse (by simp)
  | .list as, .list bs =>
    match decEqItems as bs with
    | isTrue h => isTrue (by rw [h])
    | isFalse h => isFalse (by simp [h])

def decEqItems : (as bs : List SExpr) → Decidable (as = bs)
  | [], [] => isTrue rfl
  | [], _ :: _ => isFalse (by simp)
  | _ :: _, [] => isFalse (by simp)
  | a :: as, b :: bs =>
    match decEq a b, decEqItems as bs with
    | isTrue h, isTrue hs => isTrue (by rw [h, hs])
    | isFalse h, _ => isFalse (by simp [h])
    | _, isFalse hs => isFalse (by simp [hs])

end

instance : DecidableEq SExpr := decEq

def word? : SExpr → Option Name
  | .word name => some name
  | .list _ => none

def list? : SExpr → Option (List SExpr)
  | .word _ => none
  | .list items => some items

def head? : SExpr → Option Name
  | .list (.word name :: _) => some name
  | _ => none

def isWord (keyword : Name) : SExpr → Bool
  | .word name => name = keyword
  | .list _ => false

mutual

/-- The written form of an expression, followed by `rest`. -/
def renderOnto : SExpr → List Char → List Char
  | .word name, rest => name.toList ++ rest
  | .list items, rest => '(' :: renderItemsOnto items (')' :: rest)

/-- The written forms of `items` with a space between two of them, followed by `rest`. -/
def renderItemsOnto : List SExpr → List Char → List Char
  | [], rest => rest
  | item :: items, rest =>
    renderOnto item (match items with
      | [] => rest
      | _ :: _ => ' ' :: renderItemsOnto items rest)

end

def text (e : SExpr) : String := String.ofList (e.renderOnto [])

mutual

def wordCount : SExpr → Nat
  | .word _ => 1
  | .list items => wordCountItems items

def wordCountItems : List SExpr → Nat
  | [] => 0
  | item :: items => wordCount item + wordCountItems items

end

mutual

def depth : SExpr → Nat
  | .word _ => 0
  | .list items => 1 + depthItems items

def depthItems : List SExpr → Nat
  | [] => 0
  | item :: items => max (depth item) (depthItems items)

end

end SExpr

end StripsReach
