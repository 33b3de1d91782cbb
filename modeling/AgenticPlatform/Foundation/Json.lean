import Mathlib.Data.List.Sort
import Mathlib.Data.String.Basic

/-!
# JSON documents

A number is kept as the text the encoder prints for it, so two numbers are equal
when they are written alike. An object is its list of fields in insertion order.
-/
namespace AgenticPlatform.Foundation

/-! ## Numbers -/

def numberChar (c : Char) : Bool := c.isDigit || c = '-' || c = '+' || c = '.' || c = 'e' || c = 'E'

/-- One digit or more, and nothing else. -/
def isDigits (cs : List Char) : Bool := !cs.isEmpty && cs.all Char.isDigit

def isExponent : List Char → Bool
  | [] => true
  | e :: cs => (e = 'e' || e = 'E') &&
    (isDigits cs || (cs.head? = some '+' || cs.head? = some '-') && isDigits cs.tail)

def isFraction (cs : List Char) : Bool :=
  if cs.head? = some '.' then
    isDigits (cs.tail.takeWhile Char.isDigit) && isExponent (cs.tail.dropWhile Char.isDigit)
  else isExponent cs

/-- No sign, and no zero before another digit. -/
def isUnsigned (cs : List Char) : Bool :=
  let digits := cs.takeWhile Char.isDigit
  isDigits digits && (digits.head? ≠ some '0' || digits.length = 1) &&
    isFraction (cs.dropWhile Char.isDigit)

/-- The number tokens of JSON. -/
def isNumber (cs : List Char) : Bool :=
  !cs.isEmpty && cs.all numberChar && isUnsigned (if cs.head? = some '-' then cs.tail else cs)

theorem isNumber_zero : isNumber "0".toList = true := by decide

structure Number where
  text : String
  valid : isNumber text.toList = true
deriving DecidableEq

/-! ## Documents -/

inductive Json where
  | null
  | bool (value : Bool)
  | num (value : Number)
  | str (text : String)
  | arr (items : List Json)
  | obj (fields : List (String × Json))

namespace Json

def emptyObj : Json := .obj []

def isObj : Json → Bool
  | .obj _ => true
  | _ => false

mutual

def decEq : (a b : Json) → Decidable (a = b)
  | .null, .null => isTrue rfl
  | .bool a, .bool b => decidable_of_iff (a = b) (by simp)
  | .num a, .num b => decidable_of_iff (a = b) (by simp)
  | .str a, .str b => decidable_of_iff (a = b) (by simp)
  | .arr a, .arr b =>
    haveI := decEqItems a b
    decidable_of_iff (a = b) (by simp)
  | .obj a, .obj b =>
    haveI := decEqFields a b
    decidable_of_iff (a = b) (by simp)
  | .null, .bool _ | .null, .num _ | .null, .str _ | .null, .arr _ | .null, .obj _
  | .bool _, .null | .bool _, .num _ | .bool _, .str _ | .bool _, .arr _ | .bool _, .obj _
  | .num _, .null | .num _, .bool _ | .num _, .str _ | .num _, .arr _ | .num _, .obj _
  | .str _, .null | .str _, .bool _ | .str _, .num _ | .str _, .arr _ | .str _, .obj _
  | .arr _, .null | .arr _, .bool _ | .arr _, .num _ | .arr _, .str _ | .arr _, .obj _
  | .obj _, .null | .obj _, .bool _ | .obj _, .num _ | .obj _, .str _ | .obj _, .arr _ =>
    isFalse nofun

def decEqItems : (a b : List Json) → Decidable (a = b)
  | [], [] => isTrue rfl
  | [], _ :: _ => isFalse nofun
  | _ :: _, [] => isFalse nofun
  | x :: xs, y :: ys =>
    haveI := decEq x y
    haveI := decEqItems xs ys
    decidable_of_iff (x = y ∧ xs = ys) (by simp)

def decEqFields : (a b : List (String × Json)) → Decidable (a = b)
  | [], [] => isTrue rfl
  | [], _ :: _ => isFalse nofun
  | _ :: _, [] => isFalse nofun
  | (k, x) :: xs, (l, y) :: ys =>
    haveI := decEq x y
    haveI := decEqFields xs ys
    decidable_of_iff ((k = l ∧ x = y) ∧ xs = ys) (by simp)

end

instance : DecidableEq Json := decEq

end Json
end AgenticPlatform.Foundation
