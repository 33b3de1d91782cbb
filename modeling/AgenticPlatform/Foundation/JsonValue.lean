import AgenticPlatform.Foundation.JsonAscii
import Mathlib.Data.Rat.Defs

/-!
# Equality of JSON documents

Two documents are equal as JSON when they differ at most in the order of the keys of
their objects and in how their numbers are written. A store that writes the numbers in
another way, and keeps their values, gives back an equal document.
-/
namespace AgenticPlatform.Foundation

/-! ## The value of a number -/

def digitsValue (cs : List Char) : Nat := cs.foldl (fun n c => n * 10 + (c.toNat - 48)) 0

/-- After the letter of an exponent. -/
def signedValue (cs : List Char) : Int :=
  if cs.head? = some '-' then - (digitsValue cs.tail : Int)
  else if cs.head? = some '+' then digitsValue cs.tail
  else digitsValue cs

def unsignedValue (cs : List Char) : ℚ :=
  let whole := cs.takeWhile Char.isDigit
  let rest := cs.dropWhile Char.isDigit
  let point := rest.head? = some '.'
  let fraction := if point then rest.tail.takeWhile Char.isDigit else []
  let exponent := if point then rest.tail.dropWhile Char.isDigit else rest
  (digitsValue (whole ++ fraction) : ℚ) * 10 ^ (signedValue exponent.tail - fraction.length)

def Number.value (n : Number) : ℚ :=
  let cs := n.text.toList
  if cs.head? = some '-' then - unsignedValue cs.tail else unsignedValue cs

namespace Json

/-! ## Equality -/

mutual

def sameValue : Json → Json → Bool
  | .null, .null => true
  | .bool a, .bool b => a = b
  | .num n, .num m => n.value = m.value
  | .str s, .str t => s = t
  | .arr vs, .arr ws => sameItems vs ws
  | .obj fs, .obj gs => sameFields fs gs
  | _, _ => false

def sameItems : List Json → List Json → Bool
  | [], [] => true
  | v :: vs, w :: ws => sameValue v w && sameItems vs ws
  | _, _ => false

def sameFields : List (String × Json) → List (String × Json) → Bool
  | [], [] => true
  | (k, v) :: fs, (l, w) :: gs => k = l && sameValue v w && sameFields fs gs
  | _, _ => false

end

/-- Equality up to the order of the keys and the writing of the numbers. -/
def equalJson (v w : Json) : Bool := sameValue v.sortKeys w.sortKeys

/-! ## Numbers written in another way -/

mutual

def mapNumbers (f : Number → Number) : Json → Json
  | .num n => .num (f n)
  | .arr items => .arr (mapItems f items)
  | .obj fields => .obj (mapFields f fields)
  | .null => .null
  | .bool b => .bool b
  | .str s => .str s

def mapItems (f : Number → Number) : List Json → List Json
  | [] => []
  | v :: vs => mapNumbers f v :: mapItems f vs

def mapFields (f : Number → Number) : List (String × Json) → List (String × Json)
  | [] => []
  | (k, v) :: fs => (k, mapNumbers f v) :: mapFields f fs

end

variable {f : Number → Number}

mutual

theorem sameValue_mapNumbers (hf : ∀ n, (f n).value = n.value) :
    ∀ v : Json, sameValue (mapNumbers f v) v = true
  | .null => rfl
  | .bool b => by simp [mapNumbers, sameValue]
  | .num n => by simp [mapNumbers, sameValue, hf]
  | .str s => by simp [mapNumbers, sameValue]
  | .arr items => sameItems_mapItems hf items
  | .obj fields => sameFields_mapFields hf fields

theorem sameItems_mapItems (hf : ∀ n, (f n).value = n.value) :
    ∀ vs : List Json, sameItems (mapItems f vs) vs = true
  | [] => rfl
  | v :: vs => by simp [mapItems, sameItems, sameValue_mapNumbers hf v, sameItems_mapItems hf vs]

theorem sameFields_mapFields (hf : ∀ n, (f n).value = n.value) :
    ∀ fs : List (String × Json), sameFields (mapFields f fs) fs = true
  | [] => rfl
  | (k, v) :: fs => by
    simp [mapFields, sameFields, sameValue_mapNumbers hf v, sameFields_mapFields hf fs]

end

theorem mapFields_eq_map (fs : List (String × Json)) :
    mapFields f fs = fs.map (fun x => (x.1, mapNumbers f x.2)) := by
  induction fs with
  | nil => rfl
  | cons x fs ih => rw [mapFields, ih, List.map_cons]

theorem mapFields_insertionSort (fs : List (String × Json)) :
    mapFields f (fs.insertionSort (fun a b => a.1 ≤ b.1)) =
      (mapFields f fs).insertionSort (fun a b => a.1 ≤ b.1) := by
  rw [mapFields_eq_map, mapFields_eq_map]
  exact List.map_insertionSort _ _ _ _ (fun a _ b _ => Iff.rfl)

mutual

theorem sortKeys_mapNumbers : ∀ v : Json, (mapNumbers f v).sortKeys = mapNumbers f v.sortKeys
  | .null => rfl
  | .bool b => rfl
  | .num n => rfl
  | .str s => rfl
  | .arr items => by
    rw [mapNumbers, sortKeys, sortKeys, mapNumbers, sortItems_mapItems items]
  | .obj fields => by
    rw [mapNumbers, sortKeys, sortKeys, mapNumbers, sortFields_mapFields fields,
      mapFields_insertionSort]

theorem sortItems_mapItems : ∀ vs : List Json, sortItems (mapItems f vs) = mapItems f (sortItems vs)
  | [] => rfl
  | v :: vs => by
    rw [mapItems, sortItems, sortItems, mapItems, sortKeys_mapNumbers v, sortItems_mapItems vs]

theorem sortFields_mapFields :
    ∀ fs : List (String × Json), sortFields (mapFields f fs) = mapFields f (sortFields fs)
  | [] => rfl
  | (k, v) :: fs => by
    rw [mapFields, sortFields, sortFields, mapFields, sortKeys_mapNumbers v,
      sortFields_mapFields fs]

end

/-! ## Keys in order -/

theorem sortFields_insertionSort (fs : List (String × Json)) :
    sortFields (fs.insertionSort (fun a b => a.1 ≤ b.1)) =
      (sortFields fs).insertionSort (fun a b => a.1 ≤ b.1) := by
  rw [sortFields_eq_map, sortFields_eq_map]
  exact List.map_insertionSort _ _ _ _ (fun a _ b _ => Iff.rfl)

mutual

theorem sortKeys_sortKeys : ∀ v : Json, v.sortKeys.sortKeys = v.sortKeys
  | .null => rfl
  | .bool b => rfl
  | .num n => rfl
  | .str s => rfl
  | .arr items => by rw [sortKeys, sortKeys, sortItems_sortItems items]
  | .obj fields => by
    have hsorted :=
      List.pairwise_insertionSort (fun a b : String × Json => a.1 ≤ b.1) (sortFields fields)
    rw [sortKeys, sortKeys, sortFields_insertionSort, sortFields_sortFields fields,
      hsorted.insertionSort_eq]

theorem sortItems_sortItems : ∀ vs : List Json, sortItems (sortItems vs) = sortItems vs
  | [] => rfl
  | v :: vs => by rw [sortItems, sortItems, sortKeys_sortKeys v, sortItems_sortItems vs]

theorem sortFields_sortFields :
    ∀ fs : List (String × Json), sortFields (sortFields fs) = sortFields fs
  | [] => rfl
  | (k, v) :: fs => by rw [sortFields, sortFields, sortKeys_sortKeys v, sortFields_sortFields fs]

end

/-- A store that sorts the keys and keeps the values of the numbers keeps the document. -/
theorem equalJson_mapNumbers (hf : ∀ n, (f n).value = n.value) (v : Json) :
    equalJson (mapNumbers f v.sortKeys) v = true := by
  rw [equalJson, sortKeys_mapNumbers, sortKeys_sortKeys]
  exact sameValue_mapNumbers hf v.sortKeys

example : equalJson (.obj [("b", .null), ("a", .num ⟨"1.5e+2", by decide⟩)])
    (.obj [("a", .num ⟨"150", by decide⟩), ("b", .null)]) = true := by decide +kernel

end Json
end AgenticPlatform.Foundation
