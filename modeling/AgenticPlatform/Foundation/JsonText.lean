import AgenticPlatform.Foundation.Json

/-!
# The canonical text of a document

`dumps` prints a document with its keys sorted, no blanks between tokens and no
escaping beyond what JSON requires. `loads` reads such a text back. The two are
inverse up to the order of keys, so the text determines the document.
-/
namespace AgenticPlatform.Foundation
namespace Json

/-! ## Printing -/

/-- The characters with an escape of one letter, and that letter. -/
def shortEscapes : List (Char × Char) :=
  [('"', '"'), ('\\', '\\'), ('\n', 'n'), ('\r', 'r'), ('\t', 't'), ('\x08', 'b'), ('\x0c', 'f')]

def shortEscape (c : Char) : Option Char := (shortEscapes.find? (fun p => p.1 = c)).map Prod.snd

def hexDigit (n : Nat) : Char := if n < 10 then Char.ofNat (48 + n) else Char.ofNat (87 + n)

def escape (c : Char) : List Char :=
  match shortEscape c with
  | some e => ['\\', e]
  | none =>
    if c.toNat < 32 then ['\\', 'u', '0', '0', hexDigit (c.toNat / 16), hexDigit (c.toNat % 16)]
    else [c]

/-- A string up to and with its closing quote. -/
def printChars (cs : List Char) : List Char := cs.flatMap escape ++ ['"']

mutual

def print : Json → List Char
  | .null => ['n', 'u', 'l', 'l']
  | .bool true => ['t', 'r', 'u', 'e']
  | .bool false => ['f', 'a', 'l', 's', 'e']
  | .num n => n.text.toList
  | .str s => '"' :: printChars s.toList
  | .arr items => '[' :: printItems items
  | .obj fields => '{' :: printFields fields

/-- An array up to and with its closing bracket. -/
def printItems : List Json → List Char
  | [] => [']']
  | [v] => print v ++ [']']
  | v :: vs => print v ++ ',' :: printItems vs

def printFields : List (String × Json) → List Char
  | [] => ['}']
  | [(k, v)] => '"' :: printChars k.toList ++ ':' :: print v ++ ['}']
  | (k, v) :: fs => '"' :: printChars k.toList ++ ':' :: print v ++ ',' :: printFields fs

end

mutual

/-- The document with the keys of every object in order. -/
def sortKeys : Json → Json
  | .arr items => .arr (sortItems items)
  | .obj fields => .obj ((sortFields fields).insertionSort (fun a b => a.1 ≤ b.1))
  | .null => .null
  | .bool b => .bool b
  | .num n => .num n
  | .str s => .str s

def sortItems : List Json → List Json
  | [] => []
  | v :: vs => sortKeys v :: sortItems vs

def sortFields : List (String × Json) → List (String × Json)
  | [] => []
  | (k, v) :: fs => (k, sortKeys v) :: sortFields fs

end

def dumps (v : Json) : String := String.ofList (print (sortKeys v))

/-! ## Reading -/

def unescape (e : Char) : Option Char :=
  if e = '/' then some '/' else (shortEscapes.find? (fun p => p.2 = e)).map Prod.fst

def hexValue (c : Char) : Option Nat :=
  if c.isDigit then some (c.toNat - 48)
  else if 'a' ≤ c ∧ c ≤ 'f' then some (c.toNat - 87)
  else if 'A' ≤ c ∧ c ≤ 'F' then some (c.toNat - 55)
  else none

/-- The character of a four-digit escape. -/
def hexChar (a b c d : Char) : Option Char := do
  let n := (← hexValue a) * 4096 + (← hexValue b) * 256 + (← hexValue c) * 16 + (← hexValue d)
  if n.isValidChar then some (Char.ofNat n) else none

/-- Put a character in front of what was read. -/
def withChar (c : Char) (r : List Char × List Char) : List Char × List Char := (c :: r.1, r.2)

/-- Read a string up to its closing quote. -/
def readChars : List Char → Option (List Char × List Char)
  | [] => none
  | c :: rest =>
    if c = '"' then some ([], rest)
    else if c = '\\' then
      match rest with
      | [] => none
      | e :: rest =>
        if e = 'u' then
          match rest with
          | h1 :: h2 :: h3 :: h4 :: rest => do
            let x ← hexChar h1 h2 h3 h4
            (readChars rest).map (withChar x)
          | _ => none
        else do
          let x ← unescape e
          (readChars rest).map (withChar x)
    else if c.toNat < 32 then none
    else (readChars rest).map (withChar c)

def readWord (word : List Char) (v : Json) (cs : List Char) : Option (Json × List Char) :=
  if word.isPrefixOf cs then some (v, cs.drop word.length) else none

def readNumber (cs : List Char) : Option (Json × List Char) :=
  if h : isNumber (cs.takeWhile numberChar) = true then
    some (.num ⟨String.ofList (cs.takeWhile numberChar), by rw [String.toList_ofList]; exact h⟩,
      cs.dropWhile numberChar)
  else none

mutual

def readValue : Nat → List Char → Option (Json × List Char)
  | 0, _ => none
  | _ + 1, [] => none
  | fuel + 1, c :: rest =>
    if c = 'n' then readWord ['u', 'l', 'l'] .null rest
    else if c = 't' then readWord ['r', 'u', 'e'] (.bool true) rest
    else if c = 'f' then readWord ['a', 'l', 's', 'e'] (.bool false) rest
    else if c = '"' then (readChars rest).map (fun (s, rest) => (.str (String.ofList s), rest))
    else if c = '[' then (readItems fuel rest).map (fun (vs, rest) => (.arr vs, rest))
    else if c = '{' then (readFields fuel rest).map (fun (fs, rest) => (.obj fs, rest))
    else readNumber (c :: rest)

def readItems : Nat → List Char → Option (List Json × List Char)
  | 0, _ => none
  | fuel + 1, cs =>
    if cs.head? = some ']' then some ([], cs.tail)
    else do
      let (v, rest) ← readValue fuel cs
      if rest.head? = some ',' then do
        let (vs, rest) ← readItems fuel rest.tail
        some (v :: vs, rest)
      else if rest.head? = some ']' then some ([v], rest.tail)
      else none

def readFields : Nat → List Char → Option (List (String × Json) × List Char)
  | 0, _ => none
  | fuel + 1, cs =>
    if cs.head? = some '}' then some ([], cs.tail)
    else if cs.head? = some '"' then do
      let (k, rest) ← readChars cs.tail
      if rest.head? = some ':' then do
        let (v, rest) ← readValue fuel rest.tail
        if rest.head? = some ',' then do
          let (fs, rest) ← readFields fuel rest.tail
          some ((String.ofList k, v) :: fs, rest)
        else if rest.head? = some '}' then some ([(String.ofList k, v)], rest.tail)
        else none
      else none
    else none

end

/-- The document a text denotes, when nothing is left over. -/
def loads (text : String) : Option Json :=
  (readValue text.toList.length text.toList).bind
    (fun (v, rest) => if rest = [] then some v else none)

/-! ## Strings -/

theorem unescape_of_mem : ∀ p ∈ shortEscapes, unescape p.2 = some p.1 ∧ p.2 ≠ 'u' := by decide

theorem unescape_shortEscape {c e : Char} (h : shortEscape c = some e) :
    unescape e = some c ∧ e ≠ 'u' := by
  obtain ⟨p, hp, rfl⟩ := Option.map_eq_some_iff.mp h
  have hc : p.1 = c := by simpa using List.find?_some hp
  rw [← hc]
  exact unescape_of_mem p (List.mem_of_find?_eq_some hp)

theorem hexValue_hexDigit : ∀ n < 16, hexValue (hexDigit n) = some n := by decide

theorem hexChar_hexDigit {c : Char} (h : c.toNat < 32) :
    hexChar '0' '0' (hexDigit (c.toNat / 16)) (hexDigit (c.toNat % 16)) = some c := by
  have hzero : hexValue '0' = some 0 := by decide
  have hsum : 0 * 4096 + 0 * 256 + c.toNat / 16 * 16 + c.toNat % 16 = c.toNat := by omega
  simp only [hexChar, hzero, hexValue_hexDigit (c.toNat / 16) (by omega),
    hexValue_hexDigit (c.toNat % 16) (by omega), Option.bind_eq_bind, Option.bind_some, hsum]
  have hvalid : c.toNat.isValidChar := c.valid
  rw [if_pos hvalid, Char.ofNat_toNat]

theorem shortEscape_none {c : Char} (h : shortEscape c = none) : c ≠ '"' ∧ c ≠ '\\' := by
  constructor
  · rintro rfl
    revert h
    decide
  · rintro rfl
    revert h
    decide

theorem readChars_escape (c : Char) (cs : List Char) :
    readChars (escape c ++ cs) = (readChars cs).map (withChar c) := by
  unfold escape
  cases hshort : shortEscape c with
  | some e =>
    obtain ⟨hun, hu⟩ := unescape_shortEscape hshort
    show readChars ('\\' :: e :: cs) = _
    rw [readChars.eq_def]
    simp only [Char.reduceEq, if_false, if_true, if_neg hu, hun, Option.bind_eq_bind,
      Option.bind_some]
  | none =>
    obtain ⟨hquote, hslash⟩ := shortEscape_none hshort
    by_cases hlow : c.toNat < 32
    · simp only [if_pos hlow]
      show readChars
        ('\\' :: 'u' :: '0' :: '0' :: hexDigit (c.toNat / 16) :: hexDigit (c.toNat % 16) :: cs) = _
      rw [readChars.eq_def]
      simp only [Char.reduceEq, if_false, if_true, hexChar_hexDigit hlow, Option.bind_eq_bind,
        Option.bind_some]
    · simp only [if_neg hlow]
      show readChars (c :: cs) = _
      rw [readChars.eq_def]
      simp only [if_neg hquote, if_neg hslash, if_neg hlow]

theorem readChars_printChars (s rest : List Char) :
    readChars (printChars s ++ rest) = some (s, rest) := by
  induction s with
  | nil =>
    show readChars ('"' :: rest) = _
    rw [readChars.eq_def]
    simp only [if_true]
  | cons c s ih =>
    have hcons : printChars (c :: s) ++ rest = escape c ++ (printChars s ++ rest) := by
      simp only [printChars, List.flatMap_cons, List.append_assoc]
    rw [hcons, readChars_escape, ih]
    rfl

/-! ## Values -/

/-- What may follow a number. -/
def Ends (rest : List Char) : Prop := ∀ c ∈ rest.head?, numberChar c = false

theorem Number.chars (n : Number) :
    n.text.toList ≠ [] ∧ ∀ c ∈ n.text.toList, numberChar c = true := by
  have h := n.valid
  simp only [isNumber, Bool.and_eq_true, Bool.not_eq_true', List.isEmpty_eq_false_iff,
    List.all_eq_true] at h
  exact h.1

theorem readNumber_text (n : Number) {rest : List Char} (h : Ends rest) :
    readNumber (n.text.toList ++ rest) = some (.num n, rest) := by
  have hall := (Number.chars n).2
  have hrest : rest.takeWhile numberChar = [] ∧ rest.dropWhile numberChar = rest := by
    cases rest with
    | nil => exact ⟨rfl, rfl⟩
    | cons c cs =>
      have hc : numberChar c = false := h c rfl
      simp [hc]
  have htake : (n.text.toList ++ rest).takeWhile numberChar = n.text.toList := by
    rw [List.takeWhile_append_of_pos hall, hrest.1, List.append_nil]
  have hdrop : (n.text.toList ++ rest).dropWhile numberChar = rest := by
    rw [List.dropWhile_append_of_pos hall, hrest.2]
  unfold readNumber
  simp only [htake, hdrop]
  rw [dif_pos n.valid]
  simp only [String.ofList_toList]

theorem numberChar_ne {c : Char} (h : numberChar c = true) :
    c ≠ 'n' ∧ c ≠ 't' ∧ c ≠ 'f' ∧ c ≠ '"' ∧ c ≠ '[' ∧ c ≠ '{' := by
  refine ⟨?_, ?_, ?_, ?_, ?_, ?_⟩ <;> (rintro rfl; revert h; decide)

/-- No value begins like the end of an array. -/
theorem print_head (v : Json) (rest : List Char) :
    ∃ c cs, print v ++ rest = c :: cs ∧ c ≠ ']' := by
  cases v with
  | null => exact ⟨_, _, rfl, by decide⟩
  | bool b => cases b <;> exact ⟨_, _, rfl, by decide⟩
  | num n =>
    obtain ⟨hne, hall⟩ := Number.chars n
    obtain ⟨c, cs, htext⟩ := List.exists_cons_of_ne_nil hne
    have hc := hall c (htext ▸ List.mem_cons_self)
    refine ⟨c, cs ++ rest, by simp [print, htext], ?_⟩
    rintro rfl
    revert hc
    decide
  | str s => exact ⟨_, _, rfl, by decide⟩
  | arr items => exact ⟨_, _, rfl, by decide⟩
  | obj fields => exact ⟨_, _, rfl, by decide⟩

theorem readItems_end (fuel : Nat) (rest : List Char) :
    readItems (fuel + 1) (']' :: rest) = some ([], rest) := by
  simp [readItems]

/-- One item and what the reader does after it. -/
theorem readItems_item {fuel : Nat} {v : Json} {rest : List Char}
    (h : readValue fuel (print v ++ rest) = some (v, rest)) :
    readItems (fuel + 1) (print v ++ rest) =
      if rest.head? = some ',' then (readItems fuel rest.tail).bind (fun r => some (v :: r.1, r.2))
      else if rest.head? = some ']' then some ([v], rest.tail)
      else none := by
  obtain ⟨c, cs, hcs, hc⟩ := print_head v rest
  have hhead : (print v ++ rest).head? ≠ some ']' := by
    rw [hcs]
    simpa using hc
  rw [readItems, if_neg hhead, h]
  rfl

theorem readFields_end (fuel : Nat) (rest : List Char) :
    readFields (fuel + 1) ('}' :: rest) = some ([], rest) := by
  simp [readFields]

theorem readFields_field {fuel : Nat} {k : String} {v : Json} {rest : List Char}
    (h : readValue fuel (print v ++ rest) = some (v, rest)) :
    readFields (fuel + 1) ('"' :: (printChars k.toList ++ ':' :: (print v ++ rest))) =
      if rest.head? =
        some ',' then (readFields fuel rest.tail).bind (fun r => some ((k, v) :: r.1, r.2))
      else if rest.head? = some '}' then some ([(k, v)], rest.tail)
      else none := by
  simp only [readFields, List.head?_cons, List.tail_cons,
    Option.some.injEq, Char.reduceEq, if_false, if_true,
    readChars_printChars, Option.bind_eq_bind, Option.bind_some, h, String.ofList_toList]

mutual

/-- Reading a printed value gives it back and leaves what follows it. -/
theorem readValue_print :
    ∀ (v : Json) (fuel : Nat) (rest : List Char), (print v).length ≤ fuel → Ends rest →
      readValue fuel (print v ++ rest) = some (v, rest)
  | .null, fuel, rest, hfuel, _ => by
    obtain ⟨fuel, rfl⟩ : ∃ n, fuel = n + 1 := ⟨fuel - 1, by simp [print] at hfuel; omega⟩
    simp [print, readValue, readWord]
  | .bool true, fuel, rest, hfuel, _ => by
    obtain ⟨fuel, rfl⟩ : ∃ n, fuel = n + 1 := ⟨fuel - 1, by simp [print] at hfuel; omega⟩
    simp [print, readValue, readWord]
  | .bool false, fuel, rest, hfuel, _ => by
    obtain ⟨fuel, rfl⟩ : ∃ n, fuel = n + 1 := ⟨fuel - 1, by simp [print] at hfuel; omega⟩
    simp [print, readValue, readWord]
  | .num n, fuel, rest, hfuel, hrest => by
    obtain ⟨hne, hall⟩ := Number.chars n
    obtain ⟨c, cs, htext⟩ := List.exists_cons_of_ne_nil hne
    have hread := readNumber_text n hrest
    simp only [print, htext, List.length_cons, List.cons_append] at hfuel hread ⊢
    obtain ⟨fuel, rfl⟩ : ∃ n, fuel = n + 1 := ⟨fuel - 1, by omega⟩
    obtain ⟨hn, ht, hf, hq, ha, ho⟩ := numberChar_ne (hall c (htext ▸ List.mem_cons_self))
    rw [readValue, if_neg hn, if_neg ht, if_neg hf, if_neg hq, if_neg ha, if_neg ho]
    exact hread
  | .str s, fuel, rest, hfuel, _ => by
    obtain ⟨fuel, rfl⟩ : ∃ n, fuel = n + 1 := ⟨fuel - 1, by simp [print] at hfuel; omega⟩
    simp [print, readValue, readChars_printChars]
  | .arr items, fuel, rest, hfuel, _ => by
    simp only [print, List.length_cons] at hfuel
    obtain ⟨fuel, rfl⟩ : ∃ n, fuel = n + 1 := ⟨fuel - 1, by omega⟩
    have hread := readItems_print items fuel rest (by omega)
    simp [print, readValue, hread]
  | .obj fields, fuel, rest, hfuel, _ => by
    simp only [print, List.length_cons] at hfuel
    obtain ⟨fuel, rfl⟩ : ∃ n, fuel = n + 1 := ⟨fuel - 1, by omega⟩
    have hread := readFields_print fields fuel rest (by omega)
    simp [print, readValue, hread]

theorem readItems_print :
    ∀ (vs : List Json) (fuel : Nat) (rest : List Char), (printItems vs).length ≤ fuel →
      readItems fuel (printItems vs ++ rest) = some (vs, rest)
  | [], fuel, rest, hfuel => by
    obtain ⟨fuel, rfl⟩ : ∃ n, fuel = n + 1 := ⟨fuel - 1, by simp [printItems] at hfuel; omega⟩
    exact readItems_end fuel rest
  | [v], fuel, rest, hfuel => by
    simp only [printItems, List.length_append, List.length_singleton] at hfuel
    obtain ⟨fuel, rfl⟩ : ∃ n, fuel = n + 1 := ⟨fuel - 1, by omega⟩
    have hread := readValue_print v fuel (']' :: rest) (by omega) (by simp [Ends, numberChar])
    simp only [printItems, List.append_assoc, List.singleton_append]
    rw [readItems_item hread]
    simp
  | v :: w :: vs, fuel, rest, hfuel => by
    simp only [printItems, List.length_append, List.length_cons] at hfuel
    obtain ⟨fuel, rfl⟩ : ∃ n, fuel = n + 1 := ⟨fuel - 1, by omega⟩
    have hread := readValue_print v fuel (',' :: (printItems (w :: vs) ++ rest)) (by omega)
      (by simp [Ends, numberChar])
    have hrest := readItems_print (w :: vs) fuel rest (by omega)
    simp only [printItems, List.append_assoc, List.cons_append]
    rw [readItems_item hread]
    simp [hrest]

theorem readFields_print : ∀ (fs : List (String × Json)) (fuel : Nat) (rest : List Char),
    (printFields fs).length ≤ fuel → readFields fuel (printFields fs ++ rest) = some (fs, rest)
  | [], fuel, rest, hfuel => by
    obtain ⟨fuel, rfl⟩ : ∃ n, fuel = n + 1 := ⟨fuel - 1, by simp [printFields] at hfuel; omega⟩
    exact readFields_end fuel rest
  | [(k, v)], fuel, rest, hfuel => by
    simp only [printFields, List.length_append, List.length_cons] at hfuel
    obtain ⟨fuel, rfl⟩ : ∃ n, fuel = n + 1 := ⟨fuel - 1, by omega⟩
    have hread := readValue_print v fuel ('}' :: rest) (by omega) (by simp [Ends, numberChar])
    simp only [printFields, List.append_assoc, List.cons_append, List.nil_append]
    rw [readFields_field hread]
    simp
  | (k, v) :: f :: fs, fuel, rest, hfuel => by
    simp only [printFields, List.length_append, List.length_cons] at hfuel
    obtain ⟨fuel, rfl⟩ : ∃ n, fuel = n + 1 := ⟨fuel - 1, by omega⟩
    have hread := readValue_print v fuel (',' :: (printFields (f :: fs) ++ rest)) (by omega)
      (by simp [Ends, numberChar])
    have hrest := readFields_print (f :: fs) fuel rest (by omega)
    simp only [printFields, List.append_assoc, List.cons_append]
    rw [readFields_field hread]
    simp [hrest]

end

/-- The canonical text denotes the document it was printed from. -/
theorem loads_dumps (v : Json) : loads (dumps v) = some (sortKeys v) := by
  have hread := readValue_print (sortKeys v) (print (sortKeys v)).length [] le_rfl (by simp [Ends])
  rw [List.append_nil] at hread
  simp [loads, dumps, hread]

end Json
end AgenticPlatform.Foundation
