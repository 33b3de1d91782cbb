import AgenticPlatform.Foundation.JsonText

/-!
# The canonical text in ASCII

`dumpsAscii` prints a document as `dumps` does and then writes every character beyond
the printable ASCII ones as one or two four-digit escapes. The printed text can be
restored from it, since a backslash in the printed text always begins an escape.
-/
namespace AgenticPlatform.Foundation
namespace Json

/-! ## Escapes of four digits -/

def hexEscape (n : Nat) : List Char :=
  ['\\', 'u', hexDigit (n / 4096), hexDigit (n / 256 % 16), hexDigit (n / 16 % 16),
    hexDigit (n % 16)]

/-- A character above the basic plane is a pair of surrogates. -/
def toAscii (c : Char) : List Char :=
  if c.toNat < 127 then [c]
  else if c.toNat < 0x10000 then hexEscape c.toNat
  else hexEscape (0xd800 + (c.toNat - 0x10000) / 1024) ++
    hexEscape (0xdc00 + (c.toNat - 0x10000) % 1024)

def dumpsAscii (v : Json) : String := String.ofList ((print (sortKeys v)).flatMap toAscii)

/-! ## The printed text back from the ASCII text -/

def hexNumber (a b c d : Char) : Nat :=
  ((hexValue a).getD 0 * 4096 + (hexValue b).getD 0 * 256 + (hexValue c).getD 0 * 16 +
    (hexValue d).getD 0)

def fromAscii : List Char → List Char
  | [] => []
  | c :: rest =>
    if c = '\\' then
      match rest with
      | [] => []
      | e :: rest =>
        if e = 'u' then
          match rest with
          | a :: b :: c :: d :: rest =>
            let n := hexNumber a b c d
            if n < 32 then '\\' :: 'u' :: a :: b :: c :: d :: fromAscii rest
            else if 0xd800 ≤ n ∧ n < 0xdc00 then
              match rest with
              | _ :: _ :: a :: b :: c :: d :: rest =>
                Char.ofNat (0x10000 + (n - 0xd800) * 1024 + (hexNumber a b c d - 0xdc00)) ::
                  fromAscii rest
              | _ => []
            else Char.ofNat n :: fromAscii rest
          | _ => []
        else '\\' :: e :: fromAscii rest
    else c :: fromAscii rest

theorem hexNumber_digits {n : Nat} (h : n < 0x10000) :
    hexNumber (hexDigit (n / 4096)) (hexDigit (n / 256 % 16)) (hexDigit (n / 16 % 16))
      (hexDigit (n % 16)) = n := by
  rw [hexNumber, hexValue_hexDigit _ (by omega), hexValue_hexDigit _ (by omega),
    hexValue_hexDigit _ (by omega), hexValue_hexDigit _ (by omega)]
  show n / 4096 * 4096 + n / 256 % 16 * 256 + n / 16 % 16 * 16 + n % 16 = n
  omega

theorem fromAscii_plain {c : Char} (h : c ≠ '\\') (rest : List Char) :
    fromAscii (c :: rest) = c :: fromAscii rest := by
  rw [fromAscii.eq_def]
  simp only [if_neg h]

theorem fromAscii_short {e : Char} (h : e ≠ 'u') (rest : List Char) :
    fromAscii ('\\' :: e :: rest) = '\\' :: e :: fromAscii rest := by
  rw [fromAscii.eq_def]
  simp only [if_true, if_neg h]

theorem fromAscii_control {n : Nat} (h : n < 32) (rest : List Char) :
    fromAscii (hexEscape n ++ rest) = hexEscape n ++ fromAscii rest := by
  have hn : hexNumber _ _ _ _ = n := hexNumber_digits (n := n) (by omega)
  show fromAscii ('\\' :: 'u' :: _ :: _ :: _ :: _ :: rest) = _
  rw [fromAscii.eq_def]
  simp only [if_true, hn, if_pos h]
  rfl

theorem fromAscii_basic {c : Char} (hlow : 32 ≤ c.toNat) (hhigh : c.toNat < 0x10000)
    (rest : List Char) : fromAscii (hexEscape c.toNat ++ rest) = c :: fromAscii rest := by
  have hn : hexNumber _ _ _ _ = c.toNat := hexNumber_digits hhigh
  have hvalid : c.toNat < 0xd800 ∨ 0xdfff < c.toNat ∧ c.toNat < 0x110000 := c.valid
  have hpair : ¬ (0xd800 ≤ c.toNat ∧ c.toNat < 0xdc00) := by omega
  show fromAscii ('\\' :: 'u' :: _ :: _ :: _ :: _ :: rest) = _
  rw [fromAscii.eq_def]
  simp only [if_true, hn, if_neg (Nat.not_lt.mpr hlow), if_neg hpair, Char.ofNat_toNat]

theorem fromAscii_pair {c : Char} (h : 0x10000 ≤ c.toNat) (rest : List Char) :
    fromAscii (hexEscape (0xd800 + (c.toNat - 0x10000) / 1024) ++
      (hexEscape (0xdc00 + (c.toNat - 0x10000) % 1024) ++ rest)) = c :: fromAscii rest := by
  have hvalid : c.toNat < 0xd800 ∨ 0xdfff < c.toNat ∧ c.toNat < 0x110000 := c.valid
  have hone : hexNumber _ _ _ _ = 0xd800 + (c.toNat - 0x10000) / 1024 := hexNumber_digits (by omega)
  have htwo : hexNumber _ _ _ _ = 0xdc00 + (c.toNat - 0x10000) % 1024 := hexNumber_digits (by omega)
  have hbig : ¬ 0xd800 + (c.toNat - 0x10000) / 1024 < 32 := by omega
  have hpair : 0xd800 ≤ 0xd800 + (c.toNat - 0x10000) / 1024 ∧
      0xd800 + (c.toNat - 0x10000) / 1024 < 0xdc00 := by omega
  have hsum : 0x10000 + (0xd800 + (c.toNat - 0x10000) / 1024 - 0xd800) * 1024 +
      (0xdc00 + (c.toNat - 0x10000) % 1024 - 0xdc00) = c.toNat := by omega
  show fromAscii ('\\' :: 'u' :: _ :: _ :: _ :: _ :: '\\' :: 'u' :: _ :: _ :: _ :: _ :: rest) = _
  rw [fromAscii.eq_def]
  simp only [if_true, hone, htwo, if_neg hbig, if_pos hpair, hsum, Char.ofNat_toNat]

/-! ## Printed texts -/

/-- Every backslash begins an escape. -/
inductive Balanced : List Char → Prop where
  | nil : Balanced []
  | plain {c : Char} {cs : List Char} (hc : c ≠ '\\') (h : Balanced cs) : Balanced (c :: cs)
  | short {e : Char} {cs : List Char} (he : e ≠ 'u') (hascii : e.toNat < 127) (h : Balanced cs) :
    Balanced ('\\' :: e :: cs)
  | control {n : Nat} {cs : List Char} (hn : n < 32) (h : Balanced cs) :
    Balanced (hexEscape n ++ cs)

theorem hexEscape_ascii : ∀ n < 32, (hexEscape n).flatMap toAscii = hexEscape n := by decide

theorem toAscii_plain {c : Char} (h : c.toNat < 127) : toAscii c = [c] := if_pos h

theorem fromAscii_toAscii {c : Char} (hc : c ≠ '\\') (rest : List Char) :
    fromAscii (toAscii c ++ rest) = c :: fromAscii rest := by
  unfold toAscii
  split
  · exact fromAscii_plain hc rest
  · split
    · exact fromAscii_basic (by omega) ‹_› rest
    · rw [List.append_assoc]
      exact fromAscii_pair (by omega) rest

theorem fromAscii_flatMap {cs : List Char} (h : Balanced cs) :
    fromAscii (cs.flatMap toAscii) = cs := by
  induction h with
  | nil => rfl
  | plain hc h ih => rw [List.flatMap_cons, fromAscii_toAscii hc, ih]
  | short he hascii h ih =>
    have hslash : toAscii '\\' = ['\\'] := by decide
    rw [List.flatMap_cons, List.flatMap_cons, hslash, toAscii_plain hascii, List.singleton_append,
      List.singleton_append, fromAscii_short he, ih]
  | control hn h ih => rw [List.flatMap_append, hexEscape_ascii _ hn, fromAscii_control hn, ih]

theorem Balanced.append {cs ds : List Char} (h : Balanced cs) (h' : Balanced ds) :
    Balanced (cs ++ ds) := by
  induction h with
  | nil => exact h'
  | plain hc h ih => exact .plain hc ih
  | short he hascii h ih => exact .short he hascii ih
  | control hn h ih =>
    rw [List.append_assoc]
    exact .control hn ih

theorem balanced_plain {cs : List Char} (h : ∀ c ∈ cs, c ≠ '\\') : Balanced cs := by
  induction cs with
  | nil => exact .nil
  | cons c cs ih =>
    exact .plain (h c List.mem_cons_self) (ih (fun d hd => h d (List.mem_cons_of_mem c hd)))

theorem shortEscapes_ascii : ∀ p ∈ shortEscapes, p.2.toNat < 127 := by decide

theorem balanced_escape (c : Char) : Balanced (escape c) := by
  unfold escape
  cases hshort : shortEscape c with
  | some e =>
    obtain ⟨p, hp, rfl⟩ := Option.map_eq_some_iff.mp hshort
    have hmem := List.mem_of_find?_eq_some hp
    exact .short (unescape_of_mem p hmem).2 (shortEscapes_ascii p hmem) .nil
  | none =>
    simp only
    split
    · rename_i hlow
      have htext : ['\\', 'u', '0', '0', hexDigit (c.toNat / 16), hexDigit (c.toNat % 16)] =
          hexEscape c.toNat := by
        have hone : c.toNat / 4096 = 0 := by omega
        have htwo : c.toNat / 256 % 16 = 0 := by omega
        have hthree : c.toNat / 16 % 16 = c.toNat / 16 := by omega
        rw [hexEscape, hone, htwo, hthree]
        rfl
      rw [htext, ← List.append_nil (hexEscape c.toNat)]
      exact .control hlow .nil
    · exact .plain (shortEscape_none hshort).2 .nil

theorem balanced_printChars (s : List Char) : Balanced (printChars s) := by
  induction s with
  | nil => exact .plain (by decide) .nil
  | cons c s ih =>
    have hcons : printChars (c :: s) = escape c ++ printChars s := by
      simp only [printChars, List.flatMap_cons, List.append_assoc]
    rw [hcons]
    exact (balanced_escape c).append ih

mutual

theorem balanced_print : ∀ v : Json, Balanced (print v)
  | .null => balanced_plain (by simp [print])
  | .bool true => balanced_plain (by simp [print])
  | .bool false => balanced_plain (by simp [print])
  | .num n => by
    apply balanced_plain
    rintro c hc rfl
    have hchar := (Number.chars n).2 _ hc
    revert hchar
    decide
  | .str s => .plain (by decide) (balanced_printChars s.toList)
  | .arr items => .plain (by decide) (balanced_printItems items)
  | .obj fields => .plain (by decide) (balanced_printFields fields)

theorem balanced_printItems : ∀ vs : List Json, Balanced (printItems vs)
  | [] => .plain (by decide) .nil
  | [v] => (balanced_print v).append (.plain (by decide) .nil)
  | v :: w :: vs => (balanced_print v).append (.plain (by decide) (balanced_printItems (w :: vs)))

theorem balanced_printFields : ∀ fs : List (String × Json), Balanced (printFields fs)
  | [] => .plain (by decide) .nil
  | [(k, v)] => by
    have hkey : Balanced ('"' :: printChars k.toList) :=
      .plain (by decide) (balanced_printChars k.toList)
    have hvalue : Balanced (':' :: print v) := .plain (by decide) (balanced_print v)
    exact (hkey.append hvalue).append (.plain (by decide) .nil)
  | (k, v) :: f :: fs => by
    have hkey : Balanced ('"' :: printChars k.toList) :=
      .plain (by decide) (balanced_printChars k.toList)
    have hvalue : Balanced (':' :: print v) := .plain (by decide) (balanced_print v)
    exact (hkey.append hvalue).append (.plain (by decide) (balanced_printFields (f :: fs)))

end

/-- The canonical text determines the document up to the order of its keys. -/
theorem dumpsAscii_injective {v w : Json} (h : dumpsAscii v = dumpsAscii w) :
    sortKeys v = sortKeys w := by
  have hchars : (print (sortKeys v)).flatMap toAscii = (print (sortKeys w)).flatMap toAscii :=
    String.ofList_injective h
  have htext : print (sortKeys v) = print (sortKeys w) := by
    rw [← fromAscii_flatMap (balanced_print (sortKeys v)), hchars,
      fromAscii_flatMap (balanced_print (sortKeys w))]
  have hdumps : dumps v = dumps w := by rw [dumps, dumps, htext]
  have hloads := loads_dumps v
  rw [hdumps, loads_dumps w] at hloads
  exact (Option.some.inj hloads).symm

/-! ## The values of an object -/

theorem sortFields_eq_map (fs : List (String × Json)) :
    sortFields fs = fs.map (fun f => (f.1, sortKeys f.2)) := by
  induction fs with
  | nil => rfl
  | cons f fs ih => rw [sortFields, ih, List.map_cons]

theorem sortItems_eq_map (vs : List Json) : sortItems vs = vs.map sortKeys := by
  induction vs with
  | nil => rfl
  | cons v vs ih => rw [sortItems, ih, List.map_cons]

/-- Objects that agree when sorted have the same fields. -/
theorem perm_of_sortKeys {fs gs : List (String × Json)}
    (h : sortKeys (.obj fs) = sortKeys (.obj gs)) :
    (fs.map (fun f => (f.1, sortKeys f.2))).Perm (gs.map (fun f => (f.1, sortKeys f.2))) := by
  simp only [sortKeys, obj.injEq] at h
  rw [← sortFields_eq_map, ← sortFields_eq_map]
  have hsorted := (List.perm_insertionSort (fun a b => a.1 ≤ b.1) (sortFields fs)).symm
  rw [h] at hsorted
  exact hsorted.trans (List.perm_insertionSort _ _)

theorem sortKeys_obj_of_map {fs gs : List (String × Json)}
    (h : fs.map (fun f => (f.1, sortKeys f.2)) = gs.map (fun f => (f.1, sortKeys f.2))) :
    sortKeys (.obj fs) = sortKeys (.obj gs) := by
  rw [sortKeys, sortKeys, sortFields_eq_map, sortFields_eq_map, h]

/-- Objects that agree when sorted agree at every key. -/
theorem value_of_sortKeys {fs gs : List (String × Json)} {k : String} {v w : Json}
    (h : sortKeys (.obj fs) = sortKeys (.obj gs)) (hkeys : (gs.map Prod.fst).Nodup) (i : Nat)
    (hv : fs[i]? = some (k, v)) (hw : gs[i]? = some (k, w)) : sortKeys v = sortKeys w := by
  have hmem : (k, sortKeys v) ∈ gs.map (fun f => (f.1, sortKeys f.2)) :=
    (perm_of_sortKeys h).mem_iff.mp (List.mem_map.mpr ⟨_, List.mem_of_getElem? hv, rfl⟩)
  obtain ⟨⟨k', v'⟩, hv', hsame⟩ := List.mem_map.mp hmem
  rw [Prod.mk.injEq] at hsame
  have hfield := List.inj_on_of_nodup_map hkeys hv' (List.mem_of_getElem? hw) hsame.1
  rw [Prod.mk.injEq] at hfield
  rw [← hsame.2, hfield.2]

/-! ## Writing and reading back -/

/-- A writer and a reader of documents. -/
structure Codec where
  dumps : Json → String
  loads : String → Option Json
  loads_dumps : ∀ v, loads (dumps v) = some v

/-- The fields stay in their order. -/
def asciiCodec : Codec where
  dumps v := String.ofList ((print v).flatMap toAscii)
  loads text := loads (String.ofList (fromAscii text.toList))
  loads_dumps v := by
    have hread := readValue_print v (print v).length [] le_rfl (by simp [Ends])
    rw [List.append_nil] at hread
    rw [String.toList_ofList, fromAscii_flatMap (balanced_print v)]
    simp [loads, hread]

end Json
end AgenticPlatform.Foundation
