import Mathlib.Data.List.Basic

/-!
# UTF-8 and replacement characters

`bytes.decode("utf-8", errors="replace")`: a character where one is encoded, and U+FFFD for
the longest start of one where none is. What is decoded without a replacement is the text the
bytes encode, and a text can be cut in two only between its characters.
-/
namespace AgenticPlatform.Foundation

def replacement : Char := '\uFFFD'

def utf8 (cs : List Char) : List UInt8 := cs.flatMap String.utf8EncodeChar

/-- The character that the bytes start with. -/
def decodeFirst (bs : List UInt8) : Option Char := (bs.take 4).toByteArray.utf8DecodeChar? 0

/-- The bounds of the bytes that may follow a first byte. -/
def continuations (b : UInt8) : List (UInt8 × UInt8) :=
  if 0xc2 ≤ b ∧ b ≤ 0xdf then [(0x80, 0xbf)]
  else if b = 0xe0 then [(0xa0, 0xbf), (0x80, 0xbf)]
  else if b = 0xed then [(0x80, 0x9f), (0x80, 0xbf)]
  else if 0xe1 ≤ b ∧ b ≤ 0xef then [(0x80, 0xbf), (0x80, 0xbf)]
  else if b = 0xf0 then [(0x90, 0xbf), (0x80, 0xbf), (0x80, 0xbf)]
  else if 0xf1 ≤ b ∧ b ≤ 0xf3 then [(0x80, 0xbf), (0x80, 0xbf), (0x80, 0xbf)]
  else if b = 0xf4 then [(0x80, 0x8f), (0x80, 0xbf), (0x80, 0xbf)]
  else []

/-- How many bytes keep within the bounds. -/
def matching : List (UInt8 × UInt8) → List UInt8 → Nat
  | (low, high) :: bounds, b :: bs => if low ≤ b ∧ b ≤ high then matching bounds bs + 1 else 0
  | _, _ => 0

/-- With the number of bytes to pass over first. -/
def decodeFrom : Nat → List UInt8 → List Char
  | _, [] => []
  | skip + 1, _ :: bs => decodeFrom skip bs
  | 0, b :: bs =>
    match decodeFirst (b :: bs) with
    | some c => c :: decodeFrom (c.utf8Size - 1) bs
    | none => replacement :: decodeFrom (matching (continuations b) bs) bs

def decodeReplace (bs : List UInt8) : List Char := decodeFrom 0 bs

/-- The bytes of whole characters. -/
def WholeChars (bs : List UInt8) : Prop := ∃ cs, bs = utf8 cs

/-! ## One character -/

@[simp] theorem utf8_nil : utf8 [] = [] := rfl

@[simp] theorem utf8_cons (c : Char) (cs : List Char) :
    utf8 (c :: cs) = String.utf8EncodeChar c ++ utf8 cs :=
  List.flatMap_cons

@[simp] theorem utf8_append (cs ds : List Char) : utf8 (cs ++ ds) = utf8 cs ++ utf8 ds :=
  List.flatMap_append

theorem decodeFirst_append (c : Char) (bs : List UInt8) :
    decodeFirst (String.utf8EncodeChar c ++ bs) = some c := by
  have hshort : (String.utf8EncodeChar c).length ≤ 4 := by
    rw [String.length_utf8EncodeChar]
    exact c.utf8Size_le_four
  rw [decodeFirst, List.take_append, List.take_of_length_le hshort, List.toByteArray_append]
  exact ByteArray.utf8DecodeChar?_utf8EncodeChar_append

theorem encoded_of_decodeFirst {bs : List UInt8} {c : Char} (h : decodeFirst bs = some c) :
    bs = String.utf8EncodeChar c ++ bs.drop c.utf8Size := by
  have hbytes := String.toByteArray_utf8EncodeChar_of_utf8DecodeChar?_eq_some h
  have hsize : c.utf8Size ≤ (bs.take 4).length := by
    have hsizes := congrArg ByteArray.size hbytes
    rw [List.size_toByteArray, String.length_utf8EncodeChar, ByteArray.size_extract,
      List.size_toByteArray] at hsizes
    omega
  have hsplit : (bs.take 4).toByteArray = ((bs.take 4).take c.utf8Size).toByteArray ++
      ((bs.take 4).drop c.utf8Size).toByteArray := by
    rw [← List.toByteArray_append, List.take_append_drop]
  have hstart : c.utf8Size = ((bs.take 4).take c.utf8Size).toByteArray.size := by
    rw [List.size_toByteArray, List.length_take, Nat.min_eq_left hsize]
  rw [hsplit, ByteArray.extract_append_eq_left hstart, List.toByteArray_inj, List.take_take,
    Nat.min_eq_left c.utf8Size_le_four] at hbytes
  rw [hbytes, List.take_append_drop]

/-! ## Decoding -/

@[simp] theorem decodeFrom_nil (skip : Nat) : decodeFrom skip [] = [] := by
  cases skip <;> rfl

@[simp] theorem decodeReplace_nil : decodeReplace [] = [] := rfl

theorem decodeFrom_eq (skip : Nat) (bs : List UInt8) :
    decodeFrom skip bs = decodeReplace (bs.drop skip) := by
  induction bs generalizing skip with
  | nil => simp [decodeReplace]
  | cons b bs ih =>
    cases skip with
    | zero => rfl
    | succ skip => exact ih skip

theorem decodeReplace_encoded (c : Char) (bs : List UInt8) :
    decodeReplace (String.utf8EncodeChar c ++ bs) = c :: decodeReplace bs := by
  have hfirst := decodeFirst_append c bs
  have hlength := String.length_utf8EncodeChar c
  cases hbytes : String.utf8EncodeChar c with
  | nil => exact absurd hbytes String.utf8EncodeChar_ne_nil
  | cons b tail =>
    rw [hbytes] at hfirst hlength
    have htail : tail.length = c.utf8Size - 1 := by
      rw [← hlength]
      rfl
    rw [List.cons_append] at hfirst ⊢
    rw [decodeReplace, decodeFrom, hfirst]
    simp only [decodeFrom_eq, ← htail, List.drop_left]

/-- What is encoded is decoded, whatever comes after it. -/
theorem decodeReplace_utf8_append (cs : List Char) (bs : List UInt8) :
    decodeReplace (utf8 cs ++ bs) = cs ++ decodeReplace bs := by
  induction cs with
  | nil => rfl
  | cons c cs ih => rw [utf8_cons, List.append_assoc, decodeReplace_encoded, ih, List.cons_append]

@[simp] theorem decodeReplace_utf8 (cs : List Char) : decodeReplace (utf8 cs) = cs := by
  have happend := decodeReplace_utf8_append cs []
  rwa [List.append_nil, decodeReplace_nil, List.append_nil] at happend

/-- One for the start of a character, and one for each byte of a surrogate. -/
example : decodeReplace [0x61, 0xe2, 0x82, 0x41, 0xed, 0xa0, 0x80] =
    ['a', replacement, 'A', replacement, replacement, replacement] := by decide +kernel

/-- Without a replacement nothing was lost. -/
theorem utf8_decodeReplace {bs : List UInt8} (h : replacement ∉ decodeReplace bs) :
    utf8 (decodeReplace bs) = bs := by
  match bs with
  | [] => rfl
  | b :: bs =>
    rw [decodeReplace, decodeFrom] at h ⊢
    cases hfirst : decodeFirst (b :: bs) with
    | none =>
      rw [hfirst] at h
      exact absurd List.mem_cons_self h
    | some c =>
      have hencoded := encoded_of_decodeFirst hfirst
      have hdrop : (b :: bs).drop c.utf8Size = bs.drop (c.utf8Size - 1) := by
        obtain ⟨n, hn⟩ := Nat.exists_eq_succ_of_ne_zero (Nat.ne_of_gt c.utf8Size_pos)
        rw [hn]
        rfl
      rw [hfirst] at h
      simp only [decodeFrom_eq] at h ⊢
      have hrest : replacement ∉ decodeReplace (bs.drop (c.utf8Size - 1)) :=
        fun hmem => h (List.mem_cons_of_mem _ hmem)
      have hshort : (bs.drop (c.utf8Size - 1)).length < (b :: bs).length := by
        rw [List.length_drop, List.length_cons]
        omega
      rw [utf8_cons, utf8_decodeReplace hrest, ← hdrop, ← hencoded]
  termination_by bs.length
  decreasing_by exact hshort

/-! ## Cuts -/

theorem wholeChars_utf8 (cs : List Char) : WholeChars (utf8 cs) := ⟨cs, rfl⟩

theorem WholeChars.of_clean {bs : List UInt8} (h : replacement ∉ decodeReplace bs) :
    WholeChars bs :=
  ⟨decodeReplace bs, (utf8_decodeReplace h).symm⟩

/-- What is left of a text behind whole characters is whole characters. -/
theorem WholeChars.of_append {bs bs' : List UInt8} (hbs : WholeChars bs)
    (h : WholeChars (bs ++ bs')) : WholeChars bs' := by
  obtain ⟨cs, rfl⟩ := hbs
  obtain ⟨ds, hds⟩ := h
  refine ⟨decodeReplace bs', ?_⟩
  have hdecoded := congrArg decodeReplace hds
  rw [decodeReplace_utf8_append, decodeReplace_utf8] at hdecoded
  rw [← hdecoded, utf8_append] at hds
  exact List.append_cancel_left hds

theorem WholeChars.append {bs bs' : List UInt8} (h : WholeChars bs) (h' : WholeChars bs') :
    WholeChars (bs ++ bs') := by
  obtain ⟨cs, rfl⟩ := h
  obtain ⟨ds, rfl⟩ := h'
  exact ⟨cs ++ ds, (utf8_append cs ds).symm⟩

/-- No byte within a character starts one. -/
theorem encoded_first {c : Char} {bs rest : List UInt8} {b : UInt8}
    (h : String.utf8EncodeChar c = bs ++ b :: rest) (hfirst : b.IsUTF8FirstByte) : bs = [] := by
  have hlt : bs.length < (String.utf8EncodeChar c).length := by
    rw [h, List.length_append, List.length_cons]
    omega
  have hbyte : (String.utf8EncodeChar c)[bs.length] = b := by
    simp only [h, List.getElem_append_right (Nat.le_refl _), Nat.sub_self, List.getElem_cons_zero]
  rw [← hbyte, UInt8.isUTF8FirstByte_getElem_utf8EncodeChar] at hfirst
  exact List.length_eq_zero_iff.mp hfirst

theorem utf8_first {b : UInt8} {bs : List UInt8} {cs : List Char} (h : utf8 cs = b :: bs) :
    b.IsUTF8FirstByte := by
  cases cs with
  | nil => cases h
  | cons c cs =>
    cases hbytes : String.utf8EncodeChar c with
    | nil => exact absurd hbytes String.utf8EncodeChar_ne_nil
    | cons b' tail =>
      rw [utf8_cons, hbytes, List.cons_append] at h
      have hpos : 0 < (String.utf8EncodeChar c).length := by simp [hbytes]
      have hzero : (String.utf8EncodeChar c)[0] = b' := by simp [hbytes]
      rw [← (List.cons.inj h).1, ← hzero]
      exact UInt8.isUTF8FirstByte_getElem_utf8EncodeChar.mpr rfl

/-- What stands before whole characters in a text is whole characters. -/
theorem WholeChars.of_append_right {bs bs' : List UInt8} (hbs' : WholeChars bs')
    (h : WholeChars (bs ++ bs')) : WholeChars bs := by
  obtain ⟨ds, rfl⟩ := hbs'
  obtain ⟨cs, hcs⟩ := h
  induction cs generalizing bs with
  | nil => exact ⟨[], (List.append_eq_nil_iff.mp hcs).1⟩
  | cons c cs ih =>
    rw [utf8_cons] at hcs
    rcases List.append_eq_append_iff.mp hcs with ⟨within, hchar, hrest⟩ | ⟨between, hbefore, hrest⟩
    · cases within with
      | nil => exact ⟨[c], by rw [utf8_cons, utf8_nil, List.append_nil, hchar, List.append_nil]⟩
      | cons b within =>
        -- the cut would be inside `c`, before a byte that starts a character
        exact ⟨[], encoded_first hchar (utf8_first hrest)⟩
    · have hchar : WholeChars (String.utf8EncodeChar c) :=
        ⟨[c], by rw [utf8_cons, utf8_nil, List.append_nil]⟩
      rw [hbefore]
      exact hchar.append (ih hrest.symm)

end AgenticPlatform.Foundation
