import AgenticPlatform.Corpus.ChunkedText
import AgenticPlatform.Foundation.Utf8

/-!
# Cuts between tokens

A byte-level tokenizer may spread one character over several tokens. A piece that is too long
is cut after every so many tokens, and an overlap begins so many before the end; what is
decoded on both sides of a cut is the text there if the cut falls between two characters, and
has replacement characters if it falls into one.
-/
namespace AgenticPlatform.Corpus
open AgenticPlatform.Foundation

/-- The tokens of a text stand for bytes, one at least, and together for its UTF-8. -/
structure ByteTokenizer (τ : Type*) where
  bytes : τ → List UInt8
  encode : Chars → List τ
  bytes_ne_nil : ∀ text, ∀ token ∈ encode text, bytes token ≠ []
  bytes_encode : ∀ text, (encode text).flatMap bytes = utf8 text

section
variable {τ : Type*} (t : ByteTokenizer τ)

def ByteTokenizer.decode (tokens : List τ) : Chars := decodeReplace (tokens.flatMap t.bytes)

def ByteTokenizer.tokenizer : Tokenizer τ := ⟨t.encode, t.decode⟩

/-- The first so many tokens of the text are those of whole characters. -/
def ByteTokenizer.CutsBetween (text : Chars) (n : Nat) : Prop :=
  WholeChars (((t.encode text).take n).flatMap t.bytes)

/-- A piece that is too long is cut between characters only. -/
def PieceCuts (paragraph : Chars) : Prop :=
  ∀ piece ∈ packedSentences t.tokenizer paragraph, targetTokens < (t.encode piece).length →
    ∀ k, t.CutsBetween piece (k * targetTokens)

/-- The overlap begins between characters. -/
def OverlapCut (text : Chars) : Prop :=
  overlapTokens < (t.encode text).length →
    t.CutsBetween text ((t.encode text).length - overlapTokens)

/-- No piece of the paragraph and no overlap of the text has a replacement character, and the
pieces are the paragraph but for white space. -/
structure CutClean (paragraph text : Chars) : Prop where
  pieces : ∀ piece ∈ splitOversized t.tokenizer paragraph, replacement ∉ piece
  overlap : replacement ∉ overlapPrefix t.tokenizer text
  whole : (splitOversized t.tokenizer paragraph).flatMap unspaced = unspaced paragraph

end

/-! ## Replacement characters -/

theorem replacement_mem_unspaced {cs : Chars} : replacement ∈ unspaced cs ↔ replacement ∈ cs := by
  have hmark : isSpace replacement = false := by decide
  simp [unspaced, List.mem_filter, hmark]

theorem replacement_mem_stripChars {cs : Chars} :
    replacement ∈ stripChars cs ↔ replacement ∈ cs := by
  rw [← replacement_mem_unspaced, unspaced_stripChars, replacement_mem_unspaced]

/-- Packing brings no replacement character in. -/
theorem packedSentences_clean {τ : Type*} {t : Tokenizer τ} {paragraph piece : Chars}
    (h : replacement ∉ paragraph) (hpiece : piece ∈ packedSentences t paragraph) :
    replacement ∉ piece := by
  intro hmem
  refine h (replacement_mem_unspaced.mp ?_)
  rw [← unspaced_packedSentences (t := t)]
  exact List.mem_flatMap.mpr ⟨piece, hpiece, replacement_mem_unspaced.mpr hmem⟩

/-! ## Slices -/

section
variable {α : Type*} {f : α → List UInt8} {size : Nat} {l : List α}

/-- Every slice is of whole characters exactly where every cut between slices is between two. -/
theorem wholeChars_slices_iff (hpos : 0 < size) :
    (∀ slice ∈ slices size l, WholeChars (slice.flatMap f)) ↔
      ∀ k, WholeChars ((l.take (k * size)).flatMap f) := by
  constructor
  · intro hslices k
    induction k with
    | zero => simpa using wholeChars_utf8 []
    | succ k ih =>
      rw [Nat.succ_mul, List.take_add, List.flatMap_append]
      refine ih.append ?_
      by_cases hk : k < (l.length + (size - 1)) / size
      · exact hslices _ (List.mem_map.mpr ⟨k, List.mem_range.mpr hk, rfl⟩)
      · -- past the last slice nothing is left
        rw [List.drop_eq_nil_of_le (length_le_of_slices hpos (Nat.not_lt.mp hk))]
        simpa using wholeChars_utf8 []
  · intro htakes slice hslice
    obtain ⟨k, -, rfl⟩ := List.mem_map.mp hslice
    have hnext := htakes (k + 1)
    rw [Nat.succ_mul, List.take_add, List.flatMap_append] at hnext
    exact WholeChars.of_append (htakes k) hnext

end

/-! ## Pieces and overlaps -/

section
variable {τ : Type*} {t : ByteTokenizer τ}

theorem flatMap_decode {tokenss : List (List τ)}
    (h : ∀ tokens ∈ tokenss, WholeChars (tokens.flatMap t.bytes)) :
    tokenss.flatMap t.decode = t.decode tokenss.flatten := by
  induction tokenss with
  | nil => rfl
  | cons tokens tokenss ih =>
    obtain ⟨cs, hcs⟩ := h tokens List.mem_cons_self
    rw [List.flatMap_cons, ih (fun rest hrest => h rest (List.mem_cons_of_mem tokens hrest)),
      List.flatten_cons]
    simp only [ByteTokenizer.decode, List.flatMap_append, hcs, decodeReplace_utf8,
      decodeReplace_utf8_append]

theorem decode_encode (text : Chars) : t.decode (t.encode text) = text := by
  rw [ByteTokenizer.decode, t.bytes_encode, decodeReplace_utf8]

/-- Cut between characters, the slices decode to the piece. -/
theorem decoded_of_cuts {piece : Chars} (h : ∀ k, t.CutsBetween piece (k * targetTokens)) :
    (slices targetTokens (t.encode piece)).flatMap t.decode = piece := by
  rw [flatMap_decode ((wholeChars_slices_iff (by decide)).mpr h), slices_flatten (by decide),
    decode_encode]

theorem cutOnTokens_long {piece : Chars} (h : targetTokens < (t.encode piece).length) :
    cutOnTokens t.tokenizer piece =
      (slices targetTokens (t.encode piece)).map (fun tokens => stripChars (t.decode tokens)) :=
  if_neg (Nat.not_le.mpr h)

theorem cutOnTokens_short {piece : Chars} (h : ¬ targetTokens < (t.encode piece).length) :
    cutOnTokens t.tokenizer piece = [piece] :=
  if_pos (Nat.not_lt.mp h)

/-- A piece that is too long is cut without replacement characters exactly where it is cut
between characters. -/
theorem cutOnTokens_clean_iff {piece : Chars} (hpiece : replacement ∉ piece)
    (hlong : targetTokens < (t.encode piece).length) :
    (∀ cut ∈ cutOnTokens t.tokenizer piece, replacement ∉ cut) ↔
      ∀ k, t.CutsBetween piece (k * targetTokens) := by
  rw [cutOnTokens_long hlong, List.forall_mem_map]
  simp only [replacement_mem_stripChars]
  constructor
  · intro hclean
    exact (wholeChars_slices_iff (by decide)).mp
      (fun slice hslice => WholeChars.of_clean (hclean slice hslice))
  · intro hbetween slice hslice hmem
    refine hpiece ?_
    rw [← decoded_of_cuts hbetween]
    exact List.mem_flatMap.mpr ⟨slice, hslice, hmem⟩

theorem overlapPrefix_clean_iff {text : Chars} (htext : replacement ∉ text) :
    replacement ∉ overlapPrefix t.tokenizer text ↔ OverlapCut t text := by
  by_cases hlong : overlapTokens < (t.encode text).length
  · have hcut : overlapPrefix t.tokenizer text =
        stripChars (t.decode ((t.encode text).drop ((t.encode text).length - overlapTokens))) :=
      if_neg (Nat.not_le.mpr hlong)
    have hbytes : ((t.encode text).take ((t.encode text).length - overlapTokens)).flatMap t.bytes ++
        ((t.encode text).drop ((t.encode text).length - overlapTokens)).flatMap t.bytes =
        utf8 text := by
      rw [← List.flatMap_append, List.take_append_drop, t.bytes_encode]
    have hwhole := wholeChars_utf8 text
    rw [← hbytes] at hwhole
    rw [hcut, replacement_mem_stripChars]
    constructor
    · intro hclean _
      exact WholeChars.of_append_right (WholeChars.of_clean hclean) hwhole
    · intro hbetween hmem
      obtain ⟨before, hbefore⟩ := hbetween hlong
      refine htext ?_
      -- the text is what comes before the cut and what is decoded behind it
      rw [← decodeReplace_utf8 text, ← hbytes, hbefore, decodeReplace_utf8_append]
      exact List.mem_append_right before hmem
  · have hshort : overlapPrefix t.tokenizer text = text := if_pos (Nat.not_lt.mp hlong)
    rw [hshort]
    exact iff_of_true htext (fun h => absurd h hlong)

/-- No piece and no overlap has a replacement character, and no text is lost, exactly where
every cut between tokens falls between two characters. -/
theorem cut_clean_iff {paragraph text : Chars} (hparagraph : replacement ∉ paragraph)
    (htext : replacement ∉ text) :
    CutClean t paragraph text ↔ PieceCuts t paragraph ∧ OverlapCut t text := by
  constructor
  · intro hclean
    refine ⟨?_, (overlapPrefix_clean_iff htext).mp hclean.overlap⟩
    intro piece hpiece hlong
    refine (cutOnTokens_clean_iff (packedSentences_clean hparagraph hpiece) hlong).mp ?_
    intro cut hcut hmem
    have hkept : cut ∈ splitOversized t.tokenizer paragraph :=
      List.mem_filter.mpr
        ⟨List.mem_flatMap.mpr ⟨piece, hpiece, hcut⟩, decide_eq_true (List.ne_nil_of_mem hmem)⟩
    exact hclean.pieces cut hkept hmem
  · rintro ⟨hpieces, hoverlap⟩
    refine ⟨?_, (overlapPrefix_clean_iff htext).mpr hoverlap, ?_⟩
    · intro cut hcut
      obtain ⟨piece, hpiece, hcut⟩ := List.mem_flatMap.mp (List.mem_filter.mp hcut).1
      have hclean := packedSentences_clean hparagraph hpiece
      by_cases hlong : targetTokens < (t.encode piece).length
      · exact (cutOnTokens_clean_iff hclean hlong).mpr (hpieces piece hpiece hlong) cut hcut
      · rw [cutOnTokens_short hlong] at hcut
        rwa [List.mem_singleton.mp hcut]
    · refine unspaced_splitOversized_of_cut ?_
      intro piece hpiece
      by_cases hlong : targetTokens < (t.encode piece).length
      · exact unspaced_cutOnTokens_of_decoded (decoded_of_cuts (hpieces piece hpiece hlong))
      · rw [cutOnTokens_short hlong, List.flatMap_cons, List.flatMap_nil, List.append_nil]

end

/-! ## One token for each byte -/

def byteTokenizer : ByteTokenizer UInt8 where
  bytes b := [b]
  encode := utf8
  bytes_ne_nil _ _ _ := List.cons_ne_nil _ _
  bytes_encode _ := List.flatMap_singleton' _

/-- A letter of two bytes, the first of which is the last token of a slice. -/
def cutLetter : Chars := List.replicate 419 'a' ++ ['é']

/-- The second byte is the first token of the overlap. -/
def cutOverlap : Chars := 'é' :: List.replicate 59 'a'

theorem letter_cut_in_two :
    replacement ∉ cutLetter ∧ replacement ∉ cutOverlap ∧
      splitOversized byteTokenizer.tokenizer cutLetter =
      [List.replicate 419 'a' ++ [replacement], [replacement]] ∧
      overlapPrefix byteTokenizer.tokenizer cutOverlap = replacement :: List.replicate 59 'a' ∧
      ¬ CutClean byteTokenizer cutLetter cutOverlap := by
  have hpieces : splitOversized byteTokenizer.tokenizer cutLetter =
      [List.replicate 419 'a' ++ [replacement], [replacement]] := by
    decide +kernel
  refine ⟨by decide +kernel, by decide +kernel, hpieces, by decide +kernel, ?_⟩
  intro hclean
  have hlast := hclean.pieces [replacement] (hpieces ▸ List.mem_cons_of_mem _ List.mem_cons_self)
  exact hlast List.mem_cons_self

theorem cutsBetween_append (u v : Chars) : byteTokenizer.CutsBetween (u ++ v) (utf8 u).length := by
  refine ⟨u, ?_⟩
  have hencode : byteTokenizer.encode (u ++ v) = utf8 u ++ utf8 v := utf8_append u v
  rw [hencode, List.take_left]
  exact List.flatMap_singleton' _

theorem cutsBetween_of_length_le {text : Chars} {n : Nat} (h : (utf8 text).length ≤ n) :
    byteTokenizer.CutsBetween text n := by
  refine ⟨text, ?_⟩
  have hall : (byteTokenizer.encode text).take n = utf8 text := List.take_of_length_le h
  rw [hall]
  exact List.flatMap_singleton' _

/-- A letter of two bytes right behind the first slice. -/
def letterBehind : Chars := List.replicate 420 'a' ++ ['é']

/-- The overlap begins with the letter. -/
def overlapFrom : Chars := List.replicate 2 'a' ++ 'é' :: List.replicate 58 'a'

theorem letterBehind_cutsBetween (k : Nat) :
    byteTokenizer.CutsBetween letterBehind (k * targetTokens) := by
  match k with
  | 0 => exact cutsBetween_append [] letterBehind
  | 1 =>
    have hone : (utf8 (List.replicate 420 'a')).length = 1 * targetTokens := by decide +kernel
    rw [← hone]
    exact cutsBetween_append (List.replicate 420 'a') ['é']
  | k + 2 =>
    refine cutsBetween_of_length_le ?_
    have htwo : (utf8 letterBehind).length ≤ 2 * targetTokens := by decide +kernel
    exact htwo.trans (Nat.mul_le_mul_right targetTokens (Nat.le_add_left 2 k))

theorem cut_clean_letterBehind : CutClean byteTokenizer letterBehind overlapFrom := by
  have hpacked : packedSentences byteTokenizer.tokenizer letterBehind = [letterBehind] := by
    decide +kernel
  refine (cut_clean_iff (by decide +kernel) (by decide +kernel)).mpr ⟨?_, ?_⟩
  · intro piece hpiece _ k
    rw [hpacked, List.mem_singleton] at hpiece
    rw [hpiece]
    exact letterBehind_cutsBetween k
  · exact fun _ => cutsBetween_append (List.replicate 2 'a') ('é' :: List.replicate 58 'a')

end AgenticPlatform.Corpus
