import AgenticPlatform.Corpus.ChunkedText
import AgenticPlatform.Foundation.Groups

/-!
# The size of a chunk

A piece has at most the target, the overlap, a separator and what counting anew may cost. The
merge puts every runt behind the piece before it, as often as one comes, and looks at the
headings only: where a section opens with a runt under the heading of the section before it,
its text ends up in that section's chunk.
-/
namespace AgenticPlatform.Corpus
open AgenticPlatform.Foundation

/-! ## Pieces and what is made of them -/

/-- A piece, with the number of its section. -/
abbrev Numbered := Nat × Passage

section
variable {τ : Type*} (t : Tokenizer τ)

def numberedPieces (text : Chars) : List Numbered :=
  (sectionsOf text).zipIdx.flatMap
    (fun sec => (packSection t sec.1).map (fun piece => (sec.2, piece)))

/-- The second is a runt under the heading of the first. -/
def absorbs (a b : Numbered) : Bool := decide (a.2.1 = b.2.1 ∧ t.count b.2.2 < minTokens)

/-- Pieces with the runts that are put behind them. -/
def assembled (text : Chars) : List (List Numbered) := (numberedPieces t text).splitBy (absorbs t)

/-- The passage that is made of them. -/
def joined (g : List Numbered) : Passage :=
  (g.getLast?.bind (fun a => a.2.1), ['\n', '\n'].intercalate (g.map (fun a => a.2.2)))

end

section
variable {τ : Type*} {t : Tokenizer τ}

theorem map_numberedPieces (text : Chars) :
    (numberedPieces t text).map Prod.snd = piecesOf t text := by
  have hsections : (sectionsOf text).zipIdx.map Prod.fst = sectionsOf text :=
    List.zipIdx_map_fst 0 _
  rw [piecesOf, ← hsections, List.flatMap_map, numberedPieces, List.map_flatMap]
  simp only [List.map_map, Function.comp_def, List.map_id']

theorem joined_singleton (b : Numbered) : joined [b] = b.2 := by
  rw [joined, List.map_singleton, List.intercalate_singleton]
  rfl

theorem joined_concat {g : List Numbered} (hg : g ≠ []) (b : Numbered) :
    joined (g ++ [b]) = (b.2.1, (joined g).2 ++ ['\n', '\n'] ++ b.2.2) := by
  have hbodies : g.map (fun a => a.2.2) ≠ [] := fun hnil => hg (List.map_eq_nil_iff.mp hnil)
  rw [joined, joined, List.getLast?_concat, List.map_append, List.map_singleton,
    intercalate_concat _ hbodies]
  rfl

/-- The merge joins the groups. -/
theorem foldl_mergePiece_eq (l : List Numbered) :
    (l.map Prod.snd).foldl (mergePiece t) [] = (l.splitBy (absorbs t)).map joined := by
  induction l using List.reverseRecOn with
  | nil => rfl
  | append_singleton l b ih =>
    rw [List.map_append, List.map_singleton, List.foldl_append, ih, List.foldl_cons, List.foldl_nil]
    rcases List.eq_nil_or_concat' (l.splitBy (absorbs t)) with hnil | ⟨gs, g, hgs⟩
    · have hone : ([] ++ [b]).splitBy (absorbs t) = [[b]] := splitBy_concat_apart nofun
      rw [hnil, List.splitBy_eq_nil.mp hnil, hone, List.map_singleton, joined_singleton]
      rfl
    · have hg : g ≠ [] :=
        List.ne_nil_of_mem_splitBy (hgs ▸ List.mem_append_right gs List.mem_cons_self)
      obtain ⟨last, hlast⟩ := List.getLast?_isSome.mpr hg |> Option.isSome_iff_exists.mp
      have hheading : (joined g).1 = last.2.1 := by rw [joined, hlast]; rfl
      rw [hgs, List.map_append, List.map_singleton, mergePiece, List.getLast?_concat]
      simp only [hheading]
      by_cases habsorbs : last.2.1 = b.2.1 ∧ t.count b.2.2 < minTokens
      · have hconcat : (l ++ [b]).splitBy (absorbs t) = gs ++ [g ++ [b]] := by
          refine splitBy_concat hgs ?_
          intro a ha
          cases Option.some.inj (hlast.symm.trans ha)
          exact decide_eq_true habsorbs
        rw [if_pos habsorbs, hconcat, List.dropLast_concat, List.map_append, List.map_singleton,
          joined_concat hg]
      · have hconcat : (l ++ [b]).splitBy (absorbs t) = l.splitBy (absorbs t) ++ [[b]] := by
          refine splitBy_concat_apart ?_
          intro a ha
          rw [getLast?_splitBy hgs, hlast] at ha
          cases ha
          exact decide_eq_false habsorbs
        rw [if_neg habsorbs, hconcat, hgs, List.map_append, List.map_append, List.map_singleton,
          List.map_singleton, joined_singleton]

theorem passagesOf_eq (text : Chars) : passagesOf t text = (assembled t text).map joined := by
  rw [passagesOf, ← map_numberedPieces, foldl_mergePiece_eq, assembled]

end

/-! ## Counting tokens -/

/-- What a stretch of tokens may cost more when it is decoded, stripped and encoded anew: a
blank that was part of a token is gone, and the bytes of a character may have been cut. -/
def recountSlack : Nat := 60

/-- Texts put together have no more tokens than their parts, a blank line has two at most,
and a stretch of the tokens of a text is encoded anew in few more. -/
structure Tokenizer.Subadditive {τ : Type*} (t : Tokenizer τ) : Prop where
  append : ∀ u v, t.count (u ++ v) ≤ t.count u + t.count v
  separator : t.count ['\n', '\n'] ≤ 2
  recount : ∀ text tokens, tokens <:+: t.encode text →
    t.count (stripChars (t.decode tokens)) ≤ tokens.length + recountSlack

section
variable {τ : Type*} {t : Tokenizer τ}

theorem Tokenizer.Subadditive.count_blocks (ht : t.Subadditive) (u v : Chars) :
    t.count (u ++ ['\n', '\n'] ++ v) ≤ t.count u + 2 + t.count v := by
  have houter := ht.append (u ++ ['\n', '\n']) v
  have hinner := ht.append u ['\n', '\n']
  have hseparator := ht.separator
  omega

theorem Tokenizer.Subadditive.count_intercalate (ht : t.Subadditive) {ls : List Chars}
    (hls : ls ≠ []) :
    t.count (['\n', '\n'].intercalate ls) + 2 ≤ (ls.map (fun l => t.count l + 2)).sum := by
  induction ls with
  | nil => exact absurd rfl hls
  | cons first ls ih =>
    cases ls with
    | nil => simp
    | cons second ls =>
      have hrest := ih (List.cons_ne_nil second ls)
      have hblocks := ht.count_blocks first (['\n', '\n'].intercalate (second :: ls))
      rw [List.intercalate_cons_cons, List.map_cons, List.sum_cons]
      omega

/-! ## The pieces of a section -/

/-- What a piece may have: the target, and an overlap and a separator before it. -/
def pieceBound : Nat := targetTokens + (overlapTokens + recountSlack) + 2

theorem slices_infix {α : Type*} {size : Nat} {l slice : List α} (h : slice ∈ slices size l) :
    slice <:+: l ∧ slice.length ≤ size := by
  obtain ⟨i, -, rfl⟩ := List.mem_map.mp h
  exact ⟨(List.take_prefix _ _).isInfix.trans (List.drop_suffix _ _).isInfix,
    List.length_take_le _ _⟩

theorem count_splitOversized (ht : t.Subadditive) {paragraph piece : Chars}
    (h : piece ∈ splitOversized t paragraph) : t.count piece ≤ targetTokens + recountSlack := by
  obtain ⟨packed, -, hcut⟩ := List.mem_flatMap.mp (List.mem_filter.mp h).1
  unfold cutOnTokens at hcut
  split at hcut
  · rename_i hshort
    rw [List.mem_singleton.mp hcut]
    exact hshort.trans (Nat.le_add_right _ _)
  · obtain ⟨tokens, htokens, rfl⟩ := List.mem_map.mp hcut
    obtain ⟨hpart, hlength⟩ := slices_infix htokens
    exact (ht.recount packed tokens hpart).trans (Nat.add_le_add_right hlength recountSlack)

theorem count_overlapPrefix (ht : t.Subadditive) (text : Chars) :
    t.count (overlapPrefix t text) ≤ overlapTokens + recountSlack := by
  simp only [overlapPrefix]
  split
  · rename_i hshort
    exact hshort.trans (Nat.le_add_right _ _)
  · refine (ht.recount text _ (List.drop_suffix _ _).isInfix).trans ?_
    rw [List.length_drop]
    omega

theorem stripChars_overlapPrefix {text : Chars} (h : stripChars text = text) :
    stripChars (overlapPrefix t text) = overlapPrefix t text := by
  simp only [overlapPrefix]
  split
  · exact h
  · exact stripChars_stripChars _

/-- Nothing is stripped from two stripped texts with a blank line between them; without the
first, the blank line is. -/
theorem stripChars_blocks {u v : Chars} (hu : stripChars u = u) (hv : stripChars v = v)
    (hne : v ≠ []) :
    stripChars (u ++ ['\n', '\n'] ++ v) = if u = [] then v else u ++ ['\n', '\n'] ++ v := by
  split
  · rename_i hempty
    have hdropped : stripChars ('\n' :: '\n' :: v) = stripChars v := by
      simp [stripChars, isSpace]
    rw [hempty]
    exact hdropped.trans hv
  · rename_i hopen
    refine stripChars_eq_self ?_ ?_
    · intro c hc
      rw [List.append_assoc, List.head?_append_of_ne_nil _ hopen] at hc
      exact head?_stripChars u c (hu.symm ▸ hc)
    · intro c hc
      rw [List.getLast?_append_of_ne_nil _ hne] at hc
      exact getLast?_stripChars v c (hv.symm ▸ hc)

/-- What is true of a section while it is packed. -/
structure Bounded (t : Tokenizer τ) (s : Packing) : Prop where
  full : ∀ p ∈ s.1, t.count p.2 ≤ pieceBound
  opened : s.2 ≠ [] → t.count s.2 ≤ pieceBound
  stripped : stripChars s.2 = s.2

theorem Bounded.closed {s : Packing} (h : Bounded t s) (heading : Option Chars) :
    ∀ p ∈ s.closed heading, t.count p.2 ≤ pieceBound := by
  unfold Packing.closed
  split
  · intro p hp
    rcases List.mem_append.mp hp with hp | hp
    · exact h.full p hp
    · rw [List.mem_singleton.mp hp]
      exact h.opened ‹_›
  · exact h.full

theorem Bounded.packParagraph (ht : t.Subadditive) {s : Packing} (h : Bounded t s)
    (heading : Option Chars) {paragraph : Chars} (hstripped : stripChars paragraph = paragraph)
    (hne : paragraph ≠ []) : Bounded t (Corpus.packParagraph t heading s paragraph) := by
  rcases packParagraph_cases t heading s paragraph with ⟨-, heq⟩ | ⟨hshort, hopen, heq⟩ |
    ⟨hshort, -, heq⟩ | ⟨-, hfits, heq⟩
  · rw [heq]
    refine ⟨?_, fun hnil => absurd rfl hnil, rfl⟩
    intro p hp
    rcases List.mem_append.mp hp with hp | hp
    · exact h.closed heading p hp
    · obtain ⟨piece, hpiece, rfl⟩ := List.mem_map.mp hp
      exact (count_splitOversized ht hpiece).trans (by decide)
  · rw [heq]
    refine ⟨?_, fun _ => ?_, stripChars_stripChars _⟩
    · intro p hp
      rcases List.mem_append.mp hp with hp | hp
      · exact h.full p hp
      · rw [List.mem_singleton.mp hp]
        exact h.opened hopen
    · rw [stripChars_blocks (stripChars_overlapPrefix h.stripped) hstripped hne]
      split
      · exact hshort.trans (by decide)
      · have hblocks := ht.count_blocks (overlapPrefix t s.2) paragraph
        have hoverlap := count_overlapPrefix ht s.2
        show t.count (overlapPrefix t s.2 ++ ['\n', '\n'] ++ paragraph) ≤
          targetTokens + (overlapTokens + recountSlack) + 2
        omega
  · rw [heq]
    exact ⟨h.full, fun _ => hshort.trans (by decide), hstripped⟩
  · rw [heq]
    exact ⟨h.full, fun _ => hfits.trans (by decide), stripChars_stripChars _⟩

theorem count_packSection (ht : t.Subadditive) (s : Passage) :
    ∀ p ∈ packSection t s, t.count p.2 ≤ pieceBound := by
  have hfold : ∀ (paragraphs : List Chars), (∀ p ∈ paragraphs, stripChars p = p ∧ p ≠ []) →
      ∀ start : Packing, Bounded t start →
      Bounded t (paragraphs.foldl (packParagraph t s.1) start) := by
    intro paragraphs
    induction paragraphs with
    | nil => exact fun _ start h => h
    | cons first paragraphs ih =>
      intro hparagraphs start h
      obtain ⟨hstripped, hne⟩ := hparagraphs first List.mem_cons_self
      exact ih (fun p hp => hparagraphs p (List.mem_cons_of_mem first hp)) _
        (h.packParagraph ht s.1 hstripped hne)
  refine (hfold (paragraphsOf s.2) ?_ ([], [])
    ⟨fun p hp => absurd hp List.not_mem_nil, fun h => absurd rfl h, rfl⟩).closed s.1
  intro p hp
  refine ⟨?_, ne_nil_of_unspaced (unspaced_ne_nil_of_mem_paragraphsOf hp)⟩
  obtain ⟨part, -, rfl⟩ := List.mem_map.mp hp
  exact stripChars_stripChars part

end

/-! ## What is claimed of the chunks -/

/-- No chunk has more than twice the target and the tokens of its heading, and whatever a
chunk stands for is made of the pieces of one section. -/
structure ChunksBounded {τ : Type*} (env : ChunkingEnv τ) (text : Chars) (chunks : List Chunk) :
    Prop where
  sized : ∀ c ∈ chunks, env.tokenizer.count c.text.toList ≤
    2 * targetTokens + (c.heading.map (fun heading => env.tokenizer.count heading.toList)).getD 0
  single : ∀ c ∈ chunks, ∀ g ∈ assembled env.tokenizer text,
    canonicalId env (joined g).text = c.canonicalId → ∀ a ∈ g, ∀ b ∈ g, a.1 = b.1

section
variable {τ : Type*} (t : Tokenizer τ)

/-- No section opens with a runt under the heading of the piece before it. -/
def SectionsApart (text : Chars) : Prop :=
  (numberedPieces t text).IsChain (fun a b => a.1 ≠ b.1 → absorbs t a b = false)

/-- A piece and the runts that are put behind it have, with a separator for each, twice the
target at most. -/
def RuntsFit (text : Chars) : Prop :=
  ∀ g ∈ assembled t text, 2 ≤ g.length → (g.map (fun a => t.count a.2.2 + 2)).sum ≤ 2 * targetTokens

end

section
variable {τ : Type*} {env : ChunkingEnv τ} {text : Chars}

/-- Sections are kept apart exactly where none of them opens with such a runt. -/
theorem sectionsApart_iff (t : Tokenizer τ) (text : Chars) :
    SectionsApart t text ↔ ∀ g ∈ assembled t text, ∀ a ∈ g, ∀ b ∈ g, a.1 = b.1 := by
  rw [assembled, splitBy_kinds_iff, SectionsApart]
  refine List.IsChain.iff ?_
  intro a b
  rw [not_imp_comm, Bool.not_eq_false]

theorem count_joined (ht : env.tokenizer.Subadditive) (hfit : RuntsFit env.tokenizer text)
    {g : List Numbered} (hg : g ∈ assembled env.tokenizer text) :
    env.tokenizer.count (joined g).2 + 2 ≤ 2 * targetTokens := by
  have hne : g ≠ [] := List.ne_nil_of_mem_splitBy hg
  have hbodies : g.map (fun a => a.2.2) ≠ [] := fun hnil => hne (List.map_eq_nil_iff.mp hnil)
  have hjoin := ht.count_intercalate hbodies
  rw [List.map_map] at hjoin
  refine hjoin.trans ?_
  rcases Nat.lt_or_ge g.length 2 with hone | hmore
  · -- a piece without runts
    cases g with
    | nil => exact absurd rfl hne
    | cons a rest =>
      cases rest with
      | cons b rest =>
        rw [List.length_cons, List.length_cons] at hone
        omega
      | nil =>
        have hmem : a ∈ numberedPieces env.tokenizer text := by
          rw [← List.flatten_splitBy (absorbs env.tokenizer) (numberedPieces env.tokenizer text)]
          exact List.mem_flatten.mpr ⟨[a], hg, List.mem_cons_self⟩
        obtain ⟨sec, -, hsec⟩ := List.mem_flatMap.mp hmem
        obtain ⟨piece, hpiece, rfl⟩ := List.mem_map.mp hsec
        have hbound := count_packSection ht sec.1 piece hpiece
        have hroom : pieceBound + 2 ≤ 2 * targetTokens := by decide
        simp only [List.map_cons, List.map_nil, List.sum_cons, List.sum_nil, Function.comp_apply]
        omega
  · exact hfit g hg hmore

theorem sized_of_joined (ht : env.tokenizer.Subadditive) {p : Passage} {c : Chunk}
    (hmade : MadeOf env p c) (hbody : env.tokenizer.count p.2 + 2 ≤ 2 * targetTokens) :
    env.tokenizer.count c.text.toList ≤
      2 * targetTokens +
      (c.heading.map (fun heading => env.tokenizer.count heading.toList)).getD 0 := by
  rw [hmade.text, hmade.heading, String.toList_ofList]
  obtain ⟨heading, body⟩ := p
  cases heading with
  | none =>
    have htext : Passage.text (none, body) = body := rfl
    rw [htext]
    simp only at hbody
    omega
  | some heading =>
    simp only [Option.map_some, Option.getD_some, String.toList_ofList]
    simp only at hbody
    rw [Passage.text]
    split
    · have hblocks := ht.count_blocks heading body
      omega
    · omega

/-- Where no section opens with a runt under the heading before it, and the runts fit, the
chunks are bounded; and where they are, no section opens with one. -/
theorem chunks_bounded (ht : env.tokenizer.Subadditive) {filename : String} {data : Bytes}
    (htext : extractText env filename data = .ok text) :
    ∃ chunks, chunkDocument env filename data = .ok chunks ∧
      (SectionsApart env.tokenizer text ∧ RuntsFit env.tokenizer text →
        ChunksBounded env text chunks) ∧
      (ChunksBounded env text chunks → SectionsApart env.tokenizer text) := by
  obtain ⟨s, hchunks, hchunked⟩ := chunkDocument_ok htext
  refine ⟨s.1, hchunks, ?_, ?_⟩
  · rintro ⟨hapart, hfit⟩
    refine ⟨?_, fun c _ g hg _ => (sectionsApart_iff _ _).mp hapart g hg⟩
    intro c hc
    obtain ⟨p, hp, hmade⟩ := hchunked.made c hc
    rw [passagesOf_eq] at hp
    obtain ⟨g, hg, rfl⟩ := List.mem_map.mp hp
    exact sized_of_joined ht hmade (count_joined ht hfit hg)
  · intro hbounded
    refine (sectionsApart_iff _ _).mpr ?_
    intro g hg
    have hpassage : joined g ∈ passagesOf env.tokenizer text := by
      rw [passagesOf_eq]
      exact List.mem_map_of_mem hg
    obtain ⟨c, hc, hid, -⟩ := hchunked.stands _ hpassage
    exact hbounded.single c hc g hg hid.symm

end

/-! A paragraph without an end of a sentence is cut on tokens; the ten that are left are put
behind the piece before them, and the next section stays its own chunk. -/

theorem length_stripChars_le (cs : Chars) : (stripChars cs).length ≤ cs.length := by
  have hleft := (List.dropWhile_sublist isSpace (l := cs)).length_le
  have hright := (List.dropWhile_sublist isSpace (l := (cs.dropWhile isSpace).reverse)).length_le
  rw [stripChars, List.length_reverse]
  rw [List.length_reverse] at hright
  omega

theorem charEnv_subadditive : charEnv.tokenizer.Subadditive where
  append _ _ := List.length_append.le
  separator := Nat.le_refl 2
  recount _ tokens _ := (length_stripChars_le tokens).trans (Nat.le_add_right _ _)

def longLogText : Chars := "# Log\n\n".toList ++ List.replicate 430 'a' ++ "\n\n# End\n\nb".toList

def longLog : Bytes := longLogText.map (fun c => UInt8.ofNat c.toNat)

theorem extractText_longLog : extractText charEnv "log.md" longLog = .ok longLogText := by
  decide +kernel

theorem assembled_longLog :
    assembled charEnv.tokenizer longLogText = [[(0, (some "Log".toList, List.replicate 420 'a')),
      (0, (some "Log".toList, List.replicate 10 'a'))], [(1, (some "End".toList, ['b']))]] := by
  decide +kernel

theorem chunks_bounded_longLog :
    ∃ chunks, chunkDocument charEnv "log.md" longLog = .ok chunks ∧
      ChunksBounded charEnv longLogText chunks := by
  obtain ⟨chunks, hchunks, hbounded, -⟩ := chunks_bounded charEnv_subadditive extractText_longLog
  refine ⟨chunks, hchunks, hbounded ⟨?_, ?_⟩⟩
  · rw [sectionsApart_iff, assembled_longLog]
    decide +kernel
  · rw [RuntsFit, assembled_longLog]
    decide +kernel

/-! ## Two notes under one title -/

def twoNotes : Bytes := "# Note\n\nfoo\n\n# Note\n\nbar".toList.map (fun c => UInt8.ofNat c.toNat)

def twoNotesText : Chars := "# Note\n\nfoo\n\n# Note\n\nbar".toList

/-- The second note ends up in the chunk of the first. -/
theorem two_notes_in_one_chunk :
    extractText charEnv "notes.md" twoNotes = .ok twoNotesText ∧
      ∃ chunks, chunkDocument charEnv "notes.md" twoNotes = .ok chunks ∧
      ¬ ChunksBounded charEnv twoNotesText chunks := by
  have hchunks : chunkDocument charEnv "notes.md" twoNotes =
      .ok [⟨"c_Note\n\nfoo\n\nbar", 0, "Note\n\nfoo\n\nbar", some "Note"⟩] := by decide +kernel
  refine ⟨by decide +kernel, _, hchunks, ?_⟩
  intro hbounded
  have hg : [(0, (some "Note".toList, "foo".toList)), (1, (some "Note".toList, "bar".toList))] ∈
      assembled charEnv.tokenizer twoNotesText := by decide +kernel
  have hsame :=
    hbounded.single _ (List.mem_singleton.mpr rfl) _ hg (by decide +kernel) _ List.mem_cons_self _
      (List.mem_cons_of_mem _ List.mem_cons_self)
  cases hsame

end AgenticPlatform.Corpus
