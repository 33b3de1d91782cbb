import AgenticPlatform.Corpus.Chunking
import AgenticPlatform.Foundation.Unspaced

/-!
# Chunking loses no text

A paragraph goes whole into a piece of its section, or is cut into parts each of which is a
piece. Later steps put pieces behind others and overlaps before them, and a chunk that is
dropped has the text of one that is kept. Texts are compared without their white space.
-/
namespace AgenticPlatform.Corpus
open AgenticPlatform.Foundation

/-- The paragraph is held whole, or it is too long and the pieces it is cut into are, which
have its text one after the other. -/
def KeptBy {τ : Type*} (t : Tokenizer τ) (held : Chars → Prop) (paragraph : Chars) : Prop :=
  held paragraph ∨
    (targetTokens < t.count paragraph ∧
      unspaced paragraph = (splitOversized t paragraph).flatMap unspaced ∧
      ∀ piece ∈ splitOversized t paragraph, held piece)

theorem KeptBy.imp {τ : Type*} {t : Tokenizer τ} {held held' : Chars → Prop} {paragraph : Chars}
    (h : KeptBy t held paragraph) (himp : ∀ q, held q → held' q) : KeptBy t held' paragraph := by
  rcases h with h | ⟨hlong, hpieces, h⟩
  · exact Or.inl (himp paragraph h)
  · exact Or.inr ⟨hlong, hpieces, fun piece hpiece => himp piece (h piece hpiece)⟩

/-- A passage under the heading has the text. -/
def Holds (ps : List Passage) (heading : Option Chars) (q : Chars) : Prop :=
  ∃ p ∈ ps, p.1 = heading ∧ unspaced q <:+: unspaced p.2

section
variable {ps ps' : List Passage} {heading : Option Chars} {q : Chars}

theorem holds_mem {body : Chars} (h : (heading, body) ∈ ps) (hq : unspaced q <:+: unspaced body) :
    Holds ps heading q :=
  ⟨(heading, body), h, rfl, hq⟩

theorem Holds.mono (h : Holds ps heading q) (hsub : ∀ p ∈ ps, p ∈ ps') : Holds ps' heading q := by
  obtain ⟨p, hp, hheading, hq⟩ := h
  exact ⟨p, hsub p hp, hheading, hq⟩

theorem holds_append : Holds (ps ++ ps') heading q ↔ Holds ps heading q ∨ Holds ps' heading q := by
  simp only [Holds, List.mem_append, or_and_right, exists_or]

/-- A passage gives way to one of the same heading with its text. -/
theorem Holds.replace {body body' : Chars} (h : Holds (ps ++ [(heading, body)]) heading q)
    (hbody : unspaced body <:+: unspaced body') : Holds (ps ++ [(heading, body')]) heading q := by
  rw [holds_append] at h ⊢
  rcases h with h | ⟨p, hp, hheading, hq⟩
  · exact Or.inl h
  · cases List.mem_singleton.mp hp
    exact Or.inr (holds_mem (List.mem_singleton.mpr rfl) (hq.trans hbody))

end

/-! ## A paragraph that is cut -/

theorem unspaced_splitSentences (skipping : Bool) (sentence cs : Chars) :
    (splitSentences skipping sentence cs).flatMap unspaced =
      unspaced sentence.reverse ++ unspaced cs := by
  induction cs generalizing skipping sentence with
  | nil => cases skipping <;> simp [splitSentences]
  | cons c cs ih =>
    have hread : unspaced (c :: sentence).reverse ++ unspaced cs =
        unspaced sentence.reverse ++ unspaced (c :: cs) := by
      rw [List.reverse_cons, unspaced_append, List.append_assoc, ← unspaced_append [c] cs]
      rfl
    cases skipping with
    | true =>
      rw [splitSentences]
      split
      · rename_i hspace
        rw [ih, unspaced_cons_of_space hspace]
      · rw [ih, hread]
    | false =>
      rw [splitSentences]
      split
      · rename_i hcut
        rw [List.flatMap_cons, ih, unspaced_cons_of_space hcut.1, List.reverse_nil, unspaced_nil,
          List.nil_append]
      · rw [ih, hread]

theorem slices_take {α : Type*} (size k : Nat) (l : List α) :
    ((List.range k).map (fun i => (l.drop (i * size)).take size)).flatten = l.take (k * size) := by
  induction k with
  | zero => simp
  | succ k ih =>
    rw [List.range_succ, List.map_append, List.flatten_append, ih, Nat.succ_mul, List.take_add]
    simp

/-- So many slices reach to the end. -/
theorem length_le_of_slices {size : Nat} (hpos : 0 < size) {n k : Nat}
    (hk : (n + (size - 1)) / size ≤ k) : n ≤ k * size := by
  have hceil : n + (size - 1) < size * ((n + (size - 1)) / size + 1) := Nat.lt_mul_div_succ _ hpos
  have hmono : size * ((n + (size - 1)) / size) ≤ size * k := Nat.mul_le_mul_left size hk
  rw [Nat.mul_succ] at hceil
  rw [Nat.mul_comm]
  omega

/-- The slices of a list are the list. -/
theorem slices_flatten {α : Type*} {size : Nat} (hpos : 0 < size) (l : List α) :
    (slices size l).flatten = l := by
  rw [slices, slices_take]
  exact List.take_of_length_le (length_le_of_slices hpos (Nat.le_refl _))

/-- `decode` inverts `encode` and goes through token by token. -/
structure Tokenizer.Faithful {τ : Type*} (t : Tokenizer τ) : Prop where
  decode_encode : ∀ text, t.decode (t.encode text) = text
  decode_append : ∀ u v, t.decode (u ++ v) = t.decode u ++ t.decode v

section
variable {τ : Type*} {t : Tokenizer τ}

theorem Tokenizer.Faithful.decode_flatten (ht : t.Faithful) (ls : List (List τ)) :
    t.decode ls.flatten = ls.flatMap t.decode := by
  induction ls with
  | nil =>
    have hlength := congrArg List.length (ht.decode_append [] [])
    rw [List.nil_append, List.length_append] at hlength
    refine List.length_eq_zero_iff.mp ?_
    rw [List.flatten_nil]
    omega
  | cons l ls ih => rw [List.flatten_cons, ht.decode_append, ih, List.flatMap_cons]

/-- A piece whose slices decode to it keeps its text. -/
theorem unspaced_cutOnTokens_of_decoded {piece : Chars}
    (hdecoded : (slices targetTokens (t.encode piece)).flatMap t.decode = piece) :
    (cutOnTokens t piece).flatMap unspaced = unspaced piece := by
  unfold cutOnTokens
  split
  · rw [List.flatMap_cons, List.flatMap_nil, List.append_nil]
  · rw [List.flatMap_map]
    simp only [unspaced_stripChars]
    rw [← List.flatMap_map, ← unspaced_flatten, ← List.flatMap_def, hdecoded]

theorem unspaced_cutOnTokens (ht : t.Faithful) (piece : Chars) :
    (cutOnTokens t piece).flatMap unspaced = unspaced piece := by
  refine unspaced_cutOnTokens_of_decoded ?_
  rw [← ht.decode_flatten, slices_flatten (by decide), ht.decode_encode]

/-- The text of the full pieces and of the open one. -/
theorem unspaced_packSentence (s : List Chars × List Chars) (sentence : Chars) :
    (packSentence t s sentence).1.flatMap unspaced ++
      (packSentence t s sentence).2.flatMap unspaced =
      (s.1.flatMap unspaced ++ s.2.flatMap unspaced) ++ unspaced sentence := by
  have hjoined : unspaced ([' '].intercalate s.2) = s.2.flatMap unspaced :=
    unspaced_intercalate (List.forall_mem_singleton.mpr rfl) s.2
  simp only [packSentence]
  split
  · simp [hjoined]
  · simp

theorem unspaced_packedSentences (paragraph : Chars) :
    (packedSentences t paragraph).flatMap unspaced = unspaced paragraph := by
  have hfold : ∀ (sentences : List Chars) (s : List Chars × List Chars),
      (sentences.foldl (packSentence t) s).1.flatMap unspaced ++
      (sentences.foldl (packSentence t) s).2.flatMap unspaced =
      (s.1.flatMap unspaced ++ s.2.flatMap unspaced) ++ sentences.flatMap unspaced := by
    intro sentences
    induction sentences with
    | nil => simp
    | cons sentence sentences ih =>
      intro s
      rw [List.foldl_cons, ih, unspaced_packSentence, List.append_assoc, List.flatMap_cons]
  have hall := hfold (splitSentences false [] paragraph) ([], [])
  rw [unspaced_splitSentences] at hall
  have hjoined : unspaced
      ([' '].intercalate ((splitSentences false [] paragraph).foldl (packSentence t) ([], [])).2) =
      _ :=
    unspaced_intercalate (List.forall_mem_singleton.mpr rfl) _
  simp only [packedSentences]
  split
  · simpa [hjoined] using hall
  · rename_i hempty
    rw [not_not.mp hempty] at hall
    simpa using hall

theorem unspaced_splitOversized_of_cut {paragraph : Chars}
    (hcut : ∀ piece ∈ packedSentences t paragraph,
      (cutOnTokens t piece).flatMap unspaced = unspaced piece) :
    (splitOversized t paragraph).flatMap unspaced = unspaced paragraph := by
  rw [splitOversized, flatMap_unspaced_filter, List.flatMap_assoc, List.flatMap_congr hcut]
  exact unspaced_packedSentences paragraph

theorem unspaced_splitOversized (ht : t.Faithful) (paragraph : Chars) :
    (splitOversized t paragraph).flatMap unspaced = unspaced paragraph :=
  unspaced_splitOversized_of_cut (fun piece _ => unspaced_cutOnTokens ht piece)

/-! ## A section -/

theorem unspaced_ne_nil_of_mem_paragraphsOf {body paragraph : Chars}
    (h : paragraph ∈ paragraphsOf body) : unspaced paragraph ≠ [] := by
  obtain ⟨part, hpart, rfl⟩ := List.mem_map.mp h
  have hblank : stripChars part ≠ [] := by simpa using (List.mem_filter.mp hpart).2
  rw [unspaced_stripChars]
  exact fun hnil => hblank (stripChars_eq_nil.mpr hnil)

theorem closed_of_ne {heading : Option Chars} {s : Packing} (h : s.2 ≠ []) :
    s.closed heading = s.1 ++ [(heading, s.2)] :=
  if_pos h

theorem closed_of_nil {heading : Option Chars} (ps : List Passage) :
    Packing.closed heading (ps, []) = ps :=
  rfl

theorem ne_nil_of_unspaced {cs : Chars} (h : unspaced cs ≠ []) : cs ≠ [] := by
  rintro rfl
  exact h rfl

/-- Two blocks with a blank line between them. -/
theorem unspaced_blocks (u v : Chars) :
    unspaced (stripChars (u ++ ['\n', '\n'] ++ v)) = unspaced u ++ unspaced v := by
  have hbreaks : unspaced ['\n', '\n'] = [] := by decide
  rw [unspaced_stripChars, unspaced_append, unspaced_append, hbreaks, List.append_nil]

theorem blocks_ne_nil (u : Chars) {v : Chars} (hv : unspaced v ≠ []) :
    stripChars (u ++ ['\n', '\n'] ++ v) ≠ [] := by
  refine ne_nil_of_unspaced ?_
  rw [unspaced_blocks]
  exact fun hnil => hv (List.append_eq_nil_iff.mp hnil).2

/-- What the pieces have they keep, and the next paragraph comes to it. -/
theorem packParagraph_keeps (ht : t.Faithful) (heading : Option Chars) (s : Packing)
    {paragraph : Chars} (hparagraph : unspaced paragraph ≠ []) :
    (∀ q, Holds (s.closed heading) heading q →
      Holds ((packParagraph t heading s paragraph).closed heading) heading q) ∧
      KeptBy t (Holds ((packParagraph t heading s paragraph).closed heading) heading)
      paragraph := by
  rcases packParagraph_cases t heading s paragraph with ⟨hlong, heq⟩ | ⟨-, hopen, heq⟩ |
    ⟨-, hopen, heq⟩ | ⟨hopen, -, heq⟩
  · rw [heq, closed_of_nil]
    refine ⟨?_, Or.inr ⟨hlong, (unspaced_splitOversized ht paragraph).symm, ?_⟩⟩
    · exact fun q hq => hq.mono (fun p hp => List.mem_append_left _ hp)
    · intro piece hpiece
      exact holds_mem (List.mem_append_right _ (List.mem_map_of_mem hpiece)) (List.infix_refl _)
  · rw [heq, closed_of_ne hopen, closed_of_ne (blocks_ne_nil _ hparagraph)]
    refine ⟨fun q hq => hq.mono (fun p hp => List.mem_append_left _ hp), Or.inl ?_⟩
    refine holds_mem (List.mem_append_right _ (List.mem_singleton.mpr rfl)) ?_
    rw [unspaced_blocks]
    exact (List.suffix_append _ _).isInfix
  · have hclosed : s.closed heading = s.1 := if_neg (not_not.mpr hopen)
    rw [heq, hclosed, closed_of_ne (ne_nil_of_unspaced hparagraph)]
    refine ⟨fun q hq => hq.mono (fun p hp => List.mem_append_left _ hp), Or.inl ?_⟩
    exact holds_mem (List.mem_append_right _ (List.mem_singleton.mpr rfl)) (List.infix_refl _)
  · rw [heq, closed_of_ne hopen, closed_of_ne (blocks_ne_nil _ hparagraph)]
    refine ⟨?_, Or.inl (holds_mem (List.mem_append_right _ (List.mem_singleton.mpr rfl)) ?_)⟩
    · intro q hq
      refine hq.replace ?_
      rw [unspaced_blocks]
      exact (List.prefix_append _ _).isInfix
    · rw [unspaced_blocks]
      exact (List.suffix_append _ _).isInfix

theorem packSection_keeps (ht : t.Faithful) (s : Passage) {paragraph : Chars}
    (h : paragraph ∈ paragraphsOf s.2) : KeptBy t (Holds (packSection t s) s.1) paragraph := by
  have hfold : ∀ (paragraphs : List Chars), (∀ p ∈ paragraphs, unspaced p ≠ []) → ∀ start : Packing,
      (∀ q, Holds (start.closed s.1) s.1 q →
        Holds ((paragraphs.foldl (packParagraph t s.1) start).closed s.1) s.1 q) ∧
      ∀ p ∈ paragraphs,
      KeptBy t (Holds ((paragraphs.foldl (packParagraph t s.1) start).closed s.1) s.1) p := by
    intro paragraphs
    induction paragraphs with
    | nil => exact fun _ start => ⟨fun q hq => hq, fun p hp => absurd hp List.not_mem_nil⟩
    | cons first paragraphs ih =>
      intro hblank start
      obtain ⟨hkeeps, hfirst⟩ := packParagraph_keeps ht s.1 start (hblank first List.mem_cons_self)
      obtain ⟨hrest, hall⟩ :=
        ih (fun p hp => hblank p (List.mem_cons_of_mem first hp)) (packParagraph t s.1 start first)
      refine ⟨fun q hq => hrest q (hkeeps q hq), ?_⟩
      intro p hp
      rcases List.mem_cons.mp hp with rfl | hp
      · exact hfirst.imp hrest
      · exact hall p hp
  exact (hfold (paragraphsOf s.2) (fun p hp => unspaced_ne_nil_of_mem_paragraphsOf hp) ([], [])).2
    paragraph h

/-! ## Merging -/

theorem Holds.mergePiece {merged : List Passage} {piece : Passage} {heading : Option Chars}
    {q : Chars} (h : Holds (merged ++ [piece]) heading q) :
    Holds (Corpus.mergePiece t merged piece) heading q := by
  unfold Corpus.mergePiece
  split
  · rename_i last hlast
    split
    · rename_i hmerges
      have hmerged : merged = merged.dropLast ++ [last] :=
        (List.dropLast_append_getLast? last hlast).symm
      rw [hmerged, holds_append, holds_append] at h
      rw [holds_append]
      rcases h with (h | ⟨p, hp, hheading, hq⟩) | ⟨p, hp, hheading, hq⟩
      · exact Or.inl h
      · cases List.mem_singleton.mp hp
        refine Or.inr ⟨_, List.mem_singleton.mpr rfl, hmerges.1.symm.trans hheading, hq.trans ?_⟩
        rw [List.append_assoc, unspaced_append]
        exact (List.prefix_append _ _).isInfix
      · cases List.mem_singleton.mp hp
        refine Or.inr ⟨_, List.mem_singleton.mpr rfl, hheading, hq.trans ?_⟩
        rw [unspaced_append]
        exact (List.suffix_append _ _).isInfix
    · exact h
  · exact h

theorem Holds.foldl_mergePiece {heading : Option Chars} {q : Chars} (pieces : List Passage)
    {merged : List Passage} (h : Holds (merged ++ pieces) heading q) :
    Holds (pieces.foldl (Corpus.mergePiece t) merged) heading q := by
  induction pieces generalizing merged with
  | nil => rwa [List.append_nil] at h
  | cons piece pieces ih =>
    rw [List.foldl_cons]
    refine ih ?_
    rw [← List.singleton_append, ← List.append_assoc, holds_append] at h
    rw [holds_append]
    exact h.imp_left Holds.mergePiece

/-- Every paragraph is kept by the passages. -/
theorem passagesOf_keeps (ht : t.Faithful) {text paragraph : Chars} {s : Passage}
    (hs : s ∈ sectionsOf text) (h : paragraph ∈ paragraphsOf s.2) :
    KeptBy t (Holds (passagesOf t text) s.1) paragraph := by
  refine (packSection_keeps ht s h).imp ?_
  intro q hq
  have hpieces : Holds (piecesOf t text) s.1 q :=
    hq.mono (fun p hp => List.mem_flatMap.mpr ⟨s, hs, hp⟩)
  exact Holds.foldl_mergePiece (piecesOf t text) hpieces

end

/-! ## The chunks -/

/-- The chunk that is made of the passage. -/
structure MadeOf {τ : Type*} (env : ChunkingEnv τ) (p : Passage) (c : Chunk) : Prop where
  canonicalId : c.canonicalId = canonicalId env p.text
  text : c.text = String.ofList p.text
  heading : c.heading = p.1.map String.ofList

/-- The chunk has the text of the passage: it is made of it, or of an earlier one that reads
the same. -/
def StandsFor {τ : Type*} (env : ChunkingEnv τ) (ps : List Passage) (p : Passage) (c : Chunk) :
    Prop :=
  c.canonicalId = canonicalId env p.text ∧
    (MadeOf env p c ∨ ∃ earlier, [earlier, p].Sublist ps ∧ MadeOf env earlier c)

/-- The chunks of these passages, and the ids seen. -/
structure Chunked {τ : Type*} (env : ChunkingEnv τ) (ps : List Passage)
    (s : List Chunk × List String) : Prop where
  seen : ∀ id, id ∈ s.2 ↔ id ∈ s.1.map Chunk.canonicalId
  nodup : (s.1.map Chunk.canonicalId).Nodup
  ordinals : s.1.map Chunk.ordinal = List.range s.1.length
  made : ∀ c ∈ s.1, ∃ p ∈ ps, MadeOf env p c
  stands : ∀ p ∈ ps, ∃ c ∈ s.1, StandsFor env ps p c

section
variable {τ : Type*} {env : ChunkingEnv τ} {ps : List Passage} {s : List Chunk × List String}
  {p : Passage}

theorem StandsFor.mono {c : Chunk} (h : StandsFor env ps p c) (next : Passage) :
    StandsFor env (ps ++ [next]) p c := by
  refine ⟨h.1, h.2.imp_right ?_⟩
  rintro ⟨earlier, hsub, hmade⟩
  exact ⟨earlier, hsub.trans (List.sublist_append_left ps [next]), hmade⟩

theorem Chunked.addChunk (h : Chunked env ps s) (p : Passage) :
    Chunked env (ps ++ [p]) (Corpus.addChunk env s p) := by
  simp only [Corpus.addChunk]
  split
  · -- the chunk of an earlier passage stands for it
    rename_i hseen
    obtain ⟨c, hc, hid⟩ := List.mem_map.mp ((h.seen _).mp hseen)
    obtain ⟨earlier, hearlier, hmade⟩ := h.made c hc
    refine ⟨h.seen, h.nodup, h.ordinals, ?_, ?_⟩
    · intro c' hc'
      obtain ⟨p', hp', hmade'⟩ := h.made c' hc'
      exact ⟨p', List.mem_append_left _ hp', hmade'⟩
    · intro p' hp'
      rcases List.mem_append.mp hp' with hp' | hp'
      · obtain ⟨c', hc', hstands⟩ := h.stands p' hp'
        exact ⟨c', hc', hstands.mono p⟩
      · cases List.mem_singleton.mp hp'
        have hsub : [earlier, p].Sublist (ps ++ [p]) :=
          (List.singleton_sublist.mpr hearlier).append (List.Sublist.refl [p])
        exact ⟨c, hc, hid, Or.inr ⟨earlier, hsub, hmade⟩⟩
  · rename_i hseen
    have hnew : canonicalId env p.text ∉ s.1.map Chunk.canonicalId :=
      fun hmem => hseen ((h.seen _).mpr hmem)
    refine ⟨?_, ?_, ?_, ?_, ?_⟩
    · intro id
      rw [List.mem_cons, List.map_append, List.mem_append, List.map_singleton, List.mem_singleton,
        h.seen, or_comm]
    · rw [List.map_append, List.map_singleton]
      refine List.nodup_append.mpr ⟨h.nodup, List.nodup_singleton _, ?_⟩
      intro a ha b hb hab
      have hb : b = canonicalId env p.text := List.mem_singleton.mp hb
      exact hnew (hb ▸ hab ▸ ha)
    · rw [List.map_append, List.map_singleton, h.ordinals, List.length_append,
        List.length_singleton, List.range_succ]
    · intro c hc
      rcases List.mem_append.mp hc with hc | hc
      · obtain ⟨p', hp', hmade⟩ := h.made c hc
        exact ⟨p', List.mem_append_left _ hp', hmade⟩
      · cases List.mem_singleton.mp hc
        exact ⟨p, List.mem_append_right _ (List.mem_singleton.mpr rfl), rfl, rfl, rfl⟩
    · intro p' hp'
      rcases List.mem_append.mp hp' with hp' | hp'
      · obtain ⟨c, hc, hstands⟩ := h.stands p' hp'
        exact ⟨c, List.mem_append_left _ hc, hstands.mono p⟩
      · cases List.mem_singleton.mp hp'
        exact ⟨_, List.mem_append_right _ (List.mem_singleton.mpr rfl), rfl, Or.inl ⟨rfl, rfl, rfl⟩⟩

theorem chunked_nil (env : ChunkingEnv τ) : Chunked env [] ([], []) where
  seen _ := by simp
  nodup := List.nodup_nil
  ordinals := rfl
  made _ h := absurd h List.not_mem_nil
  stands _ h := absurd h List.not_mem_nil

theorem chunked_foldl (env : ChunkingEnv τ) (ps : List Passage) :
    Chunked env ps (ps.foldl (addChunk env) ([], [])) := by
  induction ps using List.reverseRecOn with
  | nil => exact chunked_nil env
  | append_singleton ps p ih =>
    rw [List.foldl_append, List.foldl_cons, List.foldl_nil]
    exact ih.addChunk p

theorem sectionsOf_nil : sectionsOf [] = [] := by decide

/-- The text is all that counts of a file. -/
theorem chunkDocument_of_text {filename : String} {data : Bytes} {text : Chars}
    (h : extractText env filename data = .ok text) : chunkDocument env filename data =
      if text = [] then .ok []
      else .ok ((passagesOf env.tokenizer text).foldl (addChunk env) ([], [])).1 := by
  unfold chunkDocument
  rw [h]

/-- The chunks of a text that was extracted. -/
theorem chunkDocument_ok {filename : String} {data : Bytes} {text : Chars}
    (h : extractText env filename data = .ok text) :
    ∃ s, chunkDocument env filename data = .ok s.1 ∧
      Chunked env (passagesOf env.tokenizer text) s := by
  rw [chunkDocument_of_text h]
  split
  · rename_i hempty
    refine ⟨([], []), rfl, ?_⟩
    have hnone : passagesOf env.tokenizer text = [] := by
      rw [passagesOf, piecesOf, hempty, sectionsOf_nil]
      rfl
    rw [hnone]
    exact chunked_nil env
  · exact ⟨_, rfl, chunked_foldl env _⟩

/-- Texts of one identity differ in white space only. -/
theorem unspaced_of_canonicalId (hsha : Function.Injective env.sha1) {u v : Chars}
    (h : canonicalId env u = canonicalId env v) : unspaced u = unspaced v := by
  have hdigest : env.sha1 (stripChars u) = env.sha1 (stripChars v) := by
    have hchars := congrArg String.toList h
    rw [canonicalId, canonicalId, String.toList_append, String.toList_append,
      List.append_cancel_left_eq] at hchars
    exact String.toList_inj.mp hchars
  exact unspaced_eq_of_stripChars (hsha hdigest)

/-- The body and the heading are in the text. -/
theorem unspaced_text (p : Passage) : unspaced p.text = unspaced (p.1.getD []) ++ unspaced p.2 := by
  have hbreaks : unspaced ['\n', '\n'] = [] := by decide
  obtain ⟨heading, body⟩ := p
  cases heading with
  | none => rfl
  | some heading =>
    by_cases hempty : heading = []
    · rw [hempty]
      rfl
    · rw [Passage.text, if_pos hempty, unspaced_append, unspaced_append, hbreaks, List.append_nil]
      rfl

/-- The text is in the chunk, which starts with the heading. -/
structure InChunk (heading : Option Chars) (q : Chars) (c : Chunk) : Prop where
  inside : unspaced q <:+: unspaced c.text.toList
  opens : unspaced (heading.getD []) <+: unspaced c.text.toList

/-- The passage with the text reads like an earlier one under another heading. -/
def RepeatsEarlier (ps : List Passage) (heading : Option Chars) (q : Chars) (c : Chunk) : Prop :=
  ∃ (earlier : Passage) (body : Chars), [earlier, (heading, body)].Sublist ps ∧
    unspaced q <:+: unspaced body ∧ earlier.1 ≠ heading ∧ c.heading = earlier.1.map String.ofList ∧
    unspaced earlier.text = unspaced (Passage.text (heading, body))

theorem Chunked.holds (hsha : Function.Injective env.sha1) (h : Chunked env ps s)
    {heading : Option Chars} {q : Chars} (hq : Holds ps heading q) :
    ∃ c ∈ s.1, InChunk heading q c ∧
      (c.heading = heading.map String.ofList ∨ RepeatsEarlier ps heading q c) := by
  obtain ⟨⟨heading, body⟩, hp, rfl, hinside⟩ := hq
  obtain ⟨c, hc, hid, hmade⟩ := h.stands _ hp
  have htext : unspaced c.text.toList = unspaced (heading.getD []) ++ unspaced body := by
    rw [← unspaced_text (heading, body)]
    rcases hmade with hmade | ⟨earlier, -, hmade⟩
    · rw [hmade.text, String.toList_ofList]
    · rw [hmade.text, String.toList_ofList]
      exact unspaced_of_canonicalId hsha (hmade.canonicalId.symm.trans hid)
  refine ⟨c, hc, ⟨?_, ?_⟩, ?_⟩
  · rw [htext]
    exact hinside.trans (List.suffix_append _ _).isInfix
  · rw [htext]
    exact List.prefix_append _ _
  · rcases hmade with hmade | ⟨earlier, hsub, hmade⟩
    · exact Or.inl hmade.heading
    · by_cases hsame : earlier.1 = heading
      · exact Or.inl (hsame ▸ hmade.heading)
      · refine Or.inr ⟨earlier, body, hsub, hinside, hsame, hmade.heading, ?_⟩
        exact unspaced_of_canonicalId hsha (hmade.canonicalId.symm.trans hid)

end

/-! Two passages that read the same, one of them under a heading: the second is dropped, and
the chunk that is kept has no heading. -/

/-- One token for each character. -/
def charEnv : ChunkingEnv Char where
  tokenizer := ⟨id, id⟩
  decode data := data.map (fun b => Char.ofNat b.toNat)
  htmlEvents _ := []
  csvRows _ := .ok []
  sha1 := String.ofList
  reprText := id

def repeatedBytes : Bytes := "A\n\nB\n\n# A\n\nB\n".toList.map (fun c => UInt8.ofNat c.toNat)

def repeatedText : Chars := ['A', '\n', '\n', 'B', '\n', '\n', '#', ' ', 'A', '\n', '\n', 'B']

theorem extractText_repeated : extractText charEnv "notes.md" repeatedBytes = .ok repeatedText := by
  decide +kernel

theorem charEnv_faithful : charEnv.tokenizer.Faithful := ⟨fun _ => rfl, fun _ _ => rfl⟩

theorem charEnv_sha1_injective : Function.Injective charEnv.sha1 :=
  fun _ _ h => String.ofList_injective h

end AgenticPlatform.Corpus
