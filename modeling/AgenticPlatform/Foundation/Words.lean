import AgenticPlatform.Foundation.Text

/-!
# Words

The words of a text are its longest runs of characters of one kind. Replacing each run of
other characters by one mark leaves the words as they are, and what is left is the words with
one mark between them, with at most one more at each end.
-/
namespace AgenticPlatform.Foundation

variable {α : Type*}

/-- The longest runs of elements of the kind. -/
def words (q : α → Bool) (l : List α) : List (List α) :=
  (l.splitOnP (fun a => !q a)).filter (fun w => !w.isEmpty)

/-- `re.sub("[…]+", mark, text)`, inside a run or not. -/
def subRunsFrom (p : α → Bool) (mark : α) : Bool → List α → List α
  | _, [] => []
  | inRun, a :: l =>
    if p a then (if inRun then subRunsFrom p mark true l else mark :: subRunsFrom p mark true l)
    else a :: subRunsFrom p mark false l

def subRuns (p : α → Bool) (mark : α) (l : List α) : List α := subRunsFrom p mark false l

variable {q p : α → Bool} {mark : α} {w l : List α} {ws : List (List α)}

/-! ## Words -/

@[simp] theorem words_nil (q : α → Bool) : words q [] = [] := rfl

theorem words_append_cons {a : α} (h : q a = false) (w l : List α) :
    words q (w ++ a :: l) = words q w ++ words q l := by
  rw [words, List.splitOnP_append_cons _ _ (by simp [h]), List.filter_append, words, words]

/-- A word is its only word. -/
theorem words_word (hne : w ≠ []) (h : ∀ a ∈ w, q a = true) : words q w = [w] := by
  have hone : w.splitOnP (fun a => !q a) = [w] :=
    List.splitOnP_eq_singleton (fun a ha => by simp [h a ha])
  rw [words, hone, List.filter_singleton]
  cases w with
  | nil => exact absurd rfl hne
  | cons a w => rfl

theorem words_word_or_nil (h : ∀ a ∈ w, q a = true) : words q w = if w = [] then [] else [w] := by
  by_cases hw : w = []
  · rw [if_pos hw, hw, words_nil]
  · rw [if_neg hw, words_word hw h]

/-- The words of words with a mark between them. -/
theorem words_intercalate (hmark : q mark = false) (hne : ∀ w ∈ ws, w ≠ [])
    (h : ∀ w ∈ ws, ∀ a ∈ w, q a = true) : words q ([mark].intercalate ws) = ws := by
  induction ws with
  | nil => rfl
  | cons w ws ih =>
    obtain ⟨hw, hws⟩ := List.forall_mem_cons.mp hne
    obtain ⟨hq, hqs⟩ := List.forall_mem_cons.mp h
    cases ws with
    | nil => rw [List.intercalate_singleton, words_word hw hq]
    | cons w' ws =>
      rw [List.intercalate_cons_cons, List.append_assoc, List.singleton_append,
        words_append_cons hmark, words_word hw hq, ih hws hqs]
      rfl

theorem mem_words_aux (l : List α) : ∀ w ∈ l.splitOnP (fun a => !q a), ∀ a ∈ w, q a = true := by
  induction l with
  | nil => simp
  | cons b l ih =>
    rw [List.splitOnP_cons_eq_if_modifyHead]
    cases hb : q b with
    | false => simpa using ih
    | true =>
      obtain ⟨v, vs, hsplit⟩ := List.exists_cons_of_ne_nil (List.splitOnP_ne_nil (fun a => !q a) l)
      rw [hsplit] at ih ⊢
      obtain ⟨hv, hvs⟩ := List.forall_mem_cons.mp ih
      exact List.forall_mem_cons.mpr ⟨List.forall_mem_cons.mpr ⟨hb, hv⟩, hvs⟩

/-- A word is not empty and of its kind throughout. -/
theorem mem_words (h : w ∈ words q l) : w ≠ [] ∧ ∀ a ∈ w, q a = true := by
  obtain ⟨hmem, hne⟩ := List.mem_filter.mp h
  exact ⟨by simpa using hne, mem_words_aux l w hmem⟩

theorem mem_of_mem_words {a : α} (hw : w ∈ words q l) (ha : a ∈ w) : a ∈ l := by
  have hmem := (List.mem_filter.mp hw).1
  clear hw
  induction l generalizing w with
  | nil => simp_all
  | cons b l ih =>
    rw [List.splitOnP_cons_eq_if_modifyHead] at hmem
    split at hmem
    · rcases List.mem_cons.mp hmem with rfl | hmem
      · cases ha
      · exact List.mem_cons_of_mem b (ih ha hmem)
    · obtain ⟨v, vs, hsplit⟩ := List.exists_cons_of_ne_nil (List.splitOnP_ne_nil (fun a => !q a) l)
      rw [hsplit] at ih hmem
      rcases List.mem_cons.mp hmem with rfl | hmem
      · rcases List.mem_cons.mp ha with rfl | ha
        · exact List.mem_cons_self
        · exact List.mem_cons_of_mem b (ih ha List.mem_cons_self)
      · exact List.mem_cons_of_mem b (ih ha (List.mem_cons_of_mem v hmem))

/-- An element of words put together is of a word, or of what is between them. -/
theorem mem_intercalate {a : α} {sep : List α} (h : a ∈ sep.intercalate ws) :
    a ∈ sep ∨ ∃ w ∈ ws, a ∈ w := by
  induction ws with
  | nil => cases h
  | cons w ws ih =>
    cases ws with
    | nil => exact Or.inr ⟨w, List.mem_cons_self, by rwa [List.intercalate_singleton] at h⟩
    | cons w' ws =>
      rw [List.intercalate_cons_cons, List.append_assoc, List.mem_append, List.mem_append] at h
      rcases h with h | h | h
      · exact Or.inr ⟨w, List.mem_cons_self, h⟩
      · exact Or.inl h
      · rcases ih h with hsep | ⟨v, hv, hav⟩
        · exact Or.inl hsep
        · exact Or.inr ⟨v, List.mem_cons_of_mem w hv, hav⟩

theorem words_congr {q' : α → Bool} (h : ∀ a ∈ l, q a = q' a) : words q l = words q' l := by
  have hsplit : l.splitOnP (fun a => !q a) = l.splitOnP (fun a => !q' a) := by
    induction l with
    | nil => rfl
    | cons b l ih =>
      obtain ⟨hb, hl⟩ := List.forall_mem_cons.mp h
      rw [List.splitOnP_cons_eq_if_modifyHead, List.splitOnP_cons_eq_if_modifyHead, ih hl, hb]
  rw [words, hsplit, words]

/-! ## Runs replaced by a mark -/

/-- With a word under way, which none is inside a run. -/
theorem words_subRunsFrom (hmark : q mark = false) {r : Bool} (hrun : r = true → w = [])
    (hw : ∀ a ∈ w, q a = true ∧ p a = false) (l : List α) :
    words q (w ++ subRunsFrom p mark r l) = words (fun a => q a && !p a) (w ++ l) := by
  induction l generalizing w r with
  | nil => exact (List.append_nil w).symm ▸ words_congr (fun a ha => by simp [hw a ha])
  | cons a l ih =>
    have hword : words q w = words (fun a => q a && !p a) w :=
      words_congr (fun a ha => by simp [hw a ha])
    have hnil : words q (subRunsFrom p mark true l) = words (fun a => q a && !p a) l :=
      ih (w := []) (fun _ => rfl) (fun _ h => absurd h List.not_mem_nil)
    rw [subRunsFrom]
    by_cases hp : p a = true
    · rw [if_pos hp, words_append_cons (q := fun a => q a && !p a) (by simp [hp])]
      cases r with
      | true =>
        cases hrun rfl
        exact hnil
      | false =>
        rw [if_neg Bool.false_ne_true, words_append_cons hmark, hword, hnil]
    · rw [if_neg hp]
      have hp' : p a = false := by simpa using hp
      cases hq : q a with
      | true =>
        -- the word goes on
        have hw' : ∀ b ∈ w ++ [a], q b = true ∧ p b = false := by
          intro b hb
          rcases List.mem_append.mp hb with hb | hb
          · exact hw b hb
          · cases List.mem_singleton.mp hb
            exact ⟨hq, hp'⟩
        have hgo := ih (r := false) (fun h => by cases h) hw'
        rwa [List.append_assoc, List.append_assoc] at hgo
      | false =>
        have hfresh : words q (subRunsFrom p mark false l) = words (fun a => q a && !p a) l :=
          ih (w := []) (r := false) (fun h => by cases h) (fun _ h => absurd h List.not_mem_nil)
        rw [words_append_cons hq, words_append_cons (q := fun a => q a && !p a) (by simp [hq]),
          hword, hfresh]

/-- The words that are left are the ones that were free of what is replaced. -/
theorem words_subRuns (hmark : q mark = false) (l : List α) :
    words q (subRuns p mark l) = words (fun a => q a && !p a) l :=
  words_subRunsFrom (w := []) hmark (fun h => by cases h) (fun _ h => absurd h List.not_mem_nil) l

/-- What a text is once its gaps are marks: at most one mark at each end of its words. -/
structure Marked (mark : α) (ws : List (List α)) (lead trail l : List α) : Prop where
  text : l = lead ++ [mark].intercalate ws ++ trail
  lead : lead = [] ∨ lead = [mark]
  trail : trail = [] ∨ ws ≠ [] ∧ trail = [mark]

theorem marked_subRunsFrom {r : Bool} (hrun : r = true → w = []) (hw : ∀ a ∈ w, p a = false)
    (l : List α) :
    ∃ lead trail, Marked mark (words (fun a => !p a) (w ++ l))
      lead trail (w ++ subRunsFrom p mark r l) ∧
      (r = true ∨ w ≠ [] → lead = []) := by
  have hkind : ∀ {w : List α}, (∀ a ∈ w, p a = false) → ∀ a ∈ w, (fun a => !p a) a = true :=
    fun h a ha => by simp [h a ha]
  induction l generalizing w r with
  | nil =>
    refine ⟨[], [], ⟨?_, Or.inl rfl, Or.inl rfl⟩, fun _ => rfl⟩
    rw [List.append_nil w, words_word_or_nil (hkind hw), subRunsFrom]
    split
    · simp [*]
    · simp
  | cons a l ih =>
    rw [subRunsFrom]
    by_cases hp : p a = true
    · obtain ⟨lead, trail, hmarked, hlead⟩ :=
        ih (w := []) (r := true) (fun _ => rfl) (fun _ h => absurd h List.not_mem_nil)
      cases hlead (Or.inl rfl)
      rw [List.nil_append, List.nil_append] at hmarked
      rw [if_pos hp, words_append_cons (by simp [hp]), words_word_or_nil (hkind hw)]
      cases r with
      | true =>
        cases hrun rfl
        exact ⟨[], trail, hmarked, fun _ => rfl⟩
      | false =>
        rw [if_neg Bool.false_ne_true]
        by_cases hnil : w = []
        · subst hnil
          refine ⟨[mark], trail, ⟨?_, Or.inr rfl, hmarked.trail⟩, fun h => by simp at h⟩
          rw [if_pos rfl, hmarked.text]
          simp
        · rw [if_neg hnil]
          cases hws : words (fun a => !p a) l with
          | nil =>
            -- nothing comes after the mark
            have htrail : trail = [] := hmarked.trail.resolve_right (fun h => h.1 hws)
            refine ⟨[], [mark], ⟨?_, Or.inl rfl, Or.inr ⟨by simp, rfl⟩⟩, fun _ => rfl⟩
            have htext := hmarked.text
            rw [hws, htrail] at htext
            simp [htext]
          | cons v vs =>
            refine ⟨[], trail, ⟨?_, Or.inl rfl, hmarked.trail.imp_right (fun h => ⟨by simp, h.2⟩)⟩,
              fun _ => rfl⟩
            rw [hmarked.text, hws, List.singleton_append, List.intercalate_cons_cons]
            simp
    · have hp' : p a = false := by simpa using hp
      have hw' : ∀ b ∈ w ++ [a], p b = false := by
        intro b hb
        rcases List.mem_append.mp hb with hb | hb
        · exact hw b hb
        · exact List.mem_singleton.mp hb ▸ hp'
      obtain ⟨lead, trail, hmarked, hlead⟩ := ih (r := false) (fun h => by cases h) hw'
      cases hlead (Or.inr (by simp))
      rw [List.append_assoc, List.append_assoc] at hmarked
      rw [if_neg hp]
      exact ⟨[], trail, hmarked, fun _ => rfl⟩

/-! ## White space -/

theorem stripChars_append_space {cs lead trail : List Char} (hlead : ∀ c ∈ lead, isSpace c = true)
    (htrail : ∀ c ∈ trail, isSpace c = true) :
    stripChars (lead ++ cs ++ trail) = stripChars cs := by
  have hright : ∀ ds : List Char,
      (ds ++ trail).reverse.dropWhile isSpace = ds.reverse.dropWhile isSpace := by
    intro ds
    rw [List.reverse_append,
      List.dropWhile_append_of_pos (fun c hc => htrail c (List.mem_reverse.mp hc))]
  have hleft : (lead ++ cs ++ trail).dropWhile isSpace = (cs ++ trail).dropWhile isSpace := by
    rw [List.append_assoc, List.dropWhile_append_of_pos hlead]
  rw [stripChars, stripChars, hleft, List.dropWhile_append]
  split
  · rename_i hempty
    rw [List.isEmpty_iff.mp hempty, List.dropWhile_eq_nil_iff.mpr htrail]
  · rw [hright]

/-- Words with blanks between them have no white space at their ends. -/
theorem stripChars_intercalate {ws : List (List Char)} (hne : ∀ w ∈ ws, w ≠ [])
    (h : ∀ w ∈ ws, ∀ c ∈ w, isSpace c = false) :
    stripChars ([' '].intercalate ws) = [' '].intercalate ws := by
  refine stripChars_eq_self ?_ ?_
  · intro c hc
    cases ws with
    | nil => cases hc
    | cons w ws =>
      obtain ⟨hw, -⟩ := List.forall_mem_cons.mp hne
      obtain ⟨b, w', rfl⟩ := List.exists_cons_of_ne_nil hw
      refine h (b :: w') List.mem_cons_self c ?_
      cases ws <;> simp_all [List.intercalate_cons_cons]
  · intro c hc
    rcases List.eq_nil_or_concat ws with rfl | ⟨ws', w, rfl⟩
    · cases hc
    · have hmem : w ∈ ws'.concat w := by simp
      have hw := hne w hmem
      refine h w hmem c ?_
      rcases List.eq_nil_or_concat w with rfl | ⟨w', b, rfl⟩
      · exact absurd rfl hw
      · by_cases hws' : ws' = []
        · simp_all
        · rw [List.concat_eq_append, intercalate_concat [' '] hws', List.concat_eq_append] at hc
          simp only [← List.append_assoc, List.getLast?_append, List.getLast?_singleton,
            Option.some_or, Option.mem_some_iff] at hc
          simp [hc]

/-- `re.sub(r"\s+", " ", text).strip()` is the words with one blank between them. -/
theorem stripChars_subRuns (cs : List Char) :
    stripChars (subRuns isSpace ' ' cs) = [' '].intercalate (words (fun c => !isSpace c) cs) := by
  obtain ⟨lead, trail, hmarked, -⟩ : ∃ lead trail,
      Marked ' ' (words (fun c => !isSpace c) ([] ++ cs)) lead trail
      ([] ++ subRunsFrom isSpace ' ' false cs) ∧ _ :=
    marked_subRunsFrom (fun h => by cases h) (fun _ h => absurd h List.not_mem_nil) cs
  rw [List.nil_append, List.nil_append] at hmarked
  have hlead : ∀ c ∈ lead, isSpace c = true := by
    intro c hc
    rcases hmarked.lead with rfl | rfl
    · cases hc
    · cases List.mem_singleton.mp hc
      rfl
  have htrail : ∀ c ∈ trail, isSpace c = true := by
    intro c hc
    rcases hmarked.trail with rfl | ⟨-, rfl⟩
    · cases hc
    · cases List.mem_singleton.mp hc
      rfl
  rw [subRuns, hmarked.text, stripChars_append_space hlead htrail]
  refine stripChars_intercalate (fun w hw => (mem_words hw).1) ?_
  intro w hw c hc
  simpa using (mem_words hw).2 c hc

end AgenticPlatform.Foundation
