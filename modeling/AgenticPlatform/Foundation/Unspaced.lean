import AgenticPlatform.Foundation.Text

/-!
# Texts without their white space

Two texts that differ in white space only are the same without it. Stripping a text, cutting
it at white space and putting parts together with white space between them change nothing
but white space.
-/
namespace AgenticPlatform.Foundation

def unspaced (cs : List Char) : List Char := cs.filter (fun c => !isSpace c)

variable {cs ds : List Char}

@[simp] theorem unspaced_nil : unspaced [] = [] := rfl

@[simp] theorem unspaced_append (cs ds : List Char) :
    unspaced (cs ++ ds) = unspaced cs ++ unspaced ds :=
  List.filter_append ..

theorem unspaced_cons_of_space {c : Char} (h : isSpace c = true) (cs : List Char) :
    unspaced (c :: cs) = unspaced cs := by
  rw [unspaced, List.filter_cons_of_neg (by simp [h]), unspaced]

theorem unspaced_eq_nil (h : ∀ c ∈ cs, isSpace c = true) : unspaced cs = [] := by
  refine List.filter_eq_nil_iff.mpr ?_
  intro c hc
  simp [h c hc]

theorem unspaced_reverse (cs : List Char) : unspaced cs.reverse = (unspaced cs).reverse :=
  List.filter_reverse ..

theorem unspaced_dropWhile (cs : List Char) : unspaced (cs.dropWhile isSpace) = unspaced cs := by
  have hdropped : unspaced (cs.takeWhile isSpace) = [] :=
    unspaced_eq_nil (fun c hc => List.mem_takeWhile_imp hc)
  have hsplit : unspaced (cs.takeWhile isSpace) ++ unspaced (cs.dropWhile isSpace) =
      unspaced cs := by
    rw [← unspaced_append, List.takeWhile_append_dropWhile]
  rwa [hdropped, List.nil_append] at hsplit

@[simp] theorem unspaced_stripChars (cs : List Char) : unspaced (stripChars cs) = unspaced cs := by
  rw [stripChars, unspaced_reverse, unspaced_dropWhile, unspaced_reverse, List.reverse_reverse,
    unspaced_dropWhile]

theorem unspaced_flatten (ls : List (List Char)) : unspaced ls.flatten = ls.flatMap unspaced := by
  rw [unspaced, List.filter_flatten, List.flatMap_def]
  rfl

/-- White space between the parts does not count. -/
theorem unspaced_intercalate {sep : List Char} (hsep : ∀ c ∈ sep, isSpace c = true)
    (ls : List (List Char)) : unspaced (sep.intercalate ls) = ls.flatMap unspaced := by
  induction ls with
  | nil => rfl
  | cons l ls ih =>
    cases ls with
    | nil => simp
    | cons l' ls =>
      rw [List.intercalate_cons_cons, unspaced_append, unspaced_append, unspaced_eq_nil hsep,
        List.append_nil, ih]
      exact List.flatMap_cons.symm

/-- Parts that are empty do not count. -/
theorem flatMap_unspaced_filter (ls : List (List Char)) :
    (ls.filter (fun l => l ≠ [])).flatMap unspaced = ls.flatMap unspaced := by
  induction ls with
  | nil => rfl
  | cons l ls ih =>
    by_cases h : l = []
    · rw [List.filter_cons_of_neg (by simp [h]), ih, List.flatMap_cons, h, unspaced_nil,
        List.nil_append]
    · rw [List.filter_cons_of_pos (by simp [h]), List.flatMap_cons, List.flatMap_cons, ih]

theorem stripChars_eq_nil : stripChars cs = [] ↔ unspaced cs = [] := by
  constructor
  · intro h
    rw [← unspaced_stripChars, h, unspaced_nil]
  · intro h
    have hall : ∀ c ∈ cs, isSpace c = true := by
      intro c hc
      simpa using List.filter_eq_nil_iff.mp h c hc
    rw [stripChars, List.dropWhile_eq_nil_iff.mpr hall]
    rfl

/-- Equal but for white space at the ends. -/
theorem unspaced_eq_of_stripChars (h : stripChars cs = stripChars ds) :
    unspaced cs = unspaced ds := by
  rw [← unspaced_stripChars cs, h, unspaced_stripChars]

end AgenticPlatform.Foundation
