import Mathlib.Data.List.DropRight
import Mathlib.Data.String.Basic

/-!
# Texts

The white space of `str.strip` and the text without it at both ends; cases, for the texts
of protocols, which are ASCII; texts up to a mark, and texts made of blocks.
-/
namespace AgenticPlatform.Foundation

/-- `str.isspace` of one character. -/
def isSpace (c : Char) : Bool :=
  let n := c.toNat
  (9 ≤ n && n ≤ 13) || (28 ≤ n && n ≤ 32) || n = 0x85 || n = 0xa0 || n = 0x1680 ||
    (0x2000 ≤ n && n ≤ 0x200a) || n = 0x2028 || n = 0x2029 || n = 0x202f || n = 0x205f || n = 0x3000

def stripChars (cs : List Char) : List Char :=
  ((cs.dropWhile isSpace).reverse.dropWhile isSpace).reverse

def strip (s : String) : String := String.ofList (stripChars s.toList)

/-- What comes before the first occurrence of the character, and what after it. -/
def partition (sep : Char) (s : String) : String × String :=
  (String.ofList (s.toList.takeWhile (fun c => c ≠ sep)),
    String.ofList (s.toList.dropWhile (fun c => c ≠ sep)).tail)

def upper (s : String) : String := String.ofList (s.toList.map Char.toUpper)
def lower (s : String) : String := String.ofList (s.toList.map Char.toLower)

example : strip " \t spare parts\n" = "spare parts" := by decide +kernel

theorem head?_stripChars (cs : List Char) : ∀ c ∈ (stripChars cs).head?, isSpace c = false := by
  intro c hc
  -- what is cut off at the end leaves the first character
  obtain ⟨rest, hrest⟩ := List.rdropWhile_prefix isSpace (cs.dropWhile isSpace)
  have hstart : (cs.dropWhile isSpace).head? = some c := by
    rw [← hrest, List.head?_append]
    exact Option.or_eq_some_iff.mpr (Or.inl hc)
  have hdropped := List.head?_dropWhile_not isSpace cs
  rwa [hstart] at hdropped

theorem getLast?_stripChars (cs : List Char) :
    ∀ c ∈ (stripChars cs).getLast?, isSpace c = false := by
  intro c hc
  rw [stripChars, List.getLast?_reverse] at hc
  have hdropped := List.head?_dropWhile_not isSpace (cs.dropWhile isSpace).reverse
  rwa [hc] at hdropped

/-- Nothing is stripped from a text that has no white space at its ends. -/
theorem stripChars_eq_self {cs : List Char} (hstart : ∀ c ∈ cs.head?, isSpace c = false)
    (hend : ∀ c ∈ cs.getLast?, isSpace c = false) : stripChars cs = cs := by
  have hleft : cs.dropWhile isSpace = cs := by
    cases cs with
    | nil => rfl
    | cons c cs => exact List.dropWhile_cons_of_neg (by simp [hstart c rfl])
  have hright : cs.reverse.dropWhile isSpace = cs.reverse := by
    cases hrev : cs.reverse with
    | nil => rfl
    | cons c rest =>
      have hlast : cs.getLast? = some c := by rw [← List.head?_reverse, hrev, List.head?_cons]
      exact List.dropWhile_cons_of_neg (by simp [hend c hlast])
  rw [stripChars, hleft, hright, List.reverse_reverse]

theorem stripChars_stripChars (cs : List Char) : stripChars (stripChars cs) = stripChars cs :=
  stripChars_eq_self (head?_stripChars cs) (getLast?_stripChars cs)

/-- What is stripped has no white space at its ends. -/
theorem strip_strip (s : String) : strip (strip s) = strip s := by
  simp only [strip, String.toList_ofList, stripChars_stripChars]

/-! ## Marks -/

/-- What stands before the first mark. -/
theorem takeWhile_mark {α : Type*} [DecidableEq α] {l : List α} {mark : α} (h : mark ∉ l)
    (rest : List α) : (l ++ mark :: rest).takeWhile (fun a => a ≠ mark) = l := by
  have hall : ∀ a ∈ l, decide (a ≠ mark) = true :=
    fun a ha => decide_eq_true (fun heq => h (heq ▸ ha))
  rw [List.takeWhile_append_of_pos hall, List.takeWhile_cons, if_neg (by simp), List.append_nil]

/-- Two texts that end at the same mark are the same. -/
theorem eq_of_prefix_mark {α : Type*} [DecidableEq α] {u v rest : List α} {mark : α} (hu : mark ∉ u)
    (hv : mark ∉ v) (h : u ++ [mark] <+: v ++ mark :: rest) : u = v := by
  obtain ⟨after, hafter⟩ := h
  rw [List.append_assoc, List.singleton_append] at hafter
  rw [← takeWhile_mark hu after, hafter, takeWhile_mark hv]

/-- A text is put together from blocks of one length in one way. -/
theorem flatMap_injective {α β : Type*} {f : α → List β} {n : Nat} (hpos : 0 < n)
    (hlength : ∀ a, (f a).length = n) (hf : Function.Injective f) :
    Function.Injective (List.flatMap f) := by
  intro l
  induction l with
  | nil =>
    intro l' h
    cases l' with
    | nil => rfl
    | cons b l' =>
      have hzero := congrArg List.length h
      rw [List.flatMap_cons, List.length_append, hlength, List.flatMap_nil, List.length_nil]
        at hzero
      omega
  | cons a l ih =>
    intro l' h
    cases l' with
    | nil =>
      have hzero := congrArg List.length h
      rw [List.flatMap_cons, List.length_append, hlength, List.flatMap_nil, List.length_nil]
        at hzero
      omega
    | cons b l' =>
      obtain ⟨hhead, htail⟩ := List.append_inj h ((hlength a).trans (hlength b).symm)
      rw [hf hhead, ih htail]

/-- Texts that each end at their first mark can be told apart when they are put together. -/
theorem flatMap_mark_injective {α : Type*} [DecidableEq α] {mark : α} {ls ls' : List (List α)}
    (hls : ∀ l ∈ ls, mark ∉ l) (hls' : ∀ l ∈ ls', mark ∉ l)
    (h : ls.flatMap (· ++ [mark]) = ls'.flatMap (· ++ [mark])) : ls = ls' := by
  induction ls generalizing ls' with
  | nil =>
    cases ls' with
    | nil => rfl
    | cons l' ls' => simp at h
  | cons l ls ih =>
    cases ls' with
    | nil => simp at h
    | cons l' ls' =>
      simp only [List.flatMap_cons, List.append_assoc, List.singleton_append] at h
      have hhead : l = l' := by
        rw [← takeWhile_mark (hls l List.mem_cons_self) (ls.flatMap (· ++ [mark])), h,
          takeWhile_mark (hls' l' List.mem_cons_self)]
      rw [hhead, List.append_right_inj, List.cons.injEq] at h
      rw [hhead, ih (fun m hm => hls m (List.mem_cons_of_mem l hm))
        (fun m hm => hls' m (List.mem_cons_of_mem l' hm)) h.2]

/-- A start that every text repeats can be moved to their ends. -/
theorem flatMap_rotate {α : Type*} (start : List α) (ls : List (List α)) :
    ls.flatMap (start ++ ·) ++ start = start ++ ls.flatMap (· ++ start) := by
  induction ls with
  | nil => rw [List.flatMap_nil, List.flatMap_nil, List.nil_append, List.append_nil]
  | cons l ls ih =>
    rw [List.flatMap_cons, List.flatMap_cons, List.append_assoc, ih, List.append_assoc,
      List.append_assoc]

/-- A text without the mark is found on one side of the mark. -/
theorem infix_mark {α : Type*} {pattern u v : List α} {mark : α} (hne : pattern ≠ [])
    (hmark : mark ∉ pattern) : pattern <:+: u ++ mark :: v ↔ pattern <:+: u ∨ pattern <:+: v := by
  constructor
  · rintro ⟨start, rest, h⟩
    rw [List.append_assoc] at h
    rcases List.append_eq_append_iff.mp h with ⟨before, rfl, hrest⟩ | ⟨after, rfl, hrest⟩
    · -- it starts before the mark, so it ends before it
      rcases List.append_eq_append_iff.mp hrest with ⟨between, rfl, -⟩ | ⟨overlap, rfl, hoverlap⟩
      · exact Or.inl ⟨start, between, List.append_assoc ..⟩
      · cases overlap with
        | nil => exact Or.inl ⟨start, [], by simp⟩
        | cons a overlap =>
          rw [List.cons_append, List.cons.injEq] at hoverlap
          exact absurd (hoverlap.1 ▸ List.mem_append_right before List.mem_cons_self) hmark
    · cases after with
      | nil =>
        cases pattern with
        | nil => exact absurd rfl hne
        | cons a pattern =>
          rw [List.nil_append, List.cons_append, List.cons.injEq] at hrest
          exact absurd (hrest.1 ▸ List.mem_cons_self) hmark
      | cons a after =>
        rw [List.cons_append, List.cons.injEq] at hrest
        exact Or.inr ⟨after, rest, by rw [hrest.2, List.append_assoc]⟩
  · rintro (⟨start, rest, rfl⟩ | ⟨start, rest, rfl⟩)
    · exact ⟨start, rest ++ mark :: v, by simp⟩
    · exact ⟨u ++ mark :: start, rest, by simp⟩

/-- One part more behind the others. -/
theorem intercalate_concat {α : Type*} (sep : List α) {ls : List (List α)} (hls : ls ≠ [])
    (l : List α) : sep.intercalate (ls ++ [l]) = sep.intercalate ls ++ sep ++ l := by
  induction ls with
  | nil => exact absurd rfl hls
  | cons first ls ih =>
    cases ls with
    | nil => simp
    | cons second ls =>
      rw [List.cons_append, List.cons_append, List.intercalate_cons_cons, ← List.cons_append,
        ih (List.cons_ne_nil second ls), List.intercalate_cons_cons]
      simp only [List.append_assoc]

/-- It is found in a text put together around marks where it is found in one of the parts. -/
theorem infix_intercalate {α : Type*} {pattern : List α} {mark : α} (hne : pattern ≠ [])
    (hmark : mark ∉ pattern) (ls : List (List α)) :
    pattern <:+: [mark].intercalate ls ↔ ∃ l ∈ ls, pattern <:+: l := by
  induction ls with
  | nil => simp [hne]
  | cons l ls ih =>
    cases ls with
    | nil => simp
    | cons l' ls =>
      rw [List.intercalate_cons_cons, List.append_assoc, List.singleton_append,
        infix_mark hne hmark, ih]
      simp only [List.mem_cons, exists_eq_or_imp]

end AgenticPlatform.Foundation
