import Mathlib.Data.List.Basic
import Mathlib.Data.Option.Basic

/-!
# Hash chains

An entry names the hash of the entry before it and carries a hash of its own, which a
digest computes from its content and that name. Nothing precedes the first entry, or
something that was removed does, of which the hash is kept. Where a digest determines
the hash it names, the hashes that arise from nothing never come back along a chain, so
an entry can neither leave the middle of a chain nor come into it.
-/
namespace AgenticPlatform.Foundation

variable {ε η γ : Type*}

/-- How entries are read: what they name, what they carry, what is digested. -/
structure Links (ε η γ : Type*) where
  prev : ε → Option η
  hash : ε → η
  content : ε → γ
  digest : γ → Option η → η

namespace Links

variable (L : Links ε η γ)

/-- The hash an entry after these must name. -/
def tip (p : Option η) (es : List ε) : Option η := (es.getLast?.map L.hash).or p

/-- Each entry names the one before it and carries its digest. -/
def Chained : Option η → List ε → Prop
  | _, [] => True
  | p, e :: es => L.prev e = p ∧ L.hash e = L.digest (L.content e) p ∧ Chained (some (L.hash e)) es

/-- The hashes that arise from nothing. -/
inductive Genuine : Option η → Prop where
  | none : Genuine none
  | link {p : Option η} (c : γ) (h : Genuine p) : Genuine (some (L.digest c p))

variable {L}

@[simp] theorem tip_nil (p : Option η) : L.tip p [] = p := rfl

theorem tip_append (p : Option η) (es fs : List ε) :
    L.tip p (es ++ fs) = L.tip (L.tip p es) fs := by
  cases hfs : fs.getLast? with
  | none =>
    rw [List.getLast?_eq_none_iff] at hfs
    rw [hfs, List.append_nil, tip_nil]
  | some f => simp [tip, List.getLast?_append, hfs]

theorem tip_cons (p : Option η) (e : ε) (es : List ε) :
    L.tip p (e :: es) = L.tip (some (L.hash e)) es :=
  tip_append p [e] es

theorem chained_append {p : Option η} {es fs : List ε} :
    L.Chained p (es ++ fs) ↔ L.Chained p es ∧ L.Chained (L.tip p es) fs := by
  induction es generalizing p with
  | nil => simp [Chained]
  | cons e es ih => simp only [List.cons_append, Chained, ih, tip_cons, and_assoc]

/-- What a chain leads to is genuine where its start is. -/
theorem genuine_tip {p : Option η} {es : List ε} (hp : L.Genuine p) (h : L.Chained p es) :
    L.Genuine (L.tip p es) := by
  induction es generalizing p with
  | nil => exact hp
  | cons e es ih =>
    obtain ⟨-, hhash, hrest⟩ := h
    rw [tip_cons]
    apply ih _ hrest
    rw [hhash]
    exact .link (L.content e) hp

/-- The hash after these contents. -/
def after (L : Links ε η γ) (p : Option η) (cs : List γ) : Option η :=
  cs.foldl (fun q c => some (L.digest c q)) p

theorem tip_eq_after {p : Option η} {es : List ε} (h : L.Chained p es) :
    L.tip p es = L.after p (es.map L.content) := by
  induction es generalizing p with
  | nil => rfl
  | cons e es ih =>
    obtain ⟨-, hhash, hrest⟩ := h
    rw [tip_cons, ih hrest, hhash]
    rfl

/-- A digest determines the hash it names. -/
def Traceable (L : Links ε η γ) : Prop := ∀ c c' p p', L.digest c p = L.digest c' p' → p = p'

/-- A genuine hash never comes back: unwind the contents one by one until nothing
precedes them. -/
theorem after_ne {p : Option η} (htrace : L.Traceable) (hp : L.Genuine p) {cs : List γ}
    (hcs : cs ≠ []) : L.after p cs ≠ p := by
  induction hp generalizing cs with
  | none =>
    obtain ⟨init, c, rfl⟩ := (List.eq_nil_or_concat cs).resolve_left hcs
    simp [after]
  | @link p c hp ih =>
    obtain ⟨init, d, rfl⟩ := (List.eq_nil_or_concat cs).resolve_left hcs
    intro hsame
    simp only [after, List.concat_eq_append, List.foldl_append, List.foldl_cons, List.foldl_nil,
      Option.some.injEq] at hsame
    have hstep : L.after p (c :: init) = p := htrace _ _ _ _ hsame
    exact ih (List.cons_ne_nil c init) hstep

theorem tip_ne {p : Option η} {es : List ε} (htrace : L.Traceable) (hp : L.Genuine p)
    (h : L.Chained p es) (hes : es ≠ []) : L.tip p es ≠ p := by
  rw [tip_eq_after h]
  apply after_ne htrace hp
  simpa using hes

/-! ## Entries that move -/

theorem prev_of_chained {p : Option η} {pre post : List ε} {e : ε}
    (h : L.Chained p (pre ++ e :: post)) : L.prev e = L.tip p pre := (chained_append.mp h).2.1

/-- Two parts that lead to the same entry lead to the same hash. -/
theorem tip_eq_of_chained {p : Option η} {pre pre' post : List ε} (h : L.Chained p (pre ++ post))
    (h' : L.Chained p (pre' ++ post)) (hpost : post ≠ []) : L.tip p pre = L.tip p pre' := by
  obtain ⟨e, rest, rfl⟩ := List.exists_cons_of_ne_nil hpost
  rw [← prev_of_chained h, prev_of_chained h']

/-- Nothing can come in before an entry. -/
theorem not_chained_insert {p : Option η} {pre mid post : List ε} (htrace : L.Traceable)
    (hp : L.Genuine p) (h : L.Chained p (pre ++ post)) (hmid : mid ≠ []) (hpost : post ≠ []) :
    ¬ L.Chained p (pre ++ mid ++ post) := by
  intro h'
  have hsame := tip_eq_of_chained h' h hpost
  rw [tip_append] at hsame
  obtain ⟨hpre, hchained⟩ := chained_append.mp (chained_append.mp h').1
  exact tip_ne htrace (genuine_tip hp hpre) hchained hmid hsame

/-- Nothing can leave from before an entry. -/
theorem not_chained_remove {p : Option η} {pre mid post : List ε} (htrace : L.Traceable)
    (hp : L.Genuine p) (h : L.Chained p (pre ++ mid ++ post)) (hmid : mid ≠ [])
    (hpost : post ≠ []) : ¬ L.Chained p (pre ++ post) :=
  fun h' => not_chained_insert htrace hp h' hmid hpost h

/-- An entry cannot come before those it comes after, whatever else is done to it. -/
theorem not_chained_before {p : Option η} {pre mid post rest : List ε} {e e' : ε}
    (htrace : L.Traceable) (hp : L.Genuine p) (h : L.Chained p (pre ++ mid ++ e :: post))
    (hmid : mid ≠ []) (hprev : L.prev e' = L.prev e) : ¬ L.Chained p (pre ++ e' :: rest) := by
  intro h'
  have hsame : L.tip p (pre ++ mid) = L.tip p pre := by
    rw [← prev_of_chained h, ← prev_of_chained h', hprev]
  rw [tip_append] at hsame
  obtain ⟨hpre, hchained⟩ := chained_append.mp (chained_append.mp h).1
  exact tip_ne htrace (genuine_tip hp hpre) hchained hmid hsame

/-- Two entries among the same others: the second cannot come later. -/
theorem eq_nil_of_later {p : Option η} {pre mid post : List ε} {e e' : ε} (htrace : L.Traceable)
    (hp : L.Genuine p) (h : L.Chained p (pre ++ e :: (mid ++ post)))
    (h' : L.Chained p ((pre ++ mid) ++ e' :: post)) : mid = [] := by
  by_contra hmid
  have hbefore : L.Chained p (pre ++ [e] ++ mid) := by
    rw [List.append_cons, ← List.append_assoc] at h
    exact (chained_append.mp h).1
  exact not_chained_remove htrace hp hbefore (List.cons_ne_nil e []) hmid (chained_append.mp h').1

/-- An entry among the same others has one place. -/
theorem place_unique {p : Option η} {pre post pre' post' : List ε} {e e' : ε} (htrace : L.Traceable)
    (hp : L.Genuine p) (h : L.Chained p (pre ++ e :: post)) (h' : L.Chained p (pre' ++ e' :: post'))
    (hsame : pre ++ post = pre' ++ post') : pre = pre' ∧ post = post' := by
  rcases List.append_eq_append_iff.mp hsame with ⟨mid, rfl, rfl⟩ | ⟨mid, rfl, rfl⟩
  · have hmid := eq_nil_of_later htrace hp h h'
    rw [hmid, List.append_nil, List.nil_append]
    exact ⟨rfl, rfl⟩
  · have hmid := eq_nil_of_later htrace hp h' h
    rw [hmid, List.append_nil, List.nil_append]
    exact ⟨rfl, rfl⟩

/-- What may take the place of an entry: the entries after it bind its hash. -/
theorem chained_replace {p : Option η} {pre post : List ε} {e e' : ε}
    (h : L.Chained p (pre ++ e :: post)) :
    L.Chained p (pre ++ e' :: post) ↔ L.prev e' = L.prev e ∧
      L.hash e' = L.digest (L.content e') (L.prev e') ∧ (post = [] ∨ L.hash e' = L.hash e) := by
  have hprev := prev_of_chained h
  obtain ⟨hpre, -, -, hpost⟩ := chained_append.mp h
  constructor
  · intro h'
    have hprev' := prev_of_chained h'
    obtain ⟨-, -, hhash', -⟩ := chained_append.mp h'
    refine ⟨hprev'.trans hprev.symm, hprev' ▸ hhash', ?_⟩
    by_cases hnil : post = []
    · exact Or.inl hnil
    · rw [List.append_cons] at h h'
      have hsame := tip_eq_of_chained h' h hnil
      rw [tip_append, tip_append] at hsame
      exact Or.inr (Option.some.inj hsame)
  · rintro ⟨hsame, hhash, hrest⟩
    rw [hsame, hprev] at hhash
    refine chained_append.mpr ⟨hpre, hsame.trans hprev, hhash, ?_⟩
    rcases hrest with rfl | hrest
    · trivial
    · rw [hrest]
      exact hpost

end Links
end AgenticPlatform.Foundation
