import Mathlib.Data.List.Forall2

/-!
# Traversals that may fail

A loop that computes a result for each element of a list, and ends at the first element it
has none for. Where it gets to the end, element and result correspond one by one, and what
can be said of each pair can be said of the two lists.
-/
namespace AgenticPlatform.Foundation

variable {ε α β γ : Type*}

theorem toOption_eq_some {x : Except ε α} {a : α} : x.toOption = some a ↔ x = .ok a := by
  cases x with
  | error e => simp [Except.toOption]
  | ok b => simp [Except.toOption]

theorem mapM_eq_ok {α β : Type} {f : α → Except ε β} {l : List α} {bs : List β} :
    l.mapM f = .ok bs ↔ List.Forall₂ (fun a b => f a = .ok b) l bs := by
  induction l generalizing bs with
  | nil =>
    rw [List.mapM_nil, List.forall₂_nil_left_iff]
    constructor
    · intro h
      cases h
      rfl
    · rintro rfl
      rfl
  | cons a l ih =>
    rw [List.mapM_cons, List.forall₂_cons_left_iff]
    cases hf : f a with
    | error e =>
      constructor
      · intro h
        cases h
      · rintro ⟨b, u, hb, -, -⟩
        cases hb
    | ok b =>
      cases hl : l.mapM f with
      | error e =>
        constructor
        · intro h
          cases h
        · rintro ⟨b, u, -, hu, -⟩
          rw [← ih, hl] at hu
          cases hu
      | ok u =>
        constructor
        · intro h
          cases h
          exact ⟨b, u, rfl, ih.mp hl, rfl⟩
        · rintro ⟨b', u', hb, hu, rfl⟩
          cases hb
          rw [← ih, hl] at hu
          cases hu
          rfl

/-- It gets to the end exactly where there is a result for every element. -/
theorem exists_mapM_eq_ok {α β : Type} {f : α → Except ε β} {l : List α} :
    (∃ bs, l.mapM f = .ok bs) ↔ ∀ a ∈ l, ∃ b, f a = .ok b := by
  simp only [mapM_eq_ok]
  induction l with
  | nil => simp
  | cons a l ih =>
    rw [List.forall_mem_cons, ← ih]
    constructor
    · rintro ⟨bs, h⟩
      obtain ⟨b, u, hb, hu, rfl⟩ := List.forall₂_cons_left_iff.mp h
      exact ⟨⟨b, hb⟩, u, hu⟩
    · rintro ⟨⟨b, hb⟩, u, hu⟩
      exact ⟨b :: u, List.Forall₂.cons hb hu⟩

/-! ## The same with optional results -/

theorem forall₂_of_mapM {α β : Type} {f : α → Option β} {as : List α} {bs : List β}
    (h : as.mapM f = some bs) : List.Forall₂ (fun a b => f a = some b) as bs := by
  induction as generalizing bs with
  | nil =>
    cases h
    exact .nil
  | cons a as ih =>
    rw [List.mapM_cons] at h
    obtain ⟨b, hb, h⟩ := Option.bind_eq_some_iff.mp h
    obtain ⟨rest, hrest, h⟩ := Option.bind_eq_some_iff.mp h
    cases h
    exact .cons hb (ih hrest)

theorem mapM_eq_self {α : Type} {f : α → Option α} {as : List α} (h : ∀ a ∈ as, f a = some a) :
    as.mapM f = some as := by
  induction as with
  | nil => rfl
  | cons a as ih =>
    obtain ⟨ha, has⟩ := List.forall_mem_cons.mp h
    rw [List.mapM_cons, ha, ih has]
    rfl

theorem mapM_eq_filterMap {β γ : Type} {f : β → Option γ} {l : List β} (h : ∀ a ∈ l, (f a).isSome) :
    l.mapM f = some (l.filterMap f) := by
  induction l with
  | nil => rfl
  | cons a l ih =>
    obtain ⟨ha, hl⟩ := List.forall_mem_cons.mp h
    obtain ⟨b, hb⟩ := Option.isSome_iff_exists.mp ha
    rw [List.mapM_cons, hb, ih hl, List.filterMap_cons_some hb]
    rfl

theorem findSome?_eq_bind_find? {α β : Type*} (f : α → Option β) (l : List α) :
    l.findSome? f = (l.find? (fun a => (f a).isSome)).bind f := by
  induction l with
  | nil => rfl
  | cons a l ih =>
    rw [List.findSome?_cons, List.find?_cons]
    cases hf : f a with
    | none => simpa using ih
    | some b => simp [hf]

/-! ## Corresponding lists -/

/-- The places of the elements that are kept. -/
theorem forall₂_findIdxs {α : Type} (p : α → Bool) (l : List α) :
    List.Forall₂ (fun i a => l[i]? = some a) (l.findIdxs p) (l.filter p) := by
  refine List.forall₂_iff_get.mpr ⟨?_, ?_⟩
  · rw [List.length_findIdxs, List.countP_eq_length_filter]
  · intro k hk hk'
    simp only [List.get_eq_getElem]
    rw [List.getElem_filter_eq_getElem_getElem_findIdxs, List.getElem?_eq_getElem]

variable {R : α → β → Prop} {l : List α} {bs : List β}

theorem filterMap_of_forall₂ (h : List.Forall₂ R l bs) {f : β → Option γ} {g : α → Option γ}
    (hfg : ∀ a ∈ l, ∀ b, R a b → f b = g a) : bs.filterMap f = l.filterMap g := by
  induction h with
  | nil => rfl
  | cons hab hrest ih =>
    obtain ⟨hfirst, hlater⟩ := List.forall_mem_cons.mp hfg
    rw [List.filterMap_cons, List.filterMap_cons, hfirst _ hab, ih hlater]

theorem map_of_forall₂ (h : List.Forall₂ R l bs) {f : β → γ} {g : α → γ}
    (hfg : ∀ a ∈ l, ∀ b, R a b → f b = g a) : bs.map f = l.map g := by
  rw [← List.filterMap_eq_map', ← List.filterMap_eq_map']
  exact filterMap_of_forall₂ h (fun a ha b hab => congrArg some (hfg a ha b hab))

theorem filter_map_of_forall₂ (h : List.Forall₂ R l bs) {p : β → Bool} {p' : α → Bool} {f : β → γ}
    {g : α → γ} (hp : ∀ a ∈ l, ∀ b, R a b → p b = p' a) (hfg : ∀ a ∈ l, ∀ b, R a b → f b = g a) :
    (bs.filter p).map f = (l.filter p').map g := by
  induction h with
  | nil => rfl
  | cons hab hrest ih =>
    obtain ⟨hfirst, hlater⟩ := List.forall_mem_cons.mp hp
    obtain ⟨hvalue, hvalues⟩ := List.forall_mem_cons.mp hfg
    rw [List.filter_cons, List.filter_cons, hfirst _ hab]
    split
    · rw [List.map_cons, List.map_cons, hvalue _ hab, ih hlater hvalues]
    · exact ih hlater hvalues

end AgenticPlatform.Foundation
