import Mathlib.Data.List.SplitBy

/-!
# Lists in groups

A list is cut wherever an element does not go with the one before it. A further element goes
to the last group or opens one of its own, so a loop that looks at the last group only builds
the groups. Elements of different kinds end up together exactly where one goes with the one
before it.
-/
namespace AgenticPlatform.Foundation

variable {α β : Type*} {r : α → α → Bool} {l g : List α} {gs : List (List α)} {b : α}

/-- The element goes with the last one. -/
theorem splitBy_concat (h : l.splitBy r = gs ++ [g]) (hb : ∀ a ∈ g.getLast?, r a b = true) :
    (l ++ [b]).splitBy r = gs ++ [g ++ [b]] := by
  obtain ⟨hflat, hnil, hchain, hends⟩ := List.splitBy_eq_iff.mp h
  have hg : g ≠ [] := fun hg => hnil (hg ▸ List.mem_append_right gs List.mem_cons_self)
  refine List.splitBy_eq_iff.mpr ⟨?_, ?_, ?_, ?_⟩
  · rw [hflat]
    simp
  · simp only [List.mem_append, List.mem_singleton, not_or]
    exact ⟨fun hmem => hnil (List.mem_append_left _ hmem), by simp⟩
  · intro m hm
    rcases List.mem_append.mp hm with hm | hm
    · exact hchain m (List.mem_append_left _ hm)
    · rw [List.mem_singleton.mp hm]
      refine List.isChain_append.mpr
        ⟨hchain g (List.mem_append_right gs List.mem_cons_self), List.isChain_singleton b, ?_⟩
      intro a ha b' hb'
      cases Option.some.inj hb'
      exact hb a ha
  · rw [List.isChain_append] at hends ⊢
    refine ⟨hends.1, List.isChain_singleton _, ?_⟩
    intro m hm m' hm'
    cases Option.some.inj hm'
    obtain ⟨hm0, hg0, hapart⟩ := hends.2.2 m hm g rfl
    refine ⟨hm0, by simp, ?_⟩
    rwa [List.head_append_of_ne_nil hg0]

/-- It does not. -/
theorem splitBy_concat_apart (hb : ∀ a ∈ l.getLast?, r a b = false) :
    (l ++ [b]).splitBy r = l.splitBy r ++ [[b]] := by
  rw [List.splitBy_append_cons [] hb, List.splitBy_of_isChain (by simp) (List.isChain_singleton b)]

theorem getLast?_splitBy (h : l.splitBy r = gs ++ [g]) : l.getLast? = g.getLast? := by
  obtain ⟨hflat, hnil, -, -⟩ := List.splitBy_eq_iff.mp h
  have hg : g ≠ [] := fun hg => hnil (hg ▸ List.mem_append_right gs List.mem_cons_self)
  rw [hflat, List.flatten_append, List.flatten_singleton, List.getLast?_append_of_ne_nil _ hg]

/-- Elements that go with one another, and so are of one kind, are all of it. -/
theorem kinds_eq_of_isChain {kind : α → β} (hr : g.IsChain (fun a b => r a b = true))
    (hkind : g.IsChain (fun a b => r a b = true → kind a = kind b)) :
    ∀ a ∈ g, ∀ b ∈ g, kind a = kind b := by
  cases g with
  | nil => exact fun a ha => absurd ha List.not_mem_nil
  | cons first g =>
    have hfirst : ∀ a ∈ first :: g, kind first = kind a := by
      induction g generalizing first with
      | nil =>
        intro a ha
        rw [List.mem_singleton.mp ha]
      | cons second g ih =>
        rw [List.isChain_cons_cons] at hr hkind
        have hsecond := ih second hr.2 hkind.2
        intro a ha
        rcases List.mem_cons.mp ha with rfl | ha
        · rfl
        · exact (hkind.1 hr.1).trans (hsecond a ha)
    intro a ha b hb
    exact (hfirst a ha).symm.trans (hfirst b hb)

/-- No group has elements of two kinds if and only if no element goes with one of another
kind. -/
theorem splitBy_kinds_iff (kind : α → β) : (∀ g ∈ l.splitBy r, ∀ a ∈ g, ∀ b ∈ g, kind a = kind b) ↔
    l.IsChain (fun a b => r a b = true → kind a = kind b) := by
  constructor
  · intro h
    rw [← List.flatten_splitBy r l, List.isChain_flatten (List.nil_notMem_splitBy r l)]
    constructor
    · intro g hg
      refine (List.pairwise_of_forall_mem_list ?_).isChain
      intro a ha b hb _
      exact h g hg a ha b hb
    · refine (List.isChain_getLast_head_splitBy r l).imp ?_
      rintro m m' ⟨hm, hm', hapart⟩ x hx y hy hxy
      rw [List.getLast?_eq_some_getLast hm] at hx
      rw [List.head?_eq_some_head hm'] at hy
      cases hx
      cases hy
      rw [hapart] at hxy
      cases hxy
  · intro h g hg
    have hpart : g <:+: l := by
      obtain ⟨pre, post, hsplit⟩ := List.append_of_mem hg
      rw [← List.flatten_splitBy r l, hsplit]
      exact ⟨pre.flatten, post.flatten, by simp⟩
    have hkind : g.IsChain (fun a b => r a b = true → kind a = kind b) := List.IsChain.infix h hpart
    exact kinds_eq_of_isChain (List.isChain_of_mem_splitBy hg) hkind

end AgenticPlatform.Foundation
