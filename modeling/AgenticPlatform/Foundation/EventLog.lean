import Mathlib.Data.List.Basic

/-!
# Logs of who did what

A log is a list of events with the one they are of. What one of them has done is the part of
the log that is its own; an event is met with what had been logged by then.
-/
namespace AgenticPlatform.Foundation

variable {ι ε : Type*}

section
variable [DecidableEq ι]

/-- What this one did, in its order. -/
def eventsOf (i : ι) (log : List (ι × ε)) : List ε :=
  log.filterMap (fun entry => if entry.1 = i then some entry.2 else none)

@[simp] theorem eventsOf_nil (i : ι) : eventsOf i ([] : List (ι × ε)) = [] := rfl

@[simp] theorem eventsOf_self (i : ι) (log : List (ι × ε)) (e : ε) :
    eventsOf i (log ++ [(i, e)]) = eventsOf i log ++ [e] := by
  simp [eventsOf]

theorem eventsOf_other {i j : ι} (h : j ≠ i) (log : List (ι × ε)) (e : ε) :
    eventsOf i (log ++ [(j, e)]) = eventsOf i log := by
  simp [eventsOf, h]

theorem mem_eventsOf {i : ι} {log : List (ι × ε)} {e : ε} : e ∈ eventsOf i log ↔ (i, e) ∈ log := by
  rw [eventsOf, List.mem_filterMap]
  constructor
  · rintro ⟨⟨j, e'⟩, hmem, heq⟩
    split at heq
    · rename_i hj
      cases Option.some.inj heq
      exact hj ▸ hmem
    · cases heq
  · exact fun h => ⟨(i, e), h, if_pos rfl⟩

end

/-- Every event stands in this relation to the log up to it. -/
def Along (R : List (ι × ε) → ι × ε → Prop) (log : List (ι × ε)) : Prop :=
  ∀ before entry after, log = before ++ entry :: after → R before entry

theorem along_nil (R : List (ι × ε) → ι × ε → Prop) : Along R [] := by
  intro before entry after h
  simp at h

theorem along_concat {R : List (ι × ε) → ι × ε → Prop} {log : List (ι × ε)} {entry : ι × ε} :
    Along R (log ++ [entry]) ↔ Along R log ∧ R log entry := by
  constructor
  · intro h
    refine ⟨?_, h log entry [] rfl⟩
    rintro before e after rfl
    exact h before e (after ++ [entry]) (by simp)
  · rintro ⟨hlog, hlast⟩ before e after heq
    rcases List.eq_nil_or_concat after with rfl | ⟨rest, last, rfl⟩
    · obtain ⟨rfl, hcons⟩ := List.append_inj' heq rfl
      cases hcons
      exact hlast
    · rw [List.concat_eq_append, ← List.cons_append, ← List.append_assoc] at heq
      exact hlog before e rest (List.append_inj' heq rfl).1

end AgenticPlatform.Foundation
