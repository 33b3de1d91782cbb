import Mathlib.Data.List.Basic

/-!
# Checks in a row

A gate runs checks one after the other. Each may refuse, which ends the gate, and each may
leave events behind, whether it refuses or not. The rules below take a gate that let
something through apart into the checks that let it through.
-/
namespace AgenticPlatform.Foundation

theorem map_eq_ok {ε α β : Type*} {f : α → β} {x : Except ε α} {b : β} (h : x.map f = .ok b) :
    ∃ a, x = .ok a ∧ f a = b := by
  cases x with
  | error e => cases h
  | ok a =>
    cases h
    exact ⟨a, rfl, rfl⟩

theorem bind_eq_ok {ε α β : Type*} {f : α → Except ε β} {x : Except ε α} {b : β}
    (h : x.bind f = .ok b) : ∃ a, x = .ok a ∧ f a = .ok b := by
  cases x with
  | error e => cases h
  | ok a => exact ⟨a, rfl, h⟩

/-- From the events so far to the outcome and the events then. -/
def Gate (ω ε α : Type*) := List ω → Except ε α × List ω

namespace Gate

variable {ω ε α β : Type*}

def pass (a : α) : Gate ω ε α := fun events => (.ok a, events)

def refuse (e : ε) : Gate ω ε α := fun events => (.error e, events)

def andThen (x : Gate ω ε α) (f : α → Gate ω ε β) : Gate ω ε β := fun events =>
  match x events with
  | (.ok a, events') => f a events'
  | (.error e, events') => (.error e, events')

instance {ω ε : Type} : Monad (Gate ω ε) where
  pure := pass
  bind := andThen

def emit (event : ω) : Gate ω ε Unit := fun events => (.ok (), events ++ [event])

def ensure (condition : Prop) [Decidable condition] (e : ε) : Gate ω ε Unit :=
  if condition then pass () else refuse e

section
variable {events events' : List ω} {a : α}

theorem pass_ok {b : α} :
    (pass a : Gate ω ε α) events = (.ok b, events') ↔ a = b ∧ events = events' := by
  simp [pass]

theorem refuse_not_ok {e : ε} : ¬ (refuse e : Gate ω ε α) events = (.ok a, events') := by
  intro h
  cases h

theorem ensure_ok {condition : Prop} [Decidable condition] {e : ε} {u : Unit} :
    (ensure condition e : Gate ω ε Unit) events = (.ok u, events') ↔
      condition ∧ events = events' := by
  unfold ensure
  split
  · simp [pass, *]
  · simp [refuse, *]

theorem emit_ok {event : ω} {u : Unit} :
    (emit event : Gate ω ε Unit) events = (.ok u, events') ↔ events' = events ++ [event] := by
  simp [emit, eq_comm]

end

theorem andThen_ok {x : Gate ω ε α} {f : α → Gate ω ε β} {events events' : List ω} {b : β} :
    andThen x f events = (.ok b, events') ↔ ∃ a middle, x events = (.ok a, middle) ∧
      f a middle = (.ok b, events') := by
  unfold andThen
  cases hx : x events with
  | mk result middle =>
    cases result with
    | ok a => simp
    | error e => simp

theorem bind_ok {ω ε α β : Type} {x : Gate ω ε α} {f : α → Gate ω ε β}
    {events events' : List ω} {b : β} :
    (x >>= f) events = (.ok b, events') ↔ ∃ a middle, x events = (.ok a, middle) ∧
      f a middle = (.ok b, events') :=
  andThen_ok

end Gate
end AgenticPlatform.Foundation
