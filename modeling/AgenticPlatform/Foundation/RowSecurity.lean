import Mathlib.Data.List.Basic
import Mathlib.Data.Option.Basic

/-!
# Settings of a connection and rows behind them

A custom setting has a value on the connection, one set in the transaction for the
connection, and one set for the transaction alone. Row security shows a statement the rows
whose owner the setting names, and refuses to write others; an unset or empty setting names
nobody.
-/
namespace AgenticPlatform.Foundation

variable {τ ρ : Type*}

inductive SettingValue (τ : Type*) where
  | unset
  | empty
  | of (value : τ)
deriving DecidableEq

namespace SettingValue

/-- `NULLIF(current_setting(name, true), '')`. -/
def nullif : SettingValue τ → Option τ
  | .unset | .empty => none
  | .of value => some value

/-- A setting that did not exist before the transaction is empty after it. -/
def reverted : SettingValue τ → SettingValue τ
  | .unset => .empty
  | v => v

@[simp] theorem nullif_reverted (v : SettingValue τ) : v.reverted.nullif = v.nullif := by
  cases v <;> rfl

end SettingValue

structure Setting (τ : Type*) where
  base : SettingValue τ
  session : Option (SettingValue τ)
  local_ : Option (SettingValue τ)

namespace Setting

def initial : Setting τ := ⟨.unset, none, none⟩

def current (s : Setting τ) : SettingValue τ := s.local_.getD (s.session.getD s.base)

/-- `set_config(name, v, true)`. -/
def setLocal (s : Setting τ) (v : SettingValue τ) : Setting τ := { s with local_ := some v }

/-- `set_config(name, v, false)`. -/
def setSession (s : Setting τ) (v : SettingValue τ) : Setting τ :=
  { s with session := some v, local_ := none }

def commit (s : Setting τ) : Setting τ :=
  ⟨s.session.getD (if s.local_.isSome then s.base.reverted else s.base), none, none⟩

def rollback (s : Setting τ) : Setting τ :=
  ⟨if s.local_.isSome ∨ s.session.isSome then s.base.reverted else s.base, none, none⟩

/-- Nothing outlives a transaction. -/
def Blank (s : Setting τ) : Prop := s.base.nullif = none ∧ s.session = none

theorem blank_initial : (initial : Setting τ).Blank := ⟨rfl, rfl⟩

theorem Blank.setLocal {s : Setting τ} (h : s.Blank) (v : SettingValue τ) : (s.setLocal v).Blank :=
  h

theorem Blank.commit {s : Setting τ} (h : s.Blank) : s.commit.Blank := by
  refine ⟨?_, rfl⟩
  unfold Setting.commit
  rw [h.2, Option.getD_none]
  split
  · rw [SettingValue.nullif_reverted]
    exact h.1
  · exact h.1

theorem Blank.rollback {s : Setting τ} (h : s.Blank) : s.rollback.Blank := by
  refine ⟨?_, rfl⟩
  unfold Setting.rollback
  split
  · rw [SettingValue.nullif_reverted]
    exact h.1
  · exact h.1

theorem Blank.nullif_current {s : Setting τ} (h : s.Blank) :
    s.current.nullif = s.local_.bind SettingValue.nullif := by
  unfold Setting.current
  rw [h.2, Option.getD_none]
  cases s.local_ with
  | none => exact h.1
  | some v => rfl

end Setting

/-! ## Statements under row security -/

variable [DecidableEq τ] (owner : ρ → τ)

/-- What the policy's USING clause lets through. -/
def visible (setting : SettingValue τ) (rows : List ρ) : List ρ :=
  rows.filter (fun r => some (owner r) = setting.nullif)

/-- The WITH CHECK clause. -/
def writable (setting : SettingValue τ) (rows : List ρ) : Bool :=
  rows.all (fun r => some (owner r) = setting.nullif)

variable {owner} {setting : SettingValue τ} {rows : List ρ} {r : ρ}

theorem owner_of_visible (h : r ∈ visible owner setting rows) :
    setting.nullif = some (owner r) := by
  have hp := (List.mem_filter.mp h).2
  exact (of_decide_eq_true hp).symm

theorem owner_of_writable (h : writable owner setting rows = true) (hr : r ∈ rows) :
    setting.nullif = some (owner r) := by
  have hall := List.all_eq_true.mp h r hr
  exact (of_decide_eq_true hall).symm

end AgenticPlatform.Foundation
