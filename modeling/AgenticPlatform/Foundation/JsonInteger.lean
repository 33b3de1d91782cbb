import AgenticPlatform.Foundation.JsonValue
import Mathlib.Data.List.TakeWhile
import Mathlib.Tactic.IntervalCases

/-!
# Integers in JSON documents

The number that is written for an integer, and the integer that a number stands for. What
is written is read back.
-/
namespace AgenticPlatform.Foundation

/-! ## Digits -/

theorem all_digits (n : Nat) : ∀ c ∈ Nat.toDigits 10 n, c.isDigit = true :=
  fun _ hc => Nat.isDigit_of_mem_toDigits (by decide) (by decide) hc

/-- No zero stands in front of other digits. -/
theorem head_toDigits {n : Nat} (hn : 0 < n) : (Nat.toDigits 10 n).head? ≠ some '0' := by
  induction n using Nat.strongRecOn with
  | ind n ih =>
    rw [Nat.toDigits_eq_if (by decide)]
    split
    · rename_i hlt
      interval_cases n <;> decide
    · rename_i hge
      have hquotient := ih (n / 10) (by omega) (by omega)
      rw [List.head?_append_of_ne_nil _ Nat.toDigits_ne_nil]
      exact hquotient

theorem takeWhile_toDigits (n : Nat) :
    (Nat.toDigits 10 n).takeWhile Char.isDigit = Nat.toDigits 10 n :=
  List.takeWhile_eq_self_iff.mpr (all_digits n)

theorem dropWhile_toDigits (n : Nat) : (Nat.toDigits 10 n).dropWhile Char.isDigit = [] :=
  List.dropWhile_eq_nil_iff.mpr (all_digits n)

theorem isUnsigned_toDigits (n : Nat) : isUnsigned (Nat.toDigits 10 n) = true := by
  have hdigits : isDigits (Nat.toDigits 10 n) = true := by
    simp [isDigits, Nat.toDigits_ne_nil]
    exact all_digits n
  have hhead : (Nat.toDigits 10 n).head? ≠ some '0' ∨ (Nat.toDigits 10 n).length = 1 := by
    rcases Nat.eq_zero_or_pos n with rfl | hpos
    · exact Or.inr rfl
    · exact Or.inl (head_toDigits hpos)
  have hrest : isFraction [] = true := rfl
  simp only [isUnsigned, takeWhile_toDigits, dropWhile_toDigits, hdigits, hrest, Bool.true_and,
    Bool.and_true]
  simpa using hhead

/-! ## Numbers -/

def Number.ofNat (n : Nat) : Number where
  text := String.ofList (Nat.toDigits 10 n)
  valid := by
    have hchars : (Nat.toDigits 10 n).all numberChar = true :=
      List.all_eq_true.mpr (fun c hc => by simp [numberChar, all_digits n c hc])
    have hsign : (Nat.toDigits 10 n).head? ≠ some '-' := by
      intro hhead
      have hdigit := all_digits n '-' (List.mem_of_head? hhead)
      cases hdigit
    simp [isNumber, Nat.toDigits_ne_nil, hchars, if_neg hsign, isUnsigned_toDigits]

/-- Behind a minus. -/
def Number.ofNegative (n : Nat) : Number where
  text := String.ofList ('-' :: Nat.toDigits 10 n)
  valid := by
    have hchars : (Nat.toDigits 10 n).all numberChar = true :=
      List.all_eq_true.mpr (fun c hc => by simp [numberChar, all_digits n c hc])
    simp only [isNumber, String.toList_ofList, List.isEmpty_cons, Bool.not_false, List.all_cons,
      hchars, List.head?_cons, if_true, List.tail_cons, isUnsigned_toDigits]
    rfl

/-- What is written for an integer. -/
def Number.ofInt : Int → Number
  | .ofNat n => .ofNat n
  | .negSucc n => .ofNegative (n + 1)

theorem digitsValue_toDigits (n : Nat) : digitsValue (Nat.toDigits 10 n) = n := by
  induction n using Nat.strongRecOn with
  | ind n ih =>
    rw [Nat.toDigits_eq_if (by decide)]
    split
    · rename_i hlt
      interval_cases n <;> rfl
    · rename_i hge
      have hdigit : (Nat.digitChar (n % 10)).toNat - 48 = n % 10 := by
        have hlt : n % 10 < 10 := Nat.mod_lt n (by decide)
        interval_cases n % 10 <;> rfl
      have hquotient := ih (n / 10) (by omega)
      rw [digitsValue, List.foldl_append, ← digitsValue, hquotient, List.foldl_cons,
        List.foldl_nil, hdigit]
      omega

theorem unsignedValue_toDigits (n : Nat) : unsignedValue (Nat.toDigits 10 n) = n := by
  have hexponent : signedValue [] = 0 := rfl
  simp [unsignedValue, takeWhile_toDigits, dropWhile_toDigits, digitsValue_toDigits, hexponent]

theorem Number.value_ofInt (n : Int) : (Number.ofInt n).value = n := by
  cases n with
  | ofNat n =>
    have hsign : (Nat.toDigits 10 n).head? ≠ some '-' := by
      intro hhead
      have hdigit := all_digits n '-' (List.mem_of_head? hhead)
      cases hdigit
    simp [Number.value, Number.ofInt, Number.ofNat, if_neg hsign, unsignedValue_toDigits]
  | negSucc n =>
    simp [Number.value, Number.ofInt, Number.ofNegative, unsignedValue_toDigits, Int.negSucc_eq]

/-- The integer that a number stands for, if it is one. -/
def Number.int? (n : Number) : Option Int := if n.value.den = 1 then some n.value.num else none

@[simp] theorem Number.int?_ofInt (n : Int) : (Number.ofInt n).int? = some n := by
  simp [Number.int?, Number.value_ofInt]

example : (Number.ofInt (-15)).text = "-15" := by decide

end AgenticPlatform.Foundation
