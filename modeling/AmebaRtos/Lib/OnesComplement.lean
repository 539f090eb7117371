import Mathlib.Algebra.Group.Int.Defs
import Mathlib.Algebra.GroupWithZero.Nat
import Mathlib.Tactic.Common

/-!
# Sums in ones' complement

The sum of 16-bit words with the carry added in again. All ones stands for zero, and so does
the word zero, which is the sum of zeros only.
-/

namespace AmebaRtos.Lib

def onesAdd (a b : Nat) : Nat := if a + b < 2 ^ 16 then a + b else a + b - (2 ^ 16 - 1)

def onesSum (words : List UInt16) : Nat := words.foldr (fun w s => onesAdd w.toNat s) 0

def wordSum (words : List UInt16) : Nat := (words.map UInt16.toNat).sum

@[simp] theorem wordSum_cons : wordSum (w :: words) = w.toNat + wordSum words := by
  simp [wordSum]

@[simp] theorem wordSum_append : wordSum (words ++ words') = wordSum words + wordSum words' := by
  simp [wordSum]

theorem onesSum_spec (words : List UInt16) :
    onesSum words < 2 ^ 16 ∧ onesSum words % 65535 = wordSum words % 65535 ∧
      (onesSum words = 0 ↔ wordSum words = 0) := by
  induction words with
  | nil => decide
  | cons w words ih =>
    have hw := w.toNat_lt
    rw [wordSum_cons]
    change onesAdd w.toNat (onesSum words) < _ ∧ onesAdd w.toNat (onesSum words) % _ = _ ∧
      (onesAdd w.toNat (onesSum words) = 0 ↔ _)
    unfold onesAdd
    split_ifs <;> omega

theorem onesSum_eq_ones_iff :
    onesSum words = 0xFFFF ↔ wordSum words % 65535 = 0 ∧ wordSum words ≠ 0 := by
  have := onesSum_spec words
  omega

end AmebaRtos.Lib
