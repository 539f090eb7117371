import Mathlib.Algebra.Group.Int.Defs
import Mathlib.Algebra.GroupWithZero.Nat
import Mathlib.Tactic.Common

/-!
# Conversions between machine words

C expressions mix `int` and 32-bit unsigned values; these are the two implicit
conversions between them, with machine words represented by the numbers they hold. The
16-bit words that a program joins from two bytes are `UInt16`.
-/

namespace AmebaRtos.Lib

def u32 (value : Int) : Nat := (value % 2 ^ 32).toNat

/-- Conversion of a 32-bit unsigned word to `int`. -/
def s32 (word : Nat) : Int := if word < 2 ^ 31 then word else word - 2 ^ 32

theorem u32_natCast {value : Nat} (hhi : value < 2 ^ 32) : u32 value = value := by
  unfold u32
  omega

theorem u16_of_bytes (hn : n < 2 ^ 16) :
    (UInt8.ofNat n).toUInt16 ||| ((UInt8.ofNat (n / 256)).toUInt16 <<< 8) = UInt16.ofNat n := by
  apply UInt16.toNat_inj.mp
  have hhigh : n / 256 < 2 ^ 8 := by omega
  have hroom : n / 256 * 2 ^ 8 % 2 ^ 16 = n / 256 * 2 ^ 8 := Nat.mod_eq_of_lt (by omega)
  have hshift : UInt16.toNat 8 % 16 = 8 := rfl
  have hor := Nat.shiftLeft_add_eq_or_of_lt (Nat.mod_lt n (by decide : 0 < 2 ^ 8)) (n / 256)
  rw [UInt16.toNat_or, UInt16.toNat_shiftLeft, UInt8.toNat_toUInt16, UInt8.toNat_toUInt16,
    UInt8.toNat_ofNat', UInt8.toNat_ofNat', UInt16.toNat_ofNat', hshift, Nat.mod_eq_of_lt hhigh,
    Nat.shiftLeft_eq, hroom, ← Nat.shiftLeft_eq, Nat.or_comm]
  omega

theorem u16_high (w : UInt16) : UInt8.ofNat (w.toNat / 256) = (w >>> 8).toUInt8 := by
  apply UInt8.toNat_inj.mp
  rw [UInt16.toNat_toUInt8, UInt16.toNat_shiftRight, Nat.shiftRight_eq_div_pow]
  rfl

theorem u16_join (w : UInt16) : w.toUInt8.toUInt16 ||| ((w >>> 8).toUInt8.toUInt16 <<< 8) = w := by
  have hbytes := u16_of_bytes w.toNat_lt
  have hlow : UInt8.ofNat w.toNat = w.toUInt8 := rfl
  rw [hlow, u16_high] at hbytes
  rw [hbytes, UInt16.ofNat_toNat]

end AmebaRtos.Lib
