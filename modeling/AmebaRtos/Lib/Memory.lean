import Mathlib.Algebra.Group.Int.Defs
import Mathlib.Algebra.GroupWithZero.Nat
import Mathlib.Tactic.Common

/-!
# Byte-addressed memory and little-endian words

A memory is a total map from addresses to bytes. Structures of the target are
read out of it as windows of consecutive bytes, and their multi-byte fields are
little-endian words of such a window. The lemmas say how windows split and that
the two word conversions are inverse to each other on values that fit.
-/

namespace AmebaRtos.Lib

open List

abbrev Memory := Nat → UInt8

variable (mem : Memory)

/-- The `len` bytes from address `addr` on. -/
def Memory.window (addr len : Nat) : List UInt8 :=
  (List.range len).map fun i => mem (addr + i)

theorem Memory.window_congr {mem mem' : Memory} {addr addr' len : Nat}
    (hagree : ∀ k < len, mem (addr + k) = mem' (addr' + k)) :
    mem.window addr len = mem'.window addr' len := by
  apply map_congr_left
  intro k hk
  exact hagree k (mem_range.mp hk)

@[simp] theorem Memory.length_window (addr len : Nat) : (mem.window addr len).length = len := by
  simp [Memory.window]

theorem Memory.drop_window : (mem.window addr len).drop k = mem.window (addr + k) (len - k) := by
  apply ext_getElem
  · simp
  · intro i _ _
    simp [Memory.window, add_assoc]

theorem Memory.window_succ : mem.window addr (len + 1) = mem addr :: mem.window (addr + 1) len := by
  simp [Memory.window, range_succ_eq_map, add_assoc, add_comm 1]

theorem Memory.window_add :
    mem.window addr (len + len') = mem.window addr len ++ mem.window (addr + len) len' := by
  simp [Memory.window, range_add, add_assoc]

variable (addr : Nat)

theorem Memory.window_prefix_of_le (hle : len ≤ len') :
    mem.window addr len <+: mem.window addr len' := by
  obtain ⟨rest, rfl⟩ := Nat.exists_eq_add_of_le hle
  rw [Memory.window_add]
  exact prefix_append _ _

theorem Memory.getD_window (hk : k < len) (fill : UInt8) :
    (mem.window addr len).getD k fill = mem (addr + k) := by
  simp [Memory.window, hk]

theorem Memory.window_eq_iff {mem : Memory} {addr : Nat} {bytes : List UInt8} :
    mem.window addr bytes.length = bytes ↔
      ∀ k < bytes.length, mem (addr + k) = bytes.getD k fill := by
  constructor
  · intro hwindow k hk
    have hget := congrArg (fun l => l.getD k fill) hwindow
    simpa [Memory.window, hk] using hget
  · intro hall
    apply ext_getElem (Memory.length_window _ _ _)
    intro k hk hbytes
    have hget := hall k hbytes
    simpa [Memory.window, hbytes] using hget

variable (bytes : List UInt8)

/-- The memory after a byte string was copied to `addr`. -/
def Memory.store : Memory := fun a =>
  if addr ≤ a ∧ a < addr + bytes.length then bytes.getD (a - addr) 0 else mem a

theorem Memory.window_store (hn : n ≤ bytes.length) :
    (mem.store addr bytes).window addr n = bytes.take n := by
  apply ext_getElem
  · simp [Nat.min_eq_left hn]
  · intro k hk htake
    have hk : k < bytes.length := Nat.lt_of_lt_of_le (by simpa using hk) hn
    simp [Memory.window, Memory.store, hk]

def fromLE : List UInt8 → Nat
  | [] => 0
  | byte :: rest => byte.toNat + 256 * fromLE rest

/-- The `width` low bytes of a number, least significant byte first. -/
def toLE : (width : Nat) → Nat → List UInt8
  | 0, _ => []
  | width + 1, value => UInt8.ofNat value :: toLE width (value / 256)

@[simp] theorem length_toLE : (toLE width value).length = width := by
  induction width generalizing value with
  | zero => rfl
  | succ width ih => simp [toLE, ih]

theorem fromLE_toLE (hfits : value < 256 ^ width) : fromLE (toLE width value) = value := by
  induction width generalizing value with
  | zero =>
    have hzero : value = 0 := by simpa using hfits
    simp [toLE, fromLE, hzero]
  | succ width ih =>
    have hquot : value / 256 < 256 ^ width := by
      exact Nat.div_lt_of_lt_mul (by omega)
    simp only [toLE, fromLE, ih hquot, UInt8.toNat_ofNat']
    omega

end AmebaRtos.Lib
