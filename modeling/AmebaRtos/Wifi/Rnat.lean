import Mathlib.Tactic.Common

/-!
# Station and access point on different subnets

`rnat_avoid_confliction_ip` compares the addresses of both interfaces, and flips a bit of the
access point's if they are of one subnet. Addresses and masks are in network order, as a
little-endian core loads them.
-/

namespace AmebaRtos.Wifi

def htonl (x : BitVec 32) : BitVec 32 :=
  x.extractLsb' 0 8 ++ x.extractLsb' 8 8 ++ x.extractLsb' 16 8 ++ x.extractLsb' 24 8

/-- The `for` loop, over the values of `i` that are left. -/
def searchBitmask (maskVal : BitVec 32) : List Nat → (bitmask : BitVec 32) → BitVec 32
  | [], bitmask => bitmask
  | i :: is, _ =>
    let bitmask := htonl (1 <<< i)
    if maskVal &&& bitmask ≠ 0 then bitmask else searchBitmask maskVal is bitmask

def flipBit (wlan1Ip bitmask : BitVec 32) : BitVec 32 :=
  if wlan1Ip &&& bitmask = 0 then wlan1Ip ||| bitmask else wlan1Ip &&& ~~~bitmask

/-- The address the access point is started again with, if it is. -/
def rnatAvoidConflictionIp (wlan0Ip wlan0Mask wlan1Ip wlan1Mask : BitVec 32) :
    Option (BitVec 32) :=
  let maskVal := if wlan1Mask > wlan0Mask then wlan0Mask else wlan1Mask
  if wlan0Ip &&& maskVal = wlan1Ip &&& maskVal then
    some (flipBit wlan1Ip (searchBitmask maskVal (List.range 31) 0))
  else none

/-- The mask of `len` leading ones. -/
def netmask (len : Nat) : BitVec 32 := htonl (BitVec.allOnes 32 <<< (32 - len))

/-- Subnets overlap if their addresses agree under the shorter mask. -/
def Overlap (ip0 : BitVec 32) (len0 : Nat) (ip1 : BitVec 32) (len1 : Nat) : Prop :=
  ip0 &&& netmask (min len0 len1) = ip1 &&& netmask (min len0 len1)

theorem netmask_lt_iff : ∀ a < 32, ∀ b < 32, netmask a < netmask b ↔ a < b := by decide +kernel

/-- The bit found is one of the mask, except for the mask whose only bit is not looked at. -/
theorem searchBitmask_netmask : ∀ len < 32, 1 ≤ len →
    netmask len &&& searchBitmask (netmask len) (List.range 31) 0 =
        (if len = 1 then 0 else searchBitmask (netmask len) (List.range 31) 0) ∧
      searchBitmask (netmask len) (List.range 31) 0 ≠ 0 := by
  decide +kernel

theorem flipBit_and_ne (hmask : mask &&& bit = bit) (hbit : bit ≠ 0) :
    flipBit ip bit &&& mask ≠ ip &&& mask := by
  intro h
  have hand : flipBit ip bit &&& bit = ip &&& bit := by
    calc flipBit ip bit &&& bit = flipBit ip bit &&& mask &&& bit := by
          rw [BitVec.and_assoc, hmask]
      _ = ip &&& bit := by rw [h, BitVec.and_assoc, hmask]
  rw [flipBit] at hand
  split at hand
  · rename_i hclear
    rw [hclear] at hand
    exact hbit (by rw [← hand]; ext i; simp; tauto)
  · rename_i hset
    exact hset (by rw [← hand]; ext i; simp)

theorem flipBit_and_eq {mask bit : BitVec 32} (hmask : mask &&& bit = 0) :
    flipBit ip bit &&& mask = ip &&& mask := by
  have hbits : ∀ i, (mask.getLsbD i && bit.getLsbD i) = false := by
    intro i
    rw [← BitVec.getLsbD_and, hmask]
    exact BitVec.getLsbD_zero
  rw [flipBit]
  split
  · ext i
    have := hbits i
    simp
    grind
  · ext i
    have := hbits i
    simp
    grind

/-- What the function is for: the address is changed if the subnets overlap, and then they do not
    any more. -/
def Avoids (ip0 : BitVec 32) (len0 : Nat) (ip1 : BitVec 32) (len1 : Nat) : Prop :=
  rnatAvoidConflictionIp ip0 (netmask len0) ip1 (netmask len1) = none ∧
      ¬ Overlap ip0 len0 ip1 len1 ∨
    ∃ ip, rnatAvoidConflictionIp ip0 (netmask len0) ip1 (netmask len1) = some ip ∧
      Overlap ip0 len0 ip1 len1 ∧ ¬ Overlap ip0 len0 ip len1

/-- **The access point leaves the station's subnet** exactly if the shorter mask of two that
    overlap is not of length 1. -/
theorem rnat_avoids_iff (ip0 ip1 : BitVec 32) (len0 len1 : Nat) (h0 : 1 ≤ len0 ∧ len0 ≤ 31)
    (h1 : 1 ≤ len1 ∧ len1 ≤ 31) :
    Avoids ip0 len0 ip1 len1 ↔ (Overlap ip0 len0 ip1 len1 → min len0 len1 ≠ 1) := by
  have hval : (if netmask len1 > netmask len0 then netmask len0 else netmask len1) =
      netmask (min len0 len1) := by
    have hlt := netmask_lt_iff len0 (by omega) len1 (by omega)
    split <;> rename_i h
    · rw [Nat.min_eq_left (Nat.le_of_lt (hlt.mp h))]
    · rw [Nat.min_eq_right (Nat.le_of_not_lt (h ∘ hlt.mpr))]
  obtain ⟨hand, hbit⟩ := searchBitmask_netmask (min len0 len1) (by omega) (by omega)
  simp only [Avoids, rnatAvoidConflictionIp, hval, Overlap]
  by_cases hover : ip0 &&& netmask (min len0 len1) = ip1 &&& netmask (min len0 len1)
  · rw [if_pos hover]
    split at hand <;> rename_i hlen
    · refine iff_of_false ?_ fun h => h hover hlen
      rintro (⟨h, -⟩ | ⟨ip, h, -, hnot⟩)
      · cases h
      · cases h
        exact hnot (hover.trans (flipBit_and_eq hand).symm)
    · refine iff_of_true (.inr ⟨_, rfl, hover, fun h => ?_⟩) fun _ => hlen
      exact flipBit_and_ne hand hbit (h.symm.trans hover)
  · rw [if_neg hover]
    exact iff_of_true (.inl ⟨rfl, hover⟩) fun h => absurd h hover

theorem rnat_avoids_one_subnet : Avoids 0x0101A8C0 24 0x0201A8C0 16 :=
  (rnat_avoids_iff _ _ 24 16 (by decide) (by decide)).mpr fun _ => by decide

/-- The only bit of the mask is not reached, and a bit that is not of it is flipped. -/
theorem rnat_keeps_conflict :
    rnatAvoidConflictionIp 0x0101A8C0 (netmask 1) 0x0201A8C0 (netmask 1) = some 0x0201A880 ∧
      Overlap 0x0101A8C0 1 0x0201A8C0 1 ∧ Overlap 0x0101A8C0 1 0x0201A880 1 := by
  unfold Overlap
  decide

end AmebaRtos.Wifi
