import AmebaRtos.IpNat.Table
import AmebaRtos.Lib.OnesComplement

/-!
# Checksums of a rewritten packet

When an address is replaced, the words of the old address are taken out of the ones' complement
sum and those of the new one are added. The functions for the IP header, TCP and UDP do the same.
In a UDP header a checksum of 0 means that there is none; the function does not know that.
-/

namespace AmebaRtos.IpNat

open Lib

def ntohs (x : UInt16) : UInt16 := x <<< 8 ||| x >>> 8

/-- An address as the two words that its bytes are in the packet. -/
def addrWords (addr : UInt32) : List UInt16 := [ntohs addr.toUInt16, ntohs (addr >>> 16).toUInt16]

/-- `x -= old & 0xffff; if (x <= 0) { x--; x &= 0xffff; }`. -/
def takeOut (x : Int) (old : UInt16) : Int :=
  if x - old.toNat ≤ 0 then (x - old.toNat - 1) % 2 ^ 16 else x - old.toNat

/-- `x += new & 0xffff; if (x & 0x10000) { x++; x &= 0xffff; }`. -/
def putIn (x : Int) (new : UInt16) : Int :=
  if x + new.toNat ≥ 2 ^ 16 then (x + new.toNat + 1) % 2 ^ 16 else x + new.toNat

variable (chksum : UInt16) (field newval : UInt32)

/-- The update of a checksum, which is the number that its bytes are in the packet. -/
def updateChksum : UInt16 :=
  let x := (addrWords field).foldl takeOut (0xFFFF - chksum.toNat)
  let x := (addrWords newval).foldl putIn x
  UInt16.ofNat (0xFFFF - x).toNat

def ipNatManipulateAddressTcp : UInt16 :=
  updateChksum chksum field newval

def ipNatManipulateAddressUdp : UInt16 :=
  updateChksum chksum field newval

/-- `ip_nat_manipulate_address`, which also writes the address. -/
def ipNatManipulateAddress : UInt16 × UInt32 :=
  (updateChksum chksum field newval, newval)

/-- What a checksum is over: an address and other words, one of which is not 0 (the version in an IP
    header, the protocol in a pseudo header). -/
structure Summed where
  chksum : UInt16
  addr : UInt32
  others : List UInt16
  nonzero : wordSum others ≠ 0

def Summed.Valid (h : Summed) : Prop :=
  onesSum (h.chksum :: (addrWords h.addr ++ h.others)) = 0xFFFF

def Summed.set (h : Summed) (chksum : UInt16) (addr : UInt32) : Summed :=
  { h with chksum := chksum, addr := addr }

theorem takeOut_spec {x : Int} (hx : 0 ≤ x ∧ x < 2 ^ 16) (old : UInt16) :
    (0 ≤ takeOut x old ∧ takeOut x old < 2 ^ 16) ∧ takeOut x old % 65535 = (x - old.toNat) % 65535 ∧
      (takeOut x old = 0 ↔ x = 0 ∧ old.toNat = 65535) := by
  have := old.toNat_lt
  unfold takeOut
  split_ifs <;> omega

theorem putIn_spec (hx : 0 ≤ x ∧ x < 2 ^ 16) :
    (0 ≤ putIn x new ∧ putIn x new < 2 ^ 16) ∧ putIn x new % 65535 = (x + new.toNat) % 65535 ∧
      (putIn x new = 0 ↔ x = 0 ∧ new.toNat = 0) := by
  have := new.toNat_lt
  unfold putIn
  split_ifs <;> omega

theorem updateChksum_spec :
    ((updateChksum chksum field newval).toNat + wordSum (addrWords newval)) % 65535 =
        (chksum.toNat + wordSum (addrWords field)) % 65535 ∧
      ((updateChksum chksum field newval).toNat = 65535 ↔ chksum.toNat = 65535 ∧
        wordSum (addrWords field) = 131070 ∧ wordSum (addrWords newval) = 0) := by
  unfold updateChksum addrWords
  generalize ntohs field.toUInt16 = a
  generalize ntohs (field >>> 16).toUInt16 = b
  generalize ntohs newval.toUInt16 = c
  generalize ntohs (newval >>> 16).toUInt16 = d
  have hsum := chksum.toNat_lt
  obtain ⟨ha, ha', ha0⟩ := @takeOut_spec (0xFFFF - chksum.toNat) (by omega) a
  obtain ⟨hb, hb', hb0⟩ := takeOut_spec ha b
  obtain ⟨hc, hc', hc0⟩ := putIn_spec hb
  obtain ⟨hd, hd', hd0⟩ := putIn_spec hc
  simp only [List.foldl_cons, List.foldl_nil, wordSum_cons]
  generalize putIn (putIn (takeOut (takeOut _ a) b) c) d = x at hd hd' hd0 ⊢
  have hx : (0xFFFF - x).toNat < UInt16.size := by
    unfold UInt16.size
    omega
  have hwords := And.intro (And.intro a.toNat_lt b.toNat_lt) (And.intro c.toNat_lt d.toNat_lt)
  have hnil : wordSum [] = 0 := rfl
  rw [UInt16.toNat_ofNat_of_lt' hx]
  constructor
  · clear ha0 hb0 hc0 hd0
    omega
  · clear ha' hb' hc' hd'
    omega

section Updated

variable (h : Summed) (newval : UInt32)

theorem valid_updated (hvalid : h.Valid) :
    (h.set (updateChksum h.chksum h.addr newval) newval).Valid := by
  unfold Summed.Valid Summed.set at *
  rw [onesSum_eq_ones_iff, wordSum_cons, wordSum_append] at *
  have hsum := (updateChksum_spec h.chksum h.addr newval).1
  have := h.nonzero
  dsimp only
  omega

/-- No checksum stays none, and a checksum stays valid and is not mistaken for none. -/
structure UdpKept : Prop where
  absent : h.chksum = 0 → ipNatManipulateAddressUdp h.chksum h.addr newval = 0
  present : h.chksum ≠ 0 → h.Valid →
    (h.set (ipNatManipulateAddressUdp h.chksum h.addr newval) newval).Valid ∧
      ipNatManipulateAddressUdp h.chksum h.addr newval ≠ 0

/-- The old data with its checksum has the sum of the new address, except for 255.255.255.255
    replaced by 0.0.0.0 with a checksum that stays all ones. -/
def SumsToZero (field newval : UInt32) : Prop :=
  (chksum.toNat + wordSum (addrWords field)) % 65535 = wordSum (addrWords newval) % 65535 ∧
    ¬ (chksum.toNat = 65535 ∧ wordSum (addrWords field) = 131070 ∧ wordSum (addrWords newval) = 0)

theorem updateChksum_eq_zero_iff (field newval : UInt32) :
    updateChksum chksum field newval = 0 ↔ SumsToZero chksum field newval := by
  have hspec := updateChksum_spec chksum field newval
  have hlt := (updateChksum chksum field newval).toNat_lt
  rw [← UInt16.toNat_inj, SumsToZero]
  change (updateChksum chksum field newval).toNat = 0 ↔ _
  omega

/-- **Checksums after an address is replaced.** Those of IP and TCP stay valid. One of UDP does
    exactly if a 0 meets addresses with the same sum, and a valid one does not come out as 0. -/
theorem checksums_updated_iff : (h.Valid → (h.set (ipNatManipulateAddress h.chksum h.addr newval).1
        (ipNatManipulateAddress h.chksum h.addr newval).2).Valid) ∧
    (h.Valid → (h.set (ipNatManipulateAddressTcp h.chksum h.addr newval) newval).Valid) ∧
    (UdpKept h newval ↔
      (h.chksum = 0 → wordSum (addrWords h.addr) % 65535 = wordSum (addrWords newval) % 65535) ∧
      (h.chksum ≠ 0 → h.Valid → ¬ SumsToZero h.chksum h.addr newval)) := by
  refine ⟨valid_updated h newval, valid_updated h newval, ?_⟩
  have hzero := updateChksum_eq_zero_iff h.chksum h.addr newval
  constructor
  · intro hkept
    refine ⟨fun hnone => ?_, fun hsome hvalid => ?_⟩
    · have := (hzero.mp (hkept.absent hnone)).1
      rwa [hnone, UInt16.toNat_zero, Nat.zero_add] at this
    · exact fun hsums => (hkept.present hsome hvalid).2 (hzero.mpr hsums)
  · intro hcond
    refine ⟨fun hnone => hzero.mpr ?_, fun hsome hvalid => ⟨valid_updated h newval hvalid, ?_⟩⟩
    · refine ⟨?_, ?_⟩
      · rw [hnone, UInt16.toNat_zero, Nat.zero_add]
        exact hcond.1 hnone
      · rw [hnone]
        exact fun h => absurd h.1 (by decide)
    · exact fun hudp => hcond.2 hsome hvalid (hzero.mp hudp)

end Updated

/-- 192.168.43.100 is replaced by 192.168.1.1: no checksum becomes one; and a valid checksum becomes
    0. -/
theorem udp_zero_mistaken : ipNatManipulateAddressUdp 0 0x642BA8C0 0x0101A8C0 ≠ 0 ∧
    (Summed.mk 0xD59C 0x642BA8C0 [0x3E56] (by decide)).Valid ∧
    ipNatManipulateAddressUdp 0xD59C 0x642BA8C0 0x0101A8C0 = 0 := by
  unfold Summed.Valid
  decide +kernel

end AmebaRtos.IpNat
