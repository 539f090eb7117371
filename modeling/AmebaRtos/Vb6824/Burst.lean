import AmebaRtos.Lib.Crc
import AmebaRtos.Vb6824.Framing

/-!
# Corrupted packets

The checksum of a packet is the CRC of width 16 with `0x1021`, fed with each byte from its
most significant bit on. A packet whose data has been changed within 16 consecutive bits, or
whose checksum has been changed in any way, is not reported.
-/

namespace AmebaRtos.Vb6824

open Lib List

/-! ### The checksum as a shift register -/

def POLY : BitVec 16 := 0x1021#16

variable (bytes : List UInt8) (crc : UInt16) (byte : UInt8)

def byteBits : List Bool := (List.range 8).map byte.toBitVec.getMsbD

def bitsOf : List Bool := bytes.flatMap byteBits

theorem length_byteBits : (byteBits byte).length = 8 := by simp [byteBits]

theorem byteBits_injective (h : byteBits a = byteBits b) : a = b := by
  apply UInt8.toBitVec_inj.mp
  apply BitVec.eq_of_getMsbD_eq
  intro i hi
  have hbit := congrArg (·[i]?) h
  simpa [byteBits, hi] using hbit

theorem length_bitsOf : (bitsOf bytes).length = 8 * bytes.length := by
  induction bytes with
  | nil => rfl
  | cons byte rest ih =>
    have hcons : bitsOf (byte :: rest) = byteBits byte ++ bitsOf rest := rfl
    rw [hcons, length_append, length_byteBits, length_cons]
    omega

theorem bitsOf_injective : ∀ {a b : List UInt8}, a.length = b.length → bitsOf a = bitsOf b → a = b
  | [], [], _, _ => rfl
  | x :: a, y :: b, hlen, h => by
    have hparts : byteBits x ++ bitsOf a = byteBits y ++ bitsOf b := h
    obtain ⟨hfirst, hrest⟩ := append_inj hparts (by rw [length_byteBits, length_byteBits])
    rw [length_cons, length_cons, Nat.add_right_cancel_iff] at hlen
    rw [byteBits_injective hfirst, bitsOf_injective hlen hrest]

theorem crcWord_byteBits : crcWord 16 (byteBits byte) = (byte.toUInt16 <<< 8).toBitVec := by
  have hall : ∀ b : BitVec 8, crcWord 16 ((List.range 8).map b.getMsbD) = b.setWidth 16 <<< 8 := by
    decide +kernel
  exact hall byte.toBitVec

theorem msb_iff : crc &&& 0x8000 ≠ 0 ↔ crc.toBitVec.msb = true := by
  have hmask : (crc &&& 0x8000).toBitVec =
      if crc.toBitVec.getLsbD 15 then BitVec.twoPow 16 15 else 0 :=
    BitVec.and_twoPow crc.toBitVec 15
  rw [BitVec.msb_eq_getLsbD_last, Ne, ← UInt16.toBitVec_inj, hmask]
  cases crc.toBitVec.getLsbD 15 <;> decide

theorem crcRound_toBitVec :
    (if crc &&& 0x8000 ≠ 0 then (crc <<< 1) ^^^ 0x1021 else crc <<< 1).toBitVec =
      crcShift POLY crc.toBitVec := by
  unfold crcShift
  by_cases hmsb : crc.toBitVec.msb = true
  · rw [if_pos ((msb_iff crc).mpr hmsb), if_pos hmsb]
    rfl
  · rw [if_neg (fun h => hmsb ((msb_iff crc).mp h)), if_neg hmsb]
    rfl

theorem crcByte_toBitVec :
    (crcByte crc byte).toBitVec = crcBits POLY crc.toBitVec (byteBits byte) := by
  have hrounds : ∀ (rounds : List Nat) (crc : UInt16),
      (rounds.foldl (fun (crc : UInt16) _ => if crc &&& 0x8000 ≠ 0 then (crc <<< 1) ^^^ 0x1021
        else crc <<< 1) crc).toBitVec = (crcShift POLY)^[rounds.length] crc.toBitVec := by
    intro rounds
    induction rounds with
    | nil => exact fun _ => rfl
    | cons _ rest ih =>
      intro crc
      rw [foldl_cons, ih, crcRound_toBitVec, length_cons, Function.iterate_succ_apply]
  rw [crcBits_eq POLY crc.toBitVec (by rw [length_byteBits]; decide), crcWord_byteBits]
  exact hrounds (List.range 8) (crc ^^^ byte.toUInt16 <<< 8)

theorem foldl_crcByte_toBitVec :
    (bytes.foldl crcByte crc).toBitVec = crcBits POLY crc.toBitVec (bitsOf bytes) := by
  induction bytes generalizing crc with
  | nil => rfl
  | cons byte rest ih =>
    rw [foldl_cons, ih, crcByte_toBitVec]
    exact crcBits_append.symm

/-! ### Corruption -/

/-- What a packet has become: its data within 16 consecutive bits of it, or its checksum, has
    been changed. -/
def Corrupted (data data' : List UInt8) (target : UInt16) : Prop :=
  (target = crc16Ccitt (jlBody data) ∧ data' ≠ data ∧
    ∃ p, ∀ i, (bitsOf data)[i]? ≠ (bitsOf data')[i]? → p ≤ i ∧ i < p + 16) ∨
  (data' = data ∧ target ≠ crc16Ccitt (jlBody data))

theorem crc_of_corrupted (hlen : data'.length = data.length) (h : Corrupted data data' target) :
    target ≠ crc16Ccitt (jlBody data') := by
  rcases h with ⟨rfl, hne, p, hwindow⟩ | ⟨rfl, hne⟩
  · intro hsame
    have hbits : bitsOf data ≠ bitsOf data' := fun heq => hne (bitsOf_injective hlen heq.symm)
    have hlength : (bitsOf data).length = (bitsOf data').length := by
      rw [length_bitsOf, length_bitsOf, hlen]
    -- behind the header, which is the same
    have hhead : ∀ d : List UInt8, crc16Ccitt (jlBody d) = d.foldl crcByte
        (crc16Ccitt [0xAA, 0x55, UInt8.ofNat d.length, UInt8.ofNat (d.length / 256)]) := by
      intro d
      rw [crc16Ccitt, jlBody, foldl_append]
      rfl
    rw [hhead, hhead, hlen, ← UInt16.toBitVec_inj, foldl_crcByte_toBitVec,
      foldl_crcByte_toBitVec] at hsame
    exact crcBits_burst (by decide) _ hlength hbits hwindow hsame
  · exact hne

/-- **A corrupted packet is not reported**, for length fields of up to 16 and changes within 16
    consecutive bits of the data, or of the checksum. -/
theorem corrupted_not_reported {u : Uart} (h : u.JlReady) {data data' : List UInt8}
    {target : UInt16} (hmax : data.length ≤ JL_DATA_MAX)
    (hlen : data'.length = data.length) (hcorrupted : Corrupted data data' target) :
    (feed true u (jlBody data' ++ [target.toUInt8, (target >>> 8).toUInt8])).2 = [] := by
  obtain ⟨u', hbody, hstatus, hsum, _⟩ := feed_jlBody h (hlen ▸ hmax)
  have hne := crc_of_corrupted hlen hcorrupted
  rw [feed_append, hbody, jl_checksum hstatus, u16_join, hsum, if_neg hne]
  rfl

/-- The opcode and two bytes, with bits changed in both of them. -/
theorem corrupted_not_reported_three :
    (feed true .init (jlBody [0x02, 0x35, 0xC0] ++
      [(crc16Ccitt (jlBody [0x02, 0x34, 0x40])).toUInt8,
      (crc16Ccitt (jlBody [0x02, 0x34, 0x40]) >>> 8).toUInt8])).2 = [] := by
  have hready : Uart.init.JlReady := ⟨rfl, rfl⟩
  have hinside : ∀ i < 24, (bitsOf [0x02, 0x34, 0x40])[i]? ≠ (bitsOf [0x02, 0x35, 0xC0])[i]? →
      15 ≤ i ∧ i < 15 + 16 := by
    decide
  have hcorrupted : Corrupted [0x02, 0x34, 0x40] [0x02, 0x35, 0xC0]
      (crc16Ccitt (jlBody [0x02, 0x34, 0x40])) := by
    refine .inl ⟨rfl, by decide, 15, fun i hi => ?_⟩
    rcases Nat.lt_or_ge i 24 with hlt | hge
    · exact hinside i hlt hi
    · rw [List.getElem?_eq_none (by rw [length_bitsOf]; exact hge),
        List.getElem?_eq_none (by rw [length_bitsOf]; exact hge)] at hi
      exact absurd rfl hi
  have hlen : ([0x02, 0x35, 0xC0] : List UInt8).length = ([0x02, 0x34, 0x40] : List UInt8).length :=
    rfl
  exact corrupted_not_reported hready (by decide) hlen hcorrupted

end AmebaRtos.Vb6824
