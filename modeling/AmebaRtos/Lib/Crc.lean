import Mathlib.Logic.Function.Iterate

/-!
# Cyclic redundancy checks

The shift register of a CRC of width `w`, most significant bit first: a bit is added to the top of
the register, which is then multiplied by `x` modulo `x ^ w + g`. Bits can be fed one by one, or
in a block of up to `w` before as many shifts (`crcBits_eq`). A shift is linear, and loses nothing
if the constant term of `g` is one, so messages that differ only within `w` consecutive bits have
different checksums.
-/

namespace AmebaRtos.Lib

open List

section Crc

def crcShift (g c : BitVec w) : BitVec w := if c.msb then (c <<< 1) ^^^ g else c <<< 1

def crcTop (w : Nat) (b : Bool) : BitVec w := if b then BitVec.twoPow w (w - 1) else 0

def crcBit (g c : BitVec w) (b : Bool) : BitVec w := crcShift g (c ^^^ crcTop w b)

def crcBits (g c : BitVec w) (bits : List Bool) : BitVec w := bits.foldl (crcBit g) c

theorem crcBits_append : crcBits g c (bits ++ bits') = crcBits g (crcBits g c bits) bits' :=
  foldl_append

/-! ### Shifts -/

theorem crcShift_xor : crcShift g (a ^^^ b) = crcShift g a ^^^ crcShift g b := by
  unfold crcShift
  rw [BitVec.msb_xor, BitVec.shiftLeft_xor_distrib]
  cases a.msb <;> cases b.msb
  · simp
  · simp [BitVec.xor_assoc]
  · simp only [if_true, Bool.false_eq_true, if_false]
    ac_rfl
  · simp only [Bool.xor_self, Bool.false_eq_true, if_false, if_true]
    have hcancel : (a <<< 1 ^^^ g) ^^^ (b <<< 1 ^^^ g) = (a <<< 1 ^^^ b <<< 1) ^^^ (g ^^^ g) := by
      ac_rfl
    rw [hcancel, BitVec.xor_self, BitVec.xor_zero]

theorem crcShift_eq_zero (hg : g.getLsbD 0 = true) {c : BitVec w} (h : crcShift g c = 0) :
    c = 0 := by
  unfold crcShift at h
  cases hmsb : c.msb with
  | true =>
    -- the constant term of `g` is left in the lowest bit
    rw [hmsb] at h
    have hbit := congrArg (·.getLsbD 0) h
    simp [hg] at hbit
  | false =>
    rw [hmsb] at h
    apply BitVec.eq_of_getLsbD_eq
    intro i hi
    by_cases hlast : i + 1 < w
    · have hbit := congrArg (·.getLsbD (i + 1)) h
      simpa [hlast, BitVec.getLsbD_eq_getElem hi] using hbit
    have htop : i = w - 1 := by omega
    rw [BitVec.msb_eq_getLsbD_last] at hmsb
    rw [htop, hmsb]
    simp

theorem crcShift_injective (hg : g.getLsbD 0 = true) : Function.Injective (crcShift g) := by
  intro a b h
  have hzero : crcShift g (a ^^^ b) = 0 := by
    rw [crcShift_xor, h]
    exact BitVec.xor_self
  exact BitVec.xor_eq_zero_iff.mp (crcShift_eq_zero hg hzero)

theorem crcShift_of_msb (h : c.msb = false) : crcShift g c = c <<< 1 := by
  simp [crcShift, h]

/-! ### Blocks of bits -/

def crcWord (w : Nat) : List Bool → BitVec w
  | [] => 0
  | b :: bits => (crcWord w bits >>> 1) ^^^ crcTop w b

theorem crcTop_getLsbD : (crcTop w b).getLsbD i = (b && decide (i < w) && decide (i = w - 1)) := by
  cases b with
  | false => simp [crcTop]
  | true =>
    simp only [crcTop, if_true, BitVec.getLsbD_twoPow, Bool.true_and, ← Bool.decide_and,
      decide_eq_decide]
    omega

theorem crcWord_low (hi : i < w - bits.length) : (crcWord w bits).getLsbD i = false := by
  induction bits generalizing i with
  | nil => simp [crcWord]
  | cons b bits ih =>
    rw [length_cons] at hi
    have hnext : (crcWord w bits).getLsbD (1 + i) = false := ih (by omega)
    have htop : i ≠ w - 1 := by omega
    simp [crcWord, crcTop_getLsbD, hnext, htop]

theorem crcShift_crcWord (hlen : bits.length < w) :
    crcShift g (crcWord w bits >>> 1) = crcWord w bits := by
  rw [crcShift_of_msb (by simp)]
  apply BitVec.eq_of_getLsbD_eq
  intro i hi
  cases i with
  | zero =>
    rw [crcWord_low (by omega)]
    simp
  | succ i =>
    simp [hi, Nat.add_comm 1 i]

/-- **A block at once.** Feeding up to `w` bits is adding them to the top of the register
    and shifting as many times. -/
theorem crcBits_eq (g c : BitVec w) (hlen : bits.length ≤ w) :
    crcBits g c bits = (crcShift g)^[bits.length] (c ^^^ crcWord w bits) := by
  induction bits generalizing c with
  | nil =>
    exact BitVec.xor_zero.symm
  | cons b bits ih =>
    have hstep : crcBit g c b ^^^ crcWord w bits = crcShift g (c ^^^ crcWord w (b :: bits)) := by
      have hgroup : c ^^^ crcWord w (b :: bits) =
        (c ^^^ crcTop w b) ^^^ (crcWord w bits >>> 1) := by
        rw [crcWord]
        ac_rfl
      rw [hgroup, crcShift_xor, crcShift_crcWord hlen]
      rfl
    rw [length_cons, Function.iterate_succ_apply, ← hstep]
    exact ih (crcBit g c b) (Nat.le_of_succ_le hlen)

theorem crcWord_injective : ∀ {bits bits' : List Bool}, bits.length = bits'.length →
    bits.length ≤ w → crcWord w bits = crcWord w bits' → bits = bits'
  | [], [], _, _, _ => rfl
  | b :: bits, b' :: bits', hlen, hmax, h => by
    rw [length_cons] at hmax
    rw [length_cons, length_cons, Nat.add_right_cancel_iff] at hlen
    have hbits : ∀ i, i < w → (crcWord w (b :: bits)).getLsbD i =
        (crcWord w (b' :: bits')).getLsbD i := fun i _ => by rw [h]
    have hfirst : b = b' := by
      have htop := hbits (w - 1) (by omega)
      simp only [crcWord, BitVec.getLsbD_xor, BitVec.getLsbD_ushiftRight, crcTop_getLsbD] at htop
      rw [BitVec.getLsbD_of_ge _ _ (by omega), BitVec.getLsbD_of_ge _ _ (by omega)] at htop
      simpa [show w - 1 < w by omega] using htop
    subst hfirst
    have hrest : crcWord w bits = crcWord w bits' := by
      apply BitVec.eq_of_getLsbD_eq
      intro i hi
      cases i with
      | zero => rw [crcWord_low (by omega), crcWord_low (by omega)]
      | succ i =>
        have hbit := hbits i (by omega)
        simpa [crcWord, Nat.add_comm 1 i] using hbit
    rw [crcWord_injective hlen (by omega) hrest]

/-! ### Bursts -/

theorem crcBits_block_ne (hg : g.getLsbD 0 = true) (c : BitVec w)
    (hlen : bits.length = bits'.length) (hmax : bits.length ≤ w) (hne : bits ≠ bits') :
    crcBits g c bits ≠ crcBits g c bits' := by
  intro h
  rw [crcBits_eq g c hmax, crcBits_eq g c (hlen ▸ hmax), ← hlen] at h
  have hword := (crcShift_injective hg).iterate bits.length h
  rw [BitVec.xor_right_inj] at hword
  exact hne (crcWord_injective hlen hmax hword)

theorem crcBits_register_ne (hg : g.getLsbD 0 = true) (hne : c ≠ c') :
    crcBits g c bits ≠ crcBits g c' bits := by
  induction bits generalizing c c' with
  | nil => exact hne
  | cons b bits ih =>
    apply ih
    intro h
    have hsame := crcShift_injective hg h
    rw [BitVec.xor_left_inj] at hsame
    exact hne hsame

/-- **Bursts are detected.** Messages of one length that differ, but only within `w`
    consecutive bits, have different checksums. -/
theorem crcBits_burst (hg : g.getLsbD 0 = true) (c : BitVec w) (hlen : bits.length = bits'.length)
    (hne : bits ≠ bits') (hwindow : ∀ i, bits[i]? ≠ bits'[i]? → p ≤ i ∧ i < p + w) :
    crcBits g c bits ≠ crcBits g c bits' := by
  have hfront : bits.take p = bits'.take p := by
    apply ext_getElem?
    intro i
    by_contra hdiff
    rw [List.getElem?_take, List.getElem?_take] at hdiff
    split at hdiff
    · rename_i hi
      exact absurd (hwindow i hdiff).1 (Nat.not_le_of_lt hi)
    · exact hdiff rfl
  have hback : bits.drop (p + w) = bits'.drop (p + w) := by
    apply ext_getElem?
    intro i
    by_contra hdiff
    rw [List.getElem?_drop, List.getElem?_drop] at hdiff
    have := (hwindow _ hdiff).2
    omega
  have hsplit : ∀ l : List Bool,
      l = l.take p ++ ((l.drop p).take w ++ l.drop (p + w)) := by
    intro l
    rw [← drop_drop, take_append_drop, take_append_drop]
  have hmiddle : (bits.drop p).take w ≠ (bits'.drop p).take w := by
    intro hsame
    apply hne
    rw [hsplit bits, hsplit bits', hfront, hsame, hback]
  rw [hsplit bits, hsplit bits', crcBits_append, crcBits_append, crcBits_append, crcBits_append,
    hfront, hback]
  apply crcBits_register_ne hg
  apply crcBits_block_ne hg _ _ _ hmiddle
  · rw [length_take, length_take, length_drop, length_drop, hlen]
  · rw [length_take]
    exact Nat.min_le_left _ _

end Crc

end AmebaRtos.Lib
