import Mathlib.Tactic.Common

/-!
# An OTA image read through the host

`whc_dev_ota_read` asks the host for at most 1024 bytes and waits. Each `WHC_OTA_WRITE` message
handled while `whc_cmdpath_data.ret` is its buffer is copied with the length the message states.
-/

namespace AmebaRtos.Whc

/-- `struct whc_dev_ota_readbuf`: the `len` of its header, and how much of `buf` is written. -/
structure OtaReadbuf where
  len : UInt16
  written : Nat

/-- A length as the code reads it, through an `int16_t`. -/
def payloadLen (len : UInt16) : Int := len.toInt16.toInt

def whcDevApiOtaWrite (readbuf : OtaReadbuf) (len : UInt16) : OtaReadbuf :=
  ⟨len, if payloadLen len > 0 then max readbuf.written (payloadLen len).toNat
    else readbuf.written⟩

/-- `msgs` are the lengths of the `WHC_OTA_WRITE` messages handled until the wait for the semaphore
    ends; `taken` is whether the mutex is got in time. -/
def whcDevApiSendToHostBlock (ret : OtaReadbuf) (retLen : UInt16) (taken : Bool)
    (msgs : List UInt16) : OtaReadbuf :=
  if retLen > 0 ∧ taken then msgs.foldl whcDevApiOtaWrite ret else ret

/-- What is returned, and how much of `data` is written. The header of `rbuf` is not initialised:
    `stale` is what is found there. -/
def whcDevOtaRead (dataLen : Nat) (stale : UInt16) (taken : Bool) (msgs : List UInt16) :
    Int × Nat :=
  let len := if dataLen > 1024 then 1024 else dataLen.toUInt16
  let rbuf := whcDevApiSendToHostBlock ⟨stale, 0⟩ len taken msgs
  (payloadLen rbuf.len, rbuf.written)

theorem written_otaWrite_le {b : Nat} :
    (whcDevApiOtaWrite readbuf len).written ≤ b ↔ readbuf.written ≤ b ∧ payloadLen len ≤ b := by
  simp only [whcDevApiOtaWrite]
  split
  · rw [Nat.max_le, Int.toNat_le]
  · exact (and_iff_left (by omega)).symm

theorem foldl_otaWrite_le {b : Nat} :
    payloadLen (msgs.foldl whcDevApiOtaWrite r).len ≤ b ∧
        (msgs.foldl whcDevApiOtaWrite r).written ≤ b ↔
      r.written ≤ b ∧ (msgs = [] → payloadLen r.len ≤ b) ∧ ∀ len ∈ msgs, payloadLen len ≤ b := by
  induction msgs generalizing r with
  | nil => simp [and_comm]
  | cons len msgs ih =>
    simp only [List.foldl_cons, ih, written_otaWrite_le, List.forall_mem_cons]
    constructor
    · rintro ⟨⟨hr, hlen⟩, -, hmsgs⟩
      exact ⟨hr, by simp, hlen, hmsgs⟩
    · rintro ⟨hr, -, hlen, hmsgs⟩
      exact ⟨⟨hr, hlen⟩, fun _ => hlen, hmsgs⟩

/-- What a read may write and return. -/
def asked (dataLen : Nat) : Nat := min dataLen 1024

/-- **A read keeps to what it asked for** exactly if the messages that it takes do, or without any,
    the length found in its header. -/
theorem ota_read_bounded_iff (dataLen : Nat) (stale : UInt16) (taken : Bool) (msgs : List UInt16) :
    (whcDevOtaRead dataLen stale taken msgs).1 ≤ asked dataLen ∧
        (whcDevOtaRead dataLen stale taken msgs).2 ≤ asked dataLen ↔
      ∀ len ∈ if dataLen = 0 ∨ taken = false ∨ msgs = [] then [stale] else msgs,
        payloadLen len ≤ asked dataLen := by
  have hask : (if dataLen > 1024 then 1024 else dataLen.toUInt16) > 0 ↔ dataLen ≠ 0 := by
    split
    · exact ⟨fun _ => by omega, fun _ => by decide⟩
    · rw [gt_iff_lt, UInt16.lt_iff_toNat_lt]
      simp
      omega
  simp only [whcDevOtaRead, whcDevApiSendToHostBlock, hask]
  split
  · rename_i hwait
    rw [foldl_otaWrite_le]
    by_cases hmsgs : msgs = [] <;> simp [hmsgs, hwait]
  · rename_i hwait
    have : dataLen = 0 ∨ taken = false ∨ msgs = [] := by grind
    simp [this]

/-- A host that answers a request for 4 bytes with 5. -/
theorem ota_read_overrun : whcDevOtaRead 4 0 true [5] = (5, 5) ∧ asked 4 < 5 := by decide

end AmebaRtos.Whc
