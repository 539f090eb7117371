import Mathlib.Data.List.Infix

/-!
# The end of an HTTP header

`httpc_response_read_header`, `httpd_request_read_header` and `ws_server_handshake_read_header`
read a header byte by byte, with the same automaton and buffers of different sizes. A byte that
does not continue the end of a header is never taken as its start.
-/

namespace AmebaRtos.Network

open List

def HEADER_END : List UInt8 := [13, 10, 13, 10]

/-- `header_end_steps` behind the next byte. -/
def headerEndSteps (steps : Nat) (dataByte : UInt8) : Nat :=
  if dataByte = 13 ∧ steps = 0 then 1
  else if dataByte = 10 ∧ steps = 1 then 2
  else if dataByte = 13 ∧ steps = 2 then 3
  else if dataByte = 10 ∧ steps = 3 then 4
  else 0

structure HeaderRead where
  header : List UInt8
  existed : Bool
  rest : List UInt8
deriving DecidableEq

/-- The loop over what can be read. A byte that is read when the buffer is full is lost. -/
def readHeader (tmpBufSize steps : Nat) (header : List UInt8) : List UInt8 → HeaderRead
  | [] => ⟨header, false, []⟩
  | dataByte :: stream =>
    if header.length < tmpBufSize then
      if headerEndSteps steps dataByte = 4 then ⟨header ++ [dataByte], true, stream⟩
      else readHeader tmpBufSize (headerEndSteps steps dataByte) (header ++ [dataByte]) stream
    else ⟨header, false, stream⟩

/-- `httpc_response_read_header` and `httpd_request_read_header`, which allocate one byte more for
    the terminating zero. -/
def httpcResponseReadHeader : List UInt8 → HeaderRead := readHeader 2048 0 []

def httpdRequestReadHeader : List UInt8 → HeaderRead := readHeader 1024 0 []

/-- `ws_server_handshake_read_header`. The zero behind a header of 1024 bytes is written behind the
    buffer. -/
def wsServerHandshakeReadHeader : List UInt8 → HeaderRead := readHeader 1024 0 []

/-- The number of carriage returns at the end. -/
def returns (bytes : List UInt8) : Nat := (bytes.reverse.takeWhile (· = 13)).length

theorem returns_snoc (bytes : List UInt8) (b : UInt8) :
    returns (bytes ++ [b]) = if b = 13 then returns bytes + 1 else 0 := by
  rw [returns, reverse_append]
  by_cases hb : b = 13 <;> simp [hb, returns]

/-- What `header_end_steps` says of the bytes that were read. -/
def StepsAt (bytes : List UInt8) (steps : Nat) : Prop :=
  steps < 4 ∧ steps % 2 = returns bytes % 2 ∧ HEADER_END.take steps <:+ bytes

theorem StepsAt.next (h : StepsAt bytes steps) (hend : ¬ HEADER_END <:+ bytes ++ [b]) :
    StepsAt (bytes ++ [b]) (headerEndSteps steps b) := by
  obtain ⟨hlt, hparity, front, rfl⟩ := h
  have hnew := returns_snoc (front ++ HEADER_END.take steps) b
  obtain ⟨hback, hnext⟩ | ⟨hmore, hb⟩ : headerEndSteps steps b = 0 ∧ (b = 13 → steps % 2 = 1) ∨
      headerEndSteps steps b = steps + 1 ∧ b = if steps % 2 = 0 then 13 else 10 := by
    unfold headerEndSteps
    grind
  · rw [hback]
    refine ⟨by decide, ?_, nil_suffix⟩
    grind
  · have hbytes : ∀ n < 4, HEADER_END.take n ++ [if n % 2 = 0 then 13 else 10] =
        HEADER_END.take (n + 1) := by decide
    have htake : front ++ HEADER_END.take steps ++ [b] = front ++ HEADER_END.take (steps + 1) := by
      rw [append_assoc, hb, hbytes steps hlt]
    rw [hmore]
    refine ⟨?_, ?_, front, htake.symm⟩
    · have : steps ≠ 3 := by
        rintro rfl
        exact hend ⟨front, htake.symm⟩
      omega
    · grind

theorem readHeader_append (stream : List UInt8) (hsteps : StepsAt header steps)
    (hend : ¬ HEADER_END <:+: header ++ bytes) (hroom : (header ++ bytes).length ≤ size) :
    ∃ steps', StepsAt (header ++ bytes) steps' ∧
      readHeader size steps header (bytes ++ stream) =
        readHeader size steps' (header ++ bytes) stream := by
  induction bytes generalizing header steps with
  | nil => exact ⟨steps, by simpa using hsteps, by simp⟩
  | cons b bytes ih =>
    rw [append_cons] at hend hroom ⊢
    have hnext := hsteps.next (b := b) fun h => hend (h.isInfix.trans (prefix_append _ _).isInfix)
    obtain ⟨steps', hat, heq⟩ := ih hnext hend hroom
    refine ⟨steps', hat, ?_⟩
    have hfree : header.length < size := by simp at hroom; omega
    have hgo : headerEndSteps steps b ≠ 4 := Nat.ne_of_lt hnext.1
    rw [cons_append, readHeader, if_pos hfree, if_neg hgo, heq]

theorem readHeader_bounds (steps : Nat) (stream : List UInt8) (h : header.length ≤ size) :
    (readHeader size steps header stream).header.length ≤ size ∧
      ((readHeader size steps header stream).existed →
        header.length < (readHeader size steps header stream).header.length) := by
  induction stream generalizing header steps with
  | nil => exact ⟨h, Bool.noConfusion⟩
  | cons b stream ih =>
    rw [readHeader]
    split <;> rename_i hfree
    · have hsnoc : (header ++ [b]).length = header.length + 1 := length_append
      split
      · exact ⟨hsnoc.trans_le hfree, fun _ => hsnoc ▸ Nat.lt_succ_self _⟩
      · obtain ⟨hle, hlt⟩ := ih _ (hsnoc.trans_le hfree)
        exact ⟨hle, fun hexisted => Nat.lt_trans (hsnoc ▸ Nat.lt_succ_self _) (hlt hexisted)⟩
    · exact ⟨h, Bool.noConfusion⟩

/-- **A header is read to its first empty line** exactly if it fits the buffer, and an even number
    of carriage returns is in front. -/
theorem header_end_found_iff (tmpBufSize : Nat) (pre body : List UInt8)
    (hfirst : ¬ HEADER_END <:+: pre ++ [13, 10, 13]) :
    readHeader tmpBufSize 0 [] (pre ++ HEADER_END ++ body) = ⟨pre ++ HEADER_END, true, body⟩ ↔
      pre.length + 4 ≤ tmpBufSize ∧ returns pre % 2 = 0 := by
  by_cases hroom : pre.length + 4 ≤ tmpBufSize
  · have hstart : StepsAt [] 0 := ⟨by decide, rfl, nil_suffix⟩
    have hfits : ([] ++ pre).length ≤ tmpBufSize := Nat.le_of_add_right_le hroom
    obtain ⟨steps, hat, heq⟩ := readHeader_append (HEADER_END ++ body) hstart
      (fun h => hfirst (h.trans (prefix_append _ _).isInfix)) hfits
    rw [append_assoc, heq, nil_append]
    rw [nil_append] at hat
    -- a return behind an odd number of them takes the automaton back to its start
    have hmissed (hodd : steps = 1 ∨ steps = 3) :
        readHeader tmpBufSize steps pre (HEADER_END ++ body) ≠ ⟨pre ++ HEADER_END, true, body⟩ := by
      intro h
      have hfits : (pre ++ HEADER_END).length ≤ tmpBufSize := length_append.trans_le hroom
      have hlt := (readHeader_bounds 2 body hfits).2
      have hgo : readHeader tmpBufSize steps pre (HEADER_END ++ body) =
          readHeader tmpBufSize 2 (pre ++ HEADER_END) body := by
        rcases hodd with rfl | rfl <;>
          simp [HEADER_END, readHeader, headerEndSteps] <;> grind
      rw [← hgo, h] at hlt
      exact Nat.lt_irrefl _ (hlt rfl)
    obtain ⟨hlt, hparity, hlast⟩ := hat
    obtain rfl | hodd | rfl : steps = 0 ∨ (steps = 1 ∨ steps = 3) ∨ steps = 2 := by omega
    · refine iff_of_true ?_ ⟨hroom, hparity.symm⟩
      simp [HEADER_END, readHeader, headerEndSteps]
      grind
    · exact iff_of_false (hmissed hodd) (by omega)
    · obtain ⟨front, rfl⟩ := hlast
      exact absurd ⟨front, [13], by simp [HEADER_END]⟩ hfirst
  · refine iff_of_false (fun h => hroom ?_) fun h => hroom h.1
    have hle : (readHeader tmpBufSize 0 [] (pre ++ HEADER_END ++ body)).header.length ≤ _ :=
      (readHeader_bounds _ _ (Nat.zero_le tmpBufSize)).1
    rw [h] at hle
    exact length_append.symm.trans_le hle

theorem header_end_found : httpcResponseReadHeader ([65] ++ HEADER_END ++ [66]) =
    ⟨[65] ++ HEADER_END, true, [66]⟩ :=
  (header_end_found_iff 2048 [65] [66] (by decide)).mpr (by decide)

/-- Behind one more carriage return none of the three sees the empty line. -/
theorem header_end_missed : ¬ HEADER_END <:+: [13] ++ [13, 10, 13] ∧
    ∀ read ∈ [httpcResponseReadHeader, httpdRequestReadHeader, wsServerHandshakeReadHeader],
      read ([13] ++ HEADER_END ++ [66]) = ⟨[13] ++ HEADER_END ++ [66], false, []⟩ := by
  decide

end AmebaRtos.Network
