import Mathlib.Data.List.Infix
import AmebaRtos.Vb6824.Uart

/-!
# Streams of frames and packets

What the two state machines make of a whole stream of frames, of packets, and of noise in front of
a frame. A byte that does not continue the marker sends the machine back to its first state
without being looked at again, so an odd number of first marker bytes in front of a frame swallows
its marker.
-/

namespace AmebaRtos.Vb6824

open Lib List

/-! ### Reports, byte by byte -/

/-- What the machine reports at each byte of a stream. -/
def reports (otaMode : Bool) : Uart → List UInt8 → List (Option (List UInt8))
  | _, [] => []
  | u, input :: rest =>
    (vb6824UartIrqHandler otaMode u input).2 ::
      reports otaMode (vb6824UartIrqHandler otaMode u input).1 rest

section Reports

theorem feed_cons :
    feed otaMode u (input :: rest) =
      ((feed otaMode (vb6824UartIrqHandler otaMode u input).1 rest).1,
        (vb6824UartIrqHandler otaMode u input).2.toList ++
          (feed otaMode (vb6824UartIrqHandler otaMode u input).1 rest).2) :=
  rfl

theorem reports_append : reports otaMode u (bytes ++ bytes') =
      reports otaMode u bytes ++ reports otaMode (feed otaMode u bytes).1 bytes' := by
  induction bytes generalizing u with
  | nil => rfl
  | cons input rest ih => simp [reports, feed_cons, ih]

theorem reports_of_silent (h : (feed otaMode u bytes).2 = []) :
    reports otaMode u bytes = List.replicate bytes.length none := by
  induction bytes generalizing u with
  | nil => rfl
  | cons input rest ih =>
    rw [feed_cons, append_eq_nil_iff] at h
    rw [reports, ih h.2, length_cons, replicate_succ]
    have hnone : (vb6824UartIrqHandler otaMode u input).2 = none := by
      simpa using h.1
    rw [hnone]

theorem reports_last (hbody : (feed otaMode u body).2 = [])
    (h : (feed otaMode u (body ++ [last])).2 = [msg]) :
    reports otaMode u (body ++ [last]) = List.replicate body.length none ++ [some msg] := by
  rw [feed_append, hbody] at h
  rw [reports_append, reports_of_silent hbody]
  have hsome : (vb6824UartIrqHandler otaMode (feed otaMode u body).1 last).2 = some msg := by
    simpa [feed] using h
  simp [reports, hsome]

end Reports

/-! ### Frames one after the other -/

theorem reports_frame (h : u.FrameReady) (hlen : c.data.length ≤ FRAME_DATA_MAX) :
    reports false u (frame c) =
      List.replicate (frameHeader c ++ c.data).length none ++ [some (message c)] := by
  obtain ⟨_, hbody, _⟩ := feed_frameBody h hlen
  obtain ⟨_, hframe, _⟩ := feed_frame h hlen
  exact reports_last (by rw [hbody]) (by rw [← frame, hframe])

/-- **Frames are received as they were sent**: one report for each call, at the last byte of its
    frame and in order, and the machine is between frames in the end. -/
theorem frames_received {u : Uart} (h : u.FrameReady) (calls : List Call)
    (hlen : ∀ c ∈ calls, c.data.length ≤ PACKET_SIZE - 7) :
    reports false u (calls.flatMap frame) = calls.flatMap (fun c =>
        List.replicate ((frame c).length - 1) none ++ [some (message c)]) ∧
      (feed false u (calls.flatMap frame)).1.FrameReady := by
  induction calls generalizing u with
  | nil => exact ⟨rfl, h⟩
  | cons c rest ih =>
    obtain ⟨hc, hrest⟩ := forall_mem_cons.mp hlen
    have hmax : c.data.length ≤ FRAME_DATA_MAX := le_trans hc (by decide)
    obtain ⟨u', hfeed, hready⟩ := feed_frame h hmax
    obtain ⟨hreports, hend⟩ := ih hready hrest
    have hlast : (frame c).length - 1 = (frameHeader c ++ c.data).length := by simp [frame]
    rw [flatMap_cons, flatMap_cons, reports_append, reports_frame h hmax, hfeed,
      hreports, hlast, feed_append, hfeed]
    exact ⟨rfl, hend⟩

/-- A frame without data and one of two bytes. -/
theorem frames_received_two :
    reports false .init (frame ⟨0, VB6824_CMD_STOP_RECORD, []⟩ ++
      frame ⟨1, VB6824_CMD_PLAY, [7, 8]⟩) =
      List.replicate 6 none ++ [some [0x01, 0x02]] ++
        (List.replicate 8 none ++ [some [0x81, 0x20, 7, 8]]) :=
  (frames_received ⟨rfl, rfl⟩ [⟨0, VB6824_CMD_STOP_RECORD, []⟩, ⟨1, VB6824_CMD_PLAY, [7, 8]⟩]
    (by decide)).1

/-! ### Packets one after the other -/

/-- The bytes of `jl_uart_send_packet`: the length field counts the opcode. -/
def jlUartSendPacket (opcode : UInt8) (data : List UInt8) : List UInt8 := jlPacket (opcode :: data)

/-- The bytes of a packet that the checksum covers. -/
def checkedBytes (opcode : UInt8) (data : List UInt8) : List UInt8 := jlBody (opcode :: data)

theorem reports_jlPacket (h : u.JlReady) (hlen : data.length ≤ JL_DATA_MAX) :
    reports true u (jlPacket data) =
      List.replicate ((jlPacket data).length - 1) none ++ [some data] := by
  obtain ⟨u', hbody, hstatus, _⟩ := feed_jlBody h hlen
  obtain ⟨_, hpacket, _⟩ := feed_jlPacket h hlen
  -- the report comes with the second byte of the checksum
  have hsplit : jlPacket data = (jlBody data ++ [(crc16Ccitt (jlBody data)).toUInt8]) ++
      [(crc16Ccitt (jlBody data) >>> 8).toUInt8] := by
    simp [jlPacket]
  have hsilent : (feed true u (jlBody data ++ [(crc16Ccitt (jlBody data)).toUInt8])).2 = [] := by
    rw [feed_append, hbody, feed_cons, jl_checksumLow hstatus]
    rfl
  rw [hsplit] at hpacket ⊢
  rw [reports_last hsilent (by rw [hpacket])]
  simp

/-- **Packets are received as they were sent**, with a length field of at most 16: one report each,
    at the last byte and in order; and at each checksum the machine has computed `crc16_ccitt` of
    the sender's bytes. -/
theorem packets_received {u : Uart} (h : u.JlReady) (packets : List (UInt8 × List UInt8))
    (hlen : ∀ p ∈ packets, p.2.length + 1 ≤ JL_DATA_MAX) :
    reports true u (packets.flatMap fun p => jlUartSendPacket p.1 p.2) =
        packets.flatMap (fun p =>
          List.replicate ((jlUartSendPacket p.1 p.2).length - 1) none ++ [some (p.1 :: p.2)]) ∧
      (feed true u (packets.flatMap fun p => jlUartSendPacket p.1 p.2)).1.JlReady ∧
      ∀ before p after, packets = before ++ p :: after →
        (feed true u ((before.flatMap fun q => jlUartSendPacket q.1 q.2) ++
          checkedBytes p.1 p.2)).1.jlChecksum = crc16Ccitt (checkedBytes p.1 p.2) := by
  induction packets generalizing u with
  | nil => exact ⟨rfl, h, fun before p after hsplit => by simp at hsplit⟩
  | cons p rest ih =>
    obtain ⟨hp, hrest⟩ := forall_mem_cons.mp hlen
    have hmax : (p.1 :: p.2).length ≤ JL_DATA_MAX := hp
    obtain ⟨u', hfeed, hready⟩ := feed_jlPacket h hmax
    obtain ⟨hreports, hend, hcrc⟩ := ih hready hrest
    refine ⟨?_, ?_, ?_⟩
    · rw [flatMap_cons, flatMap_cons, reports_append, jlUartSendPacket,
        reports_jlPacket h hmax, hfeed, hreports]
    · rw [flatMap_cons, feed_append, jlUartSendPacket, hfeed]
      exact hend
    · intro before q after hsplit
      cases before with
      | nil =>
        obtain ⟨rfl, rfl⟩ := hsplit
        obtain ⟨v, hbody, _, hsum, _⟩ := feed_jlBody h hmax
        rw [flatMap_nil, nil_append, checkedBytes, hbody]
        exact hsum
      | cons first before =>
        rw [cons_append, List.cons.injEq] at hsplit
        obtain ⟨rfl, hsplit⟩ := hsplit
        rw [flatMap_cons, append_assoc, feed_append, jlUartSendPacket, hfeed]
        exact hcrc before q after hsplit

/-- The opcode alone, and a packet of the full length. -/
theorem packets_received_two : (feed true .init (jlUartSendPacket 0x06 [] ++
      jlUartSendPacket 0x02 [1, 2, 3, 4, 5, 6, 7, 8, 9, 10, 11, 12, 13, 14, 15])).1.JlReady :=
  (packets_received ⟨rfl, rfl⟩
    [(0x06, []), (0x02, [1, 2, 3, 4, 5, 6, 7, 8, 9, 10, 11, 12, 13, 14, 15])] (by decide)).2.1

/-! ### Noise -/

/-- The two bytes that start a frame. -/
def marker (otaMode : Bool) : UInt8 × UInt8 := if otaMode then (0xAA, 0x55) else (0x55, 0xAA)

def Uart.Ready (otaMode : Bool) (u : Uart) : Prop := if otaMode then u.JlReady else u.FrameReady

/-- The number of bytes `b` at the end. -/
def trailing (b : UInt8) (bytes : List UInt8) : Nat := (bytes.reverse.takeWhile (· == b)).length

theorem trailing_concat :
    trailing b (bytes ++ [c]) = if c = b then trailing b bytes + 1 else 0 := by
  unfold trailing
  by_cases hc : c = b
  · simp [hc]
  · simp [hc]

theorem concat_of_trailing (h : trailing b bytes ≠ 0) : ∃ front, bytes = front ++ [b] := by
  rcases eq_nil_or_concat bytes with rfl | ⟨front, c, rfl⟩
  · simp [trailing] at h
  rw [concat_eq_append, trailing_concat] at h
  rw [concat_eq_append]
  by_cases hc : c = b
  · exact ⟨front, by rw [hc]⟩
  · simp [hc] at h

section Noise

theorem irq_first (h : u.Ready otaMode) :
    (vb6824UartIrqHandler otaMode u (marker otaMode).1).2 = none ∧
      (vb6824UartIrqHandler otaMode u (marker otaMode).1).1.status = 1 := by
  cases otaMode with
  | true =>
    obtain ⟨hstatus, _⟩ := h
    simp [vb6824UartIrqHandler, jlOtaUartFiniteStateMachine, hstatus, marker, Uart.jlNext]
  | false =>
    obtain ⟨hstatus, _⟩ := h
    simp [vb6824UartIrqHandler, vb6824UartFiniteStateMachine, hstatus, marker, Uart.frameNext]

theorem irq_skip (h : u.Ready otaMode) (hne : input ≠ (marker otaMode).1) :
    (vb6824UartIrqHandler otaMode u input).2 = none ∧
      (vb6824UartIrqHandler otaMode u input).1.Ready otaMode := by
  cases otaMode with
  | true =>
    obtain ⟨hstatus, _⟩ := h
    have hne : input ≠ 0xAA := hne
    simp [vb6824UartIrqHandler, jlOtaUartFiniteStateMachine, hstatus, hne, Uart.jlReset,
      Uart.Ready, Uart.JlReady]
  | false =>
    obtain ⟨hstatus, _⟩ := h
    have hne : input ≠ 0x55 := hne
    simp [vb6824UartIrqHandler, vb6824UartFiniteStateMachine, hstatus, hne, Uart.frameReset,
      Uart.Ready, Uart.FrameReady]

theorem irq_mismatch (h : u.status = 1) (hne : input ≠ (marker otaMode).2) :
    (vb6824UartIrqHandler otaMode u input).2 = none ∧
      (vb6824UartIrqHandler otaMode u input).1.Ready otaMode := by
  cases otaMode with
  | true =>
    have hne : input ≠ 0x55 := hne
    simp [vb6824UartIrqHandler, jlOtaUartFiniteStateMachine, h, hne, Uart.jlReset, Uart.Ready,
      Uart.JlReady]
  | false =>
    have hne : input ≠ 0xAA := hne
    simp [vb6824UartIrqHandler, vb6824UartFiniteStateMachine, h, hne, Uart.frameReset,
      Uart.Ready, Uart.FrameReady]

theorem marker_ne : (marker otaMode).1 ≠ (marker otaMode).2 := by
  cases otaMode <;> decide

/-- **The state behind noise** depends on the number of first marker bytes at its end. -/
theorem noise_state (h : u.Ready otaMode)
    (hnoise : ¬ [(marker otaMode).1, (marker otaMode).2] <:+: noise) :
    ∃ u', feed otaMode u noise = (u', []) ∧
      if trailing (marker otaMode).1 noise % 2 = 0 then u'.Ready otaMode else u'.status = 1 := by
  induction noise using List.reverseRecOn with
  | nil => exact ⟨u, rfl, h⟩
  | append_singleton front c ih =>
    obtain ⟨v, hfeed, hstate⟩ := ih fun hfront =>
      hnoise (hfront.trans (prefix_append _ _).isInfix)
    have hone : (vb6824UartIrqHandler otaMode v c).2 = none →
        feed otaMode u (front ++ [c]) = ((vb6824UartIrqHandler otaMode v c).1, []) := by
      intro hnone
      rw [feed_append, hfeed, feed_cons, hnone]
      rfl
    rw [trailing_concat]
    by_cases heven : trailing (marker otaMode).1 front % 2 = 0
    · rw [if_pos heven] at hstate
      by_cases hc : c = (marker otaMode).1
      · subst hc
        obtain ⟨hnone, hstatus⟩ := irq_first hstate
        refine ⟨_, hone hnone, ?_⟩
        rw [if_pos rfl, if_neg (by omega)]
        exact hstatus
      · obtain ⟨hnone, hready⟩ := irq_skip hstate hc
        refine ⟨_, hone hnone, ?_⟩
        rw [if_neg hc]
        exact hready
    rw [if_neg heven] at hstate
    -- the byte before is the first one of the marker, so this one is not the second
    have hne : c ≠ (marker otaMode).2 := by
      rintro rfl
      have hsome : trailing (marker otaMode).1 front ≠ 0 := by
        intro hzero
        exact heven (by rw [hzero])
      obtain ⟨front', rfl⟩ := concat_of_trailing hsome
      apply hnoise
      rw [append_assoc]
      exact (suffix_append _ _).isInfix
    obtain ⟨hnone, hready⟩ := irq_mismatch hstate hne
    refine ⟨_, hone hnone, ?_⟩
    by_cases hc : c = (marker otaMode).1
    · rw [if_pos hc, if_pos (by omega)]
      exact hready
    · rw [if_neg hc]
      exact hready

theorem irq_length :
    (vb6824UartIrqHandler otaMode u input).1.status ≤ u.status + 1 ∧
      ∀ msg, (vb6824UartIrqHandler otaMode u input).2 = some msg →
        msg.length + 5 ≤ u.status + 1 := by
  obtain ⟨v, success, heffect, hirq⟩ := irq_effect otaMode u input
  rw [hirq]
  cases heffect with
  | reset _ status => exact ⟨by rw [status]; exact Nat.zero_le _, nofun⟩
  | next _ status checked => exact ⟨le_of_eq status, nofun⟩
  | message _ status behind last dataLen =>
    refine ⟨by rw [status]; exact Nat.zero_le _, fun msg hmsg => ?_⟩
    cases hmsg
    rw [Memory.length_window, dataLen, last]
    cases otaMode with
    | true => simp only [cmdSize, overhead, if_true]; omega
    | false => simp only [cmdSize, overhead, Bool.false_eq_true, if_false]; omega

/-- **A message needs more bytes than it has**: the marker, the length and a checksum. -/
theorem feed_length (hmem : msg ∈ (feed otaMode u bytes).2) :
    msg.length + 5 ≤ u.status + bytes.length := by
  induction bytes generalizing u with
  | nil => exact absurd hmem not_mem_nil
  | cons input rest ih =>
    obtain ⟨hstatus, hlen⟩ := irq_length
    rw [feed_cons, mem_append, Option.mem_toList] at hmem
    rw [length_cons]
    rcases hmem with hnow | hlater
    · have := hlen msg hnow
      omega
    · have := ih hlater
      omega

/-- Behind an odd number of first marker bytes, the marker is swallowed and what follows it
    is too short for the message. -/
theorem swallowed (h : u.status = 1) (hshort : bytes.length < msg.length + 5) :
    (feed otaMode u ((marker otaMode).1 :: (marker otaMode).2 :: bytes)).2 ≠ [msg] := by
  obtain ⟨hfirst, hready⟩ := irq_mismatch h marker_ne
  obtain ⟨hsecond, hready⟩ := irq_skip hready marker_ne.symm
  intro heq
  rw [feed_cons, hfirst, feed_cons, hsecond] at heq
  have hmem : msg ∈ (feed otaMode (vb6824UartIrqHandler otaMode
      (vb6824UartIrqHandler otaMode u (marker otaMode).1).1 (marker otaMode).2).1 bytes).2 := by
    simp only [Option.toList_none, nil_append] at heq
    rw [heq]
    exact .head _
  have hstatus : (vb6824UartIrqHandler otaMode
      (vb6824UartIrqHandler otaMode u (marker otaMode).1).1 (marker otaMode).2).1.status = 0 := by
    cases otaMode <;> exact hready.1
  have hlen := feed_length hmem
  omega

theorem noise_then_iff (h : u.Ready otaMode)
    (hnoise : ¬ [(marker otaMode).1, (marker otaMode).2] <:+: noise ++ [(marker otaMode).1])
    (hwire : wire = (marker otaMode).1 :: (marker otaMode).2 :: bytes)
    (hshort : bytes.length < msg.length + 5)
    (hreceived : ∀ v : Uart, v.Ready otaMode → (feed otaMode v wire).2 = [msg]) :
    (feed otaMode u (noise ++ wire)).2 = [msg] ↔ trailing (marker otaMode).1 noise % 2 = 0 := by
  obtain ⟨v, hfeed, hstate⟩ := noise_state h fun hin =>
    hnoise (hin.trans (prefix_append _ _).isInfix)
  rw [feed_append, hfeed]
  by_cases heven : trailing (marker otaMode).1 noise % 2 = 0
  · rw [if_pos heven] at hstate
    exact iff_of_true (hreceived v hstate) heven
  · rw [if_neg heven] at hstate
    rw [hwire]
    exact iff_of_false (swallowed hstate hshort) heven

end Noise

/-- **Noise in front of a frame.** Behind noise without a marker the frame is reported exactly when
    the noise ends with an even number of first marker bytes. -/
theorem noise_then_frame_iff (u : Uart) (noise : List UInt8) :
    (u.FrameReady → ¬ [0x55, 0xAA] <:+: noise ++ [0x55] →
      ∀ c : Call, c.data.length ≤ FRAME_DATA_MAX →
        ((feed false u (noise ++ frame c)).2 = [message c] ↔ trailing 0x55 noise % 2 = 0)) ∧
    (u.JlReady → ¬ [0xAA, 0x55] <:+: noise ++ [0xAA] →
      ∀ data : List UInt8, 1 ≤ data.length → data.length ≤ JL_DATA_MAX →
        ((feed true u (noise ++ jlPacket data)).2 = [data] ↔ trailing 0xAA noise % 2 = 0)) := by
  constructor
  · intro h hnoise c hlen
    have hready : u.Ready false := h
    have hwire : ∀ c : Call, frame c = 0x55 :: 0xAA :: (frame c).drop 2 := fun _ => rfl
    refine noise_then_iff hready hnoise (hwire c) ?_ fun v hv => ?_
    · simp [frame, frameHeader, message]
    · obtain ⟨_, hframe, _⟩ := feed_frame hv hlen
      rw [hframe]
  · intro h hnoise data _ hlen
    have hready : u.Ready true := h
    have hwire : ∀ data, jlPacket data = 0xAA :: 0x55 :: (jlPacket data).drop 2 := fun _ => rfl
    refine noise_then_iff hready hnoise (hwire data) ?_ fun v hv => ?_
    · simp [jlPacket, jlBody]
    · obtain ⟨_, hpacket, _⟩ := feed_jlPacket hv hlen
      rw [hpacket]

/-- Two first marker bytes cancel out, for either receiver. -/
theorem noise_then_frame_pair :
    (feed false .init ([1, 0x55, 0x55] ++ frame ⟨0, VB6824_CMD_PLAY, [7]⟩)).2 =
        [message ⟨0, VB6824_CMD_PLAY, [7]⟩] ∧
      (feed true .init ([1, 0xAA, 0xAA] ++ jlPacket [0x06])).2 = [[0x06]] :=
  ⟨((noise_then_frame_iff .init [1, 0x55, 0x55]).1 ⟨rfl, rfl⟩ (by decide) ⟨0, VB6824_CMD_PLAY, [7]⟩
      (by decide)).mpr (by decide),
    ((noise_then_frame_iff .init [1, 0xAA, 0xAA]).2 ⟨rfl, rfl⟩ (by decide) [0x06]
      (by decide) (by decide)).mpr (by decide)⟩

/-- One stray first marker byte, and the frame behind it is lost, for either receiver. -/
theorem stray_byte_loses_frame :
    (feed false .init ([0x55] ++ frame ⟨0, VB6824_CMD_PLAY, [7]⟩)).2 = [] ∧
      (feed true .init ([0xAA] ++ jlPacket [0x06])).2 = [] := by
  decide +kernel

end AmebaRtos.Vb6824
