import AmebaRtos.Lib.Word
import AmebaRtos.Vb6824.Send

/-!
# The two protocols on the serial line

The voice chip sends frames like those of `vb6824_send`; the bootloader of the chip sends
packets with another header and a CRC. Two finite state machines take the bytes one by
one. They share the status, the length and the buffer, whichever of the two is running.
-/

namespace AmebaRtos.Vb6824

open Lib Function

/-- `sizeof buffer.frame.data` and `sizeof buffer.data`. -/
def FRAME_DATA_MAX : Nat := 500
def JL_DATA_MAX : Nat := 16

/-- The static variables of `vb6824_uart_irq_handler`. In the union of the buffer, a frame has its
    command in the first two bytes and its data behind them; a packet has its data there too. -/
structure Uart where
  status : Nat
  dataLen : UInt16
  buffer : Memory
  frameChecksum : UInt8
  jlChecksum : UInt16
  targetChecksum : UInt16

def Uart.init : Uart := ⟨0, 0, fun _ => 0, 0, 0, 0⟩

/-! ### Frames -/

variable (otaMode : Bool) (u : Uart)

/-- The end of `vb6824_uart_finite_state_machine`, for a byte that does not fit. -/
def Uart.frameReset : Uart × Bool := ({ u with status := 0, frameChecksum := 0 }, false)

variable (input : UInt8)

def Uart.frameNext : Uart × Bool :=
  ({ u with status := u.status + 1, frameChecksum := u.frameChecksum + input }, false)

def vb6824UartFiniteStateMachine : Uart × Bool :=
  if u.status = 0 then
    if input = 0x55 then u.frameNext input else u.frameReset
  else if u.status = 1 then
    if input = 0xAA then u.frameNext input else u.frameReset
  else if u.status = 2 then
    Uart.frameNext { u with dataLen := input.toUInt16 <<< 8 } input
  else if u.status = 3 then
    let u := { u with dataLen := u.dataLen ||| input.toUInt16 }
    if FRAME_DATA_MAX < u.dataLen.toNat then u.frameReset else u.frameNext input
  else if u.status = 4 then
    Uart.frameNext
      { u with buffer := update (update u.buffer 0 0) 1 input } input
  else if u.status = 5 then
    Uart.frameNext { u with buffer := update u.buffer 0 (u.buffer 0 ||| input) } input
  else if u.status < u.dataLen.toNat + 6 then
    Uart.frameNext { u with buffer := update u.buffer (2 + (u.status - 6)) input } input
  else if u.status = u.dataLen.toNat + 6 then
    if input = u.frameChecksum then ({ u with status := 0, frameChecksum := 0 }, true)
    else u.frameReset
  else u.frameReset

/-! ### Packets -/

def crcByte (crc : UInt16) (input : UInt8) : UInt16 :=
  (List.range 8).foldl
    (fun crc _ => if crc &&& 0x8000 ≠ 0 then (crc <<< 1) ^^^ 0x1021 else crc <<< 1)
    (crc ^^^ (input.toUInt16 <<< 8))

def crc16Ccitt (bytes : List UInt8) : UInt16 := bytes.foldl crcByte 0

def Uart.jlReset : Uart × Bool := ({ u with status := 0, jlChecksum := 0 }, false)

def Uart.jlNext : Uart × Bool :=
  ({ u with
      status := u.status + 1
      jlChecksum := if u.status ≤ 3 ∨ u.status < u.dataLen.toNat + 4
        then crcByte u.jlChecksum input else u.jlChecksum },
    false)

def jlOtaUartFiniteStateMachine : Uart × Bool :=
  if u.status = 0 then
    if input = 0xAA then u.jlNext input else u.jlReset
  else if u.status = 1 then
    if input = 0x55 then u.jlNext input else u.jlReset
  else if u.status = 2 then
    Uart.jlNext { u with dataLen := input.toUInt16 } input
  else if u.status = 3 then
    let u := { u with dataLen := u.dataLen ||| (input.toUInt16 <<< 8) }
    if JL_DATA_MAX < u.dataLen.toNat then u.jlReset else u.jlNext input
  else if u.status < u.dataLen.toNat + 4 then
    Uart.jlNext { u with buffer := update u.buffer (u.status - 4) input } input
  else if u.status = u.dataLen.toNat + 4 then
    Uart.jlNext { u with targetChecksum := input.toUInt16 } input
  else if u.status = u.dataLen.toNat + 5 then
    let u := { u with targetChecksum := u.targetChecksum ||| (input.toUInt16 <<< 8) }
    if u.targetChecksum = u.jlChecksum then ({ u with status := 0, jlChecksum := 0 }, true)
    else u.jlReset
  else u.jlReset

/-- A packet: header, length, data and checksum. -/
def jlBody (data : List UInt8) : List UInt8 :=
  [0xAA, 0x55, UInt8.ofNat data.length, UInt8.ofNat (data.length / 256)] ++ data

def jlPacket (data : List UInt8) : List UInt8 :=
  jlBody data ++ [(crc16Ccitt (jlBody data)).toUInt8, (crc16Ccitt (jlBody data) >>> 8).toUInt8]

/-! ### The interrupt -/

/-- One round of `vb6824_uart_irq_handler`: the new state, and the message for the buffer. -/
def vb6824UartIrqHandler : Uart × Option (List UInt8) :=
  if otaMode then
    match jlOtaUartFiniteStateMachine u input with
    | (u, success) => (u, if success then some (u.buffer.window 0 u.dataLen.toNat) else none)
  else
    match vb6824UartFiniteStateMachine u input with
    | (u, success) => (u, if success then some (u.buffer.window 0 (2 + u.dataLen.toNat)) else none)

def feed (otaMode : Bool) : Uart → List UInt8 → Uart × List (List UInt8)
  | u, [] => (u, [])
  | u, input :: rest =>
    match vb6824UartIrqHandler otaMode u input with
    | (u, msg) =>
      match feed otaMode u rest with
      | (u, msgs) => (u, msg.toList ++ msgs)

theorem feed_append :
    feed otaMode u (bytes ++ bytes') = ((feed otaMode (feed otaMode u bytes).1 bytes').1,
        (feed otaMode u bytes).2 ++ (feed otaMode (feed otaMode u bytes).1 bytes').2) := by
  induction bytes generalizing u with
  | nil => rfl
  | cons input rest ih =>
    simp only [List.cons_append, feed, ih, List.append_assoc]

/-! ### The data of a message -/

def cmdSize : Nat := if otaMode then 0 else 2

def headerSize : Nat := if otaMode then 4 else 6

def Uart.takeData : Uart :=
  { u with
    status := u.status + 1
    buffer := update u.buffer (cmdSize otaMode + (u.status - headerSize otaMode)) input
    frameChecksum := if otaMode then u.frameChecksum else u.frameChecksum + input
    jlChecksum := if otaMode then crcByte u.jlChecksum input else u.jlChecksum }

theorem irq_dataByte {otaMode : Bool} {u : Uart} (hlo : headerSize otaMode ≤ u.status)
    (hhi : u.status < u.dataLen.toNat + headerSize otaMode) (input : UInt8) :
    vb6824UartIrqHandler otaMode u input = (u.takeData otaMode input, none) := by
  cases otaMode with
  | true =>
    have hlo : 4 ≤ u.status := hlo
    have hhi : u.status < u.dataLen.toNat + 4 := hhi
    have hcrc : u.status ≤ 3 ∨ u.status < u.dataLen.toNat + 4 := .inr hhi
    rw [vb6824UartIrqHandler, if_pos rfl, jlOtaUartFiniteStateMachine, if_neg (by omega),
      if_neg (by omega), if_neg (by omega), if_neg (by omega), if_pos hhi]
    simp only [Uart.jlNext, if_pos hcrc, Uart.takeData, cmdSize, if_true, zero_add]
    rfl
  | false =>
    have hlo : 6 ≤ u.status := hlo
    have hhi : u.status < u.dataLen.toNat + 6 := hhi
    rw [vb6824UartIrqHandler, if_neg Bool.false_ne_true, vb6824UartFiniteStateMachine,
      if_neg (by omega), if_neg (by omega), if_neg (by omega), if_neg (by omega),
      if_neg (by omega), if_neg (by omega), if_pos hhi]
    rfl

theorem feed_data (otaMode : Bool) : ∀ (rest : List UInt8) (u : Uart) (i : Nat),
    u.status = headerSize otaMode + i → u.dataLen.toNat = i + rest.length →
    ∃ u', feed otaMode u rest = (u', []) ∧
      u'.status = headerSize otaMode + u.dataLen.toNat ∧ u'.dataLen = u.dataLen ∧
      (otaMode = true → u'.jlChecksum = rest.foldl crcByte u.jlChecksum) ∧
      (otaMode = false → u'.frameChecksum = rest.foldl (· + ·) u.frameChecksum) ∧
      (∀ a < cmdSize otaMode + i, u'.buffer a = u.buffer a) ∧
      u'.buffer.window (cmdSize otaMode + i) rest.length = rest
  | [], u, i, hstatus, hlen => by
    refine ⟨u, rfl, ?_, rfl, fun _ => rfl, fun _ => rfl, fun _ _ => rfl, rfl⟩
    rw [hstatus, hlen]
    rfl
  | input :: rest, u, i, hstatus, hlen => by
    rw [List.length_cons] at hlen
    have hbyte := @irq_dataByte otaMode u (by omega) (by omega) input
    have hindex : u.status - headerSize otaMode = i := by omega
    obtain ⟨u', hfeed, hstatus', hlen', hcrc, hsum, hkept, hwindow⟩ :=
      feed_data otaMode rest (u.takeData otaMode input) (i + 1)
        (by simp only [Uart.takeData]; omega)
        (by simp only [Uart.takeData]; omega)
    refine ⟨u', ?_, hstatus', hlen', ?_, ?_, ?_, ?_⟩
    · rw [feed, hbyte]
      simp only [hfeed]
      rfl
    · rintro rfl
      exact hcrc rfl
    · rintro rfl
      exact hsum rfl
    · intro a ha
      rw [hkept a (by omega), Uart.takeData, hindex]
      exact update_of_ne (Nat.ne_of_lt ha) _ _
    · have hfirst : u'.buffer (cmdSize otaMode + i) = input := by
        rw [hkept _ (by omega), Uart.takeData, hindex]
        exact update_self ..
      rw [List.length_cons, Memory.window_succ, hfirst, add_assoc, hwindow]

/-! ### Packets are recognised -/

/-- Between packets. -/
def Uart.JlReady : Prop := u.status = 0 ∧ u.jlChecksum = 0

variable {u : Uart}

theorem jl_header (h : u.JlReady) (hlen : len ≤ JL_DATA_MAX) :
    feed true u [0xAA, 0x55, UInt8.ofNat len, UInt8.ofNat (len / 256)] = ({ u with
          status := 4
          dataLen := UInt16.ofNat len
          jlChecksum := crc16Ccitt [0xAA, 0x55, UInt8.ofNat len, UInt8.ofNat (len / 256)] },
        []) := by
  obtain ⟨status, dataLen, buffer, frameChecksum, jlChecksum, targetChecksum⟩ := u
  obtain ⟨rfl, rfl⟩ := h
  have hword : len < 2 ^ 16 := Nat.lt_of_le_of_lt hlen (by decide)
  have hjoin := u16_of_bytes hword
  have hnat : (UInt16.ofNat len).toNat = len := UInt16.toNat_ofNat_of_lt' hword
  simp [feed, vb6824UartIrqHandler, jlOtaUartFiniteStateMachine, Uart.jlNext, hjoin, crc16Ccitt,
    hnat, Nat.not_lt.mpr hlen]

theorem jl_checksumLow (hstatus : u.status = 4 + u.dataLen.toNat) (input : UInt8) :
    vb6824UartIrqHandler true u input =
      ({ u with status := u.status + 1, targetChecksum := input.toUInt16 }, none) := by
  have hcrc : ¬ (u.status ≤ 3 ∨ u.status < u.dataLen.toNat + 4) := by omega
  rw [vb6824UartIrqHandler, if_pos rfl, jlOtaUartFiniteStateMachine, if_neg (by omega),
    if_neg (by omega), if_neg (by omega), if_neg (by omega), if_neg (by omega),
    if_pos (by omega)]
  simp only [Uart.jlNext, if_neg hcrc]
  rfl

theorem jl_checksumHigh {u : Uart} (hstatus : u.status = 5 + u.dataLen.toNat) (input : UInt8) :
    vb6824UartIrqHandler true u input = ({ u with
          status := 0
          jlChecksum := 0
          targetChecksum := u.targetChecksum ||| (input.toUInt16 <<< 8) },
        if u.targetChecksum ||| (input.toUInt16 <<< 8) = u.jlChecksum
          then some (u.buffer.window 0 u.dataLen.toNat) else none) := by
  rw [vb6824UartIrqHandler, if_pos rfl, jlOtaUartFiniteStateMachine, if_neg (by omega),
    if_neg (by omega), if_neg (by omega), if_neg (by omega), if_neg (by omega),
    if_neg (by omega), if_pos (by omega)]
  dsimp only
  split <;> rfl

theorem jl_checksum (hstatus : u.status = 4 + u.dataLen.toNat) (low high : UInt8) :
    feed true u [low, high] = ({ u with
          status := 0
          jlChecksum := 0
          targetChecksum := low.toUInt16 ||| (high.toUInt16 <<< 8) },
        if low.toUInt16 ||| (high.toUInt16 <<< 8) = u.jlChecksum
          then [u.buffer.window 0 u.dataLen.toNat] else []) := by
  have hhigh := @jl_checksumHigh
    { u with status := u.status + 1, targetChecksum := low.toUInt16 }
    (by simp only [hstatus]; omega) high
  simp only [feed, jl_checksumLow hstatus, hhigh]
  split <;> rfl

theorem feed_jlBody (h : u.JlReady) (hlen : data.length ≤ JL_DATA_MAX) :
    ∃ u', feed true u (jlBody data) = (u', []) ∧ u'.status = 4 + u'.dataLen.toNat ∧
      u'.jlChecksum = crc16Ccitt (jlBody data) ∧ u'.buffer.window 0 u'.dataLen.toNat = data := by
  have hword : data.length < 2 ^ 16 := Nat.lt_of_le_of_lt hlen (by decide)
  have hnat : (UInt16.ofNat data.length).toNat = data.length := UInt16.toNat_ofNat_of_lt' hword
  obtain ⟨u', hdata, hstatus, hdataLen, hcrc, _, _, hwindow⟩ := feed_data true data
    { u with
      status := 4
      dataLen := UInt16.ofNat data.length
      jlChecksum := crc16Ccitt
        [0xAA, 0x55, UInt8.ofNat data.length, UInt8.ofNat (data.length / 256)] }
    0 rfl (by rw [zero_add]; exact hnat)
  rw [← hdataLen] at hstatus
  refine ⟨u', ?_, hstatus, ?_, ?_⟩
  · rw [jlBody, feed_append, jl_header h hlen, hdata]
    rfl
  · rw [hcrc rfl, crc16Ccitt, crc16Ccitt, jlBody, List.foldl_append]
  · rw [hdataLen, hnat]
    exact hwindow

/-- **A packet is recognised** by a machine between packets, which is then between packets
    again. -/
theorem feed_jlPacket (h : u.JlReady) (hlen : data.length ≤ JL_DATA_MAX) :
    ∃ u', feed true u (jlPacket data) = (u', [data]) ∧ u'.JlReady := by
  obtain ⟨u', hbody, hstatus, hsum, hmsg⟩ := feed_jlBody h hlen
  have hlast := jl_checksum hstatus (crc16Ccitt (jlBody data)).toUInt8
    (crc16Ccitt (jlBody data) >>> 8).toUInt8
  rw [u16_join, hsum, hmsg, if_pos rfl] at hlast
  refine ⟨{ u' with
    status := 0
    jlChecksum := 0
    targetChecksum := crc16Ccitt (jlBody data) }, ?_, rfl, rfl⟩
  rw [jlPacket, feed_append, hbody, hlast]
  rfl

/-! ### Frames are recognised -/

/-- Between frames. -/
def Uart.FrameReady (u : Uart) : Prop := u.status = 0 ∧ u.frameChecksum = 0

theorem frame_header (h : u.FrameReady) (hlen : c.data.length ≤ FRAME_DATA_MAX) :
    feed false u (frameHeader c) = ({ u with
          status := 6
          dataLen := UInt16.ofNat c.data.length
          buffer := update (update (update u.buffer 0 0) 1
            (c.cmd >>> 8).toUInt8) 0 c.cmd.toUInt8
          frameChecksum := checksum (frameHeader c) },
        []) := by
  obtain ⟨status, dataLen, buffer, frameChecksum, jlChecksum, targetChecksum⟩ := u
  obtain ⟨rfl, rfl⟩ := h
  have hword : c.data.length < 2 ^ 16 := Nat.lt_of_le_of_lt hlen (by decide)
  have hjoin := u16_of_bytes hword
  rw [UInt16.or_comm] at hjoin
  have hnat : (UInt16.ofNat c.data.length).toNat = c.data.length :=
    UInt16.toNat_ofNat_of_lt' hword
  simp [feed, frameHeader, vb6824UartIrqHandler, vb6824UartFiniteStateMachine, Uart.frameNext,
    hjoin, checksum, hnat, Nat.not_lt.mpr hlen]

theorem frame_checksum (hstatus : u.status = 6 + u.dataLen.toNat) : feed false u [u.frameChecksum] =
      ({ u with status := 0, frameChecksum := 0 },
        [u.buffer.window 0 (2 + u.dataLen.toNat)]) := by
  have hlast : vb6824UartIrqHandler false u u.frameChecksum =
      ({ u with status := 0, frameChecksum := 0 },
        some (u.buffer.window 0 (2 + u.dataLen.toNat))) := by
    rw [vb6824UartIrqHandler, if_neg Bool.false_ne_true, vb6824UartFiniteStateMachine,
      if_neg (by omega), if_neg (by omega), if_neg (by omega), if_neg (by omega),
      if_neg (by omega), if_neg (by omega), if_neg (by omega), if_pos (by omega), if_pos rfl]
    rfl
  simp only [feed, hlast]
  rfl

/-- What the machine puts into the message buffer for a frame: the command, low byte first,
    and the data. -/
def message (c : Call) : List UInt8 := c.cmd.toUInt8 :: (c.cmd >>> 8).toUInt8 :: c.data

theorem feed_frameBody (h : u.FrameReady) (hlen : c.data.length ≤ FRAME_DATA_MAX) :
    ∃ u', feed false u (frameHeader c ++ c.data) = (u', []) ∧ u'.status = 6 + u'.dataLen.toNat ∧
      u'.frameChecksum = checksum (frameHeader c ++ c.data) ∧
      u'.buffer.window 0 (2 + u'.dataLen.toNat) = message c := by
  have hword : c.data.length < 2 ^ 16 := Nat.lt_of_le_of_lt hlen (by decide)
  have hnat : (UInt16.ofNat c.data.length).toNat = c.data.length :=
    UInt16.toNat_ofNat_of_lt' hword
  obtain ⟨u', hdata, hstatus, hdataLen, _, hsum, hkept, hwindow⟩ := feed_data false c.data
    { u with
      status := 6
      dataLen := UInt16.ofNat c.data.length
      buffer := update (update (update u.buffer 0 0) 1
        (c.cmd >>> 8).toUInt8) 0 c.cmd.toUInt8
      frameChecksum := checksum (frameHeader c) }
    0 rfl (by rw [zero_add]; exact hnat)
  rw [← hdataLen] at hstatus
  refine ⟨u', ?_, hstatus, ?_, ?_⟩
  · rw [feed_append, frame_header h hlen, hdata]
    rfl
  · rw [hsum rfl, checksum, checksum, List.foldl_append]
  · have hlow : u'.buffer 0 = c.cmd.toUInt8 := hkept 0 (by decide)
    have hhigh : u'.buffer 1 = (c.cmd >>> 8).toUInt8 := hkept 1 (by decide)
    rw [hdataLen, hnat, add_comm, Memory.window_succ, Memory.window_succ, hlow, hhigh]
    exact congrArg (fun data => _ :: _ :: data) hwindow

/-- **A frame is recognised**: it comes out as the command, low byte first, and the data. -/
theorem feed_frame (h : u.FrameReady) (hlen : c.data.length ≤ FRAME_DATA_MAX) :
    ∃ u', feed false u (frame c) = (u', [message c]) ∧ u'.FrameReady := by
  obtain ⟨u', hbody, hstatus, hsum, hmsg⟩ := feed_frameBody h hlen
  have hlast := frame_checksum hstatus
  rw [hsum, hmsg] at hlast
  refine ⟨{ u' with status := 0, frameChecksum := 0 }, ?_, rfl, rfl⟩
  rw [frame, feed_append, hbody, hlast]
  rfl

/-! ### The length of a message -/

/-- `sizeof frame` and `sizeof data` of the task that receives. -/
def bufferSize : Nat := if otaMode then JL_DATA_MAX else 2 + FRAME_DATA_MAX

def dataMax : Nat := if otaMode then JL_DATA_MAX else FRAME_DATA_MAX

def Uart.Bounded (u : Uart) (max : Nat) : Prop := 4 ≤ u.status → u.dataLen.toNat ≤ max

def overhead : Nat := if otaMode then 5 else 6

/-- **What one byte can do**: the machine starts again, goes on, or has received a message of the
    length it has checked. -/
inductive ByteEffect (otaMode : Bool) (u : Uart) : Uart × Bool → Prop where
  | reset (v : Uart) (status : v.status = 0) : ByteEffect otaMode u (v, false)
  | next (v : Uart) (status : v.status = u.status + 1)
      (checked : 3 ≤ u.status → v.dataLen.toNat ≤ dataMax otaMode ∨
        4 ≤ u.status ∧ v.dataLen = u.dataLen) : ByteEffect otaMode u (v, false)
  | message (v : Uart) (status : v.status = 0) (behind : 4 ≤ u.status)
      (last : u.status = u.dataLen.toNat + overhead otaMode) (dataLen : v.dataLen = u.dataLen) :
      ByteEffect otaMode u (v, true)

section Bounded

theorem bounded_of_ready {max : Nat} (h : u.status = 0) : u.Bounded max := by
  intro hlo
  omega

theorem jl_effect (input : UInt8) : ByteEffect true u (jlOtaUartFiniteStateMachine u input) := by
  have hreset : ByteEffect true u u.jlReset := .reset _ rfl
  refine iteInduction (fun h0 => ?_) fun h0 => ?_
  · exact iteInduction (fun _ => .next _ rfl (by omega)) fun _ => hreset
  refine iteInduction (fun h1 => ?_) fun h1 => ?_
  · exact iteInduction (fun _ => .next _ rfl (by omega)) fun _ => hreset
  refine iteInduction (fun h2 => .next _ rfl (by omega)) fun h2 => ?_
  refine iteInduction (fun h3 => ?_) fun h3 => ?_
  · exact iteInduction (fun _ => .reset _ rfl)
      fun hfits => .next _ rfl fun _ => .inl (Nat.le_of_not_lt hfits)
  -- From here on the length is the one that has been checked.
  have hlo : 4 ≤ u.status := by omega
  refine iteInduction (fun _ => .next _ rfl fun _ => .inr ⟨hlo, rfl⟩) fun _ => ?_
  refine iteInduction (fun _ => .next _ rfl fun _ => .inr ⟨hlo, rfl⟩) fun _ => ?_
  refine iteInduction (fun hlast => ?_) fun _ => hreset
  exact iteInduction (fun _ => .message _ rfl hlo hlast rfl) fun _ => .reset _ rfl

theorem frame_effect (input : UInt8) :
    ByteEffect false u (vb6824UartFiniteStateMachine u input) := by
  have hreset : ByteEffect false u u.frameReset := .reset _ rfl
  refine iteInduction (fun h0 => ?_) fun h0 => ?_
  · exact iteInduction (fun _ => .next _ rfl (by omega)) fun _ => hreset
  refine iteInduction (fun h1 => ?_) fun h1 => ?_
  · exact iteInduction (fun _ => .next _ rfl (by omega)) fun _ => hreset
  refine iteInduction (fun h2 => .next _ rfl (by omega)) fun h2 => ?_
  refine iteInduction (fun h3 => ?_) fun h3 => ?_
  · exact iteInduction (fun _ => .reset _ rfl)
      fun hfits => .next _ rfl fun _ => .inl (Nat.le_of_not_lt hfits)
  have hlo : 4 ≤ u.status := by omega
  refine iteInduction (fun _ => .next _ rfl fun _ => .inr ⟨hlo, rfl⟩) fun _ => ?_
  refine iteInduction (fun _ => .next _ rfl fun _ => .inr ⟨hlo, rfl⟩) fun _ => ?_
  refine iteInduction (fun _ => .next _ rfl fun _ => .inr ⟨hlo, rfl⟩) fun _ => ?_
  refine iteInduction (fun hlast => ?_) fun _ => hreset
  exact iteInduction (fun _ => .message _ rfl hlo hlast rfl) fun _ => hreset

theorem irq_effect (u : Uart) (input : UInt8) :
    ∃ v success, ByteEffect otaMode u (v, success) ∧ vb6824UartIrqHandler otaMode u input =
      (v, if success then some (v.buffer.window 0 (cmdSize otaMode + v.dataLen.toNat))
        else none) := by
  cases otaMode with
  | true =>
    refine ⟨(jlOtaUartFiniteStateMachine u input).1, (jlOtaUartFiniteStateMachine u input).2,
      jl_effect input, ?_⟩
    rw [vb6824UartIrqHandler, if_pos rfl, cmdSize, if_pos rfl, zero_add]
  | false => exact ⟨_, _, frame_effect input, rfl⟩

theorem irq_bounded {otaMode : Bool} (h : u.Bounded (dataMax otaMode)) (input : UInt8) :
    (vb6824UartIrqHandler otaMode u input).1.Bounded (dataMax otaMode) ∧
      ∀ msg, (vb6824UartIrqHandler otaMode u input).2 = some msg →
        msg.length ≤ bufferSize otaMode := by
  obtain ⟨v, success, heffect, hirq⟩ := irq_effect otaMode u input
  rw [hirq]
  cases heffect with
  | reset _ status => exact ⟨bounded_of_ready status, nofun⟩
  | next _ status checked =>
    refine ⟨fun hlo => ?_, nofun⟩
    rcases checked (by rw [status] at hlo; omega) with hfits | ⟨hbehind, hsame⟩
    · exact hfits
    · rw [hsame]
      exact h hbehind
  | message _ status behind last dataLen =>
    refine ⟨bounded_of_ready status, fun msg hmsg => ?_⟩
    cases hmsg
    rw [Memory.length_window, dataLen]
    cases otaMode with
    | true => exact Nat.le_trans (Nat.le_of_eq (zero_add _)) (h behind)
    | false => exact Nat.add_le_add_left (h behind) 2

end Bounded

end AmebaRtos.Vb6824
