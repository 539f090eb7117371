import Mathlib.Data.List.Induction
import AmebaRtos.Vb6824.Uart

/-!
# The switch to OTA mode

`jl_ota_init` sets `f_is_ota_mode`. From then on the interrupt runs the packet machine, and
`vb6824_recv_routine` passes a buffer of 16 bytes instead of one for a frame. Nothing is reset:
the packet machine goes on with the status of the frame machine, the frames still in the message
buffer are met by receives for packets, and a receive for a frame that is already blocked takes
the first packet.

A run is any interleaving of received bytes, the switch and the steps of the task, which reads the
flag and then waits for a message.
-/

namespace AmebaRtos.Vb6824

open Lib List

/-- A message, with the mode in which it was made. -/
structure Msg where
  ota : Bool
  bytes : List UInt8
deriving DecidableEq

/-- Where `vb6824_recv_routine` is: about to read the flag, or in a receive. -/
inductive Consumer where
  | deciding
  | receiving (ota : Bool)
deriving DecidableEq

/-- The flag, the interrupt, the message buffer and the task; as trace the variables of the
    interrupt at the switch with the bytes received since, and what the last byte completed. -/
structure Receiver where
  otaMode : Bool
  uart : Uart
  queue : List Msg
  consumer : Consumer
  sinceSwitch : Option (Uart × List UInt8)
  reported : Option (List UInt8)

def Receiver.init : Receiver := ⟨false, .init, [], .deciding, none, none⟩

/-- `xMessageBufferSendFromISR` on 512 bytes: a message takes four bytes more than its length, and
    is dropped if it does not fit. -/
def sendFromISR (queue : List Msg) (msg : Msg) : List Msg :=
  if (queue.map (·.bytes.length + 4)).sum + (msg.bytes.length + 4) ≤ 512 then queue ++ [msg]
  else queue

inductive RecvEvent where
  | rx (input : UInt8)
  | jlOtaInit
  -- the task reads the flag; the receive finds a message
  | choose
  | receive
deriving DecidableEq

def receiverStep (s : Receiver) : RecvEvent → Receiver
  | .rx input =>
    match vb6824UartIrqHandler s.otaMode s.uart input with
    | (u, msg) =>
      { s with
        uart := u
        queue := match msg with
          | none => s.queue
          | some bytes => sendFromISR s.queue ⟨s.otaMode, bytes⟩
        sinceSwitch := s.sinceSwitch.map fun (v, bytes) => (v, bytes ++ [input])
        reported := msg }
  | .jlOtaInit =>
    { s with
      otaMode := true
      sinceSwitch := if s.otaMode then s.sinceSwitch else some (s.uart, []) }
  | .choose =>
    match s.consumer with
    | .deciding => { s with consumer := .receiving s.otaMode }
    | .receiving _ => s
  | .receive =>
    match s.consumer, s.queue with
    | .receiving ota, msg :: rest =>
      -- a message that is too long stays in the buffer
      { s with
        queue := if msg.bytes.length ≤ bufferSize ota then rest else msg :: rest
        consumer := .deciding }
    | _, _ => s

/-- The packet that ends `bytes` is the first one in them, whatever other bytes came before it. -/
def FirstPacket (bytes noise data : List UInt8) : Prop :=
  bytes = noise ++ jlPacket data ∧ data.length ≤ JL_DATA_MAX ∧
    ∀ noise' data' rest, bytes = noise' ++ jlPacket data' ++ rest → data'.length ≤ JL_DATA_MAX →
      noise.length ≤ noise'.length

/-- A receive meets messages of its mode that fit its buffer; and the first packet after the
    switch is recognised by its last byte. -/
structure ReceiveSafe (s : Receiver) : Prop where
  head : ∀ ota msg rest, s.consumer = .receiving ota → s.queue = msg :: rest →
    msg.ota = ota ∧ msg.bytes.length ≤ bufferSize ota
  first : ∀ v bytes noise data, s.sinceSwitch = some (v, bytes) → FirstPacket bytes noise data →
    s.reported = some data

/-- The switch happens while no longer frame is pending, with no message left, and while the task
    is not in a receive for a frame. -/
def SwitchCond (s : Receiver) : RecvEvent → Prop
  | .jlOtaInit => s.otaMode = false →
      s.uart.Bounded JL_DATA_MAX ∧ s.queue = [] ∧ s.consumer ≠ .receiving false
  | _ => True

/-- When the first byte of the first packet arrived, the machine was between packets; `input` is
    the last byte of that packet. -/
def PacketCond (s : Receiver) : RecvEvent → Prop
  | .rx input => ∀ v bytes noise data, s.sinceSwitch = some (v, bytes) →
      FirstPacket (bytes ++ [input]) noise data → (feed true v noise).1.status = 0
  | _ => True

/-! ### The packet machine after the switch -/

/-- A packet machine in status 0 has no checksum of an earlier packet. -/
def Uart.Cleared (u : Uart) : Prop := u.status = 0 → u.jlChecksum = 0

theorem cleared_irq (u : Uart) (input : UInt8) : (vb6824UartIrqHandler true u input).1.Cleared := by
  change (jlOtaUartFiniteStateMachine u input).1.Cleared
  unfold jlOtaUartFiniteStateMachine Uart.Cleared
  dsimp only
  split_ifs <;>
    first
    | exact fun _ => rfl
    | exact fun hstatus => absurd hstatus (Nat.succ_ne_zero _)

theorem cleared_feed (h : u.Cleared) (bytes : List UInt8) : (feed true u bytes).1.Cleared := by
  induction bytes generalizing u with
  | nil => exact h
  | cons input rest ih => exact ih (cleared_irq u input)

/-- The last byte of a packet reports it, if the machine was between packets. -/
theorem packet_reported (h : (feed true u noise).1.JlReady) (hlen : data.length ≤ JL_DATA_MAX)
    (hbytes : front ++ [input] = noise ++ jlPacket data) :
    (vb6824UartIrqHandler true (feed true u front).1 input).2 = some data := by
  obtain ⟨u', hbody, hstatus, hsum, hmsg⟩ := feed_jlBody h hlen
  have hsplit : noise ++ jlPacket data = (noise ++ (jlBody data ++
      [(crc16Ccitt (jlBody data)).toUInt8])) ++ [(crc16Ccitt (jlBody data) >>> 8).toUInt8] := by
    rw [jlPacket, append_assoc, append_assoc]
    rfl
  obtain ⟨rfl, hinput⟩ := append_inj' (hbytes.trans hsplit) rfl
  cases hinput
  have hhigh := @jl_checksumHigh
    { u' with
      status := u'.status + 1
      targetChecksum := (crc16Ccitt (jlBody data)).toUInt8.toUInt16 }
    (by simp only [hstatus]; omega) (crc16Ccitt (jlBody data) >>> 8).toUInt8
  simp only [feed_append, hbody, feed, jl_checksumLow hstatus, hhigh]
  rw [u16_join, hsum, if_pos rfl, hmsg]

/-- A machine in status `k` was between packets `k` bytes ago. -/
theorem status_start (bytes : List UInt8) (hlen : (feed true u bytes).1.status ≤ bytes.length) :
    (feed true u (bytes.take (bytes.length - (feed true u bytes).1.status))).1.status = 0 := by
  induction bytes using List.reverseRecOn with
  | nil =>
    rw [take_nil]
    exact Nat.le_zero.mp hlen
  | append_singleton front input ih =>
    obtain ⟨v, success, heffect, hirq⟩ := irq_effect true (feed true u front).1 input
    have hfeed : (feed true u (front ++ [input])).1 = v := by
      simp only [feed_append, feed, hirq]
    rw [hfeed] at hlen ⊢
    cases heffect with
    | reset _ status => rw [status, Nat.sub_zero, take_length, hfeed, status]
    | message _ status => rw [status, Nat.sub_zero, take_length, hfeed, status]
    | next _ status =>
      rw [status, length_append, length_singleton] at hlen ⊢
      have hkeep : front.length + 1 - ((feed true u front).1.status + 1) ≤ front.length := by omega
      rw [take_append_of_le_length hkeep, Nat.add_sub_add_right]
      exact ih (by omega)

/-- A packet reported by its last byte met the machine between packets. -/
theorem reported_start (hbytes : front ++ [input] = noise ++ jlPacket data)
    (hreported : (vb6824UartIrqHandler true (feed true u front).1 input).2 = some data) :
    (feed true u noise).1.status = 0 := by
  obtain ⟨v, success, heffect, hirq⟩ := irq_effect true (feed true u front).1 input
  rw [hirq] at hreported
  cases heffect with
  | reset => cases hreported
  | next => cases hreported
  | message _ _ _ last dataLen =>
    have hmsg := congrArg length (Option.some.inj hreported)
    rw [Memory.length_window, dataLen] at hmsg
    have hmsg : 0 + (feed true u front).1.dataLen.toNat = data.length := hmsg
    have hlast : (feed true u front).1.status = data.length + 5 := by
      rw [← hmsg, zero_add]
      exact last
    have hlength := congrArg length hbytes
    have hpacket : (jlPacket data).length = data.length + 6 := by
      simp only [jlPacket, jlBody, length_append, length_cons, length_nil]
      omega
    rw [length_append, length_append, length_singleton, hpacket] at hlength
    have hstart := status_start (u := u) front (by omega)
    have hnoise : front.take (front.length - (feed true u front).1.status) = noise := by
      have htake := congrArg (take noise.length) hbytes
      rw [take_left, take_append_of_le_length (by omega)] at htake
      rw [← htake]
      congr 1
      omega
    rwa [hnoise] at hstart

/-! ### The invariant -/

/-- Everything belongs to the current mode, and the packet machine has taken the bytes since the
    switch. -/
structure Separate (s : Receiver) : Prop where
  bounded : s.uart.Bounded (dataMax s.otaMode)
  queue : ∀ msg ∈ s.queue, msg.ota = s.otaMode ∧ msg.bytes.length ≤ bufferSize s.otaMode
  consumer : ∀ ota, s.consumer = .receiving ota → ota = s.otaMode
  before : s.otaMode = false → s.uart.jlChecksum = 0 ∧ s.sinceSwitch = none
  after : s.otaMode = true → ∃ v bytes, v.Cleared ∧ s.sinceSwitch = some (v, bytes) ∧
    (feed true v bytes).1 = s.uart
  first : ∀ v bytes noise data, s.sinceSwitch = some (v, bytes) → FirstPacket bytes noise data →
    s.reported = some data

section Steps

theorem separate_init : Separate .init where
  bounded := bounded_of_ready rfl
  queue := fun _ hmsg => absurd hmsg not_mem_nil
  consumer := nofun
  before := fun _ => ⟨rfl, rfl⟩
  after := nofun
  first := nofun

theorem Separate.safe (h : Separate s) : ReceiveSafe s := by
  refine ⟨fun ota msg rest hconsumer hqueue => ?_, h.first⟩
  rw [h.consumer ota hconsumer]
  exact h.queue msg (hqueue ▸ (.head _))

theorem frame_jlChecksum : (vb6824UartIrqHandler false u input).1.jlChecksum = u.jlChecksum := by
  change (vb6824UartFiniteStateMachine u input).1.jlChecksum = u.jlChecksum
  unfold vb6824UartFiniteStateMachine
  dsimp only
  split_ifs <;> rfl

theorem mem_sendFromISR (h : msg' ∈ sendFromISR queue msg) : msg' ∈ queue ∨ msg' = msg := by
  unfold sendFromISR at h
  split at h
  · rcases mem_append.mp h with hold | hlast
    · exact .inl hold
    · exact .inr (mem_singleton.mp hlast)
  · exact .inl h

theorem Separate.switched (h : Separate s) (hsince : s.sinceSwitch = some (v, bytes)) :
    s.otaMode = true ∧ v.Cleared ∧ (feed true v bytes).1 = s.uart := by
  rcases Bool.eq_false_or_eq_true s.otaMode with hmode | hmode
  · obtain ⟨v', bytes', hcleared, hsince', hfeed⟩ := h.after hmode
    cases hsince.symm.trans hsince'
    exact ⟨hmode, hcleared, hfeed⟩
  · cases hsince.symm.trans (h.before hmode).2

theorem Separate.rx (h : Separate s) (hcond : PacketCond s (.rx input)) :
    Separate (receiverStep s (.rx input)) := by
  obtain ⟨hbounded, hmsg⟩ := irq_bounded h.bounded input
  constructor
  case bounded => exact hbounded
  case queue =>
    intro msg hmem
    simp only [receiverStep] at hmem ⊢
    cases hirq : (vb6824UartIrqHandler s.otaMode s.uart input).2 with
    | none =>
      rw [hirq] at hmem
      exact h.queue msg hmem
    | some bytes =>
      rw [hirq] at hmem
      rcases mem_sendFromISR hmem with hold | rfl
      · exact h.queue msg hold
      · exact ⟨rfl, hmsg bytes hirq⟩
  case consumer => exact h.consumer
  case before =>
    intro hmode
    have hmode : s.otaMode = false := hmode
    obtain ⟨hcrc, hsince⟩ := h.before hmode
    simp only [receiverStep, hmode, hsince, Option.map_none, and_true]
    rw [frame_jlChecksum, hcrc]
  case after =>
    intro hmode
    have hmode : s.otaMode = true := hmode
    obtain ⟨v, bytes, hcleared, hsince, hfeed⟩ := h.after hmode
    refine ⟨v, bytes ++ [input], hcleared, ?_, ?_⟩
    · simp only [receiverStep, hsince, Option.map_some]
    · simp only [receiverStep, feed_append, feed, hfeed, hmode]
  case first =>
    intro v bytes noise data hbytes hfirst
    obtain ⟨⟨v', front⟩, hsince, hmap⟩ := Option.map_eq_some_iff.mp hbytes
    cases hmap
    obtain ⟨hmode, hcleared, hfeed⟩ := h.switched hsince
    have hstart := hcond v front noise data hsince hfirst
    have hready : (feed true v noise).1.JlReady := ⟨hstart, cleared_feed hcleared noise hstart⟩
    have hreported := packet_reported hready hfirst.2.1 hfirst.1
    rw [hfeed] at hreported
    simp only [receiverStep, hmode]
    exact hreported

theorem Separate.jlOtaInit (h : Separate s) (hcond : SwitchCond s .jlOtaInit) :
    Separate (receiverStep s .jlOtaInit) := by
  rcases Bool.eq_false_or_eq_true s.otaMode with hmode | hmode
  · have hsame : receiverStep s .jlOtaInit = s := by
      simp only [receiverStep, hmode, if_true]
      rw [← hmode]
    rw [hsame]
    exact h
  obtain ⟨hbounded, hqueue, hconsumer⟩ := hcond hmode
  constructor
  case bounded => exact hbounded
  case queue =>
    intro msg hmem
    have hmem : msg ∈ s.queue := hmem
    rw [hqueue] at hmem
    exact absurd hmem not_mem_nil
  case consumer =>
    intro ota hreceiving
    have hota := h.consumer ota hreceiving
    rw [hota, hmode] at hreceiving
    exact absurd hreceiving hconsumer
  case before => exact nofun
  case after =>
    intro _
    refine ⟨s.uart, [], fun _ => (h.before hmode).1, ?_, rfl⟩
    simp only [receiverStep, hmode, Bool.false_eq_true, if_false]
  case first =>
    intro v bytes noise data hbytes hfirst
    simp only [receiverStep, hmode, Bool.false_eq_true, if_false] at hbytes
    cases hbytes
    exact absurd hfirst.1 (by simp [jlPacket])

theorem Separate.choose (h : Separate s) : Separate (receiverStep s .choose) := by
  simp only [receiverStep]
  split
  · refine { h with consumer := ?_ }
    intro ota hreceiving
    cases hreceiving
    rfl
  · exact h

theorem Separate.receive (h : Separate s) : Separate (receiverStep s .receive) := by
  simp only [receiverStep]
  split
  · rename_i ota msg rest _ hqueue
    refine { h with queue := ?_, consumer := nofun }
    intro msg' hmem
    apply h.queue
    rw [hqueue]
    split at hmem
    · exact .tail _ hmem
    · exact hmem
  · exact h

/-- **One step** keeps the modes apart when the switch happens in a quiet moment. -/
theorem separate_step (s : Receiver) (ev : RecvEvent) (h : Separate s) (hswitch : SwitchCond s ev)
    (hcond : PacketCond s ev) : Separate (receiverStep s ev) := by
  cases ev with
  | rx input => exact h.rx hcond
  | jlOtaInit => exact h.jlOtaInit hswitch
  | choose => exact h.choose
  | receive => exact h.receive

/-- A first packet that meets the machine in the middle of another one is lost. -/
theorem Separate.packetCond (h : Separate s) (hsafe : ReceiveSafe (receiverStep s ev)) :
    PacketCond s ev := by
  cases ev with
  | rx input =>
    intro v bytes noise data hsince hfirst
    have hreported := hsafe.first v (bytes ++ [input]) noise data
      (by simp only [receiverStep, hsince, Option.map_some]) hfirst
    obtain ⟨hmode, _, hfeed⟩ := h.switched hsince
    simp only [receiverStep, hmode, ← hfeed] at hreported
    exact reported_start hfirst.1 hreported
  | jlOtaInit => trivial
  | choose => trivial
  | receive => trivial

end Steps

/-- **The switch.** If it happens with an empty message buffer, no receive for a frame and no
    longer frame pending, then no message crosses it, and the first packet is recognised exactly
    if its first byte meets the machine between packets. -/
theorem receive_safe (events : List RecvEvent)
    (hswitch : Along receiverStep SwitchCond .init events) :
    Throughout receiverStep ReceiveSafe .init events ↔
      Along receiverStep PacketCond .init events :=
  throughout_iff_along_under (fun _ h => h.safe) separate_step
    (fun _ _ h _ hsafe => h.packetCond hsafe) separate_init hswitch

/-- Where a packet could begin. -/
def Marked (bytes : List UInt8) (k : Nat) : Prop := (bytes.drop k).take 2 = [0xAA, 0x55]

instance : DecidablePred (Marked bytes) := fun _ => inferInstanceAs (Decidable (_ = _))

theorem marked_of_packet (h : bytes = noise ++ jlPacket data ++ rest) :
    Marked bytes noise.length := by
  rw [h, Marked, append_assoc, drop_left]
  rfl

/-- The first two bytes of a frame have been received when the switch happens; the rest of it and
    a packet follow. -/
def quietSwitch : List RecvEvent :=
  [.rx 0x55, .rx 0xAA, .jlOtaInit, .choose] ++ [0, 1, 0x20, 0x80, 7, 0xA7].map .rx ++
    (jlPacket [1, 2]).map .rx ++ [.receive]

/-- The switch and the bytes behind it leave the machine between packets wherever one could
    begin. -/
def QuietCond (s : Receiver) : RecvEvent → Prop
  | .jlOtaInit => s.uart.status < 4 ∧ s.queue = [] ∧ s.consumer ≠ .receiving false
  | .rx input => ∀ since ∈ s.sinceSwitch, ∀ k < since.2.length + 1,
      Marked (since.2 ++ [input]) k →
        (feed true since.1 ((since.2 ++ [input]).take k)).1.status = 0
  | _ => True

theorem conds_of_quiet (s : Receiver) (ev : RecvEvent) (h : QuietCond s ev) :
    SwitchCond s ev ∧ PacketCond s ev := by
  cases ev with
  | jlOtaInit => exact ⟨fun _ => ⟨fun hlo => absurd h.1 (Nat.not_lt.mpr hlo), h.2⟩, trivial⟩
  | rx input =>
    refine ⟨trivial, fun v bytes noise data hsince hfirst => ?_⟩
    have hmarked : Marked (bytes ++ [input]) noise.length :=
      marked_of_packet (hfirst.1.trans (append_nil _).symm)
    have hlen := congrArg length hfirst.1
    have hpos : 0 < (jlPacket data).length := Nat.succ_pos _
    rw [length_append, length_append, length_singleton] at hlen
    have hshort : noise.length < bytes.length + 1 := by omega
    have hstatus := h (v, bytes) hsince noise.length hshort hmarked
    rwa [hfirst.1, take_left] at hstatus
  | choose => exact ⟨trivial, trivial⟩
  | receive => exact ⟨trivial, trivial⟩

instance : ∀ ev, Decidable (QuietCond s ev)
  | .jlOtaInit => inferInstanceAs (Decidable (_ ∧ _))
  | .rx _ => inferInstanceAs (Decidable (∀ _ ∈ _, _))
  | .choose => isTrue trivial
  | .receive => isTrue trivial

theorem quietSwitch_safe : Throughout receiverStep ReceiveSafe .init quietSwitch := by
  have hquiet : Along receiverStep QuietCond .init quietSwitch := by decide +kernel
  exact (receive_safe quietSwitch (hquiet.mono fun s ev h => (conds_of_quiet s ev h).1)).mpr
    (hquiet.mono fun s ev h => (conds_of_quiet s ev h).2)

theorem ReceiveSafe.reports (h : ReceiveSafe s) (noise data : List UInt8)
    (hbytes : s.sinceSwitch.map Prod.snd = some (noise ++ jlPacket data))
    (hfirst : FirstPacket (noise ++ jlPacket data) noise data) : s.reported = some data := by
  obtain ⟨⟨v, bytes⟩, hsince, rfl⟩ := Option.map_eq_some_iff.mp hbytes
  exact h.first v _ noise data hsince hfirst

/-- A frame of 20 bytes has been received when the switch happens. -/
def pendingMessage : List RecvEvent :=
  (frame ⟨0, VB6824_CMD_PLAY, List.replicate 20 0⟩).map .rx ++ [.jlOtaInit, .choose]

/-- The first byte of a frame has been received when the switch happens. -/
def pendingFrame : List RecvEvent :=
  [.rx 0x55, .jlOtaInit] ++ (jlPacket [1, 2]).map .rx

/-- The task waits for a frame when the switch happens, and a packet comes. -/
def pendingReceive : List RecvEvent :=
  [.choose, .jlOtaInit] ++ (jlPacket [1, 2]).map .rx

/-- The switch happens in a quiet moment. A frame follows whose checksum is the first byte of a
    packet, and then a packet. -/
def lateFrame : List RecvEvent :=
  [.jlOtaInit] ++ [0x55, 0xAA, 0, 1, 0x20, 0x80, 0x0A, 0xAA].map .rx ++ (jlPacket [1, 2]).map .rx

/-- A receive for a packet meets a frame, which does not fit; the packet is not recognised; a
    receive for a frame meets a packet; the packet behind a frame is not recognised. -/
theorem modes_mixed : ¬ ReceiveSafe (pendingMessage.foldl receiverStep .init) ∧
    ¬ ReceiveSafe (pendingFrame.foldl receiverStep .init) ∧
    ¬ ReceiveSafe (pendingReceive.foldl receiverStep .init) ∧
    ¬ ReceiveSafe (lateFrame.foldl receiverStep .init) := by
  refine ⟨fun hsafe => ?_, fun hsafe => ?_, fun hsafe => ?_, fun hsafe => ?_⟩
  · have hhead := hsafe.head true ⟨false, [0x81, 0x20] ++ List.replicate 20 0⟩ []
      (by decide +kernel) (by decide +kernel)
    exact absurd hhead.1 Bool.false_ne_true
  · apply absurd (hsafe.reports [] [1, 2] _ _)
    · decide +kernel
    · decide +kernel
    · exact ⟨rfl, by decide, fun _ _ _ _ _ => Nat.zero_le _⟩
  · have hhead := hsafe.head false ⟨true, [1, 2]⟩ [] (by decide +kernel) (by decide +kernel)
    exact absurd hhead.1.symm Bool.false_ne_true
  · apply absurd (hsafe.reports [0x55, 0xAA, 0, 1, 0x20, 0x80, 0x0A, 0xAA] [1, 2] _ _)
    · decide +kernel
    · decide +kernel
    · refine ⟨rfl, by decide, fun noise' data' rest hbytes _ => ?_⟩
      by_contra hlt
      have hnone : ∀ k < 8, ¬ Marked
          ([0x55, 0xAA, 0, 1, 0x20, 0x80, 0x0A, 0xAA] ++ jlPacket [1, 2]) k := by
        decide +kernel
      exact hnone _ (Nat.lt_of_not_le hlt) (marked_of_packet hbytes)

end AmebaRtos.Vb6824
