import AmebaRtos.Lib.Run

/-!
# The H4 receiver of the HCI transport

`hci_uart_rx_irq_handler` reads the byte stream of the controller in four states: the packet type,
the header, the body, and the rest of a packet that is dropped. Events and data packets take their
buffer from two pools. When the pool is empty, an advertising report is dropped, and for every
other packet the reception is paused until `hci_rx_pkt_free` gives a buffer back. A packet is
modelled by its value, so a buffer is only counted.
-/

namespace AmebaRtos.Hci

def HCI_CMD : UInt8 := 0x01
def HCI_ACL : UInt8 := 0x02
def HCI_SCO : UInt8 := 0x03
def HCI_EVT : UInt8 := 0x04
def HCI_ISO : UInt8 := 0x05

def BT_HCI_EVT_LE_META_EVENT : UInt8 := 0x3e
def BT_HCI_EVT_LE_ADVERTISING_REPORT : UInt8 := 0x02
def BT_HCI_EVT_LE_EXT_ADVERTISING_REPORT : UInt8 := 0x0d

def CONFIG_HCI_RX_EVT_BUF_LEN : Nat := 260
def CONFIG_HCI_RX_EVT_NUM : Nat := 8
def CONFIG_HCI_RX_DATA_NUM : Nat := 8

def CONFIG_HCI_RX_DATA_BUF_LEN (dualMode : Bool) : Nat := if dualMode then 1056 else 288

def hciGetHdrLen (type : UInt8) : Nat :=
  if type = HCI_CMD then 3
  else if type = HCI_EVT then 2
  else if type = HCI_ACL then 4
  else if type = HCI_ISO then 4
  else if type = HCI_SCO then 3
  else 0

variable (bytes : List UInt8)

def byteAt (i : Nat) : Nat := (bytes.getD i 0).toNat

def hciGetBodyLen (hdr : List UInt8) (type : UInt8) : Nat :=
  if type = HCI_CMD then byteAt hdr 2
  else if type = HCI_EVT then byteAt hdr 1
  else if type = HCI_ISO then (byteAt hdr 2 + 256 * byteAt hdr 3) &&& 0x3FFF
  else if type = HCI_ACL then byteAt hdr 2 + 256 * byteAt hdr 3
  else if type = HCI_SCO then byteAt hdr 2
  else 0

/-- The two pools of receive buffers, `rx_evt_free` and `rx_data_free`. -/
inductive Pool where
  | evt
  | data
deriving DecidableEq, Repr

def Pool.size : Pool → Nat
  | .evt => CONFIG_HCI_RX_EVT_NUM
  | .data => CONFIG_HCI_RX_DATA_NUM

def poolOf (type : UInt8) : Pool := if type = HCI_EVT then .evt else .data

def Pool.set (f : Pool → Nat) (pool : Pool) (n : Nat) : Pool → Nat :=
  fun other => if other = pool then n else f other

inductive RxState where
  | idle
  | hdr
  | payload
  | discard
deriving DecidableEq, Repr

/-- A packet of the receiver. Of its buffer the first `len` bytes are the packet. -/
structure RxPacket where
  type : UInt8
  discardable : Bool
  len : Nat
  buf : List UInt8
deriving DecidableEq, Repr

/-- The receiver. `free` counts the buffers of the two pools and `busy` holds the packets sent to
    the stack, the oldest first. -/
structure H4 where
  state : RxState
  remain : Nat
  hdr : List UInt8
  hlen : Nat
  bodyLen : Nat
  pkt : RxPacket
  type : UInt8
  isLeMetaEvt : Bool
  discardable : Bool
  rxDisabled : Bool
  free : Pool → Nat
  busy : List RxPacket

variable (p : HciPacket) (h4 : H4) (fifo bytes : List UInt8)

section Receiver

variable (dualMode : Bool)

def hciRxBufSize (type : UInt8) : Nat :=
  if type = HCI_EVT then CONFIG_HCI_RX_EVT_BUF_LEN else CONFIG_HCI_RX_DATA_BUF_LEN dualMode

def store (buf : List UInt8) (offset : Nat) (bytes : List UInt8) : List UInt8 :=
  buf.take offset ++ bytes

/-- State `ST_IDLE`: the packet type is read. An unknown type is skipped. -/
def rxIdle : H4 × List UInt8 :=
  match fifo with
  | [] => ({ h4 with discardable := false, isLeMetaEvt := false }, [])
  | type :: rest =>
    let h4 := { h4 with
      discardable := false, isLeMetaEvt := false, type := type, hlen := hciGetHdrLen type }
    if h4.hlen ≠ 0 then ({ h4 with remain := h4.hlen, state := .hdr }, rest) else (h4, rest)

/-- The header of an LE meta event is read once more: its first parameter, the subevent, is then
    taken as a part of it. -/
def rxSubevent : H4 :=
  if h4.type = HCI_EVT ∧ h4.hlen = hciGetHdrLen HCI_EVT ∧ h4.remain < h4.hlen
      ∧ h4.hdr.getD 0 0 = BT_HCI_EVT_LE_META_EVENT then
    { h4 with isLeMetaEvt := true, remain := h4.remain + 1, hlen := h4.hlen + 1 }
  else h4

def rxLengths : H4 :=
  let h4 := { h4 with bodyLen := hciGetBodyLen h4.hdr h4.type }
  if h4.isLeMetaEvt then
    -- the body length is a 16 bit number
    { h4 with
      bodyLen := (h4.bodyLen + 65535) % 65536
      discardable := h4.discardable ||
        (h4.hdr.getD (h4.hlen - 1) 0 == BT_HCI_EVT_LE_ADVERTISING_REPORT
          || h4.hdr.getD (h4.hlen - 1) 0 == BT_HCI_EVT_LE_EXT_ADVERTISING_REPORT) }
  else h4

def rxPktInit : H4 :=
  { h4 with
    pkt := {
      type := h4.type, discardable := h4.discardable, len := h4.hlen + h4.bodyLen
      buf := h4.hdr.take h4.hlen }
    free := Pool.set h4.free (poolOf h4.type) (h4.free (poolOf h4.type) - 1) }

def rxSend : H4 := { h4 with busy := h4.busy ++ [h4.pkt], state := .idle }

def rxAlloc : H4 :=
  if 0 < h4.free (poolOf h4.type) then
    if h4.bodyLen = 0 then rxSend (rxPktInit h4)
    else { rxPktInit h4 with remain := h4.bodyLen, state := .payload }
  else if h4.discardable then { h4 with remain := h4.bodyLen, state := .discard }
  else { h4 with rxDisabled := true }

def rxHdrDone (h4 : H4) : H4 :=
  let bodyLen := hciGetBodyLen h4.hdr h4.type
  if hciRxBufSize dualMode h4.type < bodyLen + h4.hlen then
    { h4 with bodyLen := bodyLen, remain := bodyLen, state := .discard }
  else rxAlloc (rxLengths h4)

def rxHdrBytes : H4 :=
  rxSubevent { h4 with
    hdr := store h4.hdr (h4.hlen - h4.remain) bytes, remain := h4.remain - bytes.length }

/-- State `ST_HDR`. -/
def rxHdr (h4 : H4) (fifo : List UInt8) : H4 × List UInt8 :=
  let h4' := rxHdrBytes h4 (fifo.take h4.remain)
  (if h4'.remain = 0 then rxHdrDone dualMode h4' else h4', fifo.drop h4.remain)

def rxBodyBytes : H4 :=
  { h4 with
    pkt := { h4.pkt with buf := store h4.pkt.buf (h4.hlen + h4.bodyLen - h4.remain) bytes }
    remain := h4.remain - bytes.length }

/-- State `ST_PAYLOAD`. -/
def rxPayload : H4 × List UInt8 :=
  let h4' := rxBodyBytes h4 (fifo.take h4.remain)
  (if h4'.remain = 0 then rxSend h4' else h4', fifo.drop h4.remain)

/-- State `ST_DISCARD`: at most 32 bytes are read in one call. -/
def rxDiscard : H4 × List UInt8 :=
  let len := if 32 < h4.remain then 32 else h4.remain
  let h4' : H4 := { h4 with remain := h4.remain - (fifo.take len).length }
  (if h4'.remain = 0 then { h4' with state := .idle } else h4', fifo.drop len)

/-- `hci_uart_rx_irq_handler`: one call with the bytes that can be read, and the bytes that are
    left. -/
def hciUartRxIrqHandler (fromIrq : Bool) (h4 : H4) (fifo : List UInt8) : H4 × List UInt8 :=
  if fromIrq ∧ h4.rxDisabled then (h4, fifo)
  else match h4.state with
    | .idle => rxIdle h4 fifo
    | .hdr => rxHdr dualMode h4 fifo
    | .payload => rxPayload h4 fifo
    | .discard => rxDiscard h4 fifo

/-- `hci_rx_pkt_free`: a buffer goes back to its pool, and a paused reception goes on. -/
def hciRxPktFree (pool : Pool) (h4 : H4) (fifo : List UInt8) : H4 × List UInt8 :=
  if pool.size ≤ h4.free pool then (h4, fifo)
  else
    let h4 := { h4 with free := Pool.set h4.free pool (h4.free pool + 1) }
    if h4.rxDisabled then
      let after := hciUartRxIrqHandler dualMode false h4 fifo
      ({ after.1 with rxDisabled := false }, after.2)
    else (h4, fifo)

/-- The receiver as `hci_transport_open` leaves it. -/
def hciTransportOpen : H4 where
  state := .idle
  remain := 0
  hdr := []
  hlen := 0
  bodyLen := 0
  pkt := ⟨0, false, 0, []⟩
  type := 0
  isLeMetaEvt := false
  discardable := false
  rxDisabled := false
  free := Pool.size
  busy := []

/-! ### The packets of the stream -/

structure HciPacket where
  type : UInt8
  bytes : List UInt8
deriving DecidableEq, Repr

namespace HciPacket

def encode : List UInt8 := p.type :: p.bytes

def IsLeMeta : Prop :=
  p.type = HCI_EVT ∧ p.bytes.getD 0 0 = BT_HCI_EVT_LE_META_EVENT
deriving Decidable

def IsAdvReport : Prop :=
  p.IsLeMeta ∧ (p.bytes.getD 2 0 = BT_HCI_EVT_LE_ADVERTISING_REPORT
    ∨ p.bytes.getD 2 0 = BT_HCI_EVT_LE_EXT_ADVERTISING_REPORT)
deriving Decidable

/-- The packet has a known type and the length that its header gives, and an LE meta
    event has a subevent. -/
structure WellFormed (p : HciPacket) : Prop where
  known : hciGetHdrLen p.type ≠ 0
  length : p.bytes.length = hciGetHdrLen p.type + hciGetBodyLen p.bytes p.type
  subevent : p.IsLeMeta → hciGetBodyLen p.bytes p.type ≠ 0

instance (p : HciPacket) : Decidable p.WellFormed :=
  decidable_of_iff (hciGetHdrLen p.type ≠ 0
      ∧ p.bytes.length = hciGetHdrLen p.type + hciGetBodyLen p.bytes p.type
      ∧ (p.IsLeMeta → hciGetBodyLen p.bytes p.type ≠ 0))
    ⟨fun h => ⟨h.1, h.2.1, h.2.2⟩, fun h => ⟨h.known, h.length, h.subevent⟩⟩

def Fits (p : HciPacket) : Prop := p.bytes.length ≤ hciRxBufSize dualMode p.type
deriving Decidable

def hlen : Nat := if p.IsLeMeta then 3 else hciGetHdrLen p.type

end HciPacket

def RxPacket.contents (pkt : RxPacket) : HciPacket := ⟨pkt.type, pkt.buf.take pkt.len⟩

def encodeAll (pkts : List HciPacket) : List UInt8 := pkts.flatMap HciPacket.encode

theorem encodeAll_eq_nil (h : encodeAll pkts = []) : pkts = [] := by
  cases pkts with
  | nil => rfl
  | cons p rest => exact absurd h (List.cons_ne_nil _ _)

end Receiver

end AmebaRtos.Hci
