import AmebaRtos.Hci.H4

/-!
# The reliable part of the H5 transport

An endpoint numbers its reliable packets modulo 8, keeps the ones without an acknowledgement in
`unack_queue` and sends all of them again when the retransmission timer expires. Every frame
carries the number of the next packet that its sender expects. Frames, timers and calls of
`bt_inic_send_to_host` can come between any two steps of `h5_thread`. The link is active, and the
channel hands over whole frames.
-/

namespace AmebaRtos.BtInic

open Hci

def H5_TX_WIN : Nat := 4

def HCI_3WIRE_ACK : UInt8 := 0x00
def HCI_3WIRE_LINK : UInt8 := 0x0f

def reliablePacket (type : UInt8) : Bool :=
  type == HCI_CMD || type == HCI_ACL || type == HCI_EVT || type == HCI_ISO || type == HCI_SCO

/-- A packet of the transmit queue, `struct h5_reliable_tx`. The length is an 8 bit number. -/
structure ReliableTx where
  type : UInt8
  len : UInt8
  buf : List UInt8
  reliable : reliablePacket type = true
  len_le : len.toNat ≤ buf.length
deriving DecidableEq

def ReliableTx.contents (tx : ReliableTx) : UInt8 × List UInt8 :=
  (tx.type, tx.buf.take tx.len.toNat)

/-- A frame: the header without its checksum, and the payload. -/
structure Frame where
  hdr0 : UInt8
  hdr1 : UInt8
  hdr2 : UInt8
  payload : List UInt8
deriving DecidableEq, Repr

variable (f : Frame)

namespace Frame

def H5_HDR_SEQ : UInt8 := f.hdr0 &&& 0x07

def H5_HDR_ACK : UInt8 := (f.hdr0 >>> 3) &&& 0x07

def H5_HDR_RELIABLE : Bool := (f.hdr0 >>> 7) &&& 0x01 == 1

def H5_HDR_PKT_TYPE : UInt8 := f.hdr1 &&& 0x0f

def H5_HDR_LEN : Nat := ((f.hdr1 >>> 4) &&& 0x0f).toNat + f.hdr2.toNat * 16

end Frame

/-- The steps of the loop in `h5_thread`. -/
inductive ThreadPc where
  | wait
  | rx
  | ack
  | retx
  | tx
deriving DecidableEq, Repr

/-- An endpoint. `received` are the packets passed to `bt_inic_recv_from_host`, `queued` those ever
    put in the transmit queue. `unackQueueLen` is a variable of the thread. -/
structure H5 where
  txWin : Nat
  txAck : UInt8
  txSeq : UInt8
  rxAck : UInt8
  unackQueue : List ReliableTx
  txQueue : List ReliableTx
  rxQueue : List Frame
  ackTimeoutFlag : Bool
  retxTimeoutFlag : Bool
  pc : ThreadPc
  unackQueueLen : Nat
  received : List (UInt8 × List UInt8)
  queued : List ReliableTx

variable (e : H5) (f : Frame)

/-- `h5_send`: the frame, and the endpoint with the next sequence number. -/
def h5Send (payload : List UInt8) (type : UInt8) (len : Nat) : H5 × Frame :=
  let ack := e.txAck <<< 3
  let hdr0 := if reliablePacket type then ack ||| 0x80 ||| e.txSeq else ack
  let frame := {
    hdr0 := hdr0
    hdr1 := type ||| UInt8.ofNat ((len &&& 0x0f) <<< 4)
    hdr2 := UInt8.ofNat (len >>> 4)
    payload := payload.take len }
  (if reliablePacket type then { e with txSeq := (e.txSeq + 1) % 8 } else e, frame)

/-- The first loop of `process_unack`: the number of packets that are acknowledged. -/
def unackedFrom : (num : Nat) → (nextSeq rxAck : UInt8) → Nat
  | 0, _, _ => 0
  | num + 1, nextSeq, rxAck =>
    if nextSeq = rxAck then num + 1 else unackedFrom num ((nextSeq - 1) &&& 0x07) rxAck

/-- `process_unack`: the acknowledged packets leave the queue. -/
def processUnack : H5 :=
  if e.unackQueue.length = 0 then e
  else
    let num := unackedFrom e.unackQueue.length e.txSeq e.rxAck
    if num = 0 then e else { e with unackQueue := e.unackQueue.drop num }

/-- The part of `process_rx` that follows the check of the sequence number. -/
def acceptRx : H5 :=
  let e := { e with rxAck := f.H5_HDR_ACK }
  if f.H5_HDR_PKT_TYPE = HCI_3WIRE_LINK then e
  else if reliablePacket f.H5_HDR_PKT_TYPE then
    { e with received := e.received ++ [(f.H5_HDR_PKT_TYPE, f.payload.take f.H5_HDR_LEN)] }
  else e

/-- `process_rx`: a reliable packet out of order is dropped. -/
def processRx : H5 :=
  if f.H5_HDR_RELIABLE then
    if f.H5_HDR_SEQ ≠ e.txAck then e else acceptRx { e with txAck := (e.txAck + 1) % 8 } f
  else acceptRx e f

/-- `h5_reliable_send`. The queue holds at most `H5_TX_WIN` packets. -/
def h5ReliableSend (tx : ReliableTx) : H5 × Frame :=
  let sent := h5Send e tx.buf tx.type tx.len.toNat
  (if sent.1.unackQueue.length < H5_TX_WIN then
      { sent.1 with unackQueue := sent.1.unackQueue ++ [tx] }
    else sent.1, sent.2)

def resend : List ReliableTx → H5 → H5 × List Frame
  | [], e => (e, [])
  | tx :: rest, e =>
    let sent := h5ReliableSend e tx
    let after := resend rest sent.1
    (after.1, sent.2 :: after.2)

/-- The sequence number in front of the last `num` packets. -/
def rewind : (num : Nat) → UInt8 → UInt8
  | 0, txSeq => txSeq
  | num + 1, txSeq => rewind num ((txSeq - 1) &&& 0x07)

def retransmit : H5 × List Frame :=
  resend e.unackQueue
    { e with unackQueue := [], txSeq := rewind e.unackQueue.length e.txSeq }

def threadRx : H5 × List Frame :=
  match e.rxQueue with
  | [] => ({ e with pc := .ack }, [])
  | f :: rest => (processUnack (processRx { e with rxQueue := rest } f), [])

def threadAck : H5 × List Frame :=
  if e.ackTimeoutFlag then
    let sent := h5Send e [] HCI_3WIRE_ACK 0
    ({ sent.1 with ackTimeoutFlag := false, pc := .retx }, [sent.2])
  else ({ e with pc := .retx }, [])

def threadRetx : H5 × List Frame :=
  let sent := if e.retxTimeoutFlag then retransmit e else (e, [])
  ({ sent.1 with
      retxTimeoutFlag := false, pc := .tx, unackQueueLen := sent.1.unackQueue.length }, sent.2)

def threadTx : H5 × List Frame :=
  if e.unackQueueLen < e.txWin then
    match e.txQueue with
    | [] => ({ e with pc := .wait }, [])
    | tx :: rest =>
      let sent := h5ReliableSend { e with txQueue := rest } tx
      ({ sent.1 with unackQueueLen := e.unackQueueLen + 1 }, [sent.2])
  else ({ e with pc := .wait }, [])

/-- One step of the loop in `h5_thread`, with the frames that it sends. -/
def h5Thread : H5 × List Frame :=
  match e.pc with
  | .wait => ({ e with pc := .rx }, [])
  | .rx => threadRx e
  | .ack => threadAck e
  | .retx => threadRetx e
  | .tx => threadTx e

structure HciPdu where
  type : UInt8
  data : List UInt8
  reliable : reliablePacket type = true
deriving DecidableEq

def HciPdu.tx (pdu : HciPdu) : ReliableTx where
  type := pdu.type
  len := UInt8.ofNat pdu.data.length
  buf := pdu.data
  reliable := pdu.reliable
  len_le := by
    rw [UInt8.toNat_ofNat']
    exact Nat.mod_le _ _

/-- `bt_inic_send_to_host`: the packet is lost to the caller when the queue is full. -/
def btInicSendToHost (pdu : HciPdu) : H5 :=
  if e.txQueue.length < H5_TX_WIN then
    { e with txQueue := e.txQueue ++ [pdu.tx], queued := e.queued ++ [pdu.tx] }
  else e

def ackTimerHdl : H5 := { e with ackTimeoutFlag := true }

def retxTimerHdl : H5 :=
  if e.unackQueue.length ≠ 0 then { e with retxTimeoutFlag := true } else e

/-- The end of a frame in `_uart_irq`. The receive queue holds at most `H5_TX_WIN` frames. -/
def frameReceived : H5 :=
  if e.rxQueue.length < H5_TX_WIN then { e with rxQueue := e.rxQueue ++ [f] } else e

/-- An endpoint with an active link. The window comes from the configuration message, whose field is
    a byte. -/
def H5.active (window : UInt8) : H5 where
  txWin := min H5_TX_WIN (window &&& 0x07).toNat
  txAck := 0
  txSeq := 0
  rxAck := 0
  unackQueue := []
  txQueue := []
  rxQueue := []
  ackTimeoutFlag := false
  retxTimeoutFlag := false
  pc := .wait
  unackQueueLen := 0
  received := []
  queued := []

/-! ### Two endpoints -/

inductive Side where
  | host
  | device
deriving DecidableEq, Repr

def Side.other : Side → Side
  | .host => .device
  | .device => .host

structure Net where
  ep : Side → H5
  wire : Side → List Frame

/-- What happens in a run. A frame on the way can be lost at any place. -/
inductive Event where
  | send (s : Side) (pdu : HciPdu)
  | thread (s : Side)
  | ackTimer (s : Side)
  | retxTimer (s : Side)
  | arrive (s : Side)
  | lose (s : Side) (i : Nat)

def Side.set {α : Type} (f : Side → α) (s : Side) (x : α) : Side → α :=
  fun s' => if s' = s then x else f s'

def Net.step (net : Net) : Event → Net
  | .send s pdu => { net with ep := Side.set net.ep s (btInicSendToHost (net.ep s) pdu) }
  | .thread s =>
    { ep := Side.set net.ep s (h5Thread (net.ep s)).1
      wire := Side.set net.wire s (net.wire s ++ (h5Thread (net.ep s)).2) }
  | .ackTimer s => { net with ep := Side.set net.ep s (ackTimerHdl (net.ep s)) }
  | .retxTimer s => { net with ep := Side.set net.ep s (retxTimerHdl (net.ep s)) }
  | .arrive s =>
    match net.wire s with
    | [] => net
    | f :: rest =>
      { ep := Side.set net.ep s.other (frameReceived (net.ep s.other) f)
        wire := Side.set net.wire s rest }
  | .lose s i => { net with wire := Side.set net.wire s ((net.wire s).eraseIdx i) }

def Net.start (window : Side → UInt8) : Net where
  ep := fun s => H5.active (window s)
  wire := fun _ => []

/-- What was received is the beginning of what the other endpoint queued, and at most a window is
    without an acknowledgement. -/
def Net.Safe (net : Net) : Prop :=
  ∀ s, (net.ep s.other).received <+: (net.ep s).queued.map ReliableTx.contents
    ∧ (net.ep s).unackQueue.length ≤ (net.ep s).txWin

end AmebaRtos.BtInic
