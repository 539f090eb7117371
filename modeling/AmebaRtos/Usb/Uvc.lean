import AmebaRtos.Lib.Memory
import AmebaRtos.Lib.Run
import AmebaRtos.Lib.Segment

/-!
# The UVC host: combining payload packets to frames

`usbh_uvc_combine_urb` appends the payloads of the packets of an URB to the current frame buffer
and puts the frame on `frame_chain` at a change of the frame ID or at the end-of-frame bit. A
packet with the error bit is dropped and marks the frame, in a variable that lives as long as the
URB is combined. `usbh_uvc_next_frame_buffer` puts the frame on the chain or drops it and finds
the next buffer, if need be by discarding the oldest frame of the chain.

`submitted` are the frames ever put on the chain, and `packets` the packets of the URBs;
`framesOf` divides these into frames.
-/

namespace AmebaRtos.Usb

open Lib

def USBH_UVC_VIDEO_FRAME_NUMS : Nat := 3

/-! ### Packets -/

/-- A packet of an URB: the bytes from `urb->addr + offset` on, and the length. -/
structure UvcPacket where
  data : Memory
  length : Nat

variable (p : UvcPacket)

namespace UvcPacket

def headerLen : Nat := (p.data 0).toNat

def bmHeaderInfo : UInt8 := p.data 1

def fid : UInt8 := p.bmHeaderInfo &&& 0x01

def eof : Bool := p.bmHeaderInfo &&& 0x02 != 0

def err : Bool := p.bmHeaderInfo &&& 0x40 != 0

def payload (p : UvcPacket) : List UInt8 := p.data.window p.headerLen (p.length - p.headerLen)

def usable : Bool := p.length != 0 && p.headerLen ≤ p.length

end UvcPacket

/-! ### Frame buffers -/

inductive UvcFrameState where
  | init
  | flying
  | ready
  | inuse
deriving DecidableEq

structure UvcFrame where
  index : Nat
  bytes : List UInt8
  err : Bool
  state : UvcFrameState

/-- `usbh_uvc_reset_frame`. -/
def UvcFrame.reset (f : UvcFrame) : UvcFrame := { f with err := false, bytes := [] }

/-- The part of `usbh_uvc_stream_t` that combining works on. `streaming` stands for the checks of
    the USB status, `next_xfer` and `is_resource_safe`, `inUse` for the application's frames. -/
structure UvcStream where
  frameBufferSize : Nat
  frameEmpty : List UvcFrame
  frameChain : List UvcFrame
  inUse : List UvcFrame
  curFrameBuf : Option UvcFrame
  lastFid : UInt8
  streaming : Bool
  submitted : List (List UInt8)
  packets : List UvcPacket

namespace UvcStream

/-- `usbh_uvc_stream_on` with buffers of `frameBufferSize` bytes. -/
def init (frameBufferSize : Nat) : UvcStream where
  frameBufferSize := frameBufferSize
  frameEmpty := (List.range USBH_UVC_VIDEO_FRAME_NUMS).map fun i => ⟨i, [], false, .init⟩
  frameChain := []
  inUse := []
  curFrameBuf := none
  lastFid := 0xFF
  streaming := true
  submitted := []
  packets := []

def discardable (f : UvcFrame) : Bool := f.state != .flying && f.state != .inuse

/-- `usbh_uvc_discard_oldest_frame`; `none` if no frame was discarded. -/
def discardOldestFrame (s : UvcStream) : Option UvcStream :=
  match s.frameChain.find? discardable with
  | none => none
  | some target =>
    some { s with
      frameChain := s.frameChain.eraseP discardable
      frameEmpty := s.frameEmpty ++ [{ target.reset with state := .init }] }

/-- The first part of `usbh_uvc_next_frame_buffer`: the frame is dropped or put on the chain. -/
def handleFrame (buf : UvcFrame) (s : UvcStream) : UvcStream :=
  if buf.err ∨ buf.bytes = [] then
    { s with frameEmpty := s.frameEmpty ++ [{ buf.reset with state := .init }] }
  else
    { s with
      frameChain := s.frameChain ++ [{ buf with state := .ready }]
      submitted := s.submitted ++ [buf.bytes] }

def takeEmpty (s : UvcStream) : UvcStream × Option UvcFrame :=
  match s.frameEmpty with
  | [] => (s, none)
  | f :: rest => ({ s with frameEmpty := rest }, some { f.reset with state := .flying })

/-- `usbh_uvc_next_frame_buffer`. -/
def nextFrameBuffer (buf : UvcFrame) (s : UvcStream) : UvcStream × Option UvcFrame :=
  let s := s.handleFrame buf
  if s.frameEmpty = [] then
    match s.discardOldestFrame with
    | none => (s, none)
    | some s => s.takeEmpty
  else s.takeEmpty

/-- The start of `usbh_uvc_combine_urb`. Without an empty buffer the URB is dropped, even if a frame
    could be discarded; `.error` is a return. -/
def acquire (s : UvcStream) : Except UvcStream (UvcStream × UvcFrame) :=
  match s.curFrameBuf with
  | some buf => .ok (s, buf)
  | none =>
    match s.frameEmpty with
    | [] => .error (s.discardOldestFrame.getD s)
    | f :: rest => .ok ({ s with frameEmpty := rest, curFrameBuf := some f.reset }, f.reset)

end UvcStream

/-! ### Combining an URB -/

/-- The loop of `usbh_uvc_combine_urb`: the stream, the frame that `frame_buffer` points to and
    the variable `err`. -/
structure Combine where
  stream : UvcStream
  frame : UvcFrame
  err : Bool

variable (c : Combine)

namespace Combine

/-- The frame is complete and the next buffer is taken; `.error` is a return without a buffer. -/
def submit : Except UvcStream Combine :=
  match c.stream.nextFrameBuffer { c.frame with err := c.err } with
  | (s, none) => .error { s with curFrameBuf := none }
  | (s, some buf) => .ok ⟨s, buf, false⟩

def setFid (fid : UInt8) (c : Combine) : Combine :=
  { c with stream := { c.stream with lastFid := fid } }

def checkFid : Except UvcStream Combine :=
  if p.fid ≠ c.stream.lastFid then
    if c.frame.bytes ≠ [] then
      match c.submit with
      | .error s => .error s
      | .ok c => .ok (c.setFid p.fid)
    else .ok { c.setFid p.fid with err := false }
  else .ok c

def copyPayload : Combine :=
  let maxlen := c.stream.frameBufferSize - c.frame.bytes.length
  { c with frame := { c.frame with bytes := c.frame.bytes ++ p.payload.take maxlen } }

def checkEof : Except UvcStream Combine :=
  if p.eof ∧ c.frame.bytes ≠ [] then c.submit else .ok c

/-- One pass of the loop. -/
def packet : Except UvcStream Combine :=
  if p.usable = false then .ok c
  else if p.err then .ok { c.setFid p.fid with err := true }
  else
    match c.checkFid p with
    | .error s => .error s
    | .ok c => (c.copyPayload p).checkEof p

def packets : List UvcPacket → Combine → Except UvcStream Combine
  | [], c => .ok c
  | p :: rest, c =>
    match c.packet p with
    | .error s => .error s
    | .ok c => packets rest c

end Combine

namespace UvcStream

/-- `usbh_uvc_combine_urb`. -/
def combineUrb (urb : List UvcPacket) (s : UvcStream) : UvcStream :=
  if s.streaming = false then s
  else
    match s.acquire with
    | .error s => s
    | .ok (s, buf) =>
      match Combine.packets urb ⟨s, buf, false⟩ with
      | .error s => s
      | .ok c => { c.stream with curFrameBuf := some c.frame }

/-- `usbh_uvc_get_frame`. -/
def getFrame (s : UvcStream) : UvcStream :=
  match s.frameChain with
  | [] => s
  | f :: rest => { s with frameChain := rest, inUse := s.inUse ++ [{ f with state := .inuse }] }

/-- `usbh_uvc_put_frame` of a frame that the application holds. -/
def putFrame (index : Nat) (s : UvcStream) : UvcStream :=
  match s.inUse.find? (·.index == index) with
  | none => s
  | some f =>
    { s with
      inUse := s.inUse.eraseP (·.index == index)
      frameEmpty := s.frameEmpty ++ [{ f.reset with state := .init }] }

end UvcStream

/-- An URB, a call of the application, or the end of the stream. -/
inductive UvcAction where
  | urb (packets : List UvcPacket)
  | getFrame
  | putFrame (index : Nat)
  | stop

def uvcStep (s : UvcStream) : UvcAction → UvcStream
  | .urb packets => { s.combineUrb packets with packets := s.packets ++ packets }
  | .getFrame => s.getFrame
  | .putFrame index => s.putFrame index
  | .stop => { s with streaming := false }

/-! ### Frames -/

def addPackets (frames : Segment UvcPacket) (packets : List UvcPacket) : Segment UvcPacket :=
  frames.addAll UvcPacket.fid UvcPacket.eof (packets.filter UvcPacket.usable)

def framesOf (packets : List UvcPacket) : Segment UvcPacket := addPackets Segment.empty packets

def frameBytes (frame : List UvcPacket) : List UInt8 := frame.flatMap UvcPacket.payload

def Intact (frameBufferSize : Nat) (frame : List UvcPacket) : Prop :=
  (∀ p ∈ frame, p.err = false) ∧ (frameBytes frame).length ≤ frameBufferSize
deriving Decidable

theorem framesOf_append :
    framesOf (packets ++ packets') = addPackets (framesOf packets) packets' := by
  simp [framesOf, addPackets, Segment.addAll]

end AmebaRtos.Usb
