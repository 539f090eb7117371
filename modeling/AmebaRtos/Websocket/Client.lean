import AmebaRtos.Lib.Run
import AmebaRtos.Websocket.Header

/-!
# The WebSocket client

`ws_poll`, `ws_dispatchBinary`, `ws_sendData` and `ws_close` of one connection, as steps that can
follow each other in any order the code allows. `ws_poll` is cut at its socket calls and at the
frames that it dispatches, so that other tasks can send and close in between: its phases are the
read loop, the dispatch loop and the loop over the queue.

`pending` is what the server has sent and the client has not read. Every frame of the client is
numbered in `frames`, and `written` is what the socket has taken, each byte with the number of its
frame. `cutShort` records that the socket has taken a part of a frame that is not resumed.
`wsclient_reallength` is the length of `receivedData`.
-/

namespace AmebaRtos.Websocket

open Lib Lib.WebSocket

inductive ReadyState where
  | closing
  | closed
  | connecting
  | opened
deriving DecidableEq

/-- `send_buf`; the frame in it is `frames[no]`. -/
structure SendBuf where
  txbuf : List UInt8
  sendOffset : Nat
  no : Nat
deriving DecidableEq

/-- Where `ws_poll` is; `writable` is what `select` has said. -/
inductive Phase where
  | idle
  | reading (writable : Bool)
  | dispatching (writable : Bool)
  | sending
deriving DecidableEq

/-- What the receive callback is given. -/
structure Call where
  receivedData : List UInt8
  length : Nat
  opcode : UInt8
deriving DecidableEq

structure WsClient where
  maxRxLen : Nat
  maxTxLen : Nat
  maxQueueSize : Nat
  stableBufNum : Nat
  txRsvBits : Fin 8
  readyState : ReadyState
  sockOpen : Bool
  phase : Phase
  rxbuf : List UInt8
  enableWsMsgDiscarded : Bool
  discardedWsMsgTotalLen : Nat
  discardedWsMsgRcvLen : Nat
  receivedData : List UInt8
  readySendBuf : List SendBuf
  recycleSendBufNum : Nat
  pending : List UInt8
  calls : List Call
  frames : List (List UInt8)
  written : List (Nat × UInt8)
  cutShort : Bool

/-- The sizes that the user of the client has set. -/
structure Settings where
  maxRxLen : Nat
  maxTxLen : Nat
  maxQueueSize : Nat
  stableBufNum : Nat
  txRsvBits : Fin 8

def WsClient.connected (set : Settings) (pending : List UInt8) : WsClient :=
  { maxRxLen := set.maxRxLen
    maxTxLen := set.maxTxLen
    maxQueueSize := set.maxQueueSize
    stableBufNum := set.stableBufNum
    txRsvBits := set.txRsvBits
    readyState := .opened
    sockOpen := true
    phase := .idle
    rxbuf := []
    enableWsMsgDiscarded := false
    discardedWsMsgTotalLen := 0
    discardedWsMsgRcvLen := 0
    receivedData := []
    readySendBuf := []
    recycleSendBufNum := 0
    pending := pending
    calls := []
    frames := []
    written := []
    cutShort := false }

/-- What a call of the socket returns: a number of bytes, at most those that were asked for,
    or an error. -/
inductive SockResult where
  | bytes (n : Nat)
  | failed
deriving DecidableEq

inductive SelectResult where
  | timeout
  | failed
  | ready (readable writable : Bool)
deriving DecidableEq

variable (c : WsClient)

namespace WsClient

/-- `ws_client_close`. -/
def clientClose : WsClient :=
  { c with
    readyState := .closed, sockOpen := false, rxbuf := [], receivedData := [], readySendBuf := [] }

/-! ### Sending -/

def directSend (frame : List UInt8) (n : Nat) : WsClient :=
  { c with
    frames := c.frames ++ [frame]
    written := c.written ++ (frame.take n).map (c.frames.length, ·)
    cutShort := c.cutShort || decide (0 < n ∧ n < frame.length) }

end WsClient

/-- The header that `ws_sendData` makes. -/
def txHeader (type : Opcode) (messageSize : Nat) (key : Option Key) (finFlag : Bool) (rsv : Fin 8) :
    List UInt8 :=
  let b0 := (if finFlag then 0x80 else 0) ||| UInt8.ofNat (rsv.val * 16) ||| type.code
  let bit : UInt8 := if key.isSome then 0x80 else 0
  let keyBytes := (key.map Vector.toList).getD []
  if messageSize < 126 then [b0, UInt8.ofNat messageSize ||| bit] ++ keyBytes
  else if messageSize < 65536 then
    [b0, 126 ||| bit, UInt8.ofNat (messageSize / 2 ^ 8), UInt8.ofNat messageSize] ++ keyBytes
  else
    [b0, 127 ||| bit, 0, 0, 0, 0, UInt8.ofNat (messageSize / 2 ^ 24),
      UInt8.ofNat (messageSize / 2 ^ 16), UInt8.ofNat (messageSize / 2 ^ 8),
      UInt8.ofNat messageSize] ++ keyBytes

/-- The frame that `ws_sendData` makes. -/
def txFrame (type : Opcode) (message : List UInt8) (key : Option Key) (finFlag : Bool)
    (rsv : Fin 8) : List UInt8 :=
  txHeader type message.length key finFlag rsv ++ (match key with
    | none => message
    | some key => applyMask key message)

variable (writable : Bool) (ret : SockResult)

namespace WsClient

/-- `ws_sendData`; `key` is the masking key, and `ret` the answer of the socket to a PONG, the only
    frame not queued. A call that waits for a buffer comes later. -/
def wsSendData (type : Opcode) (message : List UInt8) (key : Option Key)
    (finFlag : Bool) (ret : SockResult) : WsClient × Int :=
  if c.readyState ≠ .opened then (c, -1)
  else if type.isControl = false ∧ message.length > c.maxTxLen then (c, -1)
  else
    let frame := txFrame type message key finFlag c.txRsvBits
    if type = .pong then
      match ret with
      | .bytes n => (c.directSend frame n, 0)
      | .failed => ((c.directSend frame 0).clientClose, -1)
    else if c.recycleSendBufNum = 0 ∧
        c.maxQueueSize ≤ c.readySendBuf.length + c.recycleSendBufNum then
      (c, -1)
    else
      ({ c with
          recycleSendBufNum := c.recycleSendBufNum - 1
          readySendBuf := c.readySendBuf ++ [⟨frame, 0, c.frames.length⟩]
          frames := c.frames ++ [frame] }, 0)

/-- The frame that `ws_close` sends. -/
def closeFrame : List UInt8 := [0x88, 0x80, 0x00, 0x00, 0x00, 0x00]

/-- `ws_close`, which ignores what the socket answers. -/
def wsClose : WsClient :=
  if c.readyState ≠ .opened then c
  else
    match ret with
    | .bytes n => { c.directSend closeFrame n with readyState := .closing }
    | .failed => { c.directSend closeFrame 0 with readyState := .closing }

/-! ### `ws_poll` -/

def afterDispatch : WsClient :=
  { c with phase := if c.sockOpen && writable then .sending else .idle }

/-- The start of `ws_poll`. -/
def pollEnter (sel : SelectResult) : WsClient :=
  match c.readyState with
  | .connecting => c
  | .closing => c.clientClose
  | .closed => c
  | .opened =>
    match sel with
    | .timeout => c
    | .failed => c.clientClose
    | .ready readable writable =>
      if readable then { c with phase := .reading writable } else c.afterDispatch writable

/-- One call of `client_read`. -/
def readRound : WsClient :=
  match ret with
  | .failed => { c.clientClose with phase := .idle }
  | .bytes n =>
    let data := c.pending.take (min n (min 1500 (c.maxRxLen + 16 - c.rxbuf.length)))
    let c' := { c with pending := c.pending.drop data.length }
    if data = [] then
      if c.enableWsMsgDiscarded then c.afterDispatch writable
      else { c with phase := .dispatching writable }
    else if c.enableWsMsgDiscarded = false then { c' with rxbuf := c.rxbuf ++ data }
    else if c.discardedWsMsgRcvLen + data.length ≥ c.discardedWsMsgTotalLen then
      { c' with
        rxbuf := []
        enableWsMsgDiscarded := false
        discardedWsMsgRcvLen := 0
        discardedWsMsgTotalLen := 0 }
    else { c' with rxbuf := [], discardedWsMsgRcvLen := c.discardedWsMsgRcvLen + data.length }

/-- What `ws_dispatchBinary` does with the data of a frame. -/
def receiveData (fin : Bool) (opcode : UInt8) (payload : List UInt8) : WsClient :=
  let data := c.receivedData ++ payload
  if fin then
    { c with calls := c.calls ++ [⟨data, data.length, opcode⟩], receivedData := [] }
  else { c with receivedData := data }

def handleFrame (ws : WsHeader) (ret : SockResult) (key : Key) : Option WsClient :=
  if ws.opcode = TEXT_FRAME ∨ ws.opcode = BINARY_FRAME ∨ ws.opcode = CONTINUATION then
    some (c.receiveData ws.fin ws.opcode (ws.payload c.rxbuf))
  else if ws.opcode = PING then
    some (c.wsSendData .pong (ws.payload c.rxbuf) (some key) true ret).1
  else if ws.opcode = PONG then some c
  else if ws.opcode = CLOSE then some (c.wsClose ret)
  else none

/-- One round of the loop of `ws_dispatchBinary`. -/
def dispatchRound (key : Key) : WsClient :=
  match wsHeader c.rxbuf with
  | none => c.afterDispatch writable
  | some ws =>
    if c.rxbuf.length < ws.total then
      if ws.N > c.maxRxLen then
        { c.afterDispatch writable with
          enableWsMsgDiscarded := true
          discardedWsMsgTotalLen := ws.total
          discardedWsMsgRcvLen := c.rxbuf.length
          rxbuf := [] }
      else c.afterDispatch writable
    else if c.rxbuf.length = ws.total ∧ ws.N > c.maxRxLen then
      { c.afterDispatch writable with rxbuf := [] }
    else
      match c.handleFrame ws ret key with
      | none => c.clientClose.afterDispatch writable
      | some c' => { c' with rxbuf := c'.rxbuf.drop ws.total }

def recycle : WsClient :=
  if c.recycleSendBufNum ≥ c.stableBufNum then c
  else { c with recycleSendBufNum := c.recycleSendBufNum + 1 }

/-- One call of `client_send` for the front of the queue. -/
def sendRound : WsClient :=
  match c.readySendBuf with
  | [] => { c with phase := .idle }
  | b :: bs =>
    match ret with
    | .failed => { c.clientClose with phase := .idle }
    | .bytes n =>
      let data := (b.txbuf.drop b.sendOffset).take (min n (10 * 1024))
      let c' := { c with written := c.written ++ data.map (b.no, ·) }
      if data = [] then { c with phase := .idle }
      else if b.sendOffset + data.length < b.txbuf.length then
        { c' with readySendBuf := { b with sendOffset := b.sendOffset + data.length } :: bs }
      else ({ c' with readySendBuf := bs }).recycle

end WsClient

/-! ### Steps -/

inductive Action where
  | sendData (type : Opcode) (message : List UInt8) (key : Option Key) (finFlag : Bool)
      (ret : SockResult)
  | close (ret : SockResult)
  | poll (sel : SelectResult)
  | read (ret : SockResult)
  | dispatch (ret : SockResult) (key : Key)
  | send (ret : SockResult)

/-- The application may send and close at any time; `ws_poll` goes on where it is. -/
def clientStep : Action → WsClient
  | .sendData type message key finFlag ret => (c.wsSendData type message key finFlag ret).1
  | .close ret => c.wsClose ret
  | .poll sel => if c.phase = .idle then c.pollEnter sel else c
  | .read ret =>
    match c.phase with
    | .reading writable => c.readRound writable ret
    | _ => c
  | .dispatch ret key =>
    match c.phase with
    | .dispatching writable => c.dispatchRound writable ret key
    | _ => c
  | .send ret =>
    match c.phase with
    | .sending => c.sendRound ret
    | _ => c

end AmebaRtos.Websocket
