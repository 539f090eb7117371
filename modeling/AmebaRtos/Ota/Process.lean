import AmebaRtos.Ota.Download

/-!
# The update loop

`ota_core_parse_header`, `ota_fw_program` and `ota_core_process` of `ota_core.c`.
The loop reads up to 2048 bytes at a time; the first packet is parsed for the file
header, the others go to the image being programmed. Bytes behind the end of an
image wait in `NextImgBuf` for the next packet.
-/

namespace AmebaRtos.Ota

open Lib

/-- The result of `ota_core_parse_header`: `OTA_ERR`, `OTA_OK`, or the data that is
    left of the packet. -/
inductive ParseResult where
  | err
  | ok
  | remain (bytes : List UInt8)
deriving DecidableEq, Repr

variable (board : Board) (flash : Memory) (s : OtaState) (bytes : List UInt8)

def stripHeader (recvHdrLen : Nat) : OtaState × List UInt8 :=
  match s.nextImg with
  | some next =>
    if h : next.val.length > recvHdrLen then
      ({ s with
          nextImg := some (NextImg.ofTail next.val (next.val.length - recvHdrLen)
            ⟨by omega, by omega, by have := next.property.2; omega⟩) },
        bytes)
    else ({ s with nextImg := none }, bytes.drop (recvHdrLen - next.val.length))
  | none => (s, bytes.drop recvHdrLen)

/-- The bytes waiting in `NextImgBuf`. -/
def pendingBytes : List UInt8 :=
  match s.nextImg with
  | some next => next.val
  | none => []

variable (script : List ReadResult)

def otaCoreParseHeader : OtaState × ParseResult × List ReadResult :=
  let temp := pendingBytes s ++ bytes
  match otaCoreRecvHeader temp script with
  | (none, script) => (s, .err, script)
  | (some (buf, hdrNum), script) =>
    match otaCoreGetTargetHeader buf hdrNum with
    | none => (s, .err, script)
    | some hdrs =>
      let s := { s with fileImgHdr := hdrs }
      if board.otaStorageCheckLayout hdrs = false then (s, .err, script)
      else
        let s := { s with isGetOTAHdr := true }
        if temp.length ≤ headerLen hdrNum then (s, .ok, script)
        else
          let (s, rest) := stripHeader s bytes (headerLen hdrNum)
          (s, .remain rest, script)

def feedNextImg : Except OtaState OtaState :=
  match s.nextImg with
  | some next =>
    match downloadPacketProcess board s next.val with
    | .error s => .error s
    | .ok s => .ok { s with nextImg := none }
  | none => .ok s

def feedPacket : Except OtaState (OtaState × Ret) :=
  match downloadPacketProcess board s bytes with
  | .error s => .error s
  | .ok s =>
    .ok (if s.remainBytes ≤ 0 then downloadFinish board flash s (s.size + MANIFEST_SIZE)
      else (s, .ok))

/-- `ota_fw_program` behind the header. -/
def programPacket : Except OtaState (OtaState × Ret) :=
  match feedNextImg board s with
  | .error s => .error s
  | .ok s => feedPacket board flash s bytes

def otaFwProgram : Except OtaState (OtaState × Ret) × List ReadResult :=
  if s.isGetOTAHdr then (programPacket board flash s bytes, script)
  else
    match otaCoreParseHeader board s bytes script with
    | (s, .err, script) => (.ok (s, .err), script)
    | (s, .ok, script) => (.ok (s, .ok), script)
    | (s, .remain rest, script) => (programPacket board flash s rest, script)

/-- How the loop of `ota_core_process` is left: a read of `0`, a failed read, an error,
    `OTA_FINISH`, or undefined behaviour. -/
inductive Exit where
  | eof
  | readError
  | failed
  | finished
  | fault
deriving DecidableEq, Repr

structure Outcome where
  exit : Exit
  state : OtaState

def Outcome.ret (o : Outcome) : Option Ret :=
  match o.exit with
  | .eof => some .ok
  | .readError => some .err
  | .failed => some .err
  | .finished => some .ok
  | .fault => none

/-- The loop of `ota_core_process`. Every round takes something from the answers, so `pendingSize`
    rounds and one for the end of the stream suffice. -/
def processLoop (board : Board) (flash : Memory) : (fuel : Nat) → OtaState →
    List ReadResult → Outcome
  | 0, s, _ => ⟨.eof, s⟩
  | fuel + 1, s, script =>
    match otaTransportRead OTA_BUF_SIZE script with
    | (none, _) => ⟨.readError, s⟩
    | (some [], _) => ⟨.eof, s⟩
    | (some (byte :: bytes), script) =>
      match otaFwProgram board flash s (byte :: bytes) script with
      | (.error s, _) => ⟨.fault, s⟩
      | (.ok (s, .finish), _) => ⟨.finished, s⟩
      | (.ok (s, .err), _) => ⟨.failed, s⟩
      | (.ok (s, .ok), script) => processLoop board flash fuel s script

/-- The zero-initialised control structures. `NextImgBuf` may hold the first bytes of the file. -/
def initialState (nextImg : Option NextImg) : OtaState where
  nextImg := nextImg
  readBytes := 0
  remainBytes := 0
  imgId := 0
  imageLen := 0
  flashAddr := 0
  sigCnt := 0
  sigFg := false
  skipBootOTAFg := false
  isGetOTAHdr := false
  isDnldInit := false
  slotIdx := .A
  index := 0
  fileImgHdr := []
  manifest := fun _ => List.replicate MANIFEST_SIZE 0
  nextEraseSector := 0
  size := 0
  trace := []

def otaCoreProcess : Outcome :=
  processLoop board flash (pendingSize script + 1)
    { s with index := 0, isGetOTAHdr := false, isDnldInit := false } script

end AmebaRtos.Ota
