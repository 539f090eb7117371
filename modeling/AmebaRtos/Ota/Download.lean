import AmebaRtos.Ota.Storage

/-!
# Programming an image packet by packet

`download_parameter_init`, `download_packet_process` and `download_finish` of `ota_core.c`. The
first 24 bytes of an image, its manifest, are held back in RAM; the rest is written to the
inactive slot as it arrives, each sector being erased just before. The manifest is written when
the image is complete and its checksum verified.

The state keeps a trace of the packets, the flash operations and the images finished. Undefined
behaviour (a copy outside its buffers, a write of negative length) ends a run with the state it
had reached.
-/

namespace AmebaRtos.Ota

open Lib

inductive Event where
  | packet (index : Nat) (hdr : SubHdr) (readBytes : Int) (bytes : List UInt8)
  | flash (index : Nat) (op : FlashOp)
  | finished (index : Nat) (readBytes : Int) (skipped : Bool)
deriving DecidableEq, Repr

/-- The bytes in `NextImgBuf`: at least one, and no more than it holds. -/
def NextImg : Type :=
  { bytes : List UInt8 // bytes ≠ [] ∧ bytes.length ≤ OTA_BUF_SIZE }

/-- The last `count` bytes of a packet. -/
def NextImg.ofTail (bytes : List UInt8) (count : Nat)
    (h : 0 < count ∧ count ≤ bytes.length ∧ count ≤ OTA_BUF_SIZE) : NextImg :=
  ⟨bytes.drop (bytes.length - count), by
    have hlen : (bytes.drop (bytes.length - count)).length = count := by
      rw [List.length_drop]
      omega
    exact ⟨List.ne_nil_of_length_pos (by omega), by omega⟩⟩

/-- `ota_download_ctrl_t`, `ota_hdr_manager_t` and the static variables of
    `download_packet_process`, with the trace. `nextImg` is `NextImgBuf` while `NextImgFg` is set;
    `ImgOffset` is 0 whenever it is read, and `write_sector` is assigned before each use. -/
structure OtaState where
  nextImg : Option NextImg
  readBytes : Int
  remainBytes : Int
  imgId : Nat
  imageLen : Nat
  flashAddr : Nat
  sigCnt : Nat
  sigFg : Bool
  skipBootOTAFg : Bool
  isGetOTAHdr : Bool
  isDnldInit : Bool
  slotIdx : Slot
  index : Nat
  fileImgHdr : List SubHdr
  manifest : Nat → List UInt8
  nextEraseSector : Nat
  size : Int
  trace : List Event

variable (s : OtaState)

namespace OtaState

/-- `FileImgHdr[index]`. -/
def hdr (s : OtaState) : SubHdr := s.fileImgHdr.getD s.index default

def emit (e : Event) : OtaState := { s with trace := s.trace ++ [e] }

def emitOp (op : FlashOp) : OtaState := s.emit (.flash s.index op)

end OtaState

def flashOps (trace : List Event) : List FlashOp :=
  trace.filterMap fun
    | .flash _ op => some op
    | _ => none

def flashAfter (flash : Memory) (trace : List Event) : Memory :=
  replay SECTOR (flashOps trace) flash

variable (board : Board) (s : OtaState)

def downloadParameterInit : OtaState :=
  let imgId := s.hdr.imgID
  let slotIdx := board.targetSlot imgId
  let addr := board.otaStorageGetImageAddr imgId slotIdx
  { s with
    imgId := imgId
    slotIdx := slotIdx
    sigFg := false
    sigCnt := 0
    flashAddr := u32 (chipOffset addr + MANIFEST_SIZE)
    imageLen := s.hdr.imgLen
    readBytes := 0
    remainBytes := s32 (u32 ((s.hdr.imgLen : Int) - MANIFEST_SIZE))
    skipBootOTAFg := imgId == OTA_IMGID_BOOT && slotIdx == .B && board.otaCheckBootloaderOta2 }

/-- The initialisation at the start of `download_packet_process`. -/
def initDownload : OtaState :=
  if s.isDnldInit then s
  else
    { downloadParameterInit board s with
      isDnldInit := true
      nextEraseSector := 0
      size := 0 }

/-- `_memcpy` into the cached manifest at `offset`. -/
def copyAt (buf : List UInt8) (offset : Nat) (bytes : List UInt8) : List UInt8 :=
  buf.take offset ++ bytes ++ buf.drop (offset + bytes.length)

def setManifest (offset : Nat) (bytes : List UInt8) : Nat → List UInt8 :=
  Function.update s.manifest s.index (copyAt (s.manifest s.index) offset bytes)

/-- The manifest part of `download_packet_process`: the state and what is left of the packet.
    `SigFg` is clear only for the first packet of an image, where `TempCnt` is the packet's
    length. -/
def cacheManifest (bytes : List UInt8) : OtaState × List UInt8 :=
  if !s.sigFg then
    let sigCnt := min bytes.length MANIFEST_SIZE
    ({ s with
        sigFg := true
        sigCnt := sigCnt
        manifest := setManifest s 0 (bytes.take sigCnt) },
      bytes.drop MANIFEST_SIZE)
  else if s.sigCnt < MANIFEST_SIZE then
    if bytes.length < MANIFEST_SIZE - s.sigCnt then
      ({ s with
          sigCnt := s.sigCnt + bytes.length
          manifest := setManifest s s.sigCnt bytes },
        [])
    else
      ({ s with
          sigCnt := MANIFEST_SIZE
          manifest := setManifest s s.sigCnt (bytes.take (MANIFEST_SIZE - s.sigCnt)) },
        bytes.drop (MANIFEST_SIZE - s.sigCnt))
  else (s, bytes)

/-- The bytes behind the end of the image go to `NextImgBuf`; the result is the number of body bytes
    of this image. The copy takes the last `NextImgLen` bytes of the packet, and is out of bounds
    without as many. -/
def stashNextImg (bytes body : List UInt8) : Except OtaState (OtaState × Int) :=
  let remainBytes : Int := s.remainBytes - body.length
  let s := { s with remainBytes := remainBytes }
  if remainBytes < 0 then
    let nextImgLen := (-remainBytes).toNat
    if h : 0 < nextImgLen ∧ nextImgLen ≤ bytes.length ∧ nextImgLen ≤ OTA_BUF_SIZE then
      .ok ({ s with nextImg := some (NextImg.ofTail bytes nextImgLen h) },
        body.length - nextImgLen)
    else .error s
  else .ok (s, body.length)

def writeSector : Nat :=
  u32 ((s.imageLen : Int) - s.remainBytes - 1 + MANIFEST_SIZE) / SECTOR

def eraseAhead : OtaState :=
  if writeSector s ≥ s.nextEraseSector then
    let s' := s.emitOp (.erase (u32 ((s.flashAddr : Int) - MANIFEST_SIZE + writeSector s * SECTOR)))
    { s' with nextEraseSector := s.nextEraseSector + 1 }
  else s

def programBody (body : List UInt8) (len : Int) : Except OtaState OtaState :=
  if s.skipBootOTAFg then .ok { s with size := s.size + len }
  else
    let s := eraseAhead s
    if len < 0 then .error s
    else
      -- `ota_storage_write` rejects an empty write
      let s := if len = 0 then s
        else s.emitOp (.write (u32 (s.flashAddr + s.size)) (body.take len.toNat))
      .ok { s with size := s.size + len }

/-- A packet arrives: it is counted, and recorded in the trace. -/
def arrive (bytes : List UInt8) : OtaState :=
  { s with
    trace := s.trace ++ [.packet s.index s.hdr s.readBytes bytes]
    readBytes := s.readBytes + bytes.length }

/-- `download_packet_process`; its result is the `size` of the new state. -/
def downloadPacketProcess (bytes : List UInt8) : Except OtaState OtaState :=
  let (s, body) := cacheManifest (arrive (initDownload board s) bytes) bytes
  if body = [] then .ok s
  else
    match stashNextImg s bytes body with
    | .error s => .error s
    | .ok (s, len) => programBody s body len

/-- `ota_ret_t`. -/
inductive Ret where
  | err
  | ok
  | finish
deriving DecidableEq, Repr

def nextImage (skipped : Bool) : OtaState × Ret :=
  let s := s.emit (.finished s.index s.readBytes skipped)
  if s.index + 1 < s.fileImgHdr.length then
    ({ s with index := s.index + 1, isDnldInit := false }, .ok)
  else (s, .finish)

def downloadFinish (flash : Memory) (s : OtaState) (size : Int) : OtaState × Ret :=
  if u32 size ≠ s.imageLen then (s, .err)
  else if s.skipBootOTAFg then nextImage s true
  else if board.otaStorageVerifyChecksum s.hdr (s.manifest s.index) s.slotIdx
      (flashAfter flash s.trace) = false then (s, .err)
  else
    let (ops, updated) := board.otaStorageUpdateManifest s.hdr (s.manifest s.index) s.slotIdx
    let s := ops.foldl OtaState.emitOp s
    if updated then nextImage s false else (s, .err)

end AmebaRtos.Ota
