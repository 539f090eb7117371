import AmebaRtos.Lib.Packets
import AmebaRtos.Lib.Run
import AmebaRtos.Ota.Process

/-!
# A node of the mesh OTA

`wtn_app_ota.c`: a node of a Wi-Fi mesh gets a firmware image from its father by radio, or from a
server by HTTP, writes it to the inactive slot, hands it on to its slaves, and restarts into it.
The father announces the image in a *status request*, sends its packets, and ends with a status
request that says *reset*. Restarting means clearing the signature of the running image.

The callbacks change the state of one node; the events are what radio, timers and other tasks do
to it. A node that restarts, writes through a null pointer or overwrites its heap does not go on;
reads through a null pointer find the ROM at address 0. The trace is what the two radio callbacks
do to the flash, the packets stored since the announcement, and the outcome of the HTTP download.
-/

namespace AmebaRtos.Mesh

open Lib Ota

def RMESH_OTA_PACKET_SIZE : Nat := 1024
def RMESH_OTA_ROUND_MAX : Nat := 50
def RMESH_OTA_STS_RESET : Nat := 3

/-- `APP_IMAGE_PATTERN_1` and `APP_IMAGE_PATTERN_2`, as they lie in the flash. -/
def APP_IMAGE_PATTERN : List UInt8 := toLE 4 0x35393138 ++ toLE 4 0x31313738

/-- The `status` of the update on this node; it is zero before the first request. -/
inductive OtaSts where
  | idle
  | ongoing
  | finished
deriving DecidableEq, Repr

/-- `ota_method`; it is zero before the first command. -/
inductive OtaMethod where
  | none
  | http
  | inter
deriving DecidableEq, Repr

/-- How far `rmesh_ota_http_ota_task` has got. -/
inductive HttpTask where
  | absent
  | created
  | entered
  | downloading
  | ended
deriving DecidableEq, Repr

structure StatusReq where
  curRoundNum : Nat
  status : Nat
  packetNum : Nat
  imageId : Nat
  checksum : Nat
  totalSize : Nat
  writtenSize : Nat
deriving DecidableEq, Repr

/-- `rmesh_ota_upgrade_status`, with the bytes allocated for its bitmap. The bitmap is `none` while
    its pointer is null; the bits behind its end are those of the memory that follows. -/
structure UpgradeStatus where
  status : OtaSts
  packetNum : Nat
  imageId : Nat
  checksum : Nat
  imageAddr : Nat
  totalSize : Nat
  writtenSize : Nat
  progressArray : Option (Nat → Bool)
  capacity : Nat

def UpgradeStatus.zero (capacity : Nat) : UpgradeStatus :=
  ⟨.idle, 0, 0, 0, 0, 0, 0, none, capacity⟩

/-- What is read through a null pointer: the fields of a status and the bits of a bitmap. -/
structure NullReads where
  status : UpgradeStatus
  bits : Nat → Bool

/-- The vector table in the ROM of the KM4. The handlers of NMI, HardFault, MemManage and BusFault,
    `0x9011` to `0x901D`, lie where a status has its checksum, address and sizes. -/
def vectorTable : NullReads :=
  ⟨⟨.idle, 0, 0, 0x901100, 0x901500, 0x901900, 0x901D00, none, 0⟩, fun _ => false⟩

/-- `g_rmesh_ota_status` and `g_rmesh_ota_priv`, the flash, and the trace, with the ID of the
    announced image. -/
structure Node where
  status : Option UpgradeStatus
  otaResetRecvd : Bool
  httpOtaResetDelayed : Bool
  waitInterOta : Bool
  httpOtaFailReset : Bool
  otaMethod : OtaMethod
  httpTask : HttpTask
  slaveNum : Nat
  waitNum : Nat
  -- `ongoing_ota_ver` is not empty
  ongoing : Bool
  resetTimer : Bool
  updateTimer : Bool
  flash : Memory
  heapBits : Nat → Bool
  rom : NullReads
  ops : List (Nat × FlashOp)
  stored : List (Nat × Nat)
  download : Option Outcome

def Node.boot (flash : Memory) (heapBits : Nat → Bool) (rom : NullReads) : Node where
  status := none
  otaResetRecvd := false
  httpOtaResetDelayed := false
  waitInterOta := false
  httpOtaFailReset := false
  otaMethod := .none
  httpTask := .absent
  slaveNum := 0
  waitNum := 0
  ongoing := false
  resetTimer := false
  updateTimer := false
  flash := flash
  heapBits := heapBits
  rom := rom
  ops := []
  stored := []
  download := none

/-- A node that runs, restarted with or without clearing the signature of the running image,
    stopped at a fault, or has overwritten its heap. -/
inductive NodeState where
  | running (n : Node)
  | restarted (n : Node) (cleared : Bool)
  | fault (n : Node)
  | overrun

variable (n : Node)

def Node.issue (imageId : Nat) (ops : List FlashOp) : Node :=
  { n with flash := replay SECTOR ops n.flash, ops := n.ops ++ ops.map (imageId, ·) }

variable (st : UpgradeStatus)

/-! ### The end of an update -/

section

variable (board : Board)

/-- The check in `sys_clear_ota_signature(OTA_IMGID_APP)`: the other slot starts with the
    pattern of an image. -/
def patternPresent (flash : Memory) : Bool :=
  decide (flash.window (board.newOffset .app) 8 = APP_IMAGE_PATTERN)

def rmeshOtaFirmwareDownloadEnd (n : Node) (needClearSig : Bool) : NodeState :=
  if needClearSig then
    if patternPresent board n.flash then
      let addr := board.layout.offset .app (board.activeSlot .app)
      .restarted
        { n with flash := (FlashOp.write addr (List.replicate 8 0)).apply SECTOR n.flash } true
    else .restarted n false
  else
    let st := n.status.getD n.rom.status
    .restarted
      { n with flash := (FlashOp.write st.imageAddr (List.replicate 8 0)).apply SECTOR n.flash }
      false

def rmeshOtaResetWaitTimer (n : Node) : NodeState :=
  if n.slaveNum ≠ 0 ∧ n.otaMethod ≠ .http ∧ n.waitInterOta = false then
    .running { n with otaResetRecvd := true }
  else
    let clearSig := match n.otaMethod with
      | .http => !n.httpOtaFailReset
      | .inter => !n.waitInterOta
      | .none => true
    rmeshOtaFirmwareDownloadEnd board n clearSig

def rmeshOtaUpdateWaitTimer (n : Node) : NodeState :=
  rmeshOtaFirmwareDownloadEnd board { n with waitInterOta := false } false

/-- The end of `rmesh_ota_firmware_send`, when the slaves have been served. The task goes on with
    the nodes waiting. -/
def rmeshOtaFirmwareSendEnd (n : Node) : NodeState :=
  if n.waitNum = 0 ∧ (n.otaResetRecvd = true ∨ n.httpOtaResetDelayed = true) then
    rmeshOtaFirmwareDownloadEnd board { n with slaveNum := 0 } true
  else .running { n with slaveNum := n.waitNum, waitNum := 0 }

/-! ### The radio callbacks -/

/-- `rmesh_ota_status_request_cb` from `response` on. `doneSent` and `progressSent` say
    whether the radio takes the two answers. -/
def statusResponse (curRoundNum : Nat) (doneSent progressSent : Bool) : NodeState :=
  let n := { n with status := some st }
  let bits := st.progressArray.getD n.rom.bits
  if st.writtenSize = st.totalSize ∧ doneSent = false then .running n
  else if (List.range st.packetNum).any (fun seq => !bits seq) ∧ progressSent = false then
    .running n
  else
    let resetTimer := n.resetTimer ||
      decide (st.writtenSize < st.totalSize ∧ curRoundNum = RMESH_OTA_ROUND_MAX)
    if st.writtenSize = st.totalSize ∧ st.status = .ongoing then
      .running { n with
        status := some { st with status := .finished }
        resetTimer := true
        waitInterOta := false }
    else .running { n with resetTimer := resetTimer }

/-- The status after the first request of an update, in memory with room for `capacity` bytes. -/
def UpgradeStatus.announced (r : StatusReq) (heapBits : Nat → Bool) (capacity : Nat) :
    UpgradeStatus where
  status := .ongoing
  packetNum := r.packetNum
  imageId := r.imageId
  checksum := r.checksum
  imageAddr := chipOffset (board.imgAddr r.imageId (board.targetSlot r.imageId))
  totalSize := r.totalSize
  writtenSize := r.writtenSize
  progressArray := some fun seq =>
    if seq < 8 * (r.packetNum / 8 + 1) then false else heapBits seq
  capacity := capacity

def eraseOps (imageAddr totalSize : Nat) : List FlashOp :=
  (List.range (totalSize / 4096 + 1)).map fun i => .erase ((imageAddr + 4096 * i) % 2 ^ 32)

/-- The part of `rmesh_ota_status_request_cb` for a reset. -/
def statusReset (n : Node) : NodeState :=
  let st := n.status.getD n.rom.status
  let n := { n with
    resetTimer := false
    waitInterOta := n.waitInterOta && decide (st.writtenSize ≠ st.totalSize) }
  if n.slaveNum = 0 then
    rmeshOtaFirmwareDownloadEnd board n (decide (st.writtenSize = st.totalSize))
  else if st.writtenSize < st.totalSize then rmeshOtaFirmwareDownloadEnd board n false
  else .running { n with otaResetRecvd := true }

/-- The first request of an update, up to `response`. -/
def startUpdate (n : Node) (r : StatusReq) (capacity : Nat) : Node :=
  let st := UpgradeStatus.announced board r n.heapBits capacity
  { n.issue r.imageId (eraseOps st.imageAddr st.totalSize) with
    status := some st
    updateTimer := false
    resetTimer := true
    stored := [] }

/-- The request is answered without starting an update: one is going on, or it asks for
    what the node has already. -/
def isKnown (r : StatusReq) : Prop :=
  st.status = .ongoing ∨ (st.totalSize = r.totalSize ∧ st.checksum = r.checksum)
deriving Decidable

/-- `packet_num / 8 + 1`, the size of a bitmap. -/
def StatusReq.bitmapSize (r : StatusReq) : Nat := r.packetNum / 8 + 1

/-- The status of the node, which is allocated at the first request. -/
def Node.currentStatus (n : Node) (r : StatusReq) : UpgradeStatus :=
  n.status.getD (.zero r.bitmapSize)

def rmeshOtaStatusRequestCb (n : Node) (r : StatusReq) (doneSent progressSent : Bool) :
    NodeState :=
  if r.status = RMESH_OTA_STS_RESET then statusReset board n
  else if n.waitInterOta = false then .running n
  else
    let st := n.currentStatus r
    if st.status = .finished then .running { n with status := some st }
    else if isKnown st r then statusResponse n st r.curRoundNum doneSent progressSent
    -- the bitmap is cleared for the packets of this request
    else if st.capacity < r.bitmapSize then .overrun
    else
      statusResponse (startUpdate board n r st.capacity)
        (UpgradeStatus.announced board r n.heapBits st.capacity) r.curRoundNum doneSent progressSent

def storePacket (bits : Nat → Bool) (seq : Nat) (payload : List UInt8) : Node :=
  { n.issue st.imageId [.write ((st.imageAddr + seq * RMESH_OTA_PACKET_SIZE) % 2 ^ 32) payload] with
    status := some { st with
      writtenSize := (st.writtenSize + payload.length) % 2 ^ 32
      progressArray := some (Function.update bits seq true) }
    stored := n.stored ++ [(seq, payload.length)] }

/-- `rmesh_ota_data_cb`, for a frame that holds at least the sequence number. -/
def rmeshOtaDataCb (seq : Nat) (payload : List UInt8) : NodeState :=
  match n.status with
  | none => .running n
  | some st =>
    match st.progressArray with
    | none =>
      if n.rom.bits seq then .running n
      -- the packet is written, and then its bit at address 0
      else .fault (storePacket n st n.rom.bits seq payload)
    | some bits => if bits seq then .running n else .running (storePacket n st bits seq payload)

/-- The length that `rmesh_ota_firmware_send` gives a packet; `data_len` is a `u16`. -/
def firmwareDataLen (totalSize packetNum seq : Nat) : Nat :=
  if seq + 1 = packetNum then u32 ((totalSize : Int) - seq * RMESH_OTA_PACKET_SIZE) % 2 ^ 16
  else RMESH_OTA_PACKET_SIZE

/-! ### Commands and the HTTP task -/

/-- The start of an update, for a version that is not installed: `rmesh_ota_priv_init`, and then the
    HTTP task or `rmesh_ota_wait_for_update_status_req`. -/
def rmeshOtaCmdRecv (inter : Bool) : Node :=
  if n.ongoing then n
  else
    let n := { n with
      ongoing := true
      otaResetRecvd := false
      httpOtaResetDelayed := false
      waitInterOta := false }
    if inter then
      { n with status := none, waitInterOta := true, otaMethod := .inter, updateTimer := true }
    else { n with httpTask := .created }

/-- `rmesh_ota_http_ota_task` from `ota_start` on. `NextImgBuf` may hold the first bytes of the
    file. -/
def httpOtaDone (n : Node) (nextImg : Option NextImg) (script : List ReadResult) : NodeState :=
  let o := otaCoreProcess board n.flash (initialState nextImg) script
  let n := { n with
    httpTask := .ended
    resetTimer := false
    flash := flashAfter n.flash o.state.trace
    download := some o }
  match o.ret with
  | none => .fault n
  | some .ok =>
    let n := { n with httpOtaFailReset := false }
    if n.slaveNum ≠ 0 then .running { n with httpOtaResetDelayed := true }
    else rmeshOtaFirmwareDownloadEnd board n true
  | some _ => rmeshOtaFirmwareDownloadEnd board n false

/-! ### Events -/

inductive Event where
  | cmdRecv (inter : Bool)
  -- the HTTP task sets `ota_method`; `ota_init` succeeds; `ota_start` returns
  | httpEnter
  | httpStart
  | httpDone (nextImg : Option NextImg) (script : List ReadResult)
  | deauth
  | statusReq (r : StatusReq) (doneSent progressSent : Bool)
  | data (seq : Nat) (payload : List UInt8)
  | slaveAdd
  | waitAdd
  | resetTimerFires
  | updateTimerFires
  | sendEnd

def handle (n : Node) : Event → NodeState
  | .cmdRecv inter => .running (rmeshOtaCmdRecv n inter)
  | .httpEnter =>
    .running (if n.httpTask = .created then { n with httpTask := .entered, otaMethod := .http }
      else n)
  | .httpStart =>
    .running (if n.httpTask = .entered then
        { n with httpTask := .downloading, httpOtaFailReset := true, resetTimer := true }
      else n)
  | .httpDone nextImg script =>
    if n.httpTask = .downloading then httpOtaDone board n nextImg script else .running n
  | .deauth => .running (if n.otaMethod = .http then { n with resetTimer := true } else n)
  | .statusReq r doneSent progressSent => rmeshOtaStatusRequestCb board n r doneSent progressSent
  | .data seq payload => rmeshOtaDataCb n seq payload
  | .slaveAdd => .running { n with slaveNum := n.slaveNum + 1 }
  | .waitAdd => .running { n with waitNum := n.waitNum + 1 }
  | .resetTimerFires =>
    if n.resetTimer then rmeshOtaResetWaitTimer board { n with resetTimer := false }
    else .running n
  | .updateTimerFires =>
    if n.updateTimer then rmeshOtaUpdateWaitTimer board { n with updateTimer := false }
    else .running n
  | .sendEnd => rmeshOtaFirmwareSendEnd board n

def nodeStep : NodeState → Event → NodeState
  | .running n, ev => handle board n ev
  | s, _ => s

end

end AmebaRtos.Mesh
