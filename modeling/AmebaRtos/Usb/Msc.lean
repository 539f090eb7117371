import AmebaRtos.Lib.Memory
import AmebaRtos.Lib.Run

/-!
# The USB mass storage device

The host sends command block wrappers (CBW) to the bulk OUT endpoint. A READ sends the blocks of
the disk in pieces of at most `USBD_MSC_BUFLEN` bytes, a WRITE receives them in such pieces, and
the other commands are answered from the same data buffer. `usbd_msc_rx_process` runs when an OUT
transfer is complete and `usbd_msc_tx_process` when an IN transfer is.

A stalled or cleared bulk IN endpoint drops its transfers; `inFlight` counts the IN transfers
still to be completed. `command`, `sentBytes`, `received` and `filled` follow the command that is
executed: its block, the bytes sent, the bytes received, and those that it was the last to put at
the start of the data buffer. Every call of the disk and every transmission of data is logged.
-/

namespace AmebaRtos.Usb

open Lib

def USBD_MSC_BLK_BITS : Nat := 9
def USBD_MSC_BLK_SIZE : Nat := 1 <<< USBD_MSC_BLK_BITS
def USBD_MSC_BUFLEN : Nat := 16 * 1024
def USBD_MSC_SENSE_LIST_DEPTH : Nat := 4
def USB_MSC_CBW_SIGN : Nat := 0x43425355
def USB_MSC_CBW_LEN : Nat := 31

def PAGE00_INQUIRY_DATA_LEN : Nat := 7
def INQUIRY_DATA_LEN : Nat := 36
def REQUEST_SENSE_DATA_LEN : Nat := 18
def READ_CAPACITY10_DATA_LEN : Nat := 8
def READ_FORMAT_CAPACITY_DATA_LEN : Nat := 12
def MODE_SENSE6_DATA_LEN : Nat := 4
def MODE_SENSE10_DATA_LEN : Nat := 8

/-! ### Command blocks -/

/-- The bytes of a command block wrapper, `usb_msc_bot_cbw_t`. -/
abbrev Cbw := Memory

variable (numSectors : Nat) (cbw : Cbw)

namespace Cbw

def dCBWSignature : Nat := fromLE (cbw.window 0 4)
def dCBWDataTransferLength : Nat := fromLE (cbw.window 8 4)
def bmCBWFlags : UInt8 := cbw 12
def bCBWLUN : UInt8 := cbw 13
def bCBWCBLength : UInt8 := cbw 14
def CBWCB (i : Nat) : UInt8 := cbw (15 + i)

/-- The big-endian number in the `width` bytes from `CBWCB[i]` on. -/
def param (i width : Nat) : Nat := fromLE (cbw.window (15 + i) width).reverse

end Cbw

/-- The commands that `usbd_scsi_process_cmd` knows. -/
inductive ScsiCmd where
  | testUnitReady
  | requestSense
  | inquiry
  | startStopUnit
  | allowMediumRemoval
  | modeSense6
  | modeSense10
  | readFormatCapacities
  | readCapacity10
  | read10
  | read12
  | write10
  | write12
  | modeSelect6
  | modeSelect10
  | verify10
deriving DecidableEq

def ScsiCmd.ofByte (opcode : UInt8) : Option ScsiCmd :=
  match opcode with
  | 0x00 => some .testUnitReady
  | 0x03 => some .requestSense
  | 0x12 => some .inquiry
  | 0x1B => some .startStopUnit
  | 0x1E => some .allowMediumRemoval
  | 0x1A => some .modeSense6
  | 0x5A => some .modeSense10
  | 0x23 => some .readFormatCapacities
  | 0x25 => some .readCapacity10
  | 0x28 => some .read10
  | 0xA8 => some .read12
  | 0x2A => some .write10
  | 0xAA => some .write12
  | 0x15 => some .modeSelect6
  | 0x55 => some .modeSelect10
  | 0x2F => some .verify10
  | _ => none

namespace Cbw

def scsiCmd : Option ScsiCmd := ScsiCmd.ofByte (cbw.CBWCB 0)

def IsRead : Prop := cbw.scsiCmd = some .read10 ∨ cbw.scsiCmd = some .read12
deriving Decidable

def IsWrite : Prop := cbw.scsiCmd = some .write10 ∨ cbw.scsiCmd = some .write12
deriving Decidable

def firstBlock : Nat := cbw.param 2 4

def blockCount : Nat :=
  match cbw.scsiCmd with
  | some .read10 | some .write10 => cbw.param 7 2
  | some .read12 | some .write12 => cbw.param 6 4
  | _ => 0

end Cbw

/-! ### The device -/

inductive BotState where
  | idle
  | dataOut
  | dataIn
  | lastDataIn
  | sendData
  | noData
deriving DecidableEq

inductive BotStatus where
  | normal
  | recovery
  | error
deriving DecidableEq

/-- `usb_msc_scsi_sense_data_t`. -/
structure SenseData where
  key : UInt8
  asc : UInt8
  ascq : UInt8

inductive RxTarget where
  | cbw
  | data
deriving DecidableEq

inductive MscEvent where
  | diskRead (sector count : Nat)
  | diskWrite (sector count : Nat) (bytes : List UInt8)
  | sent (bytes : List UInt8)

structure Moment where
  command : Cbw
  sentBytes : Nat
  received : List UInt8
  filled : List UInt8
  numSectors : Nat
  disk : Memory

/-- `usbd_msc_dev_t` with its two bulk endpoints and the disk. -/
structure MscDev where
  cbw : Cbw
  data : Memory
  dataLength : Nat
  numSectors : Nat
  lba : Nat
  blklen : Nat
  rxDataLength : Nat
  ro : Bool
  botState : BotState
  botStatus : BotStatus
  senseData : List SenseData
  senseHead : Nat
  senseTail : Nat
  isOpen : Bool
  phaseError : Bool
  bulkOut : Option (RxTarget × Nat)
  inFlight : Nat
  disk : Memory
  command : Cbw
  sentBytes : Nat
  received : List UInt8
  filled : List UInt8
  log : List (MscEvent × Moment)

structure DiskIo where
  fails : Bool
  capacity : Option UInt32

variable (s : MscDev)

namespace MscDev

def moment : Moment :=
  ⟨s.command, s.sentBytes, s.received, s.filled, s.numSectors, s.disk⟩

def record (event : MscEvent) (s : MscDev) : MscDev :=
  { s with log := s.log ++ [(event, s.moment)] }

/-- `memcpy` to the start of the data buffer. -/
def fill (bytes : List UInt8) (s : MscDev) : MscDev :=
  { s with data := s.data.store 0 bytes, filled := bytes }

/-- `usbd_msc_bulk_receive`. -/
def bulkReceive (target : RxTarget) (len : Nat) (s : MscDev) : MscDev :=
  { s with bulkOut := some (target, len) }

/-- `usbd_msc_bulk_transmit` of the data buffer. -/
def bulkTransmit (len : Nat) (s : MscDev) : MscDev :=
  let s := s.record (.sent (s.data.window 0 len))
  { s with inFlight := s.inFlight + 1, sentBytes := s.sentBytes + len }

/-- `usbd_msc_send_csw`. -/
def sendCsw : MscDev :=
  bulkReceive .cbw USB_MSC_CBW_LEN { s with botState := .idle, inFlight := s.inFlight + 1 }

/-- `usbd_msc_abort`. -/
def abort : MscDev :=
  let s :=
    if s.cbw.bmCBWFlags = 0 ∧ s.cbw.dCBWDataTransferLength ≠ 0 ∧ s.botStatus = .normal then
      { s with bulkOut := none }
    else s
  let s := { s with inFlight := 0 }
  if s.botStatus = .error then s.bulkReceive .cbw USB_MSC_CBW_LEN else s

/-- `usbd_scsi_sense_code`; `asc` is shifted out of its byte. -/
def senseCode (key asc : UInt8) (s : MscDev) : MscDev :=
  { s with
    senseData := s.senseData.modify s.senseTail fun data =>
      { data with key := key, asc := UInt8.ofNat (asc.toNat <<< 8) }
    senseTail := if s.senseTail + 1 = USBD_MSC_SENSE_LIST_DEPTH then 0 else s.senseTail + 1 }

/-- `disk_ops.disk_read` into the data buffer. -/
def diskRead (io : DiskIo) (count : Nat) (s : MscDev) : Except MscDev MscDev :=
  let s := s.record (.diskRead s.lba count)
  if io.fails then .error s
  else .ok (s.fill (s.disk.window (s.lba * USBD_MSC_BLK_SIZE) (count * USBD_MSC_BLK_SIZE)))

/-- `disk_ops.disk_write` from the data buffer. -/
def diskWrite (io : DiskIo) (count : Nat) (s : MscDev) : Except MscDev MscDev :=
  let bytes := s.data.window 0 (count * USBD_MSC_BLK_SIZE)
  let s := s.record (.diskWrite s.lba count bytes)
  if io.fails then .error s
  else .ok { s with disk := s.disk.store (s.lba * USBD_MSC_BLK_SIZE) bytes }

/-! ### The commands

A command that returns `-1` still leaves its changes behind: both results carry the device. -/

def illegalRequest : MscDev := s.senseCode 0x05 0x20

def notReady : MscDev := s.senseCode 0x02 0x3A

def testUnitReady : Except MscDev MscDev :=
  if s.cbw.dCBWDataTransferLength ≠ 0 then .error s.illegalRequest
  else if s.isOpen = false then .error { s.notReady with botState := .noData }
  else .ok { s with dataLength := 0 }

end MscDev

def page0InquiryData : List UInt8 :=
  [0x00, 0x00, 0x00, UInt8.ofNat (PAGE00_INQUIRY_DATA_LEN - 4), 0x00, 0x80, 0x83]

def standardInquiryData : List UInt8 :=
  [0x00, 0x80, 0x02, 0x02, 36 - 4, 0x00, 0x00, 0x00, 0x52, 0x65, 0x61, 0x6C, 0x54, 0x65, 0x6B, 0x20,
    0x53, 0x44, 0x20, 0x46, 0x6C, 0x61, 0x73, 0x68, 0x20,
    0x44, 0x69, 0x73, 0x6B, 0x20, 0x20, 0x20,
    0x31, 0x2E, 0x30, 0x20]

def modeSense6Data : List UInt8 := [0x03, 0x00, 0x00, 0x00]

def modeSense10Data : List UInt8 := [0x00, 0x06, 0x00, 0x00, 0x00, 0x00, 0x00, 0x00]

def lastBlock : List UInt8 :=
  (toLE 4 ((numSectors + 2 ^ 32 - 1) % 2 ^ 32)).reverse

def capacityData : List UInt8 :=
  lastBlock numSectors ++ (toLE 4 USBD_MSC_BLK_SIZE).reverse

def formatCapacityData : List UInt8 :=
  [0x00, 0x00, 0x00, 0x08] ++ lastBlock numSectors ++ 0x02 :: (toLE 3 USBD_MSC_BLK_SIZE).reverse

def requestSenseData (entry : Option SenseData) : List UInt8 :=
  let data := entry.getD ⟨0, 0, 0⟩
  [0x70, 0, data.key, 0, 0, 0, 0, UInt8.ofNat (REQUEST_SENSE_DATA_LEN - 6), 0, 0, 0, 0,
    data.ascq, data.asc, 0, 0, 0, 0]

namespace MscDev

def inquiry : Except MscDev MscDev :=
  if s.cbw.CBWCB 1 &&& 0x01 ≠ 0 then
    .ok { s.fill page0InquiryData with dataLength := PAGE00_INQUIRY_DATA_LEN }
  else
    let len := min (s.cbw.CBWCB 4).toNat INQUIRY_DATA_LEN
    .ok { s.fill (standardInquiryData.take len) with dataLength := len }

def readCapacity10 (io : DiskIo) (s : MscDev) : Except MscDev MscDev :=
  match io.capacity with
  | none => .error s.notReady
  | some sectors =>
    let s := { s with numSectors := sectors.toNat }
    .ok { s.fill (capacityData s.numSectors) with dataLength := READ_CAPACITY10_DATA_LEN }

def readFormatCapacity (io : DiskIo) (s : MscDev) : Except MscDev MscDev :=
  let s := s.fill (List.replicate READ_FORMAT_CAPACITY_DATA_LEN 0)
  match io.capacity with
  | none => .error s.notReady
  | some sectors =>
    let s := { s with numSectors := sectors.toNat }
    .ok { s.fill (formatCapacityData s.numSectors) with
      dataLength := READ_FORMAT_CAPACITY_DATA_LEN }

def modeSense6 : Except MscDev MscDev :=
  .ok { s.fill modeSense6Data with dataLength := MODE_SENSE6_DATA_LEN }

def modeSense10 : Except MscDev MscDev :=
  .ok { s.fill modeSense10Data with dataLength := MODE_SENSE10_DATA_LEN }

def requestSense : Except MscDev MscDev :=
  let len := min (s.cbw.CBWCB 4).toNat REQUEST_SENSE_DATA_LEN
  if s.senseHead ≠ s.senseTail then
    let head := s.senseHead + 1
    .ok { s.fill (requestSenseData s.senseData[s.senseHead]?) with
      senseHead := if head = USBD_MSC_SENSE_LIST_DEPTH then 0 else head
      dataLength := len }
  else .ok { s.fill (requestSenseData none) with dataLength := len }

def startStopUnit : Except MscDev MscDev :=
  let s := { s with dataLength := 0 }
  if s.cbw.CBWCB 4 &&& 0x01 ≠ 0 then
    if s.isOpen = false then .error s.notReady else .ok s
  else if s.cbw.CBWCB 4 &&& 0x02 = 0 then .ok s
  else .ok { s with isOpen := false }

/-- `usbd_scsi_prevent_allow` and the two MODE SELECT commands. -/
def noAnswer : Except MscDev MscDev := .ok { s with dataLength := 0 }

/-- `usbd_scsi_check_address_range`; the sum wraps at 32 bits. -/
def checkAddressRange (blkOffset blkNbr : Nat) (s : MscDev) : Except MscDev MscDev :=
  if (blkOffset + blkNbr) % 2 ^ 32 > s.numSectors then .error (s.senseCode 0x05 0x21) else .ok s

def verify10 : Except MscDev MscDev :=
  if s.cbw.CBWCB 1 &&& 0x02 = 0x02 then .error (s.senseCode 0x05 0x24)
  else
    match s.checkAddressRange s.lba s.blklen with
    | .error s => .error s
    | .ok s => .ok { s with dataLength := 0 }

def bytesLeft : Nat := s.blklen * USBD_MSC_BLK_SIZE % 2 ^ 32

/-- The start of `usbd_scsi_process_read`: a host that asks for less than the blocks of the
    command gets less. -/
def trimRead : MscDev × Nat :=
  if s.cbw.dCBWDataTransferLength < s.bytesLeft then
    ({ s with
        phaseError := true
        blklen := s.cbw.dCBWDataTransferLength >>> USBD_MSC_BLK_BITS },
      s.cbw.dCBWDataTransferLength)
  else (s, s.bytesLeft)

/-- `cdev->lba += count` and `cdev->blklen -= count`, where `count` is at most `blklen`. -/
def advance (count : Nat) (s : MscDev) : MscDev :=
  { s with lba := (s.lba + count) % 2 ^ 32, blklen := s.blklen - count }

def processRead (io : DiskIo) (s : MscDev) : Except MscDev MscDev :=
  let len := min s.trimRead.2 USBD_MSC_BUFLEN
  let count := len >>> USBD_MSC_BLK_BITS
  match s.trimRead.1.diskRead io count with
  | .error s => .error (s.senseCode 0x04 0x11)
  | .ok s =>
    let s := (s.bulkTransmit len).advance count
    .ok (if s.blklen = 0 then { s with botState := .lastDataIn } else s)

def writeLength : Nat := min s.bytesLeft USBD_MSC_BUFLEN

def processWrite (io : DiskIo) (s : MscDev) : Except MscDev MscDev :=
  let count := s.writeLength >>> USBD_MSC_BLK_BITS
  match s.diskWrite io count with
  | .error s => .error (s.senseCode 0x04 0x03)
  | .ok s =>
    let s := s.advance count
    .ok (if s.blklen = 0 then s.sendCsw else s.bulkReceive .data s.writeLength)

def setBlocks (cmd : ScsiCmd) (s : MscDev) : MscDev :=
  { s with
    lba := s.cbw.param 2 4
    blklen :=
      match cmd with
      | .read10 | .write10 => s.cbw.param 7 2
      | .read12 | .write12 => s.cbw.param 6 4
      | _ => s.blklen }

/-- `usbd_scsi_read`. -/
def scsiRead (io : DiskIo) (cmd : ScsiCmd) (s : MscDev) : Except MscDev MscDev :=
  if s.botState = .idle then
    if s.cbw.dCBWDataTransferLength = 0 then .error { s.illegalRequest with phaseError := true }
    else if s.cbw.bmCBWFlags &&& 0x80 ≠ 0x80 then .error s.illegalRequest
    else if s.isOpen = false then .error s.notReady
    else
      let s := s.setBlocks cmd
      match s.checkAddressRange s.lba s.blklen with
      | .error s => .error s
      | .ok s =>
        if s.blklen = 0 ∨ s.cbw.dCBWDataTransferLength > s.bytesLeft then .error s.illegalRequest
        else processRead io { s with botState := .dataIn, dataLength := USBD_MSC_BUFLEN }
  else processRead io { s with dataLength := USBD_MSC_BUFLEN }

/-- `usbd_scsi_write`. -/
def scsiWrite (io : DiskIo) (cmd : ScsiCmd) (s : MscDev) : Except MscDev MscDev :=
  if s.botState = .idle then
    if s.cbw.dCBWDataTransferLength = 0 then .error { s.illegalRequest with phaseError := true }
    else if s.cbw.bmCBWFlags &&& 0x80 = 0x80 then .error s.illegalRequest
    else if s.isOpen = false then .error s.notReady
    else if s.ro then .error (s.senseCode 0x02 0x27)
    else
      let s := s.setBlocks cmd
      match s.checkAddressRange s.lba s.blklen with
      | .error s => .error s
      | .ok s =>
        if s.cbw.dCBWDataTransferLength ≠ s.bytesLeft then .error s.illegalRequest
        else .ok (bulkReceive .data s.writeLength { s with botState := .dataOut })
  else processWrite io s

/-- `usbd_scsi_process_cmd`. -/
def processCmd (io : DiskIo) (s : MscDev) : Except MscDev MscDev :=
  match s.cbw.scsiCmd with
  | some .testUnitReady => s.testUnitReady
  | some .requestSense => s.requestSense
  | some .inquiry => s.inquiry
  | some .startStopUnit => s.startStopUnit
  | some .allowMediumRemoval => s.noAnswer
  | some .modeSense6 => s.modeSense6
  | some .modeSense10 => s.modeSense10
  | some .readFormatCapacities => s.readFormatCapacity io
  | some .readCapacity10 => s.readCapacity10 io
  | some .read12 => s.scsiRead io .read12
  | some .read10 => s.scsiRead io .read10
  | some .write12 => s.scsiWrite io .write12
  | some .write10 => s.scsiWrite io .write10
  | some .modeSelect6 => s.noAnswer
  | some .modeSelect10 => s.noAnswer
  | some .verify10 => s.verify10
  | none => .error s.illegalRequest

/-! ### The bulk endpoints -/

def CbwValid : Prop :=
  s.rxDataLength = USB_MSC_CBW_LEN ∧ s.cbw.dCBWSignature = USB_MSC_CBW_SIGN ∧
    s.cbw.bCBWLUN ≤ 1 ∧ 1 ≤ s.cbw.bCBWCBLength ∧ s.cbw.bCBWCBLength ≤ 16
deriving Decidable

def begin : MscDev :=
  { s with command := s.cbw, sentBytes := 0, received := [], filled := [] }

def refuse : MscDev :=
  if s.phaseError then { s.sendCsw with phaseError := false }
  else if s.botState = .noData then s.sendCsw
  else s.abort

/-- What follows a new command that succeeded, unless it has a data phase of its own. -/
def answer : MscDev :=
  if s.botState = .dataIn ∨ s.botState = .dataOut ∨ s.botState = .lastDataIn then s
  else if 0 < s.dataLength then
    let length := min s.cbw.dCBWDataTransferLength s.dataLength % 2 ^ 16
    bulkTransmit length { s with botState := .sendData }
  else s.sendCsw

def proceed (io : DiskIo) (s : MscDev) : MscDev :=
  match s.processCmd io with
  | .error s => s.sendCsw
  | .ok s => s

/-- `usbd_msc_rx_process`. -/
def rxProcess (io : DiskIo) (s : MscDev) : MscDev :=
  match s.botState with
  | .idle =>
    if s.CbwValid then
      match s.begin.processCmd io with
      | .error s => s.refuse
      | .ok s => s.answer
    else abort { s.illegalRequest with botStatus := .error }
  | .dataOut => s.proceed io
  | _ => s

/-- `usbd_msc_tx_process`, for a transfer that was complete or failed. -/
def txProcess (ok : Bool) (io : DiskIo) (s : MscDev) : MscDev :=
  if ok then
    match s.botState with
    | .dataIn => s.proceed io
    | .sendData | .lastDataIn =>
      if s.phaseError then { s.sendCsw with phaseError := false } else s.sendCsw
    | _ => s
  else s

/-- `usbd_msc_handle_ep_data_out`, when the endpoint has put the bytes in their buffer. -/
def handleEpDataOut (target : RxTarget) (bytes : List UInt8) (s : MscDev) : MscDev :=
  let s := { s with bulkOut := none, rxDataLength := bytes.length }
  match target with
  | .cbw => { s with cbw := s.cbw.store 0 bytes }
  | .data => { s.fill bytes with received := s.received ++ bytes }

/-- The Bulk-Only Mass Storage Reset of `usbd_msc_setup`. -/
def botReset : MscDev :=
  bulkReceive .cbw USB_MSC_CBW_LEN { s with botState := .idle, botStatus := .recovery }

/-- The CLEAR FEATURE request of `usbd_msc_setup`, for a bulk endpoint. -/
def clearFeature (dirIn : Bool) (s : MscDev) : MscDev :=
  let s := if dirIn then { s with inFlight := 0 } else { s with bulkOut := none }
  if s.botStatus = .error then { s with inFlight := 0, botStatus := .normal }
  else if dirIn = true ∧ s.botStatus ≠ .recovery then s.sendCsw
  else s

/-- `usbd_msc_set_config`. -/
def setConfig : MscDev :=
  bulkReceive .cbw USB_MSC_CBW_LEN
    { s with
      botState := .idle
      botStatus := .normal
      senseTail := 0
      senseHead := 0
      isOpen := true
      ro := false
      phaseError := false }

/-- `usbd_msc_clear_config`. -/
def clearConfig : MscDev :=
  { s with botState := .idle, isOpen := false, phaseError := false, bulkOut := none, inFlight := 0 }

def init (data disk : Memory) : MscDev where
  cbw := cbw
  data := data
  dataLength := 0
  numSectors := 0
  lba := 0
  blklen := 0
  rxDataLength := 0
  ro := false
  botState := .idle
  botStatus := .normal
  senseData := List.replicate USBD_MSC_SENSE_LIST_DEPTH ⟨0, 0, 0⟩
  senseHead := 0
  senseTail := 0
  isOpen := false
  phaseError := false
  bulkOut := none
  inFlight := 0
  disk := disk
  command := cbw
  sentBytes := 0
  received := []
  filled := []
  log := []

end MscDev

/-- A packet for the bulk OUT endpoint, the end of an IN transfer, or a request of the host. -/
inductive MscAction where
  | out (packet : List UInt8) (io : DiskIo)
  | txDone (ok : Bool) (io : DiskIo)
  | botReset
  | clearFeature (dirIn : Bool)
  | setConfig
  | clearConfig

def mscStep : MscAction → MscDev
  | .out packet io =>
    match s.bulkOut with
    | none => s
    | some (target, len) => (s.handleEpDataOut target (packet.take len)).rxProcess io
  | .txDone ok io =>
    if s.inFlight = 0 then s else MscDev.txProcess ok io { s with inFlight := s.inFlight - 1 }
  | .botReset => s.botReset
  | .clearFeature dirIn => s.clearFeature dirIn
  | .setConfig => s.setConfig
  | .clearConfig => s.clearConfig

end AmebaRtos.Usb
