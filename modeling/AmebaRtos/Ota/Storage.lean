import AmebaRtos.Lib.NorFlash
import AmebaRtos.Lib.Word
import AmebaRtos.Layout
import AmebaRtos.Ota.Header

/-!
# OTA storage

`ota_storage.c` and `ameba_ota.c`: which slot of an image is active, where its
slots lie, the layout check, the checksum over the flash and the final manifest
update. Flash operations use offsets in the flash chip.
-/

namespace AmebaRtos.Ota

open Lib

/-- `sizeof(ota_manifest_t)`. -/
def MANIFEST_SIZE : Nat := 24

def SECTOR : Nat := 4096

/-- The flash layout, the `RSIP_REMAPxOR` registers, the fused address of the second bootloader, and
    the switch scheme. `tableTail` is what an index beyond `IMG_ADDR` reads. -/
structure Board where
  layout : FlashLayout
  tableTail : Nat → Slot → Nat
  remap : Nat → Nat
  secOtaAddr : Nat
  switchByValidHeader : Bool

def imgKind? (imgID : Nat) : Option ImgKind :=
  if imgID = OTA_IMGID_BOOT then some .boot
  else if imgID = OTA_IMGID_APP then some .app
  else none

def chipOffset (addr : Nat) : Nat := u32 ((addr : Int) - SPI_FLASH_BASE)

namespace Board

variable (board : Board)

/-- `IMG_ADDR[imgID][slotIdx]`. -/
def imgAddr (imgID : Nat) (slotIdx : Slot) : Nat :=
  match imgKind? imgID with
  | some kind => board.layout.start kind slotIdx
  | none => board.tableTail imgID slotIdx

/-- `ota_get_cur_index`, whose parameter is a `u8`. -/
def otaGetCurIndex (imgID : Nat) : Slot :=
  let imgId := imgID % 256
  let addrStart := board.remap imgId
  if addrStart % 2 = 1 then
    let phyAddr := (addrStart >>> 9) <<< 5
    let header : Nat := if imgId = OTA_IMGID_APP then 0x2000 else 0x1000
    if u32 ((phyAddr : Int) - header) = board.imgAddr imgId .A then .A else .B
  else .A

def targetSlot (imgID : Nat) : Slot :=
  if board.otaGetCurIndex imgID = .A then .B else .A

/-- `ota_check_bootloader_ota2() != 0`. -/
def otaCheckBootloaderOta2 : Bool :=
  let imgAddr := if board.secOtaAddr ≠ 0xFFFF then board.secOtaAddr <<< 12 else 0
  decide (imgAddr ≠ board.imgAddr OTA_IMGID_BOOT .B)

/-- `ota_storage_get_image_addr`, whose first parameter is a `u8`. -/
def otaStorageGetImageAddr (imgID : Nat) (slotIdx : Slot) : Nat :=
  if imgID % 256 ≥ OTA_IMGID_MAX then 0 else board.imgAddr (imgID % 256) slotIdx

/-- The loop of `ota_storage_check_layout`. `endAddr` and `slotIdx` keep their values from one image
    to the next. -/
def checkLayoutFrom : List SubHdr → (endAddr : Nat) → (slotIdx : Slot) → Bool
  | [], _, _ => true
  | hdr :: rest, endAddr, slotIdx =>
    let slotIdx := if board.otaGetCurIndex hdr.imgID = .A then .B else slotIdx
    let endAddr : Nat := match imgKind? hdr.imgID with
      | some kind => board.layout.stop kind slotIdx
      | none => endAddr
    let startAddr := board.imgAddr hdr.imgID slotIdx
    if u32 ((endAddr : Int) - startAddr) < hdr.imgLen then false
    else checkLayoutFrom rest endAddr slotIdx

def otaStorageCheckLayout (hdrs : List SubHdr) : Bool := board.checkLayoutFrom hdrs 0 .A

/-- `ota_storage_verify_checksum`, with the cached manifest and the flash. -/
def otaStorageVerifyChecksum (hdr : SubHdr) (manifest : List UInt8) (slotIdx : Slot)
    (flash : Memory) : Bool :=
  let addr := chipOffset (board.imgAddr hdr.imgID slotIdx)
  let len := u32 ((hdr.imgLen : Int) - MANIFEST_SIZE)
  let body := flash.window (addr + MANIFEST_SIZE) len
  decide (((manifest.map UInt8.toNat).sum + (body.map UInt8.toNat).sum) % 2 ^ 32 = hdr.checksum)

/-- `ota_storage_update_manifest`: its writes, the pattern last, and whether it returns `OTA_OK`.
    `CONFIG_OTA_SWITCH_BY_VALID_HEADER` then clears the old pattern. -/
def otaStorageUpdateManifest (hdr : SubHdr) (manifest : List UInt8) (slotIdx : Slot) :
    List FlashOp × Bool :=
  let addr := chipOffset (board.imgAddr hdr.imgID slotIdx)
  let writes : List FlashOp :=
    [.write (u32 (addr + 8)) (manifest.drop 8), .write addr (manifest.take 8)]
  if board.switchByValidHeader then
    if hdr.signed then
      let oldAddr := chipOffset (board.imgAddr hdr.imgID slotIdx.other)
      (writes ++ [.write oldAddr (List.replicate 8 0)], true)
    else (writes, false)
  else (writes, true)

end Board

/-- The default layout with both images running from OTA1 and the second bootloader
    fused. -/
def runningFromOta1 : Board where
  layout := Flash_Layout
  tableTail := fun _ _ => 0
  remap := fun _ => 0
  secOtaAddr := 0x8200
  switchByValidHeader := false

/-! ### Images with a slot pair -/

/-- The ID of an image in an OTA file. -/
def imgIDOf : ImgKind → Nat
  | .boot => OTA_IMGID_BOOT
  | .app => OTA_IMGID_APP

@[simp] theorem imgKind?_imgIDOf : imgKind? (imgIDOf kind) = some kind := by
  cases kind <;> rfl

theorem imgIDOf_inj (h : imgIDOf kind = imgIDOf kind') : kind = kind' := by
  cases kind <;> cases kind' <;> first | rfl | cases h

theorem chipOffset_start (layout : FlashLayout) :
    chipOffset (layout.start kind i) = layout.offset kind i := by
  have hbase := layout.base_le kind i
  have hlt := layout.start_lt_stop kind i
  have hstop := layout.stop_lt kind i
  unfold chipOffset FlashLayout.offset u32
  omega

namespace Board

variable (board : Board)

def newSlot (kind : ImgKind) : Slot := board.targetSlot (imgIDOf kind)

def activeSlot (kind : ImgKind) : Slot := board.otaGetCurIndex (imgIDOf kind)

theorem activeSlot_eq : board.activeSlot kind = (board.newSlot kind).other := by
  unfold activeSlot newSlot targetSlot
  cases board.otaGetCurIndex (imgIDOf kind) <;> rfl

def newOffset (kind : ImgKind) : Nat := board.layout.offset kind (board.newSlot kind)

def newSize (kind : ImgKind) : Nat := board.layout.slotSize kind (board.newSlot kind)

variable {board}

theorem newOffset_aligned (kind : ImgKind) : board.newOffset kind % SECTOR = 0 :=
  board.layout.offset_aligned kind _

theorem newOffset_add_newSize_le (kind : ImgKind) :
    board.newOffset kind + board.newSize kind ≤ 0x08000000 :=
  board.layout.offset_add_slotSize_le kind _

theorem newSize_ge (kind : ImgKind) : SECTOR ≤ board.newSize kind := by
  have hlt := board.layout.start_lt_stop kind (board.newSlot kind)
  have haligned := board.layout.slotSize_aligned kind (board.newSlot kind)
  unfold newSize
  unfold FlashLayout.slotSize at haligned ⊢
  simp only [SECTOR]
  omega

@[simp] theorem imgAddr_imgIDOf : board.imgAddr (imgIDOf kind) i = board.layout.start kind i := by
  simp [imgAddr]

theorem otaStorageGetImageAddr_imgIDOf :
    board.otaStorageGetImageAddr (imgIDOf kind) i = board.layout.start kind i := by
  cases kind <;> rfl

theorem otaStorageUpdateManifest_signed (h : hdr.signed = true) :
    (board.otaStorageUpdateManifest hdr manifest slotIdx).2 = true := by
  unfold otaStorageUpdateManifest
  split <;> rfl

theorem checkLayoutFrom_cons (h : board.checkLayoutFrom (hdr :: rest) endAddr slotIdx = true) :
    (∀ kind, hdr.imgID = imgIDOf kind → ∃ i,
      hdr.imgLen ≤ u32 ((board.layout.stop kind i : Int) - board.layout.start kind i)) ∧
    ∃ endAddr' slotIdx', board.checkLayoutFrom rest endAddr' slotIdx' = true := by
  simp only [checkLayoutFrom] at h
  generalize (if board.otaGetCurIndex hdr.imgID = .A then Slot.B else slotIdx) = i at h
  split at h
  · split at h
    · cases h
    rename_i hkind hfits
    refine ⟨fun kind' hid => ⟨i, ?_⟩, _, _, h⟩
    rw [hid, imgKind?_imgIDOf] at hkind
    cases hkind
    rw [hid, imgAddr_imgIDOf] at hfits
    exact Nat.le_of_not_lt hfits
  · split at h
    · cases h
    rename_i hkind _
    refine ⟨fun kind hid => ?_, _, _, h⟩
    rw [hid, imgKind?_imgIDOf] at hkind
    cases hkind

theorem imgLen_lt_of_checkLayout (h : board.checkLayoutFrom hdrs endAddr slotIdx = true)
    (hmem : hdr ∈ hdrs) (hkind : hdr.imgID = imgIDOf kind) : hdr.imgLen < 2 ^ 28 := by
  induction hdrs generalizing endAddr slotIdx with
  | nil => exact absurd hmem List.not_mem_nil
  | cons first rest ih =>
    obtain ⟨hfits, _, _, htail⟩ := checkLayoutFrom_cons h
    rcases List.mem_cons.mp hmem with rfl | hrest
    · obtain ⟨i, hle⟩ := hfits kind hkind
      have hlt := board.layout.start_lt_stop kind i
      have hstop := board.layout.stop_lt kind i
      unfold u32 at hle
      omega
    · exact ih htail hrest

end Board

end AmebaRtos.Ota
