import AmebaRtos.Ota.Process

/-!
# The slot that is checked and the slot that is programmed

`ota_storage_check_layout` and `download_parameter_init` each derive the slot of an image from the
slot the image runs from. The second one assigns both cases. The first one assigns `OTA_INDEX_2`
only, to a variable that outlives the loop iteration: behind an image that runs from OTA1, every
image is checked against its OTA2 slot.
-/

namespace AmebaRtos.Ota

open Lib List

/-- One round of the loop of `ota_storage_check_layout`. -/
structure LayoutCheck where
  hdr : SubHdr
  slotIdx : Slot
  startAddr : Nat
  endAddr : Nat
deriving DecidableEq, Repr

def LayoutCheck.passes (check : LayoutCheck) : Bool :=
  !decide (u32 ((check.endAddr : Int) - check.startAddr) < check.hdr.imgLen)

namespace Board

variable (board : Board)

def layoutChecksFrom : List SubHdr → (endAddr : Nat) → (slotIdx : Slot) → List LayoutCheck
  | [], _, _ => []
  | hdr :: rest, endAddr, slotIdx =>
    let slotIdx := if board.otaGetCurIndex hdr.imgID = .A then .B else slotIdx
    let endAddr : Nat := match imgKind? hdr.imgID with
      | some kind => board.layout.stop kind slotIdx
      | none => endAddr
    ⟨hdr, slotIdx, board.imgAddr hdr.imgID slotIdx, endAddr⟩ ::
      layoutChecksFrom rest endAddr slotIdx

def layoutChecks (hdrs : List SubHdr) : List LayoutCheck := board.layoutChecksFrom hdrs 0 .A

theorem checkLayoutFrom_eq_all (hdrs : List SubHdr) :
    board.checkLayoutFrom hdrs endAddr slotIdx =
      (board.layoutChecksFrom hdrs endAddr slotIdx).all LayoutCheck.passes := by
  induction hdrs generalizing endAddr slotIdx with
  | nil => rfl
  | cons hdr rest ih =>
    simp only [checkLayoutFrom, layoutChecksFrom, all_cons, LayoutCheck.passes, ih]
    cases imgKind? hdr.imgID <;> simp

/-- **The layout check is its rounds.** It accepts a header when every round passes. -/
theorem otaStorageCheckLayout_iff (hdrs : List SubHdr) :
    board.otaStorageCheckLayout hdrs = true ↔ ∀ check ∈ board.layoutChecks hdrs, check.passes := by
  simp [otaStorageCheckLayout, layoutChecks, checkLayoutFrom_eq_all]

theorem layoutChecksFrom_hdr (hdrs : List SubHdr) (endAddr : Nat) (slotIdx : Slot) :
    (board.layoutChecksFrom hdrs endAddr slotIdx).map LayoutCheck.hdr = hdrs := by
  induction hdrs generalizing endAddr slotIdx with
  | nil => rfl
  | cons hdr rest ih => simp [layoutChecksFrom, ih]

theorem layoutChecksFrom_addr {hdrs : List SubHdr} {endAddr : Nat} {slotIdx : Slot}
    {check : LayoutCheck} (hmem : check ∈ board.layoutChecksFrom hdrs endAddr slotIdx)
    {kind : ImgKind} (hkind : check.hdr.imgID = imgIDOf kind) :
    check.startAddr = board.layout.start kind check.slotIdx ∧
      check.endAddr = board.layout.stop kind check.slotIdx := by
  induction hdrs generalizing endAddr slotIdx with
  | nil => exact absurd hmem not_mem_nil
  | cons hdr rest ih =>
    rcases mem_cons.mp hmem with rfl | hrest
    · dsimp only at hkind
      simp [hkind]
    · exact ih hrest

/-! ### The slots of the rounds -/

def Agrees (check : LayoutCheck) : Prop := check.slotIdx = board.targetSlot check.hdr.imgID

theorem agrees_from_B (hdrs : List SubHdr) :
    (∀ check ∈ board.layoutChecksFrom hdrs endAddr .B, board.Agrees check) ↔
      ∀ hdr ∈ hdrs, board.otaGetCurIndex hdr.imgID = .A := by
  induction hdrs generalizing endAddr with
  | nil => simp [layoutChecksFrom]
  | cons hdr rest ih =>
    simp only [layoutChecksFrom, forall_mem_cons, ite_self, ih]
    cases hcur : board.otaGetCurIndex hdr.imgID <;> simp [Agrees, targetSlot, hcur]

theorem agrees_from_A (hdrs : List SubHdr) (endAddr : Nat) :
    (∀ check ∈ board.layoutChecksFrom hdrs endAddr .A, board.Agrees check) ↔
      hdrs.Pairwise fun hdr later =>
        board.otaGetCurIndex hdr.imgID = .A → board.otaGetCurIndex later.imgID = .A := by
  induction hdrs generalizing endAddr with
  | nil => simp [layoutChecksFrom]
  | cons hdr rest ih =>
    simp only [layoutChecksFrom, forall_mem_cons, pairwise_cons]
    cases hcur : board.otaGetCurIndex hdr.imgID with
    | A =>
      -- the images behind this one have to run from OTA1 as well
      have hrest : (∀ later ∈ rest, board.otaGetCurIndex later.imgID = .A) →
          rest.Pairwise fun hdr later =>
            board.otaGetCurIndex hdr.imgID = .A → board.otaGetCurIndex later.imgID = .A :=
        fun hall => pairwise_of_forall_mem_list fun _ _ later hlater _ => hall later hlater
      simp only [if_true, agrees_from_B, true_imp_iff]
      refine ⟨fun h => ⟨h.2, hrest h.2⟩, fun h => ⟨?_, h.1⟩⟩
      simp [Agrees, targetSlot, hcur]
    | B =>
      simp only [reduceCtorEq, if_false, false_imp_iff, implies_true, true_and, ih]
      simp [Agrees, targetSlot, hcur]

end Board

variable (board : Board) (hdrs : List SubHdr)

/-- `download_parameter_init` programs every image into the slot, between the addresses, the layout
    check was made for. -/
def ProgramsCheckedSlots : Prop :=
  ∀ (s : OtaState) (k : Nat) (check : LayoutCheck), s.fileImgHdr = hdrs → s.index = k →
    (board.layoutChecks hdrs)[k]? = some check →
    (downloadParameterInit board s).slotIdx = check.slotIdx ∧ ∀ kind, s.hdr.imgID = imgIDOf kind →
        (downloadParameterInit board s).flashAddr =
            u32 (chipOffset check.startAddr + MANIFEST_SIZE) ∧
          check.endAddr = board.layout.stop kind (downloadParameterInit board s).slotIdx

/-- No image that runs from OTA2 comes behind one that runs from OTA1. -/
def Ota2ImagesFirst : Prop :=
  hdrs.Pairwise fun hdr later =>
    board.otaGetCurIndex hdr.imgID = .A → board.otaGetCurIndex later.imgID = .A
deriving Decidable

theorem hdr_of_layoutChecks {board : Board} {s : OtaState} {check : LayoutCheck}
    (hcheck : (board.layoutChecks s.fileImgHdr)[s.index]? = some check) : s.hdr = check.hdr := by
  have hmap := congrArg (·[s.index]?) (board.layoutChecksFrom_hdr s.fileImgHdr 0 .A)
  simp only [List.getElem?_map] at hmap
  rw [show board.layoutChecksFrom s.fileImgHdr 0 .A = board.layoutChecks s.fileImgHdr from rfl,
    hcheck] at hmap
  simp [OtaState.hdr, ← hmap]

/-- **The programmed slot is the checked slot** exactly when the images that run from
    OTA2 come first. -/
theorem programs_checked_slots_iff :
    ProgramsCheckedSlots board hdrs ↔ Ota2ImagesFirst board hdrs := by
  constructor
  · intro hmatch
    refine (board.agrees_from_A hdrs 0).mp fun check hmem => ?_
    obtain ⟨k, hk⟩ := mem_iff_getElem?.mp hmem
    have hdr_eq := @hdr_of_layoutChecks board
      { initialState none with index := k, fileImgHdr := hdrs } check hk
    obtain ⟨hslot, _⟩ := hmatch { initialState none with index := k, fileImgHdr := hdrs } k check
      rfl rfl hk
    rw [Board.Agrees, ← hslot, ← hdr_eq]
    rfl
  · intro hfirst s k check hhdrs hindex hcheck
    subst hhdrs hindex
    have hmem := mem_of_getElem? hcheck
    have hagrees : check.slotIdx = board.targetSlot check.hdr.imgID :=
      (board.agrees_from_A s.fileImgHdr 0).mpr hfirst check hmem
    have hdr_eq := hdr_of_layoutChecks hcheck
    have hslot : (downloadParameterInit board s).slotIdx = check.slotIdx := by
      rw [hagrees, ← hdr_eq]
      rfl
    refine ⟨hslot, fun kind hkind => ?_⟩
    have haddr := board.layoutChecksFrom_addr hmem (hdr_eq ▸ hkind)
    rw [hslot]
    refine ⟨?_, haddr.2⟩
    have hstart : board.otaStorageGetImageAddr s.hdr.imgID (board.targetSlot s.hdr.imgID) =
        check.startAddr := by
      rw [haddr.1, hkind, Board.otaStorageGetImageAddr_imgIDOf, hagrees, ← hdr_eq, hkind]
    rw [← hstart]
    rfl

/-- The default layout, the application running from OTA2 and the bootloader from OTA1. -/
def appFromOta2 : Board :=
  { runningFromOta1 with
    remap := fun imgId =>
      if imgId = OTA_IMGID_APP then (Flash_Layout.start .app .B + 0x2000) / 32 * 512 + 1 else 0 }

/-- A header of the image `imgID`, which is 1000 bytes long. -/
def shortHdr (imgID : Nat) : SubHdr := ⟨[0x4F, 0x54, 0x41, 0x31], 24, 0, 1000, 56, imgID⟩

/-- The bootloader first: the application is checked against OTA2, the slot it runs from,
    and programmed into OTA1. -/
theorem other_slot_checked :
    appFromOta2.otaStorageCheckLayout [shortHdr OTA_IMGID_BOOT, shortHdr OTA_IMGID_APP] = true ∧
      ¬ ProgramsCheckedSlots appFromOta2 [shortHdr OTA_IMGID_BOOT, shortHdr OTA_IMGID_APP] := by
  refine ⟨by decide, fun hmatch => ?_⟩
  obtain ⟨hslot, _⟩ := hmatch
    { initialState none with
      index := 1, fileImgHdr := [shortHdr OTA_IMGID_BOOT, shortHdr OTA_IMGID_APP] }
    1 ⟨shortHdr OTA_IMGID_APP, .B, Flash_Layout.start .app .B, Flash_Layout.stop .app .B⟩
    rfl rfl (by decide)
  revert hslot
  decide

end AmebaRtos.Ota
