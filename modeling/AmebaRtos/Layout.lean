import Mathlib.Tactic.Common

/-!
# Images, slots and the flash layout

Both the bootloader and the OTA code address the flash by image and slot. The
layout (`ameba_flashcfg.c`) gives each slot its first and last byte as addresses
on the bus, where the flash starts at `SPI_FLASH_BASE`.
-/

namespace AmebaRtos

/-- The two slots of an image: OTA1 is `A` (`OTA_INDEX_1`), OTA2 is `B`. -/
inductive Slot where
  | A
  | B
deriving DecidableEq, Repr

namespace Slot

def index : Slot → Nat
  | A => 0
  | B => 1

/-- `(i + 1) % 2`. -/
def other : Slot → Slot
  | A => B
  | B => A

def set (entries : Slot → α) (i : Slot) (value : α) : Slot → α :=
  fun j => if j = i then value else entries j

@[simp] theorem set_same : set entries i value i = value := by
  simp [set]

@[simp] theorem other_ne (i : Slot) : i.other ≠ i := by
  cases i <;> decide

theorem eq_or_eq_other (i j : Slot) : j = i ∨ j = i.other := by
  cases i <;> cases j <;> simp [other]

end Slot

def SPI_FLASH_BASE : Nat := 0x08000000

/-- The images with an OTA slot pair. -/
inductive ImgKind where
  | boot
  | app
deriving DecidableEq, Repr

structure FlashLayout where
  start : ImgKind → Slot → Nat
  stop : ImgKind → Slot → Nat
  base_le : ∀ kind i, SPI_FLASH_BASE ≤ start kind i
  start_lt_stop : ∀ kind i, start kind i < stop kind i
  stop_lt : ∀ kind i, stop kind i < 0x10000000
  start_aligned : ∀ kind i, start kind i % 4096 = 0
  stop_aligned : ∀ kind i, (stop kind i + 1) % 4096 = 0
  separate : ∀ kind i kind' i', (kind, i) ≠ (kind', i') →
    stop kind i < start kind' i' ∨ stop kind' i' < start kind i

namespace FlashLayout

variable (layout : FlashLayout)

def offset (kind : ImgKind) (i : Slot) : Nat := layout.start kind i - SPI_FLASH_BASE

def slotSize (kind : ImgKind) (i : Slot) : Nat := layout.stop kind i + 1 - layout.start kind i

/-- The byte at chip offset `a` belongs to the slot. -/
def InSlot (kind : ImgKind) (i : Slot) (a : Nat) : Prop :=
  layout.offset kind i ≤ a ∧ a < layout.offset kind i + layout.slotSize kind i
deriving Decidable

theorem offset_aligned (kind : ImgKind) (i : Slot) : layout.offset kind i % 4096 = 0 := by
  have hstart := layout.start_aligned kind i
  have hbase := layout.base_le kind i
  unfold offset
  simp only [SPI_FLASH_BASE] at hbase ⊢
  omega

theorem slotSize_aligned (kind : ImgKind) (i : Slot) : layout.slotSize kind i % 4096 = 0 := by
  have hstart := layout.start_aligned kind i
  have hstop := layout.stop_aligned kind i
  unfold slotSize
  omega

theorem offset_add_slotSize_le (kind : ImgKind) (i : Slot) :
    layout.offset kind i + layout.slotSize kind i ≤ 0x08000000 := by
  have hbase := layout.base_le kind i
  have hlt := layout.start_lt_stop kind i
  have hstop := layout.stop_lt kind i
  unfold offset slotSize
  simp only [SPI_FLASH_BASE] at hbase ⊢
  omega

theorem not_inSlot_of_ne (hne : (kind, i) ≠ (kind', i')) (h : layout.InSlot kind i a) :
    ¬ layout.InSlot kind' i' a := by
  intro h'
  have hsep := layout.separate kind i kind' i' hne
  have hbase := layout.base_le kind i
  have hbase' := layout.base_le kind' i'
  unfold InSlot offset slotSize at h h'
  omega

end FlashLayout

/-- `Flash_Layout` of the default configuration. -/
def Flash_Layout : FlashLayout where
  start
    | .boot, .A => 0x08000000
    | .app, .A => 0x08014000
    | .boot, .B => 0x08200000
    | .app, .B => 0x08214000
  stop
    | .boot, .A => 0x08013FFF
    | .app, .A => 0x081FFFFF
    | .boot, .B => 0x08213FFF
    | .app, .B => 0x083DCFFF
  base_le kind i := by cases kind <;> cases i <;> decide
  start_lt_stop kind i := by cases kind <;> cases i <;> decide
  stop_lt kind i := by cases kind <;> cases i <;> decide
  start_aligned kind i := by cases kind <;> cases i <;> decide
  stop_aligned kind i := by cases kind <;> cases i <;> decide
  separate kind i kind' i' hne := by
    cases kind <;> cases i <;> cases kind' <;> cases i' <;>
      first
      | exact absurd rfl hne
      | decide

end AmebaRtos
