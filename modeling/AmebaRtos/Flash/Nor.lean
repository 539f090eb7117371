import AmebaRtos.Boot.LzmaWriter

/-!
# Writing and erasing NOR flash

`FLASH_WriteStream` cuts a write at the pages of the flash, with the loop that the decompressor of
the bootloader has a copy of. `nor_ftl_erase` puts an erase together from blocks and sectors.
-/

namespace AmebaRtos.Flash

open Lib Boot List

/-! ### Writes -/

/-- `FLASH_WriteStream`, for a source that is not in the flash: it asserts that. -/
def flashWriteStream (address : Nat) (pbuf : List UInt8) : List RangeOp :=
  if pbuf.length = 0 then [] else bootLzmaFlashWriteStream address pbuf

/-- Consecutive writes within pages, from an address on, that together write these bytes. -/
def Covers : (addr : Nat) → (bytes : List UInt8) → List RangeOp → Prop
  | _, bytes, [] => bytes = []
  | addr, bytes, .write a data :: rest =>
    a = addr ∧ data ≠ [] ∧ addr / 0x100 = (addr + data.length - 1) / 0x100 ∧
      data = bytes.take data.length ∧ Covers (addr + data.length) (bytes.drop data.length) rest
  | _, _, .erase .. :: _ => False

theorem txPages_covers (h : PagesLeft stop pageCnt addrBegin addrEnd pbuf) :
    Covers addrBegin pbuf (txPages stop (pageCnt + 1) addrBegin addrEnd pbuf) := by
  have hlen := h.len
  have hpages := h.pages
  induction pageCnt generalizing addrBegin addrEnd pbuf with
  | zero =>
    have hnext : addrEnd = stop := h.next
    have hsize : addrEnd - addrBegin = pbuf.length := by omega
    rw [txPages, hsize, take_length]
    exact ⟨rfl, h.pos, by omega, take_length.symm, drop_length⟩
  | succ pageCnt ih =>
    have hnext : addrEnd = (addrBegin / 256 + 1) * 256 := h.next
    obtain ⟨hend, hrest⟩ := h.rest
    have hsize : (pbuf.take (addrEnd - addrBegin)).length = addrEnd - addrBegin := by omega
    refine ⟨rfl, ne_nil_of_length_pos (by omega), by omega, by rw [hsize], ?_⟩
    rw [hend, hsize]
    exact ih hrest hrest.len hrest.pages

/-- **A write is cut at the pages**: its pieces are consecutive, not empty, each within one page,
    and carry the bytes of the source. -/
theorem write_stream_covers (address : Nat) (pbuf : List UInt8) (hpos : 0 < pbuf.length)
    (_hfits : address + pbuf.length < 2 ^ 32) :
    Covers address pbuf (flashWriteStream address pbuf) := by
  obtain ⟨pageCnt, addrEnd, hpages, hstream⟩ := pagesLeft_stream (length_pos_iff.mp hpos)
  rw [flashWriteStream, if_neg (Nat.ne_of_gt hpos), hstream]
  exact txPages_covers hpages

theorem write_across_page : Covers 0xFE [1, 2, 3] (flashWriteStream 0xFE [1, 2, 3]) :=
  write_stream_covers 0xFE [1, 2, 3] (by decide) (by decide)

/-! ### Erases -/

def SPI_FLASH_BASE : Nat := 0x08000000

def IsFlashAddr (addr : Nat) : Prop := SPI_FLASH_BASE ≤ addr ∧ addr ≤ 0x0FFFFFFF
deriving Decidable

inductive EraseType where
  | chip
  | block64k
  | block32k
  | sector
deriving DecidableEq

/-- The number of 4 KB sectors that an erase is of. -/
def EraseType.sectors : EraseType → Nat
  | .chip => 2 ^ 20
  | .block64k => 16
  | .block32k => 8
  | .sector => 1

/-- A call of `FLASH_Erase`. -/
structure FlashErase where
  kind : EraseType
  addr : Nat
deriving DecidableEq

def eraseKind (eraseAddr sizeIn4kb : Nat) : EraseType :=
  if eraseAddr % 0x10000 = 0 ∧ 16 ≤ sizeIn4kb then .block64k
  else if eraseAddr % 0x8000 = 0 ∧ 8 ≤ sizeIn4kb then .block32k
  else .sector

/-- Every round takes a sector at least: the number of sectors is fuel enough. -/
def eraseLoop : (fuel eraseAddr sizeIn4kb : Nat) → List FlashErase
  | 0, _, _ => []
  | fuel + 1, eraseAddr, sizeIn4kb =>
    if sizeIn4kb = 0 then []
    else
      let kind := eraseKind eraseAddr sizeIn4kb
      ⟨kind, eraseAddr⟩ ::
        eraseLoop fuel ((eraseAddr + kind.sectors * 0x1000) % 2 ^ 32) (sizeIn4kb - kind.sectors)

def norFtlErase (addr size : Nat) : List FlashErase :=
  let sizeIn4kb := (size + 4095) % 2 ^ 32 / 4096
  if IsFlashAddr addr then
    if addr = SPI_FLASH_BASE ∧ size = 0xFFFFFFFF then [⟨.chip, 0⟩]
    else
      let offset := addr - SPI_FLASH_BASE
      eraseLoop sizeIn4kb (offset - offset % 4096) sizeIn4kb
  else []

def FlashErase.Erases (op : FlashErase) (k : Nat) : Prop :=
  op.addr / 4096 ≤ k ∧ k < op.addr / 4096 + op.kind.sectors

/-- Exactly the sectors that intersect the range are erased, by aligned erases. -/
def ErasesExactly (offset size : Nat) (ops : List FlashErase) : Prop :=
  (∀ k, (∃ op ∈ ops, op.Erases k) ↔ k * 4096 < offset + size ∧ offset < (k + 1) * 4096) ∧
    ∀ op ∈ ops, op.addr % (op.kind.sectors * 4096) = 0

theorem eraseKind_spec (haddr : eraseAddr % 4096 = 0) (hlt : eraseAddr < 2 ^ 32) (hn : n ≠ 0) :
    1 ≤ (eraseKind eraseAddr n).sectors ∧ (eraseKind eraseAddr n).sectors ≤ n ∧
      eraseAddr % ((eraseKind eraseAddr n).sectors * 4096) = 0 ∧
      eraseAddr + (eraseKind eraseAddr n).sectors * 4096 ≤ 2 ^ 32 := by
  rw [eraseKind]
  split
  · simp only [EraseType.sectors]
    omega
  · split <;> simp only [EraseType.sectors] <;> omega

theorem eraseLoop_aligned (haddr : eraseAddr % 4096 = 0) (hlt : eraseAddr < 2 ^ 32)
    (hop : op ∈ eraseLoop fuel eraseAddr n) :
    op.addr % (op.kind.sectors * 4096) = 0 ∧ op.addr + op.kind.sectors * 4096 ≤ 2 ^ 32 := by
  induction fuel generalizing eraseAddr n with
  | zero => cases hop
  | succ fuel ih =>
    rw [eraseLoop] at hop
    split at hop
    · cases hop
    · rename_i hn
      obtain ⟨-, -, halign, hle⟩ := eraseKind_spec haddr hlt hn
      rcases mem_cons.mp hop with rfl | hop
      · exact ⟨halign, hle⟩
      · exact ih (by omega) (by omega) hop

theorem eraseLoop_erases (haddr : eraseAddr % 4096 = 0) (hlt : eraseAddr + n * 4096 ≤ 2 ^ 32)
    (hfuel : n ≤ fuel) :
    (∃ op ∈ eraseLoop fuel eraseAddr n, op.Erases k) ↔
      eraseAddr / 4096 ≤ k ∧ k < eraseAddr / 4096 + n := by
  induction fuel generalizing eraseAddr n with
  | zero => simp [eraseLoop, show n = 0 by omega]
  | succ fuel ih =>
    rw [eraseLoop]
    split <;> rename_i hn
    · simp [hn]
    · obtain ⟨hpos, hle, -, -⟩ := eraseKind_spec haddr (by omega) hn
      have hrest := @ih ((eraseAddr + (eraseKind eraseAddr n).sectors * 0x1000) % 2 ^ 32)
        (n - (eraseKind eraseAddr n).sectors) (by omega) (by omega) (by omega)
      simp only [mem_cons, exists_eq_or_imp, hrest]
      simp only [FlashErase.Erases]
      omega

/-- **An erase is exact** if and only if it does not pass the end of the addresses, and its first
    and last sector add up to no more than was counted. -/
theorem nor_erase_exact_iff (addr size : Nat) (haddr : IsFlashAddr addr)
    (hsize : 0 < size ∧ size < 2 ^ 32) (hchip : ¬ (addr = SPI_FLASH_BASE ∧ size = 0xFFFFFFFF)) :
    ErasesExactly (addr - SPI_FLASH_BASE) size (norFtlErase addr size) ↔
      addr - SPI_FLASH_BASE + size ≤ 2 ^ 32 ∧ size + 4095 < 2 ^ 32 ∧
        (addr - SPI_FLASH_BASE) % 4096 + (size - 1) % 4096 < 4096 := by
  have hoffset : addr - SPI_FLASH_BASE < 2 ^ 32 := by
    have := haddr.2
    omega
  simp only [norFtlErase, if_pos haddr, if_neg hchip]
  generalize addr - SPI_FLASH_BASE = offset at hoffset
  have hstart : (offset - offset % 4096) % 4096 = 0 := by omega
  have haligned {n op} (hop : op ∈ eraseLoop n (offset - offset % 4096) n) :=
    eraseLoop_aligned hstart (by omega) hop
  by_cases hcount : size + 4095 < 2 ^ 32
  · rw [Nat.mod_eq_of_lt hcount]
    by_cases hend : offset + size ≤ 2 ^ 32
    · have herases {k} := @eraseLoop_erases _ _ _ k hstart
        (show _ + (size + 4095) / 4096 * 4096 ≤ _ by omega) (Nat.le_refl _)
      constructor
      · intro h
        have hbehind := h.1 ((offset - offset % 4096) / 4096 + (size + 4095) / 4096)
        rw [herases] at hbehind
        omega
      · intro h
        refine ⟨fun k => ?_, fun op hop => (haligned hop).1⟩
        rw [herases]
        omega
    · refine iff_of_false (fun h => ?_) fun h => hend h.1
      -- the last sector of the range is not one of a 32 bit address
      obtain ⟨op, hop, herases⟩ := (h.1 ((offset + size - 1) / 4096)).mpr (by omega)
      have hle := (haligned hop).2
      have hlt := herases.2
      omega
  · refine iff_of_false (fun h => ?_) fun h => hcount h.2.1
    have hzero : (size + 4095) % 2 ^ 32 / 4096 = 0 := by omega
    obtain ⟨op, hop, -⟩ := (h.1 (offset / 4096)).mpr (by omega)
    rw [hzero] at hop
    cases hop

theorem nor_erase_exact :
    ErasesExactly (0x08007000 - SPI_FLASH_BASE) 0x9000 (norFtlErase 0x08007000 0x9000) :=
  (nor_erase_exact_iff 0x08007000 0x9000 (by decide) (by omega) (by decide)).mpr (by decide)

/-- Of two sectors that a range is in, one is erased. -/
theorem nor_erase_short : norFtlErase (SPI_FLASH_BASE + 0x800) 0x1000 = [⟨.sector, 0⟩] ∧
    ¬ ErasesExactly 0x800 0x1000 [⟨.sector, 0⟩] := by
  refine ⟨by decide, fun h => ?_⟩
  obtain ⟨op, hop, herases⟩ := (h.1 1).mpr (by decide)
  rw [mem_singleton.mp hop] at herases
  exact absurd herases.2 (by decide)

/-! ### Erase and write -/

instance (op : FlashErase) (k : Nat) : Decidable (op.Erases k) :=
  inferInstanceAs (Decidable (_ ∧ _))

def FlashErase.applyAll (ops : List FlashErase) (mem : Memory) : Memory := fun a =>
  if ∃ op ∈ ops, op.Erases (a / 4096) then 0xFF else mem a

/-- **A range that is erased and written** holds what was written, the rest of its sectors is
    erased, and no other byte changes, if its first and last sector add up to no more than
    counted. -/
theorem nor_erased_written {addr : Nat} (haddr : IsFlashAddr addr) {pbuf : List UInt8}
    (hpos : pbuf ≠ []) (hsize : pbuf.length ≤ 2 ^ 31)
    (hcount : (addr - SPI_FLASH_BASE) % 4096 + (pbuf.length - 1) % 4096 < 4096)
    (mem : Memory) (a : Nat) :
    let offset := addr - SPI_FLASH_BASE
    RangeOp.applyAll (flashWriteStream offset pbuf)
        (FlashErase.applyAll (norFtlErase addr pbuf.length) mem) a =
      if offset ≤ a ∧ a < offset + pbuf.length then pbuf.getD (a - offset) 0xFF
      else if offset / 4096 ≤ a / 4096 ∧ a / 4096 ≤ (offset + pbuf.length - 1) / 4096 then 0xFF
      else mem a := by
  intro offset
  have hlen := length_pos_iff.mpr hpos
  have hoffset : offset < 2 ^ 28 := Nat.lt_of_le_of_lt (Nat.sub_le _ _) (Nat.lt_succ_of_le haddr.2)
  have herases : (∃ op ∈ norFtlErase addr pbuf.length, op.Erases (a / 4096)) ↔
      offset / 4096 ≤ a / 4096 ∧ a / 4096 ≤ (offset + pbuf.length - 1) / 4096 := by
    rw [norFtlErase, if_pos haddr, if_neg (by omega)]
    refine (eraseLoop_erases (by omega) (by omega) (Nat.le_refl _)).trans ?_
    omega
  obtain ⟨pageCnt, addrEnd, hpages, hstream⟩ := pagesLeft_stream hpos
  rw [flashWriteStream, if_neg (Nat.ne_of_gt hlen), hstream, txPages_apply hpages]
  simp only [RangeOp.apply, FlashErase.applyAll, herases]
  split_ifs with hin hsector
  · exact erased_and _
  · omega
  · rfl
  · rfl

/-- Two bytes across the end of a page. -/
theorem nor_two_written :
    RangeOp.applyAll (flashWriteStream 0xFF [1, 2])
      (FlashErase.applyAll (norFtlErase 0x080000FF 2) fun _ => 0) 0x100 = 2 :=
  @nor_erased_written 0x080000FF (by decide) [1, 2] (by decide) (by decide) (by decide)
    (fun _ => 0) 0x100

end AmebaRtos.Flash
