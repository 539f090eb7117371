import AmebaRtos.Lib.RangeFlash

/-!
# Writing a decompressed image

`ameba_boot_lzma.c`, built with `BOOTLZMA_CMP_DATA_BEFORE_ERASE`. Every decoded file goes to
`bootLzma_flash_write`, which takes it sector by sector. A sector that holds the data already is
left alone. Any other is erased, together with the block of 64 KB that it starts if that lies in
the announced range, and programmed page by page. Two globals remember where the blocks to erase
end and which was erased last. Addresses are offsets in the flash.
-/

namespace AmebaRtos.Boot

open Lib List

def BOOTLZMA_ERASE_SECTOR_SIZE : Nat := 4096
def BOOTLZMA_ERASE_BLOCK_SIZE : Nat := 4096 * 16
def BOOTLZMA_DECOMP_FILE_SIZE : Nat := 16384

structure LzmaWriter where
  flash : Memory
  gLastBlockAddr : Nat
  gCurrBlockAddr : Nat
  ops : List RangeOp

/-- The globals as the bootloader starts. -/
def LzmaWriter.boot (flash : Memory) : LzmaWriter := ⟨flash, 0, 0xFFFFFFFF, []⟩

variable (w : LzmaWriter)

def LzmaWriter.issue (ops : List RangeOp) : LzmaWriter :=
  { w with flash := RangeOp.applyAll ops w.flash, ops := w.ops ++ ops }

/-- The loop over the pages; the next one goes from `addrBegin` to `addrEnd`. -/
def txPages (stop : Nat) : Nat → Nat → Nat → List UInt8 → List RangeOp
  | 0, _, _, _ => []
  | pageCnt + 1, addrBegin, addrEnd, pbuf =>
    .write addrBegin (pbuf.take (addrEnd - addrBegin)) ::
      txPages stop pageCnt addrEnd (if pageCnt = 1 then stop else addrEnd + 0x100)
        (pbuf.drop (addrEnd - addrBegin))

def bootLzmaFlashWriteStream (address : Nat) (pbuf : List UInt8) : List RangeOp :=
  let stop := address + pbuf.length
  let pageBegin := address / 0x100 * 0x100
  let pageEnd := (stop - 1) / 0x100 * 0x100
  let pageCnt := (pageEnd - pageBegin) / 0x100 + 1
  txPages stop pageCnt address (if pageCnt = 1 then stop else pageBegin + 0x100) pbuf

def LzmaWriter.eraseFor (sectorAddr : Nat) : LzmaWriter :=
  if sectorAddr % BOOTLZMA_ERASE_BLOCK_SIZE = 0 ∧ sectorAddr < w.gLastBlockAddr then
    { w.issue [.erase sectorAddr BOOTLZMA_ERASE_BLOCK_SIZE] with gCurrBlockAddr := sectorAddr }
  else if w.gCurrBlockAddr < sectorAddr ∧
      sectorAddr < (w.gCurrBlockAddr + BOOTLZMA_ERASE_BLOCK_SIZE) % 2 ^ 32 then w
  else w.issue [.erase sectorAddr BOOTLZMA_ERASE_SECTOR_SIZE]

def LzmaWriter.writeSector (sectorAddr : Nat) (bytes : List UInt8) :
    LzmaWriter :=
  if w.flash.window sectorAddr bytes.length = bytes then w
  else (w.eraseFor sectorAddr).issue (bootLzmaFlashWriteStream sectorAddr bytes)

/-- The loop over the sectors of `writeData`. -/
def LzmaWriter.writeSectors (w : LzmaWriter) : Nat → Nat → List UInt8 → LzmaWriter
  | 0, _, _ => w
  | sectors + 1, sectorAddr, writeData =>
    (w.writeSector sectorAddr (writeData.take BOOTLZMA_ERASE_SECTOR_SIZE)).writeSectors sectors
      (sectorAddr + BOOTLZMA_ERASE_SECTOR_SIZE) (writeData.drop BOOTLZMA_ERASE_SECTOR_SIZE)

/-- `bootLzma_flash_write`; the assertion on the address does not return. -/
def bootLzmaFlashWrite (writeAddr : Nat) (writeData : List UInt8) : Option LzmaWriter :=
  if writeAddr % BOOTLZMA_ERASE_SECTOR_SIZE ≠ 0 then none
  else
    let endAddr := (writeAddr + writeData.length) % 2 ^ 32
    some (w.writeSectors
      ((endAddr - writeAddr + BOOTLZMA_ERASE_SECTOR_SIZE - 1) / BOOTLZMA_ERASE_SECTOR_SIZE)
      writeAddr writeData)

/-- `bootLzma_flash_range_erase`, which only sets where the blocks end. -/
def bootLzmaFlashRangeErase (startAddr eraseSizeBytes : Nat) : LzmaWriter :=
  let endAddr := (startAddr + eraseSizeBytes) % 2 ^ 32
  let endSectorAddr := (endAddr + BOOTLZMA_ERASE_SECTOR_SIZE - 1) % 2 ^ 32 /
    BOOTLZMA_ERASE_SECTOR_SIZE * BOOTLZMA_ERASE_SECTOR_SIZE
  { w with
    gLastBlockAddr := endSectorAddr / BOOTLZMA_ERASE_BLOCK_SIZE * BOOTLZMA_ERASE_BLOCK_SIZE }

/-- Decoded files, written one behind the other. -/
def writeFiles (w : LzmaWriter) (writeAddr : Nat) : List (List UInt8) → Option LzmaWriter
  | [] => some w
  | file :: rest =>
    (bootLzmaFlashWrite w writeAddr file).bind fun w =>
      writeFiles w (writeAddr + file.length) rest

/-! ### Pages -/

section Pages

/-- The pages left are those up to the one that `stop` ends in. -/
structure PagesLeft (stop pageCnt addrBegin addrEnd : Nat) (pbuf : List UInt8) : Prop where
  len : addrBegin + pbuf.length = stop
  pos : pbuf ≠ []
  pages : (stop - 1) / 256 = addrBegin / 256 + pageCnt
  next : addrEnd = if pageCnt = 0 then stop else (addrBegin / 256 + 1) * 256

theorem PagesLeft.rest (h : PagesLeft stop (pageCnt + 1) addrBegin addrEnd pbuf) :
    addrBegin + (pbuf.take (addrEnd - addrBegin)).length = addrEnd ∧
      PagesLeft stop pageCnt addrEnd (if pageCnt + 1 = 1 then stop else addrEnd + 0x100)
        (pbuf.drop (addrEnd - addrBegin)) := by
  obtain ⟨hlen, _, hpages, hnext⟩ := h
  rw [if_neg (Nat.succ_ne_zero _)] at hnext
  refine ⟨by rw [length_take]; omega, ?_⟩
  constructor
  case len => rw [length_drop]; omega
  case pos => exact fun hnil => by have := drop_eq_nil_iff.mp hnil; omega
  case pages => omega
  case next => split_ifs <;> omega

theorem txPages_apply (h : PagesLeft stop pageCnt addrBegin addrEnd pbuf) (mem : Memory) :
    RangeOp.applyAll (txPages stop (pageCnt + 1) addrBegin addrEnd pbuf) mem =
      (RangeOp.write addrBegin pbuf).apply mem := by
  induction pageCnt generalizing addrBegin addrEnd pbuf mem with
  | zero =>
    have hnext : addrEnd = stop := h.next
    have hall : pbuf.take (addrEnd - addrBegin) = pbuf := by
      rw [take_of_length_le]
      have hlen := h.len
      omega
    rw [txPages, hall]
    rfl
  | succ pageCnt ih =>
    obtain ⟨hend, hrest⟩ := h.rest
    have happend := RangeOp.apply_write_append addrBegin (pbuf.take (addrEnd - addrBegin))
      (pbuf.drop (addrEnd - addrBegin)) mem
    rw [hend, take_append_drop] at happend
    rw [← happend]
    exact ih hrest _

theorem txPages_touches (h : PagesLeft stop pageCnt addrBegin addrEnd pbuf)
    (hop : op ∈ txPages stop (pageCnt + 1) addrBegin addrEnd pbuf) (ha : op.Touches a) :
    addrBegin ≤ a ∧ a < stop := by
  have hpos := length_pos_iff.mpr h.pos
  have hlen := h.len
  induction pageCnt generalizing addrBegin addrEnd pbuf with
  | zero =>
    rw [txPages, txPages, mem_singleton] at hop
    subst hop
    have hle := length_take_le' (addrEnd - addrBegin) pbuf
    exact ⟨ha.1, Nat.lt_of_lt_of_le ha.2 (by omega)⟩
  | succ pageCnt ih =>
    obtain ⟨hend, hrest⟩ := h.rest
    have hrestLen := length_pos_iff.mpr hrest.pos
    have hrestStop := hrest.len
    rw [txPages, mem_cons] at hop
    rcases hop with rfl | hop
    · obtain ⟨hlo, hhi⟩ := ha
      omega
    · have hin := ih hrest hop hrestLen hrestStop
      omega

theorem pagesLeft_stream (hpos : pbuf ≠ []) :
    ∃ pageCnt addrEnd, PagesLeft (address + pbuf.length) pageCnt address addrEnd pbuf ∧
      bootLzmaFlashWriteStream address pbuf =
        txPages (address + pbuf.length) (pageCnt + 1) address addrEnd pbuf := by
  have hlen := length_pos_iff.mpr hpos
  refine ⟨_, _, ⟨rfl, hpos, ?_, ?_⟩, rfl⟩
  · omega
  · split_ifs <;> omega

end Pages

/-! ### Sectors -/

structure LzmaWriter.Extends (w w' : LzmaWriter) (lo hi : Nat) : Prop where
  last : w'.gLastBlockAddr = w.gLastBlockAddr
  ops : ∃ ops, w'.ops = w.ops ++ ops ∧ w'.flash = RangeOp.applyAll ops w.flash ∧
    ∀ op ∈ ops, ∀ a, op.Touches a → lo ≤ a ∧ a < hi

/-- The range in which sectors are written: it ends behind the last block to erase. -/
structure LzmaWriter.Ends (w : LzmaWriter) (hi : Nat) : Prop where
  aligned : w.gLastBlockAddr % BOOTLZMA_ERASE_BLOCK_SIZE = 0
  inside : w.gLastBlockAddr ≤ hi
  fits : hi < 2 ^ 32

/-- No block has been erased, or the rest of the last one, from `p` on, still is. -/
def LzmaWriter.Erased (p : Nat) : Prop :=
  w.gCurrBlockAddr = 0xFFFFFFFF ∨
    w.gCurrBlockAddr % BOOTLZMA_ERASE_BLOCK_SIZE = 0 ∧ w.gCurrBlockAddr < p ∧
      w.gCurrBlockAddr + BOOTLZMA_ERASE_BLOCK_SIZE ≤ w.gLastBlockAddr ∧
      ∀ a, p ≤ a → a < w.gCurrBlockAddr + BOOTLZMA_ERASE_BLOCK_SIZE → w.flash a = 0xFF

section Sectors

variable {w w' w'' : LzmaWriter} {bytes : List UInt8}

theorem LzmaWriter.Extends.refl (w : LzmaWriter) (lo hi : Nat) : w.Extends w lo hi :=
  ⟨rfl, [], (append_nil _).symm, rfl, by simp⟩

theorem LzmaWriter.Extends.trans (h : w.Extends w' lo hi) (h' : w'.Extends w'' lo' hi)
    (hle : lo ≤ lo') : w.Extends w'' lo hi := by
  obtain ⟨ops, hops, hflash, hin⟩ := h.ops
  obtain ⟨ops', hops', hflash', hin'⟩ := h'.ops
  refine ⟨h'.last.trans h.last, ops ++ ops', ?_, ?_, forall_mem_append.mpr ⟨hin, ?_⟩⟩
  · rw [hops', hops, append_assoc]
  · rw [hflash', hflash, RangeOp.applyAll_append]
  · exact fun op hop a ha => ⟨Nat.le_trans hle (hin' op hop a ha).1, (hin' op hop a ha).2⟩

theorem LzmaWriter.Extends.flash_outside (h : w.Extends w' lo hi) (ha : a < lo ∨ hi ≤ a) :
    w'.flash a = w.flash a := by
  obtain ⟨ops, _, hflash, hin⟩ := h.ops
  rw [hflash]
  apply RangeOp.applyAll_of_not_touches
  intro op hop htouches
  have := hin op hop a htouches
  omega

theorem LzmaWriter.Ends.extends (hends : w.Ends hi) (h : w.Extends w' lo hi) : w'.Ends hi :=
  ⟨h.last ▸ hends.aligned, h.last ▸ hends.inside, hends.fits⟩

theorem LzmaWriter.extends_issue {ops : List RangeOp}
    (h : ∀ op ∈ ops, ∀ a, op.Touches a → lo ≤ a ∧ a < hi) : w.Extends (w.issue ops) lo hi :=
  ⟨rfl, ops, rfl, rfl, h⟩

variable (hends : w.Ends hi) (haligned : p % BOOTLZMA_ERASE_SECTOR_SIZE = 0)
  (hroom : p + BOOTLZMA_ERASE_SECTOR_SIZE ≤ hi)

section
include hends hroom

theorem eraseFor_extends : w.Extends (w.eraseFor p) p hi := by
  have hin : ∀ size, p + size ≤ hi → ∀ op ∈ [RangeOp.erase p size], ∀ a, op.Touches a →
      p ≤ a ∧ a < hi := by
    intro size hsize
    exact forall_mem_singleton.mpr fun a ha => ⟨ha.1, Nat.lt_of_lt_of_le ha.2 hsize⟩
  unfold LzmaWriter.eraseFor
  split_ifs with hblock
  · have hstart := hends.aligned
    have hinside := hends.inside
    have hfits : p + BOOTLZMA_ERASE_BLOCK_SIZE ≤ hi := by
      simp only [BOOTLZMA_ERASE_BLOCK_SIZE] at hblock hstart ⊢
      omega
    exact ⟨rfl, _, rfl, rfl, hin _ hfits⟩
  · exact .refl w p hi
  · exact LzmaWriter.extends_issue (hin _ hroom)

theorem eraseFor_erased (haligned : p % BOOTLZMA_ERASE_SECTOR_SIZE = 0) (herased : w.Erased p) :
    (∀ a, p ≤ a → a < p + BOOTLZMA_ERASE_SECTOR_SIZE → (w.eraseFor p).flash a = 0xFF) ∧
      (w.eraseFor p).Erased (p + BOOTLZMA_ERASE_SECTOR_SIZE) := by
  obtain ⟨hstart, hinside, hfits⟩ := hends
  have hsize : ∀ size, ∀ a, p ≤ a → a < p + size →
      (w.issue [.erase p size]).flash a = 0xFF := fun size a hlo hhi => RangeOp.apply_erase hlo hhi
  unfold LzmaWriter.eraseFor
  split_ifs with hblock hdone
  all_goals
    simp only [LzmaWriter.Erased, BOOTLZMA_ERASE_BLOCK_SIZE, BOOTLZMA_ERASE_SECTOR_SIZE] at *
  · refine ⟨fun a hlo hhi => hsize _ a hlo (by omega), .inr ⟨hblock.1, ?_, ?_, fun a hlo hhi => ?_⟩⟩
    · exact Nat.lt_add_of_pos_right (by decide)
    · change p + 4096 * 16 ≤ w.gLastBlockAddr
      omega
    · exact hsize _ a (Nat.le_of_add_right_le hlo) hhi
  · rcases herased with hnone | ⟨hblockStart, hlt, hbefore, hall⟩
    · omega
    · rw [Nat.mod_eq_of_lt (by omega)] at hdone
      refine ⟨fun a hlo hhi => hall a hlo (by omega), .inr ⟨hblockStart, by omega, hbefore, ?_⟩⟩
      exact fun a hlo hhi => hall a (by omega) hhi
  · refine ⟨hsize _, herased.imp_right fun ⟨hblockStart, hlt, hbefore, _⟩ => ?_⟩
    -- the last block ends in front of this sector
    refine ⟨hblockStart, Nat.lt_add_right _ hlt, hbefore, fun a hlo hhi => ?_⟩
    change a < w.gCurrBlockAddr + 4096 * 16 at hhi
    omega

end

variable (hbytes : bytes ≠ []) (hlen : bytes.length ≤ BOOTLZMA_ERASE_SECTOR_SIZE)

include hends hroom hbytes hlen

theorem writeSector_extends : w.Extends (w.writeSector p bytes) p hi := by
  unfold LzmaWriter.writeSector
  split
  · exact .refl w p hi
  refine (eraseFor_extends hends hroom).trans (LzmaWriter.extends_issue ?_) (Nat.le_refl p)
  obtain ⟨pageCnt, addrEnd, hpages, hstream⟩ := pagesLeft_stream hbytes
  intro op hop a ha
  have hin := txPages_touches hpages (hstream ▸ hop) ha
  omega

theorem writeSector_written (haligned : p % BOOTLZMA_ERASE_SECTOR_SIZE = 0) (herased : w.Erased p) :
    (∀ k < bytes.length, (w.writeSector p bytes).flash (p + k) = bytes.getD k 0xFF) ∧
      (w.writeSector p bytes).Erased (p + BOOTLZMA_ERASE_SECTOR_SIZE) := by
  unfold LzmaWriter.writeSector
  split_ifs with hsame
  · refine ⟨Memory.window_eq_iff.mp hsame, herased.imp_right ?_⟩
    rintro ⟨hstart, hlt, hbefore, hall⟩
    exact ⟨hstart, Nat.lt_add_right _ hlt, hbefore, fun a hlo =>
      hall a (Nat.le_of_add_right_le hlo)⟩
  · obtain ⟨hsector, hrest⟩ := eraseFor_erased hends hroom haligned herased
    obtain ⟨pageCnt, addrEnd, hpages, hstream⟩ := pagesLeft_stream hbytes
    have hflash : ((w.eraseFor p).issue (bootLzmaFlashWriteStream p bytes)).flash =
        (RangeOp.write p bytes).apply (w.eraseFor p).flash := by
      rw [hstream]
      exact txPages_apply hpages _
    constructor
    · intro k hk
      rw [hflash, RangeOp.apply_write (Nat.le_add_right p k) (by omega),
        hsector _ (by omega) (by omega), erased_and, Nat.add_sub_cancel_left]
    · refine hrest.imp_right fun ⟨hstart, hlt, hbefore, hall⟩ => ⟨hstart, hlt, hbefore, ?_⟩
      intro a hlo hhi
      have houtside : ¬ (RangeOp.write p bytes).Touches a := fun h => absurd h.2 (by omega)
      rw [hflash, RangeOp.apply_of_not_touches houtside]
      exact hall a hlo hhi

end Sectors

/-! ### Files -/

section Files

variable {w : LzmaWriter}

theorem writeSectors_spec (hcount : sectors = (data.length + 4095) / 4096) (hends : w.Ends hi)
    (hroom : p + sectors * 4096 ≤ hi) :
    w.Extends (w.writeSectors sectors p data) p hi ∧
      (p % BOOTLZMA_ERASE_SECTOR_SIZE = 0 → w.Erased p →
        (∀ k < data.length, (w.writeSectors sectors p data).flash (p + k) = data.getD k 0xFF) ∧
          (w.writeSectors sectors p data).Erased (p + sectors * 4096)) := by
  induction sectors generalizing w p data with
  | zero =>
    refine ⟨.refl w p hi, fun _ herased => ⟨fun k hk => ?_, ?_⟩⟩
    · omega
    · rw [zero_mul]
      exact herased
  | succ sectors ih =>
    have hfirst : (data.take BOOTLZMA_ERASE_SECTOR_SIZE).length = min 4096 data.length :=
      length_take
    have hdrop : (data.drop BOOTLZMA_ERASE_SECTOR_SIZE).length = data.length - 4096 :=
      length_drop
    have hne : data.take BOOTLZMA_ERASE_SECTOR_SIZE ≠ [] := by
      rw [← length_pos_iff]
      omega
    have hle : (data.take BOOTLZMA_ERASE_SECTOR_SIZE).length ≤ BOOTLZMA_ERASE_SECTOR_SIZE :=
      hfirst ▸ Nat.min_le_left _ _
    have hroom' : p + BOOTLZMA_ERASE_SECTOR_SIZE ≤ hi := by
      rw [BOOTLZMA_ERASE_SECTOR_SIZE]
      omega
    have hsector := writeSector_extends hends hroom' hne hle
    have hends' := hends.extends hsector
    have hnext : p + BOOTLZMA_ERASE_SECTOR_SIZE + sectors * 4096 = p + (sectors + 1) * 4096 := by
      rw [BOOTLZMA_ERASE_SECTOR_SIZE]
      omega
    obtain ⟨hrest, hwritten⟩ := @ih _ _ (data.drop BOOTLZMA_ERASE_SECTOR_SIZE) (by omega) hends'
      (hnext ▸ hroom)
    refine ⟨hsector.trans hrest (Nat.le_add_right ..), fun haligned herased => ?_⟩
    obtain ⟨hdata, herased'⟩ := writeSector_written hends hroom' hne hle haligned herased
    obtain ⟨hdata', herased''⟩ := hwritten (by rw [Nat.add_mod_right]; exact haligned) herased'
    refine ⟨fun k hk => ?_, hnext ▸ herased''⟩
    simp only [BOOTLZMA_ERASE_SECTOR_SIZE] at *
    by_cases hin : k < 4096
    · refine (hrest.flash_outside (.inl (by omega))).trans ?_
      rw [hdata k (by omega), getD_eq_getElem?_getD, List.getElem?_take_of_lt hin,
        ← getD_eq_getElem?_getD]
    have hlater := hdata' (k - 4096) (by omega)
    rw [getD_eq_getElem?_getD, List.getElem?_drop, ← getD_eq_getElem?_getD] at hlater
    rw [show p + k = p + 4096 + (k - 4096) by omega]
    exact hlater.trans (by rw [Nat.add_sub_cancel' (Nat.le_of_not_lt hin)])

theorem bootLzmaFlashWrite_spec (haligned : p % BOOTLZMA_ERASE_SECTOR_SIZE = 0) (hends : w.Ends hi)
    (hsize : data.length ≤ BOOTLZMA_DECOMP_FILE_SIZE) (hroom : p + BOOTLZMA_DECOMP_FILE_SIZE ≤ hi) :
    ∃ w', bootLzmaFlashWrite w p data = some w' ∧ w.Extends w' p hi ∧
      (w.Erased p → (∀ k < data.length, w'.flash (p + k) = data.getD k 0xFF) ∧
        (data.length = BOOTLZMA_DECOMP_FILE_SIZE → w'.Erased (p + BOOTLZMA_DECOMP_FILE_SIZE))) := by
  have hfits := hends.fits
  simp only [BOOTLZMA_DECOMP_FILE_SIZE] at hsize hroom ⊢
  have hcount : ((p + data.length) % 2 ^ 32 - p + BOOTLZMA_ERASE_SECTOR_SIZE - 1) /
      BOOTLZMA_ERASE_SECTOR_SIZE = (data.length + 4095) / 4096 := by
    rw [Nat.mod_eq_of_lt (by omega), Nat.add_sub_cancel_left]
    rfl
  have hsectors : (data.length + 4095) / 4096 * 4096 ≤ 16384 := by omega
  obtain ⟨hextends, hwritten⟩ :=
    writeSectors_spec rfl hends (Nat.le_trans (Nat.add_le_add_left hsectors p) hroom)
  refine ⟨_, if_neg (not_not.mpr haligned), hcount ▸ hextends, fun herased => ?_⟩
  obtain ⟨hdata, hrest⟩ := hwritten haligned herased
  rw [hcount]
  refine ⟨hdata, fun hlen => ?_⟩
  rw [hlen] at hrest ⊢
  exact hrest

theorem writeFiles_spec (hfull : ∀ file ∈ files.dropLast, file.length = BOOTLZMA_DECOMP_FILE_SIZE)
    (hsize : ∀ file ∈ files, file.length ≤ BOOTLZMA_DECOMP_FILE_SIZE)
    (haligned : p % BOOTLZMA_ERASE_SECTOR_SIZE = 0) (hends : w.Ends hi) (herased : w.Erased p)
    (hroom : p + files.length * BOOTLZMA_DECOMP_FILE_SIZE ≤ hi) :
    ∃ w', writeFiles w p files = some w' ∧ w.Extends w' p hi ∧
      ∀ k < files.flatten.length, w'.flash (p + k) = files.flatten.getD k 0xFF := by
  induction files generalizing w p with
  | nil => exact ⟨w, rfl, .refl w p hi, fun k hk => absurd hk (Nat.not_lt_zero k)⟩
  | cons file rest ih =>
    rw [length_cons, Nat.succ_mul] at hroom
    obtain ⟨w', hwrite, hextends, hwritten⟩ :=
      bootLzmaFlashWrite_spec haligned hends (hsize file (.head _)) (by omega)
    obtain ⟨hdata, herased'⟩ := hwritten herased
    cases rest with
    | nil =>
      refine ⟨w', by rw [writeFiles, hwrite]; rfl, hextends, ?_⟩
      simpa using hdata
    | cons next later =>
    have hlen := hfull file (.head _)
    obtain ⟨w'', hrest, hextends', hdata'⟩ := ih
      (fun f hf => hfull f (.tail _ hf)) (fun f hf => hsize f (.tail _ hf))
      (by rw [Nat.add_mod, haligned]; rfl) (hends.extends hextends) (herased' hlen) (by omega)
    refine ⟨w'', ?_, hextends.trans hextends' (Nat.le_add_right ..), fun k hk => ?_⟩
    · rw [writeFiles, hwrite, Option.bind_some, hlen]
      exact hrest
    · rw [flatten_cons] at hk ⊢
      by_cases hin : k < file.length
      · rw [getD_append _ _ _ _ hin, ← hdata k hin]
        exact hextends'.flash_outside (.inl (by omega))
      · rw [length_append] at hk
        rw [getD_append_right _ _ _ _ (Nat.le_of_not_lt hin), ← hdata' (k - file.length) (by omega),
          show p + BOOTLZMA_DECOMP_FILE_SIZE + (k - file.length) = p + k by omega]

theorem rangeErase_ends (w : LzmaWriter) (n : Nat) (haligned : p % BOOTLZMA_ERASE_SECTOR_SIZE = 0)
    (hfits : p + n * BOOTLZMA_DECOMP_FILE_SIZE < 2 ^ 32) :
    (bootLzmaFlashRangeErase w p (n * BOOTLZMA_DECOMP_FILE_SIZE)).Ends
      (p + n * BOOTLZMA_DECOMP_FILE_SIZE) := by
  refine ⟨Nat.mul_mod_left _ _, ?_, hfits⟩
  simp only [bootLzmaFlashRangeErase, BOOTLZMA_ERASE_SECTOR_SIZE, BOOTLZMA_ERASE_BLOCK_SIZE,
    BOOTLZMA_DECOMP_FILE_SIZE] at *
  omega

end Files

/-- **The writer leaves the image.** Files written from the start of a sector lie in the flash one
    behind the other, whatever it held, and nothing outside the announced range has changed. -/
theorem files_written (flash : Memory) (start stop : Nat) (files : List (List UInt8))
    (hfull : ∀ file ∈ files.dropLast, file.length = BOOTLZMA_DECOMP_FILE_SIZE)
    (hsize : ∀ file ∈ files, file.length ≤ BOOTLZMA_DECOMP_FILE_SIZE)
    (haligned : start % BOOTLZMA_ERASE_SECTOR_SIZE = 0)
    (hroom : start + files.length * BOOTLZMA_DECOMP_FILE_SIZE ≤ stop) (hstop : stop < 2 ^ 32) :
    ∃ w, writeFiles (bootLzmaFlashRangeErase (.boot flash) start
        (files.length * BOOTLZMA_DECOMP_FILE_SIZE)) start files = some w ∧
      w.flash.window start files.flatten.length = files.flatten ∧
      ∀ a, a < start ∨ start + files.length * BOOTLZMA_DECOMP_FILE_SIZE ≤ a →
        w.flash a = flash a := by
  have hends := rangeErase_ends (.boot flash) files.length haligned (by omega)
  obtain ⟨w, hwritten, hextends, hdata⟩ :=
    writeFiles_spec hfull hsize haligned hends (.inl rfl) (Nat.le_refl _)
  exact ⟨w, hwritten, (Memory.window_eq_iff).mpr hdata, fun a ha => hextends.flash_outside ha⟩

/-- Three whole files and a byte, at the start of the flash: the range is a block. -/
def blockFiles : List (List UInt8) :=
  List.replicate 3 (List.replicate BOOTLZMA_DECOMP_FILE_SIZE 0x5A) ++ [[7]]

theorem files_written_block : ∃ w, writeFiles (bootLzmaFlashRangeErase (.boot fun _ => 0) 0
        (blockFiles.length * BOOTLZMA_DECOMP_FILE_SIZE)) 0 blockFiles = some w ∧
      w.flash.window 0 blockFiles.flatten.length = blockFiles.flatten ∧
      ∀ a, a < 0 ∨ 0 + blockFiles.length * BOOTLZMA_DECOMP_FILE_SIZE ≤ a → w.flash a = 0 := by
  apply files_written (fun _ => 0) 0 0x10000 blockFiles
  · intro file hfile
    rw [blockFiles, List.dropLast_concat] at hfile
    rw [List.eq_of_mem_replicate hfile, List.length_replicate]
  · intro file hfile
    rcases List.mem_append.mp hfile with hwhole | hlast
    · rw [List.eq_of_mem_replicate hwhole]
      exact Nat.le_of_eq List.length_replicate
    · rw [List.mem_singleton.mp hlast]
      decide
  · decide
  · decide
  · decide

end AmebaRtos.Boot
