import AmebaRtos.FlashTool.Download

/-!
# What a download leaves in the flash

The pages of a block are written to erased flash, except for those of a first block at address 0:
`last_erase_addr` starts with 0, so that this block is not erased. The last block ends at the next
4 KB boundary behind the image, whatever the end of the range is.
-/

namespace AmebaRtos.FlashTool

open Lib List

/-! ### Pages and blocks -/

variable (job : Job)

/-- The image with the padding behind it. -/
def Job.image : Memory := fun i => job.file.getD i job.padding

def Job.eraseLength : Nat := (job.alignedImgLength + 4095) / 4096 * 4096

def Job.erasedFrom : Nat :=
  if job.startAddress = 0 then job.blockSize 0 0 else job.startAddress

variable (mem : Memory)

/-- What the pages leave in the flash. -/
def Job.stored : Memory := fun a =>
  if a < job.erasedFrom then mem a &&& job.image (a - job.startAddress)
  else job.image (a - job.startAddress)

structure Job.Nor (job : Job) : Prop where
  page : job.pageSize ∣ 4096
  words : job.pageSize % 4 = 0
  flash : job.isRam = false
  blocks : job.chipErase = false
  sector : 4096 ∣ job.startAddress
  fits : job.startAddress + job.file.length ≤ job.endAddress
  below : job.endAddress < 0x20000000

section Sizes

variable {job : Job}

theorem pageSize_pos (hpage : job.pageSize ∣ 4096) : 0 < job.pageSize :=
  Nat.pos_of_dvd_of_pos hpage (by decide)

theorem add_le_of_dvd {p a b : Nat} (ha : p ∣ a) (hb : p ∣ b) (hlt : a < b) : a + p ≤ b :=
  Nat.le_of_lt_add_of_dvd (Nat.add_lt_add_right hlt p) (Nat.dvd_add ha (Nat.dvd_refl p)) hb

theorem alignedImgLength_spec (hpage : job.pageSize ∣ 4096) :
    job.pageSize ∣ job.alignedImgLength ∧ job.file.length ≤ job.alignedImgLength ∧
      job.alignedImgLength < job.file.length + job.pageSize := by
  have hpos := pageSize_pos hpage
  have hmod := Nat.mod_lt job.file.length hpos
  have hdiv := Nat.div_add_mod job.file.length job.pageSize
  rw [Job.alignedImgLength, getPageAllignedSize]
  by_cases hwhole : job.file.length % job.pageSize ≠ 0
  · rw [if_pos hwhole, Nat.add_mul, one_mul, mul_comm]
    exact ⟨Nat.dvd_add (Nat.dvd_mul_right _ _) (Nat.dvd_refl _), by omega, by omega⟩
  · rw [if_neg hwhole]
    exact ⟨Nat.dvd_of_mod_eq_zero (by simpa using hwhole), Nat.le_refl _, by omega⟩

theorem eraseLength_spec (job : Job) :
    4096 ∣ job.eraseLength ∧ job.alignedImgLength ≤ job.eraseLength ∧
      job.eraseLength < job.alignedImgLength + 4096 := by
  rw [Job.eraseLength]
  exact ⟨Nat.dvd_mul_left _ _, by omega, by omega⟩

theorem dvd_blockSize (job : Job) : 4096 ∣ job.blockSize addr txSum := by
  rw [Job.blockSize]
  split
  · decide
  · split <;> decide

theorem blockSize_spec (job : Job) (haddr : 4096 ∣ addr) (txSum : Nat) :
    0 < job.blockSize addr txSum ∧ addr % job.blockSize addr txSum = 0 ∧
      (job.blockSize addr txSum = 4096 ∨
        job.blockSize addr txSum ≤ job.alignedImgLength - txSum) := by
  rw [Job.blockSize]
  split
  · rename_i h
    exact ⟨by decide, h.1, .inr h.2⟩
  split
  · rename_i h
    exact ⟨by decide, h.1, .inr h.2⟩
  · exact ⟨by decide, Nat.mod_eq_zero_of_dvd haddr, .inl rfl⟩

end Sizes

theorem sumWords_append (hwords : first.length % 4 = 0) :
    sumWords (first ++ rest) = sumWords first + sumWords rest := by
  fun_induction sumWords first with
  | case1 a b c d first ih =>
    have hwords' : first.length % 4 = 0 := by
      simp only [length_cons] at hwords
      omega
    simp only [cons_append, sumWords, ih hwords', add_assoc]
  | case2 first hshort =>
    have hnil : first = [] := by
      match first, hwords with
      | [], _ => rfl
      | a :: b :: c :: d :: rest, _ => exact absurd rfl (hshort a b c d rest)
    rw [hnil, nil_append, zero_add]

theorem chunk_eq_window (txSum : Nat) : (job.file.drop txSum).take job.pageSize ++
      List.replicate (job.pageSize - ((job.file.drop txSum).take job.pageSize).length) job.padding =
    job.image.window txSum job.pageSize := by
  apply ext_getElem
  · simp only [length_append, length_take, length_replicate, Memory.length_window]
    omega
  · intro i hi hi'
    rw [Memory.length_window] at hi'
    simp only [Memory.window, Job.image]
    by_cases hfile : txSum + i < job.file.length
    · rw [getElem_append_left (by simp; omega)]
      simp [hfile]
    · rw [getElem_append_right (by simp; omega)]
      simp [hfile]

/-! ### The loop -/

/-- How far the image has been written, when the block that was started last ends at `e`. -/
structure Progress (job : Job) (mem : Memory) (e : Nat) (d : Download) : Prop where
  addr : d.addr = job.startAddress + d.txSum
  whole : job.pageSize ∣ d.txSum
  sector : 4096 ∣ e
  front : d.addr ≤ e
  bound : e ≤ job.startAddress + job.eraseLength
  first : e = job.startAddress ∨ job.erasedFrom ≤ e
  last : d.lastEraseAddr ≤ d.addr
  next : d.nextEraseAddr = if e ≤ job.erasedFrom then 0 else e
  sum : d.checksum = sumWords (job.image.window 0 d.txSum) % 2 ^ 32
  written : ∀ a, job.startAddress ≤ a → a < d.addr → d.flash a = job.stored mem a
  ready : ∀ a, d.addr ≤ a → a < e → d.flash a = if a < job.erasedFrom then mem a else 0xFF
  behind : ∀ a, e ≤ a → d.flash a = mem a
  touched : ∀ op ∈ d.requests, ∀ a, op.Touches a →
    job.startAddress ≤ a ∧ (a < d.addr ∨ a < d.nextEraseAddr)
  erased : d.nextEraseAddr = 0 ∨ ∃ op ∈ d.requests, op.Touches (d.nextEraseAddr - 1)
  filled : d.txSum = 0 ∨ ∃ op ∈ d.requests, op.Touches (d.addr - 1)

/-- The next page belongs to the block that ends at `e`. -/
structure InBlock (job : Job) (e : Nat) (d : Download) : Prop where
  more : d.writePages < d.pagesPerBlock
  ends : d.addr + (d.pagesPerBlock - d.writePages) * job.pageSize = e

/-- The next page is the first one of a block, or belongs to the block that ends at `e`. -/
def AtPage (e : Nat) (d : Download) : Prop :=
  (d.writePages = 0 ∧ e = d.addr ∧ (d.addr = d.lastEraseAddr → d.addr = 0)) ∨
    (d.writePages ≠ 0 ∧ InBlock job e d)

/-- The page at `txSum` has been read. -/
structure PageRead (job : Job) (d : Download) : Prop where
  more : d.txSum < job.file.length
  len : d.readLen ≠ 0
  chunk : d.chunkData = job.image.window d.txSum job.pageSize
  rest : d.rest = job.file.drop (d.txSum + job.pageSize)

/-- A request that was acknowledged. -/
def Download.sent (d : Download) (op : RangeOp) (answers : List ErrType) : Download :=
  { d with flash := op.apply d.flash, requests := d.requests ++ [op], answers := answers }

theorem send_eq {d : Download} (hok : (d.send op).1 = .ok) :
    ∃ answers, (d.send op).2 = d.sent op answers := by
  rw [Download.send] at hok ⊢
  by_cases haddr : 2 ^ 32 ≤ op.addr
  · rw [if_pos haddr] at hok
    exact ErrType.noConfusion hok
  rw [if_neg haddr] at hok ⊢
  split at hok
  · exact ⟨[], by simp_all [Download.sent]⟩
  · exact ⟨_, rfl⟩
  · rename_i hret _
    exact absurd hok hret

theorem send_nil {d : Download} {op : RangeOp} (hanswers : d.answers = [])
    (haddr : op.addr < 2 ^ 32) :
    (d.send op).1 = .ok ∧ (d.send op).2.answers = [] := by
  rw [Download.send, if_neg (Nat.not_le.mpr haddr), hanswers]
  exact ⟨rfl, rfl⟩

section Loop

variable {job : Job} {mem : Memory} {e : Nat} {d : Download}

theorem erasedFrom_ge (job : Job) : job.startAddress ≤ job.erasedFrom := by
  rw [Job.erasedFrom]
  split
  · omega
  · exact Nat.le_refl _

theorem Progress.addr_lt (h : Progress job mem e d) (hjob : job.Nor)
    (hmore : d.txSum < job.file.length) :
    d.addr < 2 ^ 32 := by
  have haddr := h.addr
  have hfits := hjob.fits
  have hbelow := hjob.below
  omega

theorem Progress.block_bound (h : Progress job mem e d) (hjob : job.Nor) (hstart : e = d.addr)
    (hmore : d.txSum < job.alignedImgLength) :
    d.addr + job.blockSize d.addr d.txSum ≤ job.startAddress + job.eraseLength := by
  have hsector : 4096 ∣ d.addr := hstart ▸ h.sector
  obtain ⟨-, -, hfour | hinside⟩ := blockSize_spec job hsector d.txSum
  · rw [hfour]
    have herase := eraseLength_spec job
    have hlt : d.addr < job.startAddress + job.eraseLength := by
      have := h.addr
      omega
    have hdvd : 4096 ∣ job.startAddress + job.eraseLength := Nat.dvd_add hjob.sector herase.1
    omega
  · have := (eraseLength_spec job).2.1
    have := h.addr
    omega

theorem inBlock_start (hjob : job.Nor) (hsector : 4096 ∣ addr) (haddr : d.addr = addr)
    (hpages : d.writePages = 0) (hper : d.pagesPerBlock = job.blockSize addr txSum / job.pageSize) :
    InBlock job (addr + job.blockSize addr txSum) d := by
  have hspec := blockSize_spec job hsector txSum
  have hmul := Nat.div_mul_cancel (Nat.dvd_trans hjob.page (@dvd_blockSize addr txSum job))
  constructor
  · rw [hpages, hper]
    apply Nat.pos_of_ne_zero
    intro hzero
    rw [hzero] at hmul
    omega
  · rw [hpages, hper, Nat.sub_zero, hmul, haddr]

section

variable (h : Progress job mem e d) (hjob : job.Nor)
include h hjob

theorem Progress.skip (hstart : e = d.addr)
    (hmore : d.txSum < job.alignedImgLength) (hzero : d.addr = 0) (n : Nat) :
    Progress job mem (d.addr + job.blockSize d.addr d.txSum) { d with pagesPerBlock := n } := by
  have haddr := h.addr
  have hbound := h.block_bound hjob hstart hmore
  have hfrom : job.erasedFrom = d.addr + job.blockSize d.addr d.txSum := by
    have hstartZero : job.startAddress = 0 := by omega
    have htx : d.txSum = 0 := by omega
    rw [Job.erasedFrom, if_pos hstartZero, hzero, htx, zero_add]
  refine { h with
    sector := Nat.dvd_add (hstart ▸ h.sector) (dvd_blockSize job)
    front := Nat.le_add_right _ _
    bound := hbound
    first := .inr (Nat.le_of_eq hfrom)
    next := ?_
    ready := fun a _ hhi => ?_
    behind := fun a hlo => h.behind a ?_ }
  · have hnext := h.next
    rw [if_pos (by omega)] at hnext
    rw [hnext, if_pos (by omega)]
  · rw [if_pos (by rw [hfrom]; exact hhi)]
    exact h.behind a (by omega)
  · omega

theorem Progress.erase (hstart : e = d.addr)
    (hmore : d.txSum < job.alignedImgLength) (hnonzero : d.addr ≠ 0) (n : Nat)
      (answers : List ErrType) :
    Progress job mem (d.addr + job.blockSize d.addr d.txSum)
      { d.sent (.erase d.addr (job.blockSize d.addr d.txSum)) answers with
        pagesPerBlock := n
        lastEraseAddr := d.addr
        nextEraseAddr := d.addr + job.blockSize d.addr d.txSum } := by
  have haddr := h.addr
  have hbound := h.block_bound hjob hstart hmore
  have hspec := blockSize_spec job (hstart ▸ h.sector : 4096 ∣ d.addr) d.txSum
  have hfrom : job.erasedFrom ≤ d.addr := by
    rcases h.first with hfirst | hfirst
    · have hne : ¬ job.startAddress = 0 := by omega
      rw [Job.erasedFrom, if_neg hne]
      omega
    · omega
  have hnextLe : d.nextEraseAddr ≤ d.addr := by
    rw [h.next]
    split <;> omega
  refine { h with
    sector := Nat.dvd_add (hstart ▸ h.sector) (dvd_blockSize job)
    front := Nat.le_add_right _ _
    bound := hbound
    first := .inr (by omega)
    last := Nat.le_refl _
    next := by rw [if_neg (by omega)]
    written := fun a hlo hhi => ?_
    ready := fun a hlo hhi => ?_
    behind := fun a hlo => ?_
    touched := forall_mem_append.mpr
      ⟨fun op hop a hto => ?_, forall_mem_singleton.mpr fun a hto => ?_⟩
    erased := .inr ⟨_, mem_append_right _ (.head _), ?_⟩
    filled := h.filled.imp_right fun ⟨op, hop, hto⟩ => ⟨op, mem_append_left _ hop, hto⟩ }
  · have hbefore : ¬ (RangeOp.erase d.addr (job.blockSize d.addr d.txSum)).Touches a :=
      fun hto => Nat.not_lt.mpr hto.1 hhi
    exact (RangeOp.apply_of_not_touches hbefore).trans (h.written a hlo hhi)
  · rw [if_neg (Nat.not_lt.mpr (Nat.le_trans hfrom hlo))]
    exact RangeOp.apply_erase hlo hhi
  · have hafter : ¬ (RangeOp.erase d.addr (job.blockSize d.addr d.txSum)).Touches a :=
      fun hto => Nat.not_lt.mpr hlo hto.2
    exact (RangeOp.apply_of_not_touches hafter).trans (h.behind a (by omega))
  · obtain ⟨hlo, hhi⟩ := h.touched op hop a hto
    have hlt : a < d.addr + job.blockSize d.addr d.txSum := by omega
    exact ⟨hlo, .inr hlt⟩
  · exact ⟨by have := hto.1; omega, .inr hto.2⟩
  · change d.addr ≤ d.addr + job.blockSize d.addr d.txSum - 1 ∧
      d.addr + job.blockSize d.addr d.txSum - 1 < d.addr + job.blockSize d.addr d.txSum
    omega

theorem Progress.write (hblock : InBlock job e d)
    (hchunk : d.chunkData = job.image.window d.txSum job.pageSize) (answers : List ErrType) :
    Progress job mem e ((d.sent (.write d.addr d.chunkData) answers).advance job) := by
  have hpos := pageSize_pos hjob.page
  have haddr := h.addr
  have hlen : d.chunkData.length = job.pageSize := by rw [hchunk, Memory.length_window]
  have htouch : ∀ a, (RangeOp.write d.addr d.chunkData).Touches a →
      d.addr ≤ a ∧ a < d.addr + job.pageSize := fun a hto => hlen ▸ hto
  have hend : d.addr + job.pageSize ≤ e := by
    have hone : 1 * job.pageSize ≤ (d.pagesPerBlock - d.writePages) * job.pageSize :=
      Nat.mul_le_mul_right _ (Nat.sub_pos_of_lt hblock.more)
    have := hblock.ends
    omega
  refine { h with
    addr := ?_
    whole := Nat.dvd_add h.whole (Nat.dvd_refl _)
    front := hend
    last := Nat.le_trans h.last (Nat.le_add_right _ _)
    sum := ?_
    written := fun a hlo hhi => ?_
    ready := fun a hlo hhi => ?_
    behind := fun a hlo => ?_
    touched := forall_mem_append.mpr
      ⟨fun op hop a hto => ?_, forall_mem_singleton.mpr fun a hto => ?_⟩
    erased := h.erased.imp_right fun ⟨op, hop, hto⟩ => ⟨op, mem_append_left _ hop, hto⟩
    filled := .inr ⟨_, mem_append_right _ (.head _), ?_⟩ }
  · change d.addr + job.pageSize = job.startAddress + (d.txSum + job.pageSize)
    omega
  · change (d.checksum + sumWords d.chunkData) % 2 ^ 32 = _
    have hwords : (job.image.window 0 d.txSum).length % 4 = 0 := by
      rw [Memory.length_window]
      have hfour : 4 ∣ job.pageSize := Nat.dvd_of_mod_eq_zero hjob.words
      exact Nat.mod_eq_zero_of_dvd (Nat.dvd_trans hfour h.whole)
    rw [h.sum, hchunk, Nat.mod_add_mod, ← sumWords_append hwords]
    change _ = sumWords (job.image.window 0 (d.txSum + job.pageSize)) % 2 ^ 32
    rw [Memory.window_add, zero_add]
  · by_cases hold : a < d.addr
    · have hbefore : ¬ (RangeOp.write d.addr d.chunkData).Touches a :=
        fun hto => Nat.not_lt.mpr hto.1 hold
      exact (RangeOp.apply_of_not_touches hbefore).trans (h.written a hlo hold)
    have hpage : a < d.addr + job.pageSize := hhi
    have hge : d.addr ≤ a := Nat.le_of_not_lt hold
    change (RangeOp.write d.addr d.chunkData).apply d.flash a = _
    rw [RangeOp.apply_write hge (by rw [hlen]; exact hpage), h.ready a hge (by omega), hchunk,
      Memory.getD_window _ _ (by omega),
      show d.txSum + (a - d.addr) = a - job.startAddress by omega, Job.stored]
    by_cases hfrom : a < job.erasedFrom
    · rw [if_pos hfrom, if_pos hfrom]
    · rw [if_neg hfrom, if_neg hfrom, erased_and]
  · have hafter : ¬ (RangeOp.write d.addr d.chunkData).Touches a := fun hto =>
      Nat.not_lt.mpr hlo (htouch a hto).2
    have hge : d.addr ≤ a := Nat.le_trans (Nat.le_add_right _ _) hlo
    exact (RangeOp.apply_of_not_touches hafter).trans (h.ready a hge hhi)
  · have hafter : ¬ (RangeOp.write d.addr d.chunkData).Touches a := fun hto => by
      have hlt := (htouch a hto).2
      omega
    exact (RangeOp.apply_of_not_touches hafter).trans (h.behind a hlo)
  · obtain ⟨hlo, hhi⟩ := h.touched op hop a hto
    exact ⟨hlo, hhi.imp_left fun hlt => Nat.lt_of_lt_of_le hlt (Nat.le_add_right _ _)⟩
  · obtain ⟨hlo, hlt⟩ := htouch a hto
    exact ⟨by omega, .inl hlt⟩
  · change d.addr ≤ d.addr + job.pageSize - 1 ∧
      d.addr + job.pageSize - 1 < d.addr + d.chunkData.length
    omega

theorem Progress.atPage (hblock : InBlock job e d)
    (d' : Download) (haddr : d'.addr = d.addr) (hlast : d'.lastEraseAddr = d.lastEraseAddr)
    (hpages : d'.writePages = d.writePages) (hper : d'.pagesPerBlock = d.pagesPerBlock) :
    AtPage job e (d'.advance job) := by
  have hpos := pageSize_pos hjob.page
  have hmore := hblock.more
  have hends := hblock.ends
  by_cases hdone : d.pagesPerBlock ≤ d.writePages + 1
  · left
    have hone : d.pagesPerBlock - d.writePages = 1 := by omega
    rw [hone, one_mul] at hends
    refine ⟨?_, ?_, fun heq => ?_⟩
    · simp [Download.advance, hper, hpages, hdone]
    · simp [Download.advance, haddr, hends]
    · have hlt := h.last
      simp only [Download.advance] at heq
      omega
  right
  have hnext : (d'.advance job).writePages = d.writePages + 1 := by
    simp [Download.advance, hper, hpages, hdone]
  refine ⟨by omega, ⟨?_, ?_⟩⟩
  · rw [hnext]
    simp only [Download.advance]
    omega
  · rw [hnext]
    simp only [Download.advance, hper]
    have hsplit :
        d.pagesPerBlock - d.writePages = d.pagesPerBlock - (d.writePages + 1) + 1 := by omega
    rw [hsplit, Nat.add_mul] at hends
    omega

end

theorem startBlock_erase (hblocks : job.chipErase = false) (hpages : d.writePages = 0)
    (hlast : d.addr ≠ d.lastEraseAddr) (haligned : d.addr % job.blockSize d.addr d.txSum = 0) :
    d.startBlock job =
      (let r := Download.send
        { d with pagesPerBlock := job.blockSize d.addr d.txSum / job.pageSize }
        (.erase d.addr (job.blockSize d.addr d.txSum))
      if r.1 ≠ .ok then r
      else (.ok, { r.2 with
        lastEraseAddr := d.addr
        nextEraseAddr := d.addr + job.blockSize d.addr d.txSum })) := by
  have hfirst : ¬ d.writePages ≠ 0 := fun h => h hpages
  have hokay : ¬ (job.isRam = false ∧ d.addr % job.blockSize d.addr d.txSum ≠ 0) := fun h =>
    h.2 haligned
  simp only [Download.startBlock, if_neg hfirst, if_neg hlast, if_neg hokay, hblocks,
    if_neg Bool.false_ne_true]

theorem startBlock_nil (h : Progress job mem e d) (hjob : job.Nor) (hpage : AtPage job e d)
    (hmore : d.txSum < job.file.length) (hanswers : d.answers = []) :
    (d.startBlock job).1 = .ok ∧ (d.startBlock job).2.answers = [] := by
  rcases hpage with ⟨hpages, hstart, -⟩ | ⟨hpages, -⟩
  · by_cases hlast : d.addr = d.lastEraseAddr
    · simp [Download.startBlock, hpages, hlast, hanswers]
    have haligned := (blockSize_spec job (hstart ▸ h.sector : 4096 ∣ d.addr) d.txSum).2.1
    have haddr : d.addr < 2 ^ 32 := h.addr_lt hjob hmore
    rw [startBlock_erase hjob.blocks hpages hlast haligned]
    have hsent := @send_nil { d with pagesPerBlock := job.blockSize d.addr d.txSum / job.pageSize }
      (.erase d.addr (job.blockSize d.addr d.txSum)) hanswers haddr
    simp only [ne_eq, hsent.1, not_true, if_false]
    exact ⟨trivial, hsent.2⟩
  · simp [Download.startBlock, hpages, hanswers]

theorem Progress.startBlock (h : Progress job mem e d) (hjob : job.Nor) (hpage : AtPage job e d)
    (hmore : d.txSum < job.alignedImgLength) (hok : (d.startBlock job).1 = .ok) :
    ∃ e' d', (d.startBlock job).2 = d' ∧ Progress job mem e' d' ∧ InBlock job e' d' ∧
      d'.txSum = d.txSum ∧ d'.chunkData = d.chunkData ∧ d'.rest = d.rest := by
  rcases hpage with ⟨hpages, hstart, hfresh⟩ | ⟨hpages, hblock⟩
  · have hsector : 4096 ∣ d.addr := hstart ▸ h.sector
    have haligned := (blockSize_spec job hsector d.txSum).2.1
    by_cases hlast : d.addr = d.lastEraseAddr
    · refine ⟨_, _, ?_, h.skip hjob hstart hmore (hfresh hlast)
        (job.blockSize d.addr d.txSum / job.pageSize),
        inBlock_start hjob hsector rfl hpages rfl, rfl, rfl, rfl⟩
      simp only [Download.startBlock, hpages, if_pos hlast, ne_eq, not_true, if_false]
    have hnonzero : d.addr ≠ 0 := fun hzero => by
      have := h.last
      omega
    rw [startBlock_erase hjob.blocks hpages hlast haligned] at hok ⊢
    have hsent : (Download.send
        { d with pagesPerBlock := job.blockSize d.addr d.txSum / job.pageSize }
        (.erase d.addr (job.blockSize d.addr d.txSum))).1 = .ok := by
      by_contra hfail
      simp only [ne_eq, hfail, not_false_iff, if_true] at hok
    obtain ⟨answers, hsend⟩ := send_eq hsent
    have hprogress := h.erase hjob hstart hmore hnonzero
      (job.blockSize d.addr d.txSum / job.pageSize) answers
    simp only [hsent, hsend]
    exact ⟨_, _, rfl, hprogress, inBlock_start hjob hsector rfl hpages rfl, rfl, rfl, rfl⟩
  · refine ⟨e, d, ?_, h, hblock, rfl, rfl, rfl⟩
    simp [Download.startBlock, hpages]

theorem readChunk_pageRead (hpos : 0 < job.pageSize) (hrest : d.rest = job.file.drop d.txSum)
    (hmore : d.txSum < job.file.length) : PageRead job (d.readChunk job) where
  more := hmore
  len := by
    simp only [Download.readChunk, hrest, length_take, length_drop]
    omega
  chunk := by
    simp only [Download.readChunk, hrest]
    exact chunk_eq_window job d.txSum
  rest := by
    simp only [Download.readChunk, hrest, drop_drop]

theorem downloadLoop_spec (hjob : job.Nor) {fuel : Nat} (hfuel : job.file.length - d.txSum ≤ fuel)
    (h : Progress job mem e d) (hpage : AtPage job e d) (hread : PageRead job d)
    (hgo : (downloadLoop job fuel d).1 = .ok ∨ d.answers = []) :
    ∃ d', Progress job mem (job.startAddress + job.eraseLength) d' ∧
      d'.txSum = job.alignedImgLength ∧ (d.answers = [] → d'.answers = []) ∧
      downloadLoop job fuel d = d'.eraseRest job := by
  induction fuel generalizing d e with
  | zero => exact absurd hread.more (by omega)
  | succ fuel ih =>
    obtain ⟨hdvd, hle, hlt⟩ := alignedImgLength_spec hjob.page
    have hmore := hread.more
    rw [downloadLoop, if_neg hread.len] at hgo ⊢
    have hstarted : (d.startBlock job).1 = .ok := by
      rcases hgo with hgo | hnil
      · by_contra hfail
        simp only [ne_eq, hfail, not_false_iff, if_true] at hgo
      · exact (startBlock_nil h hjob hpage hmore hnil).1
    obtain ⟨e', d₁, hd₁, h₁, hblock, htx, hchunk, hrest⟩ :=
      h.startBlock hjob hpage (by omega) hstarted
    have hnil₁ : d.answers = [] → d₁.answers = [] := fun hnil =>
      hd₁ ▸ (startBlock_nil h hjob hpage hmore hnil).2
    simp only [ne_eq, hstarted, not_true, if_false, hd₁] at hgo ⊢
    have haddr₁ : (RangeOp.write d₁.addr d₁.chunkData).addr < 2 ^ 32 :=
      h₁.addr_lt hjob (htx ▸ hmore)
    have hsent : (d₁.send (.write d₁.addr d₁.chunkData)).1 = .ok := by
      rcases hgo with hgo | hnil
      · by_contra hfail
        simp only [hfail, not_false_iff, if_true] at hgo
      · exact (send_nil (hnil₁ hnil) haddr₁).1
    have hpageData : d₁.chunkData = job.image.window d₁.txSum job.pageSize := by
      rw [hchunk, htx, hread.chunk]
    have hwhole : d₁.chunkData.length % 4 = 0 := by
      rw [hpageData, Memory.length_window, hjob.words]
    obtain ⟨answers, hsend⟩ := send_eq hsent
    have hnil₂ : d.answers = [] → answers = [] := fun hnil => by
      have hanswers := (send_nil (hnil₁ hnil) haddr₁).2
      rwa [hsend] at hanswers
    have hwritten := h₁.write hjob hblock hpageData answers
    have hnext := h₁.atPage hjob hblock (d₁.sent (.write d₁.addr d₁.chunkData) answers)
      rfl rfl rfl rfl
    have hwhole' : (d₁.sent (.write d₁.addr d₁.chunkData) answers).chunkData.length % 4 = 0 :=
      hwhole
    simp only [hsent, hsend, hwhole'] at hgo ⊢
    generalize hd₂ : (d₁.sent (.write d₁.addr d₁.chunkData) answers).advance job = d₂
      at hwritten hnext hgo ⊢
    have htx₂ : d₂.txSum = d.txSum + job.pageSize := by rw [← hd₂, ← htx]; rfl
    have hrest₂ : d₂.rest = job.file.drop d₂.txSum := by
      rw [htx₂, ← hread.rest, ← hrest, ← hd₂]; rfl
    have hanswers₂ : d.answers = [] → d₂.answers = [] := fun hnil => by
      rw [← hd₂]
      exact hnil₂ hnil
    have hstep : d₂.txSum ≤ job.alignedImgLength :=
      htx₂ ▸ add_le_of_dvd h.whole hdvd (by omega)
    by_cases hdone : job.alignedImgLength ≤ d₂.txSum
    · rw [if_pos hdone]
      have htotal : d₂.txSum = job.alignedImgLength := Nat.le_antisymm hstep hdone
      have hend : e' = job.startAddress + job.eraseLength := by
        obtain ⟨hdvdE, hleE, hltE⟩ := eraseLength_spec job
        have hsector := hjob.sector
        have hsector' := hwritten.sector
        have hfront := hwritten.front
        have hbound := hwritten.bound
        rw [hwritten.addr] at hfront
        omega
      exact ⟨d₂, hend ▸ hwritten, htotal, hanswers₂, rfl⟩
    · rw [if_neg hdone] at hgo ⊢
      have hmore₂ : d₂.txSum < job.file.length := by
        have hstep₂ := add_le_of_dvd hwritten.whole hdvd (Nat.lt_of_not_le hdone)
        omega
      obtain ⟨d', hd', htotal, hanswers, hloop⟩ :=
        @ih e' (d₂.readChunk job) (by change _ - d₂.txSum ≤ _; omega) { hwritten with }
          (hnext.imp_right fun hin => ⟨hin.1, { hin.2 with }⟩)
          (readChunk_pageRead (pageSize_pos hjob.page) hrest₂ hmore₂) (hgo.imp_right hanswers₂)
      exact ⟨d', hd', htotal, fun hnil => hanswers (hanswers₂ hnil), hloop⟩

end Loop

/-! ### The result -/

/-- The last value of `next_erase_addr`. -/
def Job.lastErase : Nat :=
  if job.startAddress + job.eraseLength ≤ job.erasedFrom then 0
  else job.startAddress + job.eraseLength

def Job.final : Memory := fun a =>
  if job.fullErase ∧ job.lastErase ≤ a ∧ a < job.endAddress then 0xFF else job.stored mem a

def Job.SumsAgree : Prop :=
  sumWords ((job.final mem).window job.startAddress job.alignedImgLength) % 2 ^ 32 =
    sumWords (job.image.window 0 job.alignedImgLength) % 2 ^ 32

structure Loaded (job : Job) (mem : Memory) (d : Download) : Prop where
  content : ∀ a, job.startAddress ≤ a → a < job.startAddress + job.alignedImgLength →
    d.flash a = job.final mem a
  sum : d.checksum = sumWords (job.image.window 0 job.alignedImgLength) % 2 ^ 32
  touched : ∀ op ∈ d.requests, ∀ a, op.Touches a → job.startAddress ≤ a ∧
    (a < job.startAddress + job.alignedImgLength ∨ a < job.lastErase ∨ a < job.endAddress)
  erased : job.lastErase = 0 ∨ ∃ op ∈ d.requests, op.Touches (job.lastErase - 1)
  filled : ∃ op ∈ d.requests, op.Touches (job.startAddress + job.alignedImgLength - 1)

section Result

variable {job : Job} {mem : Memory} {d : Download}

theorem eraseRest_nil (hjob : job.Nor) (hanswers : d.answers = []) :
    (d.eraseRest job).1 = .ok ∧ (d.eraseRest job).2.answers = [] := by
  rw [Download.eraseRest]
  by_cases hrest : job.fullErase ∧ d.nextEraseAddr < job.endAddress
  · rw [if_pos hrest]
    apply send_nil hanswers
    have hbelow := hjob.below
    change d.nextEraseAddr < 2 ^ 32
    omega
  · rw [if_neg hrest]
    exact ⟨rfl, hanswers⟩

theorem erasedFrom_of_ne_zero (hstart : job.startAddress ≠ 0) :
    job.erasedFrom = job.startAddress := by
  rw [Job.erasedFrom, if_neg hstart]

theorem lastErase_of_ne_zero (hpos : 0 < job.alignedImgLength) (hstart : job.startAddress ≠ 0) :
    job.lastErase = job.startAddress + job.eraseLength := by
  have hle := (eraseLength_spec job).2.1
  rw [Job.lastErase, erasedFrom_of_ne_zero hstart, if_neg (by omega)]

theorem startAddress_le_lastErase (hpos : 0 < job.alignedImgLength) :
    job.startAddress ≤ job.lastErase := by
  by_cases hstart : job.startAddress = 0
  · omega
  · rw [lastErase_of_ne_zero hpos hstart]
    exact Nat.le_add_right _ _

theorem Progress.loaded (h : Progress job mem (job.startAddress + job.eraseLength) d)
    (hjob : job.Nor) (hpos : 0 < job.alignedImgLength) (htotal : d.txSum = job.alignedImgLength)
    (hok : (d.eraseRest job).1 = .ok) : Loaded job mem (d.eraseRest job).2 := by
  have haddr := h.addr
  rw [htotal] at haddr
  have hnext : d.nextEraseAddr = job.lastErase := h.next
  have herased := h.erased
  have hfilled := h.filled.resolve_left (by omega)
  have htouched := h.touched
  have hwritten := h.written
  have hsum := h.sum
  rw [hnext] at herased
  rw [haddr] at hfilled
  rw [htotal] at hsum
  rw [Download.eraseRest] at hok ⊢
  by_cases hrest : job.fullErase ∧ d.nextEraseAddr < job.endAddress
  · rw [if_pos hrest, hjob.blocks, if_neg Bool.false_ne_true, hnext] at hok ⊢
    obtain ⟨answers, hsend⟩ := send_eq hok
    rw [hsend]
    refine ⟨fun a hlo hhi => ?_, hsum, forall_mem_append.mpr
      ⟨fun op hop a hto => ?_, forall_mem_singleton.mpr fun a ⟨hlo, hhi⟩ => ?_⟩, ?_, ?_⟩
    · change (RangeOp.erase _ _).apply d.flash a = _
      rw [Job.final]
      by_cases hin : job.lastErase ≤ a ∧ a < job.endAddress
      · rw [if_pos ⟨hrest.1, hin⟩, RangeOp.apply_erase hin.1 (by omega)]
      have hout : ¬ (RangeOp.erase job.lastErase (job.endAddress - job.lastErase)).Touches a :=
        fun hto => hin ⟨hto.1, by have := hto.2; omega⟩
      rw [if_neg (fun h' => hin h'.2), RangeOp.apply_of_not_touches hout,
        hwritten a hlo (by omega)]
    · obtain ⟨hlo, hhi⟩ := htouched op hop a hto
      exact ⟨hlo, by omega⟩
    · have hfront := startAddress_le_lastErase hpos
      exact ⟨by omega, .inr (.inr (by omega))⟩
    · exact herased.imp_right fun ⟨op, hop, hto⟩ => ⟨op, mem_append_left _ hop, hto⟩
    · obtain ⟨op, hop, hto⟩ := hfilled
      exact ⟨op, mem_append_left _ hop, hto⟩
  · rw [if_neg hrest]
    refine ⟨fun a hlo hhi => ?_, hsum, fun op hop a hto => ?_, herased, hfilled⟩
    · rw [Job.final, if_neg (fun h' => hrest ⟨h'.1, by omega⟩)]
      exact hwritten a hlo (by omega)
    · obtain ⟨hlo, hhi⟩ := htouched op hop a hto
      exact ⟨hlo, by omega⟩

theorem progress_start (answers : List ErrType) (hjob : job.Nor) :
    Progress job mem job.startAddress ((Download.start job mem answers).readChunk job) where
  addr := rfl
  whole := Nat.dvd_zero _
  sector := hjob.sector
  front := Nat.le_refl _
  bound := Nat.le_add_right _ _
  first := .inl rfl
  last := Nat.zero_le _
  next := by rw [if_pos (erasedFrom_ge job)]; rfl
  sum := rfl
  written := fun a hlo hhi => absurd hlo (Nat.not_le.mpr hhi)
  ready := fun a hlo hhi => absurd hlo (Nat.not_le.mpr hhi)
  behind := fun _ _ => rfl
  touched := fun op hop => absurd hop not_mem_nil
  erased := .inl rfl
  filled := .inl rfl

theorem downloadImage_loaded (hjob : job.Nor) (hfile : job.file ≠ []) {answers : List ErrType}
    (hgo : (downloadImage job mem answers).1 = .ok ∨ answers = []) :
    Loaded job mem (downloadImage job mem answers).2 ∧
      ((downloadImage job mem answers).1 = .ok ↔ job.SumsAgree mem) := by
  have hlen : 0 < job.file.length := length_pos_iff.mpr hfile
  have hpos : 0 < job.alignedImgLength :=
    Nat.lt_of_lt_of_le hlen (alignedImgLength_spec hjob.page).2.1
  have hread : PageRead job ((Download.start job mem answers).readChunk job) :=
    readChunk_pageRead (pageSize_pos hjob.page) rfl hlen
  have hpage : AtPage job job.startAddress ((Download.start job mem answers).readChunk job) :=
    .inl ⟨rfl, rfl, fun h => h⟩
  rw [downloadImage] at hgo ⊢
  have hloop : (downloadLoop job (job.file.length + 1)
      ((Download.start job mem answers).readChunk job)).1 = .ok ∨ answers = [] := by
    rcases hgo with hgo | hnil
    · left
      by_contra hfail
      simp only [ne_eq, hfail, not_false_iff, if_true] at hgo
    · exact .inr hnil
  obtain ⟨d', hd', htotal, hanswers, heq⟩ :=
    downloadLoop_spec hjob (by change _ - 0 ≤ _; omega) (progress_start answers hjob)
      hpage hread hloop
  rw [heq] at hgo hloop ⊢
  have hrested : (d'.eraseRest job).1 = .ok :=
    hloop.elim id fun hnil => (eraseRest_nil hjob (hanswers hnil)).1
  have hloaded := hd'.loaded hjob hpos htotal hrested
  have hdevice : (d'.eraseRest job).2.deviceChecksum job =
      sumWords ((job.final mem).window job.startAddress job.alignedImgLength) % 2 ^ 32 := by
    rw [Download.deviceChecksum, Memory.window_congr fun k hk =>
      hloaded.content (job.startAddress + k) (Nat.le_add_right _ _) (Nat.add_lt_add_left hk _)]
  have hfour : ¬ (2 ^ 32 ≤ job.startAddress ∨ 2 ^ 32 ≤ job.endAddress ∨
      2 ^ 32 ≤ job.alignedImgLength) := by
    have hfits := hjob.fits
    have hbelow := hjob.below
    have hlt := (alignedImgLength_spec hjob.page).2.2
    have hpageLe := Nat.le_of_dvd (by decide) hjob.page
    omega
  simp only [ne_eq, hrested, not_true, if_false, if_neg hfour] at hgo ⊢
  have hanswer : (d'.eraseRest job).2.answers.head? = none ∨
      (d'.eraseRest job).2.answers.head? = some .ok := by
    rcases hgo with hgo | hnil
    · split at hgo
      · left; assumption
      · right; assumption
      · rename_i hne _
        exact absurd hgo hne
    · exact .inl (by rw [(eraseRest_nil hjob (hanswers hnil)).2]; rfl)
  rw [Job.SumsAgree, ← hdevice, ← hloaded.sum]
  by_cases hsum : (d'.eraseRest job).2.deviceChecksum job = (d'.eraseRest job).2.checksum <;>
    rcases hanswer with hanswer | hanswer <;> simp [hanswer, hsum, hloaded]

theorem downloadImage_fails (hfail : (downloadLoop job (job.file.length + 1)
      ((Download.start job mem answers).readChunk job)).1 ≠ .ok) :
    (downloadImage job mem answers).1 ≠ .ok := by
  simp only [downloadImage, if_pos hfail]
  exact hfail

@[simp] theorem send_chunkData (d : Download) : (d.send op).2.chunkData = d.chunkData := by
  rw [Download.send]
  split
  · rfl
  · split <;> rfl

@[simp] theorem startBlock_chunkData (d : Download) :
    (d.startBlock job).2.chunkData = d.chunkData := by
  simp only [Download.startBlock]
  split
  · rfl
  split
  · rfl
  split
  · rfl
  generalize (if job.chipErase then 0 else job.blockSize d.addr d.txSum) = size
  split
  · exact send_chunkData _
  · exact send_chunkData _

theorem readLen_start (hpage : job.pageSize ∣ 4096) (hfile : job.file ≠ [])
    (answers : List ErrType) :
    ((Download.start job mem answers).readChunk job).readLen ≠ 0 :=
  (readChunk_pageRead (pageSize_pos hpage) rfl (length_pos_iff.mpr hfile)).len

theorem downloadImage_unaligned (hpage : job.pageSize ∣ 4096) (hram : job.isRam = false)
    (hfile : job.file ≠ []) (hstart : ¬ 4096 ∣ job.startAddress) (answers : List ErrType) :
    (downloadImage job mem answers).1 ≠ .ok := by
  have hne : ¬ job.startAddress = 0 := fun h => hstart (h ▸ Nat.dvd_zero _)
  have hblock : ¬ job.startAddress % job.blockSize job.startAddress 0 = 0 := fun h =>
    hstart (Nat.dvd_trans (dvd_blockSize job) (Nat.dvd_of_mod_eq_zero h))
  have hblocked : ((Download.start job mem answers).readChunk job).startBlock job =
      (.sysParameter, { (Download.start job mem answers).readChunk job with
        pagesPerBlock := job.blockSize job.startAddress 0 / job.pageSize }) := by
    simp [Download.startBlock, Download.readChunk, Download.start, hne, hblock, hram]
  apply downloadImage_fails
  rw [downloadLoop, if_neg (readLen_start hpage hfile answers), hblocked]
  simp

theorem downloadImage_narrow (hpage : job.pageSize ∣ 4096) (hwords : job.pageSize % 4 ≠ 0)
    (hfile : job.file ≠ []) (answers : List ErrType) : (downloadImage job mem answers).1 ≠ .ok := by
  have hchunk : ((Download.start job mem answers).readChunk job).chunkData.length =
    job.pageSize := by
    simp only [Download.readChunk, length_append, length_take, length_replicate]
    omega
  apply downloadImage_fails
  rw [downloadLoop, if_neg (readLen_start hpage hfile answers)]
  simp only []
  split
  · assumption
  split
  · assumption
  · rw [if_pos (by simpa [hchunk] using hwords)]
    exact ErrType.noConfusion

theorem downloadImage_empty (hfile : job.file = []) (answers : List ErrType) :
    (downloadImage job mem answers).2.requests = [] := by
  simp only [downloadImage, downloadLoop, Download.readChunk, Download.start, hfile, take_nil,
    length_nil, if_true, ne_eq, not_true, if_false]
  split
  · rfl
  split
  · split <;> rfl
  · split <;> rfl
  · rfl

end Result

/-! ### Accepted images -/

/-- A download that reports success leaves the image in the flash, and addresses no byte outside
    of the range. -/
def Downloaded (r : ErrType × Download) : Prop :=
  r.1 = .ok → r.2.flash.window job.startAddress job.file.length = job.file ∧
      ∀ op ∈ r.2.requests, ∀ a, op.Touches a → job.startAddress ≤ a ∧ a < job.endAddress

/-- The last block ends inside the range. At address 0, where the first block is not erased, the
    flash must keep the image, or the checksum must tell. -/
def DownloadCond : Prop :=
  job.file = [] ∨ ¬ 4096 ∣ job.startAddress ∨ job.pageSize % 4 ≠ 0 ∨
    (job.startAddress ≠ 0 ∧ job.startAddress + job.eraseLength ≤ job.endAddress) ∨
    (job.startAddress = 0 ∧
      (sumWords ((job.final mem).window job.startAddress job.alignedImgLength) % 2 ^ 32 ≠
          sumWords (job.image.window 0 job.alignedImgLength) % 2 ^ 32 ∨
        ((job.final mem).window job.startAddress job.file.length = job.file ∧
          job.alignedImgLength ≤ job.endAddress ∧ job.lastErase ≤ job.endAddress)))

section Accepted

variable {job : Job} {mem : Memory}

theorem image_window (job : Job) : job.image.window 0 job.file.length = job.file := by
  apply Memory.window_eq_iff.mpr
  intro k _
  rw [zero_add, Job.image]

theorem final_of_ne_zero (hpos : 0 < job.alignedImgLength) (hstart : job.startAddress ≠ 0)
    (hk : k < job.alignedImgLength) : job.final mem (job.startAddress + k) = job.image k := by
  have hle := (eraseLength_spec job).2.1
  rw [Job.final, lastErase_of_ne_zero hpos hstart, if_neg (by omega), Job.stored,
    erasedFrom_of_ne_zero hstart, if_neg (by omega), Nat.add_sub_cancel_left]

theorem Loaded.window (h : Loaded job mem d) (hn : n ≤ job.alignedImgLength) :
    d.flash.window job.startAddress n = (job.final mem).window job.startAddress n :=
  Memory.window_congr fun k hk =>
    h.content (job.startAddress + k) (Nat.le_add_right _ _)
      (Nat.add_lt_add_left (Nat.lt_of_lt_of_le hk hn) _)

theorem downloaded_iff (hjob : job.Nor) (hfile : job.file ≠ []) :
    (∀ answers, Downloaded job (downloadImage job mem answers)) ↔
      ¬ job.SumsAgree mem ∨ ((job.final mem).window job.startAddress job.file.length = job.file ∧
        job.startAddress + job.alignedImgLength ≤ job.endAddress ∧
        job.lastErase ≤ job.endAddress) := by
  have hle := (alignedImgLength_spec hjob.page).2.1
  constructor
  · intro hall
    obtain ⟨hloaded, hok⟩ := @downloadImage_loaded job mem hjob hfile [] (.inr rfl)
    by_cases hsum : job.SumsAgree mem
    · obtain ⟨hwindow, htouched⟩ := hall [] (hok.mpr hsum)
      refine .inr ⟨hloaded.window hle ▸ hwindow, ?_, ?_⟩
      · obtain ⟨op, hop, hto⟩ := hloaded.filled
        have hlt := (htouched op hop _ hto).2
        omega
      · rcases hloaded.erased with hzero | ⟨op, hop, hto⟩
        · omega
        · have hlt := (htouched op hop _ hto).2
          omega
    · exact .inl hsum
  · intro hcond answers hret
    obtain ⟨hloaded, hok⟩ := downloadImage_loaded hjob hfile (.inl hret)
    rcases hcond with hsum | ⟨hwindow, haligned, hlast⟩
    · exact absurd (hok.mp hret) hsum
    · refine ⟨(hloaded.window hle).trans hwindow, fun op hop a hto => ?_⟩
      obtain ⟨hlo, hhi⟩ := hloaded.touched op hop a hto
      exact ⟨hlo, by omega⟩

theorem downloadCond_ne_zero (hjob : job.Nor) (hfile : job.file ≠ [])
    (hstart : job.startAddress ≠ 0) :
    (¬ job.SumsAgree mem ∨ ((job.final mem).window job.startAddress job.file.length = job.file ∧
        job.startAddress + job.alignedImgLength ≤ job.endAddress ∧
        job.lastErase ≤ job.endAddress)) ↔
      job.startAddress + job.eraseLength ≤ job.endAddress := by
  have hle := (alignedImgLength_spec hjob.page).2.1
  have hpos : 0 < job.alignedImgLength := Nat.lt_of_lt_of_le (length_pos_iff.mpr hfile) hle
  have hleE := (eraseLength_spec job).2.1
  have hwindow : ∀ n ≤ job.alignedImgLength,
      (job.final mem).window job.startAddress n = job.image.window 0 n := fun n hn =>
    Memory.window_congr fun k hk => by
      rw [zero_add]
      exact final_of_ne_zero hpos hstart (Nat.lt_of_lt_of_le hk hn)
  rw [Job.SumsAgree, hwindow _ (Nat.le_refl _), hwindow _ hle, image_window,
    lastErase_of_ne_zero hpos hstart]
  constructor
  · rintro (hsum | ⟨-, -, hlast⟩)
    · exact absurd rfl hsum
    · exact hlast
  · intro hlast
    exact .inr ⟨rfl, by omega, hlast⟩

end Accepted

/-- The download of an accepted image holds what it reports exactly under the condition. -/
theorem download_holds_iff {images : List ImageInfo}
    (hverify : verifyImages .nor false images = .ok) {image : ImageInfo}
    (himage : image ∈ images) (hmandatory : image.mandatory = true)
    (htype : image.memoryType = .nor) {file : List UInt8} (hfile : image.file = some file)
    {dev : Device} (hpage : dev.flashPageSize ∣ 4096) (hchip : dev.chipErase = false)
    (mem : Memory) :
    (∀ answers, Downloaded (.ofImage dev image file)
      (downloadImage (.ofImage dev image file) mem answers)) ↔
      DownloadCond (.ofImage dev image file) mem := by
  obtain ⟨hfits, hbelow⟩ := verifyImage_nor hfile (verifyImages_mandatory hverify himage hmandatory)
  have hram : (Job.ofImage dev image file).isRam = false := by simp [Job.ofImage, htype]
  have hpage' : (Job.ofImage dev image file).pageSize ∣ 4096 := hpage
  have hchip' : (Job.ofImage dev image file).chipErase = false := hchip
  have hfits' : (Job.ofImage dev image file).startAddress +
      (Job.ofImage dev image file).file.length ≤ (Job.ofImage dev image file).endAddress := hfits
  have hbelow' : (Job.ofImage dev image file).endAddress < 0x20000000 := hbelow
  generalize Job.ofImage dev image file = job at hram hpage' hchip' hfits' hbelow' ⊢
  by_cases hempty : job.file = []
  · refine ⟨fun _ => .inl hempty, fun _ answers _ => ⟨by rw [hempty]; rfl, ?_⟩⟩
    rw [downloadImage_empty hempty]
    exact fun op hop => absurd hop not_mem_nil
  by_cases hsector : 4096 ∣ job.startAddress
  · by_cases hwords : job.pageSize % 4 = 0
    · have hjob : job.Nor := ⟨hpage', hwords, hram, hchip', hsector, hfits', hbelow'⟩
      rw [downloaded_iff hjob hempty, DownloadCond]
      by_cases hstart : job.startAddress = 0
      · simp [Job.SumsAgree, hempty, hwords, hstart]
      · rw [downloadCond_ne_zero hjob hempty hstart]
        simp [hempty, hsector, hwords, hstart]
    · refine ⟨fun _ => .inr (.inr (.inl hwords)), fun _ answers hret => ?_⟩
      exact absurd hret (downloadImage_narrow hpage' hwords hempty answers)
  · refine ⟨fun _ => .inr (.inl hsector), fun _ answers hret => ?_⟩
    exact absurd hret (downloadImage_unaligned hpage' hram hempty hsector answers)

/-- A device with pages of 256 bytes. -/
def norDevice : Device := ⟨.nor, 0x08000000, 0x400000, 256, 16, 0, false⟩

/-- A file of 256 bytes whose words add up to 0. -/
def topBits : List UInt8 := (List.replicate 64 [0, 0, 0, 0x80]).flatten

def norImage (startAddress endAddress : Int) : ImageInfo :=
  ⟨true, some topBits, startAddress, endAddress, .nor, false⟩

/-- A file of three sectors and a part of a page. -/
def longFile : List UInt8 := List.replicate 0x3004 0x5A

def longImage : ImageInfo := ⟨true, some longFile, 0x08000000, 0x08004000, .nor, false⟩

theorem download_holds_sector :
    Downloaded (.ofImage norDevice longImage longFile)
      (downloadImage (.ofImage norDevice longImage longFile) (fun _ => 0) []) :=
  (@download_holds_iff [longImage] (by decide +kernel) longImage (.head _) rfl rfl longFile rfl
    norDevice (by decide) rfl (fun _ => 0)).mpr (.inr (.inr (.inr (.inl (by decide +kernel))))) []

/-- A range of 256 bytes is erased with the bytes behind it; at address 0 nothing is erased, and the
    checksum does not tell. -/
theorem download_erases_behind : verifyImages .nor false [norImage 0x08000000 0x08000100] = .ok ∧
    postVerifyImages norDevice [norImage 0x08000000 0x08000100] = .ok ∧
    (downloadImage (.ofImage norDevice (norImage 0x08000000 0x08000100) topBits)
      (fun _ => 0) []).1 = .ok ∧
    (∃ op ∈ (downloadImage (.ofImage norDevice (norImage 0x08000000 0x08000100) topBits)
      (fun _ => 0) []).2.requests, op.Touches 0x08000FFF) ∧
    verifyImages .nor false [norImage 0 0x1000] = .ok ∧
    postVerifyImages norDevice [norImage 0 0x1000] = .ok ∧
    (downloadImage (.ofImage norDevice (norImage 0 0x1000) topBits) (fun _ => 0) []).1 = .ok ∧
    (downloadImage (.ofImage norDevice (norImage 0 0x1000) topBits) (fun _ => 0) []).2.flash 3 = 0 ∧
    topBits[3]? = some 0x80 := by
  decide +kernel

end AmebaRtos.FlashTool
