import Mathlib.Data.List.Infix
import AmebaRtos.Usb.Msc

/-!
# The transfers of the mass storage device

Between commands the device is settled; in a data phase the blocks that are left are blocks of the
command and on the disk. The range check adds block address and count in 32 bits, so this needs
command blocks whose sum fits. What is sent or stored is data of the command itself if moreover a
READ asks for whole blocks or a full buffer and the host sends as many bytes as a WRITE asks for;
`own` stands for following the data as well.
-/

namespace AmebaRtos.Usb

open Lib List

/-! ### What a logged call is to do -/

def Moment.Names (m : Moment) (sector count : Nat) : Prop :=
  ∀ k < count, sector + k < m.numSectors ∧ m.command.firstBlock ≤ sector + k ∧
    sector + k < m.command.firstBlock + m.command.blockCount

def InRange : MscEvent × Moment → Prop
  | (.diskRead sector count, m) => m.Names sector count
  | (.diskWrite sector count _, m) => m.Names sector count
  | (.sent _, _) => True

/-- A READ sends the bytes of its blocks in order, a WRITE stores the bytes received at their place,
    and another command sends only what it put in the buffer. -/
def OwnData : MscEvent × Moment → Prop
  | (.sent bytes, m) =>
    if m.command.IsRead then
      bytes = m.disk.window (m.command.firstBlock * USBD_MSC_BLK_SIZE + m.sentBytes) bytes.length ∧
        m.sentBytes + bytes.length ≤ m.command.blockCount * USBD_MSC_BLK_SIZE
    else bytes <+: m.filled
  | (.diskWrite sector count bytes, m) =>
    m.command.IsWrite ∧ m.command.firstBlock ≤ sector ∧ bytes.length = count * USBD_MSC_BLK_SIZE ∧
      bytes = (m.received.drop ((sector - m.command.firstBlock) * USBD_MSC_BLK_SIZE)).take
        (count * USBD_MSC_BLK_SIZE)
  | (.diskRead _ _, _) => True

/-! ### Lengths -/

theorem shiftRight_blkBits : n >>> USBD_MSC_BLK_BITS = n / USBD_MSC_BLK_SIZE :=
  Nat.shiftRight_eq_div_pow n USBD_MSC_BLK_BITS

theorem bufLen_mod : USBD_MSC_BUFLEN % USBD_MSC_BLK_SIZE = 0 := by decide

theorem min_bufLen_mod (hlen : len % USBD_MSC_BLK_SIZE = 0) :
    min len USBD_MSC_BUFLEN % USBD_MSC_BLK_SIZE = 0 := by
  rcases le_total len USBD_MSC_BUFLEN with h | h
  · rw [min_eq_left h]
    exact hlen
  · rw [min_eq_right h]
    exact bufLen_mod

theorem blocks_mul (hlen : len % USBD_MSC_BLK_SIZE = 0) :
    len >>> USBD_MSC_BLK_BITS * USBD_MSC_BLK_SIZE = len := by
  rw [shiftRight_blkBits]
  exact Nat.div_mul_cancel (Nat.dvd_of_mod_eq_zero hlen)

variable {s : MscDev}

namespace MscDev

theorem bytesLeft_le (s : MscDev) : s.bytesLeft ≤ s.blklen * USBD_MSC_BLK_SIZE := Nat.mod_le _ _

theorem bytesLeft_mod (s : MscDev) : s.bytesLeft % USBD_MSC_BLK_SIZE = 0 := by
  have hdvd : USBD_MSC_BLK_SIZE ∣ 2 ^ 32 := by decide
  rw [bytesLeft, Nat.mod_mod_of_dvd _ hdvd]
  exact Nat.mul_mod_left _ _

theorem pieceCount_le (hlen : len ≤ s.bytesLeft) : len >>> USBD_MSC_BLK_BITS ≤ s.blklen := by
  rw [shiftRight_blkBits]
  exact Nat.div_le_of_le_mul ((hlen.trans s.bytesLeft_le).trans_eq (mul_comm _ _))

theorem trimRead_spec : ∃ phaseError blklen,
    s.trimRead.1 = { s with phaseError := phaseError, blklen := blklen } ∧ blklen ≤ s.blklen ∧
      min s.trimRead.2 USBD_MSC_BUFLEN >>> USBD_MSC_BLK_BITS ≤ blklen ∧
      (USBD_MSC_BUFLEN ≤ s.cbw.dCBWDataTransferLength ∨
          s.cbw.dCBWDataTransferLength % USBD_MSC_BLK_SIZE = 0 →
        min s.trimRead.2 USBD_MSC_BUFLEN % USBD_MSC_BLK_SIZE = 0) := by
  unfold trimRead
  split
  next hless =>
    refine ⟨_, _, rfl, pieceCount_le hless.le, ?_, ?_⟩
    · simp only [shiftRight_blkBits]
      exact Nat.div_le_div_right (min_le_left _ _)
    · rintro (hfull | hwhole)
      · simpa [min_eq_right hfull] using bufLen_mod
      · exact min_bufLen_mod hwhole
  next =>
    exact ⟨_, _, rfl, le_rfl, pieceCount_le (min_le_left _ _),
      fun _ => min_bufLen_mod s.bytesLeft_mod⟩

theorem writeLength_mod (s : MscDev) : s.writeLength % USBD_MSC_BLK_SIZE = 0 :=
  min_bufLen_mod s.bytesLeft_mod

end MscDev

/-! ### Data phases -/

structure Blocks (s : MscDev) : Prop where
  first : s.command.firstBlock ≤ s.lba
  last : s.lba + s.blklen ≤ s.command.firstBlock + s.command.blockCount
  disk : s.command.firstBlock + s.command.blockCount ≤ s.numSectors
  fits : s.command.firstBlock + s.command.blockCount < 2 ^ 32

section

variable (h : Blocks s) {count : Nat} (hcount : count ≤ s.blklen)
include h hcount

theorem Blocks.names : s.moment.Names s.lba count := by
  intro k hk
  have hfirst := h.first
  have hlast := h.last
  have hdisk := h.disk
  refine ⟨?_, ?_, ?_⟩
  · show s.lba + k < s.numSectors
    omega
  · exact Nat.le_add_right_of_le hfirst
  · show s.lba + k < s.command.firstBlock + s.command.blockCount
    omega

theorem Blocks.lba_advance : (s.advance count).lba = s.lba + count := by
  have hlast := h.last
  have hfits := h.fits
  exact Nat.mod_eq_of_lt (by omega)

theorem Blocks.advance : Blocks (s.advance count) where
  first := by
    rw [h.lba_advance hcount]
    exact Nat.le_add_right_of_le h.first
  last := by
    have hlast := h.last
    rw [h.lba_advance hcount]
    show s.lba + count + (s.blklen - count) ≤ s.command.firstBlock + s.command.blockCount
    omega
  disk := h.disk
  fits := h.fits

end

structure Settled (s : MscDev) : Prop where
  dataOut : s.botState ≠ .dataOut
  dataIn : s.botState = .dataIn → s.inFlight = 0
  out : ∀ len, s.bulkOut ≠ some (.data, len)

theorem bulkOut_ne_data (hout : s.bulkOut = none) (len : Nat) : s.bulkOut ≠ some (.data, len) := by
  simp [hout]

section Own

variable (own : Prop)

structure Reading (s : MscDev) : Prop where
  state : s.botState = .dataIn
  cbw : s.cbw = s.command
  cmd : s.command.IsRead
  out : s.bulkOut = none
  blocks : Blocks s
  offset : own → s.sentBytes = (s.lba - s.command.firstBlock) * USBD_MSC_BLK_SIZE
  whole : own → USBD_MSC_BUFLEN ≤ s.command.dCBWDataTransferLength ∨
    s.command.dCBWDataTransferLength % USBD_MSC_BLK_SIZE = 0

structure Writing (s : MscDev) : Prop where
  state : s.botState = .dataOut
  cbw : s.cbw = s.command
  cmd : s.command.IsWrite
  out : s.bulkOut = none ∨ s.bulkOut = some (.data, s.writeLength)
  blocks : Blocks s
  offset : own → s.received.length = (s.lba - s.command.firstBlock) * USBD_MSC_BLK_SIZE

structure Holding (s : MscDev) : Prop where
  state : s.botState = .dataOut
  cbw : s.cbw = s.command
  cmd : s.command.IsWrite
  blocks : Blocks s
  offset : own → s.received.length =
    (s.lba - s.command.firstBlock) * USBD_MSC_BLK_SIZE + s.writeLength
  piece : own → s.data.window 0 s.writeLength =
    s.received.drop ((s.lba - s.command.firstBlock) * USBD_MSC_BLK_SIZE)

def Logged (s : MscDev) : Prop := ∀ e ∈ s.log, InRange e ∧ (own → OwnData e)

structure Sound (s : MscDev) : Prop where
  logged : Logged own s
  phase : Settled s ∨ Reading own s ∨ Writing own s

structure Failed (s : MscDev) : Prop where
  logged : Logged own s
  state : s.botState ≠ .dataOut
  out : s.bulkOut = none

end Own

def Outcome (failed done : MscDev → Prop) : Except MscDev MscDev → Prop
  | .error s => failed s
  | .ok s => done s

theorem Outcome.imp (h : Outcome failed done r) (hfailed : ∀ e, failed e → failed' e)
    (hdone : ∀ e, done e → done' e) : Outcome failed' done' r := by
  cases r with
  | error e => exact hfailed e h
  | ok e => exact hdone e h

theorem Logged.of_log (h : Logged own s) (hlog : s'.log = s.log) : Logged own s' := by
  simpa [Logged, hlog] using h

theorem Logged.record (h : Logged own s) (event : MscEvent) (hrange : InRange (event, s.moment))
    (hown : own → OwnData (event, s.moment)) : Logged own (s.record event) := by
  exact forall_mem_append.mpr ⟨h, forall_mem_singleton.mpr ⟨hrange, hown⟩⟩

/-! ### Ends of a command -/

theorem Logged.sendCsw (h : Logged own s) : Sound own s.sendCsw where
  logged := h
  phase := .inl ⟨nofun, nofun, nofun⟩

theorem Logged.sendCsw_clear (h : Logged own s) :
    Sound own { s.sendCsw with phaseError := false } where
  logged := h
  phase := .inl ⟨nofun, nofun, nofun⟩

theorem abort_log (s : MscDev) : s.abort.log = s.log := by
  simp only [MscDev.abort]
  split <;> split <;> rfl

theorem abort_botState (s : MscDev) : s.abort.botState = s.botState := by
  simp only [MscDev.abort]
  split <;> split <;> rfl

theorem abort_inFlight (s : MscDev) : s.abort.inFlight = 0 := by
  simp only [MscDev.abort]
  split <;> split <;> rfl

theorem abort_bulkOut (hout : s.bulkOut = none) (len : Nat) :
    s.abort.bulkOut ≠ some (.data, len) := by
  simp only [MscDev.abort, MscDev.bulkReceive]
  split <;> split <;> simp [hout]

theorem Failed.abort (h : Failed own s) : Sound own s.abort where
  logged := h.logged.of_log (abort_log s)
  phase := .inl {
    dataOut := by simpa [abort_botState] using h.state
    dataIn := fun _ => abort_inFlight s
    out := abort_bulkOut h.out }

theorem Failed.refuse (h : Failed own s) : Sound own s.refuse := by
  unfold MscDev.refuse
  split
  · exact h.logged.sendCsw_clear
  · split
    · exact h.logged.sendCsw
    · exact h.abort

/-! ### Pieces -/

theorem Reading.trim (h : Reading own s) : Reading own s.trimRead.1 ∧ s.trimRead.1.log = s.log ∧
      min s.trimRead.2 USBD_MSC_BUFLEN >>> USBD_MSC_BLK_BITS ≤ s.trimRead.1.blklen ∧
      (own → min s.trimRead.2 USBD_MSC_BUFLEN % USBD_MSC_BLK_SIZE = 0) := by
  obtain ⟨phaseError, blklen, htrim, hle, hcount, hwhole⟩ := s.trimRead_spec
  rw [htrim]
  refine ⟨?_, rfl, hcount, fun hown => hwhole (h.cbw ▸ h.whole hown)⟩
  exact { h with
    blocks := { h.blocks with last := (Nat.add_le_add_left hle _).trans h.blocks.last } }

theorem Reading.sent (h : Reading own s) (hlen : len % USBD_MSC_BLK_SIZE = 0)
    (hcount : len >>> USBD_MSC_BLK_BITS ≤ s.blklen)
    (hdisk : disk = s.disk.window (s.lba * USBD_MSC_BLK_SIZE)
      (len >>> USBD_MSC_BLK_BITS * USBD_MSC_BLK_SIZE)) (hown : own) :
    OwnData (.sent ((s.data.store 0 disk).window 0 len),
      { s.moment with filled := disk }) := by
  have hoffset := h.offset hown
  have hfirst := h.blocks.first
  have hlast := h.blocks.last
  have hbytes : disk.length = len := by simp [hdisk, blocks_mul hlen]
  have hwindow : (s.data.store 0 disk).window 0 len = disk := by
    rw [Memory.window_store _ _ _ hbytes.ge, ← hbytes, take_length]
  have hplace : s.command.firstBlock * USBD_MSC_BLK_SIZE + s.sentBytes =
      s.lba * USBD_MSC_BLK_SIZE := by
    rw [hoffset, ← Nat.add_mul, Nat.add_sub_cancel' hfirst]
  have hend : s.sentBytes + len ≤ s.command.blockCount * USBD_MSC_BLK_SIZE := by
    rw [hoffset, ← blocks_mul hlen, ← Nat.add_mul]
    exact Nat.mul_le_mul_right _ (by omega)
  rw [hwindow]
  show (if s.command.IsRead then _ else _)
  rw [if_pos h.cmd]
  refine ⟨?_, ?_⟩
  · show disk = s.disk.window (s.command.firstBlock * USBD_MSC_BLK_SIZE + s.sentBytes) disk.length
    rw [hplace, hbytes, hdisk, blocks_mul hlen]
  · show s.sentBytes + disk.length ≤ s.command.blockCount * USBD_MSC_BLK_SIZE
    rw [hbytes]
    exact hend

theorem Reading.advance (h : Reading own s) (hlen : own → len % USBD_MSC_BLK_SIZE = 0)
    (hcount : len >>> USBD_MSC_BLK_BITS ≤ s.blklen) (event : MscEvent) (bytes : List UInt8) :
    Reading own
      ((((s.record event).fill bytes).bulkTransmit len).advance (len >>> USBD_MSC_BLK_BITS)) where
  state := h.state
  cbw := h.cbw
  cmd := h.cmd
  out := h.out
  blocks := { h.blocks.advance hcount with }
  offset := fun hown => by
    have hlba := h.blocks.lba_advance hcount
    show s.sentBytes + len =
      ((s.advance (len >>> USBD_MSC_BLK_BITS)).lba - s.command.firstBlock) * USBD_MSC_BLK_SIZE
    rw [hlba, h.offset hown, Nat.sub_add_comm h.blocks.first, Nat.add_mul, blocks_mul (hlen hown)]
  whole := h.whole

theorem Reading.processRead (h : Reading own s) (hlog : Logged own s) (io : DiskIo) :
    Outcome (Failed own) (fun e => Sound own e ∧ (e.botState = .dataIn ∨ e.botState = .lastDataIn))
      (s.processRead io) := by
  obtain ⟨hread, htlog, hcount, hwhole⟩ := h.trim
  have hlog := hlog.of_log htlog
  simp only [MscDev.processRead]
  generalize s.trimRead.1 = t at hread hlog hcount
  generalize min s.trimRead.2 USBD_MSC_BUFLEN = len at hcount hwhole
  have hcall := hlog.record (.diskRead t.lba (len >>> USBD_MSC_BLK_BITS))
    (hread.blocks.names hcount) fun _ => trivial
  simp only [MscDev.diskRead]
  cases hfails : io.fails with
  | true =>
    have hstate : t.botState ≠ .dataOut := by simp [hread.state]
    exact ⟨hcall, hstate, hread.out⟩
  | false =>
    simp only [Bool.false_eq_true, if_false]
    set piece := (t.record (.diskRead t.lba (len >>> USBD_MSC_BLK_BITS))).fill _ with hpiece
    have hsent : Logged own (piece.bulkTransmit len) :=
      Logged.record (s := piece) hcall (.sent _) trivial fun hown =>
        hread.sent (hwhole hown) hcount rfl hown
    have hnext := hread.advance hwhole hcount (.diskRead t.lba (len >>> USBD_MSC_BLK_BITS))
      piece.filled
    split
    · exact ⟨⟨hsent, .inl ⟨nofun, nofun, bulkOut_ne_data hnext.out⟩⟩, .inr rfl⟩
    · exact ⟨⟨hsent, .inr (.inl hnext)⟩, .inl hnext.state⟩

theorem Holding.stored (h : Holding own s) (hown : own) :
    OwnData (.diskWrite s.lba (s.writeLength >>> USBD_MSC_BLK_BITS)
      (s.data.window 0 (s.writeLength >>> USBD_MSC_BLK_BITS * USBD_MSC_BLK_SIZE)), s.moment) := by
  rw [OwnData, blocks_mul s.writeLength_mod]
  refine ⟨h.cmd, h.blocks.first, Memory.length_window _ _ _, ?_⟩
  show s.data.window 0 s.writeLength =
    (s.received.drop ((s.lba - s.command.firstBlock) * USBD_MSC_BLK_SIZE)).take s.writeLength
  rw [h.piece hown]
  simp [h.offset hown]

theorem Holding.next (h : Holding own s) (hcount : s.writeLength >>> USBD_MSC_BLK_BITS ≤ s.blklen)
    (event : MscEvent) (disk : Memory) :
    let e := MscDev.advance (s.writeLength >>> USBD_MSC_BLK_BITS)
      { s.record event with disk := disk }
    Writing own (e.bulkReceive .data e.writeLength) where
  state := h.state
  cbw := h.cbw
  cmd := h.cmd
  out := .inr rfl
  blocks := { h.blocks.advance hcount with }
  offset := fun hown => by
    have hlba := h.blocks.lba_advance hcount
    show s.received.length =
      ((s.advance (s.writeLength >>> USBD_MSC_BLK_BITS)).lba - s.command.firstBlock) *
        USBD_MSC_BLK_SIZE
    rw [hlba, h.offset hown, Nat.sub_add_comm h.blocks.first, Nat.add_mul,
      blocks_mul s.writeLength_mod]

theorem Holding.processWrite (h : Holding own s) (hlog : Logged own s) (io : DiskIo) :
    Outcome (Logged own) (Sound own) (s.processWrite io) := by
  have hcount : s.writeLength >>> USBD_MSC_BLK_BITS ≤ s.blklen :=
    MscDev.pieceCount_le (min_le_left _ _)
  have hcall := hlog.record (.diskWrite s.lba (s.writeLength >>> USBD_MSC_BLK_BITS) _)
    (h.blocks.names hcount) h.stored
  simp only [MscDev.processWrite, MscDev.diskWrite]
  cases hfails : io.fails with
  | true => exact hcall
  | false =>
    simp only [Bool.false_eq_true, if_false]
    split
    · exact Logged.sendCsw hcall
    · exact ⟨hcall, .inr (.inr (h.next hcount _ _))⟩

/-! ### New commands -/

structure Begun (s : MscDev) : Prop where
  state : s.botState = .idle
  cbw : s.cbw = s.command
  out : s.bulkOut = none
  sent : s.sentBytes = 0
  received : s.received = []

theorem Begun.failed (h : Begun s) (hlog : Logged own s) : Failed own s :=
  ⟨hlog, by simp [h.state], h.out⟩

theorem blockCount_setBlocks (hcmd : s.cbw.scsiCmd = some cmd)
    (hblocks : cmd = .read10 ∨ cmd = .read12 ∨ cmd = .write10 ∨ cmd = .write12) :
    (s.setBlocks cmd).blklen = s.cbw.blockCount := by
  simp only [Cbw.blockCount, hcmd]
  rcases hblocks with rfl | rfl | rfl | rfl <;> rfl

theorem Begun.blocks (h : Begun s) (hcmd : s.cbw.scsiCmd = some cmd)
    (hblocks : cmd = .read10 ∨ cmd = .read12 ∨ cmd = .write10 ∨ cmd = .write12)
    (hfits : s.cbw.firstBlock + s.cbw.blockCount < 2 ^ 32)
    (hrange : ¬ ((s.setBlocks cmd).lba + (s.setBlocks cmd).blklen) % 2 ^ 32 >
      (s.setBlocks cmd).numSectors) : Blocks (s.setBlocks cmd) := by
  have hcount := blockCount_setBlocks hcmd hblocks
  have hfirst : (s.setBlocks cmd).lba = s.cbw.firstBlock := rfl
  rw [hcount, hfirst, Nat.mod_eq_of_lt hfits, not_lt] at hrange
  have hcommand : (s.setBlocks cmd).command = s.cbw := h.cbw.symm
  constructor
  · rw [hcommand, hfirst]
  · rw [hcommand, hfirst, hcount]
  · rw [hcommand]
    exact hrange
  · rw [hcommand]
    exact hfits

theorem Begun.reading (h : Begun s) (hblocks : Blocks (s.setBlocks cmd)) (hread : s.cbw.IsRead)
    (hwhole : own → USBD_MSC_BUFLEN ≤ s.cbw.dCBWDataTransferLength ∨
      s.cbw.dCBWDataTransferLength % USBD_MSC_BLK_SIZE = 0) :
    Reading own { s.setBlocks cmd with botState := .dataIn, dataLength := USBD_MSC_BUFLEN } := by
  rw [h.cbw] at hread hwhole
  refine ⟨rfl, h.cbw, hread, h.out, { hblocks with }, fun _ => ?_, hwhole⟩
  have hfirst : (s.setBlocks cmd).lba = s.command.firstBlock := by
    rw [← h.cbw]
    rfl
  show s.sentBytes = ((s.setBlocks cmd).lba - s.command.firstBlock) * USBD_MSC_BLK_SIZE
  simp [h.sent, hfirst]

theorem Begun.writing (h : Begun s) (hblocks : Blocks (s.setBlocks cmd)) (hwrite : s.cbw.IsWrite) :
    Writing own (MscDev.bulkReceive .data (s.setBlocks cmd).writeLength
      { s.setBlocks cmd with botState := .dataOut }) := by
  rw [h.cbw] at hwrite
  refine ⟨rfl, h.cbw, hwrite, .inr rfl, { hblocks with }, fun _ => ?_⟩
  have hfirst : (s.setBlocks cmd).lba = s.command.firstBlock := by
    rw [← h.cbw]
    rfl
  show s.received.length = ((s.setBlocks cmd).lba - s.command.firstBlock) * USBD_MSC_BLK_SIZE
  simp [h.received, hfirst]

theorem Begun.scsiRead (h : Begun s) (hlog : Logged own s) (hcmd : s.cbw.scsiCmd = some cmd)
    (hread : cmd = .read10 ∨ cmd = .read12) (hfits : s.cbw.firstBlock + s.cbw.blockCount < 2 ^ 32)
    (hwhole : own → USBD_MSC_BUFLEN ≤ s.cbw.dCBWDataTransferLength ∨
      s.cbw.dCBWDataTransferLength % USBD_MSC_BLK_SIZE = 0) (io : DiskIo) :
    Outcome (Failed own) (fun e => Sound own e ∧ (e.botState = .dataIn ∨ e.botState = .lastDataIn))
      (s.scsiRead io cmd) := by
  have hfailed := h.failed hlog
  have hcommand : s.cbw.IsRead := by rcases hread with rfl | rfl <;> simp [Cbw.IsRead, hcmd]
  simp only [MscDev.scsiRead, if_pos h.state]
  split
  · exact { hfailed with }
  split
  · exact { hfailed with }
  split
  · exact { hfailed with }
  by_cases hrange : ((s.setBlocks cmd).lba + (s.setBlocks cmd).blklen) % 2 ^ 32 >
      (s.setBlocks cmd).numSectors
  · rw [MscDev.checkAddressRange, if_pos hrange]
    exact { hfailed with }
  rw [MscDev.checkAddressRange, if_neg hrange]
  have hblocks := h.blocks hcmd (hread.imp_right .inl) hfits hrange
  dsimp only
  split
  · exact { hfailed with }
  · have hlog' : Logged own { s.setBlocks cmd with
        botState := .dataIn, dataLength := USBD_MSC_BUFLEN } := hlog
    exact (h.reading hblocks hcommand hwhole).processRead hlog' io

theorem Begun.scsiWrite (h : Begun s) (hlog : Logged own s) (hcmd : s.cbw.scsiCmd = some cmd)
    (hwrite : cmd = .write10 ∨ cmd = .write12)
    (hfits : s.cbw.firstBlock + s.cbw.blockCount < 2 ^ 32) (io : DiskIo) :
    Outcome (Failed own) (fun e => Sound own e ∧ e.botState = .dataOut) (s.scsiWrite io cmd) := by
  have hfailed := h.failed hlog
  have hcommand : s.cbw.IsWrite := by rcases hwrite with rfl | rfl <;> simp [Cbw.IsWrite, hcmd]
  simp only [MscDev.scsiWrite, if_pos h.state]
  split
  · exact { hfailed with }
  split
  · exact { hfailed with }
  split
  · exact { hfailed with }
  split
  · exact { hfailed with }
  by_cases hrange : ((s.setBlocks cmd).lba + (s.setBlocks cmd).blklen) % 2 ^ 32 >
      (s.setBlocks cmd).numSectors
  · rw [MscDev.checkAddressRange, if_pos hrange]
    exact { hfailed with }
  rw [MscDev.checkAddressRange, if_neg hrange]
  have hblocks := h.blocks hcmd (.inr (.inr hwrite)) hfits hrange
  dsimp only
  split
  · exact { hfailed with }
  · exact ⟨⟨hlog, .inr (.inr (h.writing hblocks hcommand))⟩, rfl⟩

structure Ready (s e : MscDev) : Prop where
  log : e.log = s.log
  command : e.command = s.command
  out : e.bulkOut = s.bulkOut
  state : e.botState = s.botState
  reply : e.data.window 0 e.dataLength <+: e.filled

structure Refused (s e : MscDev) : Prop where
  log : e.log = s.log
  out : e.bulkOut = s.bulkOut
  state : e.botState = s.botState ∨ e.botState = .noData

theorem ready_fill {s t : MscDev} (hlen : len ≤ bytes.length) (hlog : t.log = s.log)
    (hcommand : t.command = s.command) (hout : t.bulkOut = s.bulkOut)
    (hstate : t.botState = s.botState) : Ready s { t.fill bytes with dataLength := len } := by
  refine ⟨hlog, hcommand, hout, hstate, ?_⟩
  show (t.data.store 0 bytes).window 0 len <+: bytes
  rw [Memory.window_store _ _ _ hlen]
  exact take_prefix _ _

theorem ready_nil : Ready s { s with dataLength := 0 } :=
  ⟨rfl, rfl, rfl, rfl, nil_prefix⟩

theorem testUnitReady_outcome : Outcome (Refused s) (Ready s) s.testUnitReady := by
  unfold MscDev.testUnitReady
  split
  · exact ⟨rfl, rfl, .inl rfl⟩
  split
  · exact ⟨rfl, rfl, .inr rfl⟩
  · exact ready_nil

theorem inquiry_outcome : Outcome (Refused s) (Ready s) s.inquiry := by
  simp only [MscDev.inquiry]
  split
  · have hlen : PAGE00_INQUIRY_DATA_LEN ≤ page0InquiryData.length := by decide
    exact ready_fill hlen rfl rfl rfl rfl
  have hlen : min (s.cbw.CBWCB 4).toNat INQUIRY_DATA_LEN ≤
      (standardInquiryData.take (min (s.cbw.CBWCB 4).toNat INQUIRY_DATA_LEN)).length := by
    have hdata : standardInquiryData.length = INQUIRY_DATA_LEN := by decide
    simp [hdata]
  exact ready_fill hlen rfl rfl rfl rfl

theorem length_lastBlock : (lastBlock numSectors).length = 4 := by
  rw [lastBlock, length_reverse, length_toLE]

theorem readCapacity10_outcome : Outcome (Refused s) (Ready s) (s.readCapacity10 io) := by
  unfold MscDev.readCapacity10
  cases io.capacity with
  | none => exact ⟨rfl, rfl, .inl rfl⟩
  | some sectors =>
    have hlen : READ_CAPACITY10_DATA_LEN ≤ (capacityData sectors.toNat).length := by
      rw [capacityData, length_append, length_lastBlock]
      decide
    exact ready_fill hlen rfl rfl rfl rfl

theorem readFormatCapacity_outcome : Outcome (Refused s) (Ready s) (s.readFormatCapacity io) := by
  unfold MscDev.readFormatCapacity
  cases io.capacity with
  | none => exact ⟨rfl, rfl, .inl rfl⟩
  | some sectors =>
    have hlen : READ_FORMAT_CAPACITY_DATA_LEN ≤ (formatCapacityData sectors.toNat).length := by
      simp [READ_FORMAT_CAPACITY_DATA_LEN, formatCapacityData, length_lastBlock]
    exact ready_fill hlen rfl rfl rfl rfl

theorem requestSense_outcome : Outcome (Refused s) (Ready s) s.requestSense := by
  have hlen (entry : Option SenseData) : min (s.cbw.CBWCB 4).toNat REQUEST_SENSE_DATA_LEN ≤
      (requestSenseData entry).length := min_le_right _ _
  simp only [MscDev.requestSense]
  split
  · have hready := ready_fill (hlen s.senseData[s.senseHead]?) (s := s) (t := s) rfl rfl rfl rfl
    exact { hready with }
  · exact ready_fill (hlen none) rfl rfl rfl rfl

theorem startStopUnit_outcome : Outcome (Refused s) (Ready s) s.startStopUnit := by
  simp only [MscDev.startStopUnit]
  split
  · split
    · exact ⟨rfl, rfl, .inl rfl⟩
    · exact ready_nil
  · split
    · exact ready_nil
    · exact { ready_nil with }

theorem verify10_outcome : Outcome (Refused s) (Ready s) s.verify10 := by
  unfold MscDev.verify10
  split
  · exact ⟨rfl, rfl, .inl rfl⟩
  unfold MscDev.checkAddressRange
  split
  next e herr =>
    split at herr
    · cases herr
      exact ⟨rfl, rfl, .inl rfl⟩
    · cases herr
  next e hok =>
    split at hok
    · cases hok
    · cases hok
      exact ready_nil

/-- Every command other than READ and WRITE leaves the disk alone and answers with what it has
    put in the buffer. -/
theorem processCmd_outcome (hread : ¬ s.cbw.IsRead) (hwrite : ¬ s.cbw.IsWrite) :
    Outcome (Refused s) (Ready s) (s.processCmd io) := by
  unfold MscDev.processCmd
  cases hcmd : s.cbw.scsiCmd with
  | none => exact ⟨rfl, rfl, .inl rfl⟩
  | some cmd =>
    cases cmd with
    | testUnitReady => exact testUnitReady_outcome
    | requestSense => exact requestSense_outcome
    | inquiry => exact inquiry_outcome
    | startStopUnit => exact startStopUnit_outcome
    | modeSense6 =>
      have hlen : MODE_SENSE6_DATA_LEN ≤ modeSense6Data.length := by decide
      exact ready_fill hlen rfl rfl rfl rfl
    | modeSense10 =>
      have hlen : MODE_SENSE10_DATA_LEN ≤ modeSense10Data.length := by decide
      exact ready_fill hlen rfl rfl rfl rfl
    | readFormatCapacities => exact readFormatCapacity_outcome
    | readCapacity10 => exact readCapacity10_outcome
    | read10 => exact absurd (.inl hcmd) hread
    | read12 => exact absurd (.inr hcmd) hread
    | write10 => exact absurd (.inl hcmd) hwrite
    | write12 => exact absurd (.inr hcmd) hwrite
    | allowMediumRemoval | modeSelect6 | modeSelect10 => exact ready_nil
    | verify10 => exact verify10_outcome

/-! ### Steps of the device -/

theorem Ready.answer (h : Ready s e) (hlog : Logged own s) (hbegun : Begun s)
    (hread : ¬ s.command.IsRead) : Sound own e.answer := by
  have hstate : e.botState = .idle := h.state.trans hbegun.state
  have hout : e.bulkOut = none := h.out.trans hbegun.out
  have hlog : Logged own e := hlog.of_log h.log
  simp only [MscDev.answer, hstate]
  rw [if_neg (by simp)]
  split
  · refine ⟨?_, .inl ⟨nofun, nofun, bulkOut_ne_data hout⟩⟩
    refine Logged.record (s := { e with botState := .sendData }) hlog (.sent _) trivial fun _ => ?_
    show (if e.command.IsRead then _ else _)
    rw [h.command, if_neg hread]
    have hle : min e.cbw.dCBWDataTransferLength e.dataLength % 2 ^ 16 ≤ e.dataLength :=
      (Nat.mod_le _ _).trans (min_le_right _ _)
    exact (e.data.window_prefix_of_le 0 hle).trans h.reply
  · exact hlog.sendCsw

theorem Refused.failed (h : Refused s e) (hlog : Logged own s) (hbegun : Begun s) :
    Failed own e where
  logged := hlog.of_log h.log
  state := by rcases h.state with hstate | hstate <;> simp [hstate, hbegun.state]
  out := h.out.trans hbegun.out

theorem Sound.answer (h : Sound own s)
    (hstate : s.botState = .dataIn ∨ s.botState = .dataOut ∨ s.botState = .lastDataIn) :
    Sound own s.answer := by
  rw [MscDev.answer, if_pos hstate]
  exact h

theorem Begun.processCmd (h : Begun s) (hlog : Logged own s)
    (hfits : s.cbw.firstBlock + s.cbw.blockCount < 2 ^ 32)
    (hwhole : own → s.cbw.IsRead → USBD_MSC_BUFLEN ≤ s.cbw.dCBWDataTransferLength ∨
      s.cbw.dCBWDataTransferLength % USBD_MSC_BLK_SIZE = 0) (io : DiskIo) :
    Outcome (Failed own) (fun e => Sound own e.answer) (s.processCmd io) := by
  by_cases hread : s.cbw.IsRead
  · have hout : Outcome (Failed own)
        (fun e => Sound own e ∧ (e.botState = .dataIn ∨ e.botState = .lastDataIn))
        (s.processCmd io) := by
      have hwhole' := fun hown => hwhole hown hread
      rcases hread with hcmd | hcmd <;> simp only [MscDev.processCmd, hcmd]
      · exact h.scsiRead hlog hcmd (.inl rfl) hfits hwhole' io
      · exact h.scsiRead hlog hcmd (.inr rfl) hfits hwhole' io
    exact hout.imp (fun _ he => he) fun e he => he.1.answer (he.2.imp_right .inr)
  by_cases hwrite : s.cbw.IsWrite
  · have hout : Outcome (Failed own) (fun e => Sound own e ∧ e.botState = .dataOut)
        (s.processCmd io) := by
      rcases hwrite with hcmd | hcmd <;> simp only [MscDev.processCmd, hcmd]
      · exact h.scsiWrite hlog hcmd (.inl rfl) hfits io
      · exact h.scsiWrite hlog hcmd (.inr rfl) hfits io
    exact hout.imp (fun _ he => he) fun e he => he.1.answer (.inr (.inl he.2))
  · exact (processCmd_outcome hread hwrite).imp (fun e he => he.failed hlog h)
      fun e he => he.answer hlog h (h.cbw ▸ hread)

theorem Reading.processCmd (h : Reading own s) (hlog : Logged own s) (io : DiskIo) :
    Outcome (Failed own) (Sound own) (s.processCmd io) := by
  have hidle : s.botState ≠ .idle := by simp [h.state]
  have hread : Reading own { s with dataLength := USBD_MSC_BUFLEN } :=
    { h with blocks := { h.blocks with } }
  have hpiece := hread.processRead hlog io
  have hcmd : s.processCmd io = MscDev.processRead io { s with dataLength := USBD_MSC_BUFLEN } := by
    rcases h.cbw ▸ h.cmd with hcmd | hcmd <;>
      simp only [MscDev.processCmd, hcmd, MscDev.scsiRead, if_neg hidle]
  rw [hcmd]
  exact hpiece.imp (fun _ he => he) fun _ he => he.1

theorem Holding.processCmd (h : Holding own s) (hlog : Logged own s) (io : DiskIo) :
    Outcome (Logged own) (Sound own) (s.processCmd io) := by
  have hidle : s.botState ≠ .idle := by simp [h.state]
  have hcmd : s.processCmd io = s.processWrite io := by
    rcases h.cbw ▸ h.cmd with hcmd | hcmd <;>
      simp only [MscDev.processCmd, hcmd, MscDev.scsiWrite, if_neg hidle]
  rw [hcmd]
  exact h.processWrite hlog io

theorem sound_proceed (h : Outcome (Logged own) (Sound own) (s.processCmd io)) :
    Sound own (s.proceed io) := by
  unfold MscDev.proceed
  revert h
  cases s.processCmd io with
  | error e => exact Logged.sendCsw
  | ok e => exact id

theorem Settled.out_cbw (h : Settled s) (hlog : Logged own s)
    (hfits : Cbw.firstBlock (s.cbw.store 0 bytes) + Cbw.blockCount (s.cbw.store 0 bytes) < 2 ^ 32)
    (hwhole : own → Cbw.IsRead (s.cbw.store 0 bytes) →
      USBD_MSC_BUFLEN ≤ Cbw.dCBWDataTransferLength (s.cbw.store 0 bytes) ∨
        Cbw.dCBWDataTransferLength (s.cbw.store 0 bytes) % USBD_MSC_BLK_SIZE = 0) :
    Sound own ((s.handleEpDataOut .cbw bytes).rxProcess io) := by
  set e := s.handleEpDataOut .cbw bytes
  have hout : e.bulkOut = none := rfl
  have hrest : Sound own e := ⟨hlog, .inl ⟨h.dataOut, h.dataIn, bulkOut_ne_data hout⟩⟩
  unfold MscDev.rxProcess
  cases hstate : e.botState with
  | idle =>
    simp only
    split
    · have hbegun : Begun e.begin := ⟨hstate, rfl, hout, rfl, rfl⟩
      have hcmd : Outcome (Failed own) (fun e => Sound own e.answer) (e.begin.processCmd io) :=
        hbegun.processCmd hlog hfits hwhole io
      revert hcmd
      cases e.begin.processCmd io with
      | error e' => exact Failed.refuse
      | ok e' => exact id
    · have hne : e.botState ≠ .dataOut := h.dataOut
      exact Failed.abort ⟨hlog, hne, hout⟩
  | dataOut => exact absurd hstate h.dataOut
  | dataIn | lastDataIn | sendData | noData => exact hrest

variable {packet : List UInt8}

theorem Writing.holding (h : Writing own s) (hlen : own → s.writeLength ≤ packet.length) :
    Holding own (s.handleEpDataOut .data (packet.take s.writeLength)) where
  state := h.state
  cbw := h.cbw
  cmd := h.cmd
  blocks := { h.blocks with }
  offset := fun hown => by
    show (s.received ++ packet.take s.writeLength).length =
      (s.lba - s.command.firstBlock) * USBD_MSC_BLK_SIZE + s.writeLength
    rw [length_append, h.offset hown, length_take, min_eq_left (hlen hown)]
  piece := fun hown => by
    have htake : s.writeLength ≤ (packet.take s.writeLength).length := by
      simp [min_eq_left (hlen hown)]
    show (s.data.store 0 (packet.take s.writeLength)).window 0 s.writeLength =
      (s.received ++ packet.take s.writeLength).drop
        ((s.lba - s.command.firstBlock) * USBD_MSC_BLK_SIZE)
    rw [Memory.window_store _ _ _ htake, take_take, Nat.min_self, ← h.offset hown, drop_left]

theorem Writing.out_data (h : Writing own s) (hlog : Logged own s)
    (hlen : own → s.writeLength ≤ packet.length) :
    Sound own ((s.handleEpDataOut .data (packet.take s.writeLength)).rxProcess io) := by
  have hhold := h.holding hlen
  simp only [MscDev.rxProcess, hhold.state]
  exact sound_proceed (hhold.processCmd hlog io)

theorem Sound.drop (h : Sound own s) (botStatus : BotStatus) (hin : inFlight ≤ s.inFlight)
    (hout : bulkOut = s.bulkOut ∨ bulkOut = none) :
    Sound own { s with inFlight := inFlight, bulkOut := bulkOut, botStatus := botStatus } := by
  refine ⟨h.logged, ?_⟩
  rcases h.phase with hphase | hphase | hphase
  · refine .inl ⟨hphase.dataOut, fun hstate => ?_, fun len => ?_⟩
    · exact Nat.le_zero.mp (hin.trans_eq (hphase.dataIn hstate))
    · rcases hout with rfl | rfl
      · exact hphase.out len
      · exact nofun
  · refine .inr (.inl { hphase with out := ?_, blocks := { hphase.blocks with } })
    rcases hout with rfl | rfl
    · exact hphase.out
    · rfl
  · refine .inr (.inr { hphase with out := ?_, blocks := { hphase.blocks with } })
    rcases hout with rfl | rfl
    · exact hphase.out
    · exact .inl rfl

theorem Sound.txDone (h : Sound own s) (hin : s.inFlight ≠ 0) (ok : Bool) (io : DiskIo) :
    Sound own (MscDev.txProcess ok io { s with inFlight := s.inFlight - 1 }) := by
  have hrest : Sound own { s with inFlight := s.inFlight - 1 } :=
    h.drop s.botStatus (Nat.sub_le _ _) (.inl rfl)
  unfold MscDev.txProcess
  split
  · split
    next hstate =>
      rcases h.phase with hphase | hphase | hphase
      · exact absurd (hphase.dataIn hstate) hin
      · have hread : Reading own { s with inFlight := s.inFlight - 1 } :=
          { hphase with blocks := { hphase.blocks with } }
        exact sound_proceed
          ((hread.processCmd h.logged io).imp (fun _ he => he.logged) fun _ he => he)
      · have hstate : s.botState = .dataIn := hstate
        simp [hphase.state] at hstate
    next =>
      split
      · exact Logged.sendCsw_clear h.logged
      · exact Logged.sendCsw h.logged
    next =>
      split
      · exact Logged.sendCsw_clear h.logged
      · exact Logged.sendCsw h.logged
    next => exact hrest
  · exact hrest

theorem Sound.clearFeature (h : Sound own s) (dirIn : Bool) : Sound own (s.clearFeature dirIn) := by
  unfold MscDev.clearFeature
  cases dirIn with
  | true =>
    simp only [if_true]
    split
    · exact h.drop .normal (Nat.zero_le _) (.inl rfl)
    · split
      · exact Logged.sendCsw h.logged
      · exact h.drop s.botStatus (Nat.zero_le _) (.inl rfl)
  | false =>
    simp only [Bool.false_eq_true, if_false]
    split
    · exact h.drop .normal (Nat.zero_le _) (.inr rfl)
    · exact h.drop s.botStatus le_rfl (.inr rfl)

/-! ### Runs -/

def arriving (s : MscDev) : MscAction → Option Cbw
  | .out packet _ =>
    match s.bulkOut with
    | some (.cbw, len) => some (s.cbw.store 0 (packet.take len))
    | _ => none
  | _ => none

def pieceLengths (s : MscDev) : MscAction → Option (Nat × Nat)
  | .out packet _ =>
    match s.bulkOut with
    | some (.data, len) => some (len, packet.length)
    | _ => none
  | _ => none

/-- The block range of a command block that arrives does not wrap. -/
def RangeCond (s : MscDev) (a : MscAction) : Prop :=
  ∀ cbw ∈ arriving s a, cbw.firstBlock + cbw.blockCount < 2 ^ 32
deriving Decidable

/-- A READ asks for whole blocks or at least a full buffer, and a packet for the data buffer has the
    length asked for. -/
def DataCond (s : MscDev) (a : MscAction) : Prop :=
  (∀ cbw ∈ arriving s a, cbw.IsRead → USBD_MSC_BUFLEN ≤ cbw.dCBWDataTransferLength ∨
      cbw.dCBWDataTransferLength % USBD_MSC_BLK_SIZE = 0) ∧
    ∀ lengths ∈ pieceLengths s a, lengths.1 ≤ lengths.2
deriving Decidable

theorem Sound.out (h : Sound own s) (hrange : RangeCond s (.out packet io))
    (hdata : own → DataCond s (.out packet io)) : Sound own (mscStep s (.out packet io)) := by
  simp only [mscStep]
  cases hout : s.bulkOut with
  | none => exact h
  | some armed =>
    obtain ⟨target, len⟩ := armed
    rcases h.phase with hphase | hphase | hphase
    · cases target with
      | cbw =>
        have harrives : s.cbw.store 0 (packet.take len) ∈ arriving s (.out packet io) := by
          simp [arriving, hout]
        exact hphase.out_cbw h.logged (hrange _ harrives) (fun hown => (hdata hown).1 _ harrives)
      | data => exact absurd hout (hphase.out len)
    · simp [hphase.out] at hout
    · rcases hphase.out with harmed | harmed
      · simp [harmed] at hout
      have hpiece : (s.writeLength, packet.length) ∈ pieceLengths s (.out packet io) := by
        simp [pieceLengths, harmed]
      rw [hout] at harmed
      obtain ⟨rfl, rfl⟩ : target = .data ∧ len = s.writeLength := by simpa using harmed
      exact hphase.out_data h.logged (fun hown => (hdata hown).2 _ hpiece)

/-- Under the conditions every action logs a sound call. -/
theorem Sound.step (h : Sound own s) (hrange : RangeCond s a) (hdata : own → DataCond s a) :
    Sound own (mscStep s a) := by
  cases a with
  | out packet io => exact h.out hrange hdata
  | txDone ok io =>
    simp only [mscStep]
    split
    · exact h
    next hin => exact h.txDone hin ok io
  | botReset => exact ⟨h.logged, .inl ⟨nofun, nofun, nofun⟩⟩
  | clearFeature dirIn => exact h.clearFeature dirIn
  | setConfig => exact ⟨h.logged, .inl ⟨nofun, nofun, nofun⟩⟩
  | clearConfig => exact ⟨h.logged, .inl ⟨nofun, nofun, nofun⟩⟩

theorem sound_init : Sound own (MscDev.init cbw data disk) :=
  ⟨nofun, .inl ⟨nofun, nofun, nofun⟩⟩

/-- In every run whose block ranges do not wrap, every call of the disk names sectors of the disk in
    the range of its command. -/
theorem disk_calls_in_range {cbw : Cbw} {data disk : Memory} {actions : List MscAction}
    (h : Along mscStep RangeCond (MscDev.init cbw data disk) actions) :
    Throughout mscStep (fun s => ∀ e ∈ s.log, InRange e) (MscDev.init cbw data disk) actions := by
  have hsound : Throughout mscStep (Sound False) (MscDev.init cbw data disk) actions :=
    h.throughout (fun s a hs ha => hs.step ha False.elim) (sound_init)
  exact hsound.mono fun s hs e he => (hs.logged e he).1

/-- In every run that also meets `DataCond`, nothing is sent or stored but the data of the
    command. -/
theorem transfers_own_data {cbw : Cbw} {data disk : Memory} {actions : List MscAction}
    (h : Along mscStep (fun s a => RangeCond s a ∧ DataCond s a) (MscDev.init cbw data disk)
      actions) :
    Throughout mscStep (fun s => ∀ e ∈ s.log, OwnData e) (MscDev.init cbw data disk) actions := by
  have hsound : Throughout mscStep (Sound True) (MscDev.init cbw data disk) actions :=
    h.throughout (fun s a hs ha => hs.step ha.1 fun _ => ha.2) (sound_init)
  exact hsound.mono fun s hs e he => (hs.logged e he).2 trivial

/-! ### Runs of a host -/

instance : DecidablePred InRange
  | (.diskRead _ count, _) => inferInstanceAs (Decidable (∀ k < count, _))
  | (.diskWrite _ count _, _) => inferInstanceAs (Decidable (∀ k < count, _))
  | (.sent _, _) => isTrue trivial

instance : DecidablePred OwnData
  | (.sent _, m) => inferInstanceAs (Decidable (if m.command.IsRead then _ else _))
  | (.diskWrite _ _ _, _) => inferInstanceAs (Decidable (_ ∧ _))
  | (.diskRead _ _, _) => isTrue trivial

def cbwPacket (transferLength : Nat) (flags : UInt8) (block : List UInt8) : List UInt8 :=
  toLE 4 USB_MSC_CBW_SIGN ++ toLE 4 0 ++ toLE 4 transferLength ++
    [flags, 0, UInt8.ofNat block.length] ++ block ++ List.replicate (16 - block.length) 0

def zeros : Memory := fun _ => 0

/-- A disk of 1000 blocks that does not fail. -/
def goodDisk : DiskIo := ⟨false, some 1000⟩

def sendCbw (transferLength : Nat) (flags : UInt8) (block : List UInt8) : MscAction :=
  .out (cbwPacket transferLength flags block) goodDisk

/-- The host configures the device and asks for its capacity. -/
def capacityRun : List MscAction :=
  [.setConfig, sendCbw 8 0x80 [0x25, 0, 0, 0, 0, 0, 0, 0, 0, 0], .txDone true goodDisk,
    .txDone true goodDisk]

/-- The host then reads blocks 4 and 5. -/
def readRun : List MscAction :=
  capacityRun ++ [sendCbw 1024 0x80 [0x28, 0, 0, 0, 0, 4, 0, 0, 2, 0], .txDone true goodDisk]

theorem disk_calls_in_range_readRun :
    Throughout mscStep (fun s => ∀ e ∈ s.log, InRange e) (MscDev.init zeros zeros zeros) readRun :=
  disk_calls_in_range (by decide +kernel)

/-- A READ of two blocks from the last 32-bit block address on passes the range check. -/
theorem read_wraps_past_disk :
    ¬ ∀ e ∈ ((capacityRun ++
      [sendCbw 1024 0x80 [0x28, 0, 0xFF, 0xFF, 0xFF, 0xFF, 0, 0, 2, 0]]).foldl
      mscStep (MscDev.init zeros zeros zeros)).log, InRange e := by
  decide +kernel

/-- The host reads two blocks and then writes block 7. -/
def writeRun : List MscAction :=
  readRun ++ [.txDone true goodDisk, sendCbw 512 0x00 [0x2A, 0, 0, 0, 0, 7, 0, 0, 1, 0],
    .out (List.replicate 512 0xA5) goodDisk]

theorem transfers_own_data_writeRun :
    Throughout mscStep (fun s => ∀ e ∈ s.log, OwnData e) (MscDev.init zeros zeros zeros) writeRun :=
  transfers_own_data (by decide +kernel)

/-- The host asks for the capacity and then for the INQUIRY data, which stays in the buffer. -/
def inquiryRun : List MscAction :=
  capacityRun ++ [sendCbw 36 0x80 [0x12, 0, 0, 0, 36, 0], .txDone true goodDisk,
    .txDone true goodDisk]

/-- A READ of 36 bytes of a disk of zeros sends the INQUIRY data, and a WRITE whose data phase is
    empty stores it. -/
theorem inquiry_data_leaks :
    (¬ ∀ e ∈ ((inquiryRun ++ [sendCbw 36 0x80 [0x28, 0, 0, 0, 0, 4, 0, 0, 1, 0]]).foldl
      mscStep (MscDev.init zeros zeros zeros)).log, OwnData e) ∧
    ¬ ∀ e ∈ ((inquiryRun ++ [sendCbw 512 0x00 [0x2A, 0, 0, 0, 0, 4, 0, 0, 1, 0],
      .out [] goodDisk]).foldl mscStep (MscDev.init zeros zeros zeros)).log, OwnData e := by
  decide +kernel

end AmebaRtos.Usb
