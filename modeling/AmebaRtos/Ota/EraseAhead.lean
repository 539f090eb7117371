import AmebaRtos.Ota.Containment

/-!
# Erasing ahead of the data

`download_packet_process` erases at most one sector per call: the index of the sector comes from
the bytes that remain, and is compared with a counter of the erases so far. For chunks of at most
2048 bytes the two stay in step, so that every byte is written into a sector erased before it, and
no sector is erased once it holds data.

The rest of a chunk in which an image ends goes to `NextImgBuf`. Nothing looks at the bytes that
remain between the chunk from that buffer and the next packet: an image that ends inside the
buffer gets one more chunk, whose length to write is negative.
-/

namespace AmebaRtos.Ota

open Lib List

/-- Chunks fed to `download_packet_process` one after the other. -/
def feedChunks (board : Board) (s : OtaState) (chunks : List (List UInt8)) :
    Except OtaState OtaState :=
  chunks.foldlM (downloadPacketProcess board) s

/-- The chunks are written to erased sectors only, which are not erased again. A call that does not
    return was to write a negative `int` as an `u32` length. -/
def ChunksErasedOnce (board : Board) (s : OtaState) (chunks : List (List UInt8)) : Prop :=
  ∃ s' ops, feedChunks board s chunks = .ok s' ∧
    flashOps s'.trace = flashOps s.trace ++ ops ∧ ErasedOnce SECTOR ops

/-- A chunk behind `n` bytes of an image ends inside the manifest, or the image has a body (or is
    skipped) and has not ended before. -/
def ChunkFits (board : Board) (hdr : SubHdr) (n : Nat) (chunk : List UInt8) : Prop :=
  n + chunk.length ≤ MANIFEST_SIZE ∨
    n ≤ hdr.imgLen ∧ (SkippedBootloader board hdr ∨ MANIFEST_SIZE ≤ hdr.imgLen)
deriving Decidable

/-- Every chunk of a series behind the first `n` bytes fits. -/
def ChunksFit (board : Board) (hdr : SubHdr) : Nat → List (List UInt8) → Prop
  | _, [] => True
  | n, chunk :: rest =>
    ChunkFits board hdr n chunk ∧ ChunksFit board hdr (n + chunk.length) rest

instance ChunksFit.decidable (board : Board) (hdr : SubHdr) :
    (n : Nat) → (chunks : List (List UInt8)) → Decidable (ChunksFit board hdr n chunks)
  | _, [] => isTrue trivial
  | n, chunk :: rest =>
    have := ChunksFit.decidable board hdr (n + chunk.length) rest
    inferInstanceAs (Decidable (ChunkFits board hdr n chunk ∧ _))

/-! ### The sectors of an image -/

/-- The operations `ops` have prepared the image at `off` for `n` bytes. -/
structure Prepared (off n : Nat) (ops : List FlashOp) : Prop where
  once : ErasedOnce SECTOR ops
  erased : ∀ a, a < nextSector n * SECTOR → ∃ e, .erase e ∈ ops ∧ (off + a) / SECTOR = e / SECTOR
  written : ∀ addr bytes, .write addr bytes ∈ ops →
    MANIFEST_SIZE < n ∧ addr + bytes.length ≤ off + n

section Sectors

theorem prepared_nil (h : n ≤ MANIFEST_SIZE) : Prepared off n [] := by
  refine ⟨erasedOnce_nil, fun a ha => ?_, fun addr bytes hmem => ?_⟩
  · rw [nextSector_of_le h] at ha
    exact absurd ha (Nat.not_lt_zero a)
  · exact absurd hmem not_mem_nil

theorem Prepared.manifest (h : Prepared off n ops) (hle : n ≤ n') (hn' : n' ≤ MANIFEST_SIZE) :
    Prepared off n' ops := by
  refine ⟨h.once, fun a ha => ?_, fun addr bytes hmem => ?_⟩
  · rw [nextSector_of_le hn'] at ha
    exact absurd ha (Nat.not_lt_zero a)
  · have hbody := (h.written addr bytes hmem).1
    omega

theorem Prepared.free (h : Prepared off n ops) (haligned : off % SECTOR = 0)
    (hmem : .write addr bytes ∈ ops) (hhi : a < addr + bytes.length) :
    a / SECTOR ≠ (off + nextSector n * SECTOR) / SECTOR := by
  obtain ⟨hbody, hend⟩ := h.written addr bytes hmem
  rw [nextSector_of_lt hbody]
  simp only [SECTOR] at haligned ⊢
  omega

theorem Prepared.erase (h : Prepared off n ops) (haligned : off % SECTOR = 0) (hlt : n < n')
    (hstep : n' ≤ n + OTA_BUF_SIZE) (hbody : MANIFEST_SIZE < n') :
    ErasedOnce SECTOR (ops ++ fillErase off n n') ∧ ∀ a, a < nextSector n' * SECTOR →
        ∃ e, .erase e ∈ ops ++ fillErase off n n' ∧ (off + a) / SECTOR = e / SECTOR := by
  obtain ⟨hmin, hmax⟩ := nextSector_step hlt hstep
  unfold fillErase
  by_cases hdue : (n' + 23) / SECTOR ≥ nextSector n
  · have hsector : (n' + 23) / SECTOR = nextSector n := Nat.le_antisymm hmax hdue
    rw [if_pos hdue, hsector]
    constructor
    · apply h.once.erase
      intro addr bytes hmem a _ hhi
      exact h.free haligned hmem hhi
    · intro a ha
      rw [nextSector_of_lt hbody, hsector] at ha
      by_cases hold : a < nextSector n * SECTOR
      · obtain ⟨e, he, hsame⟩ := h.erased a hold
        exact ⟨e, mem_append_left _ he, hsame⟩
      · refine ⟨_, mem_append_right _ (.head _), ?_⟩
        simp only [SECTOR] at haligned ha hold ⊢
        omega
  · have hsame : nextSector n' = nextSector n := by
      rw [nextSector_of_lt hbody]
      omega
    rw [if_neg hdue, append_nil, hsame]
    exact ⟨h.once, h.erased⟩

/-- **A chunk.** The sector that is due is erased, and the body bytes of the chunk go
    to erased flash. -/
theorem Prepared.fill (h : Prepared off bytes.length ops) (haligned : off % SECTOR = 0)
    (hne : chunk ≠ []) (hlen : chunk.length ≤ OTA_BUF_SIZE)
    (hbody : MANIFEST_SIZE < bytes.length + chunk.length) :
    Prepared off (bytes.length + chunk.length)
      (ops ++ (fillErase off bytes.length (bytes.length + chunk.length) ++
        fillWrite off imgLen bytes chunk)) := by
  have hpos : 0 < chunk.length := length_pos_iff.mpr hne
  obtain ⟨honce, herased⟩ := h.erase haligned (Nat.lt_add_of_pos_right hpos)
    (Nat.add_le_add_left hlen _) hbody
  have hwritten : ∀ addr data,
      .write addr data ∈ ops ++ fillErase off bytes.length (bytes.length + chunk.length) →
      addr + data.length ≤ off + (bytes.length + chunk.length) := by
    intro addr data hmem
    rcases mem_append.mp hmem with hold | herase
    · have := (h.written addr data hold).2
      omega
    · cases mem_fillErase herase
  rw [← append_assoc]
  unfold fillWrite
  dsimp only
  split
  · rw [append_nil]
    exact ⟨honce, herased, fun addr data hmem => ⟨hbody, hwritten addr data hmem⟩⟩
  -- the body bytes end where the chunk ends
  have hend : (((bytes ++ chunk).take imgLen).drop (max bytes.length MANIFEST_SIZE)).length ≤
      bytes.length + chunk.length - max bytes.length MANIFEST_SIZE := by
    simp only [length_drop, length_take, length_append]
    omega
  constructor
  · apply honce.write
    intro a hlo hhi
    have hlt : a - off < nextSector (bytes.length + chunk.length) * SECTOR :=
      lt_nextSector hbody (by omega)
    obtain ⟨e, he, hsame⟩ := herased (a - off) hlt
    have hadd : off + (a - off) = a := by omega
    rw [hadd] at hsame
    exact ⟨e, he, hsame⟩
  · intro a ha
    obtain ⟨e, he, hsame⟩ := herased a ha
    exact ⟨e, mem_append_left _ he, hsame⟩
  · intro addr data hmem
    refine ⟨hbody, ?_⟩
    rcases mem_append.mp hmem with hold | hnew
    · exact hwritten addr data hold
    · simp only [mem_singleton] at hnew
      obtain ⟨rfl, rfl⟩ := hnew
      omega

end Sectors

/-! ### The chunks of an image -/

/-- The image being fed: `n` bytes of it have arrived and `ops` are its operations so far. -/
inductive Feeding (board : Board) (flash : Memory) (kind : ImgKind) (s : OtaState) (n : Nat)
    (ops : List FlashOp) : Prop where
  | skipped (ready : Ready board s n) (skip : (initDownload board s).skipBootOTAFg = true)
      (none : ops = [])
  | receiving (bytes : List UInt8) (length : bytes.length = n)
      (receiving : Receiving board flash (initDownload board s) bytes)
      (skip : (initDownload board s).skipBootOTAFg = false)
      (prepared : Prepared (board.newOffset kind) n ops)

/-- The download of the image at `index` has not begun. -/
structure ImageStart (s : OtaState) : Prop where
  isDnldInit : s.isDnldInit = false
  index : s.index < s.fileImgHdr.length
  manifest : (s.manifest s.index).length = MANIFEST_SIZE
  received : received s.trace s.index = []

section Chunks

theorem ImageStart.feeding (h : ImageStart s) : Feeding board flash kind s 0 [] := by
  have hrecv : Receiving board flash (initDownload board s) [] :=
    receiving_initDownload h.isDnldInit h.manifest h.received
  cases hskip : (initDownload board s).skipBootOTAFg with
  | true => exact .skipped (ready_of_progress hrecv.progress) hskip rfl
  | false => exact .receiving [] rfl hrecv hskip (prepared_nil (Nat.zero_le _))

section

variable (h : Feeding board flash kind s n ops)
include h

theorem Feeding.ready : Ready board s n := by
  cases h with
  | skipped ready => exact ready
  | receiving bytes length receiving =>
    subst length
    exact ready_of_progress receiving.progress

theorem Feeding.once : ErasedOnce SECTOR ops := by
  cases h with
  | skipped _ _ none =>
    rw [none]
    exact erasedOnce_nil
  | receiving _ _ _ _ prepared => exact prepared.once

theorem Feeding.skip_iff :
    (initDownload board s).skipBootOTAFg = true ↔ SkippedBootloader board s.hdr := by
  rw [(progress_initDownload h.ready).skip_iff, initDownload_hdr]

end

theorem Feeding.receive (hkind : s.hdr.imgID = imgIDOf kind) (himgLen : s.hdr.imgLen < 2 ^ 28)
    (hrecv : Receiving board flash (initDownload board s) bytes)
    (hskip : (initDownload board s).skipBootOTAFg = false)
    (hprepared : Prepared (board.newOffset kind) bytes.length ops) (hne : chunk ≠ [])
    (hlen : chunk.length ≤ OTA_BUF_SIZE) (hfits : ChunkFits board s.hdr bytes.length chunk) :
    ∃ s' ops', downloadPacketProcess board s chunk = .ok s' ∧ SameImage s s' ∧
      flashOps s'.trace = flashOps s.trace ++ ops' ∧
      Feeding board flash kind s' (bytes.length + chunk.length) (ops ++ ops') := by
  have hnot : ¬ SkippedBootloader board s.hdr := by
    intro hskipped
    have hflag := hrecv.progress.skip_iff
    rw [initDownload_hdr] at hflag
    exact Bool.false_ne_true (hskip.symm.trans (hflag.mpr hskipped))
  obtain ⟨s', hok, hstep⟩ := hrecv.step hne hlen fun hbody => by
    rcases hfits with hshort | ⟨hle, hskipped | hmin⟩
    · omega
    · exact absurd hskipped hnot
    · exact ⟨⟨kind, hkind, hmin, himgLen⟩, hle⟩
  have hinit := hstep.receiving.progress.isDnldInit
  have hskip' : s'.skipBootOTAFg = false := by
    rw [← Bool.not_eq_true, hstep.receiving.progress.skip_iff, hstep.same.hdr]
    exact hnot
  refine ⟨s', packetOps board s.hdr s'.skipBootOTAFg bytes chunk, hok, hstep.same, ?_, ?_⟩
  · rw [hstep.trace, ← singleton_append, flashOps_append, flashOps_append, flashOps_packet,
      flashOps_map_flash, nil_append]
  · refine .receiving (bytes ++ chunk) length_append ?_ ?_ ?_
    · rw [initDownload_of_init hinit]
      exact hstep.receiving
    · rw [initDownload_of_init hinit]
      exact hskip'
    · unfold packetOps
      by_cases hshort : bytes.length + chunk.length ≤ MANIFEST_SIZE
      · rw [if_pos (.inr hshort), append_nil]
        exact hprepared.manifest (Nat.le_add_right _ _) hshort
      · rw [if_neg (by simp [hskip', hshort]), hkind, imgKind?_imgIDOf]
        exact hprepared.fill (board.newOffset_aligned kind) hne hlen (Nat.lt_of_not_le hshort)

/-- **A chunk that fits.** The call returns, and the image goes on being fed. -/
theorem Feeding.step (h : Feeding board flash kind s n ops) (hkind : s.hdr.imgID = imgIDOf kind)
    (himgLen : s.hdr.imgLen < 2 ^ 28) (hne : chunk ≠ []) (hlen : chunk.length ≤ OTA_BUF_SIZE)
    (hfits : ChunkFits board s.hdr n chunk) :
    ∃ s' ops', downloadPacketProcess board s chunk = .ok s' ∧ SameImage s s' ∧
      flashOps s'.trace = flashOps s.trace ++ ops' ∧
      Feeding board flash kind s' (n + chunk.length) (ops ++ ops') := by
  cases h with
  | skipped ready skip none =>
    obtain ⟨s', hok, hskip, htrace, _⟩ := skipped_packet ready skip himgLen hlen fun hbody => by
      rcases hfits with hshort | ⟨hle, _⟩
      · omega
      · exact hle
    obtain ⟨hprog, hsame⟩ := downloadPacketProcess_progress ready hok
    refine ⟨s', [], hok, hsame, by rw [htrace]; simp, .skipped ?_ ?_ ?_⟩
    · have hsettled : initDownload board s' = s' := initDownload_of_init hprog.isDnldInit
      rw [← hsettled] at hprog
      exact ready_of_progress hprog
    · rw [initDownload_of_init hprog.isDnldInit]
      exact hskip
    · rw [none, append_nil]
  | receiving bytes length receiving skip prepared =>
    subst length
    exact Feeding.receive hkind himgLen receiving skip prepared hne hlen hfits

/-- **A chunk that does not fit.** The call does not return. -/
theorem Feeding.stuck (h : Feeding board flash kind s n ops) (himgLen : s.hdr.imgLen < 2 ^ 28)
    (hne : chunk ≠ []) (hfits : ¬ ChunkFits board s.hdr n chunk) :
    downloadPacketProcess board s chunk ≠ .ok s' := by
  simp only [ChunkFits, not_or, not_and, Nat.not_le] at hfits
  obtain ⟨hbody, hwhere⟩ := hfits
  by_cases hle : n ≤ s.hdr.imgLen
  · obtain ⟨hnot, hlt⟩ := hwhere hle
    have hskip : (initDownload board s).skipBootOTAFg = false := by
      rw [← Bool.not_eq_true, h.skip_iff]
      exact hnot
    exact not_ok_of_imgLen_lt h.ready hbody hne hskip hlt
  · exact not_ok_of_start_gt h.ready hbody hne himgLen (Nat.lt_of_not_le hle)

theorem feedChunks_cons :
    feedChunks board s (chunk :: rest) =
      downloadPacketProcess board s chunk >>= fun s' => feedChunks board s' rest :=
  foldlM_cons

/-- **The chunks of an image** are all taken exactly when they all fit, and then the operations are
    those of an image being fed. -/
theorem Feeding.run (h : Feeding board flash kind s n ops) (hkind : s.hdr.imgID = imgIDOf kind)
    (himgLen : s.hdr.imgLen < 2 ^ 28)
    (hchunks : ∀ chunk ∈ chunks, chunk ≠ [] ∧ chunk.length ≤ OTA_BUF_SIZE) :
    ((∃ s', feedChunks board s chunks = .ok s') → ChunksFit board s.hdr n chunks) ∧
      (ChunksFit board s.hdr n chunks → ∃ s' ops', feedChunks board s chunks = .ok s' ∧
        flashOps s'.trace = flashOps s.trace ++ ops' ∧ ErasedOnce SECTOR (ops ++ ops')) := by
  induction chunks generalizing s n ops with
  | nil =>
    refine ⟨fun _ => trivial, fun _ => ⟨s, [], rfl, by simp, ?_⟩⟩
    rw [append_nil]
    exact h.once
  | cons chunk rest ih =>
    obtain ⟨⟨hne, hlen⟩, hrest⟩ := forall_mem_cons.mp hchunks
    by_cases hfits : ChunkFits board s.hdr n chunk
    · obtain ⟨s1, ops1, hok, hsame, hops, hfeeding⟩ := h.step hkind himgLen hne hlen hfits
      have hnext := ih hfeeding (by rw [hsame.hdr]; exact hkind) (by rw [hsame.hdr]; exact himgLen)
        hrest
      rw [hsame.hdr] at hnext
      rw [feedChunks_cons, hok]
      refine ⟨fun hall => ⟨hfits, hnext.1 hall⟩, fun hall => ?_⟩
      obtain ⟨s', ops', hfeed, hops', honce⟩ := hnext.2 hall.2
      refine ⟨s', ops1 ++ ops', hfeed, ?_, ?_⟩
      · rw [hops', hops, append_assoc]
      · rw [← append_assoc]
        exact honce
    · refine ⟨fun ⟨s', hall⟩ => ?_, fun hall => absurd hall.1 hfits⟩
      rw [feedChunks_cons] at hall
      cases hresult : downloadPacketProcess board s chunk with
      | error s1 =>
        rw [hresult] at hall
        cases hall
      | ok s1 => exact absurd hresult (h.stuck himgLen hne hfits)

end Chunks

/-- **Every byte goes to a sector erased once**, for chunks of at most 2048 bytes, exactly when
    every chunk ends inside the manifest, or starts before the image has ended and the image has a
    body. -/
theorem chunks_erased_once_iff {board : Board} {kind : ImgKind} {s : OtaState}
    {chunks : List (List UInt8)} (hstart : ImageStart s)
    (hlayout : board.otaStorageCheckLayout s.fileImgHdr = true) (hkind : s.hdr.imgID = imgIDOf kind)
    (hchunks : ∀ chunk ∈ chunks, chunk ≠ [] ∧ chunk.length ≤ OTA_BUF_SIZE) :
    ChunksErasedOnce board s chunks ↔ ChunksFit board s.hdr 0 chunks := by
  have himgLen : s.hdr.imgLen < 2 ^ 28 :=
    Board.imgLen_lt_of_checkLayout hlayout (hdr_mem hstart.index) hkind
  have hfeeding : Feeding board (fun _ => 0xFF) kind s 0 [] := hstart.feeding
  obtain ⟨hforced, hclean⟩ := hfeeding.run hkind himgLen hchunks
  constructor
  · rintro ⟨s', ops, hfeed, _, _⟩
    exact hforced ⟨s', hfeed⟩
  · intro hfits
    obtain ⟨s', ops, hfeed, hops, honce⟩ := hclean hfits
    exact ⟨s', ops, hfeed, hops, honce⟩

/-- The start of the download of a 100-byte application image. -/
def shortImage : OtaState :=
  { initialState none with
    isGetOTAHdr := true
    fileImgHdr := [⟨[0x4F, 0x54, 0x41, 0x31], 24, 0, 100, 32, OTA_IMGID_APP⟩] }

theorem shortImage_start : ImageStart shortImage := ⟨rfl, by decide, by decide, rfl⟩

/-- The image in two chunks, the second one running on into what follows it. -/
theorem chunks_erased_once_short : ChunksErasedOnce runningFromOta1 shortImage
      [List.replicate 10 0, List.replicate 90 0xA5 ++ List.replicate 400 0] :=
  (@chunks_erased_once_iff runningFromOta1 .app shortImage _ shortImage_start (by decide) rfl
    (by decide +kernel)).mpr (by decide +kernel)

/-- A 100-byte image in the first 500 bytes of `NextImgBuf`: the next packet is fed to it, with -400
    bytes to write. -/
theorem chunk_past_image : runningFromOta1.otaStorageCheckLayout shortImage.fileImgHdr = true ∧
      ¬ ChunksErasedOnce runningFromOta1 shortImage
        [List.replicate 500 0, List.replicate 10 0] := by
  refine ⟨by decide, ?_⟩
  rintro ⟨s', ops, hfeed, _⟩
  have hfault : (feedChunks runningFromOta1 shortImage
      [List.replicate 500 0, List.replicate 10 0]).isOk = false := by
    decide +kernel
  rw [hfeed] at hfault
  cases hfault

end AmebaRtos.Ota
