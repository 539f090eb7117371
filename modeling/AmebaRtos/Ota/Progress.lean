import AmebaRtos.Ota.Process

/-!
# Progress of a download

What one call of `download_packet_process` does to the counters, for any header and
any packet. `Progress board s n` says that the image has received `n` bytes so far;
the lemmas invert the stages of the function one by one, so that later proofs need
not unfold it.
-/

namespace AmebaRtos.Ota

open Lib List

theorem hdr_mem {s : OtaState} (hindex : s.index < s.fileImgHdr.length) : s.hdr ∈ s.fileImgHdr := by
  simp [OtaState.hdr, hindex]

/-- The counters of an image of which `n` bytes have arrived. -/
structure Progress (board : Board) (s : OtaState) (n : Nat) : Prop where
  isDnldInit : s.isDnldInit = true
  imageLen : s.imageLen = s.hdr.imgLen
  slotIdx : s.slotIdx = board.targetSlot s.hdr.imgID
  flashAddr : s.flashAddr = u32 (chipOffset (board.otaStorageGetImageAddr s.hdr.imgID
    (board.targetSlot s.hdr.imgID)) + MANIFEST_SIZE)
  skip : s.skipBootOTAFg = (s.hdr.imgID == OTA_IMGID_BOOT &&
    board.targetSlot s.hdr.imgID == .B && board.otaCheckBootloaderOta2)
  readBytes : s.readBytes = n
  sigFg : s.sigFg = false → n = 0
  sigCnt : s.sigCnt = min n MANIFEST_SIZE
  remainBytes : s.remainBytes =
    s32 (u32 ((s.hdr.imgLen : Int) - MANIFEST_SIZE)) - (n - MANIFEST_SIZE : Nat)

theorem Progress.dropNextImg {s : OtaState} (h : Progress board s n) :
    Progress board { s with nextImg := none } n :=
  ⟨h.isDnldInit, h.imageLen, h.slotIdx, h.flashAddr, h.skip, h.readBytes, h.sigFg, h.sigCnt,
    h.remainBytes⟩

def SkippedBootloader (board : Board) (hdr : SubHdr) : Prop :=
  hdr.imgID = OTA_IMGID_BOOT ∧ board.targetSlot hdr.imgID = .B ∧ board.otaCheckBootloaderOta2 = true
deriving Decidable

theorem Progress.skip_iff {s : OtaState} (h : Progress board s n) :
    s.skipBootOTAFg = true ↔ SkippedBootloader board s.hdr := by
  rw [h.skip]
  simp [SkippedBootloader, and_assoc]

def Ready (board : Board) (s : OtaState) (n : Nat) : Prop :=
  if s.isDnldInit then Progress board s n else n = 0

theorem progress_initDownload {s : OtaState} (h : Ready board s n) :
    Progress board (initDownload board s) n := by
  unfold Ready at h
  unfold initDownload
  split at h
  · rename_i hinit
    rw [if_pos hinit]
    exact h
  rename_i hinit
  subst h
  rw [if_neg hinit]
  constructor <;> simp [downloadParameterInit, OtaState.hdr]

theorem ready_of_progress {s : OtaState} (h : Progress board (initDownload board s) n) :
    Ready board s n := by
  unfold Ready
  by_cases hinit : s.isDnldInit = true
  · rw [initDownload, if_pos hinit] at h
    rw [if_pos hinit]
    exact h
  have hread := h.readBytes
  rw [initDownload, if_neg hinit] at hread
  rw [if_neg hinit]
  exact Int.natCast_eq_zero.mp hread.symm

theorem initDownload_of_init {s : OtaState} (h : s.isDnldInit = true) :
    initDownload board s = s := if_pos h

theorem initDownload_keeps {α : Type} {s : OtaState} (field : OtaState → α)
    (h : field { downloadParameterInit board s with
      isDnldInit := true, nextEraseSector := 0, size := 0 } = field s) :
    field (initDownload board s) = field s := by
  unfold initDownload
  split
  · rfl
  · exact h

section

variable (board : Board) (s : OtaState)

@[simp] theorem initDownload_index : (initDownload board s).index = s.index :=
  initDownload_keeps _ rfl

@[simp] theorem initDownload_fileImgHdr : (initDownload board s).fileImgHdr = s.fileImgHdr :=
  initDownload_keeps _ rfl

@[simp] theorem initDownload_isGetOTAHdr : (initDownload board s).isGetOTAHdr = s.isGetOTAHdr :=
  initDownload_keeps _ rfl

@[simp] theorem initDownload_nextImg : (initDownload board s).nextImg = s.nextImg :=
  initDownload_keeps _ rfl

@[simp] theorem initDownload_manifest : (initDownload board s).manifest = s.manifest :=
  initDownload_keeps _ rfl

@[simp] theorem initDownload_trace : (initDownload board s).trace = s.trace :=
  initDownload_keeps _ rfl

@[simp] theorem initDownload_hdr : (initDownload board s).hdr = s.hdr :=
  initDownload_keeps _ rfl

end

/-! ### The length of the body as an `int` -/

theorem remainBytes_of_short (hlen : imgLen < 2 ^ 31 + MANIFEST_SIZE) :
    s32 (u32 ((imgLen : Int) - MANIFEST_SIZE)) = imgLen - MANIFEST_SIZE := by
  simp only [MANIFEST_SIZE] at hlen ⊢
  unfold s32 u32
  split <;> omega

/-! ### The manifest stage -/

theorem copyAt_nil : copyAt buf offset [] = buf := by
  simp [copyAt]

/-- The three ways of caching the manifest are one: the missing bytes are taken, the rest of the
    packet is body. -/
theorem cacheManifest_eq {s : OtaState} (bytes : List UInt8) (hfg : s.sigFg = false → n = 0)
    (hcnt : s.sigCnt = min n MANIFEST_SIZE) :
    cacheManifest s bytes = ({ s with
          sigFg := true
          sigCnt := min (n + bytes.length) MANIFEST_SIZE
          manifest := setManifest s (min n MANIFEST_SIZE) (bytes.take (MANIFEST_SIZE - n)) },
        bytes.drop (MANIFEST_SIZE - n)) := by
  unfold cacheManifest
  cases hsig : s.sigFg with
  | false =>
    have hn : n = 0 := hfg hsig
    subst hn
    simp [take_eq_take_min, Nat.min_comm]
  | true =>
    simp only [Bool.not_true, Bool.false_eq_true, if_false]
    by_cases hpart : s.sigCnt < MANIFEST_SIZE
    · have hn : s.sigCnt = n := by omega
      rw [if_pos hpart]
      split
      · have htake : bytes.take (MANIFEST_SIZE - n) = bytes := take_of_length_le (by omega)
        have hdrop : bytes.drop (MANIFEST_SIZE - n) = [] := drop_eq_nil_of_le (by omega)
        have hmin : min n MANIFEST_SIZE = n := by omega
        have hmin' : min (n + bytes.length) MANIFEST_SIZE = n + bytes.length := by omega
        simp only [hn, htake, hdrop, hmin, hmin']
      · have hmin : min n MANIFEST_SIZE = n := by omega
        have hmin' : min (n + bytes.length) MANIFEST_SIZE = MANIFEST_SIZE := by omega
        simp only [hn, hmin, hmin']
    · have hzero : MANIFEST_SIZE - n = 0 := by omega
      have hmin : min (n + bytes.length) MANIFEST_SIZE = s.sigCnt := by omega
      rw [if_neg hpart, hzero, take_zero, drop_zero, hmin, setManifest, copyAt_nil,
        Function.update_eq_self, ← hsig]

def cached (board : Board) (s : OtaState) (n : Nat) (bytes : List UInt8) : OtaState :=
  { arrive (initDownload board s) bytes with
    sigFg := true
    sigCnt := min (n + bytes.length) MANIFEST_SIZE
    manifest := setManifest (initDownload board s) (min n MANIFEST_SIZE)
      (bytes.take (MANIFEST_SIZE - n)) }

theorem downloadPacketProcess_eq {s : OtaState} (hready : Ready board s n) :
    downloadPacketProcess board s bytes =
      if bytes.drop (MANIFEST_SIZE - n) = [] then .ok (cached board s n bytes)
      else
        match stashNextImg (cached board s n bytes) bytes (bytes.drop (MANIFEST_SIZE - n)) with
        | .error s => .error s
        | .ok (s, len) => programBody s (bytes.drop (MANIFEST_SIZE - n)) len := by
  have hprog := progress_initDownload hready
  have hcache := cacheManifest_eq (s := arrive (initDownload board s) bytes) bytes
    hprog.sigFg hprog.sigCnt
  unfold downloadPacketProcess
  rw [hcache]
  rfl

/-! ### Inversion of the other stages -/

theorem stashNextImg_ok (h : stashNextImg s bytes body = .ok (s', len)) :
    (0 ≤ s.remainBytes - body.length ∧ len = body.length ∧
      s' = { s with remainBytes := s.remainBytes - body.length }) ∨
    (s.remainBytes - body.length < 0 ∧ len = s.remainBytes ∧ ∃ hnext, s' = { s with
        remainBytes := s.remainBytes - body.length
        nextImg := some (NextImg.ofTail bytes (body.length - s.remainBytes).toNat hnext) }) := by
  unfold stashNextImg at h
  dsimp only at h
  split at h
  · split at h
    · rename_i hneg hnext
      cases h
      right
      have hcount : -(s.remainBytes - body.length) = body.length - s.remainBytes := by omega
      simp only [hcount] at hnext
      refine ⟨hneg, by omega, hnext, ?_⟩
      simp only [hcount]
    · cases h
  · cases h
    left
    exact ⟨by omega, rfl, rfl⟩

theorem eraseAhead_eq : ∃ (next : Nat) (ops : List FlashOp), eraseAhead s = { s with
      nextEraseSector := next
      trace := s.trace ++ ops.map (.flash s.index) } := by
  unfold eraseAhead
  split
  · exact ⟨_, [_], rfl⟩
  · exact ⟨s.nextEraseSector, [], by simp⟩

theorem programBody_ok (h : programBody s body len = .ok s') :
    ∃ (next : Nat) (ops : List FlashOp), s' = { s with
      size := s.size + len
      nextEraseSector := next
      trace := s.trace ++ ops.map (.flash s.index) } := by
  unfold programBody at h
  split at h
  · cases h
    exact ⟨s.nextEraseSector, [], by simp⟩
  obtain ⟨next, ops, herase⟩ := eraseAhead_eq
  rw [herase] at h
  split at h
  · cases h
  cases h
  split
  · exact ⟨next, ops, rfl⟩
  · exact ⟨next, ops ++ [.write (u32 (s.flashAddr + s.size)) (body.take len.toNat)],
      by simp [OtaState.emitOp, OtaState.emit]⟩

theorem programBody_ok_nonneg (h : programBody s body len = .ok s')
    (hskip : s.skipBootOTAFg = false) :
    0 ≤ len ∧ (s.nextEraseSector ≤ writeSector s →
      .flash s.index (.erase (u32 ((s.flashAddr : Int) - MANIFEST_SIZE + writeSector s * SECTOR))) ∈
        s'.trace) := by
  unfold programBody at h
  rw [if_neg (by simp [hskip])] at h
  split at h
  · cases h
  rename_i hlen
  cases h
  refine ⟨Int.not_lt.mp hlen, fun hdue => ?_⟩
  unfold eraseAhead
  split <;> simp [OtaState.emitOp, OtaState.emit]

/-- What a call changes: the counters of the image, the manifest, the bytes for the next one and the
    trace, which grows. -/
structure SameImage (s s' : OtaState) : Prop where
  index : s'.index = s.index
  fileImgHdr : s'.fileImgHdr = s.fileImgHdr
  isGetOTAHdr : s'.isGetOTAHdr = s.isGetOTAHdr
  trace : s.trace <+: s'.trace

theorem SameImage.hdr {s s' : OtaState} (h : SameImage s s') : s'.hdr = s.hdr := by
  simp only [OtaState.hdr, h.index, h.fileImgHdr]

theorem SameImage.trans {s s' s'' : OtaState} (h : SameImage s s') (h' : SameImage s' s'') :
    SameImage s s'' :=
  ⟨h'.index.trans h.index, h'.fileImgHdr.trans h.fileImgHdr,
    h'.isGetOTAHdr.trans h.isGetOTAHdr, h.trace.trans h'.trace⟩

def outState : Except OtaState OtaState → OtaState
  | .error s => s
  | .ok s => s

theorem cacheManifest_frame :
    SameImage s (cacheManifest s bytes).1 ∧
      (cacheManifest s bytes).1.isDnldInit = s.isDnldInit := by
  unfold cacheManifest
  split
  · exact ⟨⟨rfl, rfl, rfl, prefix_refl _⟩, rfl⟩
  · split
    · split <;> exact ⟨⟨rfl, rfl, rfl, prefix_refl _⟩, rfl⟩
    · exact ⟨⟨rfl, rfl, rfl, prefix_refl _⟩, rfl⟩

/-- The copy is out of bounds when more is left over than the packet holds. -/
theorem stashNextImg_frame (s : OtaState) (bytes body : List UInt8) :
    (∃ s', stashNextImg s bytes body = .error s' ∧ SameImage s s' ∧
      s'.isDnldInit = s.isDnldInit ∧ s.remainBytes < body.length ∧
      (bytes.length + s.remainBytes < body.length ∨ OTA_BUF_SIZE + s.remainBytes < body.length)) ∨
    (∃ s' len, stashNextImg s bytes body = .ok (s', len) ∧ SameImage s s' ∧
      s'.isDnldInit = s.isDnldInit ∧ (s.remainBytes < body.length →
        body.length ≤ bytes.length + s.remainBytes)) := by
  unfold stashNextImg
  dsimp only
  split
  · split
    · exact .inr ⟨_, _, rfl, ⟨rfl, rfl, rfl, prefix_refl _⟩, rfl, by omega⟩
    · exact .inl ⟨_, rfl, ⟨rfl, rfl, rfl, prefix_refl _⟩, rfl, by omega, by omega⟩
  · exact .inr ⟨_, _, rfl, ⟨rfl, rfl, rfl, prefix_refl _⟩, rfl, by omega⟩

theorem programBody_frame :
    SameImage s (outState (programBody s body len)) ∧
      (outState (programBody s body len)).isDnldInit = s.isDnldInit := by
  unfold programBody
  split
  · exact ⟨⟨rfl, rfl, rfl, prefix_refl _⟩, rfl⟩
  obtain ⟨next, ops, herase⟩ := eraseAhead_eq
  rw [herase]
  split
  · exact ⟨⟨rfl, rfl, rfl, prefix_append _ _⟩, rfl⟩
  split
  · exact ⟨⟨rfl, rfl, rfl, prefix_append _ _⟩, rfl⟩
  · refine ⟨⟨rfl, rfl, rfl, ?_⟩, rfl⟩
    simp [outState, OtaState.emitOp, OtaState.emit]

theorem downloadPacketProcess_frame (board : Board) (s : OtaState) (bytes : List UInt8) :
    SameImage { s with trace := s.trace ++
        [.packet s.index s.hdr (initDownload board s).readBytes bytes] }
      (outState (downloadPacketProcess board s bytes)) ∧
    (outState (downloadPacketProcess board s bytes)).isDnldInit = true := by
  have hinit : (initDownload board s).isDnldInit = true := by
    unfold initDownload
    split
    · assumption
    · rfl
  have harrive : SameImage { s with trace := s.trace ++
      [.packet s.index s.hdr (initDownload board s).readBytes bytes] }
      (arrive (initDownload board s) bytes) := by
    constructor <;> simp [arrive]
  obtain ⟨hcache, hcacheInit⟩ := cacheManifest_frame
  have hcacheInit : (cacheManifest (arrive (initDownload board s) bytes) bytes).1.isDnldInit =
    true := hcacheInit.trans hinit
  unfold downloadPacketProcess
  generalize cacheManifest (arrive (initDownload board s) bytes) bytes = r at hcache hcacheInit
  obtain ⟨s1, body⟩ := r
  dsimp only at hcache hcacheInit ⊢
  split
  · exact ⟨harrive.trans hcache, hcacheInit⟩
  rcases stashNextImg_frame s1 bytes body with
    ⟨s2, hstash, hsame, hsameInit, _⟩ | ⟨s2, len, hstash, hsame, hsameInit, _⟩
  · rw [hstash]
    exact ⟨(harrive.trans hcache).trans hsame, hsameInit.trans hcacheInit⟩
  rw [hstash]
  obtain ⟨hprogram, hprogramInit⟩ := programBody_frame
  exact ⟨((harrive.trans hcache).trans hsame).trans hprogram,
    hprogramInit.trans (hsameInit.trans hcacheInit)⟩

theorem sameImage_cached (board : Board) (s : OtaState) (n : Nat) (bytes : List UInt8) :
    SameImage s (cached board s n bytes) := by
  constructor <;> simp [cached, arrive]

theorem cached_remainBytes (hready : Ready board s n) (bytes : List UInt8) :
    (cached board s n bytes).remainBytes =
      s32 (u32 ((s.hdr.imgLen : Int) - MANIFEST_SIZE)) - (n - MANIFEST_SIZE : Nat) := by
  have hremain := (progress_initDownload hready).remainBytes
  rw [initDownload_hdr] at hremain
  exact hremain

theorem downloadPacketProcess_ok (hready : Ready board s n)
    (hok : downloadPacketProcess board s bytes = .ok s') :
    (bytes.drop (MANIFEST_SIZE - n) = [] ∧ s' = cached board s n bytes) ∨
    (bytes.drop (MANIFEST_SIZE - n) ≠ [] ∧ ∃ s1 len,
      stashNextImg (cached board s n bytes) bytes (bytes.drop (MANIFEST_SIZE - n)) = .ok (s1, len) ∧
      programBody s1 (bytes.drop (MANIFEST_SIZE - n)) len = .ok s') := by
  rw [downloadPacketProcess_eq hready] at hok
  split at hok
  · cases hok
    exact .inl ⟨by assumption, rfl⟩
  rcases hstash : stashNextImg (cached board s n bytes) bytes
    (bytes.drop (MANIFEST_SIZE - n)) with s1 | ⟨s1, len⟩
  · rw [hstash] at hok
    cases hok
  · rw [hstash] at hok
    exact .inr ⟨by assumption, s1, len, rfl, hok⟩

theorem progress_of_cached {next : Nat} (hready : Ready board s n)
    (hs' : s' = { cached board s n bytes with
      remainBytes := remain, size := size, nextEraseSector := next, nextImg := nextImg,
      trace := trace })
    (hremain : remain = (cached board s n bytes).remainBytes -
      (bytes.drop (MANIFEST_SIZE - n)).length) : Progress board s' (n + bytes.length) := by
  have hprog := progress_initDownload hready
  have hhdr : s'.hdr = s.hdr := by
    rw [hs']
    exact (sameImage_cached board s n bytes).hdr
  subst hs'
  constructor
  case isDnldInit => exact hprog.isDnldInit
  case imageLen => exact hprog.imageLen
  case slotIdx => exact hprog.slotIdx
  case flashAddr => exact hprog.flashAddr
  case skip => exact hprog.skip
  case readBytes => simp [cached, arrive, hprog.readBytes]
  case sigFg => exact nofun
  case sigCnt => rfl
  case remainBytes =>
    rw [hhdr]
    dsimp only
    rw [hremain, cached_remainBytes hready, length_drop]
    omega

/-- **One packet.** A call that returns has counted the packet, stays with the same
    image and extends the trace. -/
theorem downloadPacketProcess_progress (hready : Ready board s n)
    (hok : downloadPacketProcess board s bytes = .ok s') :
    Progress board s' (n + bytes.length) ∧ SameImage s s' := by
  have hcached := sameImage_cached board s n bytes
  rcases downloadPacketProcess_ok hready hok with ⟨hbody, rfl⟩ | ⟨_, s1, len, hstash, hprogram⟩
  · refine ⟨progress_of_cached hready rfl ?_, hcached⟩
    rw [hbody]
    exact (Int.sub_zero _).symm
  obtain ⟨next, ops, rfl⟩ := programBody_ok hprogram
  rcases stashNextImg_ok hstash with ⟨_, _, rfl⟩ | ⟨_, _, _, rfl⟩ <;>
    exact ⟨progress_of_cached hready rfl rfl, hcached.index, hcached.fileImgHdr,
      hcached.isGetOTAHdr, hcached.trace.trans (prefix_append _ _)⟩

/-! ### The end of an image -/

theorem foldl_emitOp (ops : List FlashOp) (s : OtaState) :
    ops.foldl OtaState.emitOp s = { s with trace := s.trace ++ ops.map (.flash s.index) } := by
  induction ops generalizing s with
  | nil => simp
  | cons op ops ih =>
    rw [foldl_cons, ih]
    simp [OtaState.emitOp, OtaState.emit]

/-- The end of an image, as `nextImage` leaves it. -/
structure NextStep (s s' : OtaState) (skipped : Bool) (ret : Ret) : Prop where
  fileImgHdr : s'.fileImgHdr = s.fileImgHdr
  isGetOTAHdr : s'.isGetOTAHdr = s.isGetOTAHdr
  manifest : s'.manifest = s.manifest
  nextImg : s'.nextImg = s.nextImg
  trace : s'.trace = s.trace ++ [.finished s.index s.readBytes skipped]
  next : (ret = .ok ∧ s.index + 1 < s.fileImgHdr.length ∧ s'.index = s.index + 1 ∧
      s'.isDnldInit = false) ∨
    (ret = .finish ∧ s.fileImgHdr.length ≤ s.index + 1 ∧ s'.index = s.index)

theorem NextStep.ret_ne (h : NextStep s s' skipped ret) : ret ≠ .err := by
  intro hret
  subst hret
  rcases h.next with ⟨hret, _⟩ | ⟨hret, _⟩ <;> cases hret

theorem NextStep.index_of_ok (h : NextStep s s' skipped .ok) : s'.index = s.index + 1 := by
  rcases h.next with ⟨_, _, hindex, _⟩ | ⟨hret, _⟩
  · exact hindex
  · cases hret

theorem nextImage_step (s : OtaState) (skipped : Bool) :
    NextStep s (nextImage s skipped).1 skipped (nextImage s skipped).2 := by
  unfold nextImage
  dsimp only [OtaState.emit]
  split
  · rename_i hmore
    exact ⟨rfl, rfl, rfl, rfl, rfl, .inl ⟨rfl, hmore, rfl, rfl⟩⟩
  · rename_i hlast
    exact ⟨rfl, rfl, rfl, rfl, rfl, .inr ⟨rfl, Nat.le_of_not_lt hlast, rfl⟩⟩

def updateOps (board : Board) (s : OtaState) : List FlashOp :=
  (board.otaStorageUpdateManifest s.hdr (s.manifest s.index) s.slotIdx).1

/-- What `download_finish` leaves: the image was skipped, or its checksum was verified and its
    manifest written. -/
structure FinishStep (board : Board) (flash : Memory) (s s' : OtaState) (size : Int) (ret : Ret) :
    Prop where
  size : u32 size = s.imageLen
  how : (s.skipBootOTAFg = true ∧ NextStep s s' true ret) ∨ (s.skipBootOTAFg = false ∧
      NextStep { s with trace := s.trace ++ (updateOps board s).map (.flash s.index) } s' false
        ret ∧
      (board.otaStorageUpdateManifest s.hdr (s.manifest s.index) s.slotIdx).2 = true ∧
      board.otaStorageVerifyChecksum s.hdr (s.manifest s.index) s.slotIdx
        (flashAfter flash s.trace) = true)

theorem FinishStep.position {size : Int} (h : FinishStep board flash s s' size ret) :
    s'.fileImgHdr = s.fileImgHdr ∧ s'.isGetOTAHdr = s.isGetOTAHdr ∧ s.trace <+: s'.trace ∧
    ((ret = .ok ∧ s.index + 1 < s.fileImgHdr.length ∧ s'.index = s.index + 1 ∧
        s'.isDnldInit = false) ∨
      (ret = .finish ∧ s.fileImgHdr.length ≤ s.index + 1 ∧ s'.index = s.index)) := by
  rcases h.how with ⟨_, hnext⟩ | ⟨_, hnext, _⟩
  · exact ⟨hnext.fileImgHdr, hnext.isGetOTAHdr, ⟨_, hnext.trace.symm⟩, hnext.next⟩
  · refine ⟨hnext.fileImgHdr, hnext.isGetOTAHdr, ?_, hnext.next⟩
    rw [hnext.trace, append_assoc]
    exact prefix_append _ _

/-- `download_finish` fails without touching the flash, or it is a step to the next image; the
    update fails only for an unsigned sub-header. -/
theorem downloadFinish_cases (board : Board) (flash : Memory) (s : OtaState) (size : Int) :
    downloadFinish board flash s size = (s, .err) ∨
    (∃ s', downloadFinish board flash s size = (s', .err) ∧
      s'.fileImgHdr = s.fileImgHdr ∧ s.trace <+: s'.trace ∧
      (board.otaStorageUpdateManifest s.hdr (s.manifest s.index) s.slotIdx).2 = false) ∨
    (∃ s' ret, downloadFinish board flash s size = (s', ret) ∧ ret ≠ .err ∧
      FinishStep board flash s s' size ret) := by
  unfold downloadFinish
  split
  · exact .inl rfl
  rename_i hsize
  have hsize : u32 size = s.imageLen := by simpa using hsize
  split
  · rename_i hskip
    have hnext := nextImage_step s true
    exact .inr (.inr ⟨_, _, rfl, hnext.ret_ne, hsize, .inl ⟨hskip, hnext⟩⟩)
  rename_i hskip
  have hskip : s.skipBootOTAFg = false := by simpa using hskip
  split
  · exact .inl rfl
  rename_i hsum
  have hsum := eq_true_of_ne_false hsum
  dsimp only
  rw [foldl_emitOp]
  split
  · rename_i hupdated
    have hnext := nextImage_step
      { s with trace := s.trace ++ (updateOps board s).map (.flash s.index) } false
    exact .inr (.inr ⟨_, _, rfl, hnext.ret_ne, hsize, .inr ⟨hskip, hnext, hupdated, hsum⟩⟩)
  · rename_i hupdated
    exact .inr (.inl ⟨_, rfl, rfl, prefix_append _ _, by simpa using hupdated⟩)

end AmebaRtos.Ota
