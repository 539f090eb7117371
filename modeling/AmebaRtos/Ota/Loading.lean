import AmebaRtos.Ota.Tracking

/-!
# Loading an image of a well-formed file

`Loading` follows one image of an OTA file through the loop, whatever packets its bytes
come in. Unlike the invariants for arbitrary headers, it needs no room behind the image:
the sectors that are erased ahead may lie behind the slot, and `SameOutside` says which
part of the flash an image leaves alone.
-/

namespace AmebaRtos.Ota

open Lib List

/-- An image of an OTA file: a signed sub-header for an image with a slot pair, with the length and
    the checksum of its bytes, which fit the inactive slot. -/
structure FileImage (board : Board) where
  hdr : SubHdr
  kind : ImgKind
  bytes : List UInt8
  hdr_fits : hdr.Fits
  signed : hdr.signed = true
  imgID : hdr.imgID = imgIDOf kind
  imgLen : hdr.imgLen = bytes.length
  has_body : MANIFEST_SIZE < bytes.length
  fits_slot : bytes.length ≤ board.newSize kind
  checksum : (bytes.map UInt8.toNat).sum % 2 ^ 32 = hdr.checksum

theorem FileImage.hasSlot (img : FileImage board) : HasSlot img.hdr img.kind := by
  have hroom := board.newOffset_add_newSize_le img.kind
  have hfits := img.fits_slot
  refine ⟨img.imgID, ?_, ?_⟩
  · rw [img.imgLen]
    exact Nat.le_of_lt img.has_body
  · rw [img.imgLen]
    omega

theorem FileImage.inSlot (img : FileImage board) (ha : a < img.bytes.length) :
    board.layout.InSlot img.kind (board.newSlot img.kind) (board.newOffset img.kind + a) :=
  ⟨Nat.le_add_right _ _, Nat.add_lt_add_left (Nat.lt_of_lt_of_le ha img.fits_slot) _⟩

/-! ### The operations of one image -/

/-- The flash operations that belong to image `i`. -/
def imageOps (trace : List Event) (i : Nat) : List FlashOp :=
  trace.filterMap fun
    | .flash j op => if j = i then some op else none
    | _ => none

@[simp] theorem imageOps_append :
    imageOps (trace ++ trace') i = imageOps trace i ++ imageOps trace' i := by
  simp [imageOps]

@[simp] theorem imageOps_cons_packet (hdr : SubHdr) :
    imageOps (.packet j hdr readBytes bytes :: trace) i = imageOps trace i := rfl

@[simp] theorem imageOps_finished :
    imageOps [.finished j readBytes skipped] i = [] := rfl

@[simp] theorem imageOps_map_flash : imageOps (ops.map (.flash i)) i = ops := by
  simp [imageOps]

theorem imageOps_map_other (ops : List FlashOp) (hne : j ≠ i) :
    imageOps (ops.map (.flash j)) i = [] := by
  simp [imageOps, hne]

def BodyOp (off : Nat) : FlashOp → Prop
  | .erase _ => True
  | .write addr _ => off + MANIFEST_SIZE ≤ addr

theorem packetOps_bodyOp {board : Board} {hdr : SubHdr} {kind : ImgKind}
    (hkind : hdr.imgID = imgIDOf kind) {skip : Bool} {bytes packet : List UInt8} :
    ∀ op ∈ packetOps board hdr skip bytes packet, BodyOp (board.newOffset kind) op := by
  intro op hop
  unfold packetOps at hop
  rw [hkind, imgKind?_imgIDOf] at hop
  split at hop
  · exact absurd hop not_mem_nil
  rcases mem_append.mp hop with herase | hwrite
  · obtain rfl := mem_fillErase herase
    trivial
  · obtain rfl := mem_fillWrite hwrite
    exact Nat.add_le_add_left (Nat.le_max_right _ _) _

/-! ### What an image leaves alone -/

theorem nextSector_mono (h : n ≤ n') : nextSector n ≤ nextSector n' := by
  by_cases hn : n ≤ MANIFEST_SIZE
  · rw [nextSector_of_le hn]
    exact Nat.zero_le _
  · rw [nextSector_of_lt (Nat.lt_of_not_le hn),
      nextSector_of_lt (Nat.lt_of_lt_of_le (Nat.lt_of_not_le hn) h)]
    exact Nat.add_le_add_right (Nat.div_le_div_right (Nat.add_le_add_right h 23)) 1

/-- The flash that `n` bytes of an image may change: the sectors up to there, and the active slot,
    whose pattern may be cleared. A skipped image changes nothing. -/
def Reached {board : Board} (img : FileImage board) (n a : Nat) : Prop :=
  ¬ SkippedBootloader board img.hdr ∧
    ((board.newOffset img.kind ≤ a ∧ a < board.newOffset img.kind + nextSector n * SECTOR) ∨
      board.layout.InSlot img.kind (board.activeSlot img.kind) a)

def SameOutside {board : Board} (img : FileImage board) (n : Nat) (mem mem' : Memory) : Prop :=
  ∀ a, ¬ Reached img n a → mem' a = mem a

section Frame

variable {img : FileImage board}

theorem Reached.mono (h : Reached img n a) (hle : n ≤ n') : Reached img n' a := by
  obtain ⟨hnot, ⟨hlo, hhi⟩ | hactive⟩ := h
  · refine ⟨hnot, .inl ⟨hlo, Nat.lt_of_lt_of_le hhi ?_⟩⟩
    exact Nat.add_le_add_left (Nat.mul_le_mul_right _ (nextSector_mono hle)) _
  · exact ⟨hnot, .inr hactive⟩

theorem SameOutside.mono (h : SameOutside img n mem mem') (hle : n ≤ n') :
    SameOutside img n' mem mem' := fun a hout =>
  h a fun hreached => hout (hreached.mono hle)

theorem SameOutside.trans (h : SameOutside img n mem mem') (h' : SameOutside img n mem' mem'') :
    SameOutside img n mem mem'' := fun a hout => (h' a hout).trans (h a hout)

theorem sameOutside_refl : SameOutside img n mem mem := fun _ _ => rfl

theorem sameOutside_replay (hops : ∀ op ∈ ops, ∀ a, op.Touches SECTOR a → Reached img n a) :
    SameOutside img n mem (replay SECTOR ops mem) := fun a hout =>
  replay_of_not_touches (fun op hop htouch => hout (hops op hop a htouch)) mem

theorem packetOps_reached (hskip : skip = false → ¬ SkippedBootloader board img.hdr) :
    ∀ op ∈ packetOps board img.hdr skip bytes packet, ∀ a, op.Touches SECTOR a →
      Reached img (bytes ++ packet).length a := by
  intro op hop a htouch
  unfold packetOps at hop
  rw [img.imgID, imgKind?_imgIDOf] at hop
  split at hop
  · exact absurd hop not_mem_nil
  rename_i hnone
  have hbody : MANIFEST_SIZE < bytes.length + packet.length :=
    Nat.lt_of_not_le fun hle => hnone (.inr hle)
  refine ⟨hskip (Bool.eq_false_iff.mpr fun heq => hnone (.inl heq)), .inl ?_⟩
  rw [length_append, nextSector_of_lt hbody]
  have haligned := board.newOffset_aligned img.kind
  rcases mem_append.mp hop with herase | hwrite
  · obtain rfl := mem_fillErase herase
    simp only [FlashOp.Touches, SECTOR] at htouch haligned ⊢
    omega
  obtain rfl := mem_fillWrite hwrite
  simp only [FlashOp.Touches, length_drop, length_take, length_append, SECTOR] at htouch ⊢
  omega

end Frame

/-- What image `i` leaves alone once `n` of its bytes have arrived: the header, the flash it does
    not reach, and the operations of the other images. -/
structure Leaves {board : Board} (flash : Memory) (img : FileImage board) (i n : Nat)
    (s s' : OtaState) : Prop where
  fileImgHdr : s'.fileImgHdr = s.fileImgHdr
  flash : SameOutside img n (flashAfter flash s.trace) (flashAfter flash s'.trace)
  ops : ∀ j, j ≠ i → imageOps s'.trace j = imageOps s.trace j

section Leaves

variable {flash : Memory}

theorem leaves_refl : Leaves flash img i n s s := ⟨rfl, sameOutside_refl, fun _ _ => rfl⟩

theorem Leaves.mono (h : Leaves flash img i n s s') (hle : n ≤ n') : Leaves flash img i n' s s' :=
  ⟨h.fileImgHdr, h.flash.mono hle, h.ops⟩

theorem Leaves.trans (h : Leaves flash img i n s s') (h' : Leaves flash img i n s' s'') :
    Leaves flash img i n s s'' :=
  ⟨h'.fileImgHdr.trans h.fileImgHdr, h.flash.trans h'.flash,
    fun j hj => (h'.ops j hj).trans (h.ops j hj)⟩

end Leaves

/-! ### One packet -/

/-- Image `i` of the file is being loaded and has received `got`. -/
structure Loading (board : Board) (flash : Memory) (hdrs : List SubHdr) (s : OtaState)
    (img : FileImage board) (i : Nat) (got : List UInt8) : Prop where
  fileImgHdr : s.fileImgHdr = hdrs
  index : s.index = i
  isGetOTAHdr : s.isGetOTAHdr = true
  current : hdrs.getD i default = img.hdr
  receiving : Receiving board flash (initDownload board s) got
  bodyOps : ∀ op ∈ imageOps s.trace i, BodyOp (board.newOffset img.kind) op
  later : ∀ j, i < j → received s.trace j = [] ∧ (s.manifest j).length = MANIFEST_SIZE ∧
    imageOps s.trace j = []

section Load

variable (h : Loading board flash hdrs s img i got)
include h

theorem Loading.hdr : s.hdr = img.hdr := by
  rw [OtaState.hdr, h.fileImgHdr, h.index]
  exact h.current

theorem Loading.hasSlot : HasSlot s.hdr img.kind := h.hdr ▸ img.hasSlot

theorem Loading.signed : s.hdr.signed = true := h.hdr ▸ img.signed

theorem Loading.recv (hinit : s.isDnldInit = true) : Receiving board flash s got := by
  have hrecv := h.receiving
  rwa [initDownload_of_init hinit] at hrecv

theorem Loading.feed (hne : packet ≠ []) (hlen : packet.length ≤ OTA_BUF_SIZE)
    (hle : got.length ≤ img.bytes.length) :
    ∃ s', downloadPacketProcess board s packet = .ok s' ∧ s'.isDnldInit = true ∧
      Loading board flash hdrs s' img i (got ++ packet) ∧
      pendingBytes s' = (if img.bytes.length < (got ++ packet).length then
        (got ++ packet).drop img.bytes.length else pendingBytes s) ∧
      Leaves flash img i (got ++ packet).length s s' := by
  have hslot := h.hasSlot
  have hsize : s.hdr.imgLen = img.bytes.length := h.hdr ▸ img.imgLen
  obtain ⟨s', hok, hstep⟩ := h.receiving.step hne hlen fun _ =>
    ⟨⟨img.kind, hslot⟩, by rw [hsize]; exact hle⟩
  have hinit := hstep.receiving.progress.isDnldInit
  have hops := @packetOps_bodyOp board s.hdr img.kind hslot.imgID s'.skipBootOTAFg got packet
  have hframe : ∀ op ∈ packetOps board s.hdr s'.skipBootOTAFg got packet, ∀ a,
      op.Touches SECTOR a → Reached img (got ++ packet).length a := by
    rw [h.hdr]
    apply packetOps_reached
    intro hskip hskipped
    have hflag := hstep.receiving.progress.skip_iff
    rw [hstep.same.hdr, h.hdr] at hflag
    exact Bool.false_ne_true (hskip.symm.trans (hflag.mpr hskipped))
  have htrace := hstep.trace
  refine ⟨s', hok, hinit, ?_, ?_, ?_⟩
  · constructor
    case fileImgHdr => exact hstep.same.fileImgHdr.trans h.fileImgHdr
    case index => exact hstep.same.index.trans h.index
    case isGetOTAHdr => exact hstep.same.isGetOTAHdr.trans h.isGetOTAHdr
    case current => exact h.current
    case receiving =>
      rw [initDownload_of_init hinit]
      exact hstep.receiving
    case bodyOps =>
      rw [htrace, imageOps_append, imageOps_cons_packet, h.index, imageOps_map_flash]
      exact forall_mem_append.mpr ⟨h.bodyOps, hops⟩
    case later =>
      intro j hj
      obtain ⟨hrecv, hmanifest, hnone⟩ := h.later j hj
      have hother : s.index ≠ j := h.index.trans_ne (Nat.ne_of_lt hj)
      refine ⟨?_, ?_, ?_⟩
      · rw [htrace, received_append, hrecv, ← singleton_append, received_append]
        simp [hother]
      · rw [hstep.manifest j (Ne.symm hother)]
        exact hmanifest
      · rw [htrace, imageOps_append, imageOps_cons_packet, hnone, imageOps_map_other _ hother]
        rfl
  · have hmax : max MANIFEST_SIZE s.hdr.imgLen = img.bytes.length := by
      rw [hsize]
      exact Nat.max_eq_right (Nat.le_of_lt img.has_body)
    rw [hstep.pending, hmax, hsize]
  · constructor
    · exact hstep.same.fileImgHdr
    · rw [htrace, ← singleton_append, flashAfter_append, flashOps_append, flashOps_map_flash]
      exact sameOutside_replay hframe
    · intro j hj
      rw [htrace, imageOps_append, imageOps_cons_packet, h.index,
        imageOps_map_other _ (Ne.symm hj), append_nil]

theorem Loading.dropNextImg (hinit : s.isDnldInit = true) :
    Loading board flash hdrs { s with nextImg := none } img i got := by
  refine ⟨h.fileImgHdr, h.index, h.isGetOTAHdr, h.current, ?_, h.bodyOps, h.later⟩
  have hsame : initDownload board { s with nextImg := none } = { s with nextImg := none } :=
    initDownload_of_init hinit
  rw [hsame]
  exact (h.recv hinit).dropNextImg

theorem Loading.feedNextImg (hlt : (got ++ pendingBytes s).length < img.bytes.length) :
    ∃ s', feedNextImg board s = .ok s' ∧
      Loading board flash hdrs s' img i (got ++ pendingBytes s) ∧ pendingBytes s' = [] ∧
      Leaves flash img i (got ++ pendingBytes s).length s s' := by
  unfold AmebaRtos.Ota.feedNextImg
  cases hnext : s.nextImg with
  | none =>
    have hpending : pendingBytes s = [] := by
      rw [pendingBytes, hnext]
    rw [hpending, append_nil]
    exact ⟨s, rfl, h, hpending, leaves_refl⟩
  | some next =>
    have hpending : pendingBytes s = next.val := by
      rw [pendingBytes, hnext]
    rw [hpending] at hlt ⊢
    have hle : got.length ≤ img.bytes.length := by
      rw [length_append] at hlt
      exact Nat.le_of_lt (Nat.lt_of_le_of_lt (Nat.le_add_right _ _) hlt)
    obtain ⟨s', hok, hinit, hload, _, hsame⟩ := h.feed next.property.1 next.property.2 hle
    dsimp only
    rw [hok]
    exact ⟨_, rfl, hload.dropNextImg hinit, rfl, hsame.fileImgHdr, hsame.flash, hsame.ops⟩

theorem Loading.remainBytes_nonpos_iff (hinit : s.isDnldInit = true) :
    s.remainBytes ≤ 0 ↔ img.bytes.length ≤ got.length := by
  have hcount := h.receiving.progress.remainBytes
  have hbody := img.has_body
  have hmax := img.hasSlot.imgLen_lt
  rw [initDownload_of_init hinit, h.hdr, remainBytes_of_short (by omega), img.imgLen] at hcount
  omega

/-- **One round of the loop.** What waited and the new packet go to the image; what is
    behind its end waits. -/
theorem Loading.round (hne : packet ≠ []) (hlen : packet.length ≤ OTA_BUF_SIZE)
    (hlt : (got ++ pendingBytes s).length < img.bytes.length) :
    ∃ s', programPacket board flash s packet = .ok (if s'.remainBytes ≤ 0 then
          downloadFinish board flash s' (s'.size + MANIFEST_SIZE) else (s', .ok)) ∧
      s'.isDnldInit = true ∧
      Loading board flash hdrs s' img i (got ++ pendingBytes s ++ packet) ∧
      pendingBytes s' = (got ++ pendingBytes s ++ packet).drop img.bytes.length ∧
      Leaves flash img i (got ++ pendingBytes s ++ packet).length s s' := by
  obtain ⟨s1, hfeed, hload1, hempty, hsame1⟩ := h.feedNextImg hlt
  obtain ⟨s2, hpacket, hinit, hload2, hpending, hsame2⟩ :=
    hload1.feed hne hlen (Nat.le_of_lt hlt)
  refine ⟨s2, ?_, hinit, hload2, ?_, ?_⟩
  · rw [programPacket, hfeed]
    dsimp only [feedPacket]
    rw [hpacket]
  · rw [hpending, hempty]
    split
    · rfl
    · rename_i hshort
      exact (drop_eq_nil_of_le (Nat.le_of_not_lt hshort)).symm
  · refine (hsame1.mono ?_).trans hsame2
    rw [@length_append _ (got ++ pendingBytes s)]
    exact Nat.le_add_right _ _

end Load

/-! ### The end of an image -/

/-- The operations of image `i` write its body first, and then its manifest. -/
def ManifestLast (board : Board) (trace : List Event) (img : FileImage board) (i : Nat) : Prop :=
  ∃ before after, imageOps trace i =
      before ++ manifestWrites (board.newOffset img.kind) img.bytes ++ after ∧
    (∀ op ∈ before, BodyOp (board.newOffset img.kind) op) ∧
    ∀ op ∈ after, op = clearOld board img.kind

/-- The image is in its slot, with erased flash up to the end of the last sector; the manifest was
    written last. -/
structure Loaded (board : Board) (flash : Memory) (trace : List Event) (img : FileImage board)
    (i : Nat) : Prop where
  holds : ∀ a < img.bytes.length,
    flashAfter flash trace (board.newOffset img.kind + a) = img.bytes.getD a 0xFF
  erased : ∀ a, board.newOffset img.kind + img.bytes.length ≤ a →
    a < board.newOffset img.kind + nextSector img.bytes.length * SECTOR →
    ¬ board.layout.InSlot img.kind (board.activeSlot img.kind) a → flashAfter flash trace a = 0xFF
  manifestLast : ManifestLast board trace img i

theorem downloadFinish_verified (hsize : u32 size = s.imageLen) (hskip : s.skipBootOTAFg = false)
    (hverify : board.otaStorageVerifyChecksum s.hdr (s.manifest s.index) s.slotIdx
      (flashAfter flash s.trace) = true) (hsigned : s.hdr.signed = true) :
    downloadFinish board flash s size = nextImage
      { s with trace := s.trace ++ (updateOps board s).map (.flash s.index) } false := by
  rw [downloadFinish, if_neg (by simp [hsize]), if_neg (by simp [hskip]),
    if_neg (by simp [hverify])]
  dsimp only
  rw [if_pos (Board.otaStorageUpdateManifest_signed hsigned), foldl_emitOp]
  rfl

section Finish

theorem Loading.size_eq (h : Loading board flash hdrs s img i got) (hinit : s.isDnldInit = true)
    (hdone : img.bytes.length ≤ got.length) : u32 (s.size + MANIFEST_SIZE) = s.imageLen := by
  have hrecv := h.recv hinit
  have hbody := img.has_body
  have hmax := img.hasSlot.imgLen_lt
  have hsize : s.size + MANIFEST_SIZE = (img.bytes.length : Int) := by
    rw [hrecv.size, h.hdr, img.imgLen]
    omega
  rw [hsize, hrecv.progress.imageLen, h.hdr, img.imgLen]
  rw [img.imgLen] at hmax
  exact u32_natCast (Nat.lt_trans hmax (by decide))

theorem manifestWrites_congr (h : bytes.take MANIFEST_SIZE = bytes'.take MANIFEST_SIZE) :
    manifestWrites off bytes = manifestWrites off bytes' := by
  rw [manifestWrites, manifestWrites, h]

variable (h : Loading board flash hdrs s img i got)
include h

theorem Loading.loaded (hinit : s.isDnldInit = true)
    (hskip : s.skipBootOTAFg = false) (htake : got.take img.bytes.length = img.bytes)
    (hdone : img.bytes.length ≤ got.length) (readBytes : Int) :
    Loaded board flash (s.trace ++ (updateOps board s).map (.flash s.index) ++
      [.finished s.index readBytes false]) img i := by
  have hrecv := h.recv hinit
  have hbody : MANIFEST_SIZE < got.length := Nat.lt_of_lt_of_le img.has_body hdone
  have hkind := h.hasSlot.imgID
  have hfilled := hrecv.filled hskip img.kind hkind
  rw [h.hdr, img.imgLen] at hfilled
  have hmanifest : manifestWrites (board.newOffset img.kind) got =
      manifestWrites (board.newOffset img.kind) img.bytes := by
    apply manifestWrites_congr
    conv_rhs => rw [← htake, take_take, Nat.min_eq_left (Nat.le_of_lt img.has_body)]
  have hget : ∀ a < img.bytes.length, got.getD a 0xFF = img.bytes.getD a 0xFF := by
    intro a ha
    conv_rhs => rw [← htake]
    simp only [getD_eq_getElem?_getD, List.getElem?_take, if_pos ha]
  have hflash : flashAfter flash (s.trace ++ (updateOps board s).map (.flash s.index) ++
      [.finished s.index readBytes false]) =
      replay SECTOR (if board.switchByValidHeader then [clearOld board img.kind] else [])
        (replay SECTOR (manifestWrites (board.newOffset img.kind) got)
          (flashAfter flash s.trace)) := by
    rw [flashAfter_append, flashOps_finished, replay_nil, flashAfter_flash,
      hrecv.updateOps_eq hkind hbody h.signed, replay_append]
  -- clearing the old pattern only changes the active slot
  have hclear : ∀ (mem : Memory) (a : Nat),
      ¬ board.layout.InSlot img.kind (board.activeSlot img.kind) a →
      replay SECTOR (if board.switchByValidHeader then [clearOld board img.kind] else []) mem a =
        mem a := by
    intro mem a hout
    split
    · exact replay_of_not_touches (fun op hop htouch =>
        hout (clear_inSlot op hop a htouch)) mem
    · rfl
  constructor
  · intro a ha
    have hout := board.layout.not_inSlot_of_ne (new_pair_ne board _ img.kind) (img.inSlot ha)
    rw [hflash, hclear _ _ hout, hfilled.written hbody hdone ha, hget a ha]
  · intro a hlo hhi hout
    rw [hflash, hclear _ _ hout, replay_of_not_touches]
    · obtain ⟨k, rfl⟩ := Nat.exists_eq_add_of_le (Nat.le_of_add_right_le hlo)
      apply hfilled.erased k
      · right
        rw [Nat.min_eq_right hdone]
        exact Nat.le_of_add_le_add_left hlo
      · exact Nat.lt_of_lt_of_le (Nat.lt_of_add_lt_add_left hhi)
          (Nat.mul_le_mul_right _ (nextSector_mono hdone))
    · intro op hop htouch
      have hend := (manifestWrites_touches hop htouch).2
      have hlong := img.has_body
      omega
  · refine ⟨imageOps s.trace i,
      if board.switchByValidHeader then [clearOld board img.kind] else [], ?_, h.bodyOps, ?_⟩
    · rw [imageOps_append, imageOps_append, imageOps_finished, append_nil, h.index,
        imageOps_map_flash, hrecv.updateOps_eq hkind hbody h.signed, hmanifest, append_assoc]
    · intro op hop
      split at hop
      · exact mem_singleton.mp hop
      · exact absurd hop not_mem_nil

variable (hinit : s.isDnldInit = true) (htake : got.take img.bytes.length = img.bytes)
    (hdone : img.bytes.length ≤ got.length)
include hinit htake hdone

theorem Loading.finishOps :
    ∃ (ops : List FlashOp) (skipped : Bool), downloadFinish board flash s (s.size + MANIFEST_SIZE) =
        nextImage { s with trace := s.trace ++ ops.map (.flash s.index) } skipped ∧
      (∀ op ∈ ops, ∀ a, op.Touches SECTOR a → Reached img got.length a) ∧
      (¬ SkippedBootloader board img.hdr → ∀ readBytes, Loaded board flash (s.trace ++
        ops.map (.flash s.index) ++ [.finished s.index readBytes skipped]) img i) := by
  have hrecv := h.recv hinit
  have hsize := h.size_eq hinit hdone
  have hbody : MANIFEST_SIZE < got.length := Nat.lt_of_lt_of_le img.has_body hdone
  rcases Bool.eq_false_or_eq_true s.skipBootOTAFg with hskip | hskip
  · refine ⟨[], true, ?_, fun op hop => absurd hop not_mem_nil, fun hnot => ?_⟩
    · rw [downloadFinish, if_neg (by simp [hsize]), if_pos hskip, map_nil, append_nil]
    · have hskipped := hrecv.progress.skip_iff.mp hskip
      rw [h.hdr] at hskipped
      exact absurd hskipped hnot
  have hcomplete : s.hdr.imgLen ≤ got.length := by
    rw [h.hdr, img.imgLen]
    exact hdone
  have hverify := hrecv.verify_eq hskip h.hasSlot hbody hcomplete
  rw [h.hdr, img.imgLen, htake, img.checksum, decide_eq_true rfl, ← h.hdr] at hverify
  refine ⟨updateOps board s, false, downloadFinish_verified hsize hskip hverify h.signed, ?_,
    fun _ => h.loaded hinit hskip htake hdone⟩
  intro op hop a htouch
  have hnot : ¬ SkippedBootloader board img.hdr := by
    intro hskipped
    rw [← h.hdr] at hskipped
    exact Bool.false_ne_true (hskip.symm.trans (hrecv.progress.skip_iff.mpr hskipped))
  refine ⟨hnot, ?_⟩
  rw [hrecv.updateOps_eq h.hasSlot.imgID hbody h.signed, mem_append] at hop
  rcases hop with hmanifest | hclear
  · obtain ⟨hlo, hhi⟩ := manifestWrites_touches hmanifest htouch
    have hnext := @lt_nextSector got.length MANIFEST_SIZE hbody (Nat.lt_add_right 24 hbody)
    exact .inl ⟨hlo, Nat.lt_trans hhi (Nat.add_lt_add_left hnext _)⟩
  right
  split at hclear
  · exact clear_inSlot op hclear a htouch
  · exact absurd hclear not_mem_nil

/-- **The end of an image.** A complete image is verified and finished, and the loop goes on with
    the next one. -/
theorem Loading.finish :
    ∃ s' ret, downloadFinish board flash s (s.size + MANIFEST_SIZE) = (s', ret) ∧
      pendingBytes s' = pendingBytes s ∧
      (¬ SkippedBootloader board img.hdr → Loaded board flash s'.trace img i) ∧
      Leaves flash img i got.length s s' ∧
      ((ret = .finish ∧ hdrs.length ≤ i + 1) ∨
        (ret = .ok ∧ i + 1 < hdrs.length ∧ ∀ next : FileImage board,
          hdrs.getD (i + 1) default = next.hdr →
          Loading board flash hdrs s' next (i + 1) [])) := by
  obtain ⟨ops, skipped, hfinish, hreached, hloaded⟩ := h.finishOps hinit htake hdone
  have hnext := nextImage_step
    { s with trace := s.trace ++ ops.map (.flash s.index) } skipped
  rw [← hfinish] at hnext
  generalize downloadFinish board flash s (s.size + MANIFEST_SIZE) = r at hnext
  obtain ⟨s', ret⟩ := r
  have htrace := hnext.trace
  refine ⟨s', ret, rfl, ?_, ?_, ?_, ?_⟩
  · have hsame : s'.nextImg = s.nextImg := hnext.nextImg
    rw [pendingBytes, pendingBytes, hsame]
  · intro hnot
    rw [htrace]
    exact hloaded hnot _
  · constructor
    · exact hnext.fileImgHdr
    · rw [htrace, flashAfter_append, flashAfter_flash]
      exact sameOutside_replay hreached
    · intro j hj
      rw [htrace, imageOps_append, imageOps_append, h.index, imageOps_map_other _ (Ne.symm hj),
        imageOps_finished, append_nil, append_nil]
  · have hhdrs : s'.fileImgHdr = hdrs := hnext.fileImgHdr.trans h.fileImgHdr
    rcases hnext.next with ⟨hret, hmore, hindex, hinit'⟩ | ⟨hret, hlast, _⟩
    · dsimp only at hmore hindex
      rw [h.fileImgHdr, h.index] at hmore
      rw [h.index] at hindex
      refine .inr ⟨hret, hmore, fun next hcurrent => ?_⟩
      -- nothing of the later images has been seen yet
      have hlater : ∀ j, i < j → received s'.trace j = [] ∧
          (s'.manifest j).length = MANIFEST_SIZE ∧ imageOps s'.trace j = [] := by
        intro j hj
        obtain ⟨hrecv, hmanifest, hnone⟩ := h.later j hj
        have hother : s.index ≠ j := h.index.trans_ne (Nat.ne_of_lt hj)
        rw [htrace]
        refine ⟨?_, ?_, ?_⟩
        · rw [received_append, received_append, hrecv, received_flash]
          rfl
        · rw [hnext.manifest]
          exact hmanifest
        · rw [imageOps_append, imageOps_append, hnone, imageOps_map_other _ hother]
          rfl
      obtain ⟨hrecv, hmanifest, hnone⟩ := hlater (i + 1) (Nat.lt_succ_self i)
      constructor
      case fileImgHdr => exact hhdrs
      case index => exact hindex
      case isGetOTAHdr => exact hnext.isGetOTAHdr.trans h.isGetOTAHdr
      case current => exact hcurrent
      case receiving =>
        apply receiving_initDownload hinit'
        · rw [hindex]
          exact hmanifest
        · rw [hindex]
          exact hrecv
      case bodyOps =>
        rw [hnone]
        exact forall_mem_nil _
      case later => exact fun j hj => hlater j (Nat.lt_of_succ_lt hj)
    · left
      rw [h.fileImgHdr, h.index] at hlast
      exact ⟨hret, hlast⟩

end Finish

end AmebaRtos.Ota
