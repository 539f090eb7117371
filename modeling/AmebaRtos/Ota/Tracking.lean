import AmebaRtos.Ota.Receiving

/-!
# Runs of well-placed packets

The state of a run as long as every packet is one that the download code can take.
`Tracked` is the invariant that the results about the flash rest on: it says for
every image what has been received and what its slot holds, and its lemmas say which
flash operations each step issues.
-/

namespace AmebaRtos.Ota

open Lib List

/-- A packet that ends inside the manifest, or starts inside the image, and the image is skipped or
    the sector erased for the packet lies in its slot. -/
def PacketSafe (board : Board) : Event → Prop
  | .packet _ hdr readBytes bytes =>
    readBytes + bytes.length ≤ MANIFEST_SIZE ∨
    (readBytes ≤ hdr.imgLen ∧ (SkippedBootloader board hdr ∨
        ∃ kind, hdr.imgID = imgIDOf kind ∧ MANIFEST_SIZE ≤ hdr.imgLen ∧
          readBytes + bytes.length + 23 < board.newSize kind))
  | .flash .. => True
  | .finished .. => True

instance (board : Board) (e : Event) : Decidable (PacketSafe board e) :=
  match e with
  | .packet _ hdr readBytes bytes =>
    have hslot : (∃ kind, hdr.imgID = imgIDOf kind ∧ MANIFEST_SIZE ≤ hdr.imgLen ∧
        readBytes + bytes.length + 23 < board.newSize kind) ↔
        (hdr.imgID = imgIDOf .boot ∧ MANIFEST_SIZE ≤ hdr.imgLen ∧
          readBytes + bytes.length + 23 < board.newSize .boot) ∨
        (hdr.imgID = imgIDOf .app ∧ MANIFEST_SIZE ≤ hdr.imgLen ∧
          readBytes + bytes.length + 23 < board.newSize .app) := by
      constructor
      · rintro ⟨_ | _, h⟩
        · exact .inl h
        · exact .inr h
      · rintro (h | h)
        · exact ⟨_, h⟩
        · exact ⟨_, h⟩
    decidable_of_iff (readBytes + bytes.length ≤ MANIFEST_SIZE ∨
      (readBytes ≤ hdr.imgLen ∧ (SkippedBootloader board hdr ∨
        (hdr.imgID = imgIDOf .boot ∧ MANIFEST_SIZE ≤ hdr.imgLen ∧
          readBytes + bytes.length + 23 < board.newSize .boot) ∨
        (hdr.imgID = imgIDOf .app ∧ MANIFEST_SIZE ≤ hdr.imgLen ∧
          readBytes + bytes.length + 23 < board.newSize .app)))) (by rw [← hslot]; rfl)
  | .flash .. => isTrue trivial
  | .finished .. => isTrue trivial

/-- No image is announced as a bare manifest. -/
def NoBareManifest (s : OtaState) : Prop := ∀ hdr ∈ s.fileImgHdr, hdr.imgLen ≠ MANIFEST_SIZE
deriving Decidable

inductive Current (board : Board) (flash : Memory) (s : OtaState) : Prop where
  | skipped (n : Nat) (progress : Progress board s n) (skip : s.skipBootOTAFg = true)
  | receiving (bytes : List UInt8) (h : Receiving board flash s bytes)
      (skip : s.skipBootOTAFg = false)
      (fits : MANIFEST_SIZE < bytes.length →
        ∃ kind, HasSlot s.hdr kind ∧ bytes.length + 23 < board.newSize kind)

structure Tracked (board : Board) (flash : Memory) (s : OtaState) : Prop where
  safe : ∀ e ∈ s.trace, PacketSafe board e
  start : s.isGetOTAHdr = false → s.trace = [] ∧ s.isDnldInit = false ∧ s.index = 0
  layout : s.isGetOTAHdr = true → board.otaStorageCheckLayout s.fileImgHdr = true
  signed : ∀ hdr ∈ s.fileImgHdr, hdr.signed = true
  index : s.isGetOTAHdr = true → s.index < s.fileImgHdr.length
  later : ∀ j, (if s.isDnldInit then s.index < j else s.index ≤ j) →
    received s.trace j = [] ∧ (s.manifest j).length = MANIFEST_SIZE
  current : s.isDnldInit = true → Current board flash s

def BodyOps (board : Board) (flash : Memory) (s : OtaState) (ops : List FlashOp) : Prop :=
  ops = [] ∨ ∃ kind bytes packet, s.hdr.imgID = imgIDOf kind ∧
    Filled (flashAfter flash s.trace) (board.newOffset kind) s.hdr.imgLen bytes ∧
    packet ≠ [] ∧ packet.length ≤ OTA_BUF_SIZE ∧
    MANIFEST_SIZE < bytes.length + packet.length ∧
    bytes.length + packet.length + 23 < board.newSize kind ∧
    ops = fillErase (board.newOffset kind) bytes.length (bytes.length + packet.length) ++
      fillWrite (board.newOffset kind) s.hdr.imgLen bytes packet

def OpsInSlot (board : Board) (kind : ImgKind) (i : Slot) (ops : List FlashOp) : Prop :=
  ∀ op ∈ ops, ∀ a, op.Touches SECTOR a → board.layout.InSlot kind i a

theorem fillErase_inSlot (hfits : n' + 23 < board.newSize kind) :
    OpsInSlot board kind (board.newSlot kind) (fillErase (board.newOffset kind) n n') := by
  intro op hop a htouch
  obtain rfl := mem_fillErase hop
  have hoffset := board.newOffset_aligned kind
  have hsize : board.newSize kind % SECTOR = 0 := board.layout.slotSize_aligned kind _
  change board.newOffset kind ≤ a ∧ a < board.newOffset kind + board.newSize kind
  simp only [FlashOp.Touches, SECTOR] at htouch hoffset hsize ⊢
  omega

theorem fillWrite_inSlot (hfits : bytes.length + packet.length + 23 < board.newSize kind) :
    OpsInSlot board kind (board.newSlot kind)
      (fillWrite (board.newOffset kind) imgLen bytes packet) := by
  intro op hop a htouch
  obtain rfl := mem_fillWrite hop
  change board.newOffset kind ≤ a ∧ a < board.newOffset kind + board.newSize kind
  simp only [FlashOp.Touches, length_drop, length_take, length_append] at htouch
  omega

theorem fill_inSlot (hfits : bytes.length + packet.length + 23 < board.newSize kind) :
    OpsInSlot board kind (board.newSlot kind)
      (fillErase (board.newOffset kind) bytes.length (bytes.length + packet.length) ++
        fillWrite (board.newOffset kind) imgLen bytes packet) :=
  forall_mem_append.mpr ⟨fillErase_inSlot hfits, fillWrite_inSlot hfits⟩

variable {ops : List FlashOp}

section Steps

section

variable (h : Tracked board flash s)
include h

theorem Tracked.imgLen_lt (hgot : s.isGetOTAHdr = true)
    (hkind : s.hdr.imgID = imgIDOf kind) : s.hdr.imgLen < 2 ^ 28 :=
  Board.imgLen_lt_of_checkLayout (h.layout hgot) (hdr_mem (h.index hgot)) hkind

theorem Tracked.ready : Current board flash (initDownload board s) := by
  cases hinit : s.isDnldInit with
  | true =>
    rw [initDownload, if_pos hinit]
    exact h.current hinit
  | false =>
    obtain ⟨hreceived, hmanifest⟩ := h.later s.index (by simp [hinit])
    have hnew : Receiving board flash (initDownload board s) [] :=
      receiving_initDownload hinit hmanifest hreceived
    cases hskip : (initDownload board s).skipBootOTAFg with
    | true => exact .skipped 0 hnew.progress hskip
    | false =>
      refine .receiving [] hnew hskip fun hlt => ?_
      exact absurd hlt (Nat.not_lt_zero _)

theorem Tracked.later_packet (hsame : SameImage s s') (hinit : s'.isDnldInit = true)
    (htrace : s'.trace = s.trace ++ .packet s.index s.hdr n packet :: ops.map (.flash s.index))
    (hmanifest : ∀ j, j ≠ s.index → s'.manifest j = s.manifest j) :
    ∀ j, (if s'.isDnldInit then s'.index < j else s'.index ≤ j) →
      received s'.trace j = [] ∧ (s'.manifest j).length = MANIFEST_SIZE := by
  intro j hj
  rw [if_pos hinit, hsame.index] at hj
  have hlater := h.later j (by split <;> omega)
  rw [htrace, ← singleton_append, received_append, received_append, hlater.1,
    hmanifest j (Nat.ne_of_gt hj)]
  simp [Nat.ne_of_lt hj, hlater.2]

theorem Tracked.of_packet (hgot : s.isGetOTAHdr = true) (hsame : SameImage s s') {n : Int}
    (htrace : s'.trace = s.trace ++ .packet s.index s.hdr n packet :: ops.map (.flash s.index))
    (hsafe : PacketSafe board (.packet s.index s.hdr n packet))
    (hmanifest : ∀ j, j ≠ s.index → s'.manifest j = s.manifest j) (hinit : s'.isDnldInit = true)
    (hcurrent : Current board flash s') : Tracked board flash s' := by
  have hgot' : s'.isGetOTAHdr = true := hsame.isGetOTAHdr.trans hgot
  constructor
  case safe =>
    intro e he
    rw [htrace] at he
    rcases mem_append.mp he with hold | hnew
    · exact h.safe e hold
    rcases mem_cons.mp hnew with rfl | hop
    · exact hsafe
    · obtain ⟨op, _, rfl⟩ := mem_map.mp hop
      trivial
  case start =>
    intro hnot
    rw [hgot'] at hnot
    cases hnot
  case layout =>
    intro _
    rw [hsame.fileImgHdr]
    exact h.layout hgot
  case signed =>
    rw [hsame.fileImgHdr]
    exact h.signed
  case index =>
    intro _
    rw [hsame.index, hsame.fileImgHdr]
    exact h.index hgot
  case later => exact h.later_packet hsame hinit htrace hmanifest
  case current => exact fun _ => hcurrent

end

theorem skipped_packet {n : Nat} (hready : Ready board s n)
    (hskip : (initDownload board s).skipBootOTAFg = true) (hlen : s.hdr.imgLen < 2 ^ 28)
    (hpacket : packet.length ≤ OTA_BUF_SIZE)
    (hle : MANIFEST_SIZE < n + packet.length → n ≤ s.hdr.imgLen) :
    ∃ s', downloadPacketProcess board s packet = .ok s' ∧ s'.skipBootOTAFg = true ∧
      s'.trace = s.trace ++ [.packet s.index s.hdr n packet] ∧
      ∀ j, j ≠ s.index → s'.manifest j = s.manifest j := by
  have hprog := progress_initDownload hready
  have hskip' : (cached board s n packet).skipBootOTAFg = true := hskip
  have htrace : (cached board s n packet).trace =
      s.trace ++ [.packet s.index s.hdr n packet] := by
    simp [cached, arrive, hprog.readBytes]
  have hmanifest : ∀ j, j ≠ s.index → (cached board s n packet).manifest j = s.manifest j := by
    intro j hj
    simp [cached, setManifest, hj]
  rw [downloadPacketProcess_eq hready]
  split
  · exact ⟨_, rfl, hskip', htrace, hmanifest⟩
  rename_i hbody
  have hlong : MANIFEST_SIZE < n + packet.length := by
    rw [drop_eq_nil_iff] at hbody
    omega
  have hremain := cached_remainBytes hready packet
  rw [remainBytes_of_short (by omega)] at hremain
  rcases stashNextImg_frame (cached board s n packet) packet (packet.drop (MANIFEST_SIZE - n)) with
    ⟨_, _, _, _, _, hout⟩ | ⟨s1, len, hstash, _⟩
  · -- the leftover starts inside the packet
    rw [length_drop] at hout
    omega
  rw [hstash]
  rcases stashNextImg_ok hstash with ⟨_, _, rfl⟩ | ⟨_, _, _, rfl⟩
  · exact ⟨_, if_pos hskip', hskip', htrace, hmanifest⟩
  · exact ⟨_, if_pos hskip', hskip', htrace, hmanifest⟩

section

variable {i n : Nat} (h : PacketSafe board (.packet i hdr n packet))
    (hbody : MANIFEST_SIZE < n + packet.length)
include h hbody

theorem PacketSafe.start_le : n ≤ hdr.imgLen := by
  rcases h with hshort | ⟨hle, _⟩
  · omega
  · exact Int.ofNat_le.mp hle

theorem PacketSafe.fits (hskip : ¬ SkippedBootloader board hdr) :
    ∃ kind, hdr.imgID = imgIDOf kind ∧ MANIFEST_SIZE ≤ hdr.imgLen ∧
      n + packet.length + 23 < board.newSize kind := by
  rcases h with hshort | ⟨_, hskipped | ⟨kind, hkind, hmin, hfits⟩⟩
  · omega
  · exact absurd hskipped hskip
  · exact ⟨kind, hkind, hmin, by omega⟩

end

/-- **A safe packet.** The call returns, the run stays tracked, and the flash operations are none or
    fill the slot. -/
theorem Tracked.packet (h : Tracked board flash s) (hgot : s.isGetOTAHdr = true)
    {packet : List UInt8} (hne : packet ≠ []) (hlen : packet.length ≤ OTA_BUF_SIZE)
    (hsafe : PacketSafe board (.packet s.index s.hdr (initDownload board s).readBytes packet)) :
    ∃ s' ops, downloadPacketProcess board s packet = .ok s' ∧ Tracked board flash s' ∧
      SameImage s s' ∧ s'.isDnldInit = true ∧
      s'.trace = s.trace ++ .packet s.index s.hdr (initDownload board s).readBytes packet ::
        ops.map (.flash s.index) ∧
      BodyOps board flash s ops := by
  cases h.ready with
  | skipped n hprog hskip =>
    have hready := ready_of_progress hprog
    have hskipped := hprog.skip_iff.mp hskip
    rw [initDownload_hdr] at hskipped
    rw [hprog.readBytes] at hsafe ⊢
    have hboot : s.hdr.imgID = imgIDOf .boot := hskipped.1
    obtain ⟨s', hok, hskip', htrace, hmanifest⟩ := skipped_packet hready hskip
      (h.imgLen_lt hgot hboot) hlen hsafe.start_le
    obtain ⟨hprog', hsame⟩ := downloadPacketProcess_progress hready hok
    have htrace : s'.trace = s.trace ++ .packet s.index s.hdr n packet ::
      List.map (.flash s.index) [] := htrace
    refine ⟨s', [], hok, ?_, hsame, hprog'.isDnldInit, htrace, .inl rfl⟩
    exact h.of_packet hgot hsame htrace hsafe hmanifest hprog'.isDnldInit (.skipped _ hprog' hskip')
  | receiving bytes hrecv hskip hfits =>
    have hnot : ¬ SkippedBootloader board s.hdr := by
      rw [← initDownload_hdr board, ← hrecv.progress.skip_iff, hskip]
      exact Bool.false_ne_true
    rw [hrecv.progress.readBytes] at hsafe ⊢
    obtain ⟨s', hok, hstep⟩ := hrecv.step hne hlen fun hbody => by
      obtain ⟨kind, hkind, hmin, _⟩ := hsafe.fits hbody hnot
      exact ⟨⟨kind, hkind, hmin, h.imgLen_lt hgot hkind⟩, hsafe.start_le hbody⟩
    have hprog' := hstep.receiving.progress
    have hskip' : s'.skipBootOTAFg = false := by
      rw [Bool.eq_false_iff, Ne, hprog'.skip_iff, hstep.same.hdr]
      exact hnot
    refine ⟨s', _, hok, ?_, hstep.same, hprog'.isDnldInit, hstep.trace, ?_⟩
    · refine h.of_packet hgot hstep.same hstep.trace hsafe hstep.manifest hprog'.isDnldInit ?_
      refine .receiving _ hstep.receiving hskip' fun hbody => ?_
      rw [length_append] at hbody ⊢
      obtain ⟨kind, hkind, hmin, hfit⟩ := hsafe.fits hbody hnot
      rw [hstep.same.hdr]
      exact ⟨kind, ⟨hkind, hmin, h.imgLen_lt hgot hkind⟩, hfit⟩
    · rw [packetOps, hskip']
      by_cases hbody : MANIFEST_SIZE < bytes.length + packet.length
      · obtain ⟨kind, hkind, _, hfit⟩ := hsafe.fits hbody hnot
        have hfilled := hrecv.filled hskip kind (by rw [initDownload_hdr]; exact hkind)
        rw [initDownload_trace, initDownload_hdr] at hfilled
        rw [if_neg (by simpa using hbody), hkind, imgKind?_imgIDOf]
        exact .inr ⟨kind, bytes, packet, hkind, hfilled, hne, hlen, hbody, hfit, rfl⟩
      · rw [if_pos (.inr (Nat.le_of_not_lt hbody))]
        exact .inl rfl

/-! ### The end of an image -/

structure BodyDone (board : Board) (flash : Memory) (s : OtaState) (kind : ImgKind)
    (bytes : List UInt8) : Prop where
  receiving : Receiving board flash s bytes
  skip : s.skipBootOTAFg = false
  slot : HasSlot s.hdr kind
  body : MANIFEST_SIZE < bytes.length
  complete : s.hdr.imgLen ≤ bytes.length
  fits : bytes.length + 23 < board.newSize kind

theorem Tracked.bodyDone (h : Tracked board flash s) (hinit : s.isDnldInit = true)
    (hskip : s.skipBootOTAFg = false) (hremain : s.remainBytes ≤ 0)
    (hlen : s.hdr.imgLen ≠ MANIFEST_SIZE) (hsize : u32 (s.size + MANIFEST_SIZE) = s.imageLen) :
    ∃ kind bytes, BodyDone board flash s kind bytes := by
  cases h.current hinit with
  | skipped n hprog hskipped =>
    rw [hskip] at hskipped
    cases hskipped
  | receiving bytes hrecv _ hfits =>
    by_cases hbody : MANIFEST_SIZE < bytes.length
    · obtain ⟨kind, hslot, hfit⟩ := hfits hbody
      refine ⟨kind, bytes, hrecv, hskip, hslot, hbody, ?_, hfit⟩
      have hcount := hrecv.progress.remainBytes
      rw [remainBytes_of_short (Nat.lt_trans hslot.imgLen_lt (by decide))] at hcount
      omega
    -- only an image announced as a bare manifest gets here
    exfalso
    have hzero : (min bytes.length s.hdr.imgLen - MANIFEST_SIZE : Nat) = 0 := by omega
    rw [hrecv.size, hzero, hrecv.progress.imageLen] at hsize
    exact hlen hsize.symm

theorem manifestWrites_touches (hop : op ∈ manifestWrites off bytes)
    (htouch : op.Touches SECTOR a) : off ≤ a ∧ a < off + MANIFEST_SIZE := by
  simp only [manifestWrites, mem_cons, not_mem_nil, or_false] at hop
  rcases hop with rfl | rfl
  · simp only [FlashOp.Touches, length_drop, length_take] at htouch
    omega
  · simp only [FlashOp.Touches, length_take] at htouch
    omega

theorem BodyDone.manifest_inSlot (h : BodyDone board flash s kind bytes) :
    OpsInSlot board kind (board.newSlot kind) (manifestWrites (board.newOffset kind) bytes) := by
  intro op hop a htouch
  obtain ⟨hlo, hhi⟩ := manifestWrites_touches hop htouch
  have hbody := h.body
  have hfits := h.fits
  have hend : a < board.newOffset kind + board.newSize kind := by omega
  exact ⟨hlo, hend⟩

theorem clear_inSlot : OpsInSlot board kind (board.activeSlot kind) [clearOld board kind] := by
  intro op hop a htouch
  rw [mem_singleton] at hop
  subst hop
  have hlt := board.layout.start_lt_stop kind (board.activeSlot kind)
  have haligned := board.layout.slotSize_aligned kind (board.activeSlot kind)
  have hsize : 0 < board.layout.slotSize kind (board.activeSlot kind) := by
    unfold FlashLayout.slotSize
    omega
  simp only [clearOld, FlashOp.Touches, length_replicate] at htouch
  exact ⟨htouch.1, by omega⟩

theorem new_ne_active (board : Board) : board.newSlot kind ≠ board.activeSlot kind := by
  rw [board.activeSlot_eq]
  exact fun heq => Slot.other_ne _ heq.symm

theorem new_pair_ne (board : Board) (kind kind' : ImgKind) :
    (kind, board.newSlot kind) ≠ (kind', board.activeSlot kind') := by
  intro heq
  obtain ⟨rfl, hslot⟩ := Prod.mk.inj heq
  exact new_ne_active board hslot

section

variable (h : BodyDone board flash s kind bytes)
include h

theorem BodyDone.updateOps_eq (hsigned : s.hdr.signed = true) :
    updateOps board s = manifestWrites (board.newOffset kind) bytes ++
      if board.switchByValidHeader then [clearOld board kind] else [] :=
  h.receiving.updateOps_eq h.slot.imgID h.body hsigned

theorem BodyDone.filled :
    Filled (flashAfter flash s.trace) (board.newOffset kind) s.hdr.imgLen bytes :=
  h.receiving.filled h.skip kind h.slot.imgID

theorem BodyDone.verify_eq :
    board.otaStorageVerifyChecksum s.hdr (s.manifest s.index) s.slotIdx (flashAfter flash s.trace) =
      decide (((bytes.take s.hdr.imgLen).map UInt8.toNat).sum % 2 ^ 32 = s.hdr.checksum) :=
  h.receiving.verify_eq h.skip h.slot h.body h.complete

end

theorem Tracked.next (h : Tracked board flash s) (hgot : s.isGetOTAHdr = true)
    (hinit : s.isDnldInit = true)
    (hnext : NextStep { s with trace := s.trace ++ ops.map (.flash s.index) } s' skipped .ok) :
    Tracked board flash s' := by
  have hgot' : s'.isGetOTAHdr = true := hnext.isGetOTAHdr.trans hgot
  rcases hnext.next with ⟨_, hmore, hindex, hinit'⟩ | ⟨hret, _⟩
  · constructor
    case safe =>
      intro e he
      rw [hnext.trace] at he
      simp only [mem_append, mem_map, mem_singleton] at he
      rcases he with (hold | ⟨op, _, rfl⟩) | rfl
      · exact h.safe e hold
      · trivial
      · trivial
    case start =>
      intro hnot
      rw [hgot'] at hnot
      cases hnot
    case layout =>
      intro _
      rw [hnext.fileImgHdr]
      exact h.layout hgot
    case signed =>
      rw [hnext.fileImgHdr]
      exact h.signed
    case index =>
      intro _
      rw [hindex, hnext.fileImgHdr]
      exact hmore
    case later =>
      intro j hj
      rw [if_neg (by simp [hinit']), hindex] at hj
      have hlater := h.later j (by rw [if_pos hinit]; exact hj)
      rw [hnext.trace, hnext.manifest, received_append, received_append, hlater.1]
      simp [hlater.2]
    case current =>
      intro hnot
      rw [hinit'] at hnot
      cases hnot
  · cases hret

/-! ### The other steps -/

theorem Tracked.header (h : Tracked board flash s) (hgot : s.isGetOTAHdr = false)
    (hparsed : Parsed board s s' bytes r) : Tracked board flash s' := by
  obtain ⟨buf, hdrNum, hhdrs⟩ := hparsed.hdrs
  obtain ⟨hne, _, hsigned, _⟩ := otaCoreGetTargetHeader_eq_some hhdrs
  obtain ⟨_, hinit, hindex⟩ := h.start hgot
  have hinit' : s'.isDnldInit = false := hparsed.isDnldInit.trans hinit
  constructor
  case safe =>
    rw [hparsed.trace]
    exact h.safe
  case start =>
    intro hnot
    rw [hparsed.isGetOTAHdr] at hnot
    cases hnot
  case layout => exact fun _ => hparsed.layout
  case signed => exact hsigned
  case index =>
    intro _
    rw [hparsed.index, hindex]
    exact length_pos_iff.mpr hne
  case later =>
    intro j hj
    rw [hparsed.trace, hparsed.manifest]
    rw [hparsed.isDnldInit, hparsed.index] at hj
    exact h.later j hj
  case current =>
    intro hnot
    rw [hinit'] at hnot
    cases hnot

theorem Tracked.dropNextImg (h : Tracked board flash s) :
    Tracked board flash { s with nextImg := none } := by
  refine ⟨h.safe, h.start, h.layout, h.signed, h.index, h.later, fun hinit => ?_⟩
  cases h.current hinit with
  | skipped n hprog hskip => exact .skipped n hprog.dropNextImg hskip
  | receiving bytes hrecv hskip hfits => exact .receiving bytes hrecv.dropNextImg hskip hfits

theorem tracked_initial : Tracked board flash (initialState nextImg) := by
  constructor
  case safe => exact fun e he => absurd he not_mem_nil
  case start => exact fun _ => ⟨rfl, rfl, rfl⟩
  case layout => exact fun hgot => by cases hgot
  case signed => exact fun hdr hhdr => absurd hhdr not_mem_nil
  case index => exact fun hgot => by cases hgot
  case later =>
    intro j _
    exact ⟨rfl, by simp [initialState]⟩
  case current => exact fun hinit => by cases hinit

end Steps

end AmebaRtos.Ota
