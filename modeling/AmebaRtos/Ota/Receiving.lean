import Mathlib.Data.List.GetD
import AmebaRtos.Ota.Loop

/-!
# Receiving an image into its slot

The functional specification of `download_packet_process` for an image that belongs to a slot: as
long as the erased sectors stay inside it, every call returns, and the slot then holds exactly the
body bytes received so far on top of erased flash, with the manifest held back in RAM. `Receiving`
is the invariant.
-/

namespace AmebaRtos.Ota

open Lib List

/-! ### Traces -/

variable (trace : List Event) (i : Nat)

/-- The bytes handed to `download_packet_process` for image `i`. -/
def received : List UInt8 :=
  trace.flatMap fun
    | .packet j _ _ bytes => if j = i then bytes else []
    | _ => []

variable (trace' : List Event) (i : Nat)

@[simp] theorem received_append :
    received (trace ++ trace') i = received trace i ++ received trace' i := by
  simp [received]

variable (j : Nat) (hdr : SubHdr) (readBytes : Int)

@[simp] theorem received_packet :
    received [.packet j hdr readBytes bytes] i = if j = i then bytes else [] := by
  simp [received]

variable (ops : List FlashOp)

@[simp] theorem received_flash : received (ops.map (.flash j)) i = [] := by
  simp [received]

@[simp] theorem received_finished : received [.finished j readBytes skipped] i = [] := by
  simp [received]

@[simp] theorem flashAfter_append :
    flashAfter flash (trace ++ trace') =
      replay SECTOR (flashOps trace') (flashAfter flash trace) := by
  simp [flashAfter, flashOps]

@[simp] theorem flashOps_append :
    flashOps (trace ++ trace') = flashOps trace ++ flashOps trace' := by
  simp [flashOps]

@[simp] theorem flashOps_map_flash (i : Nat) : flashOps (ops.map (.flash i)) = ops := by
  induction ops with
  | nil => rfl
  | cons op ops ih =>
    rw [map_cons, ← singleton_append, flashOps_append, ih]
    rfl

@[simp] theorem flashOps_packet : flashOps [.packet i hdr readBytes bytes] = [] := rfl

@[simp] theorem flashOps_finished :
    flashOps [.finished i readBytes skipped] = [] := rfl

theorem flashAfter_flash (flash : Memory) (trace : List Event) (i : Nat) (ops : List FlashOp) :
    flashAfter flash (trace ++ ops.map (.flash i)) =
      replay SECTOR ops (flashAfter flash trace) := by
  rw [flashAfter_append, flashOps_map_flash]

theorem received_append_flash : received (trace ++ ops.map (.flash j)) i = received trace i := by
  rw [received_append, received_flash, append_nil]

theorem received_prefix_flash : received trace i <+: received (trace ++ ops.map (.flash j)) i :=
  ⟨[], by rw [append_nil, received_append_flash]⟩

/-! ### Filling a slot from the front -/

def nextSector (n : Nat) : Nat := if n ≤ MANIFEST_SIZE then 0 else (n + 23) / SECTOR + 1

/-- The slot at `off` after `bytes` of an image: the body so far, and erased flash around it up to
    the next sector. -/
structure Filled (mem : Memory) (off imgLen : Nat) (bytes : List UInt8) : Prop where
  body : ∀ a, MANIFEST_SIZE ≤ a → a < min bytes.length imgLen → mem (off + a) = bytes.getD a 0xFF
  erased : ∀ a, a < MANIFEST_SIZE ∨ min bytes.length imgLen ≤ a →
    a < nextSector bytes.length * SECTOR → mem (off + a) = 0xFF

variable {bytes : List UInt8}

theorem filled_of_le (h : bytes.length ≤ MANIFEST_SIZE) : Filled mem off imgLen bytes := by
  constructor
  · intro a hlo hhi
    omega
  · intro a _ ha
    rw [nextSector, if_pos h] at ha
    exact absurd ha (Nat.not_lt_zero a)

def fillErase (off n n' : Nat) : List FlashOp :=
  if (n' + 23) / SECTOR ≥ nextSector n then [.erase (off + (n' + 23) / SECTOR * SECTOR)] else []

def fillWrite (off imgLen : Nat) (bytes packet : List UInt8) : List FlashOp :=
  let start := max bytes.length MANIFEST_SIZE
  let body := ((bytes ++ packet).take imgLen).drop start
  if body = [] then [] else [.write (off + start) body]

section Fill

theorem mem_fillErase (h : op ∈ fillErase off n n') :
    op = .erase (off + (n' + 23) / SECTOR * SECTOR) := by
  unfold fillErase at h
  split at h
  · exact mem_singleton.mp h
  · exact absurd h not_mem_nil

theorem mem_fillWrite (h : op ∈ fillWrite off imgLen bytes packet) :
    op = .write (off + max bytes.length MANIFEST_SIZE)
      (((bytes ++ packet).take imgLen).drop (max bytes.length MANIFEST_SIZE)) := by
  unfold fillWrite at h
  dsimp only at h
  split at h
  · exact absurd h not_mem_nil
  · exact mem_singleton.mp h

end Fill

theorem nextSector_of_le (h : n ≤ MANIFEST_SIZE) : nextSector n = 0 := if_pos h

theorem nextSector_of_lt (h : MANIFEST_SIZE < n) : nextSector n = (n + 23) / SECTOR + 1 :=
  if_neg (Nat.not_le_of_lt h)

theorem nextSector_step (hlt : n < n') (hstep : n' ≤ n + OTA_BUF_SIZE) :
    nextSector n ≤ (n' + 23) / SECTOR + 1 ∧ (n' + 23) / SECTOR ≤ nextSector n := by
  by_cases hn : n ≤ MANIFEST_SIZE
  · rw [nextSector_of_le hn]
    simp only [MANIFEST_SIZE, SECTOR, OTA_BUF_SIZE] at *
    omega
  · rw [nextSector_of_lt (Nat.lt_of_not_le hn)]
    simp only [SECTOR, OTA_BUF_SIZE] at *
    omega

theorem lt_nextSector {n a : Nat} (hn : MANIFEST_SIZE < n) (ha : a < n + 24) :
    a < nextSector n * SECTOR := by
  rw [nextSector_of_lt hn]
  simp only [SECTOR]
  omega

theorem sector_add (haligned : off % SECTOR = 0) :
    (off + a) / SECTOR = off / SECTOR + a / SECTOR := by
  simp only [SECTOR] at haligned ⊢
  omega

theorem not_touches_erase (haligned : off % SECTOR = 0)
    (h : a < k * SECTOR ∨ (k + 1) * SECTOR ≤ a) :
    ¬ (FlashOp.erase (off + k * SECTOR)).Touches SECTOR (off + a) := by
  simp only [FlashOp.Touches, sector_add haligned]
  simp only [SECTOR] at h ⊢
  omega

theorem Filled.erase (haligned : off % SECTOR = 0) (h : Filled mem off imgLen bytes)
    (hlt : bytes.length < n') (hstep : n' ≤ bytes.length + OTA_BUF_SIZE)
    (hbody : MANIFEST_SIZE < n') :
    (∀ a, MANIFEST_SIZE ≤ a → a < min bytes.length imgLen →
      replay SECTOR (fillErase off bytes.length n') mem (off + a) = bytes.getD a 0xFF) ∧
    (∀ a, a < MANIFEST_SIZE ∨ min bytes.length imgLen ≤ a → a < nextSector n' * SECTOR →
      replay SECTOR (fillErase off bytes.length n') mem (off + a) = 0xFF) := by
  obtain ⟨hle, hge⟩ := nextSector_step hlt hstep
  have hnext := nextSector_of_lt hbody
  unfold fillErase
  by_cases herase : (n' + 23) / SECTOR ≥ nextSector bytes.length
  · rw [if_pos herase, replay_singleton]
    have hcur : nextSector bytes.length = (n' + 23) / SECTOR := Nat.le_antisymm herase hge
    constructor
    · -- the body lies in front of the sector that is erased
      intro a hlo hhi
      have hfront : a < (n' + 23) / SECTOR * SECTOR := by
        rw [← hcur]
        exact lt_nextSector (by omega) (by omega)
      rw [FlashOp.apply_of_not_touches (not_touches_erase haligned (.inl hfront))]
      exact h.body a hlo hhi
    · intro a hfree ha
      by_cases hin : a < (n' + 23) / SECTOR * SECTOR
      · rw [FlashOp.apply_of_not_touches (not_touches_erase haligned (.inl hin))]
        apply h.erased a hfree
        rw [hcur]
        exact hin
      apply FlashOp.apply_erase
      rw [sector_add haligned]
      rw [hnext] at ha
      simp only [SECTOR] at hin ha ⊢
      omega
  · rw [if_neg herase]
    have hcur : nextSector bytes.length = nextSector n' := by omega
    refine ⟨h.body, fun a hfree ha => ?_⟩
    apply h.erased a hfree
    rw [hcur]
    exact ha

/-- **Filling goes on.** A packet's erase and write take the slot to the longer byte
    string. -/
theorem Filled.packet {bytes packet : List UInt8} (haligned : off % SECTOR = 0)
    (h : Filled mem off imgLen bytes) (hne : packet ≠ []) (hpacket : packet.length ≤ OTA_BUF_SIZE)
    (hbody : MANIFEST_SIZE < bytes.length + packet.length) :
    Filled (replay SECTOR (fillErase off bytes.length (bytes.length + packet.length) ++
      fillWrite off imgLen bytes packet) mem) off imgLen (bytes ++ packet) := by
  have hlt : bytes.length < bytes.length + packet.length :=
    Nat.lt_add_of_pos_right (length_pos_iff.mpr hne)
  obtain ⟨hold, hfree⟩ := h.erase haligned hlt (by omega) hbody
  rw [replay_append]
  generalize replay SECTOR (fillErase off bytes.length (bytes.length + packet.length)) mem = mem'
    at hold hfree
  have hlength : (bytes ++ packet).length = bytes.length + packet.length := length_append
  generalize hstart : max bytes.length MANIFEST_SIZE = start
  generalize hdata : ((bytes ++ packet).take imgLen).drop start = data
  have hdataLen : data.length = min imgLen (bytes.length + packet.length) - start := by
    rw [← hdata, length_drop, length_take, hlength]
  -- the bytes written, and the bytes left alone
  have hwritten : ∀ a, start ≤ a → a < start + data.length →
      replay SECTOR (fillWrite off imgLen bytes packet) mem' (off + a) =
        (bytes ++ packet).getD a 0xFF := by
    intro a hlo hhi
    have hdataNe : data ≠ [] := ne_nil_of_length_pos (by omega)
    simp only [fillWrite, hstart, hdata, if_neg hdataNe, replay_singleton]
    rw [FlashOp.apply_write_erased (by omega) (by omega)
      (hfree a (by omega) (lt_nextSector hbody (by omega)))]
    rw [← hdata]
    simp only [getD_eq_getElem?_getD, List.getElem?_drop, List.getElem?_take]
    rw [if_pos (by omega)]
    congr 2
    omega
  have hkept : ∀ a, a < start ∨ start + data.length ≤ a →
      replay SECTOR (fillWrite off imgLen bytes packet) mem' (off + a) = mem' (off + a) := by
    intro a hout
    simp only [fillWrite, hstart, hdata]
    split
    · rfl
    · rw [replay_singleton, FlashOp.apply_of_not_touches]
      simp only [FlashOp.Touches]
      omega
  constructor
  · intro a hlo hhi
    by_cases hnew : start ≤ a
    · exact hwritten a hnew (by omega)
    · rw [hkept a (by omega), hold a hlo (by omega), getD_append _ _ _ _ (by omega)]
  · intro a hout ha
    rw [hlength] at hout ha
    rw [hkept a (by omega)]
    exact hfree a (by omega) ha

/-! ### The manifest in front of the body -/

def manifestWrites (off : Nat) (bytes : List UInt8) : List FlashOp :=
  [.write (off + 8) ((bytes.take MANIFEST_SIZE).drop 8),
    .write off ((bytes.take MANIFEST_SIZE).take 8)]

section Manifest

section

variable (h : Filled mem off imgLen bytes) (hbody : MANIFEST_SIZE < bytes.length)
include h hbody

theorem Filled.manifest_erased (ha : a < MANIFEST_SIZE) : mem (off + a) = 0xFF :=
  h.erased a (.inl ha) (lt_nextSector hbody (by omega))

theorem Filled.pattern_missing :
    (FlashOp.write (off + 8) ((bytes.take MANIFEST_SIZE).drop 8)).apply SECTOR mem off = 0xFF := by
  rw [FlashOp.apply_of_not_touches]
  · exact h.manifest_erased hbody (show 0 < MANIFEST_SIZE by decide)
  · simp only [FlashOp.Touches]
    omega

end

theorem getD_take_drop {k a : Nat} (ha : a < MANIFEST_SIZE) (hk : k ≤ a) :
    ((bytes.take MANIFEST_SIZE).drop k).getD (a - k) 0xFF = bytes.getD a 0xFF := by
  simp only [getD_eq_getElem?_getD, List.getElem?_drop, List.getElem?_take]
  rw [if_pos (by omega)]
  congr 2
  omega

/-- **The slot of a finished image** holds the image. -/
theorem Filled.written (h : Filled mem off imgLen bytes) (hbody : MANIFEST_SIZE < bytes.length)
    (hcomplete : imgLen ≤ bytes.length) (ha : a < imgLen) :
    replay SECTOR (manifestWrites off bytes) mem (off + a) = bytes.getD a 0xFF := by
  have hsize : MANIFEST_SIZE = 24 := rfl
  simp only [manifestWrites, replay, foldl_cons, foldl_nil]
  by_cases hfront : a < 8
  · -- the pattern: the second write
    rw [FlashOp.apply_write_erased (by omega) (by simp only [length_take]; omega)]
    · have hget := @getD_take_drop bytes 0 a (Nat.lt_trans hfront (by decide)) (Nat.zero_le _)
      rw [drop_zero] at hget
      rw [← hget, Nat.add_sub_cancel_left, Nat.sub_zero]
      simp only [getD_eq_getElem?_getD, List.getElem?_take, if_pos hfront]
    · rw [FlashOp.apply_of_not_touches (by simp only [FlashOp.Touches]; omega)]
      exact h.manifest_erased hbody (Nat.lt_trans hfront (by decide))
  rw [FlashOp.apply_of_not_touches (by simp only [FlashOp.Touches, length_take]; omega)]
  by_cases htail : a < MANIFEST_SIZE
  · rw [FlashOp.apply_write_erased (by omega)
      (by simp only [length_drop, length_take]; omega) (h.manifest_erased hbody htail)]
    rw [← getD_take_drop htail (Nat.le_of_not_lt hfront), Nat.add_sub_add_left]
  · rw [FlashOp.apply_of_not_touches
      (by simp only [FlashOp.Touches, length_drop, length_take]; omega)]
    exact h.body a (Nat.le_of_not_lt htail) (by omega)

theorem Filled.window_body (h : Filled mem off imgLen bytes) (hcomplete : imgLen ≤ bytes.length) :
    mem.window (off + MANIFEST_SIZE) (imgLen - MANIFEST_SIZE) =
      (bytes.take imgLen).drop MANIFEST_SIZE := by
  apply ext_getElem
  · simp only [Memory.length_window, length_drop, length_take]
    omega
  · intro k hk _
    rw [Memory.length_window] at hk
    have hget := h.body (MANIFEST_SIZE + k) (by omega) (by omega)
    have hlt : MANIFEST_SIZE + k < bytes.length := by omega
    simp only [Memory.window, getElem_map, getElem_range]
    rw [add_assoc, hget]
    simp [hlt]

end Manifest

/-! ### The stages of a packet -/

variable {s : OtaState}

theorem programBody_eq (hskip : s.skipBootOTAFg = false) (len : Nat) :
    programBody s body len = .ok { s with
      size := s.size + len
      nextEraseSector :=
        if writeSector s ≥ s.nextEraseSector then s.nextEraseSector + 1 else s.nextEraseSector
      trace := s.trace ++
        ((if writeSector s ≥ s.nextEraseSector then
            [FlashOp.erase (u32 ((s.flashAddr : Int) - MANIFEST_SIZE + writeSector s * SECTOR))]
          else []) ++
         (if len = 0 then [] else [FlashOp.write (u32 (s.flashAddr + s.size)) (body.take len)])).map
          (.flash s.index) } := by
  unfold programBody eraseAhead
  rw [if_neg (by simp [hskip])]
  by_cases herase : writeSector s ≥ s.nextEraseSector
  · by_cases hzero : len = 0
    · simp [herase, hzero, OtaState.emitOp, OtaState.emit]
    · simp [herase, hzero, OtaState.emitOp, OtaState.emit]
  · by_cases hzero : len = 0
    · simp [herase, hzero]
    · simp [herase, hzero, OtaState.emitOp, OtaState.emit]

theorem stashNextImg_eq (himage : MANIFEST_SIZE ≤ imgLen) (hle : bytes.length ≤ imgLen)
    (hpacket : packet.length ≤ OTA_BUF_SIZE) (hbody : MANIFEST_SIZE < bytes.length + packet.length)
    (hremain : s.remainBytes = imgLen - MANIFEST_SIZE - (bytes.length - MANIFEST_SIZE : Nat)) :
    ∃ next, stashNextImg s packet (packet.drop (MANIFEST_SIZE - bytes.length)) = .ok ({ s with
            remainBytes := (imgLen : Int) - (bytes ++ packet).length
            nextImg := next },
          ((min imgLen (bytes.length + packet.length) -
            max bytes.length MANIFEST_SIZE : Nat) : Int)) ∧
      pendingBytes { s with nextImg := next } =
        if imgLen < (bytes ++ packet).length then (bytes ++ packet).drop imgLen
        else pendingBytes s := by
  have hlength : (bytes ++ packet).length = bytes.length + packet.length := length_append
  have hbodyLen : (packet.drop (MANIFEST_SIZE - bytes.length)).length =
      packet.length - (MANIFEST_SIZE - bytes.length) := length_drop
  have hleft : s.remainBytes - (packet.drop (MANIFEST_SIZE - bytes.length)).length =
      (imgLen : Int) - (bytes ++ packet).length := by
    omega
  unfold stashNextImg
  simp only [hleft]
  by_cases hover : imgLen < (bytes ++ packet).length
  · have hneg : (imgLen : Int) - (bytes ++ packet).length < 0 := by omega
    have hcount : (-((imgLen : Int) - (bytes ++ packet).length)).toNat =
        (bytes ++ packet).length - imgLen := by omega
    have htail : 0 < (bytes ++ packet).length - imgLen ∧
        (bytes ++ packet).length - imgLen ≤ packet.length ∧
        (bytes ++ packet).length - imgLen ≤ OTA_BUF_SIZE := by
      omega
    simp only [hneg, hcount, htail, if_pos hover]
    refine ⟨_, congrArg Except.ok (Prod.ext rfl ?_), ?_⟩
    · dsimp only
      omega
    · simp only [pendingBytes, NextImg.ofTail, drop_append]
      rw [drop_eq_nil_of_le hle]
      congr 1
      omega
  · have hnonneg : ¬ (imgLen : Int) - (bytes ++ packet).length < 0 := by omega
    simp only [hnonneg, if_neg hover]
    refine ⟨s.nextImg, congrArg Except.ok (Prod.ext rfl ?_), rfl⟩
    omega

/-! ### The invariant of an image -/

/-- The image has received `bytes`. The manifest is in RAM, and unless it is skipped its slot is
    filled with the rest. -/
structure Receiving (board : Board) (flash : Memory) (s : OtaState) (bytes : List UInt8) :
    Prop where
  progress : Progress board s bytes.length
  manifestLen : (s.manifest s.index).length = MANIFEST_SIZE
  manifest : (s.manifest s.index).take bytes.length = bytes.take MANIFEST_SIZE
  size : s.size = (min bytes.length s.hdr.imgLen - MANIFEST_SIZE : Nat)
  received : received s.trace s.index = bytes
  nextErase : s.skipBootOTAFg = false → s.nextEraseSector = nextSector bytes.length
  filled : s.skipBootOTAFg = false → ∀ kind, s.hdr.imgID = imgIDOf kind →
    Filled (flashAfter flash s.trace) (board.newOffset kind) s.hdr.imgLen bytes

theorem Receiving.dropNextImg (h : Receiving board flash s bytes) :
    Receiving board flash { s with nextImg := none } bytes :=
  ⟨h.progress.dropNextImg, h.manifestLen, h.manifest, h.size, h.received, h.nextErase, h.filled⟩

structure HasSlot (hdr : SubHdr) (kind : ImgKind) : Prop where
  imgID : hdr.imgID = imgIDOf kind
  manifestSize_le : MANIFEST_SIZE ≤ hdr.imgLen
  imgLen_lt : hdr.imgLen < 2 ^ 28

def packetOps (board : Board) (hdr : SubHdr) (skip : Bool) (bytes packet : List UInt8) :
    List FlashOp :=
  if skip ∨ bytes.length + packet.length ≤ MANIFEST_SIZE then []
  else
    match imgKind? hdr.imgID with
    | some kind =>
      fillErase (board.newOffset kind) bytes.length (bytes.length + packet.length) ++
        fillWrite (board.newOffset kind) hdr.imgLen bytes packet
    | none => []

structure PacketStep (board : Board) (flash : Memory) (s s' : OtaState)
    (bytes packet : List UInt8) : Prop where
  receiving : Receiving board flash s' (bytes ++ packet)
  same : SameImage s s'
  trace : s'.trace = s.trace ++ .packet s.index s.hdr bytes.length packet ::
    (packetOps board s.hdr s'.skipBootOTAFg bytes packet).map (.flash s.index)
  pending : pendingBytes s' =
    if max MANIFEST_SIZE s.hdr.imgLen < (bytes ++ packet).length then
      (bytes ++ packet).drop s.hdr.imgLen
    else pendingBytes s
  manifest : ∀ j, j ≠ s.index → s'.manifest j = s.manifest j

section Packet

variable {bytes packet : List UInt8}

theorem receiving_initDownload (hinit : s.isDnldInit = false)
    (hmanifest : (s.manifest s.index).length = MANIFEST_SIZE)
    (hreceived : received s.trace s.index = []) :
    Receiving board flash (initDownload board s) [] := by
  have hready : Ready board s 0 := by simp [Ready, hinit]
  have hinit' : ¬ s.isDnldInit = true := by simp [hinit]
  constructor
  case progress => exact progress_initDownload hready
  case manifestLen => simpa using hmanifest
  case manifest => simp
  case size =>
    rw [initDownload, if_neg hinit']
    simp
  case received => simpa using hreceived
  case nextErase =>
    intro _
    rw [initDownload, if_neg hinit']
    rfl
  case filled =>
    intro _ kind _
    exact filled_of_le (Nat.zero_le _)

theorem length_copyAt (hfits : offset + bytes.length ≤ buf.length) :
    (copyAt buf offset bytes).length = buf.length := by
  simp only [copyAt, length_append, length_take, length_drop]
  omega

theorem manifest_packet {buf bytes packet : List UInt8} (hlen : buf.length = MANIFEST_SIZE)
    (htake : buf.take bytes.length = bytes.take MANIFEST_SIZE) :
    (copyAt buf (min bytes.length MANIFEST_SIZE)
      (packet.take (MANIFEST_SIZE - bytes.length))).length = MANIFEST_SIZE ∧
    (copyAt buf (min bytes.length MANIFEST_SIZE)
      (packet.take (MANIFEST_SIZE - bytes.length))).take (bytes ++ packet).length =
        (bytes ++ packet).take MANIFEST_SIZE := by
  have hcopy : (packet.take (MANIFEST_SIZE - bytes.length)).length =
      min (MANIFEST_SIZE - bytes.length) packet.length := length_take
  have hsize : (copyAt buf (min bytes.length MANIFEST_SIZE)
      (packet.take (MANIFEST_SIZE - bytes.length))).length = buf.length :=
    length_copyAt (by omega)
  refine ⟨hsize.trans hlen, ?_⟩
  have hfront : buf.take (min bytes.length MANIFEST_SIZE) = bytes.take MANIFEST_SIZE := by
    rw [← htake, take_eq_take_iff]
    omega
  rw [copyAt, hfront, @take_append _ bytes]
  by_cases hfull : MANIFEST_SIZE ≤ bytes.length + packet.length
  · rw [take_of_length_le]
    · rw [drop_eq_nil_of_le, append_nil]
      omega
    · simp only [length_append, length_take, length_drop]
      omega
  rw [take_append_of_le_length]
  · rw [take_of_length_le]
    simp only [length_append, length_take]
    omega
  · simp only [length_append, length_take]
    omega

def packetResult (board : Board) (s : OtaState) (n : Nat) (packet : List UInt8) (remain : Int)
    (next : Option NextImg) (nextErase : Nat) (size : Int) (ops : List FlashOp) : OtaState :=
  { cached board s n packet with
    remainBytes := remain
    nextImg := next
    nextEraseSector := nextErase
    size := size
    trace := (cached board s n packet).trace ++ ops.map (.flash s.index) }

theorem packetStep_result (h : Receiving board flash (initDownload board s) bytes)
    (hne : packet ≠ []) (hlen : packet.length ≤ OTA_BUF_SIZE) {nextErase : Nat} {size : Int}
    {next : Option NextImg} {ops : List FlashOp}
    (hremain : remain = (cached board s bytes.length packet).remainBytes -
      (packet.drop (MANIFEST_SIZE - bytes.length)).length)
    (hpending : pendingBytes { cached board s bytes.length packet with nextImg := next } =
      if max MANIFEST_SIZE s.hdr.imgLen < (bytes ++ packet).length then
        (bytes ++ packet).drop s.hdr.imgLen
      else pendingBytes s)
    (hsize : size = (min (bytes ++ packet).length s.hdr.imgLen - MANIFEST_SIZE : Nat))
    (hops : ops = packetOps board s.hdr (initDownload board s).skipBootOTAFg bytes packet)
    (hnext : (initDownload board s).skipBootOTAFg = false →
      nextErase = nextSector (bytes ++ packet).length) :
    PacketStep board flash s
      (packetResult board s bytes.length packet remain next nextErase size ops) bytes packet := by
  have hsame := sameImage_cached board s bytes.length packet
  have hhdr : (packetResult board s bytes.length packet remain next nextErase size ops).hdr =
      s.hdr := hsame.hdr
  have htrace : (packetResult board s bytes.length packet remain next nextErase size ops).trace =
      s.trace ++ .packet s.index s.hdr bytes.length packet :: ops.map (.flash s.index) := by
    simp [packetResult, cached, arrive, h.progress.readBytes]
  have hlength : (bytes ++ packet).length = bytes.length + packet.length := length_append
  have hmanifest := h.manifest
  have hmanifestLen := h.manifestLen
  have hbefore := h.received
  rw [initDownload_manifest, initDownload_index] at hmanifest hmanifestLen
  rw [initDownload_trace, initDownload_index] at hbefore
  obtain ⟨hsize', htake⟩ := @manifest_packet _ _ packet hmanifestLen hmanifest
  have hcached : (packetResult board s bytes.length packet remain next nextErase size ops).manifest
      s.index = copyAt (s.manifest s.index) (min bytes.length MANIFEST_SIZE)
        (packet.take (MANIFEST_SIZE - bytes.length)) := by
    simp [packetResult, cached, setManifest]
  have hindex : (packetResult board s bytes.length packet remain next nextErase size ops).index =
      s.index := hsame.index
  refine ⟨⟨?_, ?_, ?_, ?_, ?_, ?_, ?_⟩, ⟨hsame.index, hsame.fileImgHdr, hsame.isGetOTAHdr,
    ⟨_, htrace.symm⟩⟩, ?_, ?_, ?_⟩
  · rw [hlength]
    exact progress_of_cached (ready_of_progress h.progress) rfl hremain
  · rw [hindex, hcached]
    exact hsize'
  · rw [hindex, hcached]
    exact htake
  · rw [hhdr]
    exact hsize
  · rw [htrace, hindex, received_append, hbefore, ← singleton_append, received_append]
    simp
  · intro hskip
    exact hnext hskip
  · intro hskip kind hkind
    rw [hhdr] at hkind
    have hfilled := h.filled hskip kind (by rw [initDownload_hdr]; exact hkind)
    rw [initDownload_trace, initDownload_hdr] at hfilled
    rw [hhdr, htrace, ← singleton_append, flashAfter_append, flashOps_append,
      flashOps_map_flash, hops, packetOps]
    by_cases hshort : bytes.length + packet.length ≤ MANIFEST_SIZE
    · exact filled_of_le (by omega)
    · have hskip' : (initDownload board s).skipBootOTAFg = false := hskip
      rw [if_neg (by simp [hskip', hshort]), hkind, imgKind?_imgIDOf]
      exact hfilled.packet (board.newOffset_aligned kind) hne hlen (by omega)
  · rw [htrace, hops]
    rfl
  · exact hpending
  · intro j hj
    simp [packetResult, cached, setManifest, hj]

theorem take_body :
    (packet.drop (MANIFEST_SIZE - bytes.length)).take
        (min imgLen (bytes.length + packet.length) - max bytes.length MANIFEST_SIZE) =
      ((bytes ++ packet).take imgLen).drop (max bytes.length MANIFEST_SIZE) := by
  have hdrop : (bytes ++ packet).drop (max bytes.length MANIFEST_SIZE) =
      packet.drop (MANIFEST_SIZE - bytes.length) := by
    rw [drop_append, drop_eq_nil_of_le (by omega), nil_append]
    congr 1
    omega
  rw [drop_take, hdrop, take_eq_take_iff, length_drop]
  omega

theorem programBody_fill {off imgLen : Nat} (hskip : s.skipBootOTAFg = false)
    (haddr : s.flashAddr = off + MANIFEST_SIZE) (hoff : off < 2 ^ 28) (himage : s.imageLen = imgLen)
    (himgLen : imgLen < 2 ^ 28) (hle : bytes.length ≤ imgLen) (hmin : MANIFEST_SIZE ≤ imgLen)
    (hremain : s.remainBytes = (imgLen : Int) - (bytes ++ packet).length)
    (hsize : s.size = (min bytes.length imgLen - MANIFEST_SIZE : Nat))
    (hold : s.nextEraseSector = nextSector bytes.length) (hne : packet ≠ [])
    (hlen : packet.length ≤ OTA_BUF_SIZE) (hbody : MANIFEST_SIZE < bytes.length + packet.length) :
    programBody s (packet.drop (MANIFEST_SIZE - bytes.length))
        (min imgLen (bytes.length + packet.length) - max bytes.length MANIFEST_SIZE : Nat) =
      .ok { s with
        size := (min (bytes ++ packet).length imgLen - MANIFEST_SIZE : Nat)
        nextEraseSector := nextSector (bytes ++ packet).length
        trace := s.trace ++ (fillErase off bytes.length (bytes.length + packet.length) ++
          fillWrite off imgLen bytes packet).map (.flash s.index) } := by
  have hlength : (bytes ++ packet).length = bytes.length + packet.length := length_append
  have hpos : 0 < packet.length := length_pos_iff.mpr hne
  simp only [OTA_BUF_SIZE] at hlen
  have hsector : writeSector s = (bytes.length + packet.length + 23) / SECTOR := by
    refine congrArg (· / SECTOR) ((congrArg u32 ?_).trans (u32_natCast ?_))
    · rw [himage]
      simp only [MANIFEST_SIZE]
      omega
    · omega
  have herase : u32 ((s.flashAddr : Int) - MANIFEST_SIZE +
      ((bytes.length + packet.length + 23) / SECTOR : Nat) * SECTOR) =
      off + (bytes.length + packet.length + 23) / SECTOR * SECTOR := by
    refine (congrArg u32 ?_).trans (u32_natCast ?_)
    · rw [haddr, Int.natCast_add, Int.natCast_add, Int.natCast_mul, Int.add_sub_cancel]
    · simp only [SECTOR]
      omega
  have hwrite : u32 (s.flashAddr + s.size) = off + max bytes.length MANIFEST_SIZE := by
    refine (congrArg u32 ?_).trans (u32_natCast ?_)
    · rw [haddr, hsize]
      omega
    · simp only [MANIFEST_SIZE]
      omega
  have hsum : s.size + (min imgLen (bytes.length + packet.length) -
      max bytes.length MANIFEST_SIZE : Nat) =
      (min (bytes ++ packet).length imgLen - MANIFEST_SIZE : Nat) := by
    omega
  have hnext : (if (bytes.length + packet.length + 23) / SECTOR ≥ nextSector bytes.length then
      nextSector bytes.length + 1 else nextSector bytes.length) =
      nextSector (bytes ++ packet).length := by
    obtain ⟨hstep, hstep'⟩ := nextSector_step (Nat.lt_add_of_pos_right hpos)
      (Nat.add_le_add_left hlen bytes.length)
    rw [hlength, nextSector_of_lt hbody]
    split <;> omega
  have hnil : min imgLen (bytes.length + packet.length) - max bytes.length MANIFEST_SIZE = 0 ↔
      ((bytes ++ packet).take imgLen).drop (max bytes.length MANIFEST_SIZE) = [] := by
    rw [drop_eq_nil_iff, length_take]
    omega
  rw [programBody_eq hskip, hsector, hold, herase, hwrite, take_body, hsum, hnext]
  simp only [fillErase, fillWrite, hnil]

theorem flashAddr_of_progress (h : Progress board s n) (hkind : s.hdr.imgID = imgIDOf kind) :
    s.flashAddr = board.newOffset kind + MANIFEST_SIZE := by
  have haddr := h.flashAddr
  rw [hkind, Board.otaStorageGetImageAddr_imgIDOf, chipOffset_start] at haddr
  refine haddr.trans (u32_natCast ?_)
  have hroom := board.newOffset_add_newSize_le kind
  simp only [Board.newOffset, Board.newSlot, MANIFEST_SIZE] at hroom ⊢
  omega

theorem programBody_packetResult {next : Option NextImg}
    (h : Receiving board flash (initDownload board s) bytes)
    (hslot : HasSlot s.hdr kind) (hne : packet ≠ []) (hlen : packet.length ≤ OTA_BUF_SIZE)
    (hle : bytes.length ≤ s.hdr.imgLen) (hbody : MANIFEST_SIZE < bytes.length + packet.length)
    (hremain : remain = (s.hdr.imgLen : Int) - (bytes ++ packet).length) (hstashed : stashed =
      { cached board s bytes.length packet with remainBytes := remain, nextImg := next }) :
    ∃ nextErase, programBody stashed (packet.drop (MANIFEST_SIZE - bytes.length))
          (min s.hdr.imgLen (bytes.length + packet.length) - max bytes.length MANIFEST_SIZE : Nat) =
        .ok (packetResult board s bytes.length packet remain next nextErase
          (min (bytes ++ packet).length s.hdr.imgLen - MANIFEST_SIZE : Nat)
          (packetOps board s.hdr (initDownload board s).skipBootOTAFg bytes packet)) ∧
      ((initDownload board s).skipBootOTAFg = false →
        nextErase = nextSector (bytes ++ packet).length) := by
  have hmin := hslot.manifestSize_le
  have hsize := h.size
  have himage := h.progress.imageLen
  rw [initDownload_hdr] at hsize himage
  cases hskip : (initDownload board s).skipBootOTAFg with
  | true =>
    have hskip' : stashed.skipBootOTAFg = true := by rw [hstashed]; exact hskip
    have hsum : stashed.size + (min s.hdr.imgLen (bytes.length + packet.length) -
        max bytes.length MANIFEST_SIZE : Nat) =
        (min (bytes ++ packet).length s.hdr.imgLen - MANIFEST_SIZE : Nat) := by
      have hsame : stashed.size = (initDownload board s).size := by rw [hstashed]; rfl
      rw [length_append]
      omega
    refine ⟨stashed.nextEraseSector, ?_, fun hfalse => by cases hfalse⟩
    rw [programBody, if_pos hskip', packetOps, if_pos (.inl rfl), hsum, hstashed]
    simp only [packetResult, map_nil, append_nil]
  | false =>
    have hroom := board.newOffset_add_newSize_le kind
    have haddr := flashAddr_of_progress h.progress
      ((congrArg SubHdr.imgID (initDownload_hdr board s)).trans hslot.imgID)
    refine ⟨_, ?_, fun _ => rfl⟩
    rw [packetOps, if_neg (by simpa using hbody), hslot.imgID, imgKind?_imgIDOf]
    have hfill := @programBody_fill stashed bytes packet (board.newOffset kind) s.hdr.imgLen
      (by rw [hstashed]; exact hskip) (by rw [hstashed]; exact haddr) (by omega)
      (by rw [hstashed]; exact himage) hslot.imgLen_lt hle hmin (by rw [hstashed]; exact hremain)
      (by rw [hstashed]; exact hsize) (by rw [hstashed]; exact h.nextErase hskip) hne hlen hbody
    rw [hfill, hstashed]
    simp only [packetResult, cached, arrive, initDownload_index]

/-- **One packet of an image.** A call that stays in the manifest, or belongs to an image with a
    slot, returns; the slot holds the bytes received, and those behind the end wait for the next
    image. -/
theorem Receiving.step (h : Receiving board flash (initDownload board s) bytes)
    (hne : packet ≠ []) (hlen : packet.length ≤ OTA_BUF_SIZE)
    (hslot : MANIFEST_SIZE < bytes.length + packet.length →
      (∃ kind, HasSlot s.hdr kind) ∧ bytes.length ≤ s.hdr.imgLen) :
    ∃ s', downloadPacketProcess board s packet = .ok s' ∧
      PacketStep board flash s s' bytes packet := by
  have hlength : (bytes ++ packet).length = bytes.length + packet.length := length_append
  have hpendingCached : pendingBytes (cached board s bytes.length packet) = pendingBytes s := by
    simp [pendingBytes, cached, arrive]
  rw [downloadPacketProcess_eq (ready_of_progress h.progress)]
  by_cases hbody : MANIFEST_SIZE < bytes.length + packet.length
  · obtain ⟨⟨kind, hslot⟩, hle⟩ := hslot hbody
    have hmin := hslot.manifestSize_le
    have hmax := hslot.imgLen_lt
    have hremain := cached_remainBytes (ready_of_progress h.progress) packet
    rw [remainBytes_of_short (by omega)] at hremain
    have hdrop : packet.drop (MANIFEST_SIZE - bytes.length) ≠ [] := by
      rw [Ne, drop_eq_nil_iff]
      have hpos : 0 < packet.length := length_pos_iff.mpr hne
      omega
    rw [if_neg hdrop]
    obtain ⟨next, hstash, hpending⟩ := stashNextImg_eq (s := cached board s bytes.length packet)
      hmin hle hlen hbody hremain
    obtain ⟨nextErase, hprogram, hnext⟩ :=
      programBody_packetResult h hslot hne hlen hle hbody rfl rfl
    rw [hstash]
    refine ⟨_, hprogram, packetStep_result h hne hlen ?_ ?_ rfl rfl hnext⟩
    · rw [length_drop]
      omega
    · rw [← hpendingCached, Nat.max_eq_right hmin]
      exact hpending
  · -- the packet ends inside the manifest
    have hdrop : packet.drop (MANIFEST_SIZE - bytes.length) = [] := by
      rw [drop_eq_nil_iff]
      omega
    have hcached : cached board s bytes.length packet = packetResult board s bytes.length packet
        (initDownload board s).remainBytes s.nextImg (initDownload board s).nextEraseSector
        (initDownload board s).size [] := by
      simp [packetResult, cached, arrive]
    rw [if_pos hdrop]
    refine ⟨_, congrArg Except.ok hcached, packetStep_result h hne hlen ?_ ?_ ?_ ?_ ?_⟩
    · rw [hdrop]
      exact (Int.sub_zero _).symm
    · rw [if_neg (by omega)]
      rfl
    · rw [h.size]
      omega
    · rw [packetOps, if_pos (.inr (by omega))]
    · intro hskip
      rw [h.nextErase hskip, nextSector_of_le (by omega), nextSector_of_le (by omega)]

end Packet

/-! ### The end of an image -/

def clearOld (board : Board) (kind : ImgKind) : FlashOp :=
  .write (board.layout.offset kind (board.activeSlot kind)) (List.replicate 8 0)

section Finish

variable (h : Receiving board flash s bytes)
include h

theorem Receiving.manifest_eq (hbody : MANIFEST_SIZE < bytes.length) :
    s.manifest s.index = bytes.take MANIFEST_SIZE := by
  have hmanifest := h.manifest
  rwa [take_of_length_le (Nat.le_trans (Nat.le_of_eq h.manifestLen) (Nat.le_of_lt hbody))]
    at hmanifest

theorem Receiving.slotIdx_eq (hkind : s.hdr.imgID = imgIDOf kind) :
    s.slotIdx = board.newSlot kind := by
  rw [h.progress.slotIdx, hkind]
  rfl

theorem Receiving.updateOps_eq (hkind : s.hdr.imgID = imgIDOf kind)
    (hbody : MANIFEST_SIZE < bytes.length) (hsigned : s.hdr.signed = true) :
    updateOps board s = manifestWrites (board.newOffset kind) bytes ++
      if board.switchByValidHeader then [clearOld board kind] else [] := by
  have hroom := board.newOffset_add_newSize_le kind
  have hoffset : u32 ((board.newOffset kind : Int) + 8) = board.newOffset kind + 8 :=
    @u32_natCast (board.newOffset kind + 8) (by omega)
  unfold updateOps Board.otaStorageUpdateManifest
  rw [h.manifest_eq hbody, h.slotIdx_eq hkind, hkind, Board.imgAddr_imgIDOf,
    Board.imgAddr_imgIDOf, chipOffset_start, chipOffset_start, ← board.activeSlot_eq]
  rw [manifestWrites, ← hoffset]
  split <;> rfl

theorem Receiving.verify_eq (hskip : s.skipBootOTAFg = false) (hslot : HasSlot s.hdr kind)
    (hbody : MANIFEST_SIZE < bytes.length) (hcomplete : s.hdr.imgLen ≤ bytes.length) :
    board.otaStorageVerifyChecksum s.hdr (s.manifest s.index) s.slotIdx (flashAfter flash s.trace) =
      decide (((bytes.take s.hdr.imgLen).map UInt8.toNat).sum % 2 ^ 32 = s.hdr.checksum) := by
  have hmin := hslot.manifestSize_le
  have hmax := hslot.imgLen_lt
  have hlen : u32 ((s.hdr.imgLen : Int) - MANIFEST_SIZE) = s.hdr.imgLen - MANIFEST_SIZE := by
    rw [← Int.ofNat_sub hmin]
    exact u32_natCast (by omega)
  have hwindow := (h.filled hskip kind hslot.imgID).window_body hcomplete
  have hsplit : bytes.take MANIFEST_SIZE ++ (bytes.take s.hdr.imgLen).drop MANIFEST_SIZE =
      bytes.take s.hdr.imgLen := by
    conv_rhs => rw [← take_append_drop MANIFEST_SIZE (bytes.take s.hdr.imgLen)]
    rw [take_take, Nat.min_eq_left hmin]
  unfold Board.otaStorageVerifyChecksum
  rw [h.manifest_eq hbody, h.slotIdx_eq hslot.imgID, hslot.imgID, Board.imgAddr_imgIDOf,
    chipOffset_start, hlen]
  have hoffset : board.layout.offset kind (board.newSlot kind) = board.newOffset kind := rfl
  simp only [hoffset, hwindow]
  rw [← sum_append, ← map_append, hsplit]

end Finish

end AmebaRtos.Ota
