import AmebaRtos.Boot.Extract
import AmebaRtos.Ota.Containment

/-!
# Power cuts during an update

A power cut leaves the flash that a prefix of the run's erases and writes produces. After every
one of them the board should still have an image to boot: the active slot as it was, or the new
slot with the whole verified image; and a new slot with a valid pattern should hold a whole image.
The order of the writes gives this as long as no packet strays.
-/

namespace AmebaRtos.Ota

open Lib List

/-! ### What a power cut may leave -/

def IsPattern (bytes : List UInt8) : Prop :=
  bytes = Boot.ImagePattern ∨ bytes = Boot.CompressFlag

/-- The flash shows a valid pattern at `off`. -/
def ValidPattern (mem : Memory) (off : Nat) : Prop := IsPattern (mem.window off 8)

variable (board : Board)

def Untouched (flash mem : Memory) (kind : ImgKind) (i : Slot) : Prop :=
  ∀ a, board.layout.InSlot kind i a → mem a = flash a

variable (hdrs : List SubHdr) (flash : Memory)

/-- The new slot holds an image of the file as it was received, whole and with the
    checksum that the header announces. -/
def NewSlotComplete (p : List Event) (kind : ImgKind) : Prop :=
  ∃ i < hdrs.length, (hdrs.getD i default).imgID = imgIDOf kind ∧
    (hdrs.getD i default).imgLen ≤ board.newSize kind ∧
    (hdrs.getD i default).imgLen ≤ (received p i).length ∧
    (∀ a < (hdrs.getD i default).imgLen,
      flashAfter flash p (board.newOffset kind + a) = (received p i).getD a 0xFF) ∧
    (((received p i).take (hdrs.getD i default).imgLen).map UInt8.toNat).sum % 2 ^ 32 =
      (hdrs.getD i default).checksum

/-- A cut after the events `p` leaves the image bootable, and its new slot honest. -/
structure KindSafe (board : Board) (hdrs : List SubHdr) (flash : Memory) (p : List Event)
    (kind : ImgKind) : Prop where
  kept : Untouched board flash (flashAfter flash p) kind (board.activeSlot kind) ∨
    (NewSlotComplete board hdrs flash p kind ∧
      ValidPattern (flashAfter flash p) (board.newOffset kind))
  honest : ValidPattern (flashAfter flash p) (board.newOffset kind) →
    Untouched board flash (flashAfter flash p) kind (board.newSlot kind) ∨
      NewSlotComplete board hdrs flash p kind

/-- Every cut of a trace is safe for every image. -/
def CutsSafe (trace : List Event) : Prop :=
  ∀ p, p <+: trace → ∀ kind, KindSafe board hdrs flash p kind

section Cuts

variable {board : Board} {hdrs : List SubHdr} {flash : Memory}

theorem CutsSafe.append {tail : List Event} (h : CutsSafe board hdrs flash trace)
    (htail : ∀ q, q <+: tail → ∀ kind, KindSafe board hdrs flash (trace ++ q) kind) :
    CutsSafe board hdrs flash (trace ++ tail) := by
  intro p hp kind
  rcases prefix_or_prefix_of_prefix hp (prefix_append trace tail) with hbefore | hafter
  · exact h p hbefore kind
  · obtain ⟨q, rfl⟩ := hafter
    exact htail q ((prefix_append_right_inj trace).mp hp) kind

theorem not_validPattern {mem : Memory} {off : Nat} (h : mem off = 0xFF) :
    ¬ ValidPattern mem off := by
  have hhead : (mem.window off 8).head? = some (mem off) := by
    simp [Memory.window, range_succ]
  rintro (hpattern | hpattern) <;> rw [hpattern, h] at hhead <;> cases hhead

theorem validPattern_congr
    (hsame : ∀ a, board.layout.InSlot kind (board.newSlot kind) a → mem' a = mem a) :
    ValidPattern mem' (board.newOffset kind) ↔ ValidPattern mem (board.newOffset kind) := by
  have hwindow : mem'.window (board.newOffset kind) 8 = mem.window (board.newOffset kind) 8 := by
    refine Memory.window_congr fun k hk => hsame _ ⟨Nat.le_add_right _ _, ?_⟩
    exact Nat.add_lt_add_left
      (Nat.lt_of_lt_of_le hk (Nat.le_trans (by decide) (board.newSize_ge kind))) _
  rw [ValidPattern, hwindow, ValidPattern]

theorem NewSlotComplete.transfer (h : NewSlotComplete board hdrs flash p kind)
    (hsame : ∀ a, board.layout.InSlot kind (board.newSlot kind) a →
      flashAfter flash p' a = flashAfter flash p a)
    (hrecv : ∀ i, received p i <+: received p' i) : NewSlotComplete board hdrs flash p' kind := by
  obtain ⟨i, hi, hid, hfits, hlen, hcontent, hsum⟩ := h
  obtain ⟨more, hmore⟩ := hrecv i
  refine ⟨i, hi, hid, hfits, ?_, fun a ha => ?_, ?_⟩
  · rw [← hmore, length_append]
    omega
  · have hin : board.layout.InSlot kind (board.newSlot kind) (board.newOffset kind + a) :=
      ⟨Nat.le_add_right _ _, Nat.add_lt_add_left (Nat.lt_of_lt_of_le ha hfits) _⟩
    rw [hsame _ hin, hcontent a ha, ← hmore, getD_append _ _ _ _ (Nat.lt_of_lt_of_le ha hlen)]
  · rw [← hmore, take_append_of_le_length hlen]
    exact hsum

theorem KindSafe.transfer (h : KindSafe board hdrs flash p kind)
    (hsame : ∀ i a, board.layout.InSlot kind i a → flashAfter flash p' a = flashAfter flash p a)
    (hrecv : ∀ i, received p i <+: received p' i) : KindSafe board hdrs flash p' kind := by
  have hpattern := validPattern_congr (hsame (board.newSlot kind))
  constructor
  · rcases h.kept with huntouched | ⟨hcomplete, hvalid⟩
    · exact .inl fun a ha => (hsame _ a ha).trans (huntouched a ha)
    · exact .inr ⟨hcomplete.transfer (hsame _) hrecv, hpattern.mpr hvalid⟩
  · intro hvalid
    rcases h.honest (hpattern.mp hvalid) with huntouched | hcomplete
    · exact .inl fun a ha => (hsame _ a ha).trans (huntouched a ha)
    · exact .inr (hcomplete.transfer (hsame _) hrecv)

theorem replay_other_slot {ops : List FlashOp} (hops : OpsInSlot board kind i ops)
    (hne : (kind', i') ≠ (kind, i)) {a : Nat} (ha : board.layout.InSlot kind' i' a) :
    replay SECTOR ops mem a = mem a :=
  replay_of_not_touches
    (fun op hop htouch => board.layout.not_inSlot_of_ne hne ha (hops op hop a htouch)) mem

theorem replay_active {ops : List FlashOp} {kind' : ImgKind}
    (hops : OpsInSlot board kind (board.newSlot kind) ops)
    (ha : board.layout.InSlot kind' (board.activeSlot kind') a) : replay SECTOR ops mem a = mem a :=
  replay_other_slot hops (new_pair_ne board kind kind').symm ha

theorem kindSafe_of_ops {ops : List FlashOp} (h : ∀ kind, KindSafe board hdrs flash p kind)
    (hmem : flashAfter flash p' = replay SECTOR ops (flashAfter flash p))
    (hrecv : ∀ i, received p i <+: received p' i)
    (hops : OpsInSlot board kind (board.newSlot kind) ops)
    (hactive : Untouched board flash (flashAfter flash p) kind (board.activeSlot kind))
    (hnew : ValidPattern (flashAfter flash p') (board.newOffset kind) →
      NewSlotComplete board hdrs flash p' kind) : ∀ kind, KindSafe board hdrs flash p' kind := by
  intro kind'
  by_cases hkind : kind' = kind
  · subst hkind
    refine ⟨.inl fun a ha => ?_, fun hvalid => .inr (hnew hvalid)⟩
    rw [hmem, replay_active hops ha]
    exact hactive a ha
  · refine (h kind').transfer (fun i a ha => ?_) hrecv
    rw [hmem, replay_other_slot hops (fun heq => hkind (Prod.mk.inj heq).1) ha]

end Cuts

/-! ### The operations of a packet -/

theorem BodyOps.cut {board : Board} {flash : Memory} {ops q : List FlashOp}
    (h : BodyOps board flash s ops) (hq : q <+: ops) :
    q = [] ∨ ∃ kind, s.hdr.imgID = imgIDOf kind ∧ OpsInSlot board kind (board.newSlot kind) q ∧
      replay SECTOR q (flashAfter flash s.trace) (board.newOffset kind) = 0xFF := by
  rcases h with rfl | ⟨kind, bytes, packet, hkind, hfilled, hne, hlen, hbody, hfits, rfl⟩
  · exact .inl (prefix_nil.mp hq)
  have hpos : 0 < packet.length := length_pos_iff.mpr hne
  have hfirst : 0 < nextSector (bytes.length + packet.length) * SECTOR :=
    lt_nextSector hbody (by omega)
  have herased := (hfilled.erase (board.newOffset_aligned kind)
    (Nat.lt_add_of_pos_right hpos) (Nat.add_le_add_left hlen _) hbody).2 0 (.inl (by decide)) hfirst
  have hwritten := (hfilled.packet (board.newOffset_aligned kind) hne hlen hbody).erased 0
    (.inl (by decide)) (by rw [length_append]; exact hfirst)
  rw [add_zero] at herased hwritten
  -- each of the two parts is a single operation or none
  have hcases : q = [] ∨
      q = fillErase (board.newOffset kind) bytes.length (bytes.length + packet.length) ∨
      q = fillErase (board.newOffset kind) bytes.length (bytes.length + packet.length) ++
        fillWrite (board.newOffset kind) s.hdr.imgLen bytes packet := by
    revert hq
    unfold fillErase fillWrite
    dsimp only
    split <;> split <;> intro hq <;>
      simp only [nil_append, singleton_append, prefix_cons_iff, prefix_nil] at hq ⊢
    · rcases hq with rfl | ⟨t, rfl, rfl⟩ <;> simp
    · rcases hq with rfl | ⟨t, rfl, rfl | ⟨t, rfl, rfl⟩⟩ <;> simp
    · exact .inl hq
    · rcases hq with rfl | ⟨t, rfl, rfl⟩ <;> simp
  rcases hcases with rfl | rfl | rfl
  · exact .inl rfl
  · exact .inr ⟨kind, hkind, fillErase_inSlot hfits, herased⟩
  · exact .inr ⟨kind, hkind, fill_inSlot hfits, hwritten⟩

/-! ### The operations at the end of an image -/

section

variable {board : Board} {flash : Memory}

theorem BodyDone.newSlotComplete (h : BodyDone board flash s kind bytes)
    (hindex : s.index < s.fileImgHdr.length)
    (hsum : ((bytes.take s.hdr.imgLen).map UInt8.toNat).sum % 2 ^ 32 = s.hdr.checksum) :
    NewSlotComplete board s.fileImgHdr flash
      (s.trace ++ (manifestWrites (board.newOffset kind) bytes).map (.flash s.index)) kind := by
  have hcomplete := h.complete
  have hfits := h.fits
  refine ⟨s.index, hindex, h.slot.imgID, ?_, ?_, fun a ha => ?_, ?_⟩
  · change s.hdr.imgLen ≤ board.newSize kind
    omega
  · rw [received_append_flash, h.receiving.received]
    exact hcomplete
  · rw [received_append_flash, h.receiving.received, flashAfter_flash]
    exact h.filled.written h.body hcomplete ha
  · rw [received_append_flash, h.receiving.received]
    exact hsum

theorem BodyDone.validPattern (h : BodyDone board flash s kind bytes)
    (hpattern : IsPattern (bytes.take 8)) :
    ValidPattern (replay SECTOR (manifestWrites (board.newOffset kind) bytes)
      (flashAfter flash s.trace)) (board.newOffset kind) := by
  have hbody := h.body
  have hmin := h.slot.manifestSize_le
  have hsize : MANIFEST_SIZE = 24 := rfl
  have hwindow : (replay SECTOR (manifestWrites (board.newOffset kind) bytes)
      (flashAfter flash s.trace)).window (board.newOffset kind) 8 = bytes.take 8 := by
    apply ext_getElem
    · rw [Memory.length_window, length_take]
      omega
    · intro k hk _
      rw [Memory.length_window] at hk
      have hget := h.filled.written hbody h.complete (show k < s.hdr.imgLen by omega)
      have hlt : k < bytes.length := by omega
      simp only [Memory.window, getElem_map, getElem_range]
      rw [hget]
      simp [hlt]
  rw [ValidPattern, hwindow]
  exact hpattern

theorem kindSafe_clear {hdrs : List SubHdr} (hcomplete : NewSlotComplete board hdrs flash p kind)
    (hvalid : ValidPattern (flashAfter flash p) (board.newOffset kind))
    (hsafe : ∀ kind', KindSafe board hdrs flash p kind') (i : Nat) :
    ∀ kind', KindSafe board hdrs flash (p ++ [clearOld board kind].map (.flash i)) kind' := by
  intro kind'
  have hrecv := fun j => received_prefix_flash p j i [clearOld board kind]
  have hother : ∀ kind' i', (kind', i') ≠ (kind, board.activeSlot kind) → ∀ a,
      board.layout.InSlot kind' i' a →
      flashAfter flash (p ++ [clearOld board kind].map (.flash i)) a = flashAfter flash p a := by
    intro kind' i' hne a ha
    rw [flashAfter_flash]
    exact replay_other_slot clear_inSlot hne ha
  by_cases hkind : kind' = kind
  · subst hkind
    have hsame := hother kind' (board.newSlot kind') (new_pair_ne board _ _)
    have hafter := hcomplete.transfer hsame hrecv
    exact ⟨.inr ⟨hafter, (validPattern_congr hsame).mpr hvalid⟩, fun _ => .inr hafter⟩
  · exact (hsafe kind').transfer
      (fun i' => hother kind' i' fun heq => hkind (Prod.mk.inj heq).1) hrecv

/-- **The end of an image.** However far the manifest update got, every image is safe: the old
    pattern is cleared after the new one is written. -/
theorem BodyDone.cut (h : BodyDone board flash s kind bytes) (hsigned : s.hdr.signed = true)
    (hindex : s.index < s.fileImgHdr.length)
    (hsum : ((bytes.take s.hdr.imgLen).map UInt8.toNat).sum % 2 ^ 32 = s.hdr.checksum)
    (hsafe : ∀ kind, KindSafe board s.fileImgHdr flash s.trace kind)
    (hactive : Untouched board flash (flashAfter flash s.trace) kind (board.activeSlot kind))
    (hpattern : board.switchByValidHeader = true → IsPattern (bytes.take 8))
    {q : List FlashOp} (hq : q <+: updateOps board s) :
    ∀ kind, KindSafe board s.fileImgHdr flash (s.trace ++ q.map (.flash s.index)) kind := by
  have hrecv := fun ops i => received_prefix_flash s.trace i s.index ops
  have hcomplete := h.newSlotComplete hindex hsum
  -- the manifest is in place
  have hwritten := kindSafe_of_ops hsafe (flashAfter_flash flash s.trace s.index _)
    (hrecv _) h.manifest_inSlot hactive fun _ => hcomplete
  rw [h.updateOps_eq hsigned, manifestWrites, cons_append, cons_append,
    nil_append, prefix_cons_iff] at hq
  rcases hq with rfl | ⟨t, rfl, hq⟩
  · rw [map_nil, append_nil]
    exact hsafe
  rw [prefix_cons_iff] at hq
  rcases hq with rfl | ⟨t, rfl, hq⟩
  · -- only the tail of the manifest
    refine kindSafe_of_ops hsafe (flashAfter_flash flash s.trace s.index _) (hrecv _)
      (fun op hop => ?_) hactive fun hvalid => ?_
    · exact h.manifest_inSlot op (mem_singleton.mp hop ▸ mem_cons_self ..)
    · rw [flashAfter_flash, replay_singleton] at hvalid
      exact absurd hvalid (not_validPattern (h.filled.pattern_missing h.body))
  by_cases hclear : t = []
  · subst hclear
    exact hwritten
  -- the old pattern is cleared too
  cases hswitch : board.switchByValidHeader with
  | false =>
    rw [hswitch, if_neg Bool.false_ne_true, prefix_nil] at hq
    exact absurd hq hclear
  | true =>
    rw [hswitch] at hq
    have ht : t = [clearOld board kind] := by
      rcases prefix_cons_iff.mp hq with hnil | ⟨t', rfl, hnil⟩
      · exact absurd hnil hclear
      · rw [prefix_nil.mp hnil]
    subst ht
    have hvalid := h.validPattern (hpattern hswitch)
    rw [← flashAfter_flash flash s.trace s.index] at hvalid
    have hcleared := kindSafe_clear hcomplete hvalid hwritten s.index
    rw [append_assoc] at hcleared
    exact hcleared

end

/-! ### Whole runs -/

/-- No bare manifest and no stray packet, and for a build that clears the old pattern, one image of
    each kind, each with a pattern. -/
structure PowerGuard (board : Board) (s : OtaState) : Prop where
  lens : NoBareManifest s
  safe : ∀ e ∈ s.trace, PacketSafe board e
  distinct : board.switchByValidHeader = true → (s.fileImgHdr.map SubHdr.imgID).Nodup
  patterns : board.switchByValidHeader = true →
    ∀ i, 8 ≤ (received s.trace i).length → IsPattern ((received s.trace i).take 8)

structure PowerInv (board : Board) (flash : Memory) (s : OtaState) : Prop where
  tracked : Tracked board flash s
  cuts : CutsSafe board s.fileImgHdr flash s.trace
  active : ∀ kind, (board.switchByValidHeader = true →
      ∀ i < s.index, (s.fileImgHdr.getD i default).imgID ≠ imgIDOf kind) →
    Untouched board flash (flashAfter flash s.trace) kind (board.activeSlot kind)

structure PowerKeeps (board : Board) (flash : Memory) (s : OtaState) : Prop where
  start : s.isGetOTAHdr = false → Tracked board flash s
  run : PowerGuard board s → PowerInv board flash s

def PowerPost (s : OtaState) : Prop :=
  PowerGuard board s → CutsSafe board s.fileImgHdr flash s.trace

section Runs

variable {board : Board} {flash : Memory}

theorem PowerGuard.before (h : PowerGuard board s') (hhdrs : s'.fileImgHdr = s.fileImgHdr)
    (htrace : s.trace <+: s'.trace) : PowerGuard board s := by
  obtain ⟨more, hmore⟩ := htrace
  refine ⟨?_, fun e he => ?_, ?_, fun hswitch i hlen => ?_⟩
  · have hlens := h.lens
    unfold NoBareManifest at hlens ⊢
    rwa [hhdrs] at hlens
  · apply h.safe
    rw [← hmore]
    exact mem_append_left _ he
  · rw [← hhdrs]
    exact h.distinct
  · have hpattern := h.patterns hswitch i
    rw [← hmore, received_append, length_append, take_append_of_le_length hlen] at hpattern
    exact hpattern (by omega)

theorem PowerInv.active_current (h : PowerInv board flash s) (hguard : PowerGuard board s)
    (hgot : s.isGetOTAHdr = true) {kind : ImgKind} (hkind : s.hdr.imgID = imgIDOf kind) :
    Untouched board flash (flashAfter flash s.trace) kind (board.activeSlot kind) := by
  apply h.active
  intro hswitch i hi heq
  have hindex := h.tracked.index hgot
  have hnodup := hguard.distinct hswitch
  have hlt : i < s.fileImgHdr.length := Nat.lt_trans hi hindex
  have hsame : (s.fileImgHdr.map SubHdr.imgID)[i]? = (s.fileImgHdr.map SubHdr.imgID)[s.index]? := by
    rw [← hkind] at heq
    simpa [OtaState.hdr, hlt, hindex] using heq
  have hij := (List.getElem?_inj (by simpa using hlt) hnodup).mp hsame
  omega

theorem PowerInv.packet {packet : List UInt8} (h : PowerInv board flash s)
    (hguard : PowerGuard board s) (hgot : s.isGetOTAHdr = true) (hne : packet ≠ [])
    (hlen : packet.length ≤ OTA_BUF_SIZE)
    (hsafe : PacketSafe board (.packet s.index s.hdr (initDownload board s).readBytes packet)) :
    ∃ s', downloadPacketProcess board s packet = .ok s' ∧ PowerInv board flash s' := by
  obtain ⟨s', ops, hok, htracked, hsame, _, htrace, hops⟩ :=
    h.tracked.packet hgot hne hlen hsafe
  have hnow := h.cuts s.trace (prefix_refl _)
  generalize hevent : Event.packet s.index s.hdr (initDownload board s).readBytes packet = e
    at htrace
  have hmem : ∀ q : List FlashOp, flashAfter flash (s.trace ++ e :: q.map (.flash s.index)) =
      replay SECTOR q (flashAfter flash s.trace) := by
    intro q
    rw [← singleton_append, flashAfter_append, flashOps_append, flashOps_map_flash, ← hevent,
      flashOps_packet, nil_append]
  have hrecv : ∀ (q : List FlashOp) i,
      received s.trace i <+: received (s.trace ++ e :: q.map (.flash s.index)) i := by
    intro q i
    rw [received_append]
    exact prefix_append _ _
  refine ⟨s', hok, htracked, ?_, fun kind hkind => ?_⟩
  · rw [hsame.fileImgHdr, htrace]
    refine h.cuts.append fun q hq => ?_
    rcases prefix_cons_iff.mp hq with rfl | ⟨t, rfl, ht⟩
    · rw [append_nil]
      exact hnow
    obtain ⟨q, hdone, rfl⟩ := prefix_map_iff.mp ht
    rcases hops.cut hdone with rfl | ⟨kind, hkind, hinside, herased⟩
    · intro kind
      refine (hnow kind).transfer (fun i a _ => ?_) (hrecv [])
      rw [hmem, replay_nil]
    refine kindSafe_of_ops hnow (hmem q) (hrecv q) hinside
      (h.active_current hguard hgot hkind) fun hvalid => ?_
    rw [hmem] at hvalid
    exact absurd hvalid (not_validPattern herased)
  · rw [hsame.index, hsame.fileImgHdr] at hkind
    intro a ha
    rw [htrace, hmem]
    rcases hops.cut (prefix_refl ops) with rfl | ⟨kind', _, hinside, _⟩
    · exact h.active kind hkind a ha
    · rw [replay_active hinside ha]
      exact h.active kind hkind a ha

theorem PowerKeeps.packet {packet : List UInt8} (h : PowerKeeps board flash s)
    (hgot : s.isGetOTAHdr = true) (hne : packet ≠ []) (hlen : packet.length ≤ OTA_BUF_SIZE) :
    PacketOk (PowerKeeps board flash) (fun _ => PowerPost board flash)
      (downloadPacketProcess board s packet) := by
  obtain ⟨hsame, hinit⟩ := downloadPacketProcess_frame board s packet
  have hpacket := hsame.trace.subset (mem_append_right _ (.head _))
  have hextends := (prefix_append s.trace _).trans hsame.trace
  -- a state that meets the guard was reached by a safe packet
  have hstep : PowerGuard board (outState (downloadPacketProcess board s packet)) →
      ∃ s', downloadPacketProcess board s packet = .ok s' ∧ PowerInv board flash s' := by
    intro hguard
    have hguard' : PowerGuard board s := hguard.before hsame.fileImgHdr hextends
    exact (h.run hguard').packet hguard' hgot hne hlen (hguard.safe _ hpacket)
  rcases hresult : downloadPacketProcess board s packet with s' | s'
  · intro hguard
    rw [hresult] at hstep
    obtain ⟨_, hok, _⟩ := hstep hguard
    cases hok
  rw [hresult] at hstep hsame hinit
  have hgot' : s'.isGetOTAHdr = true := hsame.isGetOTAHdr.trans hgot
  refine ⟨⟨fun hnot => absurd hgot' (hnot.trans_ne nofun), fun hguard => ?_⟩, hgot', hinit⟩
  obtain ⟨_, hok, hinv⟩ := hstep hguard
  cases hok
  exact hinv

theorem CutsSafe.finished {hdrs : List SubHdr} (h : CutsSafe board hdrs flash trace) (i : Nat)
    (readBytes : Int) (skipped : Bool) :
    CutsSafe board hdrs flash (trace ++ [.finished i readBytes skipped]) := by
  refine h.append fun q hq => ?_
  have hnow := h trace (prefix_refl _)
  rcases prefix_cons_iff.mp hq with rfl | ⟨t, rfl, ht⟩
  · rw [append_nil]
    exact hnow
  rw [prefix_nil.mp ht]
  intro kind
  refine (hnow kind).transfer (fun _ a _ => ?_) fun j => ?_
  · rw [flashAfter_append, flashOps_finished, replay_nil]
  · rw [received_append]
    exact prefix_append _ _

theorem PowerInv.finish {ret : Ret} (h : PowerInv board flash s) (hguard : PowerGuard board s)
    (hgot : s.isGetOTAHdr = true) (hinit : s.isDnldInit = true) (hremain : s.remainBytes ≤ 0)
    (hstep : FinishStep board flash s s' (s.size + MANIFEST_SIZE) ret) :
    CutsSafe board s'.fileImgHdr flash s'.trace ∧ (ret = .ok → PowerInv board flash s') := by
  have hindex := h.tracked.index hgot
  have hmem := hdr_mem hindex
  rcases hstep.how with ⟨_, hnext⟩ | ⟨hskip, hnext, _, hverified⟩
  · -- a skipped image leaves the flash alone
    have hcuts : CutsSafe board s'.fileImgHdr flash s'.trace := by
      rw [hnext.fileImgHdr, hnext.trace]
      exact h.cuts.finished _ _ _
    refine ⟨hcuts, ?_⟩
    rintro rfl
    refine ⟨?_, hcuts, fun kind hkind => ?_⟩
    · have hnext' : NextStep { s with trace := s.trace ++ List.map (.flash s.index) [] } s' true
          .ok := by simpa using hnext
      exact h.tracked.next hgot hinit hnext'
    · rw [hnext.trace, flashAfter_append]
      rw [hnext.fileImgHdr, hnext.index_of_ok] at hkind
      exact h.active kind fun hswitch i hi => hkind hswitch i (Nat.lt_succ_of_lt hi)
  obtain ⟨kind, bytes, hdone⟩ := h.tracked.bodyDone hinit hskip hremain
    (hguard.lens _ hmem) hstep.size
  have hsigned := h.tracked.signed _ hmem
  rw [hdone.verify_eq, decide_eq_true_eq] at hverified
  have hactive := h.active_current hguard hgot hdone.slot.imgID
  have hpattern : board.switchByValidHeader = true → IsPattern (bytes.take 8) := by
    intro hswitch
    have hstart := hguard.patterns hswitch s.index
    rw [hdone.receiving.received] at hstart
    exact hstart (Nat.le_trans (by decide) (Nat.le_of_lt hdone.body))
  have hnow := h.cuts s.trace (prefix_refl _)
  have hcuts : CutsSafe board s'.fileImgHdr flash s'.trace := by
    rw [hnext.fileImgHdr, hnext.trace]
    refine CutsSafe.finished (h.cuts.append fun q hq => ?_) _ _ _
    obtain ⟨ops, hops, rfl⟩ := prefix_map_iff.mp hq
    exact hdone.cut hsigned hindex hverified hnow hactive hpattern hops
  refine ⟨hcuts, ?_⟩
  rintro rfl
  refine ⟨h.tracked.next hgot hinit hnext, hcuts, fun kind' hkind' a ha => ?_⟩
  have hindex' : s'.index = s.index + 1 := hnext.index_of_ok
  rw [hnext.fileImgHdr] at hkind'
  have hmanifest : replay SECTOR (manifestWrites (board.newOffset kind) bytes)
      (flashAfter flash s.trace) a = flash a := by
    rw [replay_active hdone.manifest_inSlot ha]
    exact h.active kind' (fun hswitch i hi => hkind' hswitch i (by omega)) a ha
  rw [hnext.trace, flashAfter_append, flashOps_finished, replay_nil, flashAfter_flash,
    hdone.updateOps_eq hsigned, replay_append]
  cases hswitch : board.switchByValidHeader with
  | false =>
    rw [if_neg Bool.false_ne_true, replay_nil]
    exact hmanifest
  | true =>
    rw [if_pos rfl, replay_other_slot clear_inSlot (fun heq => ?_) ha]
    · exact hmanifest
    · obtain ⟨rfl, _⟩ := Prod.mk.inj heq
      exact hkind' hswitch s.index (by omega) hdone.slot.imgID

theorem PowerKeeps.finish (h : PowerKeeps board flash s) (hgot : s.isGetOTAHdr = true)
    (hinit : s.isDnldInit = true) (hremain : s.remainBytes ≤ 0) :
    RoundOk (PowerKeeps board flash) (fun _ => PowerPost board flash)
      (.ok (downloadFinish board flash s (s.size + MANIFEST_SIZE))) := by
  rcases downloadFinish_cases board flash s (s.size + MANIFEST_SIZE) with
    herr | ⟨s', herr, hhdrs, hextends, hupdated⟩ | ⟨s', ret, hfinish, hret, hstep⟩
  · rw [herr]
    exact fun hguard => (h.run hguard).cuts
  · rw [herr]
    -- accepted headers are signed, so the update does not fail
    intro hguard
    have htracked := (h.run (hguard.before hhdrs hextends)).tracked
    have hsigned := htracked.signed _ (hdr_mem (htracked.index hgot))
    rw [Board.otaStorageUpdateManifest_signed hsigned] at hupdated
    cases hupdated
  rw [hfinish]
  obtain ⟨hhdrs, hgot', hextends, _⟩ := hstep.position
  have hdone := fun hguard : PowerGuard board s' =>
    (h.run (hguard.before hhdrs hextends)).finish (hguard.before hhdrs hextends) hgot hinit
      hremain hstep
  cases ret with
  | err => exact absurd rfl hret
  | ok =>
    exact ⟨fun hnot => absurd (hgot'.trans hgot) (hnot.trans_ne nofun),
      fun hguard => (hdone hguard).2 rfl⟩
  | finish => exact fun hguard => (hdone hguard).1

theorem cutsSafe_nil : CutsSafe board hdrs flash [] := by
  intro p hp kind
  rw [prefix_nil.mp hp]
  exact ⟨.inl fun _ _ => rfl, fun _ => .inl fun _ _ => rfl⟩

theorem PowerKeeps.header (h : PowerKeeps board flash s) (hgot : s.isGetOTAHdr = false)
    (hparsed : Parsed board s s' bytes r) : PowerKeeps board flash s' := by
  have htracked := h.start hgot
  have hempty : s'.trace = [] := hparsed.trace.trans (htracked.start hgot).1
  refine ⟨fun _ => htracked.header hgot hparsed, fun _ => ?_⟩
  refine ⟨htracked.header hgot hparsed, ?_, fun kind _ a _ => ?_⟩
  · rw [hempty]
    exact cutsSafe_nil _
  · rw [hempty]
    rfl

theorem power_steps :
    StepsKeep board flash (PowerKeeps board flash) (fun _ => PowerPost board flash) where
  eof _ h hguard := (h.run hguard).cuts
  readError _ h hguard := (h.run hguard).cuts
  headerError s s' h hgot htrace := by
    intro _
    rw [htrace, ((h.start hgot).start hgot).1]
    exact cutsSafe_nil _
  header _ _ _ _ h hgot hparsed := h.header hgot hparsed
  packet _ _ h hgot hne hlen := h.packet hgot hne hlen
  dropNextImg s h := by
    refine ⟨fun hnot => (h.start hnot).dropNextImg, fun hguard => ?_⟩
    have hinv := h.run (hguard.before rfl (prefix_refl _))
    exact ⟨hinv.tracked.dropNextImg, hinv.cuts, hinv.active⟩
  finish _ h hgot hinit hremain := h.finish hgot hinit hremain

end Runs

/-- **A power cut leaves every image bootable.** If packets keep to their slots, every prefix of the
    erases and writes leaves the active slot as it was or the new slot complete, and no new slot
    shows a pattern it should not. -/
theorem otaCoreProcess_cutsSafe (nextImg : Option NextImg) (script : List ReadResult)
    (hguard : PowerGuard board (otaCoreProcess board flash (initialState nextImg) script).state) :
    CutsSafe board (otaCoreProcess board flash (initialState nextImg) script).state.fileImgHdr
      flash (otaCoreProcess board flash (initialState nextImg) script).state.trace := by
  have hinit : PowerKeeps board flash (initialState nextImg) := by
    refine ⟨fun _ => tracked_initial, fun _ => ?_⟩
    exact ⟨tracked_initial, cutsSafe_nil _, fun _ _ _ _ => rfl⟩
  exact (power_steps).otaCoreProcess hinit script hguard

theorem bootImageStart_first_cuts : CutsSafe runningFromOta1
      (otaCoreProcess runningFromOta1 (fun _ => 0) (initialState none)
        (bootImageStart.take 3)).state.fileImgHdr (fun _ => 0)
      (otaCoreProcess runningFromOta1 (fun _ => 0) (initialState none)
        (bootImageStart.take 3)).state.trace :=
  otaCoreProcess_cutsSafe runningFromOta1 (fun _ => 0) none (bootImageStart.take 3)
    ⟨by decide +kernel, by decide +kernel, (absurd · (by decide)), (absurd · (by decide))⟩

/-- The bootloader runs from its second slot, the application from its first. -/
def bootFromOta2 : Board :=
  { runningFromOta1 with remap := fun i => if i = 0 then 0x82010001 else 0 }

/-- The sector behind the bootloader's first slot holds the running application. -/
theorem active_application_erased : ¬ CutsSafe bootFromOta2
      (otaCoreProcess bootFromOta2 (fun _ => 0) (initialState none)
        bootImageStart).state.fileImgHdr (fun _ => 0)
      (otaCoreProcess bootFromOta2 (fun _ => 0)
        (initialState none) bootImageStart).state.trace := by
  intro hcuts
  have hsafe := hcuts _ (prefix_refl _) .app
  rcases hsafe.kept with huntouched | ⟨⟨i, hi, hid, _⟩, _⟩
  · have hactive : bootFromOta2.layout.InSlot .app (bootFromOta2.activeSlot .app) 0x14000 := by
      decide +kernel
    have herased : flashAfter (fun _ => 0) (otaCoreProcess bootFromOta2 (fun _ => 0)
        (initialState none) bootImageStart).state.trace 0x14000 = 0xFF := by decide +kernel
    rw [huntouched _ hactive] at herased
    exact absurd herased (by decide)
  · have hboot : ∀ i < (otaCoreProcess bootFromOta2 (fun _ => 0) (initialState none)
        bootImageStart).state.fileImgHdr.length, ((otaCoreProcess bootFromOta2 (fun _ => 0)
        (initialState none) bootImageStart).state.fileImgHdr.getD i default).imgID ≠
          imgIDOf .app := by decide +kernel
    exact hboot i hi hid

end AmebaRtos.Ota
