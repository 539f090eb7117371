import AmebaRtos.Ota.Tracking

/-!
# Where an update writes

Every sector an update erases and every byte it writes should lie in the inactive slot of its
image. That is so exactly as long as `PacketSafe` holds of every packet: the erase position counts
the manifest twice and runs ahead of the data, an image ID is not checked against the table, and
an image shorter than its manifest makes a length negative.
-/

namespace AmebaRtos.Ota

open Lib List

def EventContained (board : Board) (hdrs : List SubHdr) : Event → Prop
  | .flash i op => ∃ kind, (hdrs.getD i default).imgID = imgIDOf kind ∧
      ∀ a, op.Touches SECTOR a → board.layout.InSlot kind (board.newSlot kind) a
  | .packet .. => True
  | .finished .. => True

/-- A run that writes nothing outside the inactive slots. A run that ends in
    undefined behaviour writes anything. -/
structure Contained (board : Board) (exit : Exit) (s : OtaState) : Prop where
  defined : exit ≠ .fault
  inside : ∀ e ∈ s.trace, EventContained board s.fileImgHdr e

section Operations

variable {board : Board}

theorem BodyOps.inside (h : BodyOps board flash s ops) :
    ∀ op ∈ ops, EventContained board s.fileImgHdr (.flash s.index op) := by
  intro op hop
  rcases h with rfl | ⟨kind, bytes, packet, hkind, _, _, _, _, hfits, rfl⟩
  · exact absurd hop not_mem_nil
  · exact ⟨kind, hkind, fill_inSlot hfits op hop⟩

theorem BodyDone.inside (h : BodyDone board flash s kind bytes) (hsigned : s.hdr.signed = true)
    (hswitch : board.switchByValidHeader = false) :
    ∀ op ∈ updateOps board s, EventContained board s.fileImgHdr (.flash s.index op) := by
  intro op hop
  rw [h.updateOps_eq hsigned, hswitch] at hop
  exact ⟨kind, h.slot.imgID, h.manifest_inSlot op hop⟩

/-! ### Stray packets -/

theorem body_of_ok (hready : Ready board s n) (hbody : MANIFEST_SIZE < n + packet.length)
    (hne : packet ≠ []) (hok : downloadPacketProcess board s packet = .ok s') :
    0 < (packet.drop (MANIFEST_SIZE - n)).length ∧ ∃ s1 len,
      stashNextImg (cached board s n packet) packet (packet.drop (MANIFEST_SIZE - n)) =
        .ok (s1, len) ∧
      programBody s1 (packet.drop (MANIFEST_SIZE - n)) len = .ok s' := by
  have hpos : 0 < packet.length := length_pos_iff.mpr hne
  have hdrop : packet.drop (MANIFEST_SIZE - n) ≠ [] := by
    rw [Ne, drop_eq_nil_iff]
    omega
  refine ⟨length_pos_iff.mpr hdrop, ?_⟩
  exact ((downloadPacketProcess_ok hready hok).resolve_left fun hempty => hdrop hempty.1).2

section Body

variable {packet : List UInt8} (hready : Ready board s n)
  (hbody : MANIFEST_SIZE < n + packet.length) (hne : packet ≠ [])
include hready hbody hne

theorem not_ok_of_start_gt (hlen : s.hdr.imgLen < 2 ^ 28) (hgt : s.hdr.imgLen < n) :
    downloadPacketProcess board s packet ≠ .ok s' := by
  intro hok
  obtain ⟨hpos, s1, len, hstash, _⟩ := body_of_ok hready hbody hne hok
  have hremain := cached_remainBytes hready packet
  rw [remainBytes_of_short (Nat.lt_trans hlen (by decide))] at hremain
  rcases stashNextImg_frame (cached board s n packet) packet (packet.drop (MANIFEST_SIZE - n)) with
    ⟨s2, hout, _⟩ | ⟨_, _, _, _, _, hfits⟩
  · rw [hout] at hstash
    cases hstash
  · rw [length_drop] at hpos
    rw [length_drop] at hfits
    omega

variable (hskip : (initDownload board s).skipBootOTAFg = false)
include hskip

theorem not_ok_of_imgLen_lt (hlt : s.hdr.imgLen < MANIFEST_SIZE)
    : downloadPacketProcess board s packet ≠ .ok s' := by
  intro hok
  obtain ⟨hpos, s1, len, hstash, hprogram⟩ := body_of_ok hready hbody hne hok
  have hremain := cached_remainBytes hready packet
  rw [remainBytes_of_short (Nat.lt_trans hlt (by decide))] at hremain
  rcases stashNextImg_ok hstash with ⟨hnonneg, _⟩ | ⟨_, rfl, _, rfl⟩
  · omega
  · have hneg := (programBody_ok_nonneg hprogram hskip).1
    omega

/-- The first packet with body bytes of an image erases a sector, whatever its ID. -/
theorem erase_of_ok (hnext : (initDownload board s).nextEraseSector = 0)
    (hok : downloadPacketProcess board s packet = .ok s') :
    ∃ addr, .flash s.index (.erase addr) ∈ s'.trace := by
  obtain ⟨_, s1, len, hstash, hprogram⟩ := body_of_ok hready hbody hne hok
  have hindex : (cached board s n packet).index = s.index :=
    (sameImage_cached board s n packet).index
  have hs1 : s1.nextEraseSector = 0 ∧ s1.skipBootOTAFg = false ∧ s1.index = s.index := by
    rcases stashNextImg_ok hstash with ⟨_, _, rfl⟩ | ⟨_, _, _, rfl⟩ <;>
      exact ⟨hnext, hskip, hindex⟩
  have herase := (programBody_ok_nonneg hprogram hs1.2.1).2 (by rw [hs1.1]; exact Nat.zero_le _)
  rw [hs1.2.2] at herase
  exact ⟨_, herase⟩

end Body

/-- A sector past the end of the slot is erased by the packet that reaches it. -/
theorem fillErase_escapes {n n' : Nat} (hbefore : MANIFEST_SIZE < n → n + 23 < board.newSize kind)
    (hafter : board.newSize kind ≤ n' + 23) :
    ∃ op ∈ fillErase (board.newOffset kind) n n',
      ¬ ∀ a, op.Touches SECTOR a → board.layout.InSlot kind (board.newSlot kind) a := by
  have hsize : board.newSize kind % SECTOR = 0 := board.layout.slotSize_aligned kind _
  have hdue : (n' + 23) / SECTOR ≥ nextSector n := by
    by_cases hn : n ≤ MANIFEST_SIZE
    · rw [nextSector_of_le hn]
      exact Nat.zero_le _
    have hlt := Nat.lt_of_not_le hn
    rw [nextSector_of_lt hlt]
    simp only [SECTOR] at hsize ⊢
    omega
  rw [fillErase, if_pos hdue]
  refine ⟨_, .head _, fun hinside => ?_⟩
  have hin := hinside (board.newOffset kind + (n' + 23) / SECTOR * SECTOR) rfl
  have hlt : board.newOffset kind + (n' + 23) / SECTOR * SECTOR <
    board.newOffset kind + board.newSize kind := hin.2
  simp only [SECTOR] at hlt hsize
  omega

/-- **A stray packet shows.** If the call returns at all, the trace then holds an
    operation outside the image's slot. -/
theorem Tracked.stray (h : Tracked board flash s) (hgot : s.isGetOTAHdr = true)
    {packet : List UInt8} (hne : packet ≠ []) (hlen : packet.length ≤ OTA_BUF_SIZE)
    (hstray : ¬ PacketSafe board (.packet s.index s.hdr (initDownload board s).readBytes packet))
    (hok : downloadPacketProcess board s packet = .ok s') :
    ∃ e ∈ s'.trace, ¬ EventContained board s.fileImgHdr e := by
  cases h.ready with
  | skipped n hprog hskip =>
    exfalso
    have hskipped := hprog.skip_iff.mp hskip
    rw [initDownload_hdr] at hskipped
    have hboot : s.hdr.imgID = imgIDOf .boot := hskipped.1
    rw [hprog.readBytes] at hstray
    simp only [PacketSafe, not_or, not_and, hskipped, true_or, not_true, imp_false] at hstray
    exact not_ok_of_start_gt (ready_of_progress hprog) (by omega) hne (h.imgLen_lt hgot hboot)
      (by omega) hok
  | receiving bytes hrecv hskip hfits =>
    have hready := ready_of_progress hrecv.progress
    rw [hrecv.progress.readBytes] at hstray
    simp only [PacketSafe, not_or, not_and, not_exists] at hstray
    obtain ⟨hbody, hwhere⟩ := hstray
    have hbody : MANIFEST_SIZE < bytes.length + packet.length := by omega
    by_cases hkind : ∃ kind, s.hdr.imgID = imgIDOf kind
    · obtain ⟨kind, hkind⟩ := hkind
      have himgLen := h.imgLen_lt hgot hkind
      by_cases hle : bytes.length ≤ s.hdr.imgLen
      · have hmanifest : MANIFEST_SIZE ≤ s.hdr.imgLen := by
          refine Nat.le_of_not_lt fun hlt => ?_
          exact not_ok_of_imgLen_lt hready hbody hne hskip hlt hok
        have hover := (hwhere (by omega)).2 kind hkind hmanifest
        obtain ⟨s1, hok1, hstep⟩ := hrecv.step hne hlen
          fun _ => ⟨⟨kind, hkind, hmanifest, himgLen⟩, hle⟩
        rw [hok] at hok1
        cases hok1
        have hskip' : s'.skipBootOTAFg = false := by
          rw [Bool.eq_false_iff, Ne, hstep.receiving.progress.skip_iff, hstep.same.hdr]
          exact (hwhere (by omega)).1
        obtain ⟨op, hop, houtside⟩ := @fillErase_escapes board kind bytes.length
          (bytes.length + packet.length)
          (fun hlong => by
            obtain ⟨kind', hslot, hfit⟩ := hfits hlong
            have hid := hslot.imgID
            rw [initDownload_hdr, hkind] at hid
            rw [imgIDOf_inj hid]
            exact hfit)
          (by omega)
        refine ⟨.flash s.index op, ?_, ?_⟩
        · rw [hstep.trace, packetOps, hskip', if_neg (by simpa using hbody), hkind,
            imgKind?_imgIDOf]
          refine mem_append_right _ (.tail _ ?_)
          exact mem_map_of_mem (mem_append_left _ hop)
        · rintro ⟨kind', hkind', hinside⟩
          have hid : imgIDOf kind = imgIDOf kind' := hkind.symm.trans hkind'
          rw [← imgIDOf_inj hid] at hinside
          exact houtside hinside
      · exact absurd hok (not_ok_of_start_gt hready hbody hne himgLen (by omega))
    · -- an image ID without a slot: the first body byte erases somewhere
      have hshort : bytes.length ≤ MANIFEST_SIZE := by
        refine Nat.le_of_not_lt fun hlong => ?_
        obtain ⟨kind, hslot, _⟩ := hfits hlong
        have hid := hslot.imgID
        rw [initDownload_hdr] at hid
        exact hkind ⟨kind, hid⟩
      have hnext := hrecv.nextErase hskip
      rw [nextSector_of_le hshort] at hnext
      obtain ⟨addr, herase⟩ := erase_of_ok hready hbody hne hskip hnext hok
      refine ⟨_, herase, ?_⟩
      rintro ⟨kind, hid, _⟩
      exact hkind ⟨kind, hid⟩

end Operations

/-! ### Whole runs -/

section

structure Containing (board : Board) (flash : Memory) (s : OtaState) : Prop where
  tracked : Tracked board flash s
  inside : ∀ e ∈ s.trace, EventContained board s.fileImgHdr e

structure Escaped (board : Board) (s : OtaState) : Prop where
  isGetOTAHdr : s.isGetOTAHdr = true
  stray : ∃ e ∈ s.trace, ¬ PacketSafe board e
  outside : ∃ e ∈ s.trace, ¬ EventContained board s.fileImgHdr e

structure ContainInv (board : Board) (flash : Memory) (s : OtaState) : Prop where
  start : s.isGetOTAHdr = false → Tracked board flash s
  run : NoBareManifest s → Containing board flash s ∨ Escaped board s

def ContainPost (board : Board) (exit : Exit) (s : OtaState) : Prop :=
  NoBareManifest s → (Contained board exit s ∧ ∀ e ∈ s.trace, PacketSafe board e) ∨
    (¬ Contained board exit s ∧ ∃ e ∈ s.trace, ¬ PacketSafe board e)

theorem Escaped.mono (h : Escaped board s) (hgot : s'.isGetOTAHdr = s.isGetOTAHdr)
    (hhdrs : s'.fileImgHdr = s.fileImgHdr) (htrace : s.trace <+: s'.trace) : Escaped board s' := by
  obtain ⟨e, he, hstray⟩ := h.stray
  obtain ⟨e', he', houtside⟩ := h.outside
  refine ⟨hgot.trans h.isGetOTAHdr, ⟨e, htrace.subset he, hstray⟩, ⟨e', htrace.subset he', ?_⟩⟩
  rw [hhdrs]
  exact houtside

theorem Escaped.post (h : Escaped board s) (exit : Exit) : ContainPost board exit s := by
  intro _
  obtain ⟨e, he, houtside⟩ := h.outside
  exact .inr ⟨fun hcontained => houtside (hcontained.inside e he), h.stray⟩

theorem ContainInv.post (h : ContainInv board flash s) (hexit : exit ≠ .fault) :
    ContainPost board exit s := by
  intro hlens
  rcases h.run hlens with hcontaining | hescaped
  · exact .inl ⟨⟨hexit, hcontaining.inside⟩, hcontaining.tracked.safe⟩
  · exact hescaped.post exit hlens

/-- A packet keeps to the slots, or leaves them and is a stray one, or does not return
    and is a stray one. -/
theorem Containing.packet {packet : List UInt8} (h : Containing board flash s)
    (hgot : s.isGetOTAHdr = true) (hne : packet ≠ []) (hlen : packet.length ≤ OTA_BUF_SIZE) :
    (∃ s', downloadPacketProcess board s packet = .ok s' ∧
      (Containing board flash s' ∨ Escaped board s')) ∨
    (∃ s', downloadPacketProcess board s packet = .error s' ∧
      ∃ e ∈ s'.trace, ¬ PacketSafe board e) := by
  by_cases hsafe : PacketSafe board (.packet s.index s.hdr (initDownload board s).readBytes packet)
  · obtain ⟨s', ops, hok, htracked, hsame, _, htrace, hops⟩ := h.tracked.packet hgot hne hlen hsafe
    refine .inl ⟨s', hok, .inl ⟨htracked, fun e he => ?_⟩⟩
    rw [htrace] at he
    rw [hsame.fileImgHdr]
    rcases mem_append.mp he with hold | hnew
    · exact h.inside e hold
    rcases mem_cons.mp hnew with rfl | hflash
    · trivial
    · obtain ⟨op, hop, rfl⟩ := mem_map.mp hflash
      exact hops.inside op hop
  obtain ⟨hsame, _⟩ := downloadPacketProcess_frame board s packet
  have hpacket := hsame.trace.subset (mem_append_right _ (.head _))
  rcases hresult : downloadPacketProcess board s packet with s' | s'
  · rw [hresult] at hpacket
    exact .inr ⟨s', rfl, _, hpacket, hsafe⟩
  obtain ⟨e, he, houtside⟩ := h.tracked.stray hgot hne hlen hsafe hresult
  rw [hresult] at hsame hpacket
  have hhdrs : s'.fileImgHdr = s.fileImgHdr := hsame.fileImgHdr
  refine .inl ⟨s', rfl, .inr ⟨hsame.isGetOTAHdr.trans hgot, ⟨_, hpacket, hsafe⟩, e, he, ?_⟩⟩
  rw [hhdrs]
  exact houtside

theorem Escaped.packet (h : Escaped board s) (packet : List UInt8) :
    Escaped board (outState (downloadPacketProcess board s packet)) := by
  obtain ⟨hsame, _⟩ := downloadPacketProcess_frame board s packet
  exact h.mono hsame.isGetOTAHdr hsame.fileImgHdr ((prefix_append _ _).trans hsame.trace)

theorem containInv_packet {packet : List UInt8} (h : ContainInv board flash s)
    (hgot : s.isGetOTAHdr = true) (hne : packet ≠ []) (hlen : packet.length ≤ OTA_BUF_SIZE) :
    PacketOk (ContainInv board flash) (ContainPost board)
      (downloadPacketProcess board s packet) := by
  obtain ⟨hsame, hinit⟩ := downloadPacketProcess_frame board s packet
  have hlens : NoBareManifest (outState (downloadPacketProcess board s packet)) →
      NoBareManifest s := by
    intro hlens hdr hhdr
    exact hlens hdr (by rw [hsame.fileImgHdr]; exact hhdr)
  have hescape := fun hescaped : Escaped board s => hescaped.packet packet
  rcases hresult : downloadPacketProcess board s packet with s' | s'
  · rw [hresult] at hlens hescape
    intro hlens'
    rcases h.run (hlens hlens') with hcontaining | hescaped
    · rcases hcontaining.packet hgot hne hlen with ⟨_, hok, _⟩ | ⟨_, herr, hstray⟩
      · rw [hresult] at hok
        cases hok
      · rw [hresult] at herr
        cases herr
        exact .inr ⟨fun hcontained => hcontained.defined rfl, hstray⟩
    · exact (hescape hescaped).post .fault hlens'
  rw [hresult] at hlens hescape hsame hinit
  have hgot' : s'.isGetOTAHdr = true := hsame.isGetOTAHdr.trans hgot
  refine ⟨⟨fun hnot => ?_, fun hlens' => ?_⟩, hgot', hinit⟩
  · rw [hgot'] at hnot
    cases hnot
  rcases h.run (hlens hlens') with hcontaining | hescaped
  · rcases hcontaining.packet hgot hne hlen with ⟨_, hok, hkeeps⟩ | ⟨_, herr, _⟩
    · rw [hresult] at hok
      cases hok
      exact hkeeps
    · rw [hresult] at herr
      cases herr
  · exact .inr (hescape hescaped)

theorem Containing.finish (h : Containing board flash s) (hgot : s.isGetOTAHdr = true)
    (hinit : s.isDnldInit = true) (hremain : s.remainBytes ≤ 0) (hlens : NoBareManifest s)
    (hswitch : board.switchByValidHeader = false)
    (hstep : FinishStep board flash s s' (s.size + MANIFEST_SIZE) ret) :
    (ret = .ok → Tracked board flash s') ∧ (∀ e ∈ s'.trace, PacketSafe board e) ∧
      ∀ e ∈ s'.trace, EventContained board s'.fileImgHdr e := by
  have hmem := hdr_mem (h.tracked.index hgot)
  -- both ways of finishing, with the operations they issue
  obtain ⟨ops, skipped, hnext, hops⟩ : ∃ (ops : List FlashOp) (skipped : Bool),
      NextStep { s with trace := s.trace ++ ops.map (.flash s.index) } s' skipped ret ∧
      ∀ op ∈ ops, EventContained board s.fileImgHdr (.flash s.index op) := by
    rcases hstep.how with ⟨_, hnext⟩ | ⟨hskip, hnext, _⟩
    · refine ⟨[], true, ?_, fun op hop => absurd hop not_mem_nil⟩
      simpa using hnext
    · obtain ⟨kind, bytes, hdone⟩ := h.tracked.bodyDone hinit hskip hremain (hlens _ hmem)
        hstep.size
      exact ⟨_, false, hnext, hdone.inside (h.tracked.signed _ hmem) hswitch⟩
  have htrace : s'.trace = (s.trace ++ ops.map (.flash s.index)) ++
    [.finished s.index s.readBytes skipped] := hnext.trace
  refine ⟨fun hret => h.tracked.next hgot hinit (hret ▸ hnext), fun e he => ?_, fun e he => ?_⟩
  · rw [htrace] at he
    simp only [mem_append, mem_map, mem_singleton] at he
    rcases he with (hold | ⟨op, _, rfl⟩) | rfl
    · exact h.tracked.safe e hold
    · trivial
    · trivial
  · rw [htrace] at he
    rw [hnext.fileImgHdr]
    simp only [mem_append, mem_map, mem_singleton] at he
    rcases he with (hold | ⟨op, hop, rfl⟩) | rfl
    · exact h.inside e hold
    · exact hops op hop
    · trivial

theorem containInv_finish (h : ContainInv board flash s) (hgot : s.isGetOTAHdr = true)
    (hinit : s.isDnldInit = true) (hremain : s.remainBytes ≤ 0)
    (hswitch : board.switchByValidHeader = false) :
    RoundOk (ContainInv board flash) (ContainPost board)
      (.ok (downloadFinish board flash s (s.size + MANIFEST_SIZE))) := by
  rcases downloadFinish_cases board flash s (s.size + MANIFEST_SIZE) with
    herr | ⟨s', _, _, _, hupdated⟩ | ⟨s', ret, hfinish, hret, hstep⟩
  · rw [herr]
    exact h.post (by decide)
  · rw [Board.otaStorageUpdateManifest, hswitch] at hupdated
    cases hupdated
  rw [hfinish]
  obtain ⟨hhdrs, hgot', hextends, _⟩ := hstep.position
  have hlens : NoBareManifest s' → NoBareManifest s := by
    intro hlens hdr hhdr
    exact hlens hdr (by rw [hhdrs]; exact hhdr)
  have hescape := fun hescaped : Escaped board s => hescaped.mono hgot' hhdrs hextends
  cases ret with
  | err => exact absurd rfl hret
  | ok =>
    refine ⟨fun hnot => ?_, fun hlens' => ?_⟩
    · rw [hgot', hgot] at hnot
      cases hnot
    rcases h.run (hlens hlens') with hcontaining | hescaped
    · obtain ⟨htracked, _, hinside⟩ :=
        hcontaining.finish hgot hinit hremain (hlens hlens') hswitch hstep
      exact .inl ⟨htracked rfl, hinside⟩
    · exact .inr (hescape hescaped)
  | finish =>
    intro hlens'
    rcases h.run (hlens hlens') with hcontaining | hescaped
    · obtain ⟨_, hsafe, hinside⟩ :=
        hcontaining.finish hgot hinit hremain (hlens hlens') hswitch hstep
      exact .inl ⟨⟨by decide, hinside⟩, hsafe⟩
    · exact (hescape hescaped).post .finished hlens'

theorem containInv_header (h : ContainInv board flash s) (hgot : s.isGetOTAHdr = false)
    (hparsed : Parsed board s s' bytes r) : ContainInv board flash s' := by
  have htracked := h.start hgot
  refine ⟨fun hnot => ?_, fun _ => .inl ⟨htracked.header hgot hparsed, fun e he => ?_⟩⟩
  · rw [hparsed.isGetOTAHdr] at hnot
    cases hnot
  · rw [hparsed.trace, (htracked.start hgot).1] at he
    exact absurd he not_mem_nil

theorem contain_steps (hswitch : board.switchByValidHeader = false) :
    StepsKeep board flash (ContainInv board flash) (ContainPost board) where
  eof _ h := h.post (by decide)
  readError _ h := h.post (by decide)
  headerError s s' h hgot htrace := by
    have hempty := ((h.start hgot).start hgot).1
    rw [hempty] at htrace
    intro _
    refine .inl ⟨⟨by decide, fun e he => ?_⟩, fun e he => ?_⟩
    · rw [htrace] at he
      exact absurd he not_mem_nil
    · rw [htrace] at he
      exact absurd he not_mem_nil
  header _ _ _ _ h hgot hparsed := containInv_header h hgot hparsed
  packet _ _ h hgot hne hlen := containInv_packet h hgot hne hlen
  dropNextImg s h := by
    refine ⟨fun hnot => (h.start hnot).dropNextImg, fun hlens => ?_⟩
    rcases h.run hlens with hcontaining | hescaped
    · exact .inl ⟨hcontaining.tracked.dropNextImg, hcontaining.inside⟩
    · exact .inr ⟨hescaped.isGetOTAHdr, hescaped.stray, hescaped.outside⟩
  finish _ h hgot hinit hremain := containInv_finish h hgot hinit hremain hswitch

end

/-- **An update keeps to the inactive slots exactly when no packet strays.** For a
    build that switches by version and a header that announces no bare manifest. -/
theorem otaCoreProcess_contained_iff (board : Board) (flash : Memory) (nextImg : Option NextImg)
    (script : List ReadResult) (hswitch : board.switchByValidHeader = false)
    (hlens : NoBareManifest (otaCoreProcess board flash (initialState nextImg) script).state) :
    Contained board (otaCoreProcess board flash (initialState nextImg) script).exit
        (otaCoreProcess board flash (initialState nextImg) script).state ↔
      ∀ e ∈ (otaCoreProcess board flash (initialState nextImg) script).state.trace,
        PacketSafe board e := by
  have hinit : ContainInv board flash (initialState nextImg) := by
    refine ⟨fun _ => tracked_initial, fun _ => .inl ⟨tracked_initial, ?_⟩⟩
    exact fun e he => absurd he not_mem_nil
  have hpost := (contain_steps hswitch).otaCoreProcess hinit script hlens
  rcases hpost with ⟨hcontained, hsafe⟩ | ⟨hescaped, e, he, hstray⟩
  · exact ⟨fun _ => hsafe, fun _ => hcontained⟩
  · exact ⟨fun hcontained => absurd hcontained hescaped, fun hsafe => absurd (hsafe e he) hstray⟩

def bootImageHeader (imgLen : Nat) : List UInt8 :=
  toLE 4 0xFFFFFFFF ++ toLE 4 1 ++ [0x4F, 0x54, 0x41, 0x31] ++ toLE 4 24 ++ toLE 4 0 ++
    toLE 4 imgLen ++ toLE 4 32 ++ toLE 4 0

/-- The first 81897 bytes of a bootloader image that fits its slot of 81920 bytes. -/
def bootImageStart : List ReadResult :=
  .data (bootImageHeader 81919) :: List.replicate 39 (.data (List.replicate 2048 0)) ++
    [.data (List.replicate 2025 0)]

theorem bootImageStart_first_packets : Contained runningFromOta1
      (otaCoreProcess runningFromOta1 (fun _ => 0xFF) (initialState none)
        (bootImageStart.take 3)).exit
      (otaCoreProcess runningFromOta1 (fun _ => 0xFF) (initialState none)
        (bootImageStart.take 3)).state :=
  (otaCoreProcess_contained_iff runningFromOta1 (fun _ => 0xFF) none (bootImageStart.take 3) rfl
    (by decide +kernel)).mpr (by decide +kernel)

/-- The last byte makes the code erase the sector behind the slot, the first of the application's
    slot. -/
theorem sector_behind_slot_erased : .flash 0 (.erase 0x214000) ∈
        (otaCoreProcess runningFromOta1 (fun _ => 0xFF) (initialState none)
          bootImageStart).state.trace ∧
      ¬ Contained runningFromOta1
        (otaCoreProcess runningFromOta1 (fun _ => 0xFF) (initialState none) bootImageStart).exit
        (otaCoreProcess runningFromOta1 (fun _ => 0xFF) (initialState none)
          bootImageStart).state := by
  have herase : .flash 0 (.erase 0x214000) ∈
      (otaCoreProcess runningFromOta1 (fun _ => 0xFF) (initialState none)
        bootImageStart).state.trace := by decide +kernel
  have hboot : ((otaCoreProcess runningFromOta1 (fun _ => 0xFF) (initialState none)
      bootImageStart).state.fileImgHdr.getD 0 default).imgID = imgIDOf .boot := by decide +kernel
  refine ⟨herase, fun hcontained => ?_⟩
  obtain ⟨kind, hkind, hinside⟩ := hcontained.inside _ herase
  rw [hboot] at hkind
  rw [← imgIDOf_inj hkind] at hinside
  exact absurd (hinside 0x214000 rfl) (by decide)

end AmebaRtos.Ota
