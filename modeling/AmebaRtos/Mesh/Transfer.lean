import AmebaRtos.Mesh.Node

/-!
# What a node takes from the radio

The first status request says where the image goes and how long it is; the data packets say where
they belong. None of these fields is checked. As long as they fit the inactive slot, the callbacks
stay inside it, and the byte counter reaches the announced size only when every packet has been
stored once.
-/

namespace AmebaRtos.Mesh

open Lib Ota List

/-! ### What is to hold -/

def OnNode (P : Node → Prop) : NodeState → Prop
  | .running n => P n
  | .restarted n _ => P n
  | .fault n => P n
  | .overrun => False

variable (board : Board)

def OpInside (imageId : Nat) (op : FlashOp) : Prop :=
  ∃ kind, imageId = imgIDOf kind ∧
    ∀ a, op.Touches SECTOR a → board.layout.InSlot kind (board.newSlot kind) a

def StoredOnce (st : UpgradeStatus) (stored : List (Nat × Nat)) (seq : Nat) : Prop :=
  stored.filter (fun p => p.1 = seq) = [(seq, firmwareDataLen st.totalSize st.packetNum seq)]
deriving Decidable

structure NodeSafe (board : Board) (n : Node) : Prop where
  inside : ∀ p ∈ n.ops, OpInside board p.1 p.2
  complete : ∀ st, n.status = some st → st.writtenSize = st.totalSize →
    ∀ seq < st.packetNum, StoredOnce st n.stored seq

def TransferSafe : NodeState → Prop := OnNode (NodeSafe board)

/-! ### The condition -/

def Starts (n : Node) (r : StatusReq) : Prop :=
  r.status ≠ RMESH_OTA_STS_RESET ∧ n.waitInterOta = true ∧
    (n.currentStatus r).status ≠ .finished ∧ ¬ isKnown (n.currentStatus r) r

/-- The request announces an image with a slot pair, of which nothing has been written; the sectors
    to erase lie in its inactive slot, and the packets hold it. -/
def AnnouncementOk (r : StatusReq) : Prop :=
  ∃ kind, r.imageId = imgIDOf kind ∧ (r.totalSize / 4096 + 1) * 4096 ≤ board.newSize kind ∧
    r.writtenSize = 0 ∧ r.packetNum = packetCount RMESH_OTA_PACKET_SIZE r.totalSize

/-- A packet whose bit is clear is one of those announced. While the pointer to the bitmap is
    null, the bits are those of the ROM and no packets are announced. -/
def PacketOk (n : Node) (seq : Nat) (payload : List UInt8) : Prop :=
  ∀ st, n.status = some st → st.progressArray.getD n.rom.bits seq = false →
    seq < st.packetNum ∧ payload.length = firmwareDataLen st.totalSize st.packetNum seq

/-- The bitmap of an announced image fits the memory that an earlier request has allocated. -/
def TransferCond : NodeState → Event → Prop
  | .running n, .statusReq r _ _ =>
    Starts n r → AnnouncementOk board r ∧ r.bitmapSize ≤ (n.currentStatus r).capacity
  | .running n, .data seq payload => PacketOk n seq payload
  | _, _ => True

/-! ### The invariant -/

structure Collecting (board : Board) (st : UpgradeStatus) (bits : Nat → Bool)
    (stored : List (Nat × Nat)) : Prop where
  slot : ∃ kind, st.imageId = imgIDOf kind ∧ st.imageAddr = board.newOffset kind ∧
    (st.totalSize / 4096 + 1) * 4096 ≤ board.newSize kind
  packetNum : st.packetNum = packetCount RMESH_OTA_PACKET_SIZE st.totalSize
  bits : ∀ seq < st.packetNum, bits seq = true ↔ seq ∈ stored.map Prod.fst
  nodup : (stored.map Prod.fst).Nodup
  lens : ∀ p ∈ stored, p.1 < st.packetNum ∧ p.2 = packetLen RMESH_OTA_PACKET_SIZE st.totalSize p.1
  written : st.writtenSize = (stored.map Prod.snd).sum

def StatusOk (st : UpgradeStatus) (stored : List (Nat × Nat)) : Prop :=
  (st.progressArray = none ∧ st.packetNum = 0) ∨
    ∃ bits, st.progressArray = some bits ∧ Collecting board st bits stored

structure Transfer (board : Board) (n : Node) : Prop where
  inside : ∀ p ∈ n.ops, OpInside board p.1 p.2
  status : ∀ st, n.status = some st → StatusOk board st n.stored

section Complete

variable {board : Board} {bits : Nat → Bool} {stored : List (Nat × Nat)}

theorem packetSize_pos : 0 < RMESH_OTA_PACKET_SIZE := by decide

section

variable (h : Collecting board st bits stored)
include h

theorem Collecting.totalSize_lt : st.totalSize < 2 ^ 27 := by
  obtain ⟨kind, _, _, hfits⟩ := h.slot
  have hroom := board.newOffset_add_newSize_le kind
  omega

theorem Collecting.totalSize_pos (hseq : seq < st.packetNum) : 0 < st.totalSize := by
  rw [h.packetNum] at hseq
  by_contra hzero
  rw [Nat.eq_zero_of_not_pos hzero] at hseq
  exact absurd hseq (Nat.not_lt_zero seq)

theorem Collecting.dataLen_eq (hseq : seq < st.packetNum) :
    firmwareDataLen st.totalSize st.packetNum seq =
      packetLen RMESH_OTA_PACKET_SIZE st.totalSize seq := by
  have htotal := h.totalSize_pos hseq
  have hcount := h.packetNum
  have hstart := packet_start_lt packetSize_pos htotal (hcount ▸ hseq)
  have hmin := packetLen_eq_min packetSize_pos htotal (hcount ▸ hseq)
  unfold firmwareDataLen
  split
  · rename_i hlast
    have hlen : packetLen RMESH_OTA_PACKET_SIZE st.totalSize seq =
        st.totalSize - seq * RMESH_OTA_PACKET_SIZE := if_pos (by omega)
    have hcast : ((st.totalSize : Int) - seq * RMESH_OTA_PACKET_SIZE) =
        ((st.totalSize - seq * RMESH_OTA_PACKET_SIZE : Nat) : Int) := by
      rw [Int.ofNat_sub (le_of_lt hstart), Int.natCast_mul]
    simp only [RMESH_OTA_PACKET_SIZE] at hmin hlen hcast ⊢
    rw [hcast, u32_natCast (by omega)]
    omega
  · rename_i hlast
    exact (if_neg (by omega)).symm

end

theorem filter_fst_of_nodup {pairs : List (Nat × Nat)} (hnodup : (pairs.map Prod.fst).Nodup)
    (hmem : (seq, len) ∈ pairs) : pairs.filter (fun p => p.1 = seq) = [(seq, len)] := by
  have hsame : pairs.filter (fun p => p.1 = seq) = pairs.filter (· = (seq, len)) := by
    refine filter_congr fun p hp => decide_eq_decide.mpr ⟨fun h => ?_, congrArg Prod.fst⟩
    exact inj_on_of_nodup_map hnodup hp hmem h
  rw [hsame, filter_eq, count_eq_one_of_mem hnodup.of_map hmem]
  rfl

theorem stored_as_set (hnodup : (stored.map Prod.fst).Nodup)
    (hlens : ∀ p ∈ stored, p.1 < packetCount RMESH_OTA_PACKET_SIZE totalSize ∧
      p.2 = packetLen RMESH_OTA_PACKET_SIZE totalSize p.1) :
    (stored.map Prod.fst).toFinset ⊆ Finset.range (packetCount RMESH_OTA_PACKET_SIZE totalSize) ∧
      ∑ k ∈ (stored.map Prod.fst).toFinset, packetLen RMESH_OTA_PACKET_SIZE totalSize k =
        (stored.map Prod.snd).sum := by
  constructor
  · intro k hk
    obtain ⟨p, hp, rfl⟩ := mem_map.mp (mem_toFinset.mp hk)
    exact Finset.mem_range.mpr (hlens p hp).1
  · have hmapped : (stored.map Prod.fst).map (packetLen RMESH_OTA_PACKET_SIZE totalSize) =
        stored.map Prod.snd := by
      rw [map_map]
      exact map_congr_left fun p hp => (hlens p hp).2.symm
    rw [sum_toFinset _ hnodup, hmapped]

section

variable (h : Collecting board st bits stored) (hwritten : st.writtenSize = st.totalSize)
    (hseq : seq < st.packetNum)
include h hwritten hseq

/-- **The counter is enough.** When the bytes add up, every packet is there. -/
theorem Collecting.complete : seq ∈ stored.map Prod.fst := by
  obtain ⟨hsub, hsum⟩ := stored_as_set h.nodup (h.packetNum ▸ h.lens)
  have hall := packets_complete packetSize_pos (h.totalSize_pos hseq) hsub
    (hsum.trans (h.written.symm.trans hwritten))
  rw [← mem_toFinset, hall, Finset.mem_range, ← h.packetNum]
  exact hseq

theorem Collecting.storedOnce : StoredOnce st stored seq := by
  obtain ⟨⟨k, len⟩, hp, rfl⟩ := mem_map.mp (h.complete hwritten hseq)
  rw [StoredOnce, h.dataLen_eq hseq, ← (h.lens _ hp).2]
  exact filter_fst_of_nodup h.nodup hp

end

theorem Transfer.safe (h : Transfer board n) : NodeSafe board n := by
  refine ⟨h.inside, ?_⟩
  intro st hst hwritten seq hseq
  rcases h.status st hst with ⟨_, hnone⟩ | ⟨bits, _, hcollect⟩
  · rw [hnone] at hseq
    exact absurd hseq (Nat.not_lt_zero seq)
  · exact hcollect.storedOnce hwritten hseq

end Complete

/-! ### One event -/

section

variable {board : Board} {n : Node} {bits : Nat → Bool}

theorem opInside_erase {kind : ImgKind} {i : Nat} (hlt : (i + 1) * 4096 ≤ board.newSize kind) :
    OpInside board (imgIDOf kind) (.erase ((board.newOffset kind + 4096 * i) % 2 ^ 32)) := by
  refine ⟨kind, rfl, fun a htouch => ?_⟩
  have hroom := board.newOffset_add_newSize_le kind
  have haligned := board.newOffset_aligned kind
  change board.newOffset kind ≤ a ∧ a < board.newOffset kind + board.newSize kind
  simp only [FlashOp.Touches, SECTOR] at htouch haligned
  omega

theorem opInside_write (hfits : start + payload.length ≤ board.newSize kind) :
    OpInside board (imgIDOf kind) (.write ((board.newOffset kind + start) % 2 ^ 32) payload) := by
  refine ⟨kind, rfl, fun a htouch => ?_⟩
  have hroom := board.newOffset_add_newSize_le kind
  change board.newOffset kind ≤ a ∧ a < board.newOffset kind + board.newSize kind
  simp only [FlashOp.Touches] at htouch
  omega

theorem mem_issue (hp : p ∈ (n.issue imageId ops).ops) : p ∈ n.ops ∨ p.1 = imageId ∧ p.2 ∈ ops := by
  rcases mem_append.mp hp with hold | hnew
  · exact .inl hold
  · obtain ⟨op, hop, rfl⟩ := mem_map.mp hnew
    exact .inr ⟨rfl, hop⟩

theorem Collecting.fresh (h : Collecting board st bits stored) {seq : Nat}
    (hseq : seq < st.packetNum) (hnew : bits seq = false) : seq ∉ stored.map Prod.fst := by
  exact fun hmem => absurd ((h.bits seq hseq).mpr hmem) (hnew.trans_ne nofun)

theorem Collecting.store (h : Collecting board st bits stored) (hseq : seq < st.packetNum)
    (hnew : bits seq = false) (hlen : len = packetLen RMESH_OTA_PACKET_SIZE st.totalSize seq) :
    Collecting board
      { st with
        writtenSize := (st.writtenSize + len) % 2 ^ 32
        progressArray := some (Function.update bits seq true) }
      (Function.update bits seq true) (stored ++ [(seq, len)]) := by
  have htotal := h.totalSize_pos hseq
  have hall : ∀ p ∈ stored ++ [(seq, len)], p.1 < st.packetNum ∧
      p.2 = packetLen RMESH_OTA_PACKET_SIZE st.totalSize p.1 :=
    forall_mem_append.mpr ⟨h.lens, forall_mem_singleton.mpr ⟨hseq, hlen⟩⟩
  have hmapped : (stored ++ [(seq, len)]).map Prod.fst = stored.map Prod.fst ++ [seq] :=
    map_append
  have hnodup : ((stored ++ [(seq, len)]).map Prod.fst).Nodup := by
    rw [hmapped]
    exact h.nodup.append (nodup_singleton seq) (disjoint_singleton.mpr (h.fresh hseq hnew))
  refine ⟨h.slot, h.packetNum, ?_, hnodup, hall, ?_⟩
  · intro k hk
    by_cases hkseq : k = seq
    · simp [hkseq]
    · rw [Function.update_of_ne hkseq, h.bits k hk]
      simp [hkseq]
  · -- the sum of distinct packets stays below the total, so the counter does not wrap
    obtain ⟨hsub, hsum⟩ := stored_as_set hnodup (h.packetNum ▸ hall)
    have hle := sum_packets_le packetSize_pos htotal hsub
    have hlast : ((stored ++ [(seq, len)]).map Prod.snd).sum = st.writtenSize + len := by
      rw [map_append, sum_append, ← h.written]
      rfl
    have hlt := h.totalSize_lt
    exact (Nat.mod_eq_of_lt (by omega)).trans hlast.symm

theorem announced_imageAddr (himage : r.imageId = imgIDOf kind) (heapBits : Nat → Bool)
    (capacity : Nat) :
    (UpgradeStatus.announced board r heapBits capacity).imageAddr = board.newOffset kind := by
  change chipOffset (board.imgAddr r.imageId (board.targetSlot r.imageId)) = _
  rw [himage, Board.imgAddr_imgIDOf, chipOffset_start]
  rfl

theorem AnnouncementOk.collecting (hok : AnnouncementOk board r) (heapBits : Nat → Bool)
    (capacity : Nat) :
    ∃ bits, (UpgradeStatus.announced board r heapBits capacity).progressArray = some bits ∧
      Collecting board (UpgradeStatus.announced board r heapBits capacity) bits [] := by
  obtain ⟨kind, himage, hfits, hwritten, hcount⟩ := hok
  refine ⟨_, rfl, ⟨kind, himage, announced_imageAddr himage heapBits capacity, hfits⟩, hcount, ?_,
    nodup_nil, forall_mem_nil _, hwritten⟩
  intro seq hseq
  have hseq : seq < r.packetNum := hseq
  have hin : seq < 8 * (r.packetNum / 8 + 1) := by omega
  rw [if_pos hin]
  exact iff_of_false nofun not_mem_nil

theorem Transfer.storePacket (h : Transfer board n) (hstatus : n.status = some st)
    (hbits : st.progressArray = some bits) (hnew : bits seq = false) (hseq : seq < st.packetNum)
    (hlen : payload.length = firmwareDataLen st.totalSize st.packetNum seq) :
    Transfer board (storePacket n st bits seq payload) := by
  have hcollect : Collecting board st bits n.stored := by
    rcases h.status st hstatus with ⟨hnone, _⟩ | ⟨bits', hbits', hcollect⟩
    · rw [hnone] at hbits
      cases hbits
    · rw [hbits] at hbits'
      cases hbits'
      exact hcollect
  rw [hcollect.dataLen_eq hseq] at hlen
  constructor
  case inside =>
    intro p hp
    rcases mem_issue hp with hold | ⟨hid, hop⟩
    · exact h.inside p hold
    obtain ⟨kind, himage, haddr, hfits⟩ := hcollect.slot
    have hstop := packet_stop_le packetSize_pos (hcollect.totalSize_pos hseq)
      (hcollect.packetNum ▸ hseq)
    rw [hid, mem_singleton.mp hop, himage, haddr]
    apply opInside_write
    omega
  case status =>
    intro st' hst'
    cases hst'
    exact .inr ⟨_, rfl, hcollect.store hseq hnew hlen⟩

theorem Transfer.startUpdate (h : Transfer board n) (hok : AnnouncementOk board r)
    (capacity : Nat) :
    Transfer board (startUpdate board n r capacity) := by
  constructor
  case inside =>
    obtain ⟨kind, himage, hfits, _⟩ := hok
    intro p hp
    rcases mem_issue hp with hold | ⟨hid, hop⟩
    · exact h.inside p hold
    obtain ⟨i, hi, hop⟩ := mem_map.mp hop
    have hi : i < r.totalSize / 4096 + 1 := mem_range.mp hi
    have hlast : (i + 1) * 4096 ≤ board.newSize kind :=
      le_trans (Nat.mul_le_mul_right 4096 hi) hfits
    have hinside := @opInside_erase board kind i hlast
    rw [← announced_imageAddr himage n.heapBits capacity, ← himage] at hinside
    rw [hid, ← hop]
    exact hinside
  case status =>
    intro st hst
    cases hst
    exact .inr (hok.collecting n.heapBits capacity)

theorem Transfer.response (hinside : ∀ p ∈ n.ops, OpInside board p.1 p.2)
    (hst : StatusOk board st n.stored) (round : Nat) (doneSent progressSent : Bool) :
    OnNode (Transfer board) (statusResponse n st round doneSent progressSent) := by
  have hsame : ∀ st', some st = some st' → StatusOk board st' n.stored := by
    rintro _ ⟨⟩
    exact hst
  unfold statusResponse
  dsimp only
  split
  · exact ⟨hinside, hsame⟩
  split
  · exact ⟨hinside, hsame⟩
  split
  · refine ⟨hinside, ?_⟩
    rintro _ ⟨⟩
    rcases hst with hnone | ⟨bits, hbits, hcollect⟩
    · exact .inl hnone
    · exact .inr ⟨bits, hbits, { hcollect with }⟩
  · exact ⟨hinside, hsame⟩

variable (h : Transfer board n)
include h

theorem Transfer.downloadEnd (needClearSig : Bool) :
    OnNode (Transfer board) (rmeshOtaFirmwareDownloadEnd board n needClearSig) := by
  unfold rmeshOtaFirmwareDownloadEnd
  split
  · split
    · exact ⟨h.inside, h.status⟩
    · exact h
  · exact { h with }

theorem Transfer.statusReset : OnNode (Transfer board) (statusReset board n) := by
  unfold AmebaRtos.Mesh.statusReset
  dsimp only
  split
  · apply Transfer.downloadEnd
    exact { h with }
  split
  · apply Transfer.downloadEnd
    exact { h with }
  · exact { h with }

theorem Transfer.statusReq
    (hcond : Starts n r → AnnouncementOk board r ∧ r.bitmapSize ≤ (n.currentStatus r).capacity)
    (doneSent progressSent : Bool) :
    OnNode (Transfer board) (rmeshOtaStatusRequestCb board n r doneSent progressSent) := by
  -- a status that was just allocated is not announced
  have hcurrent : StatusOk board (n.currentStatus r) n.stored := by
    unfold Node.currentStatus
    cases hstatus : n.status with
    | none => exact .inl ⟨rfl, rfl⟩
    | some st => exact h.status st hstatus
  unfold rmeshOtaStatusRequestCb
  split
  · exact h.statusReset
  rename_i hreset
  split
  · exact h
  rename_i hwait
  dsimp only
  split
  · refine ⟨h.inside, fun st heq => ?_⟩
    cases heq
    exact hcurrent
  rename_i hunfinished
  split
  · exact Transfer.response h.inside hcurrent _ _ _
  rename_i hknown
  obtain ⟨hok, hroom⟩ := hcond ⟨hreset, eq_true_of_ne_false hwait, hunfinished, hknown⟩
  rw [if_neg (not_lt.mpr hroom)]
  have hstart := h.startUpdate hok (n.currentStatus r).capacity
  exact Transfer.response hstart.inside (hstart.status _ rfl) _ _ _

theorem Transfer.data (hcond : PacketOk n seq payload) :
    OnNode (Transfer board) (rmeshOtaDataCb n seq payload) := by
  unfold rmeshOtaDataCb
  split
  · exact h
  rename_i st hstatus
  split
  · rename_i hnull
    split
    · exact h
    · rename_i hnew
      -- no packet is announced while there is no bitmap
      have hseq := (hcond st hstatus (by simpa [hnull] using hnew)).1
      rcases h.status st hstatus with ⟨_, hnone⟩ | ⟨bits, hbits, _⟩
      · rw [hnone] at hseq
        exact absurd hseq (Nat.not_lt_zero seq)
      · cases hnull.symm.trans hbits
  · rename_i bits hbits
    split
    · exact h
    · rename_i hnew
      have hnew : bits seq = false := by simpa using hnew
      obtain ⟨hseq, hlen⟩ := hcond st hstatus (by rw [hbits]; exact hnew)
      exact h.storePacket hstatus hbits hnew hseq hlen

theorem Transfer.cmdRecv (inter : Bool) : Transfer board (rmeshOtaCmdRecv n inter) := by
  unfold rmeshOtaCmdRecv
  split
  · exact h
  split
  · exact ⟨h.inside, nofun⟩
  · exact { h with }

theorem Transfer.httpDone (nextImg : Option NextImg) (script : List ReadResult) :
    OnNode (Transfer board) (httpOtaDone board n nextImg script) := by
  unfold httpOtaDone
  dsimp only
  split
  · exact { h with }
  · split
    · exact { h with }
    · apply Transfer.downloadEnd
      exact { h with }
  · apply Transfer.downloadEnd
    exact { h with }

theorem Transfer.resetWaitTimer : OnNode (Transfer board) (rmeshOtaResetWaitTimer board n) := by
  unfold rmeshOtaResetWaitTimer
  split
  · exact { h with }
  · exact h.downloadEnd _

theorem Transfer.handle (hcond : TransferCond board (.running n) ev) :
    OnNode (Transfer board) (handle board n ev) := by
  cases ev with
  | cmdRecv inter => exact h.cmdRecv inter
  | httpEnter | httpStart | deauth =>
    simp only [AmebaRtos.Mesh.handle]
    split
    · exact { h with }
    · exact h
  | httpDone nextImg script =>
    simp only [AmebaRtos.Mesh.handle]
    split
    · exact h.httpDone nextImg script
    · exact h
  | statusReq r doneSent progressSent => exact h.statusReq hcond doneSent progressSent
  | data seq payload => exact h.data hcond
  | slaveAdd | waitAdd => exact { h with }
  | resetTimerFires =>
    simp only [AmebaRtos.Mesh.handle]
    split
    · apply Transfer.resetWaitTimer
      exact { h with }
    · exact h
  | updateTimerFires =>
    simp only [AmebaRtos.Mesh.handle]
    split
    · apply Transfer.downloadEnd
      exact { h with }
    · exact h
  | sendEnd =>
    simp only [AmebaRtos.Mesh.handle, rmeshOtaFirmwareSendEnd]
    split
    · apply Transfer.downloadEnd
      exact { h with }
    · exact { h with }

end

/-! ### Whole runs -/

theorem onNode_mono (h : ∀ n, P n → Q n) (hs : OnNode P s) : OnNode Q s := by
  cases s with
  | running n => exact h n hs
  | restarted n cleared => exact h n hs
  | fault n => exact h n hs
  | overrun => exact hs

/-- Under the condition the transfer stays right. -/
theorem transfer_step (s : NodeState) (ev : Event)
    (h : OnNode (Transfer board) s) (hcond : TransferCond board s ev) :
    OnNode (Transfer board) (nodeStep board s ev) := by
  cases s with
  | running n => exact Transfer.handle h hcond
  | restarted n cleared => exact h
  | fault n => exact h
  | overrun => exact h

theorem transfer_boot (flash : Memory) (heapBits : Nat → Bool) (rom : NullReads) :
    Transfer board (Node.boot flash heapBits rom) :=
  ⟨forall_mem_nil _, nofun⟩

/-- **What the radio may write.** If announcements and packets fit, the callbacks stay inside the
    inactive slot, and the counter is full only when every packet has been stored once. -/
theorem transfer_safe (flash : Memory) (heapBits : Nat → Bool) (rom : NullReads)
    (events : List Event)
    (hcond : Along (nodeStep board) (TransferCond board) (.running (Node.boot flash heapBits rom))
      events) :
    Throughout (nodeStep board) (TransferSafe board) (.running (Node.boot flash heapBits rom))
      events := by
  have hinit : OnNode (Transfer board) (.running (Node.boot flash heapBits rom)) :=
    transfer_boot board flash heapBits rom
  have hinv := hcond.throughout (transfer_step board) hinit
  exact hinv.mono fun s => onNode_mono fun n hn => Transfer.safe hn

/-- A node that runs from OTA1, on an erased flash. -/
def freshNode : NodeState := .running (Node.boot (fun _ => 0xFF) (fun _ => false) vectorTable)

/-- An application of two packets is announced and sent, the second one twice. -/
def twoPacketUpdate : List Event :=
  [.cmdRecv true, .statusReq ⟨0, 0, 2, OTA_IMGID_APP, 0, 1032, 0⟩ true true,
    .data 1 (List.replicate 8 0), .data 1 [1], .data 0 (List.replicate 1024 0)]

theorem twoPacketUpdate_safe :
    Throughout (nodeStep runningFromOta1) (TransferSafe runningFromOta1) freshNode
      twoPacketUpdate := by
  apply transfer_safe
  refine ⟨trivial, fun _ => ⟨⟨.app, rfl, by decide, rfl, rfl⟩, by decide⟩, ?_, ?_, ?_, trivial⟩
  · intro st hst _
    cases hst
    exact ⟨by decide, by decide⟩
  · intro st hst hclear
    cases hst
    exact absurd hclear (by decide)
  · intro st hst _
    cases hst
    exact ⟨by decide, List.length_replicate.trans (by decide)⟩

/-- A bootloader as long as its slot is announced. -/
def overlongUpdate : List Event :=
  [.cmdRecv true, .statusReq ⟨0, 0, 80, OTA_IMGID_BOOT, 0, 0x14000, 0⟩ true true]

/-- One packet is announced, and a packet with another number is sent. -/
def misplacedPacket : List Event :=
  [.cmdRecv true, .statusReq ⟨0, 0, 1, OTA_IMGID_APP, 0, 8, 0⟩ true true,
    .data 1 (List.replicate 8 0)]

/-- A request that announces nothing makes the node allocate its status; then a packet comes. -/
def unannouncedPacket : List Event :=
  [.cmdRecv true, .statusReq ⟨0, 0, 0, 0, 0, 0, 0⟩ true true, .data 1 [1]]

/-- The sector behind the slot is erased, where the inactive application starts; the counter is
    full although the packet was never stored; and a packet is written behind address 0. -/
theorem radio_fields_unchecked :
    ¬ TransferSafe runningFromOta1 (overlongUpdate.foldl (nodeStep runningFromOta1) freshNode) ∧
    ¬ TransferSafe runningFromOta1
      (misplacedPacket.foldl (nodeStep runningFromOta1) freshNode) ∧
    ¬ TransferSafe runningFromOta1
      (unannouncedPacket.foldl (nodeStep runningFromOta1) freshNode) := by
  refine ⟨?_, ?_, ?_⟩
  · intro hsafe
    have hmem : (OTA_IMGID_BOOT, FlashOp.erase 0x214000) ∈
        (eraseOps 0x200000 0x14000).map (OTA_IMGID_BOOT, ·) := by decide
    obtain ⟨kind, hkind, hinside⟩ := hsafe.inside _ hmem
    have hkind : kind = .boot := imgIDOf_inj hkind.symm
    subst hkind
    have hin := hinside 0x214000 rfl
    exact absurd hin (by decide)
  · intro hsafe
    have hstored := hsafe.complete _ rfl (by decide) 0 (by decide)
    exact absurd hstored (by decide)
  · intro hsafe
    obtain ⟨kind, hkind, hinside⟩ := hsafe.inside (0, .write 0x400 [1]) (.head _)
    have hkind : kind = .boot := imgIDOf_inj hkind.symm
    subst hkind
    exact absurd (hinside 0x400 ⟨by decide, by decide⟩) (by decide)

end AmebaRtos.Mesh
