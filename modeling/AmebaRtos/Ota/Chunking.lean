import AmebaRtos.Ota.Loading

/-!
# How the file is cut into reads

The loop of `ota_core_process` looks at the bytes behind the end of an image only when the next
read arrives. A file whose last read holds the end of its first image and all of its second
therefore ends with the second still waiting in `NextImgBuf`. Apart from that, and from the
sectors erased ahead of the second image, every way of cutting the file loads the images.
-/

namespace AmebaRtos.Ota

open Lib List

/-- An OTA file: at least one image, and no two for the same slot pair. -/
structure OtaFile (board : Board) where
  fwVer : Nat
  images : List (FileImage board)
  images_ne : images ≠ []
  count_le : images.length ≤ OTA_IMGID_MAX
  kinds : (images.map FileImage.kind).Nodup

namespace OtaFile

variable (file : OtaFile board)

def hdrs : List SubHdr := file.images.map FileImage.hdr

def header : List UInt8 :=
  toLE 4 file.fwVer ++ toLE 4 file.images.length ++ file.hdrs.flatMap SubHdr.encode

def body : List UInt8 := file.images.flatMap FileImage.bytes

def bytes : List UInt8 := file.header ++ file.body

end OtaFile

/-- The bytes of a stream in reads of 1 to 2048 bytes. -/
structure Reads (bytes : List UInt8) where
  chunks : List (List UInt8)
  flatten_eq : chunks.flatten = bytes
  chunk_ne : ∀ c ∈ chunks, c ≠ []
  chunk_le : ∀ c ∈ chunks, c.length ≤ OTA_BUF_SIZE

def Reads.script {bytes : List UInt8} (reads : Reads bytes) : List ReadResult :=
  reads.chunks.map .data

/-- The update ends with `OTA_FINISH`, and every image that the board takes is in its
    slot, with the manifest written last. -/
structure Delivered (board : Board) (flash : Memory) (file : OtaFile board) (o : Outcome) :
    Prop where
  finished : o.exit = .finished
  images : ∀ i img, file.images[i]? = some img → ¬ SkippedBootloader board img.hdr →
    (flashAfter flash o.state.trace).window (board.newOffset img.kind) img.bytes.length =
      img.bytes ∧ ManifestLast board o.state.trace img i

/-- No byte of the first image is lost in the sectors erased for the second: there is none,
    or it has the value of erased flash. -/
def Spares (board : Board) (first second : FileImage board) : Prop :=
  SkippedBootloader board first.hdr ∨ SkippedBootloader board second.hdr ∨
    ∀ a < first.bytes.length, board.newOffset second.kind ≤ board.newOffset first.kind + a →
      board.newOffset first.kind + a <
        board.newOffset second.kind + nextSector second.bytes.length * SECTOR →
      first.bytes.getD a 0xFF = 0xFF

/-- The layout check passes; of two images, the last read is not longer than the second, and the
    second spares the first. -/
structure Deliverable (board : Board) (file : OtaFile board) (chunks : List (List UInt8)) :
    Prop where
  layout : board.otaStorageCheckLayout file.hdrs = true
  second : ∀ first second, file.images = [first, second] →
    (chunks.getLastD []).length ≤ second.bytes.length ∧ Spares board first second

/-! ### Taking bytes off the front of a stream -/

def Cut (chunks chunks' : List (List UInt8)) : Prop :=
  chunks' = [] ∨ ∃ front piece tail rest,
    chunks = front ++ (piece ++ tail) :: rest ∧ chunks' = tail :: rest

section Cut

variable {rest chunks chunks' chunks'' : List (List UInt8)}

theorem Cut.cons (h : Cut rest chunks') : Cut (chunk :: rest) chunks' := by
  rcases h with rfl | ⟨front, piece, tail, rest', rfl, rfl⟩
  · exact .inl rfl
  · exact .inr ⟨chunk :: front, piece, tail, rest', rfl, rfl⟩

theorem Cut.prepend (h : Cut (chunk :: rest) chunks') : Cut ((piece ++ chunk) :: rest) chunks' := by
  rcases h with rfl | ⟨front, piece', tail, rest', heq, rfl⟩
  · exact .inl rfl
  cases front with
  | nil =>
    obtain ⟨rfl, rfl⟩ := List.cons.inj heq
    exact .inr ⟨[], piece ++ piece', tail, rest, by simp, rfl⟩
  | cons first front =>
    obtain ⟨rfl, rfl⟩ := List.cons.inj heq
    exact .inr ⟨(piece ++ chunk) :: front, piece', tail, rest', rfl, rfl⟩

theorem cut_refl : Cut chunks chunks := by
  cases chunks with
  | nil => exact .inl rfl
  | cons chunk rest => exact .inr ⟨[], [], chunk, rest, rfl, rfl⟩

theorem Cut.trans (h : Cut chunks chunks') (h' : Cut chunks' chunks'') : Cut chunks chunks'' := by
  rcases h with rfl | ⟨front, piece, tail, rest, rfl, rfl⟩
  · rcases h' with rfl | ⟨front, piece, tail, rest, heq, _⟩
    · exact .inl rfl
    · exact absurd heq.symm (by simp)
  have hlast : Cut ((piece ++ tail) :: rest) chunks'' := h'.prepend
  induction front with
  | nil => exact hlast
  | cons first front ih => exact ih.cons

theorem Cut.last_iff (h : Cut chunks chunks') (hn : n < chunks'.flatten.length) :
    (chunks'.getLastD []).length ≤ n ↔ (chunks.getLastD []).length ≤ n := by
  rcases h with rfl | ⟨front, piece, tail, rest, rfl, rfl⟩
  · exact absurd hn (Nat.not_lt_zero n)
  cases rest with
  | nil =>
    rw [flatten_singleton] at hn
    have hlast : (front ++ [piece ++ tail]).getLastD [] = piece ++ tail := by
      simp [getLastD_eq_getLast?]
    rw [hlast, length_append]
    change tail.length ≤ n ↔ _
    omega
  | cons next more =>
    simp [getLastD_eq_getLast?, List.getLast?_append, List.getLast?_cons]

theorem script_injective (h : chunks.map ReadResult.data = chunks'.map ReadResult.data) :
    chunks = chunks' := by
  exact map_injective_iff.mpr (fun _ _ => ReadResult.data.inj) h

theorem cut_of_script (h : (fst, chunks.map ReadResult.data) = (fst', chunks'.map .data)) :
    Cut chunks chunks' := by
  rw [script_injective (Prod.mk.inj h).2]
  exact cut_refl

theorem receiveUntil_cut : ∀ (fuel : Nat) (buf buf' : List UInt8)
    (chunks chunks' : List (List UInt8)),
    receiveUntil target fuel buf (chunks.map .data) = (some buf', chunks'.map .data) →
    Cut chunks chunks' := by
  intro fuel
  induction fuel with
  | zero =>
    intro buf buf' chunks chunks' h
    exact cut_of_script h
  | succ fuel ih =>
    intro buf buf' chunks chunks' h
    rw [receiveUntil] at h
    split at h
    · exact cut_of_script h
    cases chunks with
    | nil => exact cut_of_script h
    | cons chunk rest =>
      rw [map_cons, otaTransportRead] at h
      by_cases hfits : chunk.length ≤ target - buf.length
      · rw [if_pos hfits] at h
        cases chunk with
        | nil => exact (cut_of_script h).cons
        | cons byte bytes => exact (ih _ _ _ _ h).cons
      rw [if_neg hfits, ← map_cons] at h
      rw [← take_append_drop (target - buf.length) chunk]
      split at h
      · cases h
      · rename_i hread
        obtain ⟨_, rfl⟩ := Prod.mk.inj hread
        exact (cut_of_script h).prepend
      · rename_i hread
        obtain ⟨_, rfl⟩ := Prod.mk.inj hread
        exact (ih _ _ _ _ h).prepend

theorem receiveUntil_of_le (h : target ≤ buf.length) :
    receiveUntil target fuel buf script = (some buf, script) := by
  cases fuel with
  | zero => rfl
  | succ fuel => rw [receiveUntil, if_pos h]

theorem otaCoreRecvHeader_cut
    (h : otaCoreRecvHeader buf (chunks.map .data) = (some (buf', hdrNum), chunks'.map .data))
    (hne : ∀ c ∈ chunks, c ≠ []) (henough : OTA_HEADER_LEN ≤ buf.length + chunks.flatten.length) :
    Cut chunks chunks' := by
  obtain ⟨buf1, chunks1, hfirst, _⟩ := receiveUntil_chunks OTA_HEADER_LEN
    (OTA_HEADER_LEN - buf.length) buf chunks (by omega) hne henough
  have hcut := receiveUntil_cut _ _ _ _ _ hfirst
  rw [otaCoreRecvHeader, hfirst] at h
  dsimp only at h
  split at h
  · cases h
  split at h
  · cases h
  · rename_i hsecond
    obtain ⟨hbuf, rfl⟩ := Prod.mk.inj h
    exact hcut.trans (receiveUntil_cut _ _ _ _ _ hsecond)

end Cut

/-! ### The rounds of the loop -/

section

theorem processLoop_read (hne : chunk ≠ []) (hle : chunk.length ≤ OTA_BUF_SIZE) :
    processLoop board flash (fuel + 1) s (.data chunk :: script) =
      match otaFwProgram board flash s chunk script with
      | (.error s, _) => ⟨.fault, s⟩
      | (.ok (s, .finish), _) => ⟨.finished, s⟩
      | (.ok (s, .err), _) => ⟨.failed, s⟩
      | (.ok (s, .ok), script) => processLoop board flash fuel s script := by
  rw [processLoop, otaTransportRead, if_pos hle]
  cases chunk with
  | nil => exact absurd rfl hne
  | cons byte bytes => rfl

theorem otaFwProgram_of_got (hgot : s.isGetOTAHdr = true) :
    otaFwProgram board flash s bytes script = (programPacket board flash s bytes, script) := by
  rw [otaFwProgram, if_pos hgot]

structure Readable (chunks : List (List UInt8)) (fuel : Nat) : Prop where
  sized : ∀ c ∈ chunks, c ≠ [] ∧ c.length ≤ OTA_BUF_SIZE
  rounds : pendingSize (chunks.map .data) < fuel

/-- **One round**: a read goes to the image, which may be complete then. -/
theorem Loading.read (hload : Loading board flash hdrs s img i got)
    (h : Readable (chunk :: rest) fuel) (hlt : (got ++ pendingBytes s).length < img.bytes.length) :
    ∃ fuel' s', Readable rest fuel' ∧ s'.isDnldInit = true ∧
      Loading board flash hdrs s' img i (got ++ pendingBytes s ++ chunk) ∧
      pendingBytes s' = (got ++ pendingBytes s ++ chunk).drop img.bytes.length ∧
      Leaves flash img i (got ++ pendingBytes s ++ chunk).length s s' ∧
      processLoop board flash fuel s ((chunk :: rest).map .data) =
        if img.bytes.length ≤ (got ++ pendingBytes s ++ chunk).length then
          match downloadFinish board flash s' (s'.size + MANIFEST_SIZE) with
          | (s', .finish) => ⟨.finished, s'⟩
          | (s', .err) => ⟨.failed, s'⟩
          | (s', .ok) => processLoop board flash fuel' s' (rest.map .data)
        else processLoop board flash fuel' s' (rest.map .data) := by
  obtain ⟨hchunk, hle⟩ := h.sized chunk (.head _)
  have hfuel := h.rounds
  obtain ⟨fuel, rfl⟩ := Nat.exists_eq_succ_of_ne_zero (Nat.ne_zero_of_lt hfuel)
  rw [map_cons, pendingSize_cons_data] at hfuel
  obtain ⟨s1, hround, hinit, hload1, hpending, hleaves⟩ := hload.round hchunk hle hlt
  refine ⟨fuel, s1, ⟨fun c hc => h.sized c (.tail _ hc), by omega⟩, hinit, hload1,
    hpending, hleaves, ?_⟩
  rw [map_cons, processLoop_read hchunk hle, otaFwProgram_of_got hload.isGetOTAHdr, hround]
  by_cases hdone : img.bytes.length ≤ (got ++ pendingBytes s ++ chunk).length
  · rw [if_pos hdone, if_pos ((hload1.remainBytes_nonpos_iff hinit).mpr hdone)]
    rcases downloadFinish board flash s1 (s1.size + MANIFEST_SIZE) with ⟨s2, _ | _ | _⟩ <;> rfl
  · rw [if_neg hdone, if_neg fun hremain =>
      hdone ((hload1.remainBytes_nonpos_iff hinit).mp hremain)]

/-- **The last image** is loaded and ends the update, as long as one more read comes after the bytes
    that wait for it. -/
theorem run_last : ∀ (chunks : List (List UInt8)) (fuel : Nat) (s : OtaState) (got : List UInt8),
    Loading board flash hdrs s img i got → hdrs.length ≤ i + 1 →
    got ++ pendingBytes s ++ chunks.flatten = img.bytes → Readable chunks fuel → chunks ≠ [] →
    ∃ s', processLoop board flash fuel s (chunks.map .data) = ⟨.finished, s'⟩ ∧
      (¬ SkippedBootloader board img.hdr → Loaded board flash s'.trace img i) ∧
      Leaves flash img i img.bytes.length s s' := by
  intro chunks
  induction chunks with
  | nil =>
    intro fuel s got _ _ _ _ hmore
    exact absurd rfl hmore
  | cons chunk rest ih =>
    intro fuel s got hload hlast hbytes hread _
    have hpos := length_pos_iff.mpr (hread.sized chunk (.head _)).1
    rw [flatten_cons, ← append_assoc] at hbytes
    have hlen := congrArg List.length hbytes
    rw [length_append, @length_append _ (got ++ pendingBytes s)] at hlen
    obtain ⟨fuel', s1, hread1, hinit, hload1, hpending1, hleaves1, hround⟩ :=
      hload.read hread (by omega)
    rw [hround]
    rw [length_append] at hleaves1 ⊢
    by_cases hrest : rest = []
    · -- the image is complete
      subst hrest
      rw [flatten_nil, append_nil] at hbytes
      rw [flatten_nil, length_nil] at hlen
      have htake : (got ++ pendingBytes s ++ chunk).take img.bytes.length = img.bytes := by
        rw [hbytes, take_length]
      obtain ⟨s2, ret, hfinish, _, hloaded, hleaves2, hret⟩ :=
        hload1.finish hinit htake (Nat.le_of_eq (congrArg List.length hbytes).symm)
      rw [if_pos (by omega), hfinish]
      rcases hret with ⟨rfl, _⟩ | ⟨_, hmore, _⟩
      · refine ⟨s2, rfl, hloaded, (hleaves1.mono (by omega)).trans ?_⟩
        rwa [congrArg List.length hbytes] at hleaves2
      · omega
    have hflat : 0 < rest.flatten.length := by
      obtain ⟨next, more, rfl⟩ := exists_cons_of_ne_nil hrest
      have hnext := length_pos_iff.mpr (hread1.sized next (.head _)).1
      rw [flatten_cons, length_append]
      omega
    rw [if_neg (by omega)]
    have hempty : pendingBytes s1 = [] := by
      rw [hpending1]
      apply drop_eq_nil_of_le
      rw [length_append]
      omega
    obtain ⟨s2, hrun, hloaded, hleaves2⟩ := ih fuel' s1 _ hload1 hlast
      (by rw [hempty, append_nil]; exact hbytes) hread1 hrest
    exact ⟨s2, hrun, hloaded, (hleaves1.mono (by omega)).trans hleaves2⟩

theorem last_le_iff (hshort : front.length < chunk.length)
    (hbytes : front ++ rest.flatten = bytes) :
    rest ≠ [] ↔ ((chunk :: rest).getLastD []).length ≤ bytes.length := by
  have hlen := congrArg List.length hbytes
  rw [length_append] at hlen
  cases rest with
  | nil =>
    rw [flatten_nil, length_nil] at hlen
    exact ⟨fun hnot => absurd rfl hnot, fun (hlast : chunk.length ≤ _) => by omega⟩
  | cons next more =>
    refine ⟨fun _ => ?_, fun _ => cons_ne_nil _ _⟩
    have hmem : (chunk :: next :: more).getLastD [] ∈ next :: more := by
      simp only [getLastD_cons]
      exact getLastD_mem_cons
    have hle := (sublist_flatten_of_mem hmem).length_le
    omega

/-- **The first of two images** is loaded whatever the reads are. Something is left to read for the
    second exactly when the last read is not longer than it. -/
theorem run_first (hcount : hdrs.length = 2) (hsecond : hdrs.getD 1 default = second.hdr) :
    ∀ (chunks : List (List UInt8)) (fuel : Nat) (s : OtaState) (got : List UInt8),
    Loading board flash hdrs s first 0 got → pendingBytes s = [] →
    got ++ chunks.flatten = first.bytes ++ second.bytes → got.length < first.bytes.length →
    Readable chunks fuel →
    ∃ s' rest fuel', processLoop board flash fuel s (chunks.map .data) =
        processLoop board flash fuel' s' (rest.map .data) ∧
      Loading board flash hdrs s' second 1 [] ∧
      pendingBytes s' ++ rest.flatten = second.bytes ∧
      (¬ SkippedBootloader board first.hdr → Loaded board flash s'.trace first 0) ∧
      Readable rest fuel' ∧
      (rest ≠ [] ↔ (chunks.getLastD []).length ≤ second.bytes.length) := by
  intro chunks
  induction chunks with
  | nil =>
    intro fuel s got _ _ hbytes hlt _
    have hlen := congrArg List.length hbytes
    rw [flatten_nil, append_nil, length_append] at hlen
    omega
  | cons chunk rest ih =>
    intro fuel s got hload hempty hbytes hlt hread
    rw [flatten_cons, ← append_assoc] at hbytes
    obtain ⟨fuel', s1, hread1, hinit, hload1, hpending1, _, hround⟩ := hload.read hread
      (by rw [hempty, append_nil]; exact hlt)
    rw [hempty, append_nil] at hload1 hpending1 hround
    rw [hround]
    by_cases hdone : first.bytes.length ≤ (got ++ chunk).length
    · -- this read completes the first image
      have htake : (got ++ chunk).take first.bytes.length = first.bytes := by
        have hall := congrArg (List.take first.bytes.length) hbytes
        rwa [take_append_of_le_length hdone, take_left] at hall
      have hdrop : (got ++ chunk).drop first.bytes.length ++ rest.flatten = second.bytes := by
        have hall := congrArg (List.drop first.bytes.length) hbytes
        rwa [drop_append_of_le_length hdone, drop_left] at hall
      obtain ⟨s2, ret, hfinish, hsame, hloaded, _, hret⟩ := hload1.finish hinit htake hdone
      rw [if_pos hdone, hfinish]
      rcases hret with ⟨_, hfew⟩ | ⟨rfl, _, hnext⟩
      · omega
      refine ⟨s2, rest, fuel', rfl, hnext second hsecond, ?_, hloaded, hread1, last_le_iff ?_ hdrop⟩
      · rw [hsame, hpending1]
        exact hdrop
      · rw [length_append] at hdone
        rw [length_drop, length_append]
        omega
    · have hmore : rest ≠ [] := by
        rintro rfl
        rw [flatten_nil, append_nil] at hbytes
        rw [hbytes, length_append] at hdone
        omega
      rw [if_neg hdone]
      obtain ⟨s2, rest', fuel2, hrun, hload2, hsplit, hloaded, hread2, hlast⟩ :=
        ih fuel' s1 _ hload1 (hpending1.trans (drop_eq_nil_of_le (by omega))) hbytes
          (by omega) hread1
      refine ⟨s2, rest', fuel2, hrun, hload2, hsplit, hloaded, hread2, ?_⟩
      rw [hlast]
      obtain ⟨next, more, rfl⟩ := exists_cons_of_ne_nil hmore
      simp only [getLastD_cons]

end

/-! ### The header -/

section

variable {flash : Memory}

namespace OtaFile

variable (file : OtaFile board)

@[simp] theorem length_hdrs : file.hdrs.length = file.images.length := length_map _

theorem hdrs_fit : ∀ hdr ∈ file.hdrs, hdr.Fits := by
  exact forall_mem_map.mpr fun img _ => img.hdr_fits

theorem hdrs_signed : ∀ hdr ∈ file.hdrs, hdr.signed = true := by
  exact forall_mem_map.mpr fun img _ => img.signed

theorem length_header : file.header.length = headerLen file.images.length := by
  rw [header, length_append, length_append, length_encodes file.hdrs_fit, length_hdrs,
    length_toLE, length_toLE, headerLen, mul_comm]
  exact add_comm _ _

theorem wordAt_bytes : wordAt file.bytes 4 = file.images.length := by
  apply @wordAt_of_drop _ (file.hdrs.flatMap SubHdr.encode ++ file.body)
  · have hcount := file.count_le
    simp only [OTA_IMGID_MAX] at hcount
    omega
  · rw [bytes, header, append_assoc, append_assoc]
    exact drop_left' length_toLE

def parsed : OtaState :=
  { initialState none with fileImgHdr := file.hdrs, isGetOTAHdr := true }

/-- **The header round.** The header is found however it was cut; what is left goes to the images.
-/
theorem otaFwProgram_header {chunk : List UInt8} {rest : List (List UInt8)}
    (hne : ∀ c ∈ rest, c ≠ []) (hbytes : chunk ++ rest.flatten = file.bytes) :
    ∃ rest', (if headerLen file.images.length < chunk.length then rest' = rest else
        rest'.flatten = file.body ∧ Cut rest rest' ∧ (∀ c ∈ rest', c ≠ []) ∧
          ∀ n, (∀ c ∈ rest, c.length ≤ n) → ∀ c ∈ rest', c.length ≤ n) ∧
      otaFwProgram board flash (initialState none) chunk (rest.map .data) =
        if board.otaStorageCheckLayout file.hdrs = false then
          (.ok ({ initialState none with fileImgHdr := file.hdrs }, .err), rest'.map .data)
        else if headerLen file.images.length < chunk.length then
          (programPacket board flash file.parsed (chunk.drop (headerLen file.images.length)),
            rest'.map .data)
        else (.ok (file.parsed, .ok), rest'.map .data) := by
  have hlong : headerLen file.images.length ≤ (chunk ++ rest.flatten).length := by
    rw [hbytes, bytes, length_append, file.length_header]
    exact Nat.le_add_right _ _
  have hnum : wordAt (chunk ++ rest.flatten) 4 = file.images.length := by
    rw [hbytes]
    exact file.wordAt_bytes
  obtain ⟨buf, rest', hrecv, hlen, hflat, hne', hsmall⟩ :=
    otaCoreRecvHeader_chunks hne hnum file.count_le hlong
  have hget : otaCoreGetTargetHeader buf file.images.length = some file.hdrs := by
    rw [← file.length_hdrs]
    apply @otaCoreGetTargetHeader_encode buf rest'.flatten
      (toLE 4 file.fwVer ++ toLE 4 file.images.length) file.body file.hdrs
    · rw [length_append, length_toLE, length_toLE]
      rfl
    · exact fun hnil => file.images_ne (map_eq_nil_iff.mp hnil)
    · exact file.hdrs_fit
    · exact file.hdrs_signed
    · rw [hflat, hbytes, bytes, header, append_assoc]
    · rw [file.length_hdrs, hlen]
      exact Nat.le_max_right _ _
  have hparse : otaCoreParseHeader board (initialState none) chunk (rest.map .data) =
      if board.otaStorageCheckLayout file.hdrs = false then
        ({ initialState none with fileImgHdr := file.hdrs }, .err, rest'.map .data)
      else if chunk.length ≤ headerLen file.images.length then
        (file.parsed, .ok, rest'.map .data)
      else (file.parsed, .remain (chunk.drop (headerLen file.images.length)),
        rest'.map .data) := by
    have htemp : pendingBytes (initialState none) ++ chunk = chunk := rfl
    rw [otaCoreParseHeader]
    dsimp only
    rw [htemp, hrecv]
    dsimp only
    rw [hget]
    rfl
  refine ⟨rest', ?_, ?_⟩
  · split
    · -- nothing was read for the header
      rename_i hmore
      have hsame : otaCoreRecvHeader chunk (rest.map .data) =
          (some (chunk, file.images.length), rest.map .data) := by
        have hfirst : OTA_HEADER_LEN ≤ chunk.length :=
          Nat.le_trans (Nat.le_add_left _ _) (Nat.le_of_lt hmore)
        have hword : wordAt chunk 4 = file.images.length := by
          rw [← hnum, wordAt_append]
          exact hfirst
        rw [otaCoreRecvHeader, receiveUntil_of_le hfirst]
        dsimp only
        rw [hword, if_neg (Nat.not_lt_of_le file.count_le), receiveUntil_of_le (Nat.le_of_lt hmore)]
      rw [hsame] at hrecv
      exact (script_injective (Prod.mk.inj hrecv).2).symm
    · rename_i hshort
      rw [Nat.max_eq_right (Nat.le_of_not_lt hshort), ← file.length_header] at hlen
      rw [hbytes, bytes] at hflat
      refine ⟨(append_inj hflat hlen).2, ?_, hne', hsmall⟩
      apply otaCoreRecvHeader_cut hrecv hne
      rw [length_append] at hlong
      exact Nat.le_trans (Nat.le_add_left _ _) hlong
  · have hnot : ¬ (initialState none).isGetOTAHdr = true := Bool.false_ne_true
    rw [otaFwProgram, if_neg hnot, hparse]
    by_cases hlayout : board.otaStorageCheckLayout file.hdrs = false
    · rw [if_pos hlayout, if_pos hlayout]
    rw [if_neg hlayout, if_neg hlayout]
    by_cases hmore : headerLen file.images.length < chunk.length
    · rw [if_neg (Nat.not_le_of_lt hmore), if_pos hmore]
    · rw [if_pos (Nat.le_of_not_lt hmore), if_neg hmore]

theorem loading_parsed (himages : file.images = first :: rest) :
    Loading board flash file.hdrs file.parsed first 0 [] := by
  have hmanifest : ∀ j, (file.parsed.manifest j).length = MANIFEST_SIZE := by
    intro j
    exact length_replicate
  constructor
  case fileImgHdr => rfl
  case index => rfl
  case isGetOTAHdr => rfl
  case current =>
    rw [hdrs, himages]
    rfl
  case receiving => exact receiving_initDownload rfl (hmanifest _) rfl
  case bodyOps => exact fun op hop => absurd hop not_mem_nil
  case later => exact fun j _ => ⟨rfl, hmanifest j, rfl⟩

/-- **Behind the header** the loop goes on with the images, unless the layout check
    rejects them. -/
theorem otaCoreProcess_header (reads : Reads file.bytes) :
    if board.otaStorageCheckLayout file.hdrs = false then
      (otaCoreProcess board flash (initialState none) reads.script).exit = .failed
    else ∃ fuel chunks, otaCoreProcess board flash (initialState none) reads.script =
        processLoop board flash fuel file.parsed (chunks.map .data) ∧
      chunks.flatten = file.body ∧ Cut reads.chunks chunks ∧ Readable chunks fuel := by
  obtain ⟨chunks, hbytes, hne, hle⟩ := reads
  have hstart : otaCoreProcess board flash (initialState none) (chunks.map .data) =
      processLoop board flash (pendingSize (chunks.map .data) + 1) (initialState none)
        (chunks.map .data) := rfl
  simp only [Reads.script, hstart]
  cases chunks with
  | nil =>
    have hlen := congrArg List.length hbytes
    rw [flatten_nil, length_nil, bytes, length_append, file.length_header,
      headerLen, OTA_HEADER_LEN] at hlen
    omega
  | cons chunk rest =>
    obtain ⟨hchunk, hneRest⟩ := forall_mem_cons.mp hne
    obtain ⟨hchunkLe, hleRest⟩ := forall_mem_cons.mp hle
    rw [flatten_cons] at hbytes
    obtain ⟨rest', hrest, hround⟩ := @otaFwProgram_header board flash file _ _ hneRest hbytes
    have hpending := pendingSize_fwProgram board flash (initialState none) chunk
      (rest.map .data)
    rw [hround] at hpending
    rw [map_cons, pendingSize_cons_data, processLoop_read hchunk hchunkLe, hround]
    by_cases hlayout : board.otaStorageCheckLayout file.hdrs = false
    · rw [if_pos hlayout, if_pos hlayout]
    rw [if_neg hlayout, if_neg hlayout]
    rw [if_neg hlayout] at hpending
    by_cases hmore : headerLen file.images.length < chunk.length
    · -- the first read goes on behind the header
      rw [if_pos hmore] at hrest hpending ⊢
      subst hrest
      have hbody : chunk.drop (headerLen file.images.length) ++ rest'.flatten = file.body := by
        have hall := congrArg (List.drop (headerLen file.images.length)) hbytes
        rwa [drop_append_of_le_length (Nat.le_of_lt hmore), bytes,
          ← file.length_header, drop_left, file.length_header] at hall
      have htail : chunk.drop (headerLen file.images.length) ≠ [] := by
        rw [Ne, drop_eq_nil_iff]
        exact Nat.not_le_of_lt hmore
      have htailLe : (chunk.drop (headerLen file.images.length)).length ≤ OTA_BUF_SIZE := by
        rw [length_drop]
        exact Nat.le_trans (Nat.sub_le _ _) hchunkLe
      refine ⟨chunk.length + 1 + pendingSize (rest'.map .data) + 1,
        chunk.drop (headerLen file.images.length) :: rest', ?_, hbody, ?_, ?_, ?_⟩
      · rw [map_cons, processLoop_read htail htailLe, otaFwProgram_of_got rfl]
      · refine .inr ⟨[], chunk.take (headerLen file.images.length), _, rest', ?_, rfl⟩
        rw [take_append_drop]
        rfl
      · exact forall_mem_cons.mpr ⟨⟨htail, htailLe⟩, fun c hc => ⟨hneRest c hc, hleRest c hc⟩⟩
      · rw [map_cons, pendingSize_cons_data, length_drop]
        omega
    · rw [if_neg hmore] at hrest hpending ⊢
      obtain ⟨hbody, hcut, hne', hsmall⟩ := hrest
      dsimp only at hpending
      exact ⟨_, rest', rfl, hbody, hcut.cons,
        fun c hc => ⟨hne' c hc, hsmall _ hleRest c hc⟩, by omega⟩

end OtaFile

end

/-! ### The outcome -/

section

theorem first_kept_iff (hkinds : first.kind ≠ second.kind)
    (hfirst : ¬ SkippedBootloader board first.hdr) (hloaded : Loaded board flash s.trace first 0)
    (hsecond : ¬ SkippedBootloader board second.hdr → Loaded board flash s'.trace second 1)
    (hleaves : Leaves flash second 1 second.bytes.length s s') :
    (flashAfter flash s'.trace).window (board.newOffset first.kind) first.bytes.length =
      first.bytes ↔ Spares board first second := by
  rw [Memory.window_eq_iff]
  -- the bytes of the first image belong to no slot of the second
  have hout : ∀ (i : Slot) (a : Nat), a < first.bytes.length →
      ¬ board.layout.InSlot second.kind i (board.newOffset first.kind + a) := by
    intro i a ha
    exact board.layout.not_inSlot_of_ne (fun heq => hkinds (Prod.mk.inj heq).1) (first.inSlot ha)
  have hbehind : ∀ a, a < first.bytes.length →
      board.newOffset second.kind ≤ board.newOffset first.kind + a →
      board.newOffset second.kind + second.bytes.length ≤ board.newOffset first.kind + a := by
    intro a ha hlo
    by_contra hinside
    exact hout (board.newSlot second.kind) a ha ⟨hlo, Nat.lt_of_lt_of_le (Nat.lt_of_not_le hinside)
      (Nat.add_le_add_left second.fits_slot _)⟩
  by_cases hskip : SkippedBootloader board second.hdr
  · refine ⟨fun _ => .inr (.inl hskip), fun _ a ha => ?_⟩
    rw [hleaves.flash _ fun hreached => hreached.1 hskip]
    exact hloaded.holds a ha
  constructor
  · intro hkept
    refine .inr (.inr fun a ha hlo hhi => ?_)
    rw [← hkept a ha]
    exact (hsecond hskip).erased _ (hbehind a ha hlo) hhi (hout _ a ha)
  · rintro (hskipped | hskipped | hspares) a ha
    · exact absurd hskipped hfirst
    · exact absurd hskipped hskip
    · by_cases hin : board.newOffset second.kind ≤ board.newOffset first.kind + a ∧
          board.newOffset first.kind + a <
            board.newOffset second.kind + nextSector second.bytes.length * SECTOR
      · rw [hspares a ha hin.1 hin.2]
        exact (hsecond hskip).erased _ (hbehind a ha hin.1) hin.2 (hout _ a ha)
      · rw [hleaves.flash _ fun hreached => hreached.2.elim hin (hout _ a ha)]
        exact hloaded.holds a ha

theorem Loaded.stored (h : Loaded board flash trace img i) :
    (flashAfter flash trace).window (board.newOffset img.kind) img.bytes.length = img.bytes ∧
      ManifestLast board trace img i :=
  ⟨Memory.window_eq_iff.mpr h.holds, h.manifestLast⟩

theorem delivered_one (file : OtaFile board) (reads : Reads file.bytes)
    (hlayout : ¬ board.otaStorageCheckLayout file.hdrs = false) (himages : file.images = [img]) :
    (otaCoreProcess board flash (initialState none) reads.script).state.fileImgHdr = file.hdrs ∧
    Delivered board flash file (otaCoreProcess board flash (initialState none) reads.script) := by
  have hheader := @OtaFile.otaCoreProcess_header board flash file reads
  rw [if_neg hlayout] at hheader
  obtain ⟨fuel, chunks, hprocess, hbody, _, hread⟩ := hheader
  have hbytes : chunks.flatten = img.bytes := by
    rw [hbody, OtaFile.body, himages]
    exact append_nil _
  have hmore : chunks ≠ [] := by
    rintro rfl
    have hlen := congrArg List.length hbytes
    have hlong := img.has_body
    rw [flatten_nil, length_nil] at hlen
    omega
  have hlast : file.hdrs.length ≤ 0 + 1 := by
    rw [file.length_hdrs, himages]
    exact Nat.le_refl 1
  obtain ⟨s', hrun, hloaded, hleaves⟩ :=
    run_last chunks fuel _ [] (file.loading_parsed himages) hlast
    hbytes hread hmore
  rw [hprocess, hrun]
  refine ⟨hleaves.fileImgHdr, rfl, ?_⟩
  intro i img' hget hnot
  rw [himages] at hget
  cases i with
  | zero =>
    obtain rfl := Option.some.inj hget
    exact (hloaded hnot).stored
  | succ i => cases hget

theorem delivered_two (file : OtaFile board) (reads : Reads file.bytes)
    (hlayout : ¬ board.otaStorageCheckLayout file.hdrs = false) {first second : FileImage board}
    (himages : file.images = [first, second]) :
    (otaCoreProcess board flash (initialState none) reads.script).state.fileImgHdr = file.hdrs ∧
    (Delivered board flash file (otaCoreProcess board flash (initialState none) reads.script) ↔
      (reads.chunks.getLastD []).length ≤ second.bytes.length ∧ Spares board first second) := by
  have hheader := @OtaFile.otaCoreProcess_header board flash file reads
  rw [if_neg hlayout] at hheader
  obtain ⟨fuel, chunks, hprocess, hbody, hcut, hread⟩ := hheader
  have hbytes : chunks.flatten = first.bytes ++ second.bytes := by
    rw [hbody, OtaFile.body, himages]
    exact congrArg _ (append_nil _)
  have hpos : 0 < first.bytes.length := Nat.zero_lt_of_lt first.has_body
  have hkinds : first.kind ≠ second.kind := by
    have hnodup := file.kinds
    rw [himages] at hnodup
    simpa using hnodup
  have hcount : file.hdrs.length = 2 := by
    rw [file.length_hdrs, himages]
    rfl
  have hsecond : file.hdrs.getD 1 default = second.hdr := by
    rw [OtaFile.hdrs, himages]
    rfl
  obtain ⟨s1, rest, fuel1, hrun1, hload1, hsplit, hloaded1, hread1, hlast⟩ :=
    run_first hcount hsecond chunks fuel file.parsed [] (file.loading_parsed himages) rfl hbytes
      hpos hread
  rw [← hcut.last_iff (by rw [hbytes, length_append]; omega), ← hlast, hprocess, hrun1]
  by_cases hrest : rest = []
  · -- the second image waits for a read that never comes
    subst hrest
    obtain ⟨fuel1, rfl⟩ := Nat.exists_eq_succ_of_ne_zero (Nat.ne_zero_of_lt hread1.rounds)
    refine ⟨hload1.fileImgHdr, fun hdelivered => ?_, fun hmore => absurd rfl hmore.1⟩
    cases hdelivered.finished
  obtain ⟨s2, hrun2, hloaded2, hleaves⟩ := run_last rest fuel1 s1 [] hload1
    (Nat.le_of_eq hcount) hsplit hread1 hrest
  rw [hrun2]
  refine ⟨hleaves.fileImgHdr.trans hload1.fileImgHdr, ?_, ?_⟩
  · intro hdelivered
    refine ⟨hrest, ?_⟩
    by_cases hfirst : SkippedBootloader board first.hdr
    · exact .inl hfirst
    · have hkept := (hdelivered.images 0 first (by rw [himages]; rfl) hfirst).1
      exact (first_kept_iff hkinds hfirst (hloaded1 hfirst) hloaded2 hleaves).mp hkept
  · rintro ⟨_, hspares⟩
    refine ⟨rfl, ?_⟩
    intro i img hget hnot
    rw [himages] at hget
    match i with
    | 0 =>
      obtain rfl := Option.some.inj hget
      refine ⟨(first_kept_iff hkinds hnot (hloaded1 hnot) hloaded2 hleaves).mpr hspares, ?_⟩
      have hops := hleaves.ops 0 Nat.zero_ne_one
      have hmanifest := (hloaded1 hnot).manifestLast
      unfold ManifestLast at hmanifest ⊢
      rw [hops]
      exact hmanifest
    | 1 =>
      obtain rfl := Option.some.inj hget
      exact (hloaded2 hnot).stored
    | i + 2 => cases hget

theorem Deliverable.delivered {file : OtaFile board} {reads : Reads file.bytes}
    (h : Deliverable board file reads.chunks) :
    (otaCoreProcess board flash (initialState none) reads.script).state.fileImgHdr = file.hdrs ∧
    Delivered board flash file (otaCoreProcess board flash (initialState none) reads.script) := by
  have hlayout : ¬ board.otaStorageCheckLayout file.hdrs = false := h.layout.trans_ne nofun
  rcases himages : file.images with _ | ⟨first, _ | ⟨second, _ | ⟨third, more⟩⟩⟩
  · exact absurd himages file.images_ne
  · exact delivered_one file reads hlayout himages
  · obtain ⟨hhdrs, hiff⟩ := @delivered_two board flash file reads hlayout _ _ himages
    exact ⟨hhdrs, hiff.mpr (h.second first second himages)⟩
  have hcount := file.count_le
  rw [himages] at hcount
  simp only [length_cons, OTA_IMGID_MAX] at hcount
  omega

/-- **The outcome depends on the last read.** A file is delivered exactly when it passes the layout
    check and, if it has two images, the last read is not longer than the second and the second
    spares the first. -/
theorem otaCoreProcess_delivered_iff (board : Board) (flash : Memory) (file : OtaFile board)
    (reads : Reads file.bytes) :
    Delivered board flash file (otaCoreProcess board flash (initialState none) reads.script) ↔
      Deliverable board file reads.chunks := by
  refine ⟨fun hdelivered => ?_, fun hdeliverable => hdeliverable.delivered.2⟩
  have hheader := @OtaFile.otaCoreProcess_header board flash file reads
  by_cases hlayout : board.otaStorageCheckLayout file.hdrs = false
  · rw [if_pos hlayout, hdelivered.finished] at hheader
    cases hheader
  · refine ⟨eq_true_of_ne_false hlayout, fun first second himages => ?_⟩
    exact (delivered_two file reads hlayout himages).2.mp hdelivered

end

def zeroImage (kind : ImgKind) : FileImage runningFromOta1 where
  hdr := ⟨[0x4F, 0x54, 0x41, 0x31], 24, 0, 25, 0, imgIDOf kind⟩
  kind := kind
  bytes := List.replicate 25 0
  hdr_fits := by cases kind <;> constructor <;> decide
  signed := by cases kind <;> decide
  imgID := rfl
  imgLen := rfl
  has_body := by decide
  fits_slot := by cases kind <;> decide
  checksum := by cases kind <;> decide

/-- A file with a bootloader and an application. -/
def zeroImages : OtaFile runningFromOta1 where
  fwVer := 1
  images := [zeroImage .boot, zeroImage .app]
  images_ne := by decide
  count_le := by decide
  kinds := by decide

/-- The file in one read. -/
def zeroImagesWhole : Reads zeroImages.bytes where
  chunks := [zeroImages.bytes]
  flatten_eq := by simp
  chunk_ne := by decide
  chunk_le := by decide

/-- The file in two reads, the second of which starts inside the application. -/
def zeroImagesCut : Reads zeroImages.bytes where
  chunks := [zeroImages.bytes.take 90, zeroImages.bytes.drop 90]
  flatten_eq := by simp
  chunk_ne := by decide
  chunk_le := by decide

/-- In one read the application is never programmed and the update reported as done; in two reads
    both are loaded. -/
theorem second_image_left_over : (otaCoreProcess runningFromOta1 (fun _ => 0xFF) (initialState none)
        zeroImagesWhole.script).ret = some .ok ∧
    ¬ Delivered runningFromOta1 (fun _ => 0xFF) zeroImages
      (otaCoreProcess runningFromOta1 (fun _ => 0xFF) (initialState none)
        zeroImagesWhole.script) ∧
    Delivered runningFromOta1 (fun _ => 0xFF) zeroImages
      (otaCoreProcess runningFromOta1 (fun _ => 0xFF) (initialState none)
        zeroImagesCut.script) := by
  have hexit : (otaCoreProcess runningFromOta1 (fun _ => 0xFF) (initialState none)
      zeroImagesWhole.script).exit = .eof := by decide +kernel
  refine ⟨?_, ?_, ?_⟩
  · rw [Outcome.ret, hexit]
  · intro hdelivered
    rw [hdelivered.finished] at hexit
    cases hexit
  · refine (delivered_two zeroImages zeroImagesCut (by decide) rfl).2.mpr ⟨by decide, ?_⟩
    refine .inr (.inr fun a ha hlo _ => ?_)
    have ha : a < 25 := Nat.lt_of_lt_of_eq ha length_replicate
    have hbefore : runningFromOta1.newOffset .boot + 25 ≤ runningFromOta1.newOffset .app := by
      decide
    exact absurd (Nat.lt_of_le_of_lt hlo (Nat.add_lt_add_left ha _)) (Nat.not_lt_of_le hbefore)

end AmebaRtos.Ota
