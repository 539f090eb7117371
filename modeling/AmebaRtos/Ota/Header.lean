import Mathlib.Algebra.BigOperators.Group.List.Basic
import AmebaRtos.Lib.Memory

/-!
# Receiving and parsing the OTA file header

`ota_core_recv_header` and `ota_core_get_target_header` of `ota_core.c`. An OTA file starts with
an 8-byte header, which gives the number of sub-headers, and 24 bytes per sub-header; the images
follow. The transport is the sequence of answers it will give. An answer longer than a request is
delivered in parts; an empty answer, like the end of the sequence, is the end of the stream.
-/

namespace AmebaRtos.Ota

open Lib List

def OTA_BUF_SIZE : Nat := 2048
def OTA_HEADER_LEN : Nat := 8
def OTA_SUB_HEADER_LEN : Nat := 24
def OTA_IMGID_BOOT : Nat := 0
def OTA_IMGID_APP : Nat := 1
def OTA_IMGID_MAX : Nat := 2

/-! ### Transport -/

inductive ReadResult where
  | data (bytes : List UInt8)
  | error
deriving DecidableEq, Repr

/-- `ota_transport_read`: the bytes of one answer, at most `len` of them; `none` is
    a negative result. -/
def otaTransportRead (len : Nat) : List ReadResult → Option (List UInt8) × List ReadResult
  | [] => (some [], [])
  | .error :: rest => (none, rest)
  | .data bytes :: rest =>
    if bytes.length ≤ len then (some bytes, rest)
    else (some (bytes.take len), .data (bytes.drop len) :: rest)

/-- The bytes an answer sequence still holds, with one more for each answer: every
    read takes something away from it. -/
def pendingSize (script : List ReadResult) : Nat :=
  (script.map fun
    | .data bytes => bytes.length + 1
    | .error => 1).sum

/-! ### The header structures -/

/-- `ota_sub_hdr_t`. -/
structure SubHdr where
  signature : List UInt8
  imgHdrLen : Nat
  checksum : Nat
  imgLen : Nat
  offset : Nat
  imgID : Nat
deriving DecidableEq, Repr, Inhabited

def wordAt (buf : List UInt8) (offset : Nat) : Nat :=
  fromLE (Memory.window (fun i => buf.getD i 0) offset 4)

def SubHdr.parse (buf : List UInt8) (offset : Nat) : SubHdr where
  signature := Memory.window (fun i => buf.getD i 0) offset 4
  imgHdrLen := wordAt buf (offset + 4)
  checksum := wordAt buf (offset + 8)
  imgLen := wordAt buf (offset + 12)
  offset := wordAt buf (offset + 16)
  imgID := wordAt buf (offset + 20)

/-- `strncmp("OTA", Signature, 3) == 0`. -/
def SubHdr.signed (hdr : SubHdr) : Bool := hdr.signature.take 3 == [0x4F, 0x54, 0x41]

def SubHdr.encode (hdr : SubHdr) : List UInt8 :=
  hdr.signature ++ toLE 4 hdr.imgHdrLen ++ toLE 4 hdr.checksum ++ toLE 4 hdr.imgLen ++
    toLE 4 hdr.offset ++ toLE 4 hdr.imgID

/-- The fields have the width they have in the file. -/
structure SubHdr.Fits (hdr : SubHdr) : Prop where
  signature : hdr.signature.length = 4
  imgHdrLen : hdr.imgHdrLen < 2 ^ 32
  checksum : hdr.checksum < 2 ^ 32
  imgLen : hdr.imgLen < 2 ^ 32
  offset : hdr.offset < 2 ^ 32
  imgID : hdr.imgID < 2 ^ 32

/-- Length of a file header with `hdrNum` sub-headers. -/
def headerLen (hdrNum : Nat) : Nat := hdrNum * OTA_SUB_HEADER_LEN + OTA_HEADER_LEN

/-! ### The source functions -/

/-- A receive loop of `ota_core_recv_header`: read until the buffer holds `target` bytes or the
    stream ends; `none` on a read error. Each round adds a byte. -/
def receiveUntil (target : Nat) : (fuel : Nat) → List UInt8 → List ReadResult →
    Option (List UInt8) × List ReadResult
  | 0, buf, script => (some buf, script)
  | fuel + 1, buf, script =>
    if target ≤ buf.length then (some buf, script)
    else
      match otaTransportRead (target - buf.length) script with
      | (none, script) => (none, script)
      | (some [], script) => (some buf, script)
      | (some (byte :: bytes), script) =>
        receiveUntil target fuel (buf ++ byte :: bytes) script

/-- `ota_core_recv_header`: the header buffer and `HdrNum`; `none` is `OTA_ERR`. -/
def otaCoreRecvHeader (buf : List UInt8) (script : List ReadResult) :
    Option (List UInt8 × Nat) × List ReadResult :=
  match receiveUntil OTA_HEADER_LEN (OTA_HEADER_LEN - buf.length) buf script with
  | (none, script) => (none, script)
  | (some buf, script) =>
    let hdrNum := wordAt buf 4
    if hdrNum > OTA_IMGID_MAX then (none, script)
    else
      match receiveUntil (headerLen hdrNum) (headerLen hdrNum - buf.length) buf script with
      | (none, script) => (none, script)
      | (some buf, script) => (some (buf, hdrNum), script)

/-- `ota_core_get_target_header`: `FileImgHdr[0 .. ValidImgCnt)`; `none` is
    `OTA_ERR`. -/
def otaCoreGetTargetHeader (buf : List UInt8) (hdrNum : Nat) : Option (List SubHdr) :=
  let hdrs := (List.range hdrNum).map fun i =>
    SubHdr.parse buf (OTA_HEADER_LEN + OTA_SUB_HEADER_LEN * i)
  if hdrs.all (·.signed) && decide (hdrs ≠ []) then some hdrs else none

theorem otaCoreGetTargetHeader_eq_some (h : otaCoreGetTargetHeader buf hdrNum = some hdrs) :
    hdrs ≠ [] ∧ hdrs.length = hdrNum ∧ (∀ hdr ∈ hdrs, hdr.signed = true) ∧
      hdrs = (List.range hdrNum).map fun i =>
        SubHdr.parse buf (OTA_HEADER_LEN + OTA_SUB_HEADER_LEN * i) := by
  unfold otaCoreGetTargetHeader at h
  dsimp only at h
  split at h
  · rename_i hok
    cases h
    simp only [Bool.and_eq_true, all_eq_true, decide_eq_true_eq] at hok
    exact ⟨hok.2, by simp, hok.1, rfl⟩
  · cases h

/-! ### Reading a header back -/

section

variable {buf rest : List UInt8} {offset : Nat}

theorem window_of_drop (hdrop : buf.drop offset = field ++ rest) :
    Memory.window (fun i => buf.getD i 0) offset field.length = field := by
  apply ext_getElem
  · simp
  · intro i hwindow hfield
    have hat : (buf.drop offset)[i]? = some field[i] := by
      rw [hdrop, List.getElem?_append_left hfield, List.getElem?_eq_getElem hfield]
    rw [List.getElem?_drop] at hat
    simp [Memory.window, hat]

theorem wordAt_of_drop {value : Nat} (hfits : value < 2 ^ 32)
    (hdrop : buf.drop offset = toLE 4 value ++ rest) : wordAt buf offset = value := by
  have hwindow := window_of_drop hdrop
  rw [length_toLE] at hwindow
  rw [wordAt, hwindow]
  exact fromLE_toLE hfits

theorem SubHdr.length_encode {hdr : SubHdr} (hfits : hdr.Fits) :
    hdr.encode.length = OTA_SUB_HEADER_LEN := by
  simp [SubHdr.encode, hfits.signature, OTA_SUB_HEADER_LEN]

theorem drop_add_of_drop {front tail : List UInt8} (hdrop : buf.drop offset = front ++ tail)
    (hk : front.length = k) : buf.drop (offset + k) = tail := by
  rw [← drop_drop, hdrop, ← hk, drop_left]

theorem SubHdr.parse_of_drop {hdr : SubHdr} (hfits : hdr.Fits)
    (hdrop : buf.drop offset = hdr.encode ++ rest) : SubHdr.parse buf offset = hdr := by
  simp only [SubHdr.encode, append_assoc] at hdrop
  have h1 := drop_add_of_drop hdrop hfits.signature
  have h2 := drop_add_of_drop h1 length_toLE
  have h3 := drop_add_of_drop h2 length_toLE
  have h4 := drop_add_of_drop h3 length_toLE
  have h5 := drop_add_of_drop h4 length_toLE
  have hsignature := window_of_drop hdrop
  rw [hfits.signature] at hsignature
  rw [SubHdr.parse, hsignature, wordAt_of_drop hfits.imgHdrLen h1,
    wordAt_of_drop hfits.checksum h2, wordAt_of_drop hfits.imgLen h3,
    wordAt_of_drop hfits.offset h4, wordAt_of_drop hfits.imgID h5]

theorem drop_flatMap_sum {α : Type} (f : α → List UInt8) {l : List α} {i : Nat}
    (hi : i < l.length) :
    (l.flatMap f).drop ((l.take i).map fun x => (f x).length).sum =
      f l[i] ++ (l.drop (i + 1)).flatMap f := by
  have hsum := drop_sum_flatten (l.map f) i
  rw [map_map, ← map_take, ← map_drop, drop_eq_getElem_cons hi] at hsum
  exact hsum

theorem length_encodes {hdrs : List SubHdr} (hfits : ∀ hdr ∈ hdrs, hdr.Fits) :
    (hdrs.flatMap SubHdr.encode).length = OTA_SUB_HEADER_LEN * hdrs.length := by
  rw [length_flatMap, map_congr_left fun hdr hhdr => SubHdr.length_encode (hfits hdr hhdr)]
  simp [mul_comm]

theorem drop_encode {hdrs : List SubHdr} (hfits : ∀ hdr ∈ hdrs, hdr.Fits) (hi : i < hdrs.length) :
    (hdrs.flatMap SubHdr.encode).drop (OTA_SUB_HEADER_LEN * i) =
      hdrs[i].encode ++ (hdrs.drop (i + 1)).flatMap SubHdr.encode := by
  have hbefore := length_encodes fun hdr hhdr => hfits hdr (mem_of_mem_take (i := i) hhdr)
  rw [length_take, Nat.min_eq_left (Nat.le_of_lt hi), length_flatMap] at hbefore
  rw [← hbefore]
  exact drop_flatMap_sum SubHdr.encode hi

/-- **The device reads back the sub-headers of a file**, from any beginning of it that
    holds them. -/
theorem otaCoreGetTargetHeader_encode {front tail : List UInt8} {hdrs : List SubHdr}
    (hfront : front.length = OTA_HEADER_LEN) (hne : hdrs ≠ [])
    (hfits : ∀ hdr ∈ hdrs, hdr.Fits) (hsigned : ∀ hdr ∈ hdrs, hdr.signed = true)
    (hfile : buf ++ rest = front ++ (hdrs.flatMap SubHdr.encode ++ tail))
    (hlong : headerLen hdrs.length ≤ buf.length) :
    otaCoreGetTargetHeader buf hdrs.length = some hdrs := by
  have hparsed : ((List.range hdrs.length).map fun i =>
      SubHdr.parse buf (OTA_HEADER_LEN + OTA_SUB_HEADER_LEN * i)) = hdrs := by
    apply ext_getElem
    · simp
    · intro i _ hi
      rw [getElem_map, getElem_range]
      have hend : OTA_HEADER_LEN + OTA_SUB_HEADER_LEN * i + OTA_SUB_HEADER_LEN ≤ buf.length := by
        simp only [headerLen, OTA_SUB_HEADER_LEN] at hlong ⊢
        omega
      have hat : (buf ++ rest).drop (OTA_HEADER_LEN + OTA_SUB_HEADER_LEN * i) =
          hdrs[i].encode ++ ((hdrs.drop (i + 1)).flatMap SubHdr.encode ++ tail) := by
        rw [hfile, ← hfront, ← drop_drop, drop_left,
          drop_append_of_le_length, drop_encode hfits hi, append_assoc]
        rw [length_encodes hfits]
        exact Nat.mul_le_mul_left _ (Nat.le_of_lt hi)
      rw [drop_append_of_le_length (Nat.le_of_add_right_le hend)] at hat
      have hbegin : hdrs[i].encode <+: buf.drop (OTA_HEADER_LEN + OTA_SUB_HEADER_LEN * i) := by
        apply prefix_of_prefix_length_le ⟨_, hat.symm⟩ (prefix_append _ _)
        rw [SubHdr.length_encode (hfits _ (getElem_mem hi)), length_drop]
        omega
      obtain ⟨after, hafter⟩ := hbegin
      exact SubHdr.parse_of_drop (hfits _ (getElem_mem hi)) hafter.symm
  unfold otaCoreGetTargetHeader
  rw [hparsed]
  simpa [hne] using hsigned

end

/-! ### Receiving a header in pieces -/

theorem otaTransportRead_chunks (len : Nat) (hlen : 0 < len) (hne : ∀ c ∈ chunks, c ≠ [])
    (hmore : chunks ≠ []) :
    ∃ (bytes : List UInt8) (chunks' : List (List UInt8)), otaTransportRead len (chunks.map .data) =
        (some bytes, chunks'.map .data) ∧
      bytes ≠ [] ∧ bytes.length ≤ len ∧ bytes ++ chunks'.flatten = chunks.flatten ∧
      (∀ c ∈ chunks', c ≠ []) ∧
      (∀ n, (∀ c ∈ chunks, c.length ≤ n) → ∀ c ∈ chunks', c.length ≤ n) := by
  cases chunks with
  | nil => exact absurd rfl hmore
  | cons chunk rest =>
    have hchunk : chunk ≠ [] := hne chunk (.head _)
    by_cases hfits : chunk.length ≤ len
    · refine ⟨chunk, rest, ?_, hchunk, hfits, rfl, ?_, ?_⟩
      · simp [otaTransportRead, hfits]
      · exact fun c hc => hne c (.tail _ hc)
      · exact fun n hn c hc => hn c (.tail _ hc)
    refine ⟨chunk.take len, chunk.drop len :: rest, ?_, ?_, ?_, ?_, ?_, ?_⟩
    · simp [otaTransportRead, hfits]
    · intro hnil
      rcases take_eq_nil_iff.mp hnil with hzero | hnil
      · omega
      · exact hchunk hnil
    · exact length_take_le _ _
    · rw [flatten_cons, ← append_assoc, take_append_drop, flatten_cons]
    · intro c hc
      rcases mem_cons.mp hc with rfl | hc
      · intro hnil
        rw [drop_eq_nil_iff] at hnil
        exact hfits hnil
      · exact hne c (.tail _ hc)
    · intro n hn c hc
      rcases mem_cons.mp hc with rfl | hc
      · have := hn chunk (.head _)
        rw [length_drop]
        omega
      · exact hn c (.tail _ hc)

theorem receiveUntil_chunks (target : Nat) : ∀ (fuel : Nat) (buf : List UInt8)
    (chunks : List (List UInt8)), target ≤ buf.length + fuel → (∀ c ∈ chunks, c ≠ []) →
    target ≤ buf.length + chunks.flatten.length →
    ∃ (buf' : List UInt8) (chunks' : List (List UInt8)),
        receiveUntil target fuel buf (chunks.map .data) =
        (some buf', chunks'.map .data) ∧
      buf'.length = max buf.length target ∧ buf' ++ chunks'.flatten = buf ++ chunks.flatten ∧
      (∀ c ∈ chunks', c ≠ []) ∧
      (∀ n, (∀ c ∈ chunks, c.length ≤ n) → ∀ c ∈ chunks', c.length ≤ n) := by
  intro fuel
  induction fuel with
  | zero =>
    intro buf chunks hfuel hne _
    exact ⟨buf, chunks, rfl, by omega, rfl, hne, fun _ h => h⟩
  | succ fuel ih =>
    intro buf chunks hfuel hne henough
    by_cases hdone : target ≤ buf.length
    · refine ⟨buf, chunks, ?_, by omega, rfl, hne, fun _ h => h⟩
      rw [receiveUntil, if_pos hdone]
    have hmore : chunks ≠ [] := by
      rintro rfl
      simp only [flatten_nil, length_nil] at henough
      omega
    obtain ⟨bytes, rest, hread, hbytes, hlen, hflat, hne', hsmall⟩ :=
      otaTransportRead_chunks (target - buf.length) (by omega) hne hmore
    have hflatLen := congrArg List.length hflat
    have hpos := length_pos_iff.mpr hbytes
    rw [length_append] at hflatLen
    have hgrown : (buf ++ bytes).length = buf.length + bytes.length := length_append
    obtain ⟨buf', chunks', hrest, hlen', hflat', hne'', hsmall'⟩ :=
      ih (buf ++ bytes) rest (by omega) hne' (by omega)
    refine ⟨buf', chunks', ?_, by omega, ?_, hne'', fun n hn => hsmall' n (hsmall n hn)⟩
    · rw [receiveUntil, if_neg hdone, hread]
      cases bytes with
      | nil => exact absurd rfl hbytes
      | cons byte bytes => exact hrest
    · rw [hflat', append_assoc, hflat]

theorem wordAt_append (h : offset + 4 ≤ buf.length) :
    wordAt (buf ++ rest) offset = wordAt buf offset := by
  unfold wordAt
  congr 1
  apply Memory.window_congr
  intro k hk
  rw [getD_eq_getElem?_getD, List.getElem?_append_left (by omega),
    getD_eq_getElem?_getD]

/-- **A file header is received whole, however the stream is cut**: the first `headerLen n` bytes,
    or the longer packet that was there; the rest is still to come. -/
theorem otaCoreRecvHeader_chunks {chunks : List (List UInt8)} (hne : ∀ c ∈ chunks, c ≠ [])
    (hnum : wordAt (buf ++ chunks.flatten) 4 = hdrNum) (hmax : hdrNum ≤ OTA_IMGID_MAX)
    (henough : headerLen hdrNum ≤ (buf ++ chunks.flatten).length) :
    ∃ (buf' : List UInt8) (chunks' : List (List UInt8)), otaCoreRecvHeader buf (chunks.map .data) =
        (some (buf', hdrNum), chunks'.map .data) ∧
      buf'.length = max buf.length (headerLen hdrNum) ∧
      buf' ++ chunks'.flatten = buf ++ chunks.flatten ∧ (∀ c ∈ chunks', c ≠ []) ∧
      (∀ n, (∀ c ∈ chunks, c.length ≤ n) → ∀ c ∈ chunks', c.length ≤ n) := by
  have hlong : OTA_HEADER_LEN ≤ headerLen hdrNum := Nat.le_add_left _ _
  rw [length_append] at henough
  obtain ⟨buf1, chunks1, hrecv1, hlen1, hflat1, hne1, hsmall1⟩ :=
    receiveUntil_chunks OTA_HEADER_LEN (OTA_HEADER_LEN - buf.length) buf chunks
      (by omega) hne (by omega)
  have hnum1 : wordAt buf1 4 = hdrNum := by
    rw [← hnum, ← hflat1, wordAt_append]
    rw [hlen1]
    exact Nat.le_max_right _ _
  have henough1 : headerLen hdrNum ≤ buf1.length + chunks1.flatten.length := by
    have := congrArg List.length hflat1
    simp only [length_append] at this
    omega
  obtain ⟨buf2, chunks2, hrecv2, hlen2, hflat2, hne2, hsmall2⟩ :=
    receiveUntil_chunks (headerLen hdrNum) (headerLen hdrNum - buf1.length) buf1 chunks1
      (by omega) hne1 henough1
  refine ⟨buf2, chunks2, ?_, by omega, hflat2.trans hflat1, hne2,
    fun n hn => hsmall2 n (hsmall1 n hn)⟩
  rw [otaCoreRecvHeader, hrecv1]
  dsimp only
  rw [hnum1, if_neg (by omega), hrecv2]

end AmebaRtos.Ota
