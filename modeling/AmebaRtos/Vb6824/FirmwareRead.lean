import AmebaRtos.Vb6824.Upgrade

/-!
# Firmware for the bootloader of the voice chip

The bootloader asks for firmware with an address and a length, both 32 bits wide, and
`jl_do_ota_update` answers with one packet that holds these bytes, fetched from the server with a
range request. The firmware file can have a text header, `axk` and five fields, which
`get_axk_ota_firmware_offset` skips. The sums of the request wrap at 32 bits and the length of the
packet at 16.
-/

namespace AmebaRtos.Vb6824

open Lib List

/-! ### The request to the server -/

/-- Whether the server answers with 206, the sizes in which the body arrives until the connection
    fails, and the body it makes up for a range that ends before it starts. -/
structure RangeAnswer where
  partialContent : Bool
  reads : List Nat
  stray : List UInt8

/-- The body of the answer: what the file has of the range. -/
def RangeAnswer.body (a : RangeAnswer) (file : List UInt8) (first last : UInt32) : List UInt8 :=
  if first ≤ last then (file.drop first.toNat).take (last.toNat + 1 - first.toNat) else a.stray

/-- The loop of `jl_ota_http_read`, with `room` bytes behind the given pointer; none if it
    writes outside of them. -/
def readLoop (room len : Nat) (received body : List UInt8) : List Nat → Option (List UInt8)
  | [] => some received
  | size :: sizes =>
    let readSize := min size (min (len - received.length) body.length)
    if readSize = 0 then some received
    else if received.length + readSize ≤ room then
      readLoop room len (received ++ body.take readSize) (body.drop readSize) sizes
    else none

/-- How `jl_ota_http_read` ends. -/
inductive HttpRead where
  | outside
  | failed
  | content (bytes : List UInt8)
deriving DecidableEq

variable (file : List UInt8) (answer : RangeAnswer)

def jlOtaHttpRead (addr : UInt32) (room : Nat) (len : UInt32) : HttpRead :=
  if answer.partialContent then
    match readLoop room len.toNat [] (answer.body file addr (addr + len - 1)) answer.reads with
    | none => .outside
    | some bytes => if bytes.length = len.toNat then .content bytes else .failed
  else .failed

/-! ### The header of the file -/

/-- The size of the buffer in `get_axk_ota_firmware_offset`. -/
def AXK_BUFFER_SIZE : UInt32 := 64

/-- The loop that looks for the fifth space, at index `i` with some spaces behind it. -/
def fifthSpace (spaceCount i : Nat) : List UInt8 → Option Nat
  | [] => none
  | c :: rest =>
    if c = 0x20 then
      if spaceCount + 1 = 5 then some (i + 1) else fifthSpace (spaceCount + 1) (i + 1) rest
    else fifthSpace spaceCount (i + 1) rest

/-- `get_axk_ota_firmware_offset`; none for a negative result. -/
def getAxkOtaFirmwareOffset : Option Nat :=
  match jlOtaHttpRead file answer 0 AXK_BUFFER_SIZE.toNat AXK_BUFFER_SIZE with
  | .content buffer =>
    if buffer.take 3 = [0x61, 0x78, 0x6B] then fifthSpace 0 0 buffer else some 0
  | _ => none

/-! ### The answer to the chip -/

def sealed (body : List UInt8) : List UInt8 := body ++ toLE 2 (crc16Ccitt body).toNat

/-- What the branch `JL_OTA_UPDATE_READ` does: it sends nothing, writes outside of its buffer, or
    sends a packet. -/
inductive ReadReply where
  | nothing
  | outside
  | packet (bytes : List UInt8)
deriving DecidableEq

/-- The branch `JL_OTA_UPDATE_READ`. `allocated`: there is memory for a buffer; there never is an
    empty one. -/
def jlOtaUpdateRead (offset : Nat) (addr len : UInt32) (allocated : Bool)
    (answer : RangeAnswer) : ReadReply :=
  let bufferLen := (len + 6 + 9).toNat
  if allocated = false ∨ bufferLen = 0 then .nothing
  else if bufferLen < 13 then .outside
  else
    match jlOtaHttpRead file answer (addr + UInt32.ofNat offset) (bufferLen - 13) len with
    | .outside => .outside
    | .failed => .nothing
    | .content bytes =>
      -- the length comes back as an `int`
      if 0 ≤ s32 bytes.length then
        if bytes.length + 15 ≤ bufferLen then
          .packet (sealed ([0xAA, 0x55] ++ toLE 2 (len + 9).toNat ++ [JL_OTA_UPDATE_READ] ++
            toLE 4 addr.toNat ++ toLE 4 len.toNat ++ bytes))
        else .outside
      else .nothing

/-- The bootloader gets nothing, or one packet whose length field holds the length, with the bytes
    that it asked for. -/
def ReadAnswered (offset : Nat) (addr len : UInt32) : ReadReply → Prop
  | .nothing => True
  | .outside => False
  | .packet f =>
    let bytes := (file.drop (offset + addr.toNat)).take len.toNat
    bytes.length = len.toNat ∧ len.toNat + 9 < 2 ^ 16 ∧
      f = sealed ([0xAA, 0x55] ++ toLE 2 (len.toNat + 9) ++ [JL_OTA_UPDATE_READ] ++
        toLE 4 addr.toNat ++ toLE 4 len.toNat ++ bytes)

instance (file : List UInt8) (offset : Nat) (addr len : UInt32) (r : ReadReply) :
    Decidable (ReadAnswered file offset addr len r) :=
  match r with
  | .nothing => inferInstanceAs (Decidable True)
  | .outside => inferInstanceAs (Decidable False)
  | .packet _ => inferInstanceAs (Decidable (_ ∧ _))

/-- The length fits the packet and the range does not wrap; or the length is one that
    `jl_ota_http_read` cannot return. -/
def RequestFits (offset addr len : Nat) : Prop :=
  (len + 9 < 2 ^ 16 ∧ (len = 0 ∨ offset + addr + len ≤ 2 ^ 32)) ∨ (2 ^ 31 ≤ len ∧ len + 15 ≤ 2 ^ 32)
deriving Decidable

/-! ### What the loop reads -/

section

theorem readLoop_take (h : readLoop room len received body sizes = some bytes) :
    ∃ k, bytes = received ++ body.take k := by
  induction sizes generalizing received body with
  | nil =>
    refine ⟨0, ?_⟩
    simpa [readLoop] using h.symm
  | cons size sizes ih =>
    simp only [readLoop] at h
    split at h
    · refine ⟨0, ?_⟩
      simpa using h.symm
    split at h
    · obtain ⟨k, hk⟩ := ih h
      refine ⟨min size (min (len - received.length) body.length) + k, ?_⟩
      rw [hk, append_assoc, ← take_add]
    · cases h

theorem readLoop_inside (hroom : len ≤ room) (hlen : received.length ≤ len) (body : List UInt8)
    (sizes : List Nat) : ∃ bytes, readLoop room len received body sizes = some bytes := by
  induction sizes generalizing received body with
  | nil => exact ⟨received, rfl⟩
  | cons size sizes ih =>
    have hsize : received.length + min size (min (len - received.length) body.length) ≤ len := by
      omega
    simp only [readLoop]
    split
    · exact ⟨received, rfl⟩
    rw [if_pos (Nat.le_trans hsize hroom)]
    apply ih
    simp only [length_append, length_take]
    omega

theorem readLoop_single (hpos : 0 < size) (hsize : size ≤ len) (hbody : size ≤ body.length) :
    readLoop room len [] body [size] = if size ≤ room then some (body.take size) else none := by
  have hmin : min size (min (len - 0) body.length) = size := by omega
  have hzero : size ≠ 0 := by omega
  simp only [readLoop, length_nil, hmin, if_neg hzero, zero_add, nil_append]

end

/-! ### The range -/

section

variable {addr len : UInt32}

theorem range_last (addr len : UInt32) :
    (addr + len - 1).toNat = (addr.toNat + len.toNat + (2 ^ 32 - 1)) % 2 ^ 32 := by
  rw [UInt32.toNat_sub, UInt32.toNat_add]
  simp only [UInt32.reduceToNat]
  omega

theorem range_length (hlen : len ≠ 0) (hle : addr ≤ addr + len - 1) :
    (addr + len - 1).toNat + 1 - addr.toNat = len.toNat := by
  have hpos : 0 < len.toNat := by
    rcases Nat.eq_zero_or_pos len.toNat with hzero | hpos
    · exact absurd (UInt32.toNat_inj.mp hzero) hlen
    · exact hpos
  have hmax := len.toNat_lt
  have hle' : addr.toNat ≤ (addr + len - 1).toNat := hle
  have hlast := range_last addr len
  omega

theorem body_of_le (a : RangeAnswer) (file : List UInt8) (hlen : len ≠ 0)
    (hle : addr ≤ addr + len - 1) :
    a.body file addr (addr + len - 1) = (file.drop addr.toNat).take len.toNat := by
  rw [RangeAnswer.body, if_pos hle, range_length hlen hle]

theorem body_length {a : RangeAnswer} {file : List UInt8} (hlen : len ≠ 0)
    (hsize : size ≤ len.toNat) (hfile : addr ≤ addr + len - 1 → addr.toNat + size ≤ file.length)
    (hstray : size ≤ a.stray.length) : size ≤ (a.body file addr (addr + len - 1)).length := by
  by_cases hle : addr ≤ addr + len - 1
  · have hroom := hfile hle
    rw [body_of_le a file hlen hle, length_take, length_drop]
    omega
  · rw [RangeAnswer.body, if_neg hle]
    exact hstray

end

/-! ### The functions -/

section

variable {file : List UInt8} {answer : RangeAnswer}

theorem jlOtaHttpRead_content {bytes : List UInt8}
    (h : jlOtaHttpRead file answer addr room len = .content bytes) :
    bytes.length = len.toNat ∧ ∃ k, bytes = (answer.body file addr (addr + len - 1)).take k := by
  simp only [jlOtaHttpRead] at h
  split at h
  · split at h
    · cases h
    rename_i read hloop
    split at h
    · rename_i hlength
      cases h
      exact ⟨hlength, readLoop_take hloop⟩
    · cases h
  · cases h

theorem jlOtaHttpRead_inside (hroom : len.toNat ≤ room) :
    jlOtaHttpRead file answer addr room len ≠ .outside := by
  have hnil : ([] : List UInt8).length ≤ len.toNat := Nat.zero_le len.toNat
  obtain ⟨bytes, hloop⟩ := readLoop_inside hroom hnil
    (answer.body file addr (addr + len - 1)) answer.reads
  simp only [jlOtaHttpRead, hloop]
  split
  · split
    · nofun
    · nofun
  · nofun

theorem fifthSpace_le (h : fifthSpace spaceCount i buffer = some k) : k ≤ i + buffer.length := by
  induction buffer generalizing spaceCount i with
  | nil => cases h
  | cons c rest ih =>
    simp only [length_cons]
    simp only [fifthSpace] at h
    split at h
    · split at h
      · cases h
        omega
      · have hrest := ih h
        omega
    · have hrest := ih h
      omega

theorem getAxkOtaFirmwareOffset_bound (h : getAxkOtaFirmwareOffset file answer = some offset) :
    64 ≤ file.length ∧ offset ≤ 64 := by
  simp only [getAxkOtaFirmwareOffset] at h
  split at h
  · rename_i buffer hread
    obtain ⟨hlength, k, hbuffer⟩ := jlOtaHttpRead_content hread
    have hsize : buffer.length = 64 := hlength
    constructor
    · have hle : buffer.length ≤ file.length := by
        rw [hbuffer, body_of_le answer file (by decide) (by decide), length_take,
          length_take, length_drop]
        omega
      omega
    · split at h
      · have hle := fifthSpace_le h
        omega
      · cases h
        exact Nat.zero_le 64
  · cases h

theorem getAxkOtaFirmwareOffset_congr (h : file.take 64 = file'.take 64) :
    getAxkOtaFirmwareOffset file answer = getAxkOtaFirmwareOffset file' answer := by
  have hbody : ∀ f : List UInt8, answer.body f 0 (0 + AXK_BUFFER_SIZE - 1) = f.take 64 := by
    intro f
    exact body_of_le answer f (by decide) (by decide)
  simp only [getAxkOtaFirmwareOffset, jlOtaHttpRead, hbody, h]

theorem bufferLen_toNat (len : UInt32) : (len + 6 + 9).toNat = (len.toNat + 15) % 2 ^ 32 := by
  rw [UInt32.toNat_add, UInt32.toNat_add]
  simp only [UInt32.reduceToNat]
  omega

end

/-! ### Requests that fit -/

section

variable {file : List UInt8}

theorem body_of_fits (hlen : len ≠ 0) (hrange : offset + addr.toNat + len.toNat ≤ 2 ^ 32) :
    answer.body file (addr + UInt32.ofNat offset) (addr + UInt32.ofNat offset + len - 1) =
      (file.drop (offset + addr.toNat)).take len.toNat := by
  have hpos : len.toNat ≠ 0 := fun hzero => hlen (UInt32.toNat_inj.mp hzero)
  have hfirst : (addr + UInt32.ofNat offset).toNat = offset + addr.toNat := by
    rw [UInt32.toNat_add, UInt32.toNat_ofNat']
    omega
  have hle : addr + UInt32.ofNat offset ≤ addr + UInt32.ofNat offset + len - 1 := by
    rw [UInt32.le_iff_toNat_le, range_last]
    omega
  rw [body_of_le answer file hlen hle, hfirst]

theorem content_of_fits {answer : RangeAnswer}
    (hrange : len.toNat = 0 ∨ offset + addr.toNat + len.toNat ≤ 2 ^ 32)
    (h : jlOtaHttpRead file answer (addr + UInt32.ofNat offset) room len = .content bytes) :
    bytes = (file.drop (offset + addr.toNat)).take len.toNat := by
  obtain ⟨hlength, k, hbytes⟩ := jlOtaHttpRead_content h
  by_cases hzero : len.toNat = 0
  · rw [hzero] at hlength
    rw [hzero]
    exact eq_nil_of_length_eq_zero hlength
  have hne : len ≠ 0 := fun heq => hzero (congrArg UInt32.toNat heq)
  rw [body_of_fits answer hne (hrange.resolve_left hzero), take_take] at hbytes
  -- `bytes` is as long as the longest part of the file that it can be
  have hmin : min k len.toNat = len.toNat ∨ bytes.length < len.toNat := by
    have hle : bytes.length ≤ min k len.toNat := by
      rw [hbytes]
      exact length_take_le _ _
    omega
  rcases hmin with hmin | hshort
  · rw [hbytes, hmin]
  · omega

/-- **A request that fits** is answered right, whatever the server does. -/
theorem answered_of_fits (hfits : RequestFits offset addr.toNat len.toNat) (answer : RangeAnswer) :
    ReadAnswered file offset addr len (jlOtaUpdateRead file offset addr len allocated answer) := by
  have hbuffer := bufferLen_toNat len
  simp only [jlOtaUpdateRead]
  split
  · exact trivial
  have hwhole : (len + 6 + 9).toNat = len.toNat + 15 := by
    rcases hfits with ⟨hshort, _⟩ | ⟨_, hroom⟩
    · omega
    · omega
  rw [if_neg (by omega)]
  split
  · rename_i hread
    exact absurd hread (jlOtaHttpRead_inside (by omega))
  · exact trivial
  rename_i bytes hread
  obtain ⟨hlength, -⟩ := jlOtaHttpRead_content hread
  rcases hfits with ⟨hshort, hrange⟩ | ⟨hlong, _⟩
  · have hbytes := content_of_fits hrange hread
    have hpositive : 0 ≤ s32 bytes.length := by
      simp only [s32]
      omega
    have hfield : (len + 9).toNat = len.toNat + 9 := by
      rw [UInt32.toNat_add]
      simp only [UInt32.reduceToNat]
      omega
    rw [if_pos hpositive, if_pos (by omega), hfield, hbytes]
    exact ⟨hbytes ▸ hlength, hshort, rfl⟩
  · have hnegative : ¬ 0 ≤ s32 bytes.length := by
      simp only [s32]
      omega
    rw [if_neg hnegative]
    exact trivial

end

/-! ### Requests that do not -/

section

variable {file : List UInt8}

/-- A server that sends `size` bytes at once, whatever the range. -/
def atOnce (size : Nat) : RangeAnswer := ⟨true, [size], List.replicate size 0⟩

theorem jlOtaHttpRead_atOnce {size : Nat} (room : Nat) (hpos : 0 < size) (hsize : size ≤ len.toNat)
    (hfile : addr ≤ addr + len - 1 → addr.toNat + size ≤ file.length) :
    ∃ bytes, bytes.length = size ∧ jlOtaHttpRead file (atOnce size) addr room len =
        if size ≤ room then if size = len.toNat then .content bytes else .failed else .outside := by
  have hlen : len ≠ 0 := by
    rintro rfl
    exact absurd hsize (Nat.not_le_of_lt hpos)
  have hstray : size ≤ (atOnce size).stray.length := by
    simp [atOnce]
  have hbody := body_length hlen hsize hfile hstray
  refine ⟨((atOnce size).body file addr (addr + len - 1)).take size, ?_, ?_⟩
  · exact length_take_of_le hbody
  · have hanswers : (atOnce size).partialContent = true := rfl
    have hreads : (atOnce size).reads = [size] := rfl
    simp only [jlOtaHttpRead, hanswers, hreads, readLoop_single hpos hsize hbody]
    by_cases hroom : size ≤ room
    · simp [hroom, length_take_of_le hbody]
    · simp [hroom]

theorem packet_of_served (hpos : 0 < len.toNat) (hshort : len.toNat < 2 ^ 31)
    (hfile : addr + UInt32.ofNat offset ≤ addr + UInt32.ofNat offset + len - 1 →
      (addr + UInt32.ofNat offset).toNat + len.toNat ≤ file.length) :
    ∃ f, jlOtaUpdateRead file offset addr len true (atOnce len.toNat) = .packet f := by
  have hbuffer := bufferLen_toNat len
  have hwhole : (len + 6 + 9).toNat = len.toNat + 15 := by omega
  obtain ⟨bytes, hlength, hread⟩ :=
    jlOtaHttpRead_atOnce (len.toNat + 15 - 13) hpos (Nat.le_refl len.toNat) hfile
  rw [if_pos (by omega), if_pos rfl] at hread
  have hpositive : 0 ≤ s32 bytes.length := by
    simp only [s32]
    omega
  simp only [jlOtaUpdateRead, hwhole, hread]
  rw [if_neg (by simp), if_neg (by omega), if_pos hpositive, if_pos (by omega)]
  exact ⟨_, rfl⟩

theorem outside_of_wrap (hwrap : 2 ^ 32 < len.toNat + 15)
    (hfile : (addr + UInt32.ofNat offset).toNat + 2 ≤ file.length) :
    jlOtaUpdateRead file offset addr len true (atOnce 2) = .outside := by
  have hmax := len.toNat_lt
  have hbuffer := bufferLen_toNat len
  have hwrapped : (len + 6 + 9).toNat = len.toNat + 15 - 2 ^ 32 := by omega
  simp only [jlOtaUpdateRead, hwrapped]
  rw [if_neg (by simp; omega)]
  split
  · rfl
  obtain ⟨bytes, -, hread⟩ := jlOtaHttpRead_atOnce (len.toNat + 15 - 2 ^ 32 - 13)
    Nat.zero_lt_two (by omega : 2 ≤ len.toNat) (fun _ => hfile)
  rw [if_neg (by omega)] at hread
  rw [hread]

end

/-- **Firmware requests.** Whatever the header of the file and the server, the bootloader gets
    nothing or the packet it asked for exactly if the request fits. -/
theorem read_answered_iff {head : List UInt8} {headAnswer : RangeAnswer} {offset : Nat}
    (hoffset : getAxkOtaFirmwareOffset head headAnswer = some offset) (addr len : UInt32) :
    (∀ file fileAnswer, getAxkOtaFirmwareOffset file fileAnswer = some offset →
      ∀ allocated answer, ReadAnswered file offset addr len
        (jlOtaUpdateRead file offset addr len allocated answer)) ↔
      RequestFits offset addr.toNat len.toNat := by
  constructor
  · intro hall
    obtain ⟨hsize, hbound⟩ := getAxkOtaFirmwareOffset_bound hoffset
    have haddr := addr.toNat_lt
    have hfirst : (addr + UInt32.ofNat offset).toNat = (addr.toNat + offset) % 2 ^ 32 := by
      rw [UInt32.toNat_add, UInt32.toNat_ofNat']
      omega
    -- files with the same header, of any length
    have hpadded : ∀ k, ∀ allocated answer,
        ReadAnswered (head.take 64 ++ List.replicate k 0) offset addr len
          (jlOtaUpdateRead (head.take 64 ++ List.replicate k 0) offset addr len allocated
            answer) := by
      intro k
      apply hall _ headAnswer
      rw [← hoffset]
      apply getAxkOtaFirmwareOffset_congr
      simp [hsize]
    have hlength : ∀ k, (head.take 64 ++ List.replicate k (0 : UInt8)).length = 64 + k := by
      simp [hsize]
    by_contra hnot
    simp only [RequestFits, not_or, not_and, Nat.not_le] at hnot
    obtain ⟨hrange, hlong⟩ := hnot
    by_cases hwrap : 2 ^ 32 < len.toNat + 15
    · have houtside := hpadded (2 ^ 33) true (atOnce 2)
      rw [outside_of_wrap hwrap (by rw [hlength]; omega)] at houtside
      exact houtside
    have hshort : len.toNat < 2 ^ 31 := by
      by_contra hhuge
      exact hwrap (hlong (by omega))
    by_cases hfield : len.toNat + 9 < 2 ^ 16
    · obtain ⟨hpos, hpast⟩ := hrange hfield
      have hne : len ≠ 0 := fun hzero => hpos (congrArg UInt32.toNat hzero)
      have hanswered := hpadded len.toNat true (atOnce len.toNat)
      obtain ⟨f, hpacket⟩ : ∃ f, jlOtaUpdateRead (head.take 64 ++ List.replicate len.toNat 0)
          offset addr len true (atOnce len.toNat) = .packet f := by
        apply packet_of_served (Nat.pos_of_ne_zero hpos) hshort
        intro hle
        -- a range that is not inverted has wrapped to the start of the file
        have hrangeLength := range_length hne hle
        have hlast := (addr + UInt32.ofNat offset + len - 1).toNat_lt
        rw [hlength]
        omega
      rw [hpacket] at hanswered
      have hbytes := hanswered.1
      rw [length_take, length_drop, hlength] at hbytes
      omega
    · have hanswered := hpadded (2 ^ 33) true (atOnce len.toNat)
      obtain ⟨f, hpacket⟩ : ∃ f, jlOtaUpdateRead (head.take 64 ++ List.replicate (2 ^ 33) 0)
          offset addr len true (atOnce len.toNat) = .packet f := by
        apply packet_of_served (by omega) hshort
        rw [hlength]
        omega
      rw [hpacket] at hanswered
      exact hfield hanswered.2.1
  · intro hfits file fileAnswer _ allocated answer
    exact answered_of_fits hfits answer

/-- A firmware file: a header of twelve bytes, and 64 bytes of firmware. -/
def axkFile : List UInt8 :=
  [0x61, 0x78, 0x6B, 0x20, 0x31, 0x20, 0x32, 0x20, 0x33, 0x20, 0x34, 0x20] ++
    (List.range 64).map UInt8.ofNat

theorem read_answered_file : getAxkOtaFirmwareOffset axkFile (atOnce 64) = some 12 ∧
      ReadAnswered axkFile 12 0x10 4 (jlOtaUpdateRead axkFile 12 0x10 4 true ⟨true, [1, 3], []⟩) :=
  have hoffset : getAxkOtaFirmwareOffset axkFile (atOnce 64) = some 12 := by decide +kernel
  ⟨hoffset, (read_answered_iff hoffset 0x10 4).mpr (by decide) axkFile (atOnce 64) hoffset true
    ⟨true, [1, 3], []⟩⟩

/-- At the end of the addresses the bootloader gets the header, and with a length close to 4 GiB the
    buffer is overrun. -/
theorem wrapped_request : getAxkOtaFirmwareOffset axkFile (atOnce 64) = some 12 ∧
      ¬ ReadAnswered axkFile 12 0xFFFFFFF4 3
        (jlOtaUpdateRead axkFile 12 0xFFFFFFF4 3 true (atOnce 3)) ∧
      jlOtaUpdateRead axkFile 12 0xFFFFFFF4 3 true (atOnce 3) =
        .packet (jlPacket ([JL_OTA_UPDATE_READ] ++ [0xF4, 0xFF, 0xFF, 0xFF] ++ [3, 0, 0, 0] ++
          [0x61, 0x78, 0x6B])) ∧
      jlOtaUpdateRead axkFile 12 0 0xFFFFFFF2 true (atOnce 1) = .outside := by
  decide +kernel

end AmebaRtos.Vb6824
