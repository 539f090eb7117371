import Mathlib.Algebra.Order.BigOperators.Group.List
import Mathlib.Algebra.Order.Group.Nat
import Mathlib.Data.List.Infix
import AmebaRtos.Lib.FileBytes
import AmebaRtos.Ota.Storage

/-!
# Packaging an OTA file

`OtaPrependHeader` of `op_ota_prepend_header.py` builds the files that the device takes apart: a
file header, a sub-header per image, and the images in a fixed order of their types. The checksums
are written into the finished file afterwards. The two programs agree on every list of images
except that an `IMAGE2` image is counted and merged but gets no sub-header.
-/

namespace AmebaRtos.Ota

open Lib List

/-! ### Image types -/

inductive ImageType where
  | image1
  | image2
  | image3
  | appAll
  | cert
  | dsp
  | vbmeta
  | unknown
deriving DecidableEq, Repr

/-- `os.path.splitext(os.path.basename(path))[0]`. -/
def imageName (path : String) : List Char :=
  let name := (path.toList.reverse.takeWhile (· ≠ '/')).reverse
  let root := ((name.reverse.dropWhile (· ≠ '.')).drop 1).reverse
  -- a name of leading dots only has no extension
  if root.any (· ≠ '.') then root else name

def parseImageType (imagePath : String) : ImageType :=
  let name := imageName imagePath
  if ["image1", "boot", "ram_1"].any (fun x => decide (x.toList <:+: name)) then .image1
  else if ["image2", "sram_2", "ap_image_all"].any (fun x => decide (x.toList <:+: name)) then
    .image2
  else if ["image3", "img3"].any (fun x => decide (x.toList <:+: name)) then .image3
  else if ["_app", "_app_ns", "_app_mp"].any (fun x => decide (x.toList <:+ name)) then .appAll
  else if ["dsp"].any (fun x => decide (x.toList <:+: name)) then .dsp
  else .unknown

/-- `image_list`: the accepted types in file order, with their image IDs. -/
def imageList : List (ImageType × Nat) := [(.image1, 0), (.image2, 0xFF), (.appAll, 1), (.dsp, 2)]

/-! ### The packager -/

structure InputFile where
  path : String
  content : List UInt8
deriving DecidableEq, Repr

def InputFile.imageType (img : InputFile) : ImageType := parseImageType img.path

inductive PackError where
  | fileNotFound (path : String)
  | invalidInput
  | exception
deriving DecidableEq, Repr

/-- `pre_process`: the input files, sorted by type. -/
def preProcess (files : String → Option (List UInt8)) : List String →
    (ImageType → List InputFile) → Except PackError (ImageType → List InputFile)
  | [], images => .ok images
  | path :: rest, images =>
    match files path with
    | none => .error (.fileNotFound path)
    | some content =>
      let imageType := parseImageType path
      if imageType ∉ imageList.map Prod.fst then .error .invalidInput
      else
        preProcess files rest
          (Function.update images imageType (images imageType ++ [⟨path, content⟩]))

/-- `struct.pack` with little-endian words; a value that does not fit raises. -/
def packWords (values : List Nat) : Option (List UInt8) :=
  if values.all (· < 2 ^ 32) then some (values.flatMap (toLE 4)) else none

/-- The packager's `header` and `offset`. -/
structure PackState where
  header : List UInt8
  offset : Nat

def OTA_SIGN : List UInt8 := [0x4F, 0x54, 0x41, 0x31]

def updateHeader (st : PackState) (img : InputFile) (imageId : Nat) : Option PackState :=
  let imageSize := img.content.length
  if imageId ≠ 0xFF then
    match packWords [24, 0, imageSize, st.offset, imageId] with
    | none => none
    | some fields => some ⟨st.header ++ OTA_SIGN ++ fields, st.offset + imageSize⟩
  else some { st with offset := st.offset + imageSize }

def updateHeaders : PackState → List (InputFile × Nat) → Option PackState
  | st, [] => some st
  | st, (img, imageId) :: rest =>
    match updateHeader st img imageId with
    | none => none
    | some st => updateHeaders st rest

def byteSum (bytes : List UInt8) : Nat := (bytes.map UInt8.toNat).sum

def patchChecksums : List UInt8 → Nat → List InputFile → Option (List UInt8)
  | file, _, [] => some file
  | file, offset, img :: rest =>
    match packWords [byteSum img.content] with
    | none => none
    | some checksum => patchChecksums (writeAt file offset checksum) (offset + 24) rest

/-- `process` up to the written file; `none` is an exception. -/
def process (otaNum : Nat) (images : ImageType → List InputFile) : Option (List UInt8) :=
  match packWords [0xFFFFFFFF, otaNum] with
  | none => none
  | some header =>
    let entries := imageList.flatMap fun (imgType, imgId) => (images imgType).map (·, imgId)
    match updateHeaders ⟨header, 32 + 24 * (otaNum - 1)⟩ entries with
    | none => none
    | some st =>
      let fullImages := imageList.flatMap fun (imgType, _) => images imgType
      patchChecksums (st.header ++ fullImages.flatMap InputFile.content) 16 fullImages

/-- `OtaPrependHeader` on the given input files: the bytes of the output file. -/
def otaPrependHeader (files : String → Option (List UInt8)) (inputFile : List String) :
    Except PackError (List UInt8) :=
  match preProcess files inputFile (fun _ => []) with
  | .error e => .error e
  | .ok images =>
    match process inputFile.length images with
    | none => .error .exception
    | some file => .ok file

example : ["build/km4_boot_all.bin", "build/amebadplus_app.bin", "out/app_dsp.v2.bin",
    "a/.img3"].map parseImageType = [.image1, .appAll, .dsp, .image3] := by decide +kernel

/-! ### What the device should find in the file -/

/-- The images in the order in which they are merged. -/
def fullImages (inputs : List InputFile) : List InputFile :=
  imageList.flatMap fun (imgType, _) => inputs.filter (·.imageType = imgType)

def imageStart (images : List InputFile) (i : Nat) : Nat :=
  headerLen images.length + ((images.take i).map (·.content.length)).sum

/-- A sub-header describes an image that starts at `start`, and its checksum is the
    one that `ota_storage_verify_checksum` computes once the image is in its slot. -/
structure Describes (file : List UInt8) (start : Nat) (img : InputFile) (hdr : SubHdr) : Prop where
  imgLen : hdr.imgLen = img.content.length
  offset : hdr.offset = start
  bytes : (file.drop hdr.offset).take hdr.imgLen = img.content
  imgID : imageList.lookup img.imageType = some hdr.imgID
  verified : ∀ (board : Board) (slotIdx : Slot) (flash : Memory),
    flash.window (chipOffset (board.imgAddr hdr.imgID slotIdx)) img.content.length = img.content →
      board.otaStorageVerifyChecksum hdr (img.content.take MANIFEST_SIZE) slotIdx flash = true

/-- However the file is cut into reads, the device parses it into one sub-header per
    image. -/
def ParsesAs (file : List UInt8) (images : List InputFile) : Prop :=
  ∀ (buf : List UInt8) (chunks : List (List UInt8)), (∀ c ∈ chunks, c ≠ []) →
    buf ++ chunks.flatten = file →
    ∃ buf' hdrNum script hdrs,
      otaCoreRecvHeader buf (chunks.map .data) = (some (buf', hdrNum), script) ∧
      otaCoreGetTargetHeader buf' hdrNum = some hdrs ∧ hdrs.length = images.length ∧
      ∀ i (h : i < images.length),
        Describes file (imageStart images i) images[i] (hdrs.getD i default)

structure Packable (images : List InputFile) : Prop where
  sizes : ∀ img ∈ images, img.content.length < 2 ^ 32
  sums : ∀ img ∈ images, byteSum img.content < 2 ^ 32
  offsets : ∀ i < images.length, imageStart images i < 2 ^ 32

/-! ### Sorting the input files -/

section

/-- The types that `OtaPrependHeader` accepts. -/
def Accepted (inputs : List InputFile) : Prop :=
  ∀ img ∈ inputs, img.imageType ∈ imageList.map Prod.fst

theorem preProcess_accepted (hfiles : ∀ img ∈ inputs, files img.path = some img.content)
    (haccepted : Accepted inputs) (images : ImageType → List InputFile) :
    preProcess files (inputs.map InputFile.path) images =
      .ok fun t => images t ++ inputs.filter (·.imageType = t) := by
  induction inputs generalizing images with
  | nil => simp [preProcess]
  | cons img rest ih =>
    have hfound : files img.path = some img.content := hfiles img (.head _)
    have htype : parseImageType img.path ∈ imageList.map Prod.fst :=
      haccepted img (.head _)
    have hrest := fun acc => ih (fun x hx => hfiles x (.tail _ hx))
      (fun x hx => haccepted x (.tail _ hx)) acc
    rw [map_cons, preProcess, hfound]
    dsimp only
    rw [if_neg (not_not_intro htype), hrest]
    congr 1
    funext t
    by_cases ht : t = parseImageType img.path
    · subst ht
      simp [InputFile.imageType]
    · have ht' : ¬ parseImageType img.path = t := fun h => ht h.symm
      simp [ht, ht', InputFile.imageType]

theorem fullImages_perm (haccepted : Accepted inputs) : (fullImages inputs).Perm inputs := by
  induction inputs with
  | nil => exact List.Perm.refl _
  | cons img rest ih =>
    have hrest := ih fun x hx => haccepted x (.tail _ hx)
    have htype := haccepted img (.head _)
    -- the new image goes to the end of the types in front of its own
    refine List.Perm.trans ?_ (hrest.cons img)
    simp only [imageList, map_cons, map_nil, mem_cons, not_mem_nil, or_false] at htype
    simp only [fullImages, imageList]
    rcases htype with h | h | h | h
    · simp [h]
    · simp [h]
    · simpa [h] using @perm_middle _ img
        (rest.filter (·.imageType = .image1) ++ rest.filter (·.imageType = .image2))
        (rest.filter (·.imageType = .appAll) ++ rest.filter (·.imageType = .dsp))
    · simpa [h] using @perm_middle _ img
        (rest.filter (·.imageType = .image1) ++ rest.filter (·.imageType = .image2) ++
          rest.filter (·.imageType = .appAll)) (rest.filter (·.imageType = .dsp))

theorem mem_fullImages (haccepted : Accepted inputs) : img ∈ fullImages inputs ↔ img ∈ inputs :=
  (fullImages_perm haccepted).mem_iff

end

/-! ### The headers that are written -/

def imageEntries (inputs : List InputFile) : List (InputFile × Nat) :=
  imageList.flatMap fun (imgType, imgId) =>
    (inputs.filter (·.imageType = imgType)).map (·, imgId)

def subHdrs (checksum : InputFile → Nat) : Nat → List (InputFile × Nat) → List SubHdr
  | _, [] => []
  | offset, (img, imageId) :: rest =>
    ⟨OTA_SIGN, 24, checksum img, img.content.length, offset, imageId⟩ ::
      subHdrs checksum (offset + img.content.length) rest

section Headers

theorem map_fst_imageEntries : (imageEntries inputs).map Prod.fst = fullImages inputs := by
  simp [imageEntries, fullImages, map_flatMap, Function.comp_def]

theorem lookup_imageEntries (h : (img, imageId) ∈ imageEntries inputs) :
    imageList.lookup img.imageType = some imageId := by
  simp only [imageEntries, mem_flatMap, mem_map, mem_filter,
    decide_eq_true_eq] at h
  obtain ⟨⟨imgType, imgId⟩, hlist, _, ⟨_, htype⟩, rfl, rfl⟩ := h
  rw [htype]
  simp only [imageList, mem_cons, not_mem_nil, or_false] at hlist
  rcases hlist with ⟨rfl, rfl⟩ | ⟨rfl, rfl⟩ | ⟨rfl, rfl⟩ | ⟨rfl, rfl⟩ <;> rfl

@[simp] theorem length_subHdrs : (subHdrs checksum offset entries).length = entries.length := by
  induction entries generalizing offset with
  | nil => rfl
  | cons entry rest ih => simp [subHdrs, ih]

theorem getElem?_subHdrs (hi : i < entries.length) :
    (subHdrs checksum offset entries)[i]? =
      some ⟨OTA_SIGN, 24, checksum entries[i].1, entries[i].1.content.length,
        offset + ((entries.take i).map (·.1.content.length)).sum, entries[i].2⟩ := by
  induction entries generalizing offset i with
  | nil => exact absurd hi (Nat.not_lt_zero _)
  | cons entry rest ih =>
    cases i with
    | zero => simp [subHdrs]
    | succ i =>
      have hi' : i < rest.length := Nat.lt_of_succ_lt_succ hi
      simp [subHdrs, ih hi', add_assoc]

theorem packWords_eq_some : packWords values = some bytes ↔
      (∀ v ∈ values, v < 2 ^ 32) ∧ bytes = values.flatMap (toLE 4) := by
  unfold packWords
  by_cases hfit : values.all (· < 2 ^ 32) = true
  · rw [if_pos hfit]
    simp only [all_eq_true, decide_eq_true_eq] at hfit
    exact ⟨fun h => ⟨hfit, (Option.some.inj h).symm⟩, fun h => by rw [h.2]⟩
  · rw [if_neg hfit]
    simp only [all_eq_true, decide_eq_true_eq] at hfit
    exact ⟨fun h => (nomatch h), fun h => absurd h.1 hfit⟩

def EntriesFit (checksum : InputFile → Nat) (offset : Nat) (entries : List (InputFile × Nat)) :
    Prop :=
  ∀ hdr ∈ subHdrs checksum offset entries, hdr.Fits

theorem entriesFit_cons :
    EntriesFit checksum offset ((img, imageId) :: rest) ↔
      (checksum img < 2 ^ 32 ∧ img.content.length < 2 ^ 32 ∧ offset < 2 ^ 32 ∧ imageId < 2 ^ 32) ∧
        EntriesFit checksum (offset + img.content.length) rest := by
  simp only [EntriesFit, subHdrs, forall_mem_cons]
  refine and_congr_left fun _ => ⟨fun h => ⟨h.checksum, h.imgLen, h.offset, h.imgID⟩, fun h => ?_⟩
  exact ⟨rfl, (by decide : 24 < 2 ^ 32), h.1, h.2.1, h.2.2.1, h.2.2.2⟩

theorem updateHeader_eq_some (hid : imageId ≠ 0xFF) :
    updateHeader ⟨header, offset⟩ img imageId = some st ↔
      (img.content.length < 2 ^ 32 ∧ offset < 2 ^ 32 ∧ imageId < 2 ^ 32) ∧
        st = ⟨header ++ SubHdr.encode ⟨OTA_SIGN, 24, 0, img.content.length, offset, imageId⟩,
          offset + img.content.length⟩ := by
  unfold updateHeader
  rw [if_pos hid]
  cases hpack : packWords [24, 0, img.content.length, offset, imageId] with
  | none =>
    refine ⟨fun h => (nomatch h), fun ⟨hfit, _⟩ => ?_⟩
    have hsome : packWords [24, 0, img.content.length, offset, imageId] = some _ :=
      packWords_eq_some.mpr ⟨by simpa using hfit, rfl⟩
    rw [hsome] at hpack
    cases hpack
  | some fields =>
    obtain ⟨hfit, rfl⟩ := packWords_eq_some.mp hpack
    simp only [forall_mem_cons] at hfit
    constructor
    · rintro ⟨⟩
      exact ⟨⟨hfit.2.2.1, hfit.2.2.2.1, hfit.2.2.2.2.1⟩, by simp [SubHdr.encode]⟩
    · rintro ⟨_, rfl⟩
      simp [SubHdr.encode]

theorem updateHeaders_eq_some (hids : ∀ e ∈ entries, e.2 ≠ 0xFF) :
    (∃ offset', updateHeaders ⟨header, offset⟩ entries = some ⟨header', offset'⟩) ↔
      EntriesFit (fun _ => 0) offset entries ∧
        header' = header ++ (subHdrs (fun _ => 0) offset entries).flatMap SubHdr.encode := by
  induction entries generalizing header offset with
  | nil => simp [updateHeaders, EntriesFit, subHdrs, eq_comm]
  | cons entry rest ih =>
    obtain ⟨img, imageId⟩ := entry
    have hid : imageId ≠ 0xFF := hids _ (.head _)
    have ih' := fun header offset =>
      @ih offset header fun e he => hids e (.tail _ he)
    rw [entriesFit_cons]
    cases hone : updateHeader ⟨header, offset⟩ img imageId with
    | none =>
      refine ⟨fun ⟨_, h⟩ => ?_, fun ⟨⟨⟨_, hfit⟩, _⟩, _⟩ => ?_⟩
      · rw [updateHeaders, hone] at h
        cases h
      · rw [(updateHeader_eq_some hid).mpr ⟨hfit, rfl⟩] at hone
        cases hone
    | some st =>
      obtain ⟨hfit, rfl⟩ := (updateHeader_eq_some hid).mp hone
      rw [updateHeaders, hone]
      rw [ih', append_assoc]
      exact ⟨fun h => ⟨⟨⟨by decide, hfit⟩, h.1⟩, h.2⟩, fun h => ⟨h.1.2, h.2⟩⟩

theorem patchChecksums_eq_some (front tail : List UInt8) :
    patchChecksums (front ++ ((subHdrs (fun _ => 0) offset entries).flatMap SubHdr.encode ++ tail))
        (front.length + 8) (entries.map Prod.fst) = some file ↔
      (∀ e ∈ entries, byteSum e.1.content < 2 ^ 32) ∧
        file = front ++ ((subHdrs (fun img => byteSum img.content) offset entries).flatMap
          SubHdr.encode ++ tail) := by
  induction entries generalizing front offset with
  | nil => simp [patchChecksums, subHdrs, eq_comm]
  | cons entry rest ih =>
    obtain ⟨img, imageId⟩ := entry
    rw [map_cons, patchChecksums, forall_mem_cons]
    cases hpack : packWords [byteSum img.content] with
    | none =>
      refine ⟨fun h => (nomatch h), fun ⟨⟨hsum, _⟩, _⟩ => ?_⟩
      have hsome : packWords [byteSum img.content] = some _ :=
        packWords_eq_some.mpr ⟨by simpa using hsum, rfl⟩
      rw [hsome] at hpack
      cases hpack
    | some checksum =>
      obtain ⟨hsum, rfl⟩ := packWords_eq_some.mp hpack
      have hsum : byteSum img.content < 2 ^ 32 := hsum _ (.head _)
      -- the word behind signature and header length is overwritten
      have hwrite := writeAt_middle (front ++ (OTA_SIGN ++ toLE 4 24)) (toLE 4 0)
        (toLE 4 (byteSum img.content))
        (toLE 4 img.content.length ++ (toLE 4 offset ++ (toLE 4 imageId ++
          ((subHdrs (fun _ => 0) (offset + img.content.length) rest).flatMap SubHdr.encode ++
            tail)))) (by simp)
      have hnext := @ih (offset + img.content.length) (front ++ SubHdr.encode
        ⟨OTA_SIGN, 24, byteSum img.content, img.content.length, offset, imageId⟩)
      simp only [subHdrs, SubHdr.encode, OTA_SIGN, flatMap_cons, flatMap_nil,
        append_nil, append_assoc, length_append, length_toLE, length_cons,
        length_nil] at hwrite hnext ⊢
      rw [hwrite, hnext, and_assoc]
      exact ⟨fun h => ⟨hsum, h⟩, fun h => h.2⟩

end Headers

/-! ### A packaged file is parsed as it was meant -/

def packagedFile (entries : List (InputFile × Nat)) : List UInt8 :=
  toLE 4 0xFFFFFFFF ++ toLE 4 entries.length ++
    ((subHdrs (fun img => byteSum img.content) (headerLen entries.length) entries).flatMap
        SubHdr.encode ++
      (entries.map Prod.fst).flatMap InputFile.content)

section Parsing

theorem subHdrs_signed : ∀ hdr ∈ subHdrs checksum offset entries, hdr.signed = true := by
  induction entries generalizing offset with
  | nil => exact fun _ h => absurd h not_mem_nil
  | cons entry rest ih =>
    simp only [subHdrs, forall_mem_cons]
    exact ⟨rfl, ih⟩

theorem verifyChecksum_eq (board : Board) (hlen : hdr.imgLen = content.length)
    (hlong : MANIFEST_SIZE ≤ content.length) (hsize : content.length < 2 ^ 32)
    (hflash :
      flash.window (chipOffset (board.imgAddr hdr.imgID slotIdx)) content.length = content) :
    board.otaStorageVerifyChecksum hdr (content.take MANIFEST_SIZE) slotIdx flash =
      decide (byteSum content % 2 ^ 32 = hdr.checksum) := by
  have hbody : u32 ((hdr.imgLen : Int) - MANIFEST_SIZE) = content.length - MANIFEST_SIZE := by
    rw [hlen, ← Int.ofNat_sub hlong]
    exact u32_natCast (by omega)
  have hwindow : flash.window (chipOffset (board.imgAddr hdr.imgID slotIdx) + MANIFEST_SIZE)
      (content.length - MANIFEST_SIZE) = content.drop MANIFEST_SIZE := by
    rw [← Memory.drop_window, hflash]
  unfold Board.otaStorageVerifyChecksum
  dsimp only
  rw [hbody, hwindow, ← sum_append, ← map_append, take_append_drop]
  rfl

theorem manifest_le_of_verified (hlen : hdr.imgLen = content.length)
    (hverified : ∀ (board : Board) (slotIdx : Slot) (flash : Memory),
      flash.window (chipOffset (board.imgAddr hdr.imgID slotIdx)) content.length = content →
        board.otaStorageVerifyChecksum hdr (content.take MANIFEST_SIZE) slotIdx flash = true) :
    MANIFEST_SIZE ≤ content.length := by
  by_contra hshort
  have hverified := hverified runningFromOta1 .A
  unfold Board.otaStorageVerifyChecksum at hverified
  generalize chipOffset (runningFromOta1.imgAddr hdr.imgID .A) = addr at hverified
  obtain ⟨len, hbody⟩ : ∃ len, u32 ((hdr.imgLen : Int) - MANIFEST_SIZE) = len + 1 := by
    refine ⟨2 ^ 32 + content.length - MANIFEST_SIZE - 1, ?_⟩
    simp only [u32, MANIFEST_SIZE] at hshort ⊢
    omega
  -- two flashes that differ in the first byte behind the manifest only
  let filled : UInt8 → Memory := fun byte a =>
    if a = addr + MANIFEST_SIZE then byte else content.getD (a - addr) 0
  have hholds : ∀ byte, (filled byte).window addr content.length = content := by
    intro byte
    apply ext_getElem
    · simp
    · intro k _ hk
      have hne : k ≠ MANIFEST_SIZE := by omega
      simp [Memory.window, filled, hne, hk]
  have hsum : ∀ byte, ((filled byte).window (addr + MANIFEST_SIZE) (len + 1)).map UInt8.toNat =
      byte.toNat :: ((filled 0).window (addr + MANIFEST_SIZE + 1) len).map UInt8.toNat := by
    intro byte
    rw [Memory.window_succ, map_cons]
    congr 2
    · exact if_pos rfl
    · apply Memory.window_congr
      intro k _
      have hne : ¬ addr + MANIFEST_SIZE + 1 + k = addr + MANIFEST_SIZE := by omega
      simp only [filled, if_neg hne]
  have hzero := hverified (filled 0) (hholds 0)
  have hone := hverified (filled 1) (hholds 1)
  simp only [hbody, hsum, sum_cons, decide_eq_true_eq] at hzero hone
  have hbytes : (0 : UInt8).toNat = 0 ∧ (1 : UInt8).toNat = 1 := ⟨rfl, rfl⟩
  omega

theorem entriesFit_iff :
    EntriesFit checksum offset entries ↔
      ∀ i (h : i < entries.length), checksum entries[i].1 < 2 ^ 32 ∧
        entries[i].1.content.length < 2 ^ 32 ∧
        offset + ((entries.take i).map (·.1.content.length)).sum < 2 ^ 32 ∧
        entries[i].2 < 2 ^ 32 := by
  constructor
  · intro hfit i hi
    have hhdr := hfit _ (mem_of_getElem? (getElem?_subHdrs hi))
    exact ⟨hhdr.checksum, hhdr.imgLen, hhdr.offset, hhdr.imgID⟩
  · intro hfit hdr hhdr
    obtain ⟨i, hi, rfl⟩ := getElem_of_mem hhdr
    have hi' : i < entries.length := by simpa using hi
    have hget : (subHdrs checksum offset entries)[i]? = some _ := getElem?_subHdrs hi'
    rw [List.getElem?_eq_getElem hi] at hget
    rw [Option.some.inj hget]
    obtain ⟨hsum, hsize, hoffset, hid⟩ := hfit i hi'
    exact ⟨rfl, (by decide : 24 < 2 ^ 32), hsum, hsize, hoffset, hid⟩

theorem packagedFile_parses (hne : entries ≠ []) (hmax : entries.length ≤ OTA_IMGID_MAX)
    (hfit : EntriesFit (fun img => byteSum img.content) (headerLen entries.length) entries)
    (hlong : ∀ e ∈ entries, MANIFEST_SIZE ≤ e.1.content.length)
    (hids : ∀ e ∈ entries, imageList.lookup e.1.imageType = some e.2) :
    ParsesAs (packagedFile entries) (entries.map Prod.fst) := by
  intro buf chunks hchunks hfile
  obtain ⟨hdrs, hhdrs⟩ : ∃ hdrs, hdrs = subHdrs (fun img => byteSum img.content)
      (headerLen entries.length) entries := ⟨_, rfl⟩
  have hfits : ∀ hdr ∈ hdrs, hdr.Fits := hhdrs ▸ hfit
  have hcount : hdrs.length = entries.length := by rw [hhdrs, length_subHdrs]
  have hpackaged : packagedFile entries = toLE 4 0xFFFFFFFF ++ toLE 4 entries.length ++
      (hdrs.flatMap SubHdr.encode ++ (entries.map Prod.fst).flatMap InputFile.content) := by
    rw [packagedFile, hhdrs]
  have hfront : (toLE 4 0xFFFFFFFF ++ toLE 4 entries.length).length = OTA_HEADER_LEN := by
    simp [OTA_HEADER_LEN]
  have hheads : (toLE 4 0xFFFFFFFF ++ toLE 4 entries.length ++
      hdrs.flatMap SubHdr.encode).length = headerLen entries.length := by
    rw [length_append, hfront, length_encodes hfits, hcount, headerLen, mul_comm, add_comm]
  rw [hpackaged] at hfile ⊢
  have hlen : headerLen entries.length ≤ (buf ++ chunks.flatten).length := by
    rw [hfile, ← append_assoc, length_append, hheads]
    exact le_self_add
  have hnum : wordAt (buf ++ chunks.flatten) 4 = entries.length := by
    rw [hfile]
    exact wordAt_of_drop (lt_of_le_of_lt hmax (by decide)) (drop_left' length_toLE)
  obtain ⟨buf', chunks', hrecv, hbuf, hflat, _⟩ :=
    otaCoreRecvHeader_chunks hchunks hnum hmax hlen
  have hget : otaCoreGetTargetHeader buf' entries.length = some hdrs := by
    rw [← hcount]
    refine otaCoreGetTargetHeader_encode hfront ?_ hfits (hhdrs ▸ subHdrs_signed)
      (hflat.trans hfile) ?_
    · rintro rfl
      exact hne (length_eq_zero_iff.mp hcount.symm)
    · rw [hcount, hbuf]
      exact le_max_right _ _
  refine ⟨buf', _, _, _, hrecv, hget, by simpa using hcount, fun i hi => ?_⟩
  rw [length_map] at hi
  have hentry := entriesFit_iff.mp hfit i hi
  have hmem := getElem_mem hi
  have hstart : headerLen entries.length + ((entries.take i).map (·.1.content.length)).sum =
      imageStart (entries.map Prod.fst) i := by
    simp [imageStart, Function.comp_def]
  rw [getD_eq_getElem?_getD, hhdrs, getElem?_subHdrs hi, Option.getD_some, getElem_map, ← hhdrs]
  refine ⟨rfl, hstart, ?_, hids _ hmem, fun board slotIdx flash hflash => ?_⟩
  · have hdrop := drop_flatMap_sum (fun e : InputFile × Nat => e.1.content) hi
    rw [← append_assoc, ← hheads, ← drop_drop, drop_left, flatMap_map, hdrop, take_left]
  · rw [verifyChecksum_eq board rfl (hlong _ hmem) hentry.2.1 hflash, decide_eq_true_eq]
    exact Nat.mod_eq_of_lt hentry.1

end Parsing

/-! ### Images without a sub-header -/

section

theorem updateHeader_length (h : updateHeader st img imageId = some st') :
    st'.header.length = st.header.length + if imageId = 0xFF then 0 else 24 := by
  by_cases hid : imageId = 0xFF
  · rw [updateHeader, if_neg (not_not_intro hid)] at h
    rw [← Option.some.inj h, if_pos hid, add_zero]
  · obtain ⟨_, rfl⟩ := (updateHeader_eq_some hid).mp h
    simp [SubHdr.encode, OTA_SIGN, hid]

theorem updateHeaders_length : ∀ {entries : List (InputFile × Nat)} {st st' : PackState},
    updateHeaders st entries = some st' → st'.header.length + 24 * entries.countP (·.2 = 0xFF) =
        st.header.length + 24 * entries.length := by
  intro entries
  induction entries with
  | nil =>
    intro st st' h
    cases h
    rfl
  | cons entry rest ih =>
    intro st st' h
    rw [updateHeaders] at h
    cases hone : updateHeader st entry.1 entry.2 with
    | none =>
      rw [hone] at h
      cases h
    | some next =>
      rw [hone] at h
      have hlen := updateHeader_length hone
      have hrest := ih h
      by_cases hid : entry.2 = 0xFF <;> simp [hid] at hlen ⊢ <;> omega

theorem patchChecksums_length : ∀ {images : List InputFile} {file file' : List UInt8}
    {offset : Nat}, patchChecksums file offset images = some file' →
      file'.length ≤ max file.length (offset + 24 * images.length) := by
  intro images
  induction images with
  | nil =>
    intro file file' offset h
    cases h
    exact le_max_left _ _
  | cons img rest ih =>
    intro file file' offset h
    rw [patchChecksums] at h
    cases hpack : packWords [byteSum img.content] with
    | none =>
      rw [hpack] at h
      cases h
    | some checksum =>
      rw [hpack] at h
      obtain ⟨_, rfl⟩ := packWords_eq_some.mp hpack
      have hrest := ih h
      rw [length_writeAt] at hrest
      simp only [flatMap_cons, flatMap_nil, append_nil, length_toLE, length_cons] at hrest ⊢
      omega

theorem ParsesAs.length_le (h : ParsesAs file images) :
    (∀ img ∈ images, MANIFEST_SIZE ≤ img.content.length) ∧
      (images ≠ [] → headerLen images.length + (images.map (·.content.length)).sum ≤
        file.length) := by
  obtain ⟨_, _, _, hdrs, _, _, _, hdescribes⟩ := h file [] (fun _ hc => absurd hc not_mem_nil)
    (by simp)
  have hlong : ∀ img ∈ images, MANIFEST_SIZE ≤ img.content.length := by
    intro img himg
    obtain ⟨i, hi, rfl⟩ := getElem_of_mem himg
    exact manifest_le_of_verified (hdescribes i hi).imgLen (hdescribes i hi).verified
  refine ⟨hlong, fun hne => ?_⟩
  have hpos := length_pos_iff.mpr hne
  have hlast : images.length - 1 < images.length := by omega
  have hd := hdescribes _ hlast
  have hbytes := congrArg List.length hd.bytes
  rw [length_take, length_drop, hd.offset] at hbytes
  have hmanifest : 24 ≤ (images[images.length - 1]).content.length :=
    hlong _ (getElem_mem hlast)
  have hsum : (images.map (·.content.length)).sum =
      ((images.take (images.length - 1)).map (·.content.length)).sum +
        (images[images.length - 1]).content.length := by
    have hsplit : images = images.take (images.length - 1) ++ [images[images.length - 1]] := by
      rw [take_append_getElem hlast, Nat.sub_add_cancel hpos, take_length]
    calc (images.map (·.content.length)).sum
        = ((images.take (images.length - 1) ++ [images[images.length - 1]]).map
            (·.content.length)).sum := by rw [← hsplit]
      _ = _ := by rw [map_append, sum_append, map_singleton, sum_singleton]
  unfold imageStart at hbytes
  omega

end

/-! ### The packager against the device -/

section

theorem otaPrependHeader_eq_ok (hfiles : ∀ img ∈ inputs, files img.path = some img.content)
    (haccepted : Accepted inputs) :
    otaPrependHeader files (inputs.map InputFile.path) = .ok file ↔
      process inputs.length (fun t => inputs.filter (·.imageType = t)) = some file := by
  rw [otaPrependHeader, preProcess_accepted hfiles haccepted, length_map]
  simp only [nil_append]
  cases process inputs.length (fun t => inputs.filter (·.imageType = t)) with
  | none => exact ⟨fun h => (nomatch h), fun h => (nomatch h)⟩
  | some file' =>
    exact ⟨fun h => congrArg some (Except.ok.inj h), fun h =>
      congrArg Except.ok (Option.some.inj h)⟩

theorem process_eq_some (hnum : inputs.length < 2 ^ 32) :
    process inputs.length (fun t => inputs.filter (·.imageType = t)) = some file ↔
      ∃ st, updateHeaders ⟨toLE 4 0xFFFFFFFF ++ toLE 4 inputs.length, 32 + 24 * (inputs.length - 1)⟩
          (imageEntries inputs) = some st ∧
        patchChecksums (st.header ++ (fullImages inputs).flatMap InputFile.content) 16
          (fullImages inputs) = some file := by
  have hpack : packWords [0xFFFFFFFF, inputs.length] =
      some (toLE 4 0xFFFFFFFF ++ toLE 4 inputs.length) :=
    packWords_eq_some.mpr ⟨by simpa using hnum, by simp⟩
  rw [process, hpack]
  change (match updateHeaders _ (imageEntries inputs) with | none => none | some st => _) = _ ↔ _
  cases updateHeaders ⟨toLE 4 0xFFFFFFFF ++ toLE 4 inputs.length, 32 + 24 * (inputs.length - 1)⟩
      (imageEntries inputs) with
  | none => exact ⟨fun h => (nomatch h), fun ⟨_, h, _⟩ => (nomatch h)⟩
  | some st =>
    exact ⟨fun h => ⟨st, rfl, h⟩, fun ⟨_, hst, h⟩ => by cases hst; exact h⟩

theorem length_imageEntries (haccepted : Accepted inputs) :
    (imageEntries inputs).length = inputs.length := by
  rw [← length_map Prod.fst, map_fst_imageEntries]
  exact (fullImages_perm haccepted).length_eq

theorem imageEntries_id_iff (h : (img, imageId) ∈ imageEntries inputs) :
    imageId = 0xFF ↔ img.imageType = .image2 := by
  have hlookup := lookup_imageEntries h
  cases htype : img.imageType <;> rw [htype] at hlookup <;> cases hlookup <;> decide

theorem imageEntries_id_lt (h : e ∈ imageEntries inputs) : e.2 < 2 ^ 32 := by
  obtain ⟨img, imageId⟩ := e
  have hlookup := lookup_imageEntries h
  cases htype : img.imageType <;> rw [htype] at hlookup <;> cases hlookup <;> simp

variable (haccepted : Accepted inputs)
include haccepted

theorem not_parses_of_image2 (hmax : inputs.length ≤ OTA_IMGID_MAX)
    (hfile : process inputs.length (fun t => inputs.filter (·.imageType = t)) = some file)
    (himg : img ∈ inputs) (htype : img.imageType = .image2) :
    ¬ ParsesAs file (fullImages inputs) := by
  intro hparses
  obtain ⟨st, hheaders, hpatch⟩ :=
    (process_eq_some (lt_of_le_of_lt hmax (by decide))).mp hfile
  obtain ⟨hlong, hlower⟩ := hparses.length_le
  have hin : img ∈ fullImages inputs := (mem_fullImages haccepted).mpr himg
  have hlower := hlower (ne_nil_of_mem hin)
  have hupper := patchChecksums_length hpatch
  have hheader := updateHeaders_length hheaders
  have hskipped : 0 < (imageEntries inputs).countP (·.2 = 0xFF) := by
    rw [← map_fst_imageEntries, mem_map] at hin
    obtain ⟨⟨_, imageId⟩, hentry, rfl⟩ := hin
    rw [countP_pos_iff]
    exact ⟨_, hentry, decide_eq_true ((imageEntries_id_iff hentry).mpr htype)⟩
  have hbody : MANIFEST_SIZE ≤ ((fullImages inputs).map (·.content.length)).sum :=
    (hlong img hin).trans (single_le_sum (by simp) _ (mem_map_of_mem hin))
  rw [(fullImages_perm haccepted).length_eq] at hlower hupper
  rw [length_imageEntries haccepted] at hheader
  simp only [length_append, length_toLE, length_flatMap, headerLen, OTA_SUB_HEADER_LEN,
    MANIFEST_SIZE] at hlower hupper hheader hbody
  omega

theorem process_packaged (hne : inputs ≠ [])
    (hmax : inputs.length ≤ OTA_IMGID_MAX) (hno : ∀ img ∈ inputs, img.imageType ≠ .image2) :
    process inputs.length (fun t => inputs.filter (·.imageType = t)) = some file ↔
      EntriesFit (fun img => byteSum img.content) (headerLen inputs.length) (imageEntries inputs) ∧
        file = packagedFile (imageEntries inputs) := by
  have hids : ∀ e ∈ imageEntries inputs, e.2 ≠ 0xFF := by
    intro e he hid
    refine hno e.1 ((mem_fullImages haccepted).mp ?_) ((imageEntries_id_iff he).mp hid)
    rw [← map_fst_imageEntries]
    exact mem_map_of_mem he
  have hstart : 32 + 24 * (inputs.length - 1) = headerLen inputs.length := by
    have := length_pos_iff.mpr hne
    simp only [headerLen, OTA_SUB_HEADER_LEN, OTA_HEADER_LEN]
    omega
  have hcount := length_imageEntries haccepted
  rw [process_eq_some (lt_of_le_of_lt hmax (by decide)), hstart]
  constructor
  · rintro ⟨⟨header, offset⟩, hheaders, hpatch⟩
    obtain ⟨hfit, rfl⟩ := (updateHeaders_eq_some hids).mp ⟨offset, hheaders⟩
    rw [← map_fst_imageEntries, append_assoc] at hpatch
    obtain ⟨hsums, rfl⟩ := (patchChecksums_eq_some _ _).mp hpatch
    refine ⟨entriesFit_iff.mpr fun i hi => ?_, by rw [packagedFile, hcount]⟩
    exact ⟨hsums _ (getElem_mem hi), (entriesFit_iff.mp hfit i hi).2⟩
  · rintro ⟨hfit, rfl⟩
    have hzero : EntriesFit (fun _ => 0) (headerLen inputs.length) (imageEntries inputs) :=
      entriesFit_iff.mpr fun i hi => ⟨by decide, (entriesFit_iff.mp hfit i hi).2⟩
    obtain ⟨offset, hheaders⟩ := (updateHeaders_eq_some hids).mpr ⟨hzero, rfl⟩
    refine ⟨_, hheaders, ?_⟩
    rw [← map_fst_imageEntries, append_assoc]
    refine (patchChecksums_eq_some _ _).mpr ⟨fun e he => ?_, by rw [packagedFile, hcount]⟩
    obtain ⟨i, hi, rfl⟩ := getElem_of_mem he
    exact (entriesFit_iff.mp hfit i hi).1

theorem entriesFit_packable :
    EntriesFit (fun img => byteSum img.content) (headerLen inputs.length) (imageEntries inputs) ↔
      Packable (fullImages inputs) := by
  have hstart : ∀ i, headerLen inputs.length +
      (((imageEntries inputs).take i).map (·.1.content.length)).sum =
        imageStart (fullImages inputs) i := by
    intro i
    rw [imageStart, (fullImages_perm haccepted).length_eq, ← map_fst_imageEntries, ← map_take,
      map_map]
    rfl
  rw [entriesFit_iff]
  constructor
  · intro hfit
    constructor
    case offsets =>
      intro i hi
      rw [← map_fst_imageEntries, length_map] at hi
      rw [← hstart]
      exact (hfit i hi).2.2.1
    all_goals
      intro img himg
      rw [← map_fst_imageEntries] at himg
      obtain ⟨e, he, rfl⟩ := mem_map.mp himg
      obtain ⟨i, hi, rfl⟩ := getElem_of_mem he
    case sizes => exact (hfit i hi).2.1
    case sums => exact (hfit i hi).1
  · intro hpack i hi
    have himg : (imageEntries inputs)[i].1 ∈ fullImages inputs := by
      rw [← map_fst_imageEntries]
      exact mem_map_of_mem (getElem_mem hi)
    have hi' : i < (fullImages inputs).length := by
      rw [← map_fst_imageEntries, length_map]
      exact hi
    refine ⟨hpack.sums _ himg, hpack.sizes _ himg, hstart i ▸ hpack.offsets i hi', ?_⟩
    exact imageEntries_id_lt (getElem_mem hi)

end

/-- **A packaged file says what it holds, unless it holds an `IMAGE2` image**: the device parses the
    right sub-headers exactly when there is none, no image is shorter than a manifest, and the
    packed values fit their words. -/
theorem otaPrependHeader_parses_iff (files : String → Option (List UInt8))
    (inputs : List InputFile) (hfiles : ∀ img ∈ inputs, files img.path = some img.content)
    (haccepted : Accepted inputs) (hne : inputs ≠ []) (hmax : inputs.length ≤ OTA_IMGID_MAX) :
    (∃ file, otaPrependHeader files (inputs.map InputFile.path) = .ok file ∧
        ParsesAs file (fullImages inputs)) ↔
      (∀ img ∈ inputs, img.imageType ≠ .image2) ∧
        (∀ img ∈ inputs, MANIFEST_SIZE ≤ img.content.length) ∧ Packable (fullImages inputs) := by
  simp only [otaPrependHeader_eq_ok hfiles haccepted]
  have hcount := length_imageEntries haccepted
  constructor
  · rintro ⟨file, hfile, hparses⟩
    have hno : ∀ img ∈ inputs, img.imageType ≠ .image2 := fun img himg htype =>
      not_parses_of_image2 haccepted hmax hfile himg htype hparses
    obtain ⟨hfit, rfl⟩ := (process_packaged haccepted hne hmax hno).mp hfile
    refine ⟨hno, fun img himg => ?_, (entriesFit_packable haccepted).mp hfit⟩
    exact hparses.length_le.1 img ((mem_fullImages haccepted).mpr himg)
  · rintro ⟨hno, hlong, hpackable⟩
    have hfit := (entriesFit_packable haccepted).mpr hpackable
    refine ⟨_, (process_packaged haccepted hne hmax hno).mpr ⟨hfit, rfl⟩, ?_⟩
    rw [← map_fst_imageEntries]
    rw [← hcount] at hfit hmax
    refine packagedFile_parses ?_ hmax hfit (fun e he => ?_) fun e he => lookup_imageEntries he
    · intro hnil
      rw [hnil] at hcount
      exact hne (length_eq_zero_iff.mp hcount.symm)
    · apply hlong
      rw [← mem_fullImages haccepted, ← map_fst_imageEntries]
      exact mem_map_of_mem he


/-- An application image of 32 zeros. -/
def appInput : InputFile := ⟨"build/amebadplus_app.bin", List.replicate 32 0⟩

def bootInput : InputFile := ⟨"build/amebadplus_boot.bin", List.replicate 40 1⟩

/-- The application is given first, and the bootloader is merged first. -/
theorem appInput_packaged :
    let inputs := [appInput, bootInput]
    ∃ file, otaPrependHeader (fun path => (inputs.find? (·.path = path)).map (·.content))
        (inputs.map (·.path)) = .ok file ∧ ParsesAs file (fullImages inputs) := by
  intro inputs
  refine (otaPrependHeader_parses_iff _ inputs ?_ ?_ ?_ ?_).mpr ⟨?_, ?_, ?_, ?_, ?_⟩
  case refine_2 =>
    unfold Accepted
    decide +kernel
  all_goals decide +kernel

/-- The second core's image, given to the packager with the application. -/
def image2Input : InputFile := ⟨"build/km4_image2_all.bin", List.replicate 32 0⟩

/-- The output counts two images but has a sub-header for the application only. -/
theorem image2_package_misparsed : (∃ file, otaPrependHeader (fun _ => some (List.replicate 32 0))
      [image2Input.path, appInput.path] = .ok file) ∧
    ¬ ∃ file, otaPrependHeader (fun _ => some (List.replicate 32 0))
        [image2Input.path, appInput.path] = .ok file ∧
      ParsesAs file (fullImages [image2Input, appInput]) := by
  have haccepted : Accepted [image2Input, appInput] := by
    unfold Accepted
    decide +kernel
  have hfiles : ∀ img ∈ [image2Input, appInput],
      (fun _ => some (List.replicate 32 0) : String → Option (List UInt8)) img.path =
        some img.content := by
    decide +kernel
  constructor
  · cases hfile : otaPrependHeader (fun _ => some (List.replicate 32 0))
        [image2Input.path, appInput.path] with
    | error e =>
      have hok : (otaPrependHeader (fun _ => some (List.replicate 32 0))
          [image2Input.path, appInput.path]).toBool = true := by decide +kernel
      rw [hfile] at hok
      cases hok
    | ok file => exact ⟨file, rfl⟩
  · rintro ⟨file, hfile, hparses⟩
    exact not_parses_of_image2 haccepted (by decide)
      ((otaPrependHeader_eq_ok hfiles haccepted).mp hfile) (.head _) (by decide +kernel)
      hparses

end AmebaRtos.Ota
