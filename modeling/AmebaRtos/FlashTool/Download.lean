import AmebaRtos.Lib.RangeFlash

/-!
# The download of an image to NOR flash

`verify_images` and `post_verify_images` check the address range of an image, and
`_download_image` erases it block by block and writes it page by page. The blocks have 64, 32 or 4
KB, and the last one may reach behind the image. The device executes the requests that it
acknowledges; when the `answers` are used up it acknowledges everything.
-/

namespace AmebaRtos.FlashTool

open Lib

def NOR_DEFAULT_PAGE_SIZE : Nat := 1024
def FLASH_WRITE_PADDING_DATA : UInt8 := 0xFF
def DEFAULT_RAM_START_ADDR : Int := 0x20000000

inductive MemoryType where
  | ram
  | nor
  | nand
deriving DecidableEq

/-- The result of a function of the tool; `failed` stands for the error of a request and
    `raised` for an exception. -/
inductive ErrType where
  | ok
  | sysParameter
  | sysOverrange
  | sysChecksum
  | failed
  | raised
deriving DecidableEq

structure ImageInfo where
  mandatory : Bool
  file : Option (List UInt8)
  startAddress : Int
  endAddress : Int
  memoryType : MemoryType
  fullErase : Bool

/-- What the tool knows of the device and of its own settings. -/
structure Device where
  memoryType : MemoryType
  flashStartAddress : Int
  flashCapacity : Int
  flashPageSize : Nat
  flashPagesPerBlock : Nat
  ramDownloadPaddingByte : UInt8
  chipErase : Bool

def isRamAddress (address : Int) : Bool := DEFAULT_RAM_START_ADDR ≤ address

/-- The body of the loop of `verify_images`. -/
def verifyImage (memoryType : MemoryType) (image : ImageInfo) : ErrType :=
  match image.file with
  | none => .sysParameter
  | some file =>
    if image.startAddress < 0 then .sysParameter
    else if image.endAddress < 0 then .sysParameter
    else if image.endAddress ≤ image.startAddress then .sysParameter
    else if image.endAddress - image.startAddress < file.length then .sysParameter
    else if (memoryType = .ram ∧
          (isRamAddress image.startAddress = false ∨ isRamAddress image.endAddress = false)) ∨
        (memoryType = .nor ∧ (isRamAddress image.startAddress ∨ isRamAddress image.endAddress)) then
      .sysParameter
    else .ok

/-- `verify_images`; `selected` is `image_selected`. -/
def verifyImages (memoryType : MemoryType) : Bool → List ImageInfo → ErrType
  | selected, [] => if selected then .ok else .sysParameter
  | selected, image :: rest =>
    if image.mandatory = false then verifyImages memoryType selected rest
    else if verifyImage memoryType image = .ok then verifyImages memoryType true rest
    else verifyImage memoryType image

def postVerifyImages (dev : Device) : List ImageInfo → ErrType
  | [] => .ok
  | image :: rest =>
    let maxAddr := dev.flashStartAddress + dev.flashCapacity
    let blockSize : Int := dev.flashPageSize * dev.flashPagesPerBlock
    if isRamAddress image.startAddress then postVerifyImages dev rest
    else if maxAddr < image.startAddress ∨ maxAddr < image.endAddress then .sysOverrange
    else if dev.memoryType = .nand ∧
        (image.startAddress % blockSize ≠ 0 ∨ image.endAddress % blockSize ≠ 0) then .sysParameter
    else postVerifyImages dev rest

/-- What `_download_image` works with. -/
structure Job where
  pageSize : Nat
  isRam : Bool
  padding : UInt8
  chipErase : Bool
  fullErase : Bool
  file : List UInt8
  startAddress : Nat
  endAddress : Nat

def Job.ofImage (dev : Device) (image : ImageInfo) (file : List UInt8) : Job where
  pageSize := dev.flashPageSize
  isRam := decide (image.memoryType = .ram)
  padding :=
    if image.memoryType = .ram then dev.ramDownloadPaddingByte else FLASH_WRITE_PADDING_DATA
  chipErase := dev.chipErase
  fullErase := image.fullErase
  file := file
  startAddress := image.startAddress.toNat
  endAddress := image.endAddress.toNat

def getPageAllignedSize (size pageSize : Nat) : Nat :=
  if size % pageSize ≠ 0 then (size / pageSize + 1) * pageSize else size

structure Download where
  rest : List UInt8
  chunkData : List UInt8
  readLen : Nat
  addr : Nat
  txSum : Nat
  writePages : Nat
  pagesPerBlock : Nat
  lastEraseAddr : Nat
  nextEraseAddr : Nat
  checksum : Nat
  flash : Memory
  requests : List RangeOp
  answers : List ErrType

/-- One request; `to_bytes` wants an address of four bytes. -/
def Download.send (d : Download) (op : RangeOp) : ErrType × Download :=
  if 2 ^ 32 ≤ op.addr then (.raised, d)
  else
    match d.answers with
    | [] => (.ok, { d with flash := op.apply d.flash, requests := d.requests ++ [op] })
    | .ok :: answers =>
      (.ok, { d with
        flash := op.apply d.flash, requests := d.requests ++ [op], answers := answers })
    | ret :: answers => (ret, { d with answers := answers })

/-- The sum of the words of `struct.unpack`. -/
def sumWords : List UInt8 → Nat
  | a :: b :: c :: d :: rest => fromLE [a, b, c, d] + sumWords rest
  | _ => 0

section Loop

variable (job : Job)

def Job.alignedImgLength : Nat := getPageAllignedSize job.file.length job.pageSize

def Download.readChunk (d : Download) : Download :=
  let chunk := d.rest.take job.pageSize
  { d with
    rest := d.rest.drop job.pageSize
    chunkData := chunk ++ List.replicate (job.pageSize - chunk.length) job.padding
    readLen := chunk.length }

def Job.blockSize (addr txSum : Nat) : Nat :=
  if addr % (64 * NOR_DEFAULT_PAGE_SIZE) = 0 ∧
      64 * NOR_DEFAULT_PAGE_SIZE ≤ job.alignedImgLength - txSum then 64 * NOR_DEFAULT_PAGE_SIZE
  else if addr % (32 * NOR_DEFAULT_PAGE_SIZE) = 0 ∧
      32 * NOR_DEFAULT_PAGE_SIZE ≤ job.alignedImgLength - txSum then 32 * NOR_DEFAULT_PAGE_SIZE
  else 4 * NOR_DEFAULT_PAGE_SIZE

def Download.startBlock (d : Download) : ErrType × Download :=
  if d.writePages ≠ 0 then (.ok, d)
  else
    let blockSize := job.blockSize d.addr d.txSum
    let d := { d with pagesPerBlock := blockSize / job.pageSize }
    if d.addr = d.lastEraseAddr then (.ok, d)
    else if job.isRam = false ∧ d.addr % blockSize ≠ 0 then (.sysParameter, d)
    else
      let r := d.send (.erase d.addr (if job.chipErase then 0 else blockSize))
      if r.1 ≠ .ok then r
      else (.ok, { r.2 with lastEraseAddr := d.addr, nextEraseAddr := d.addr + blockSize })

def Download.advance (d : Download) : Download :=
  { d with
    writePages := if d.pagesPerBlock ≤ d.writePages + 1 then 0 else d.writePages + 1
    checksum := (d.checksum + sumWords d.chunkData) % 2 ^ 32
    addr := d.addr + job.pageSize
    txSum := d.txSum + job.pageSize }

def Download.eraseRest (d : Download) : ErrType × Download :=
  if job.fullErase ∧ d.nextEraseAddr < job.endAddress then
    d.send (.erase d.nextEraseAddr (if job.chipErase then 0 else job.endAddress - d.nextEraseAddr))
  else (.ok, d)

def downloadLoop : Nat → Download → ErrType × Download
  | 0, d => (.ok, d)
  | fuel + 1, d =>
    if d.readLen = 0 then (.ok, d)
    else
      let r := d.startBlock job
      if r.1 ≠ .ok then r
      else
        let r := r.2.send (.write r.2.addr r.2.chunkData)
        if r.1 ≠ .ok then r
        -- `struct.unpack` wants whole words
        else if r.2.chunkData.length % 4 ≠ 0 then (.raised, r.2)
        else
          let d := r.2.advance job
          if job.alignedImgLength ≤ d.txSum then d.eraseRest job
          else downloadLoop fuel (d.readChunk job)

def Download.start (flash : Memory) (answers : List ErrType) : Download :=
  ⟨job.file, [], 0, job.startAddress, 0, 0, 0, 0, 0, 0, flash, [], answers⟩

def Download.deviceChecksum (d : Download) : Nat :=
  sumWords (d.flash.window job.startAddress job.alignedImgLength) % 2 ^ 32

/-- `_download_image` for NOR flash. The loop ends with the file. -/
def downloadImage (flash : Memory) (answers : List ErrType) : ErrType × Download :=
  let r := downloadLoop job (job.file.length + 1) ((Download.start job flash answers).readChunk job)
  if r.1 ≠ .ok then r
  else if 2 ^ 32 ≤ job.startAddress ∨ 2 ^ 32 ≤ job.endAddress ∨ 2 ^ 32 ≤ job.alignedImgLength then
    (.raised, r.2)
  else
    match r.2.answers.head? with
    | none | some .ok =>
      if r.2.deviceChecksum job ≠ r.2.checksum then (.sysChecksum, r.2) else (.ok, r.2)
    | some ret => (ret, r.2)

end Loop

/-! ### The checks -/

theorem verifyImages_mandatory (hverify : verifyImages memoryType selected images = .ok)
    (himage : image ∈ images) (hmandatory : image.mandatory = true) :
    verifyImage memoryType image = .ok := by
  induction images generalizing selected with
  | nil => exact absurd himage List.not_mem_nil
  | cons first rest ih =>
    rw [verifyImages] at hverify
    by_cases hskip : first.mandatory = false
    · rw [if_pos hskip] at hverify
      rcases List.mem_cons.mp himage with rfl | hrest
      · exact absurd (hmandatory.symm.trans hskip) Bool.noConfusion
      · exact ih hverify hrest
    rw [if_neg hskip] at hverify
    by_cases hfirst : verifyImage memoryType first = .ok
    · rw [if_pos hfirst] at hverify
      rcases List.mem_cons.mp himage with rfl | hrest
      · exact hfirst
      · exact ih hverify hrest
    · rw [if_neg hfirst] at hverify
      exact absurd hverify hfirst

theorem verifyImage_nor (hfile : image.file = some file) (hverify : verifyImage .nor image = .ok) :
    image.startAddress.toNat + file.length ≤ image.endAddress.toNat ∧
      image.endAddress.toNat < 0x20000000 := by
  simp only [verifyImage, hfile] at hverify
  split at hverify
  · exact ErrType.noConfusion hverify
  split at hverify
  · exact ErrType.noConfusion hverify
  split at hverify
  · exact ErrType.noConfusion hverify
  split at hverify
  · exact ErrType.noConfusion hverify
  split at hverify
  · exact ErrType.noConfusion hverify
  rename_i hram
  have hend : ¬ DEFAULT_RAM_START_ADDR ≤ image.endAddress := fun h =>
    hram (.inr ⟨trivial, .inr (decide_eq_true h)⟩)
  rw [DEFAULT_RAM_START_ADDR] at hend
  omega

end AmebaRtos.FlashTool
