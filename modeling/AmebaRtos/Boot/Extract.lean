import AmebaRtos.Boot.Security

/-!
# Extraction of a compressed OTA image

`BOOT_Extract_SlotSelect` and `BOOT_OTA_Extract` of `boot_ota_km4.c`, built with
`CONFIG_COMPRESS_OTA_IMG`. A slot with the compress flag holds a manifest and an LZMA stream; the
bootloader checks it and decompresses it over the other slot. What is observed is the call of the
decompressor, which is a parameter.
-/

namespace AmebaRtos.Boot

open Lib

/-- `ImagePattern`: `81958711` in ASCII. -/
def ImagePattern : List UInt8 := toLE 4 0x35393138 ++ toLE 4 0x31313738

/-- `CompressFlag`: `COMPRESS` in ASCII. -/
def CompressFlag : List UInt8 := toLE 4 0x504D4F43 ++ toLE 4 0x53534552

def NONEVALIDIMG : Nat := 0
def ONEVALIDIMG : Nat := 1
def TWOVALIDIMG : Nat := 2

/-- The bootloader's static data. `certMem` is the memory from `Cert[0]` on; `imgCert` and `imgImg2`
    are the two rows of `OTA_Region`. -/
structure BootGlobals where
  certMem : Memory
  manifest : Slot → Manifest
  signature : Slot → List UInt8
  ver : Slot → Int
  validImgNum : Nat
  imgCert : Slot → Nat
  imgImg2 : Slot → Nat
  secureBootEn : Bool

variable (vnCert : Int) (ver : Slot → Int) (otp : Otp)

/-- `BOOT_OTA_GetCertRollbackVer`: one major version per cleared fuse bit. -/
def bootOtaGetCertRollbackVer : Int :=
  if otp.antiRollback then
    (((List.range 16).countP fun i => !otp.imgVer0.toNat.testBit i) <<< 16 : Nat)
  else 0

/-- The value given to `ValidIMGNum` by either slot selection. -/
def validImgCount : Nat :=
  if vnCert > ver .A ∧ vnCert > ver .B then NONEVALIDIMG
  else if vnCert ≤ ver .A ∧ vnCert ≤ ver .B then TWOVALIDIMG
  else ONEVALIDIMG

theorem rollbackVer_nonneg : 0 ≤ bootOtaGetCertRollbackVer otp := by
  unfold bootOtaGetCertRollbackVer
  split <;> omega

theorem validImgCount_eq_none : validImgCount vnCert ver = NONEVALIDIMG ↔ ∀ i, ver i < vnCert := by
  have hboth : (∀ i, ver i < vnCert) ↔ ver .A < vnCert ∧ ver .B < vnCert :=
    ⟨fun h => ⟨h .A, h .B⟩, fun h i => by cases i <;> simp [h]⟩
  unfold validImgCount NONEVALIDIMG TWOVALIDIMG ONEVALIDIMG
  split
  · simp_all
  · split <;> simp_all

theorem validImgCount_eq_two (hall : ∀ i, vnCert ≤ ver i) :
    validImgCount vnCert ver = TWOVALIDIMG := by
  have hA := hall .A
  have hB := hall .B
  unfold validImgCount
  rw [if_neg (by omega), if_pos ⟨hA, hB⟩]

theorem validImgCount_eq_one (i : Slot) (hgood : vnCert ≤ ver i) (hbad : ver i.other < vnCert) :
    validImgCount vnCert ver = ONEVALIDIMG := by
  unfold validImgCount
  cases i with
  | A =>
    simp only [Slot.other] at hbad
    rw [if_neg (by omega), if_neg (by omega)]
  | B =>
    simp only [Slot.other] at hbad
    rw [if_neg (by omega), if_neg (by omega)]

/-! ### Selecting the compressed slot -/

/-- Step 1 of `BOOT_Extract_SlotSelect`: load the manifests up to the first one with the compress
    flag. A later slot keeps its old `Ver`. -/
def scanCompressFlag (mem : Memory) : List Slot → BootGlobals → BootGlobals × Option Slot
  | [], g => (g, none)
  | i :: rest, g =>
    let m := Manifest.load mem (g.imgCert i)
    let g := { g with manifest := Slot.set g.manifest i m }
    if m.pattern = CompressFlag then
      ({ g with ver := Slot.set g.ver i m.version }, some i)
    else
      scanCompressFlag mem rest { g with ver := Slot.set g.ver i (-1) }

variable (mem : Memory) (g : BootGlobals) (extractIdx : Slot)

/-- The rest of `BOOT_Extract_SlotSelect`: take the other slot's version if it has the image
    pattern, and count the slots that pass the rollback test. -/
def rateExtractSlots : BootGlobals :=
  let i := extractIdx.other
  let m := Manifest.load mem (g.imgCert i)
  let ver := if m.pattern = ImagePattern then Slot.set g.ver i m.version else g.ver
  { g with
    manifest := Slot.set g.manifest i m
    ver := ver
    validImgNum := validImgCount (bootOtaGetCertRollbackVer otp) ver }

def bootExtractSlotSelect : BootGlobals × Slot :=
  match scanCompressFlag mem [.A, .B] g with
  | (g, none) => ({ g with validImgNum := NONEVALIDIMG }, .A)
  | (g, some extractIdx) => (rateExtractSlots otp mem g extractIdx, extractIdx)

/-- A call `bootLzma_main_function(src, start, end)`. -/
structure LzmaCall where
  src : Nat
  start : Nat
  stop : Nat
deriving DecidableEq, Repr

/-- `FLASH_TxData` of eight zero bytes: programming can only clear bits, and these
    clear them all. -/
def clearFlag (addr : Nat) : Memory :=
  fun a => if addr ≤ a ∧ a < addr + 8 then 0 else mem a

structure ExtractResult where
  globals : BootGlobals
  mem : Memory
  lzma : Option LzmaCall

def compressedImg (m : Manifest) (extractAddr : Nat) : SubImgInfo where
  addr := extractAddr + bootOtaGetManifestSize m
  len := m.imgSize

/-- The environment of one extraction: ROM, fuses, start index, the stack under the hash buffer, the
    ends of the slots and the decompressor. -/
structure ExtractEnv where
  rom : Rom
  otp : Otp
  rand : Nat
  stack : Nat → UInt8
  slotEnd : Slot → Nat
  bootLzma : LzmaCall → Memory → Memory

/-- `BOOT_OTA_Extract` behind the slot selection. The flag is cleared even when
    the check fails. -/
def extractFrom (env : ExtractEnv) (mem : Memory) (g : BootGlobals) (extractIdx : Slot) :
    ExtractResult :=
  let overrideIdx := extractIdx.other
  let extractAddr := g.imgCert extractIdx
  let m := g.manifest extractIdx
  if g.validImgNum = NONEVALIDIMG then ⟨g, mem, none⟩
  else if g.ver extractIdx ≥ g.ver overrideIdx then
    let img := compressedImg m extractAddr
    let (ret, secureBootEn) :=
      bootExtractSignatureCheck env.rom env.otp env.rand env.stack mem g.secureBootEn m [img]
    let g := { g with secureBootEn := secureBootEn }
    if ret = 0 then
      let call : LzmaCall := ⟨img.addr, g.imgCert overrideIdx, env.slotEnd overrideIdx⟩
      ⟨g, clearFlag (env.bootLzma call mem) extractAddr, some call⟩
    else ⟨g, clearFlag mem extractAddr, none⟩
  else ⟨g, mem, none⟩

def bootOtaExtract (env : ExtractEnv) (mem : Memory) (g : BootGlobals) : ExtractResult :=
  let (g, extractIdx) := bootExtractSlotSelect env.otp mem g
  extractFrom env mem g extractIdx

/-! ### The version gate, read off the slots -/

/-- The manifest at the start of a slot. -/
def slotManifest (i : Slot) : Manifest :=
  Manifest.load mem (g.imgCert i)

def compressedSlot : Option Slot :=
  if (slotManifest mem g .A).pattern = CompressFlag then some .A
  else if (slotManifest mem g .B).pattern = CompressFlag then some .B
  else none

/-- The `Ver` entry the scan leaves for the other slot: slot A is looked at first and marked
    invalid, slot B keeps what it had. -/
def scannedVer : Slot → Int
  | .A => g.ver .B
  | .B => -1

/-- The version the compressed slot is compared with: the other slot's own if that has the image
    pattern, else what the scan left. -/
def overrideVer : Int :=
  if (slotManifest mem g extractIdx.other).pattern = ImagePattern then
    (slotManifest mem g extractIdx.other).version
  else scannedVer g extractIdx

/-- Slot `extractIdx` is the compressed one and passes the rollback and version
    tests. -/
structure ExtractGate (otp : Otp) (mem : Memory) (g : BootGlobals) (extractIdx : Slot) : Prop where
  flagged : compressedSlot mem g = some extractIdx
  rollback : bootOtaGetCertRollbackVer otp ≤ (slotManifest mem g extractIdx).version
  newest : overrideVer mem g extractIdx ≤ (slotManifest mem g extractIdx).version

/-- The compressed image passes every step of the extraction check. -/
def CompressedImgVerified (env : ExtractEnv) (mem : Memory) (g : BootGlobals)
    (extractIdx : Slot) : Prop :=
  ExtractStepsOk env.rom mem
    (Memory.window (bootSbootEnCheck env.otp env.rand g.secureBootEn env.stack).2 0 32)
    (slotManifest mem g extractIdx)
    [compressedImg (slotManifest mem g extractIdx) (g.imgCert extractIdx)]
deriving Decidable

def lzmaCallFor (env : ExtractEnv) (mem : Memory) (g : BootGlobals) (extractIdx : Slot) :
    LzmaCall where
  src := (compressedImg (slotManifest mem g extractIdx) (g.imgCert extractIdx)).addr
  start := g.imgCert extractIdx.other
  stop := env.slotEnd extractIdx.other

structure ScanFound (mem : Memory) (g g' : BootGlobals) (extractIdx : Slot) : Prop where
  manifest : g'.manifest extractIdx = slotManifest mem g extractIdx
  ver : g'.ver extractIdx = (slotManifest mem g extractIdx).version
  verOther : g'.ver extractIdx.other = scannedVer g extractIdx
  imgCert : g'.imgCert = g.imgCert
  secureBootEn : g'.secureBootEn = g.secureBootEn

theorem scanCompressFlag_none (hnone : compressedSlot mem g = none) :
    ∃ g', scanCompressFlag mem [.A, .B] g = (g', none) := by
  unfold compressedSlot slotManifest at hnone
  split at hnone
  · cases hnone
  rename_i hA
  split at hnone
  · cases hnone
  · rename_i hB
    rw [scanCompressFlag, if_neg hA, scanCompressFlag, if_neg hB]
    exact ⟨_, rfl⟩

theorem scanCompressFlag_some (hsome : compressedSlot mem g = some extractIdx) :
    ∃ g', scanCompressFlag mem [.A, .B] g = (g', some extractIdx) ∧
      ScanFound mem g g' extractIdx := by
  unfold compressedSlot slotManifest at hsome
  split at hsome
  · rename_i hA
    cases hsome
    rw [scanCompressFlag, if_pos hA]
    exact ⟨_, rfl, by constructor <;> simp [slotManifest, scannedVer, Slot.set, Slot.other]⟩
  rename_i hA
  split at hsome
  · rename_i hB
    cases hsome
    rw [scanCompressFlag, if_neg hA, scanCompressFlag, if_pos hB]
    exact ⟨_, rfl, by constructor <;> simp [slotManifest, scannedVer, Slot.set, Slot.other]⟩
  · cases hsome

structure ExtractSelected (otp : Otp) (mem : Memory) (g g' : BootGlobals) (extractIdx : Slot) :
    Prop where
  manifest : g'.manifest extractIdx = slotManifest mem g extractIdx
  ver : g'.ver extractIdx = (slotManifest mem g extractIdx).version
  verOther : g'.ver extractIdx.other = overrideVer mem g extractIdx
  valid : g'.validImgNum = validImgCount (bootOtaGetCertRollbackVer otp) g'.ver
  imgCert : g'.imgCert = g.imgCert
  secureBootEn : g'.secureBootEn = g.secureBootEn

theorem rateExtractSlots_selected (hfound : ScanFound mem g g' extractIdx) :
    ExtractSelected otp mem g (rateExtractSlots otp mem g' extractIdx) extractIdx := by
  have hne : extractIdx ≠ extractIdx.other := (Slot.other_ne extractIdx).symm
  constructor
  case manifest => simpa [rateExtractSlots, Slot.set, hne] using hfound.manifest
  case ver =>
    rw [← hfound.ver]
    unfold rateExtractSlots
    dsimp only
    split <;> simp [Slot.set, hne]
  case verOther =>
    unfold rateExtractSlots overrideVer slotManifest
    simp only [hfound.imgCert]
    by_cases hpattern : (Manifest.load mem (g.imgCert extractIdx.other)).pattern = ImagePattern
    · rw [if_pos hpattern, if_pos hpattern, Slot.set_same]
    · rw [if_neg hpattern, if_neg hpattern]
      exact hfound.verOther
  case valid => rfl
  case imgCert => exact hfound.imgCert
  case secureBootEn => exact hfound.secureBootEn

theorem bootExtractSlotSelect_some (hsome : compressedSlot mem g = some extractIdx) :
    ∃ g', bootExtractSlotSelect otp mem g = (g', extractIdx) ∧
      ExtractSelected otp mem g g' extractIdx := by
  obtain ⟨g', hscan, hfound⟩ := scanCompressFlag_some mem g extractIdx hsome
  exact ⟨_, by rw [bootExtractSlotSelect, hscan], rateExtractSlots_selected otp mem g _ hfound⟩

theorem ExtractSelected.gate_iff {otp : Otp} {mem : Memory} {g g' : BootGlobals}
    {extractIdx : Slot} (hsel : ExtractSelected otp mem g g' extractIdx)
    (hsome : compressedSlot mem g = some extractIdx) :
    g'.validImgNum ≠ NONEVALIDIMG ∧ g'.ver extractIdx ≥ g'.ver extractIdx.other ↔
      ExtractGate otp mem g extractIdx := by
  rw [hsel.valid, Ne, validImgCount_eq_none]
  constructor
  · rintro ⟨hvalid, hnewest⟩
    refine ⟨hsome, ?_, by rw [← hsel.ver, ← hsel.verOther]; exact hnewest⟩
    rw [← hsel.ver]
    by_contra hlow
    -- the newest slot misses the rollback version, so both slots do
    refine hvalid fun i => ?_
    rcases Slot.eq_or_eq_other extractIdx i with rfl | rfl <;> omega
  · rintro ⟨_, hrollback, hnewest⟩
    rw [← hsel.ver] at hrollback hnewest
    rw [← hsel.verOther] at hnewest
    exact ⟨fun hall => absurd (hall extractIdx) (by omega), hnewest⟩

theorem extractFrom_lzma :
    (extractFrom env mem g extractIdx).lzma = some call ↔
      (g.validImgNum ≠ NONEVALIDIMG ∧ g.ver extractIdx ≥ g.ver extractIdx.other) ∧
      (bootExtractSignatureCheck env.rom env.otp env.rand env.stack mem g.secureBootEn
        (g.manifest extractIdx)
        [compressedImg (g.manifest extractIdx) (g.imgCert extractIdx)]).1 = 0 ∧
      call = ⟨(compressedImg (g.manifest extractIdx) (g.imgCert extractIdx)).addr,
        g.imgCert extractIdx.other, env.slotEnd extractIdx.other⟩ := by
  unfold extractFrom
  dsimp only
  split
  · simp_all
  split
  · split
    · simp_all [eq_comm]
    · simp_all
  rename_i hver
  constructor
  · intro h
    cases h
  · rintro ⟨⟨_, hge⟩, _⟩
    exact absurd hge hver

/-- **When the decompressor runs.** Exactly for a slot that passes the gate and for which
    `BOOT_Extract_SignatureCheck` returns `0`: secure boot is off, or a step of the check failed. -/
theorem bootOtaExtract_lzma (env : ExtractEnv) (mem : Memory) (g : BootGlobals) (call : LzmaCall) :
    (bootOtaExtract env mem g).lzma = some call ↔
      ∃ extractIdx, ExtractGate env.otp mem g extractIdx ∧
        ¬ (SecureBootOn env.otp g.secureBootEn ∧ CompressedImgVerified env mem g extractIdx) ∧
        call = lzmaCallFor env mem g extractIdx := by
  cases hslot : compressedSlot mem g with
  | none =>
    obtain ⟨g', hscan⟩ := scanCompressFlag_none mem g hslot
    have hempty : (bootOtaExtract env mem g).lzma = none := by
      simp [bootOtaExtract, bootExtractSlotSelect, hscan, extractFrom]
    rw [hempty]
    constructor
    · intro h
      cases h
    · rintro ⟨extractIdx, hgate, _⟩
      rw [hgate.flagged] at hslot
      cases hslot
  | some extractIdx =>
    obtain ⟨g', hselect, hsel⟩ := bootExtractSlotSelect_some env.otp mem g extractIdx hslot
    have huniq : ∀ j, ExtractGate env.otp mem g j → j = extractIdx := by
      intro j hj
      exact Option.some.inj (hj.flagged.symm.trans hslot)
    rw [bootOtaExtract, hselect, extractFrom_lzma, hsel.gate_iff hslot,
      bootExtractSignatureCheck_eq_zero, hsel.manifest, hsel.imgCert, hsel.secureBootEn]
    constructor
    · rintro ⟨hgate, hfail, hcall⟩
      exact ⟨extractIdx, hgate, hfail, hcall⟩
    · rintro ⟨j, hgate, hfail, hcall⟩
      cases huniq j hgate
      exact ⟨hgate, hfail, hcall⟩

/-- The intended contract: an image is decompressed only with secure boot off or after every check
    succeeded, and one that passes every check and the version gate is. -/
structure ExtractsAuthenticated (env : ExtractEnv) (mem : Memory) (g : BootGlobals) : Prop where
  sound : ∀ call, (bootOtaExtract env mem g).lzma = some call →
    ¬ SecureBootOn env.otp g.secureBootEn ∨ ∃ extractIdx, compressedSlot mem g = some extractIdx ∧
        CompressedImgVerified env mem g extractIdx
  complete : ∀ extractIdx, SecureBootOn env.otp g.secureBootEn →
    ExtractGate env.otp mem g extractIdx → CompressedImgVerified env mem g extractIdx →
      (bootOtaExtract env mem g).lzma = some (lzmaCallFor env mem g extractIdx)

/-- The caller tests the result the wrong way round: with secure boot on and the gate passed, the
    contract fails for every image. -/
theorem bootOtaExtract_authenticated_iff (env : ExtractEnv) (mem : Memory) (g : BootGlobals) :
    ExtractsAuthenticated env mem g ↔ ¬ SecureBootOn env.otp g.secureBootEn ∨
        ∀ extractIdx, ¬ ExtractGate env.otp mem g extractIdx := by
  constructor
  · intro hcontract
    by_contra hcond
    push Not at hcond
    obtain ⟨hon, extractIdx, hgate⟩ := hcond
    by_cases hverified : CompressedImgVerified env mem g extractIdx
    · -- a good image is refused
      have hcalled := hcontract.complete extractIdx hon hgate hverified
      obtain ⟨j, hj, hfail, _⟩ := (bootOtaExtract_lzma env mem g _).mp hcalled
      cases Option.some.inj (hj.flagged.symm.trans hgate.flagged)
      exact hfail ⟨hon, hverified⟩
    -- a bad image is extracted
    have hcalled := (bootOtaExtract_lzma env mem g _).mpr
      ⟨extractIdx, hgate, fun h => hverified h.2, rfl⟩
    rcases hcontract.sound _ hcalled with hoff | ⟨j, hj, hok⟩
    · exact hoff hon
    · cases Option.some.inj (hj.symm.trans hgate.flagged)
      exact hverified hok
  · intro hcond
    constructor
    · intro call hcalled
      obtain ⟨extractIdx, hgate, _⟩ := (bootOtaExtract_lzma env mem g call).mp hcalled
      rcases hcond with hoff | hno
      · exact .inl hoff
      · exact absurd hgate (hno extractIdx)
    · intro extractIdx hon hgate _
      rcases hcond with hoff | hno
      · exact absurd hon hoff
      · exact absurd hgate (hno extractIdx)

/-- Slot B starts with the compress flag, everything else is zero. -/
def flaggedSlotB : Memory := fun a =>
  if 0x08214000 ≤ a ∧ a < 0x08214008 then CompressFlag.getD (a - 0x08214000) 0 else 0

/-- The bootloader's data before its first run, for the default flash layout. -/
def initialGlobals : BootGlobals where
  certMem := fun _ => 0
  manifest := fun _ => ⟨[]⟩
  signature := fun _ => []
  ver := fun _ => 0
  validImgNum := 0
  imgCert := fun | .A => 0x08014000 | .B => 0x08214000
  imgImg2 := fun | .A => 0x08015000 | .B => 0x08215000
  secureBootEn := false

/-- Fuses that enable secure boot; a ROM that rejects everything. -/
def rejectingEnv : ExtractEnv where
  rom :=
    { sbootValidateAlgorithm := fun _ _ => (-1, 0, 0)
      sbootValidatePubKey := fun _ _ _ => -1
      sbootValidateSignature := fun _ _ _ _ _ => -1
      sbootValidateImgHash := fun _ _ _ _ => -1 }
  otp :=
    { antiRollback := false, imgVer0 := 0xFFFF, rmaMode := false, sBootEn := true
      rmaPk := fun _ => 0xFF, certPkHash := fun _ => 0xFF }
  rand := 0
  stack := fun _ => 0
  slotEnd := fun | .A => 0x081FFFFF | .B => 0x083DCFFF
  bootLzma := fun _ mem => mem

/-- An image that fails the very first check is decompressed over slot A. -/
theorem unverified_image_extracted :
    (bootOtaExtract rejectingEnv flaggedSlotB initialGlobals).lzma =
        some ⟨0x08215000, 0x08014000, 0x081FFFFF⟩ ∧
      ¬ ExtractsAuthenticated rejectingEnv flaggedSlotB initialGlobals := by
  have hcalled : (bootOtaExtract rejectingEnv flaggedSlotB initialGlobals).lzma =
      some ⟨0x08215000, 0x08014000, 0x081FFFFF⟩ := by
    decide +kernel
  refine ⟨hcalled, fun hcontract => ?_⟩
  rcases hcontract.sound _ hcalled with hoff | ⟨extractIdx, _, hok⟩
  · exact hoff (by decide)
  · exact absurd hok.1 (show ¬ (-1 : Int) = 0 by decide)

end AmebaRtos.Boot
