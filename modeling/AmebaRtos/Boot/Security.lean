import AmebaRtos.Lib.Memory
import AmebaRtos.Layout

/-!
# Secure-boot checks of the amebadplus bootloader

The data the KM4 bootloader authenticates and the checks of `boot_security_km4.c`. The ROM
validators `SBOOT_*` are parameters; only the value `0` counts as success. A manifest or
certificate is kept as the bytes brought in from flash; its fields are read at the offsets of the
C structures.
-/

namespace AmebaRtos.Boot

open Lib

def HASH_MAX_LEN : Nat := 64
def PKEY_MAX_LEN : Nat := 144
def SIGN_MAX_LEN : Nat := 144
def CERT_MAX_KEYINFO : Nat := 5
def MANIFEST_SIZE_4K_ALIGN : Nat := 0x1000
def MANIFEST_SIZE_8K_ALIGN : Nat := 0x2000
def MANIFEST_VERSION_8KB : Nat := 2
def CERT_SIZE_4K_ALIGN : Nat := 0x1000
def CERT_SIZE_8K_ALIGN : Nat := 0x2000
def CERT_VERSION_8KB : Nat := 2

/-- `sizeof(Manifest_TypeDef)`. -/
def MANIFEST_SIZE : Nat := 400

/-- `sizeof(Certificate_TypeDef)`. -/
def CERTIFICATE_SIZE : Nat := 356

/-! ### Manifest and certificate layouts -/

/-- `Manifest_TypeDef`, as the bytes copied out of flash. -/
structure Manifest where
  bytes : List UInt8
deriving DecidableEq, Repr

variable (otpByte : Nat → UInt8) (m : Manifest)

namespace Manifest

def load (mem : Memory) (addr : Nat) : Manifest := ⟨mem.window addr MANIFEST_SIZE⟩

def field (offset len : Nat) : List UInt8 := (m.bytes.drop offset).take len

def pattern : List UInt8 := m.field 0 8
def ver : Nat := fromLE (m.field 16 1)
def authAlg : Nat := fromLE (m.field 18 1)
def hashAlg : Nat := fromLE (m.field 19 1)
def majorImgVer : Nat := fromLE (m.field 20 2)
def minorImgVer : Nat := fromLE (m.field 22 2)
def imgSize : Nat := fromLE (m.field 24 4)
def imgHash : List UInt8 := m.field 48 HASH_MAX_LEN
def sbPubKey : List UInt8 := m.field 112 PKEY_MAX_LEN
def signature : List UInt8 := m.field 256 SIGN_MAX_LEN

def signedPart : List UInt8 := m.field 0 (MANIFEST_SIZE - SIGN_MAX_LEN)

/-- `(MajorImgVer << 16) | MinorImgVer`. -/
def version : Nat := m.majorImgVer <<< 16 ||| m.minorImgVer

end Manifest

/-- `Certificate_TypeDef` behind a pointer: `byteAt i` is the byte at offset `i`. The key table is
    indexed without a bound check, so offsets behind it read whatever follows. -/
structure Certificate where
  byteAt : Nat → UInt8

variable (c : Certificate)

namespace Certificate

/-- A pointer to the certificate at `addr`. -/
def ofAddr (mem : Memory) (addr : Nat) : Certificate := ⟨fun i => mem (addr + i)⟩

def field (offset len : Nat) : List UInt8 :=
  Memory.window c.byteAt offset len

def pattern : List UInt8 := c.field 0 8
def ver : Nat := fromLE (c.field 16 1)
def majorKeyVer : Nat := fromLE (c.field 20 2)
def minorKeyVer : Nat := fromLE (c.field 22 2)
def tableSize : Nat := fromLE (c.field 24 4)
def entryNum : Nat := fromLE (c.field 28 4)
def keyID (i : Nat) : Nat := fromLE (c.field (176 + 36 * i) 4)
def keyHash (i : Nat) : List UInt8 := c.field (180 + 36 * i) 32

/-- `(MajorVer << 16) | MinorVer`. -/
def version : Nat := c.majorKeyVer <<< 16 ||| c.minorKeyVer

end Certificate

def bootOtaGetManifestSize : Nat :=
  if m.ver = MANIFEST_VERSION_8KB then MANIFEST_SIZE_8K_ALIGN else MANIFEST_SIZE_4K_ALIGN

/-- `SubImgInfo_TypeDef`. -/
structure SubImgInfo where
  addr : Nat
  len : Nat
deriving DecidableEq, Repr

/-! ### OTP settings and ROM validators -/

structure Otp where
  antiRollback : Bool
  imgVer0 : UInt16
  rmaMode : Bool
  sBootEn : Bool
  rmaPk : Nat → UInt8
  certPkHash : Nat → UInt8

/-- The `SBOOT_*` validators in ROM; each returns `0` on success. The algorithm check also hands
    back the algorithms, the image-hash check reads the memory behind its regions. -/
structure Rom where
  sbootValidateAlgorithm : (maniAuth maniHash : Nat) → Int × Nat × Nat
  sbootValidatePubKey : (authAlg : Nat) → (pk hash : List UInt8) → Int
  sbootValidateSignature : (authAlg hashAlg : Nat) → (pk msg sig : List UInt8) → Int
  sbootValidateImgHash : Memory → (hashAlg : Nat) → (imgHash : List UInt8) → List SubImgInfo → Int

/-! ### Is secure boot enabled? -/

/-- The 32-byte copy loop from a random index: the entries of `pk_hash` after `n` rounds from index
    `j` on. -/
def readPkHash (otpByte : Nat → UInt8) : (n j : Nat) → (Nat → UInt8) → Nat → UInt8
  | 0, _, pkHash => pkHash
  | n + 1, j, pkHash =>
    readPkHash otpByte n ((j + 1) % 32) fun i => if i = j then otpByte j else pkHash i

/-- The same loop's effect on `SecureBootEn` in RMA mode: any byte other than
    `0xFF` switches secure boot on. -/
def scanRmaPk (otpByte : Nat → UInt8) : (n j : Nat) → Bool → Bool
  | 0, _, secureBootEn => secureBootEn
  | n + 1, j, secureBootEn =>
    scanRmaPk otpByte n ((j + 1) % 32) (secureBootEn || otpByte j != 0xFF)

variable (otp : Otp) (rand : Nat) (secureBootEn : Bool) (stack : Nat → UInt8) (c : Certificate)

/-- `BOOT_SbootEn_Check`: the new `SecureBootEn` and the public-key hash buffer, which held
    `stack`. -/
def bootSbootEnCheck : Bool × (Nat → UInt8) :=
  if otp.rmaMode then
    (scanRmaPk otp.rmaPk 32 (rand % 32) secureBootEn, readPkHash otp.rmaPk 32 (rand % 32) stack)
  else if otp.sBootEn then
    (true, readPkHash otp.certPkHash 32 (rand % 32) stack)
  else
    (secureBootEn, stack)

/-- Secure boot was switched on before, or the fuses ask for it. In RMA mode that is a programmed
    RMA public key. -/
def SecureBootOn : Prop :=
  secureBootEn = true ∨
    if otp.rmaMode then ∃ i < 32, otp.rmaPk i ≠ 0xFF else otp.sBootEn = true

instance (otp : Otp) (secureBootEn : Bool) : Decidable (SecureBootOn otp secureBootEn) :=
  inferInstanceAs (Decidable (_ ∨ _))

theorem scanRmaPk_eq_true (n j : Nat) (secureBootEn : Bool) (hj : j < 32) :
    scanRmaPk otpByte n j secureBootEn = true ↔
      secureBootEn = true ∨ ∃ k < n, otpByte ((j + k) % 32) ≠ 0xFF := by
  induction n generalizing j secureBootEn with
  | zero => simp [scanRmaPk]
  | succ n ih =>
    rw [scanRmaPk, ih _ _ (by omega)]
    have hshift : ∀ k, ((j + 1) % 32 + k) % 32 = (j + (k + 1)) % 32 := by
      omega
    simp only [hshift, Bool.or_eq_true, bne_iff_ne]
    constructor
    · rintro ((hen | hfirst) | ⟨k, hk, hbyte⟩)
      · exact .inl hen
      · exact .inr ⟨0, by omega, by rwa [Nat.add_zero, Nat.mod_eq_of_lt hj]⟩
      · exact .inr ⟨k + 1, by omega, hbyte⟩
    · rintro (hen | ⟨k, hk, hbyte⟩)
      · exact .inl (.inl hen)
      · rcases k with _ | k
        · exact .inl (.inr (by rwa [Nat.add_zero, Nat.mod_eq_of_lt hj] at hbyte))
        · exact .inr ⟨k, by omega, hbyte⟩

theorem bootSbootEnCheck_enabled :
    (bootSbootEnCheck otp rand secureBootEn stack).1 = true ↔ SecureBootOn otp secureBootEn := by
  unfold bootSbootEnCheck SecureBootOn
  by_cases hrma : otp.rmaMode = true
  · simp only [hrma, if_true]
    rw [scanRmaPk_eq_true _ _ _ _ (by omega)]
    refine or_congr_right ⟨?_, ?_⟩
    · rintro ⟨k, _, hbyte⟩
      exact ⟨(rand % 32 + k) % 32, by omega, hbyte⟩
    · rintro ⟨i, hi, hbyte⟩
      have hback : (rand % 32 + (i + 32 - rand % 32) % 32) % 32 = i := by omega
      exact ⟨(i + 32 - rand % 32) % 32, by omega, by rwa [hback]⟩
  · by_cases hen : otp.sBootEn = true <;> simp [hrma, hen]

/-! ### The checks -/

/-- An `int` result returned through a `u8`. -/
def u8 (ret : Int) : Nat := (ret % 256).toNat

/-- The key-table search of `BOOT_SignatureCheck`. The index is a `u8`: with more than 255 entries
    and no hit it wraps and the loop never ends (`none`). -/
def findKeyEntry (cert : Certificate) (keyID : Nat) : Option Nat :=
  match (List.range (min cert.entryNum 256)).find? fun i => cert.keyID i == keyID with
  | some i => some i
  | none => if cert.entryNum < 256 then some cert.entryNum else none

/-- `BOOT_SignatureCheck`: its `int` result, `none` when the key search hangs. The copied images are
    cleared in the caller's model. -/
def bootSignatureCheck (rom : Rom) (secureBootEn : Bool) (m : Manifest) (cert : Certificate)
    (keyID : Nat) : Option Int :=
  if !secureBootEn then some 0
  else
    let (ret, authAlg, hashAlg) := rom.sbootValidateAlgorithm m.authAlg m.hashAlg
    if ret ≠ 0 then some ret
    else
      (findKeyEntry cert keyID).map fun i =>
        let ret := rom.sbootValidatePubKey authAlg m.sbPubKey (cert.keyHash i)
        if ret ≠ 0 then ret
        else rom.sbootValidateSignature authAlg hashAlg m.sbPubKey m.signedPart m.signature

/-- The validators return `0` or one of the `SBOOT_ERR_*` codes. -/
structure Rom.CodesInRange (rom : Rom) : Prop where
  algorithm : ∀ auth hash, -13 ≤ (rom.sbootValidateAlgorithm auth hash).1 ∧
    (rom.sbootValidateAlgorithm auth hash).1 ≤ 0
  pubKey : ∀ auth pk hash, -13 ≤ rom.sbootValidatePubKey auth pk hash ∧
    rom.sbootValidatePubKey auth pk hash ≤ 0
  signature : ∀ auth hash pk msg sig, -13 ≤ rom.sbootValidateSignature auth hash pk msg sig ∧
    rom.sbootValidateSignature auth hash pk msg sig ≤ 0

/-- With such codes the truncation to `u8` never turns a failure into a success. -/
theorem bootSignatureCheck_eq_zero (hrom : rom.CodesInRange)
    (hret : bootSignatureCheck rom secureBootEn m cert keyID = some ret) (hzero : u8 ret = 0) :
    ret = 0 := by
  have hcode : -13 ≤ ret ∧ ret ≤ 0 := by
    have halg := hrom.algorithm m.authAlg m.hashAlg
    unfold bootSignatureCheck at hret
    split at hret
    · cases hret
      decide
    dsimp only at hret
    split at hret
    · cases hret
      exact halg
    obtain ⟨i, _, hi⟩ := Option.map_eq_some_iff.mp hret
    rw [← hi]
    split
    · exact hrom.pubKey _ _ _
    · exact hrom.signature _ _ _ _ _
  unfold u8 at hzero
  omega

/-- `BOOT_Extract_SignatureCheck`: its `u8` result and the updated `SecureBootEn`. `FALSE` is `0`.
-/
def bootExtractSignatureCheck (rom : Rom) (otp : Otp) (rand : Nat) (stack : Nat → UInt8)
    (mem : Memory) (secureBootEn : Bool) (m : Manifest) (subImgInfo : List SubImgInfo) :
    Nat × Bool :=
  let (enabled, pkHash) := bootSbootEnCheck otp rand secureBootEn stack
  if !enabled then (0, enabled)
  else
    let (ret, authAlg, hashAlg) := rom.sbootValidateAlgorithm m.authAlg m.hashAlg
    if ret ≠ 0 then (0, enabled)
    else if rom.sbootValidatePubKey authAlg m.sbPubKey (Memory.window pkHash 0 32) ≠ 0 then
      (0, enabled)
    else if rom.sbootValidateSignature authAlg hashAlg m.sbPubKey m.signedPart m.signature ≠ 0 then
      (0, enabled)
    else if rom.sbootValidateImgHash mem hashAlg m.imgHash subImgInfo ≠ 0 then (0, enabled)
    else (1, enabled)

/-- All four steps of the extraction check succeed: algorithm, public-key hash, manifest signature,
    image hash. -/
def ExtractStepsOk (rom : Rom) (mem : Memory) (pkHash : List UInt8) (m : Manifest)
    (subImgInfo : List SubImgInfo) : Prop :=
  (rom.sbootValidateAlgorithm m.authAlg m.hashAlg).1 = 0 ∧
  rom.sbootValidatePubKey (rom.sbootValidateAlgorithm m.authAlg m.hashAlg).2.1 m.sbPubKey
    pkHash = 0 ∧
  rom.sbootValidateSignature (rom.sbootValidateAlgorithm m.authAlg m.hashAlg).2.1
    (rom.sbootValidateAlgorithm m.authAlg m.hashAlg).2.2 m.sbPubKey m.signedPart m.signature = 0 ∧
  rom.sbootValidateImgHash mem (rom.sbootValidateAlgorithm m.authAlg m.hashAlg).2.2 m.imgHash
    subImgInfo = 0

instance (rom : Rom) (mem : Memory) (pkHash : List UInt8) (m : Manifest)
    (subImgInfo : List SubImgInfo) : Decidable (ExtractStepsOk rom mem pkHash m subImgInfo) :=
  inferInstanceAs (Decidable (_ ∧ _))

/-- `BOOT_Extract_SignatureCheck` returns `1` exactly when secure boot is on and every step
    succeeded. -/
theorem bootExtractSignatureCheck_fst :
    (bootExtractSignatureCheck rom otp rand stack mem secureBootEn m subImgInfo).1 =
      if SecureBootOn otp secureBootEn ∧
          ExtractStepsOk rom mem
            (Memory.window (bootSbootEnCheck otp rand secureBootEn stack).2 0 32) m subImgInfo
      then 1 else 0 := by
  simp only [← bootSbootEnCheck_enabled otp rand secureBootEn stack]
  unfold bootExtractSignatureCheck ExtractStepsOk
  obtain ⟨enabled, pkHash⟩ := bootSbootEnCheck otp rand secureBootEn stack
  cases enabled with
  | false => simp
  | true =>
    simp only [Bool.not_true, Bool.false_eq_true, if_false]
    -- one exit per validator, in the order the source calls them
    split
    · simp_all
    split
    · simp_all
    · split
      · simp_all
      · split <;> simp_all

theorem bootExtractSignatureCheck_eq_zero :
    (bootExtractSignatureCheck rom otp rand stack mem secureBootEn m subImgInfo).1 = 0 ↔
      ¬ (SecureBootOn otp secureBootEn ∧ ExtractStepsOk rom mem
            (Memory.window (bootSbootEnCheck otp rand secureBootEn stack).2 0 32) m
            subImgInfo) := by
  rw [bootExtractSignatureCheck_fst]
  split <;> simp_all

end AmebaRtos.Boot
