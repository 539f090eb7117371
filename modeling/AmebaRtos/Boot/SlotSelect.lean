import AmebaRtos.Boot.Extract

/-!
# Choosing the slot to boot from

`BOOT_OTA_Region_Init`, `BOOT_OTA_SlotSelect` and `BOOT_OTA_IMG` of `boot_ota_km4.c`. The slots
are rated by the version in their certificates, the better one is tried first, and the other one
only when it passes the rollback test as well. The outcomes of the certificate check and of
`BOOT_OTA_LoadIMGAll` are parameters, one per slot.
-/

namespace AmebaRtos.Boot

open Lib

variable (otp : Otp) (mem : Memory) (g : BootGlobals) (i : Slot)

namespace BootGlobals

/-- `&Cert[i]`. -/
def cert : Certificate :=
  Certificate.ofAddr g.certMem (i.index * CERTIFICATE_SIZE)

/-- `_memcpy` of one certificate from flash to `Cert[i]`. -/
def loadCert (mem : Memory) (i : Slot) : BootGlobals :=
  let base := i.index * CERTIFICATE_SIZE
  { g with
    certMem := fun a =>
      if base ≤ a ∧ a < base + CERTIFICATE_SIZE then mem (g.imgCert i + (a - base))
      else g.certMem a }

end BootGlobals

def slotCert : Certificate :=
  Certificate.ofAddr mem (g.imgCert i)

theorem loadCert_field (mem : Memory) (i : Slot) (offset len : Nat)
    (hfits : offset + len ≤ CERTIFICATE_SIZE) :
    ((g.loadCert mem i).cert i).field offset len = (slotCert mem g i).field offset len := by
  unfold Certificate.field Memory.window
  apply List.map_congr_left
  intro k hk
  have hk : k < len := List.mem_range.mp hk
  simp only [BootGlobals.cert, BootGlobals.loadCert, slotCert, Certificate.ofAddr]
  rw [if_pos (by omega)]
  congr 2
  omega

theorem loadCert_pattern : ((g.loadCert mem i).cert i).pattern = (slotCert mem g i).pattern :=
  loadCert_field g mem i 0 8 (by decide)

theorem loadCert_version : ((g.loadCert mem i).cert i).version = (slotCert mem g i).version := by
  have hmajor := loadCert_field g mem i 20 2 (by decide)
  have hminor := loadCert_field g mem i 22 2 (by decide)
  simp only [Certificate.version, Certificate.majorKeyVer, Certificate.minorKeyVer, hmajor, hminor]

/-! ### The source functions -/

def bootOtaRegionInit (slotStart : Slot → Nat) (g : BootGlobals) : BootGlobals :=
  { g with
    imgCert := slotStart
    imgImg2 := fun i => slotStart i + CERT_SIZE_4K_ALIGN }

/-- One round of the loading loop in `BOOT_OTA_SlotSelect`. -/
def loadSlot (g : BootGlobals) : BootGlobals :=
  let g := g.loadCert mem i
  let cert := g.cert i
  if cert.pattern = ImagePattern then
    -- a version 2 certificate takes 8 KB, and the IMG2 manifest moves behind it
    let img2 := if cert.ver ≥ CERT_VERSION_8KB then g.imgCert i + CERT_SIZE_8K_ALIGN
      else g.imgImg2 i
    { g with
      imgImg2 := Slot.set g.imgImg2 i img2
      signature := Slot.set g.signature i
        (mem.window ((g.imgCert i + cert.tableSize) % 2 ^ 32) SIGN_MAX_LEN)
      manifest := Slot.set g.manifest i (Manifest.load mem img2)
      ver := Slot.set g.ver i cert.version }
  else { g with ver := Slot.set g.ver i (-1) }

def bootOtaSlotSelect : BootGlobals × Slot :=
  let g := loadSlot mem .B (loadSlot mem .A g)
  let g := { g with validImgNum := validImgCount (bootOtaGetCertRollbackVer otp) g.ver }
  (g, if g.ver .A ≥ g.ver .B then .A else .B)

/-- The outcomes of `BOOT_CertificateCheck` (a `u8`, `0` on success) and of
    `BOOT_OTA_LoadIMGAll` for each slot. -/
structure SlotChecks where
  certificateCheck : Slot → Nat
  bootOtaLoadIMGAll : Slot → Bool

/-- The loop of `BOOT_OTA_IMG`: at most `n` attempts, alternating between the
    slots; `none` when none of them succeeds. -/
def tryImages (checks : SlotChecks) : (n : Nat) → Slot → Option Slot
  | 0, _ => none
  | n + 1, i =>
    if checks.certificateCheck i ≠ 0 then tryImages checks n i.other
    else if checks.bootOtaLoadIMGAll i ≠ true then tryImages checks n i.other
    else some i

/-- Whether compressed images are supported, the starts of the slots, and the checks, which see the
    globals that the slot selection left. -/
structure BootEnv extends ExtractEnv where
  compressOtaImg : Bool
  slotStart : Slot → Nat
  checks : BootGlobals → SlotChecks

inductive BootOutcome where
  | boot (i : Slot)
  | fail
deriving DecidableEq, Repr

def bootPrepared (env : BootEnv) (mem : Memory) (g : BootGlobals) : Memory × BootGlobals :=
  let g := bootOtaRegionInit env.slotStart g
  if env.compressOtaImg then
    let r := bootOtaExtract env.toExtractEnv mem g
    (r.mem, r.globals)
  else (mem, g)

/-- `BOOT_OTA_IMG`; the `Fail` label traps. -/
def bootOtaImg (env : BootEnv) (mem : Memory) (g : BootGlobals) : BootOutcome :=
  let (mem, g) := bootPrepared env mem g
  let (g, imgIndex) := bootOtaSlotSelect env.otp mem g
  if g.validImgNum = NONEVALIDIMG then .fail
  else
    match tryImages (env.checks g) g.validImgNum imgIndex with
    | none => .fail
    | some i => .boot i

/-! ### What the selection computes -/

/-- A slot's `Ver` entry, read off the flash. -/
def slotVer : Int :=
  if (slotCert mem g i).pattern = ImagePattern then (slotCert mem g i).version else -1

theorem loadSlot_imgCert : (loadSlot mem i g).imgCert = g.imgCert := by
  unfold loadSlot
  dsimp only
  split <;> rfl

theorem loadSlot_ver : (loadSlot mem i g).ver = Slot.set g.ver i (slotVer mem g i) := by
  unfold loadSlot slotVer
  dsimp only
  rw [loadCert_pattern, loadCert_version]
  split <;> rfl

theorem bootOtaSlotSelect_ver : (bootOtaSlotSelect otp mem g).1.ver i = slotVer mem g i := by
  have hB : slotVer mem (loadSlot mem .A g) .B = slotVer mem g .B := by
    unfold slotVer slotCert
    rw [loadSlot_imgCert]
  simp only [bootOtaSlotSelect, loadSlot_ver, hB]
  cases i <;> simp [Slot.set]

theorem bootOtaSlotSelect_validImgNum : (bootOtaSlotSelect otp mem g).1.validImgNum =
      validImgCount (bootOtaGetCertRollbackVer otp) (slotVer mem g) := by
  have hver : (bootOtaSlotSelect otp mem g).1.ver = slotVer mem g :=
    funext (bootOtaSlotSelect_ver otp mem g)
  rw [← hver]
  rfl

theorem bootOtaSlotSelect_first (hfirst : (bootOtaSlotSelect otp mem g).2 = i) :
    slotVer mem g i.other ≤ slotVer mem g i ∧
      (slotVer mem g i.other = slotVer mem g i → i = .A) := by
  have hver := bootOtaSlotSelect_ver otp mem g
  have hidx : (bootOtaSlotSelect otp mem g).2 =
      if (bootOtaSlotSelect otp mem g).1.ver .A ≥ (bootOtaSlotSelect otp mem g).1.ver .B
      then .A else .B := rfl
  rw [hver, hver, hfirst] at hidx
  split at hidx
  · subst hidx
    exact ⟨by assumption, fun _ => rfl⟩
  · subst hidx
    simp only [Slot.other]
    omega

/-! ### The attempts -/

def ChecksPass (checks : SlotChecks) (i : Slot) : Prop :=
  checks.certificateCheck i = 0 ∧ checks.bootOtaLoadIMGAll i = true

theorem tryImages_succ (n : Nat) (i : Slot) :
    (ChecksPass checks i ∧ tryImages checks (n + 1) i = some i) ∨
      (¬ ChecksPass checks i ∧ tryImages checks (n + 1) i = tryImages checks n i.other) := by
  unfold ChecksPass
  rw [tryImages]
  by_cases hcert : checks.certificateCheck i = 0
  · by_cases hload : checks.bootOtaLoadIMGAll i = true
    · simp [hcert, hload]
    · simp [hload]
  · simp [hcert]

theorem tryImages_one : tryImages checks 1 first = some j ↔ j = first ∧ ChecksPass checks j := by
  rcases tryImages_succ 0 first with ⟨hpass, h⟩ | ⟨hfail, h⟩
  · rw [h]
    constructor
    · intro hj
      cases hj
      exact ⟨rfl, hpass⟩
    · rintro ⟨rfl, _⟩
      rfl
  · rw [h]
    constructor
    · intro hj
      cases hj
    · rintro ⟨rfl, hj⟩
      exact absurd hj hfail

theorem tryImages_two : tryImages checks 2 first = some j ↔
      ChecksPass checks j ∧ (j = first ∨ (j = first.other ∧ ¬ ChecksPass checks first)) := by
  rcases tryImages_succ 1 first with ⟨hpass, h⟩ | ⟨hfail, h⟩
  · rw [h]
    constructor
    · intro hj
      cases hj
      exact ⟨hpass, .inl rfl⟩
    · rintro ⟨_, rfl | ⟨_, hno⟩⟩
      · rfl
      · exact absurd hpass hno
  · rw [h, tryImages_one]
    constructor
    · rintro ⟨hj, hpass⟩
      exact ⟨hpass, .inr ⟨hj, hfail⟩⟩
    · rintro ⟨hpass, rfl | ⟨hj, _⟩⟩
      · exact absurd hpass hfail
      · exact ⟨hj, hpass⟩

/-! ### The chosen slot -/

/-- Slot `i` has the image pattern, its version is not below the fused one, and both its checks
    succeed. -/
structure Eligible (env : BootEnv) (mem : Memory) (g : BootGlobals) (i : Slot) : Prop where
  pattern : (slotCert mem g i).pattern = ImagePattern
  rollback : bootOtaGetCertRollbackVer env.otp ≤ (slotCert mem g i).version
  certificate : (env.checks (bootOtaSlotSelect env.otp mem g).1).certificateCheck i = 0
  image : (env.checks (bootOtaSlotSelect env.otp mem g).1).bootOtaLoadIMGAll i = true

/-- The version `-1` of a slot without the pattern fails every rollback test. -/
theorem eligible_iff (env : BootEnv) (mem : Memory) (g : BootGlobals) (i : Slot) :
    Eligible env mem g i ↔ bootOtaGetCertRollbackVer env.otp ≤ slotVer mem g i ∧
        ChecksPass (env.checks (bootOtaSlotSelect env.otp mem g).1) i := by
  have hnonneg := rollbackVer_nonneg env.otp
  unfold slotVer
  constructor
  · rintro ⟨hpattern, hrollback, hcert, himage⟩
    rw [if_pos hpattern]
    exact ⟨hrollback, hcert, himage⟩
  · rintro ⟨hrollback, hcert, himage⟩
    split at hrollback
    · exact ⟨by assumption, hrollback, hcert, himage⟩
    · omega

/-- No eligible slot has a higher version than `i`, and slot B is taken only when slot A is not as
    good. -/
structure Chosen (env : BootEnv) (mem : Memory) (g : BootGlobals) (i : Slot) : Prop where
  eligible : Eligible env mem g i
  highest : ∀ j, Eligible env mem g j → (slotCert mem g j).version ≤ (slotCert mem g i).version
  tie : ∀ j, Eligible env mem g j →
    (slotCert mem g j).version = (slotCert mem g i).version → i = .A ∨ j = i

theorem Eligible.slotVer_eq {env : BootEnv} {mem : Memory} {g : BootGlobals} {i : Slot}
    (h : Eligible env mem g i) : slotVer mem g i = (slotCert mem g i).version := by
  rw [slotVer, if_pos h.pattern]

theorem attempts_eq_some : ((bootOtaSlotSelect env.otp mem g).1.validImgNum ≠ NONEVALIDIMG ∧
      tryImages (env.checks (bootOtaSlotSelect env.otp mem g).1)
        (bootOtaSlotSelect env.otp mem g).1.validImgNum (bootOtaSlotSelect env.otp mem g).2 =
          some i) ↔
      Eligible env mem g i ∧ (i = (bootOtaSlotSelect env.otp mem g).2 ∨
        ¬ Eligible env mem g (bootOtaSlotSelect env.otp mem g).2) := by
  obtain ⟨hbest, -⟩ := bootOtaSlotSelect_first env.otp mem g _ rfl
  have helig := eligible_iff env mem g
  rw [bootOtaSlotSelect_validImgNum]
  generalize (bootOtaSlotSelect env.otp mem g).2 = first at hbest ⊢
  generalize env.checks (bootOtaSlotSelect env.otp mem g).1 = checks at helig ⊢
  generalize bootOtaGetCertRollbackVer env.otp = vn at helig ⊢
  by_cases hfirst : vn ≤ slotVer mem g first
  · have hfirstElig : Eligible env mem g first ↔ ChecksPass checks first := by
      rw [helig]
      exact and_iff_right hfirst
    by_cases hother : vn ≤ slotVer mem g first.other
    · -- both versions pass: two attempts
      have hall : ∀ j, vn ≤ slotVer mem g j := by
        intro j
        rcases Slot.eq_or_eq_other first j with rfl | rfl
        · exact hfirst
        · exact hother
      have hchecks : Eligible env mem g i ↔ ChecksPass checks i := by
        rw [helig]
        exact and_iff_right (hall i)
      rw [validImgCount_eq_two _ _ hall, TWOVALIDIMG, tryImages_two, hchecks, hfirstElig]
      rcases Slot.eq_or_eq_other first i with rfl | rfl
      · simp [NONEVALIDIMG]
      · simp [NONEVALIDIMG]
    · -- only the first one passes: one attempt
      have hbad : slotVer mem g first.other < vn := by omega
      rw [validImgCount_eq_one _ _ first hfirst hbad, ONEVALIDIMG, tryImages_one]
      rcases Slot.eq_or_eq_other first i with rfl | rfl
      · simp [NONEVALIDIMG, hfirstElig]
      have hnot : ¬ Eligible env mem g first.other := by
        rw [helig]
        omega
      simp [hnot]
  · -- the better version fails, so neither passes
    have hcount : validImgCount vn (slotVer mem g) = NONEVALIDIMG := by
      rw [validImgCount_eq_none]
      intro j
      rcases Slot.eq_or_eq_other first j with rfl | rfl <;> omega
    have hnone : ¬ Eligible env mem g i := by
      rw [helig]
      rcases Slot.eq_or_eq_other first i with rfl | rfl <;> omega
    simp [hcount, hnone]

theorem bootOtaImg_eq_boot (env : BootEnv) (mem : Memory) (g : BootGlobals) (i : Slot) :
    bootOtaImg env mem g = .boot i ↔
      Eligible env (bootPrepared env mem g).1 (bootPrepared env mem g).2 i ∧
        (i = (bootOtaSlotSelect env.otp (bootPrepared env mem g).1 (bootPrepared env mem g).2).2 ∨
          ¬ Eligible env (bootPrepared env mem g).1 (bootPrepared env mem g).2
            (bootOtaSlotSelect env.otp (bootPrepared env mem g).1
              (bootPrepared env mem g).2).2) := by
  rw [← attempts_eq_some]
  unfold bootOtaImg
  dsimp only
  split
  · simp_all
  · split <;> simp_all

theorem bootOtaImg_chosen (mem : Memory) (g : BootGlobals) (i : Slot)
    (hboot : bootOtaImg env mem g = .boot i) :
    Chosen env (bootPrepared env mem g).1 (bootPrepared env mem g).2 i := by
  obtain ⟨helig, hfirst⟩ := (bootOtaImg_eq_boot env mem g i).mp hboot
  generalize (bootPrepared env mem g).1 = mem' at helig hfirst ⊢
  generalize (bootPrepared env mem g).2 = g' at helig hfirst ⊢
  obtain ⟨hbest, htie⟩ := bootOtaSlotSelect_first env.otp mem' g' _ rfl
  generalize (bootOtaSlotSelect env.otp mem' g').2 = first at hfirst hbest htie
  -- any eligible slot other than `i` is the one tried after `i`
  have hlater : ∀ j, Eligible env mem' g' j → j ≠ i → i = first ∧ j = first.other := by
    intro j hj hne
    rcases hfirst with rfl | hbad
    · exact ⟨rfl, (Slot.eq_or_eq_other i j).resolve_left hne⟩
    exfalso
    have hi : i = first.other :=
      (Slot.eq_or_eq_other first i).resolve_left fun h => hbad (h ▸ helig)
    have hj' : j = first.other :=
      (Slot.eq_or_eq_other first j).resolve_left fun h => hbad (h ▸ hj)
    exact hne (hj'.trans hi.symm)
  constructor
  · exact helig
  · intro j hj
    by_cases hne : j = i
    · subst hne
      exact Nat.le_refl _
    · obtain ⟨rfl, rfl⟩ := hlater j hj hne
      rw [hj.slotVer_eq, helig.slotVer_eq] at hbest
      omega
  · intro j hj hver
    by_cases hne : j = i
    · exact .inr hne
    · obtain ⟨rfl, rfl⟩ := hlater j hj hne
      rw [hj.slotVer_eq, helig.slotVer_eq] at htie
      exact .inl (htie (by omega))

theorem bootOtaImg_eq_fail (mem : Memory) (g : BootGlobals) :
    bootOtaImg env mem g = .fail ↔
      ∀ i, ¬ Eligible env (bootPrepared env mem g).1 (bootPrepared env mem g).2 i := by
  have hboot := bootOtaImg_eq_boot env mem g
  generalize (bootOtaSlotSelect env.otp (bootPrepared env mem g).1
    (bootPrepared env mem g).2).2 = first at hboot
  constructor
  · intro hfail i hi
    by_cases hfirst : Eligible env (bootPrepared env mem g).1 (bootPrepared env mem g).2 first
    · have := (hboot first).mpr ⟨hfirst, .inl rfl⟩
      rw [hfail] at this
      cases this
    · have := (hboot i).mpr ⟨hi, .inr hfirst⟩
      rw [hfail] at this
      cases this
  · intro hnone
    cases hout : bootOtaImg env mem g with
    | fail => rfl
    | boot i => exact absurd ((hboot i).mp hout).1 (hnone i)

/-- **Slot selection is correct.** `BOOT_OTA_IMG` boots the eligible slot with the highest version,
    fails only without one, and decompresses an image only if its version is at least the fused one
    and that of a valid image in the other slot. -/
theorem bootOtaImg_selects (env : BootEnv) (mem : Memory) (g : BootGlobals) :
    (∀ i, bootOtaImg env mem g = .boot i →
      Chosen env (bootPrepared env mem g).1 (bootPrepared env mem g).2 i) ∧
    (bootOtaImg env mem g = .fail ↔
      ∀ i, ¬ Eligible env (bootPrepared env mem g).1 (bootPrepared env mem g).2 i) ∧
    (∀ call, (bootOtaExtract env.toExtractEnv mem g).lzma = some call →
      ∃ i, call = lzmaCallFor env.toExtractEnv mem g i ∧
        bootOtaGetCertRollbackVer env.otp ≤ (slotManifest mem g i).version ∧
        ((slotManifest mem g i.other).pattern = ImagePattern →
          (slotManifest mem g i.other).version ≤ (slotManifest mem g i).version)) := by
  refine ⟨bootOtaImg_chosen mem g, bootOtaImg_eq_fail mem g, ?_⟩
  intro call hcall
  obtain ⟨i, hgate, _, hcall⟩ := (bootOtaExtract_lzma env.toExtractEnv mem g call).mp hcall
  refine ⟨i, hcall, hgate.rollback, ?_⟩
  intro hpattern
  have hnewest := hgate.newest
  rw [overrideVer, if_pos hpattern] at hnewest
  omega

end AmebaRtos.Boot
