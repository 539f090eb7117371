import AmebaRtos.Boot.Security

/-!
# The key table of the certificate

`BOOT_SignatureCheck` and `BOOT_SignatureCheck_PQC` look up the hash of the public key in the
table of the certificate. The first one has no case for a key that is not found and goes on with
the entry behind the last one; both take `EntryNum` as it is, which may be more than the table
holds. A check is right if it accepts only with a listed entry and refuses otherwise.
-/

namespace AmebaRtos.Boot

open Lib

def AUTHID_PQC_ML_DSA_65 : Nat := 241
def PQC_ML_DSA_65_PUBKEY_LEN : Nat := 1952
def PQC_ML_DSA_65_SIG_LEN : Nat := 3309

/-! ### The post-quantum check -/

/-- `Manifest_PQC_TypeDef`, the extension behind the manifest. -/
structure ManifestPqc where
  authAlg : Nat
  keySize : Nat
  sigSize : Nat
  pubKey : List UInt8
  signature : List UInt8

/-- `SBOOT_Validate_PubKey_PQC` and `PQCLEAN_MLDSA65_CLEAN_crypto_sign_verify_ctx`. -/
structure RomPqc where
  sbootValidatePubKeyPqc : (pk hash : List UInt8) → Int
  cryptoSignVerify : (sig msg pk : List UInt8) → Int

def sbootSignatureVerifyPqc (rom : RomPqc) (hash : List UInt8) (m : Manifest) (ext : ManifestPqc) :
    Int :=
  if ext.authAlg ≠ AUTHID_PQC_ML_DSA_65 ∨ ext.keySize ≠ PQC_ML_DSA_65_PUBKEY_LEN ∨
      ext.sigSize ≠ PQC_ML_DSA_65_SIG_LEN then -12
  else
    let ret := rom.sbootValidatePubKeyPqc ext.pubKey hash
    if ret ≠ 0 then ret
    else if rom.cryptoSignVerify ext.signature m.signedPart ext.pubKey ≠ 0 then -3
    else 0

/-- `BOOT_SignatureCheck_PQC`; `none` when the key search hangs. A key that is not found is an
    error. -/
def bootSignatureCheckPqc (rom : RomPqc) (secureBootEnPqc : Bool) (m : Manifest)
    (ext : ManifestPqc) (cert : Certificate) (keyID : Nat) : Option Int :=
  if !secureBootEnPqc then some 0
  else
    (findKeyEntry cert keyID).map fun i =>
      if i < cert.entryNum then sbootSignatureVerifyPqc rom (cert.keyHash i) m ext else -1

/-! ### The search -/

/-- The search stops at entry `i`: at the first entry with the key, or behind the last entry. -/
def SearchStops (cert : Certificate) (keyID i : Nat) : Prop :=
  i < 256 ∧ (∀ j < i, j < cert.entryNum ∧ cert.keyID j ≠ keyID) ∧
    (i = cert.entryNum ∨ (i < cert.entryNum ∧ cert.keyID i = keyID))

def KeyListed (cert : Certificate) (keyID : Nat) : Prop :=
  ∃ i < CERT_MAX_KEYINFO, i < cert.entryNum ∧ cert.keyID i = keyID

def Listed (cert : Certificate) (keyID : Nat) (valid : List UInt8 → Prop) : Prop :=
  ∃ i < CERT_MAX_KEYINFO, i < cert.entryNum ∧ cert.keyID i = keyID ∧ valid (cert.keyHash i)

theorem Listed.keyListed (h : Listed cert keyID valid) : KeyListed cert keyID := by
  obtain ⟨i, hmax, hi, hkey, _⟩ := h
  exact ⟨i, hmax, hi, hkey⟩

theorem SearchStops.unique (hi : SearchStops cert keyID i) (hj : SearchStops cert keyID j) :
    i = j := by
  obtain ⟨_, hbefore, hstop⟩ := hi
  obtain ⟨_, hbefore', hstop'⟩ := hj
  rcases Nat.lt_trichotomy i j with hlt | heq | hlt
  · rcases hstop with rfl | ⟨_, hkey⟩
    · exact absurd (hbefore' _ hlt).1 (Nat.lt_irrefl _)
    · exact absurd hkey (hbefore' i hlt).2
  · exact heq
  · rcases hstop' with rfl | ⟨_, hkey⟩
    · exact absurd (hbefore _ hlt).1 (Nat.lt_irrefl _)
    · exact absurd hkey (hbefore j hlt).2

theorem findKeyEntry_stops (h : findKeyEntry cert keyID = some i) : SearchStops cert keyID i := by
  unfold findKeyEntry at h
  split at h
  next k hfind =>
    cases h
    obtain ⟨hkey, hmem, hbefore⟩ := List.find?_range_eq_some.mp hfind
    have hlt := List.mem_range.mp hmem
    refine ⟨by omega, fun j hj => ⟨by omega, ?_⟩, .inr ⟨by omega, by simpa using hkey⟩⟩
    simpa using hbefore j hj
  next hfind =>
    split at h
    next hnum =>
      cases h
      refine ⟨hnum, fun j hj => ⟨hj, ?_⟩, .inl rfl⟩
      have hmiss := List.find?_range_eq_none.mp hfind j (by omega)
      simpa using hmiss
    next => cases h

theorem findKeyEntry_none (h : findKeyEntry cert keyID = none) :
    256 ≤ cert.entryNum ∧ ∀ j < 256, cert.keyID j ≠ keyID := by
  unfold findKeyEntry at h
  split at h
  next => cases h
  next hfind =>
    split at h
    next => cases h
    next hnum =>
      refine ⟨Nat.not_lt.mp hnum, fun j hj => ?_⟩
      have hmiss := List.find?_range_eq_none.mp hfind j (by omega)
      simpa using hmiss

theorem SearchStops.findKeyEntry (h : SearchStops cert keyID i) :
    findKeyEntry cert keyID = some i := by
  cases hfind : Boot.findKeyEntry cert keyID with
  | some k => rw [(findKeyEntry_stops hfind).unique h]
  | none =>
    obtain ⟨hnum, hmiss⟩ := findKeyEntry_none hfind
    obtain ⟨hi, _, rfl | ⟨_, hkey⟩⟩ := h
    · exact absurd hi (Nat.not_lt.mpr hnum)
    · exact absurd hkey (hmiss i hi)

theorem KeyListed.findKeyEntry (h : KeyListed cert keyID) :
    ∃ i, findKeyEntry cert keyID = some i ∧ i < CERT_MAX_KEYINFO ∧ i < cert.entryNum ∧
      cert.keyID i = keyID := by
  obtain ⟨k, hmax, hk, hkey⟩ := h
  cases hfind : Boot.findKeyEntry cert keyID with
  | some i =>
    obtain ⟨_, hbefore, hstop⟩ := findKeyEntry_stops hfind
    have hik : i ≤ k := by
      by_contra hlt
      exact (hbefore k (Nat.not_le.mp hlt)).2 hkey
    refine ⟨i, rfl, Nat.lt_of_le_of_lt hik hmax, Nat.lt_of_le_of_lt hik hk, ?_⟩
    rcases hstop with rfl | ⟨_, hkey'⟩
    · exact absurd hk (Nat.not_lt.mpr hik)
    · exact hkey'
  | none =>
    have htable : CERT_MAX_KEYINFO ≤ 256 := by decide
    exact absurd hkey ((findKeyEntry_none hfind).2 k (Nat.lt_of_lt_of_le hmax htable))

/-! ### When the checks are right -/

section

def Manifest.algorithms (rom : Rom) (m : Manifest) : Int × Nat × Nat :=
  rom.sbootValidateAlgorithm m.authAlg m.hashAlg

/-- The hash is a hash of the public key of the manifest. -/
def PubKeyValid (rom : Rom) (m : Manifest) (hash : List UInt8) : Prop :=
  rom.sbootValidatePubKey (m.algorithms rom).2.1 m.sbPubKey hash = 0

def SignatureValid (rom : Rom) (m : Manifest) : Prop :=
  rom.sbootValidateSignature (m.algorithms rom).2.1 (m.algorithms rom).2.2 m.sbPubKey m.signedPart
    m.signature = 0

/-- `BOOT_SignatureCheck` refuses a certificate that does not list the key with a hash of the
    public key. -/
def SignatureCheckRight (rom : Rom) (m : Manifest) (cert : Certificate) (keyID : Nat) : Prop :=
  Listed cert keyID (PubKeyValid rom m) ∨
    ∃ ret, bootSignatureCheck rom true m cert keyID = some ret ∧ u8 ret ≠ 0

/-- `BOOT_SignatureCheck_PQC` does so. -/
def SignatureCheckPqcRight (rom : RomPqc) (m : Manifest) (ext : ManifestPqc) (cert : Certificate)
    (keyID : Nat) : Prop :=
  Listed cert keyID (fun hash => rom.sbootValidatePubKeyPqc ext.pubKey hash = 0) ∨
    ∃ ret, bootSignatureCheckPqc rom true m ext cert keyID = some ret ∧ ret ≠ 0

theorem bootSignatureCheck_of_stop (halg : (m.algorithms rom).1 = 0)
    (hfind : findKeyEntry cert keyID = some i) :
    ∃ ret, bootSignatureCheck rom true m cert keyID = some ret ∧
      (ret = 0 ↔ PubKeyValid rom m (cert.keyHash i) ∧ SignatureValid rom m) := by
  unfold bootSignatureCheck PubKeyValid SignatureValid
  unfold Manifest.algorithms at halg ⊢
  simp only [halg, hfind,
    Option.map_some]
  refine ⟨_, rfl, ?_⟩
  split
  next hpk => simp [hpk]
  next hpk => simp [not_not.mp hpk]

theorem bootSignatureCheck_of_algorithm (halg : (m.algorithms rom).1 ≠ 0) :
    bootSignatureCheck rom true m cert keyID = some (m.algorithms rom).1 := by
  unfold bootSignatureCheck
  unfold Manifest.algorithms at halg ⊢
  simp only [Bool.not_true, Bool.false_eq_true, if_false, if_pos halg]

theorem bootSignatureCheck_of_hang (halg : (m.algorithms rom).1 = 0)
    (hfind : findKeyEntry cert keyID = none) : bootSignatureCheck rom true m cert keyID = none := by
  unfold bootSignatureCheck
  unfold Manifest.algorithms at halg
  simp only [halg, hfind, Bool.not_true, Bool.false_eq_true, if_false, ne_eq, not_true_eq_false,
    Option.map_none]

theorem signatureCheckRight_iff (hrom : rom.CodesInRange) : SignatureCheckRight rom m cert keyID ↔
      (m.algorithms rom).1 ≠ 0 ∨ KeyListed cert keyID ∨ ∃ i, SearchStops cert keyID i ∧
          ¬ (PubKeyValid rom m (cert.keyHash i) ∧ SignatureValid rom m) := by
  have hrefuse {ret : Int} (hret : bootSignatureCheck rom true m cert keyID = some ret)
      (hne : ret ≠ 0) : SignatureCheckRight rom m cert keyID :=
    .inr ⟨ret, hret, fun hzero =>
      hne (bootSignatureCheck_eq_zero _ _ hrom hret hzero)⟩
  constructor
  · intro hright
    by_cases halg : (m.algorithms rom).1 = 0
    · refine .inr ?_
      rcases hright with hlisted | ⟨ret, hret, hne⟩
      · exact .inl hlisted.keyListed
      cases hfind : findKeyEntry cert keyID with
      | none => simp [bootSignatureCheck_of_hang halg hfind] at hret
      | some i =>
        obtain ⟨ret', hret', hzero⟩ := bootSignatureCheck_of_stop halg hfind
        refine .inr ⟨i, findKeyEntry_stops hfind, fun hvalid => hne ?_⟩
        obtain rfl : ret = ret' := Option.some.inj (hret.symm.trans hret')
        rw [hzero.mpr hvalid]
        rfl
    · exact .inl halg
  · intro hcond
    by_cases halg : (m.algorithms rom).1 = 0
    · rcases hcond.resolve_left (not_not.mpr halg) with hkey | ⟨i, hstop, hinvalid⟩
      · obtain ⟨i, hfind, hmax, hi, hkeyID⟩ := hkey.findKeyEntry
        obtain ⟨ret, hret, hzero⟩ := bootSignatureCheck_of_stop halg hfind
        by_cases hpk : PubKeyValid rom m (cert.keyHash i)
        · exact .inl ⟨i, hmax, hi, hkeyID, hpk⟩
        · exact hrefuse hret fun h => hpk (hzero.mp h).1
      · obtain ⟨ret, hret, hzero⟩ := bootSignatureCheck_of_stop halg hstop.findKeyEntry
        exact hrefuse hret fun h => hinvalid (hzero.mp h)
    · exact hrefuse (bootSignatureCheck_of_algorithm halg) halg

theorem sbootSignatureVerifyPqc_pubKey {hash : List UInt8}
    (h : sbootSignatureVerifyPqc romPqc hash m ext = 0) :
    romPqc.sbootValidatePubKeyPqc ext.pubKey hash = 0 := by
  simp only [sbootSignatureVerifyPqc] at h
  split at h
  · cases h
  · split at h
    next hpk => exact absurd h hpk
    next hpk => exact not_not.mp hpk

theorem signatureCheckPqcRight_iff :
    SignatureCheckPqcRight romPqc m ext cert keyID ↔
      KeyListed cert keyID ∨ ∃ i, SearchStops cert keyID i ∧
        (i = cert.entryNum ∨ sbootSignatureVerifyPqc romPqc (cert.keyHash i) m ext ≠ 0) := by
  have hcheck : bootSignatureCheckPqc romPqc true m ext cert keyID =
      (findKeyEntry cert keyID).map fun i =>
        if i < cert.entryNum then sbootSignatureVerifyPqc romPqc (cert.keyHash i) m ext else -1 :=
    rfl
  unfold SignatureCheckPqcRight
  rw [hcheck]
  constructor
  · rintro (hlisted | ⟨ret, hret, hne⟩)
    · exact .inl hlisted.keyListed
    · obtain ⟨i, hfind, rfl⟩ := Option.map_eq_some_iff.mp hret
      refine .inr ⟨i, findKeyEntry_stops hfind, ?_⟩
      by_cases hi : i < cert.entryNum
      · rw [if_pos hi] at hne
        exact .inr hne
      · rcases (findKeyEntry_stops hfind).2.2 with heq | ⟨hlt, _⟩
        · exact .inl heq
        · exact absurd hlt hi
  · rintro (hkey | ⟨i, hstop, hrefused⟩)
    · obtain ⟨i, hfind, hmax, hi, hkeyID⟩ := hkey.findKeyEntry
      by_cases hverify : sbootSignatureVerifyPqc romPqc (cert.keyHash i) m ext = 0
      · exact .inl ⟨i, hmax, hi, hkeyID, sbootSignatureVerifyPqc_pubKey hverify⟩
      · refine .inr ⟨sbootSignatureVerifyPqc romPqc (cert.keyHash i) m ext, ?_, hverify⟩
        simp [hfind, hi]
    · refine .inr ⟨_, by rw [hstop.findKeyEntry, Option.map_some], ?_⟩
      split
      next hi =>
        rcases hrefused with rfl | hrefused
        · exact absurd hi (Nat.lt_irrefl _)
        · exact hrefused
      next => decide

end

/-- `BOOT_SignatureCheck` is right exactly if the algorithms are refused, the key is in the table,
    or the entry at which the search stops does not authenticate the manifest;
    `BOOT_SignatureCheck_PQC` also if the search stops behind the last entry. -/
theorem signature_checks_right_iff {rom : Rom} (hrom : rom.CodesInRange) (romPqc : RomPqc)
    (m : Manifest) (ext : ManifestPqc) (cert : Certificate) (keyID : Nat) :
    (SignatureCheckRight rom m cert keyID ↔ (m.algorithms rom).1 ≠ 0 ∨ KeyListed cert keyID ∨
        ∃ i, SearchStops cert keyID i ∧
          ¬ (PubKeyValid rom m (cert.keyHash i) ∧ SignatureValid rom m)) ∧
    (SignatureCheckPqcRight romPqc m ext cert keyID ↔
      KeyListed cert keyID ∨ ∃ i, SearchStops cert keyID i ∧
        (i = cert.entryNum ∨ sbootSignatureVerifyPqc romPqc (cert.keyHash i) m ext ≠ 0)) :=
  ⟨signatureCheckRight_iff hrom, signatureCheckPqcRight_iff⟩

/-! ### A certificate without the key -/

/-- Validators for which a hash of a key is its first 32 bytes and every signature is good. -/
def prefixRom : Rom where
  sbootValidateAlgorithm := fun _ _ => (0, 0, 0)
  sbootValidatePubKey := fun _ pk hash => if pk.take 32 = hash then 0 else -2
  sbootValidateSignature := fun _ _ _ _ _ => 0
  sbootValidateImgHash := fun _ _ _ _ => 0

theorem prefixRom_codesInRange : prefixRom.CodesInRange where
  algorithm _ _ := by simp [prefixRom]
  pubKey _ _ _ := by
    simp only [prefixRom]
    split
    · decide
    · decide
  signature _ _ _ _ _ := by simp [prefixRom]

def zeroManifest : Manifest := ⟨List.replicate MANIFEST_SIZE 0⟩

/-- A certificate with one entry, whose hash is zero. -/
def oneKeyCertificate (keyID : UInt8) : Certificate :=
  ⟨fun i => if i = 28 then 1 else if i = 176 then keyID else 0⟩

instance (cert : Certificate) (keyID : Nat) : Decidable (KeyListed cert keyID) :=
  inferInstanceAs (Decidable (∃ i < CERT_MAX_KEYINFO, _))

theorem oneKeyCertificate_right :
    SignatureCheckRight prefixRom zeroManifest (oneKeyCertificate 0) 0 := by
  have hkey : KeyListed (oneKeyCertificate 0) 0 := by decide
  have hright := signature_checks_right_iff prefixRom_codesInRange
    ⟨fun _ _ => -1, fun _ _ _ => -1⟩ zeroManifest ⟨0, 0, 0, [], []⟩ (oneKeyCertificate 0) 0
  exact hright.1.mpr (.inr (.inl hkey))

/-- The certificate has key 1 only, and key 0 is asked for: the entry behind the last one is taken
    for it. -/
theorem missing_key_accepted :
    ¬ SignatureCheckRight prefixRom zeroManifest (oneKeyCertificate 1) 0 := by
  have hkey : ¬ KeyListed (oneKeyCertificate 1) 0 := by decide
  have hcheck :
      bootSignatureCheck prefixRom true zeroManifest (oneKeyCertificate 1) 0 = some 0 := by
    decide +kernel
  rintro (hlisted | ⟨ret, hret, hne⟩)
  · exact hkey hlisted.keyListed
  · rw [hcheck] at hret
    cases hret
    exact hne rfl

end AmebaRtos.Boot
