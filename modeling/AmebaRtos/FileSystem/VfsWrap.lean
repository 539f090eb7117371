import Mathlib.Algebra.GroupWithZero.Nat
import AmebaRtos.FileSystem.Vfs

/-!
# The wrapped file functions

`vfs_wrap.c` wraps the file functions of the C library. Those that take a path look it up with
`find_vfs_number` and refuse a negative result. `__wrap_fread` and `__wrap_fwrite` hand the
request to the driver; with encryption callbacks they go through a buffer whose length is that of
the data, padded to a multiple of the length of the IV.
-/

namespace AmebaRtos.FileSystem

open Lib

/-! ### Paths -/

instance : NeZero VFS_USER_REGION_MAX := ⟨Nat.succ_ne_zero 3⟩

/-- The start of every function that takes a path: the indices into `vfs.drv` and `vfs.user` that it
    goes on with. -/
def wrapPath (s : VfsDrv) (name : CStr) : Option (Int × Fin VFS_USER_REGION_MAX) :=
  let found := findVfsNumber s name
  if found.ret < 0 then none else some (found.ret, found.userId.getD 0)

/-- The entry that `find_vfs_number` compares a name with last, if no tag matches. -/
def lastCompared (s : VfsDrv) : Option UserConfig := (s.user 0).map ((s.user 1).getD ·)

section Paths

variable {s : VfsDrv} {name : CStr} (hother : ∀ i u, s.user i = some u → ¬ u.tag.val <+: name)

include hother

theorem findVfsNumber_unmatched : (findVfsNumber s name).ret =
      (lastCompared s).elim (-1) fun u => strncmp name u.tag u.tag.val.length := by
  have hcmp : ∀ i u, s.user i = some u → strncmp name u.tag u.tag.val.length ≠ 0 := fun i u hu =>
    (strncmp_eq_zero u.tag.property).not.mpr (hother i u hu)
  change (findVfsFrom s name [0, 1] (-1)).ret = _
  rw [lastCompared, findVfsFrom]
  cases h0 : s.user 0 with
  | none => rfl
  | some u =>
    dsimp only
    rw [if_neg (hcmp 0 u h0), findVfsFrom]
    cases h1 : s.user 1 with
    | none => rfl
    | some u' => exact congrArg FindResult.ret (if_neg (hcmp 1 u' h1))

theorem findVfsNumber_neg_iff :
    (findVfsNumber s name).ret < 0 ↔ ∀ u, lastCompared s = some u → name.val < u.tag.val := by
  rw [findVfsNumber_unmatched hother]
  cases hlast : lastCompared s with
  | none => simp
  | some u =>
    have hno : ¬ u.tag.val <+: name := by
      obtain ⟨v, hv, hu⟩ := Option.map_eq_some_iff.mp hlast
      cases h1 : s.user 1 with
      | none => exact hu ▸ h1 ▸ hother 0 v hv
      | some u' => exact hu ▸ h1 ▸ hother 1 u' h1
    simpa using strncmp_neg u.tag.property hno

end Paths

/-- **When a path behind no registered prefix is refused.** Exactly when nothing is
    registered, or the path comes before the tag that it is compared with last. -/
theorem unmatched_path_refused_iff (s : VfsDrv) (name : CStr)
    (hother : ∀ i u, s.user i = some u → ¬ u.tag.val <+: name) :
    ((findVfsNumber s name).ret < 0 ∧ wrapPath s name = none) ↔
      ∀ u, lastCompared s = some u → name.val < u.tag.val := by
  rw [← findVfsNumber_neg_iff hother]
  exact ⟨And.left, fun h => ⟨h, if_pos h⟩⟩

theorem vfs_no_nul : (0 : UInt8) ∉ [0x76, 0x66, 0x73] := by decide

/-- The table after "vfs" was registered. -/
def vfsTable : VfsDrv :=
    vfsStep true vfsInit (registerCall ⟨[0x76, 0x66, 0x73], vfs_no_nul⟩ VFS_LITTLEFS)

/-- "sd" is refused. -/
theorem earlier_path_refused : (findVfsNumber vfsTable ⟨[0x73, 0x64], by decide⟩).ret < 0 ∧
    wrapPath vfsTable ⟨[0x73, 0x64], by decide⟩ = none := by
  refine (unmatched_path_refused_iff vfsTable ⟨[0x73, 0x64], by decide⟩ (by decide)).mpr ?_
  intro u hu
  cases hu
  decide

/-- "www" is looked up in `vfs.drv[1]`, where there is no driver. -/
theorem later_path_indexes :
    (∀ i u, vfsTable.user i = some u → ¬ u.tag.val <+: [0x77, 0x77, 0x77]) ∧
      wrapPath vfsTable ⟨[0x77, 0x77, 0x77], by decide⟩ = some (1, 0) := by
  decide

/-! ### Encrypted regions -/

/-- `msglen`: the length of the data, padded, in an `unsigned short`. -/
def paddedLen (encIvLen : UInt8) (size count : UInt32) : UInt16 :=
  ((size * count / encIvLen.toUInt32 + 1) * encIvLen.toUInt32).toUInt16

/-- What a request comes to: it is refused, or the driver's result is returned, behind a
    buffer if there are callbacks. -/
inductive Access where
  | refused
  | done (buffer : Option Nat) (ret : Int)
deriving DecidableEq, Repr

/-- `__wrap_fread` and `__wrap_fwrite`; `encIvLen` is given in a region with callbacks, and `driver`
    is the `read` or `write` of the file system. -/
def wrapAccess (encIvLen : Option UInt8) (driver : UInt32 → UInt32 → Int) (size count : UInt32) :
    Access :=
  match encIvLen with
  | none => .done none (driver size count)
  | some ivLen =>
    let msglen := paddedLen ivLen size count
    if 16383 < msglen then .refused else .done (some msglen.toNat) (driver msglen.toUInt32 1)

def wrapFread (encIvLen : Option UInt8) (read : UInt32 → UInt32 → Int) (size count : UInt32) :
    Access :=
  wrapAccess encIvLen read size count

def wrapFwrite (encIvLen : Option UInt8) (write : UInt32 → UInt32 → Int) (size count : UInt32) :
    Access :=
  wrapAccess encIvLen write size count

/-- A driver that transfers all that it is asked for, and reports the number of bytes. -/
def wholeDriver (size count : UInt32) : Int := (size * count).toNat

/-- The request is refused, or its buffer is large enough and a transfer is reported as in a
    region without encryption. -/
def Access.LikePlain (size count : UInt32) (access plain : Access) : Prop :=
  access = .refused ∨ ∃ buffer ret, access = .done (some buffer) ret ∧
    size.toNat * count.toNat ≤ buffer ∧ plain = .done none ret

section Crypt

variable {ivLen : UInt8} (hiv : ivLen ≠ 0) (size count : UInt32)

include hiv

/-- The padded length is never that of the data, also where it is cut to 16 bits. -/
theorem paddedLen_ne : (paddedLen ivLen size count).toNat ≠ (size * count).toNat := by
  unfold paddedLen
  have hpos : 0 < ivLen.toNat := Nat.pos_of_ne_zero fun h => hiv (UInt8.toNat_inj.mp h)
  have hlt : ivLen.toNat < 256 := ivLen.toNat_lt
  generalize size * count = len
  have hpadded : (len.toNat / ivLen.toNat + 1) * ivLen.toNat =
      ivLen.toNat * (len.toNat / ivLen.toNat) + ivLen.toNat := by
    rw [Nat.succ_mul, Nat.mul_comm]
  have hdiv := Nat.div_add_mod len.toNat ivLen.toNat
  have hmod := Nat.mod_lt len.toNat hpos
  rw [UInt32.toNat_toUInt16, UInt32.toNat_mul, UInt32.toNat_add, UInt32.toNat_div,
    UInt8.toNat_toUInt32, UInt32.toNat_one, Nat.mod_mul_mod]
  omega

theorem likePlain_iff : (wrapAccess (some ivLen) wholeDriver size count).LikePlain size count
        (wrapAccess none wholeDriver size count) ↔ 16383 < paddedLen ivLen size count := by
  by_cases hlarge : 16383 < paddedLen ivLen size count
  · exact ⟨fun _ => hlarge, fun _ => .inl (if_pos hlarge)⟩
  refine ⟨fun h => ?_, fun h => absurd h hlarge⟩
  simp only [wrapAccess, if_neg hlarge] at h
  obtain hrefused | ⟨buffer, ret, hdone, _, hplain⟩ := h
  · cases hrefused
  · cases hdone
    have hret := (Access.done.inj hplain).2
    rw [wholeDriver, wholeDriver, UInt32.mul_one, Int.natCast_inj] at hret
    exact absurd hret.symm (paddedLen_ne hiv size count)

end Crypt

/-- **When an encrypted region behaves like a plain one.** Only when the request is refused: the
    padded length, cut to 16 bits, exceeds 16383. -/
theorem encrypted_like_plain_iff (ivLen : UInt8) (hiv : ivLen ≠ 0) (size count : UInt32) :
    ((wrapFread (some ivLen) wholeDriver size count).LikePlain size count
        (wrapFread none wholeDriver size count) ∧
      (wrapFwrite (some ivLen) wholeDriver size count).LikePlain size count
        (wrapFwrite none wholeDriver size count)) ↔ 16383 < paddedLen ivLen size count := by
  exact (and_self_iff).trans (likePlain_iff hiv size count)

/-- A request for 65000 bytes is refused with an IV of 255 bytes. -/
theorem refused_like_plain :
    (wrapFread (some 255) wholeDriver 65000 1).LikePlain 65000 1
        (wrapFread none wholeDriver 65000 1) ∧
      (wrapFwrite (some 255) wholeDriver 65000 1).LikePlain 65000 1
        (wrapFwrite none wholeDriver 65000 1) :=
  (encrypted_like_plain_iff 255 (by decide) 65000 1).mpr (by decide)

/-- With an IV of 16 bytes a request for 65530 bytes gets a buffer of no bytes. -/
theorem large_request_unbuffered : wrapFwrite (some 16) wholeDriver 65530 1 = .done (some 0) 0 ∧
      ¬ (wrapFwrite (some 16) wholeDriver 65530 1).LikePlain 65530 1
        (wrapFwrite none wholeDriver 65530 1) :=
  ⟨by decide, fun h => absurd ((likePlain_iff (by decide) 65530 1).mp h) (by decide)⟩

end AmebaRtos.FileSystem
