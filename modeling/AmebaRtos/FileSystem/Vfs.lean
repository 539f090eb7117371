import Mathlib.Data.List.FinRange
import AmebaRtos.Lib.CString
import AmebaRtos.Lib.Run

/-!
# Registered file systems and their prefixes

`vfs.c` keeps a table of four user regions. `vfs_user_register` enters a prefix in the first free
entry, `vfs_user_unregister` clears an entry. `find_inf_number` looks for the prefix of a file
name in all entries; `find_vfs_number`, which every file operation goes through, looks at the
first two only and stops at a free one.
-/

namespace AmebaRtos.FileSystem

open Lib Function

def VFS_FATFS : Int := 0
def VFS_LITTLEFS : Int := 1
def VFS_FS_MAX : Nat := 2
def VFS_INF_SECOND_FLASH : Int := 1
abbrev VFS_USER_REGION_MAX : Nat := 4

/-! ### The table -/

/-- `user_config` of an entry in use. -/
structure UserConfig where
  vfsType : Int
  vfsTypeId : Int
  vfsInterfaceType : Int
  vfsRoFlag : UInt8
  vfsRegion : UInt8
  tag : CStr

/-- `vfs_drv`: the types of the registered drivers and the user regions; an entry
    whose tag is `NULL` is free. -/
structure VfsDrv where
  drv : List Int
  user : Fin VFS_USER_REGION_MAX → Option UserConfig

def vfsInit : VfsDrv := ⟨[], fun _ => none⟩

/-! ### Lookup -/

def isSeparator (c : UInt8) : Bool := c == 0x2F || c == 0x3A

structure FindResult where
  ret : Int
  prefixLen : Option Nat
  userId : Option (Fin VFS_USER_REGION_MAX)

def prefixLenOf (name : List UInt8) (tagLen : Nat) : Option Nat :=
  if tagLen < name.length then
    some (tagLen + ((name.drop tagLen).takeWhile isSeparator).length)
  else none

def findVfsFrom (s : VfsDrv) (name : CStr) : List (Fin VFS_USER_REGION_MAX) → Int → FindResult
  | [], ret => ⟨ret, none, none⟩
  | i :: rest, ret =>
    match s.user i with
    | none => ⟨ret, none, none⟩
    | some u =>
      let ret := strncmp name u.tag u.tag.val.length
      if ret = 0 then ⟨u.vfsTypeId, prefixLenOf name u.tag.val.length, some i⟩
      else findVfsFrom s name rest ret

variable (fatfsIncluded : Bool) (s : VfsDrv)

def findVfsNumber (name : CStr) : FindResult :=
  findVfsFrom s name ((List.finRange VFS_USER_REGION_MAX).filter (·.val < VFS_FS_MAX)) (-1)

def matchUser (name : CStr) : Option (Fin VFS_USER_REGION_MAX) :=
  (List.finRange VFS_USER_REGION_MAX).find? fun i =>
    match s.user i with
    | none => false
    | some u => strncmp name u.tag u.tag.val.length = 0

def findInfNumber (name : CStr) : Int :=
  match matchUser s name with
  | some i => i.val
  | none => -1

/-! ### Registration -/

/-- `vfs_scan_vfs`: the last driver of the type. -/
def vfsScanVfs (vfsType : Int) : Int :=
  s.drv.zipIdx.foldl (fun vfsNum (t, i) => if t = vfsType then i else vfsNum) (-1)

/-- `vfs_register`; the result is an `unsigned char`. -/
def vfsRegister (vfsType : Int) : VfsDrv × Int :=
  if s.drv.length < VFS_FS_MAX then ({ s with drv := s.drv ++ [vfsType] }, s.drv.length)
  else (s, 255)

/-- The driver for a file system, registered when it is first needed. Without
    `CONFIG_VFS_FATFS_INCLUDED` there is none for FATFS. -/
def driverFor (vfsType : Int) : VfsDrv × Int :=
  let vfsNum := vfsScanVfs s vfsType
  if vfsNum < 0 then
    if vfsType = VFS_LITTLEFS || fatfsIncluded then vfsRegister s vfsType else (s, vfsNum)
  else (s, vfsNum)

structure RegisterCall where
  tag : CStr
  vfsType : Int
  interface : Int
  region : UInt8
  flag : UInt8
  mountRet : Int

def RegisterCall.supported (call : RegisterCall) : Bool :=
  (call.vfsType = VFS_FATFS || call.vfsType = VFS_LITTLEFS) &&
    !(call.vfsType = VFS_LITTLEFS && VFS_INF_SECOND_FLASH < call.interface)

def idleUser : Option (Fin VFS_USER_REGION_MAX) :=
  (List.finRange VFS_USER_REGION_MAX).find? fun i => (s.user i).isNone

def vfsUserRegister (call : RegisterCall) : VfsDrv × Int :=
  if call.supported = false then (s, -1)
  else if findInfNumber s call.tag = 0 then (s, 0)
  else
    let (s, vfsNum) := driverFor fatfsIncluded s call.vfsType
    if vfsNum < 0 then (s, -1)
    else
      match idleUser s with
      | none => (s, -1)
      | some userNum =>
        if call.mountRet ≠ 0 then (s, call.mountRet)
        else
          ({ s with
              user := update s.user userNum
                (some ⟨call.vfsType, vfsNum, call.interface, call.flag, call.region, call.tag⟩) },
            0)

/-- `vfs_user_unregister`; `unmountRet` is what `unmount` will return. -/
def vfsUserUnregister (tag : CStr) (unmountRet : Int) : VfsDrv × Int :=
  match matchUser s tag with
  | some userId => ({ s with user := update s.user userId none }, unmountRet)
  | none => (s, -1)

inductive VfsOp where
  | register (call : RegisterCall)
  | unregister (tag : CStr) (unmountRet : Int)

def vfsStep : VfsOp → VfsDrv
  | .register call => (vfsUserRegister fatfsIncluded s call).1
  | .unregister tag unmountRet => (vfsUserUnregister s tag unmountRet).1

/-! ### Prefixes that resolve -/

def Names (tag name : List UInt8) : Prop :=
  ∃ sep rest, isSeparator sep = true ∧ name = tag ++ sep :: rest

structure Resolves (s : VfsDrv) (i : Fin VFS_USER_REGION_MAX) (u : UserConfig) (name : CStr) :
    Prop where
  ret : (findVfsNumber s name).ret = u.vfsTypeId
  userId : (findVfsNumber s name).userId = some i
  inf : findInfNumber s name = i.val

/-- Every prefix in the table resolves, whatever follows it. -/
def AllResolve : Prop :=
  ∀ i u, s.user i = some u → ∀ name : CStr, Names u.tag name → Resolves s i u name

/-- Some file name behind `tag'` starts with `tag` too. -/
def Shadows (tag tag' : List UInt8) : Prop :=
  tag <+: tag' ∨ tag' ++ [0x2F] <+: tag ∨ tag' ++ [0x3A] <+: tag
deriving Decidable

theorem isSeparator_eq_true : isSeparator c = true ↔ c = 0x2F ∨ c = 0x3A := by
  simp [isSeparator]

theorem shadows_of_names (hname : Names tag' name) (hprefixes : tag <+: name) :
    Shadows tag tag' := by
  obtain ⟨sep, rest, hsep, rfl⟩ := hname
  rcases List.prefix_or_prefix_of_prefix hprefixes (List.prefix_append _ _) with h | ⟨more, rfl⟩
  · exact .inl h
  cases more with
  | nil => exact .inl (by simp)
  | cons c more =>
    have hsame := (List.prefix_append_right_inj tag').mp hprefixes
    obtain ⟨rfl, _⟩ := List.cons_prefix_cons.mp hsame
    have hextends : ∀ c, tag' ++ [c] <+: tag' ++ c :: more := fun c => ⟨more, by simp⟩
    rcases isSeparator_eq_true.mp hsep with rfl | rfl
    · exact .inr (.inl (hextends _))
    · exact .inr (.inr (hextends _))

theorem names_of_shadows {tag tag' : CStr} (h : Shadows tag tag') :
    ∃ name : CStr, Names tag' name ∧ tag.val <+: name := by
  rcases h with h | ⟨rest, h⟩ | ⟨rest, h⟩
  · refine ⟨⟨tag'.val ++ [0x2F], ?_⟩, ⟨0x2F, [], rfl, rfl⟩, h.trans (List.prefix_append _ _)⟩
    simpa using tag'.property
  · exact ⟨tag, ⟨0x2F, rest, rfl, by rw [← h]; simp⟩, List.prefix_refl _⟩
  · exact ⟨tag, ⟨0x3A, rest, rfl, by rw [← h]; simp⟩, List.prefix_refl _⟩

/-! ### Tables in which every prefix resolves -/

section

variable {s : VfsDrv} {name : CStr}

theorem findVfsNumber_first (h : s.user 0 = some u) (hname : u.tag.val <+: name) :
    findVfsNumber s name = ⟨u.vfsTypeId, prefixLenOf name u.tag.val.length, some 0⟩ := by
  change findVfsFrom s name [0, 1] (-1) = _
  rw [findVfsFrom, h]
  exact if_pos ((strncmp_eq_zero u.tag.property).mpr hname)

theorem resolves_first (h : s.user 0 = some u) (hname : u.tag.val <+: name) :
    Resolves s 0 u name := by
  have hcmp := (strncmp_eq_zero u.tag.property).mpr hname
  have hvfs := findVfsNumber_first h hname
  have hmatch : matchUser s name = some 0 := by
    change List.find? _ [0, 1, 2, 3] = _
    simp [h, hcmp]
  exact ⟨by rw [hvfs], by rw [hvfs], by rw [findInfNumber, hmatch]⟩

theorem resolves_second (h : s.user 0 = some u) (hother : ¬ u.tag.val <+: name)
    (h' : s.user 1 = some u') (hname : u'.tag.val <+: name) : Resolves s 1 u' name := by
  have hcmp := (strncmp_eq_zero u.tag.property).not.mpr hother
  have hcmp' := (strncmp_eq_zero u'.tag.property).mpr hname
  have hvfs : findVfsNumber s name =
      ⟨u'.vfsTypeId, prefixLenOf name u'.tag.val.length, some 1⟩ := by
    change findVfsFrom s name [0, 1] (-1) = _
    rw [findVfsFrom, h]
    dsimp only
    rw [if_neg hcmp, findVfsFrom, h']
    exact if_pos hcmp'
  have hmatch : matchUser s name = some 1 := by
    change List.find? _ [0, 1, 2, 3] = _
    rw [List.find?_cons_of_neg]
    · simp [h', hcmp']
    · simp [h, hcmp]
  exact ⟨by rw [hvfs], by rw [hvfs], by rw [findInfNumber, hmatch]⟩

theorem findVfsNumber_userId (h : (findVfsNumber s name).userId = some i) :
    i = 0 ∨ (i = 1 ∧ ∃ u, s.user 0 = some u ∧ ¬ u.tag.val <+: name) := by
  change (findVfsFrom s name [0, 1] (-1)).userId = some i at h
  rw [findVfsFrom] at h
  cases h0 : s.user 0 with
  | none =>
    rw [h0] at h
    cases h
  | some u =>
    rw [h0] at h
    dsimp only at h
    by_cases hcmp : strncmp name u.tag u.tag.val.length = 0
    · rw [if_pos hcmp] at h
      exact .inl (Option.some.inj h).symm
    rw [if_neg hcmp, findVfsFrom] at h
    refine .inr ⟨?_, u, rfl, (strncmp_eq_zero u.tag.property).not.mp hcmp⟩
    cases h1 : s.user 1 with
    | none =>
      rw [h1] at h
      cases h
    | some u' =>
      rw [h1] at h
      dsimp only at h
      by_cases hcmp' : strncmp name u'.tag u'.tag.val.length = 0
      · rw [if_pos hcmp'] at h
        exact (Option.some.inj h).symm
      · rw [if_neg hcmp'] at h
        cases h

/-- The table is filled from the front with at most two entries, and the first does
    not shadow the second. -/
structure Compact (s : VfsDrv) : Prop where
  upper : ∀ i, VFS_FS_MAX ≤ i.val → s.user i = none
  second : ∀ u', s.user 1 = some u' → ∃ u, s.user 0 = some u ∧ ¬ Shadows u.tag u'.tag

theorem allResolve_iff : AllResolve s ↔ Compact s := by
  constructor
  · intro hall
    have hfound : ∀ i u, s.user i = some u → ∀ name : CStr, Names u.tag name →
        i = 0 ∨ (i = 1 ∧ ∃ u, s.user 0 = some u ∧ ¬ u.tag.val <+: name) :=
      fun i u hu name hname => findVfsNumber_userId (hall i u hu name hname).userId
    have hdir : ∀ u : UserConfig, ∃ name : CStr, Names u.tag name := fun u =>
      ⟨⟨u.tag.val ++ [0x2F], by simpa using u.tag.property⟩, 0x2F, [], rfl, rfl⟩
    constructor
    · intro i hi
      cases hu : s.user i with
      | none => rfl
      | some u =>
        obtain ⟨name, hname⟩ := hdir u
        rcases hfound i u hu name hname with rfl | ⟨rfl, _⟩ <;> exact absurd hi (by decide)
    · intro u' hu'
      obtain ⟨name, hname⟩ := hdir u'
      rcases hfound 1 u' hu' name hname with hzero | ⟨_, u, hu, _⟩
      · exact absurd hzero (by decide)
      refine ⟨u, hu, fun hshadows => ?_⟩
      obtain ⟨name, hname, hmatch⟩ := names_of_shadows hshadows
      rcases hfound 1 u' hu' name hname with hzero | ⟨_, v, hv, hno⟩
      · exact absurd hzero (by decide)
      · rw [hu] at hv
        cases hv
        exact hno hmatch
  · intro hcompact i u hu name hname
    have htag : u.tag.val <+: name := by
      obtain ⟨sep, rest, _, heq⟩ := hname
      exact ⟨sep :: rest, heq.symm⟩
    by_cases hi : VFS_FS_MAX ≤ i.val
    · rw [hcompact.upper i hi] at hu
      cases hu
    have hcases : i = 0 ∨ i = 1 := by
      have : i.val < 2 := not_le.mp hi
      rcases (by omega : i.val = 0 ∨ i.val = 1) with h | h
      · exact .inl (Fin.ext h)
      · exact .inr (Fin.ext h)
    rcases hcases with rfl | rfl
    · exact resolves_first hu htag
    · obtain ⟨u0, hu0, hno⟩ := hcompact.second u hu
      exact resolves_second hu0 (fun hmatch => hno (shadows_of_names hname hmatch)) hu htag

end

/-! ### Calls that keep every prefix reachable -/

/-- The call enters its prefix in entry `slot`. -/
structure Stores (fatfsIncluded : Bool) (s : VfsDrv) (call : RegisterCall)
    (slot : Fin VFS_USER_REGION_MAX) : Prop where
  supported : call.supported = true
  fresh : findInfNumber s call.tag ≠ 0
  driver : 0 ≤ (driverFor fatfsIncluded s call.vfsType).2
  idle : idleUser s = some slot
  mounted : call.mountRet = 0

/-- A new prefix goes to one of the first two entries and is not shadowed there; a
    prefix is taken out from behind only. -/
def StepOk : VfsOp → Prop
  | .register call => ∀ slot, Stores fatfsIncluded s call slot →
      slot.val < VFS_FS_MAX ∧ ∀ u, slot = 1 → s.user 0 = some u → ¬ Shadows u.tag call.tag
  | .unregister tag _ => ∀ slot, matchUser s tag = some slot → ∀ j, slot < j → s.user j = none

section Steps

variable {fatfsIncluded : Bool} {s : VfsDrv}

theorem driverFor_user (vfsType : Int) : (driverFor fatfsIncluded s vfsType).1.user = s.user := by
  unfold driverFor vfsRegister
  dsimp only
  split_ifs <;> rfl

theorem idleUser_congr (h : s'.user = s.user) : idleUser s' = idleUser s := by
  rw [idleUser, idleUser, h]

theorem idleUser_eq_some (h : idleUser s = some slot) :
    s.user slot = none ∧ (slot = 1 → ∃ u, s.user 0 = some u) := by
  change List.find? _ [0, 1, 2, 3] = some slot at h
  have hfree := List.find?_some h
  refine ⟨Option.isNone_iff_eq_none.mp hfree, ?_⟩
  rintro rfl
  cases h0 : s.user 0 with
  | some u => exact ⟨u, rfl⟩
  | none =>
    rw [List.find?_cons_of_pos (by rw [h0]; rfl)] at h
    cases h

theorem register_cases (call : RegisterCall) :
    (∃ slot u, Stores fatfsIncluded s call slot ∧ u.tag = call.tag ∧
      (vfsUserRegister fatfsIncluded s call).1.user = update s.user slot (some u)) ∨
    ((∀ slot, ¬ Stores fatfsIncluded s call slot) ∧
      (vfsUserRegister fatfsIncluded s call).1.user = s.user ∧
      ((vfsUserRegister fatfsIncluded s call).2 = 0 →
        call.supported = true ∧ findInfNumber s call.tag = 0)) := by
  have huser := @driverFor_user fatfsIncluded s call.vfsType
  unfold vfsUserRegister
  by_cases hsupported : call.supported = false
  · rw [if_pos hsupported]
    exact .inr ⟨fun _ h => Bool.noConfusion (h.supported.symm.trans hsupported), rfl, nofun⟩
  rw [if_neg hsupported]
  have hsupported' := Bool.not_eq_false _ ▸ hsupported
  by_cases hfresh : findInfNumber s call.tag = 0
  · rw [if_pos hfresh]
    exact .inr ⟨fun _ h => h.fresh hfresh, rfl, fun _ => ⟨hsupported', hfresh⟩⟩
  rw [if_neg hfresh]
  dsimp only
  by_cases hdriver : (driverFor fatfsIncluded s call.vfsType).2 < 0
  · rw [if_pos hdriver]
    exact .inr ⟨fun _ h => absurd h.driver (by omega), huser, nofun⟩
  rw [if_neg hdriver, idleUser_congr huser]
  cases hidle : idleUser s with
  | none => exact .inr ⟨fun _ h => Option.some_ne_none _ (h.idle.symm.trans hidle), huser, nofun⟩
  | some slot =>
    dsimp only
    by_cases hmount : call.mountRet ≠ 0
    · rw [if_pos hmount]
      exact .inr ⟨fun _ h => hmount h.mounted, huser, fun hret => absurd hret hmount⟩
    · rw [if_neg hmount, huser]
      exact .inl ⟨slot, _, ⟨hsupported', hfresh, Int.not_lt.mp hdriver, hidle, not_not.mp hmount⟩,
        rfl, rfl⟩

theorem Compact.congr (h : Compact s) (huser : s'.user = s.user) : Compact s' :=
  ⟨fun i hi => huser ▸ h.upper i hi, fun u hu => huser ▸ h.second u (huser ▸ hu)⟩

theorem compact_register (hcompact : Compact s) :
    Compact (vfsUserRegister fatfsIncluded s call).1 ↔ StepOk fatfsIncluded s (.register call) := by
  rcases @register_cases fatfsIncluded s call with ⟨slot, u, hstores, htag, huser⟩ | ⟨hno, huser, _⟩
  · obtain ⟨hfree, hbefore⟩ := idleUser_eq_some hstores.idle
    constructor
    · intro hnew slot' hstores'
      cases Option.some.inj (hstores.idle.symm.trans hstores'.idle)
      constructor
      · by_contra hlarge
        have hempty := hnew.upper slot (not_lt.mp hlarge)
        rw [huser, update_self] at hempty
        cases hempty
      · rintro u0 rfl hu0
        obtain ⟨v, hv, hshadow⟩ := hnew.second u (by rw [huser, update_self])
        rw [huser, update_of_ne (by decide), hu0] at hv
        cases hv
        rwa [htag] at hshadow
    · intro hok
      obtain ⟨hsmall, hshadow⟩ := hok slot hstores
      constructor
      · intro i hi
        rw [huser, update_of_ne (fun h => by rw [h] at hi; omega)]
        exact hcompact.upper i hi
      · intro u' hu'
        rw [huser] at hu' ⊢
        by_cases hslot : slot = 1
        · subst hslot
          cases hu'
          obtain ⟨u0, hu0⟩ := hbefore rfl
          refine ⟨u0, ?_, htag ▸ hshadow u0 rfl hu0⟩
          rw [update_of_ne (by decide), hu0]
        -- the first entry was free, so the second was too
        rw [update_of_ne (fun h => hslot h.symm)] at hu'
        obtain ⟨v, hv, _⟩ := hcompact.second u' hu'
        have hzero : slot = 0 := by
          have hne : slot.val ≠ 1 := fun h => hslot (Fin.ext h)
          have hlt : slot.val < 2 := hsmall
          exact Fin.ext (show slot.val = 0 by omega)
        rw [hzero, hv] at hfree
        cases hfree
  · exact ⟨fun _ slot hstores => absurd hstores (hno slot), fun _ => hcompact.congr huser⟩

theorem compact_unregister (hcompact : Compact s) :
    Compact (vfsUserUnregister s tag unmountRet).1 ↔
      StepOk fatfsIncluded s (.unregister tag unmountRet) := by
  cases hmatch : matchUser s tag with
  | none => simp [vfsUserUnregister, StepOk, hmatch, hcompact]
  | some slot =>
    simp only [vfsUserUnregister, StepOk, hmatch]
    have hupper : ∀ i, VFS_FS_MAX ≤ i.val → update s.user slot none i = none := by
      intro i hi
      by_cases heq : i = slot
      · rw [heq, update_self]
      · rw [update_of_ne heq]
        exact hcompact.upper i hi
    constructor
    · rintro hnew slot' hslot j hj
      cases hslot
      by_cases hlarge : VFS_FS_MAX ≤ j.val
      · exact hcompact.upper j hlarge
      -- the entry behind the cleared one would be the second
      have hslot0 : slot = 0 :=
        Fin.ext (show slot.val = 0 by simp only [VFS_FS_MAX] at hlarge; omega)
      have hj1 : j = 1 := Fin.ext (show j.val = 1 by simp only [VFS_FS_MAX] at hlarge; omega)
      subst hslot0 hj1
      cases hu1 : s.user 1 with
      | none => rfl
      | some u' =>
        obtain ⟨v, hv, _⟩ := hnew.second u' hu1
        cases hv
    · intro hlast
      refine ⟨hupper, fun u' hu' => ?_⟩
      dsimp only at hu' ⊢
      by_cases hslot : slot = 1
      · rw [hslot] at hu'
        cases hu'
      rw [update_of_ne (fun h => hslot h.symm)] at hu'
      obtain ⟨v, hv, hshadow⟩ := hcompact.second u' hu'
      refine ⟨v, ?_, hshadow⟩
      by_cases hzero : slot = 0
      · rw [hlast slot rfl 1 (by rw [hzero]; decide)] at hu'
        cases hu'
      · rw [update_of_ne (fun h => hzero h.symm)]
        exact hv

end Steps

/-- **Which histories keep every prefix reachable.** Exactly those in which each call keeps to the
    first two entries, from the front, without shadowing. -/
theorem registered_prefixes_resolve_iff (ops : List VfsOp) :
    Throughout (vfsStep fatfsIncluded) AllResolve vfsInit ops ↔
      Along (vfsStep fatfsIncluded) (StepOk fatfsIncluded) vfsInit ops := by
  have hstart : Compact vfsInit := ⟨fun _ _ => rfl, fun _ h => (nomatch h)⟩
  apply throughout_iff_along
  · intro s op hall
    rw [allResolve_iff] at hall ⊢
    cases op with
    | register call => exact compact_register hall
    | unregister tag unmountRet => exact compact_unregister hall
  · exact allResolve_iff.mpr hstart

/-- A registration on the main flash that mounts. -/
def registerCall (tag : CStr) (vfsType : Int) : VfsOp := .register ⟨tag, vfsType, 0, 0, 0, 0⟩

/-- Registrations of "vfs", "fat1" and "sd". -/
def threeRegistrations : List VfsOp :=
  [registerCall ⟨[0x76, 0x66, 0x73], by decide⟩ VFS_LITTLEFS,
    registerCall ⟨[0x66, 0x61, 0x74, 0x31], by decide⟩ VFS_FATFS,
    registerCall ⟨[0x73, 0x64], by decide⟩ VFS_FATFS]

/-- The third prefix is registered and never found. -/
theorem third_prefix_unresolved :
    ((threeRegistrations.foldl (vfsStep true) vfsInit).user 2).isSome = true ∧
      ¬ Throughout (vfsStep true) AllResolve vfsInit threeRegistrations := by
  have hsome : ((threeRegistrations.foldl (vfsStep true) vfsInit).user 2).isSome = true := by
    decide +kernel
  refine ⟨hsome, fun hthroughout => ?_⟩
  have hcompact := allResolve_iff.mp hthroughout.last
  rw [hcompact.upper 2 (by decide)] at hsome
  cases hsome

/-! ### Prefixes that are registered once -/

def Registered (tag : CStr) : Prop := ∃ i u, s.user i = some u ∧ u.tag = tag

/-- The tags of the table are pairwise distinct. -/
def DistinctTags : Prop :=
  ∀ i j u v, s.user i = some u → s.user j = some v → u.tag = v.tag → i = j

/-- Registering a prefix again changes nothing and succeeds. -/
def RegistersOnce : VfsOp → Prop
  | .register call => Registered s call.tag → vfsUserRegister fatfsIncluded s call = (s, 0)
  | .unregister .. => True

/-- A prefix that is registered again is recognised: the call is supported, and the prefix
    starts with the tag of the first entry. -/
def Recognised : VfsOp → Prop
  | .register call => Registered s call.tag →
      call.supported = true ∧ ∃ u, s.user 0 = some u ∧ u.tag.val <+: call.tag
  | .unregister .. => True

section Once

variable {fatfsIncluded : Bool} {s : VfsDrv}

theorem findInfNumber_eq_zero :
    findInfNumber s tag = 0 ↔ ∃ u, s.user 0 = some u ∧ u.tag.val <+: tag := by
  constructor
  · intro h
    unfold findInfNumber at h
    split at h
    · rename_i slot hmatch
      have hzero : slot = 0 := Fin.ext (Int.ofNat_eq_zero.mp h)
      subst hzero
      have hsame := List.find?_some hmatch
      cases hu : s.user 0 with
      | none => simp [hu] at hsame
      | some u => exact ⟨u, rfl, (strncmp_eq_zero u.tag.property).mp (by simpa [hu] using hsame)⟩
    · cases h
  · rintro ⟨u, hu, hname⟩
    exact (resolves_first hu hname).inf

theorem registersOnce_iff : RegistersOnce fatfsIncluded s op ↔ Recognised s op := by
  cases op with
  | unregister => exact Iff.rfl
  | register call =>
    refine imp_congr_right fun _ => ?_
    rw [← findInfNumber_eq_zero]
    constructor
    · intro hsame
      rcases @register_cases fatfsIncluded s call with ⟨slot, u, hstores, _, huser⟩ | ⟨_, _, hret⟩
      · have hfree := (idleUser_eq_some hstores.idle).1
        rw [hsame] at huser
        rw [show s.user = _ from huser, update_self] at hfree
        cases hfree
      · exact hret (by rw [hsame])
    · rintro ⟨hsupported, hfound⟩
      rw [vfsUserRegister, if_neg (by rw [hsupported]; decide), if_pos hfound]

theorem DistinctTags.step (h : DistinctTags s) (hop : Recognised s op) :
    DistinctTags (vfsStep fatfsIncluded s op) := by
  cases op with
  | register call =>
    rcases @register_cases fatfsIncluded s call with ⟨slot, u, hstores, htag, huser⟩ | ⟨_, huser, _⟩
    · -- the prefix is new, since a registered one would have been recognised
      have hnew : ¬ Registered s call.tag := fun hreg =>
        hstores.fresh (findInfNumber_eq_zero.mpr (hop hreg).2)
      intro i j v v' hi hj heq
      rw [show (vfsStep fatfsIncluded s (.register call)).user = _ from huser] at hi hj
      by_cases hi' : i = slot
      · subst hi'
        rw [update_self] at hi
        cases hi
        by_contra hne
        rw [update_of_ne (Ne.symm hne)] at hj
        exact hnew ⟨j, v', hj, heq ▸ htag⟩
      rw [update_of_ne hi'] at hi
      by_cases hj' : j = slot
      · subst hj'
        rw [update_self] at hj
        cases hj
        exact absurd ⟨i, v, hi, heq.trans htag⟩ hnew
      · rw [update_of_ne hj'] at hj
        exact h i j v v' hi hj heq
    · intro i j v v' hi hj
      rw [show (vfsStep fatfsIncluded s (.register call)).user = _ from huser] at hi hj
      exact h i j v v' hi hj
  | unregister tag unmountRet =>
    have hold : ∀ i v, (vfsStep fatfsIncluded s (.unregister tag unmountRet)).user i = some v →
        s.user i = some v := by
      intro i v hi
      rw [vfsStep, vfsUserUnregister] at hi
      split at hi
      · rename_i slot _
        by_cases heq : i = slot
        · simp [heq] at hi
        · simpa [update_of_ne heq] using hi
      · exact hi
    exact fun i j v v' hi hj => h i j v v' (hold i v hi) (hold j v' hj)

end Once

/-- **When prefixes are registered once.** The tags stay distinct, and a repeated registration
    changes nothing, exactly when each repeated prefix of the run is recognised. -/
theorem registered_once_iff (ops : List VfsOp) :
    Throughout (vfsStep fatfsIncluded) DistinctTags vfsInit ops ∧
        Along (vfsStep fatfsIncluded) (RegistersOnce fatfsIncluded) vfsInit ops ↔
      Along (vfsStep fatfsIncluded) Recognised vfsInit ops := by
  constructor
  · rintro ⟨_, honce⟩
    exact honce.mono fun _ op => (registersOnce_iff).mp
  · intro hrec
    refine ⟨hrec.throughout (fun _ _ hs hop => hs.step hop) nofun, ?_⟩
    exact hrec.mono fun _ op => (registersOnce_iff).mpr

/-- "vfs", "fat1" and "fat1" again. -/
theorem second_prefix_twice :
    ¬ Throughout (vfsStep true) DistinctTags vfsInit (threeRegistrations.take 2 ++
      [registerCall ⟨[0x66, 0x61, 0x74, 0x31], by decide⟩ VFS_FATFS]) := by
  intro h
  have hsame := h.last 1 2 _ _ rfl rfl rfl
  exact absurd hsame (by decide)

end AmebaRtos.FileSystem
