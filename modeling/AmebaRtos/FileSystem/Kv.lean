import Mathlib.Data.List.AList
import AmebaRtos.FileSystem.Vfs
import AmebaRtos.Lib.FileBytes

/-!
# The key-value store

`kv.c` keeps the value of a key in a file of the directory `KV`. The path is printed into a buffer
of `MAX_KEY_LENGTH + 2` bytes, which the prefix, the directory and a key of the allowed length can
exceed; what does not fit is cut off. Behind the path, `vfs_wrap.c` removes the prefix and hands
the rest to littlefs, here a finite map from names to contents. A name that ends in a separator is
the directory itself.
-/

namespace AmebaRtos.FileSystem

open Lib List

def MAX_KEY_LENGTH : Nat := 256
def VFS_PATH_MAX : Nat := 256
def LFS_ERR_NOENT : Int := -2
def LFS_ERR_NOTEMPTY : Int := -39

abbrev Files := AList fun _ : List UInt8 => List UInt8

structure Kv where
  vfs : VfsDrv
  kvInitDone : Int
  tag : Option CStr
  dir : Bool
  -- what `stat` reports as the size of a directory
  dirSize : Int
  files : Files

/-! ### Paths -/

/-- `DiagSnPrintf` into a buffer of `size` bytes. -/
def diagSnPrintf (size : Nat) (text : CStr) : CStr :=
  ⟨text.val.take (size - 1), fun h => text.property (mem_of_mem_take h)⟩

variable (tag : CStr) (kv : Kv) (key : CStr)

/-- The text `%s:KV/%s`. -/
def keyText : CStr :=
  ⟨tag.val ++ [0x3A, 0x4B, 0x56, 0x2F] ++ key.val, by
    simp only [mem_append, not_or]
    exact ⟨⟨tag.property, by decide⟩, key.property⟩⟩

def keyPath : Option CStr :=
  if kv.kvInitDone ≠ 1 then none
  else if key.val.length > MAX_KEY_LENGTH - 3 then none
  else kv.tag.map fun tag => diagSnPrintf (MAX_KEY_LENGTH + 2) (keyText tag key)

theorem userRegions_pos : 0 < VFS_USER_REGION_MAX := by decide

/-- The name that reaches littlefs, in a buffer of `size` bytes; writing needs a file
    system that was not registered read-only. -/
def lfsName (vfs : VfsDrv) (path : CStr) (size : Nat) (write : Bool) : Option (List UInt8) :=
  let found := findVfsNumber vfs path
  if found.ret < 0 then none
  else
    match vfs.user (found.userId.getD ⟨0, userRegions_pos⟩) with
    | none => none
    | some u =>
      if write && u.vfsRoFlag != 0 then none
      else some ((path.val.drop (found.prefixLen.getD 0)).take (size - 1))

/-- The name that `fopen` opens. -/
def fopenName (write : Bool) : Option (List UInt8) :=
  (keyPath kv key).bind fun path => lfsName kv.vfs path (VFS_PATH_MAX + 1) write

/-- The name for `remove` and `stat`. -/
def statName (write : Bool) : Option (List UInt8) :=
  (keyPath kv key).bind fun path => lfsName kv.vfs path VFS_PATH_MAX write

def isDirName (name : List UInt8) : Bool := name.isEmpty || name.getLast? == some 0x2F

/-! ### The functions of the store -/

def openForWrite : Option (List UInt8) :=
  (fopenName kv key true).bind fun name =>
    if isDirName name || !kv.dir then none else some name

/-- `rt_kv_set`; `written` is what `fwrite` returns. -/
def rtKvSet (val : List UInt8) (written : Int) : Kv × Int :=
  match openForWrite kv key with
  | none => (kv, -1)
  | some name => ({ kv with files := kv.files.insert name (val.take written.toNat) }, written)

def rtKvSetOffset (val : List UInt8) (offset written : Int) : Kv × Int :=
  match openForWrite kv key with
  | none => (kv, -1)
  | some name =>
    let old := (kv.files.lookup name).getD []
    ({ kv with
        files := kv.files.insert name (writeAt old offset.toNat (val.take written.toNat)) },
      written)

/-- `rt_kv_delete`. Removing the directory works when it is empty. -/
def rtKvDelete : Kv × Int :=
  match statName kv key true with
  | none => (kv, -1)
  | some name =>
    if isDirName name then
      if !kv.dir then (kv, LFS_ERR_NOENT)
      else if kv.files.keys = [] then ({ kv with dir := false }, 0)
      else (kv, LFS_ERR_NOTEMPTY)
    else if name ∈ kv.files then ({ kv with files := kv.files.erase name }, 0)
    else (kv, LFS_ERR_NOENT)

def openForRead : Option (List UInt8) :=
  (fopenName kv key false).bind fun name =>
    if isDirName name then none else kv.files.lookup name

/-- `rt_kv_get_offset`: the result and the bytes read. -/
def rtKvGetOffset (len : Nat) (offset : Int) : Int × List UInt8 :=
  match openForRead kv key with
  | none => (-1, [])
  | some content =>
    let bytes := (content.drop offset.toNat).take len
    (bytes.length, bytes)

def rtKvGet (len : Nat) : Int × List UInt8 :=
  match openForRead kv key with
  | none => (-1, [])
  | some content => ((content.take len).length, content.take len)

def rtKvSize : Int :=
  match statName kv key false with
  | none => -1
  | some name =>
    if isDirName name then if kv.dir then kv.dirSize else -1
    else
      match kv.files.lookup name with
      | none => -1
      | some content => content.length

/-! ### Keys and their files -/

/-- A key that `rt_kv_set` accepts and that is a single path component. -/
structure Key where
  text : CStr
  short : text.val.length ≤ MAX_KEY_LENGTH - 3
  noSlash : 0x2F ∉ text.val
  noDots : text.val ≠ [0x2E] ∧ text.val ≠ [0x2E, 0x2E]

inductive KvWrite where
  | set (val : List UInt8) (written : Int)
  | setOffset (val : List UInt8) (offset written : Int)
  | delete

def KvWrite.apply (w : KvWrite) (kv : Kv) (key : CStr) : Kv :=
  match w with
  | .set val written => (rtKvSet kv key val written).1
  | .setOffset val offset written => (rtKvSetOffset kv key val offset written).1
  | .delete => (rtKvDelete kv key).1

/-- The store on a littlefs that is registered under `tag` for the first region and
    was initialised, with any files in it. -/
def mountedKv (dir : Bool) (dirSize : Int) (files : Files) : Kv where
  vfs := (vfsUserRegister true vfsInit ⟨tag, VFS_LITTLEFS, 0, 0, 0, 0⟩).1
  kvInitDone := 1
  tag := some tag
  dir := dir
  dirSize := dirSize
  files := files

/-- Changing one key never changes what is read for the other. -/
def Isolated (key key' : Key) : Prop :=
  ∀ (dir : Bool) (dirSize : Int) (files : Files) (w : KvWrite),
    let kv := mountedKv tag dir dirSize files
    let kv' := w.apply kv key.text
    (∀ len, rtKvGet kv' key'.text len = rtKvGet kv key'.text len) ∧
    (∀ len offset, rtKvGetOffset kv' key'.text len offset = rtKvGetOffset kv key'.text len offset) ∧
    rtKvSize kv' key'.text = rtKvSize kv key'.text

/-- The part of a key that fits into the path. -/
def keyRoom : Nat := MAX_KEY_LENGTH - 3 - tag.val.length

def kvName (key : Key) : List UInt8 :=
  [0x4B, 0x56, 0x2F] ++ key.text.val.take (keyRoom tag)

/-- The store as `vfs_kv_init` leaves it, whatever its files are. -/
structure Mounted (tag : CStr) (kv : Kv) : Prop where
  user : kv.vfs.user 0 = some ⟨VFS_LITTLEFS, 0, 0, 0, 0, tag⟩
  init : kv.kvInitDone = 1
  tag : kv.tag = some tag

theorem mountedKv_mounted (dir : Bool) (dirSize : Int) (files : Files) :
    Mounted tag (mountedKv tag dir dirSize files) :=
  ⟨rfl, rfl, rfl⟩

section Names

variable {tag : CStr} {kv : Kv} {key : Key}

theorem lfsName_eq (huser : vfs.user 0 = some ⟨VFS_LITTLEFS, 0, 0, 0, 0, tag⟩)
    (hpath : path.val = tag.val ++ 0x3A :: 0x4B :: rest) :
    lfsName vfs path size write = some ((0x4B :: rest).take (size - 1)) := by
  have hfound := @findVfsNumber_first vfs path _ huser ⟨_, hpath.symm⟩
  have hlen : prefixLenOf path tag.val.length = some (tag.val.length + 1) := by
    rw [prefixLenOf, hpath]
    simp [isSeparator]
  have hdrop : path.val.drop (tag.val.length + 1) = 0x4B :: rest := by
    rw [hpath, ← drop_drop, drop_left]
    rfl
  rw [lfsName, hfound]
  simp [huser, hlen, hdrop]

theorem keyPath_mounted (hm : Mounted tag kv) (hroom : tag.val.length < MAX_KEY_LENGTH - 3) :
    ∃ path : CStr, keyPath kv key.text = some path ∧
      path.val = tag.val ++ 0x3A :: kvName tag key := by
  refine ⟨diagSnPrintf (MAX_KEY_LENGTH + 2) (keyText tag key.text), ?_, ?_⟩
  · rw [keyPath, if_neg (not_not_intro hm.init), if_neg (not_lt.mpr key.short), hm.tag]
    rfl
  · have hcount : MAX_KEY_LENGTH + 2 - 1 = tag.val.length + (keyRoom tag + 4) := by
      simp only [keyRoom] at hroom ⊢
      omega
    simp only [diagSnPrintf, keyText, hcount, append_assoc]
    rw [take_length_add_append]
    rfl

theorem length_kvName_le (hpos : tag.val ≠ []) : (kvName tag key).length ≤ VFS_PATH_MAX - 1 := by
  have hlen := length_pos_iff.mpr hpos
  simp only [kvName, keyRoom, length_append, length_take, length_cons,
    length_nil, VFS_PATH_MAX, MAX_KEY_LENGTH]
  omega

section

variable (hm : Mounted tag kv) (hpos : tag.val ≠ []) (hroom : tag.val.length < MAX_KEY_LENGTH - 3)
include hm hpos hroom

theorem fopenName_mounted : fopenName kv key.text write = some (kvName tag key) := by
  obtain ⟨path, hpath, hval⟩ := keyPath_mounted hm hroom
  have hfits := @length_kvName_le tag key hpos
  rw [fopenName, hpath, Option.bind_some, lfsName_eq hm.user hval]
  congr 1
  exact take_of_length_le (Nat.le_succ_of_le hfits)

theorem statName_mounted : statName kv key.text write = some (kvName tag key) := by
  obtain ⟨path, hpath, hval⟩ := keyPath_mounted hm hroom
  rw [statName, hpath, Option.bind_some, lfsName_eq hm.user hval]
  congr 1
  exact take_of_length_le (length_kvName_le hpos)

end

theorem isDirName_kvName (hroom : tag.val.length < MAX_KEY_LENGTH - 3) (hkey : key.text.val ≠ []) :
    isDirName (kvName tag key) = false := by
  have hne : key.text.val.take (keyRoom tag) ≠ [] := by
    intro hnil
    rcases take_eq_nil_iff.mp hnil with hzero | hnil
    · simp only [keyRoom] at hzero
      omega
    · exact hkey hnil
  have hlast := getLast_mem hne
  rw [isDirName, kvName, List.getLast?_append_of_ne_nil _ hne, List.getLast?_eq_some_getLast hne]
  have hslash : (key.text.val.take (keyRoom tag)).getLast hne ≠ 0x2F := by
    intro h
    rw [h] at hlast
    exact key.noSlash (mem_of_mem_take hlast)
  simp [hslash]

end Names

/-! ### Isolation -/

section

variable {tag : CStr} {kv kv' : Kv} {key key' : Key}

structure ChangesOnly (tag : CStr) (key : Key) (kv kv' : Kv) : Prop where
  mounted : Mounted tag kv'
  files : ∀ name ≠ kvName tag key, kv'.files.lookup name = kv.files.lookup name
  dir : isDirName (kvName tag key) = false → kv'.dir = kv.dir
  dirSize : kv'.dirSize = kv.dirSize

theorem changesOnly_refl (hm : Mounted tag kv) : ChangesOnly tag key kv kv :=
  ⟨hm, fun _ _ => rfl, fun _ => rfl, rfl⟩

theorem changesOnly_insert (hm : Mounted tag kv) (content : List UInt8) :
    ChangesOnly tag key kv { kv with files := kv.files.insert (kvName tag key) content } :=
  ⟨⟨hm.user, hm.init, hm.tag⟩, fun _ hname => AList.lookup_insert_ne hname, fun _ => rfl, rfl⟩

theorem apply_changesOnly (hm : Mounted tag kv) (hpos : tag.val ≠ [])
    (hroom : tag.val.length < MAX_KEY_LENGTH - 3) (w : KvWrite) :
    ChangesOnly tag key kv (w.apply kv key.text) := by
  have hopen : openForWrite kv key.text = none ∨
      openForWrite kv key.text = some (kvName tag key) := by
    rw [openForWrite, fopenName_mounted hm hpos hroom, Option.bind_some]
    split_ifs
    · exact .inl rfl
    · exact .inr rfl
  cases w with
  | set val written =>
    simp only [KvWrite.apply, rtKvSet]
    rcases hopen with hfail | hname
    · rw [hfail]
      exact changesOnly_refl hm
    · rw [hname]
      exact changesOnly_insert hm _
  | setOffset val offset written =>
    simp only [KvWrite.apply, rtKvSetOffset]
    rcases hopen with hfail | hname
    · rw [hfail]
      exact changesOnly_refl hm
    · rw [hname]
      exact changesOnly_insert hm _
  | delete =>
    simp only [KvWrite.apply, rtKvDelete, statName_mounted hm hpos hroom]
    cases hdir : isDirName (kvName tag key) with
    | true =>
      rw [if_pos rfl]
      split_ifs
      · exact changesOnly_refl hm
      · exact ⟨⟨hm.user, hm.init, hm.tag⟩, fun _ _ => rfl,
          fun h => Bool.noConfusion (hdir.symm.trans h), rfl⟩
      · exact changesOnly_refl hm
    | false =>
      rw [if_neg Bool.false_ne_true]
      split_ifs
      · exact ⟨⟨hm.user, hm.init, hm.tag⟩, fun _ hname => AList.lookup_erase_ne hname,
          fun _ => rfl, rfl⟩
      · exact changesOnly_refl hm

theorem ChangesOnly.reads (h : ChangesOnly tag key kv kv') (hm : Mounted tag kv)
    (hpos : tag.val ≠ []) (hroom : tag.val.length < MAX_KEY_LENGTH - 3)
    (hname : kvName tag key' ≠ kvName tag key) :
    (∀ len, rtKvGet kv' key'.text len = rtKvGet kv key'.text len) ∧
    (∀ len offset, rtKvGetOffset kv' key'.text len offset = rtKvGetOffset kv key'.text len offset) ∧
    rtKvSize kv' key'.text = rtKvSize kv key'.text := by
  have hread : openForRead kv' key'.text = openForRead kv key'.text := by
    rw [openForRead, openForRead, fopenName_mounted hm hpos hroom,
      fopenName_mounted h.mounted hpos hroom, Option.bind_some, Option.bind_some,
      h.files _ hname]
  refine ⟨fun len => ?_, fun len offset => ?_, ?_⟩
  · rw [rtKvGet, rtKvGet, hread]
  · rw [rtKvGetOffset, rtKvGetOffset, hread]
  · rw [rtKvSize, rtKvSize, statName_mounted hm hpos hroom, statName_mounted h.mounted hpos hroom]
    dsimp only
    rw [h.files _ hname, h.dirSize]
    by_cases hempty : key'.text.val = []
    · -- the directory stays: the other key is not empty
      have hother : key.text.val ≠ [] := by
        intro hnil
        apply hname
        rw [kvName, kvName, hempty, hnil]
      rw [h.dir (isDirName_kvName hroom hother)]
    · rw [isDirName_kvName hroom hempty]
      rfl

theorem not_isolated_of_kvName_eq (hpos : tag.val ≠ [])
    (hroom : tag.val.length < MAX_KEY_LENGTH - 3) (hname : kvName tag key = kvName tag key')
    (hkey : key.text.val ≠ []) (hkey' : key'.text.val ≠ []) : ¬ Isolated tag key key' := by
  intro hisolated
  obtain ⟨hget, _⟩ := hisolated true 0 ∅ (.set [1] 1)
  have hget := hget 1
  have hm := mountedKv_mounted tag true 0 ∅
  have hset : KvWrite.apply (.set [1] 1) (mountedKv tag true 0 ∅) key.text =
      mountedKv tag true 0 ((∅ : Files).insert (kvName tag key') [1]) := by
    simp only [KvWrite.apply, rtKvSet, openForWrite, fopenName_mounted hm hpos hroom,
      Option.bind_some, isDirName_kvName hroom hkey]
    rw [← hname]
    rfl
  have hfound : openForRead (mountedKv tag true 0 ((∅ : Files).insert (kvName tag key') [1]))
      key'.text = some [1] := by
    rw [openForRead, fopenName_mounted (mountedKv_mounted _ _ _ _) hpos hroom, Option.bind_some,
      isDirName_kvName hroom hkey']
    exact AList.lookup_insert _
  have hmissing : openForRead (mountedKv tag true 0 ∅) key'.text = none := by
    rw [openForRead, fopenName_mounted hm hpos hroom, Option.bind_some,
      isDirName_kvName hroom hkey']
    exact AList.lookup_empty _
  rw [hset, rtKvGet, rtKvGet, hfound, hmissing] at hget
  cases hget

end

def bytesOf (text : String) : List UInt8 := text.toList.map fun c => UInt8.ofNat c.toNat

/-- The prefixes that the SDK and its examples register. -/
def SDK_PREFIXES : List (List UInt8) :=
  ["vfs", "fat1", "fat", "sdcard", "Second", "usbh", "sd_spi"].map bytesOf

/-- **Two keys are isolated exactly when they differ within the path buffer**, in their first
    `keyRoom tag` bytes. -/
theorem kv_isolated_iff (htag : tag.val ∈ SDK_PREFIXES) (key key' : Key)
    (hne : key.text ≠ key'.text) :
    Isolated tag key key' ↔ key.text.val.take (keyRoom tag) ≠ key'.text.val.take (keyRoom tag) := by
  obtain ⟨hpos, hroom⟩ : tag.val ≠ [] ∧ tag.val.length < MAX_KEY_LENGTH - 3 := by
    revert htag
    generalize tag.val = text
    revert text
    decide +kernel
  constructor
  · intro hisolated hsame
    -- the keys differ, so the part that fits is not all of either
    have hlong : ∀ k k' : Key, k.text ≠ k'.text →
        k.text.val.take (keyRoom tag) = k'.text.val.take (keyRoom tag) → k.text.val ≠ [] := by
      intro k k' hdiffer hequal hnil
      rw [hnil, take_nil] at hequal
      rcases take_eq_nil_iff.mp hequal.symm with hzero | hnil'
      · simp only [keyRoom] at hzero
        omega
      · exact hdiffer (Subtype.ext (hnil.trans hnil'.symm))
    refine not_isolated_of_kvName_eq hpos hroom ?_ (hlong _ _ hne hsame)
      (hlong _ _ hne.symm hsame.symm) hisolated
    rw [kvName, kvName, hsame]
  · intro hdiffer dir dirSize files w
    have hm := mountedKv_mounted tag dir dirSize files
    refine (apply_changesOnly hm hpos hroom w).reads hm hpos hroom fun hname => hdiffer ?_
    exact (append_cancel_left hname).symm

def Key.ofBytes (text : List UInt8)
    (h : 0 ∉ text ∧ text.length ≤ MAX_KEY_LENGTH - 3 ∧ 0x2F ∉ text ∧ text ≠ [0x2E] ∧
      text ≠ [0x2E, 0x2E]) : Key :=
  ⟨⟨text, h.1⟩, h.2.1, h.2.2.1, h.2.2.2⟩

theorem vfsTag_noNul : (0 : UInt8) ∉ [0x76, 0x66, 0x73] := by decide

def vfsTag : CStr := ⟨[0x76, 0x66, 0x73], vfsTag_noNul⟩

def keyA : Key := Key.ofBytes [0x61] (by decide)

def keyB : Key := Key.ofBytes [0x62] (by decide)

theorem letter_keys_isolated : Isolated vfsTag keyA keyB :=
  (kv_isolated_iff vfsTag (by decide +kernel) keyA keyB (by decide)).mpr (by decide)

/-- Two keys of 251 bytes that differ in the last one. -/
def longKeyA : Key := Key.ofBytes (List.replicate 250 0x78 ++ [0x61]) (by decide +kernel)

def longKeyB : Key := Key.ofBytes (List.replicate 250 0x78 ++ [0x62]) (by decide +kernel)

/-- They have one file. -/
theorem long_keys_collide :
    longKeyA.text ≠ longKeyB.text ∧ ¬ Isolated vfsTag longKeyA longKeyB := by
  refine ⟨by decide +kernel, ?_⟩
  apply not_isolated_of_kvName_eq <;> decide +kernel

end AmebaRtos.FileSystem
