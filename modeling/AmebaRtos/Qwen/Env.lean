import Mathlib.Data.List.AList
import AmebaRtos.Lib.CString
import AmebaRtos.Lib.Run

/-!
# Environment variables that survive a reboot

`config.c` of the qwen example: `AT+ENV` sets a variable, and `save_all_env` writes every variable
to a file of its own in the directory `ENV`, from where `load_all_env` reads them back after a
reboot. The environment is newlib's; the file system is a map from the part of the path behind
`vfs:ENV/` to byte strings. A session also carries the last value set for each key.
-/

namespace AmebaRtos.Qwen

open Lib Function List

def MAX_PATH_LEN : Nat := 256
def MAX_ENV_VALUE_LENGTH : Nat := 256

/-- The length of `vfs:ENV/`. -/
def ENV_PATH_LEN : Nat := 8

/-! ### The environment -/

/-- `environ`, split at the `=` that `setenv` puts behind the name. -/
abbrev Environ := List (CStr × CStr)

variable (env : Environ) (name value : CStr)

/-- newlib drops a `=` at the start of a value. -/
def dropEquals : CStr :=
  match value with
  | ⟨0x3D :: rest, h⟩ => ⟨rest, fun hmem => h (.tail _ hmem)⟩
  | value => value

/-- `setenv(name, value, 1)`: a name with a `=` is refused, an existing variable changed in place, a
    new one put at the end. -/
def setenv : Environ :=
  if 0x3D ∈ name.val then env
  else if name ∈ env.map Prod.fst then
    env.map fun e => if e.1 = name then (name, dropEquals value) else e
  else env ++ [(name, dropEquals value)]

def unsetenv : Environ :=
  if 0x3D ∈ name.val then env else env.filter (·.1 ≠ name)

def getenv : Option CStr :=
  if 0x3D ∈ name.val then none else env.lookup name

/-! ### Saving and loading -/

/-- The files below `vfs:ENV/`. No zero byte is ever written to them. -/
abbrev EnvFiles := AList fun _ : CStr => CStr

structure Device where
  environ : Environ
  files : EnvFiles
  -- a terminating zero was written behind one of the fixed buffers
  overrun : Bool

/-- The round of `save_all_env` for one variable. The value ends at a newline; the path
    is cut to its buffer. -/
def saveEnv (d : Device) (e : CStr × CStr) : Device :=
  let value := e.2.before 0x0A
  if e.1.val.length > MAX_PATH_LEN ∨ value.val.length > MAX_ENV_VALUE_LENGTH then d
  else
    { d with
      files := d.files.insert (e.1.take (MAX_PATH_LEN - 1 - ENV_PATH_LEN)) value
      overrun := d.overrun || decide (e.1.val.length = MAX_PATH_LEN) ||
        decide (value.val.length = MAX_ENV_VALUE_LENGTH) }

def saveAllEnv (d : Device) : Device := d.environ.foldl saveEnv d

def isEntry : Bool :=
  decide (0x2F ∉ name.val) && name.val != [0x2E] && name.val != [0x2E, 0x2E]

/-- The round of `load_all_env` for one file. -/
def loadEnv : Environ :=
  if isEntry name && decide (value.val.length < MAX_ENV_VALUE_LENGTH) then setenv env name value
  else env

/-- `load_all_env`, into the empty environment of a reboot. -/
def loadAllEnv (files : EnvFiles) : Environ :=
  files.entries.foldl (fun env f => loadEnv env f.1 f.2) []

/-! ### The command -/

inductive Reply where
  | ok
  | error
deriving DecidableEq, Repr

/-- `at_env_set` with a key and a value. -/
def atEnvSet (d : Device) (key value : CStr) : Device × Reply :=
  if key.val.length = 0 then (d, .error)
  else if key.val.length > MAX_PATH_LEN then (d, .error)
  else if value.val.length > MAX_ENV_VALUE_LENGTH then (d, .error)
  else
    let environ := if value.val.length = 0 then unsetenv d.environ key
      else setenv d.environ key value
    (saveAllEnv { d with environ := environ }, .ok)

structure EnvCmd where
  key : CStr
  value : CStr
  keyLen : 0 < key.val.length ∧ key.val.length ≤ MAX_PATH_LEN
  valueLen : value.val.length ≤ MAX_ENV_VALUE_LENGTH

/-! ### What the user asked for -/

structure Session where
  device : Device
  -- the value of the last set of a key, unless it was empty
  last : CStr → Option CStr

def sessionInit : Session := ⟨⟨[], ∅, false⟩, fun _ => none⟩

def sessionStep (s : Session) (cmd : EnvCmd) : Session where
  device := (atEnvSet s.device cmd.key cmd.value).1
  last := update s.last cmd.key
    (if cmd.value.val.length = 0 then none else some cmd.value)

structure Survives (s : Session) : Prop where
  intact : s.device.overrun = false
  values : ∀ key, getenv (loadAllEnv s.device.files) key = s.last key

structure KeyOk (key : CStr) : Prop where
  fits : key.val.length ≤ MAX_PATH_LEN - 1 - ENV_PATH_LEN
  noEquals : 0x3D ∉ key.val
  isEntry : isEntry key = true

structure ValueOk (value : CStr) : Prop where
  fits : value.val.length < MAX_ENV_VALUE_LENGTH
  oneLine : 0x0A ∉ value.val
  noEquals : value.val.head? ≠ some 0x3D

def CmdOk (s : Session) (cmd : EnvCmd) : Prop :=
  if cmd.value.val.length = 0 then s.last cmd.key = none else KeyOk cmd.key ∧ ValueOk cmd.value

/-! ### Lookups in the environment -/

theorem length_dropEquals_le : (dropEquals value).val.length ≤ value.val.length := by
  unfold dropEquals
  split
  · exact Nat.le_succ _
  · exact le_rfl

variable {value : CStr}

theorem dropEquals_of_length (h : value.val.length ≤ (dropEquals value).val.length) :
    dropEquals value = value := by
  unfold dropEquals at h ⊢
  split at h
  next rest _ => exact absurd h (Nat.not_succ_le_self rest.length)
  · rfl

theorem dropEquals_eq_self : dropEquals value = value ↔ value.val.head? ≠ some 0x3D := by
  unfold dropEquals
  split
  next rest h =>
    refine ⟨fun heq => ?_, fun hhead => absurd rfl hhead⟩
    have hlen : rest.length = rest.length + 1 := congrArg (fun v : CStr => v.val.length) heq
    omega
  next hne =>
    refine ⟨fun _ hhead => ?_, fun _ => rfl⟩
    obtain ⟨rest, hrest⟩ := List.head?_eq_some_iff.mp hhead
    exact hne rest (hrest ▸ value.property) (Subtype.ext hrest)

theorem lookup_cons_eq_ite : (e :: env).lookup k = if k = e.1 then some e.2 else env.lookup k := by
  rw [lookup_cons]
  by_cases hk : k = e.1
  · rw [if_pos hk, beq_iff_eq.mpr hk]
  · rw [if_neg hk, beq_eq_false_iff_ne.mpr hk]

variable {env : Environ}

theorem lookup_eq_none_of_notMem (hk : k ∉ env.map Prod.fst) : env.lookup k = none := by
  rw [lookup_eq_none_iff]
  intro e he
  exact bne_iff_ne.mpr fun heq => hk (heq ▸ mem_map_of_mem he)

theorem lookup_of_mem (hk : k ∈ env.map Prod.fst) : ∃ v, env.lookup k = some v := by
  obtain ⟨e, he, rfl⟩ := mem_map.mp hk
  exact Option.isSome_iff_exists.mp (lookup_isSome_iff.mpr ⟨e, he, beq_self_eq_true _⟩)

theorem mem_of_lookup_eq_some (h : env.lookup k = some v) : (k, v) ∈ env := by
  obtain ⟨front, back, henv, _⟩ := lookup_eq_some_iff.mp h
  rw [henv]
  exact mem_append_right _ (.head _)

theorem lookup_replace : (env.map fun e => if e.1 = name then (name, value) else e).lookup k =
      if k = name then (env.lookup k).map fun _ => value else env.lookup k := by
  induction env with
  | nil => simp
  | cons e rest ih =>
    rw [map_cons, lookup_cons_eq_ite, lookup_cons_eq_ite, ih]
    by_cases he : e.1 = name
    · rw [he]
      by_cases hk : k = name
      · simp [hk]
      · simp [hk]
    rw [if_neg he]
    by_cases hk : k = name
    · simp [hk, Ne.symm he]
    · simp [hk]

theorem keys_replace : (env.map fun e => if e.1 = name then (name, value) else e).map Prod.fst =
      env.map Prod.fst := by
  rw [map_map]
  apply map_congr_left
  intro e _
  by_cases he : e.1 = name
  · simp [he]
  · simp [he]

theorem lookup_setenv {name : CStr} (hname : 0x3D ∉ name.val) :
    (setenv env name value).lookup k =
      if k = name then some (dropEquals value) else env.lookup k := by
  rw [setenv, if_neg hname]
  by_cases hmem : name ∈ env.map Prod.fst
  · rw [if_pos hmem, lookup_replace]
    by_cases hk : k = name
    · obtain ⟨old, hold⟩ := lookup_of_mem hmem
      rw [if_pos hk, if_pos hk, hk, hold, Option.map_some]
    · rw [if_neg hk, if_neg hk]
  · rw [if_neg hmem, lookup_append, lookup_cons_eq_ite, lookup_nil]
    by_cases hk : k = name
    · rw [if_pos hk, if_pos hk, hk, lookup_eq_none_of_notMem hmem, Option.none_or]
    · rw [if_neg hk, if_neg hk, Option.or_none]

/-! ### What a reboot brings back -/

def loaded (name raw : CStr) : Option CStr :=
  if 0x3D ∉ name.val ∧ isEntry name ∧ raw.val.length < MAX_ENV_VALUE_LENGTH then
    some (dropEquals raw)
  else none

theorem lookup_loadEnv : (loadEnv env name raw).lookup k =
      if k = name then (loaded name raw).or (env.lookup k) else env.lookup k := by
  unfold loadEnv
  by_cases hload : isEntry name ∧ raw.val.length < MAX_ENV_VALUE_LENGTH
  · rw [if_pos (by simpa using hload)]
    by_cases hname : 0x3D ∈ name.val
    · have hnone : loaded name raw = none := if_neg fun h => h.1 hname
      rw [setenv, if_pos hname, hnone, Option.none_or, ite_self]
    · have hsome : loaded name raw = some (dropEquals raw) := if_pos ⟨hname, hload⟩
      rw [lookup_setenv hname, hsome, Option.some_or]
  · have hnone : loaded name raw = none := if_neg fun h => hload h.2
    rw [if_neg (by simpa using hload), hnone, Option.none_or, ite_self]

-- Induction on the files, for any environment that the earlier ones left. The names are
-- distinct, so what a file set is not changed by a later one.
theorem lookup_loadFiles {files : List (Sigma fun _ : CStr => CStr)} (hnodup : files.NodupKeys) :
    (files.foldl (fun env f => loadEnv env f.1 f.2) env).lookup k =
      ((files.dlookup k).bind (loaded k)).or (env.lookup k) := by
  induction files generalizing env with
  | nil => rfl
  | cons f rest ih =>
    obtain ⟨name, raw⟩ := f
    obtain ⟨hnew, hrest⟩ := nodupKeys_cons.mp hnodup
    rw [foldl_cons, ih hrest, lookup_loadEnv]
    by_cases hk : k = name
    · rw [hk, if_pos rfl, dlookup_cons_eq, dlookup_eq_none.mpr hnew]
      rfl
    · rw [if_neg hk, dlookup_cons_ne rest ⟨name, raw⟩ hk]

theorem getenv_loadAllEnv : getenv (loadAllEnv files) k = (files.lookup k).bind (loaded k) := by
  have hload : (loadAllEnv files).lookup k = (files.lookup k).bind (loaded k) :=
    (lookup_loadFiles files.nodupKeys).trans Option.or_none
  unfold getenv
  by_cases hname : 0x3D ∈ k.val
  · rw [if_pos hname]
    cases files.lookup k with
    | none => rfl
    | some raw => exact (if_neg fun h => h.1 hname).symm
  · rw [if_neg hname, hload]

/-! ### What is saved -/

def NamesFit (files : EnvFiles) : Prop :=
  ∀ name ∈ files, name.val.length ≤ MAX_PATH_LEN - 1 - ENV_PATH_LEN

structure Saveable (env : Environ) : Prop where
  nodup : (env.map Prod.fst).Nodup
  keys : ∀ e ∈ env, e.1.val.length ≤ MAX_PATH_LEN - 1 - ENV_PATH_LEN
  values : ∀ e ∈ env, e.2.val.length ≤ MAX_ENV_VALUE_LENGTH

theorem length_before_le (s : CStr) (c : UInt8) : (s.before c).val.length ≤ s.val.length :=
  (takeWhile_sublist _).length_le

theorem saveEnv_eq (d : Device) (hkey : e.1.val.length ≤ MAX_PATH_LEN - 1 - ENV_PATH_LEN)
    (hvalue : e.2.val.length ≤ MAX_ENV_VALUE_LENGTH) :
    (saveEnv d e).files = d.files.insert e.1 (e.2.before 0x0A) := by
  have hlen := le_trans (length_before_le e.2 0x0A) hvalue
  have hpath : MAX_PATH_LEN - 1 - ENV_PATH_LEN ≤ MAX_PATH_LEN := by decide
  have htake : e.1.take (MAX_PATH_LEN - 1 - ENV_PATH_LEN) = e.1 :=
    Subtype.ext (take_of_length_le hkey)
  unfold saveEnv
  rw [if_neg (not_or.mpr ⟨not_lt.mpr (hkey.trans hpath), not_lt.mpr hlen⟩)]
  exact congrArg (fun name => d.files.insert name (e.2.before 0x0A)) htake

theorem saveEnv_environ : (saveEnv d e).environ = d.environ := by
  unfold saveEnv
  dsimp only
  split
  · rfl
  · rfl

theorem saveAllEnv_environ : (saveAllEnv d).environ = d.environ := by
  have hrun : ∀ (env : Environ) (d : Device), (env.foldl saveEnv d).environ = d.environ := by
    intro env
    induction env with
    | nil => exact fun _ => rfl
    | cons e rest ih => exact fun d => (ih (saveEnv d e)).trans saveEnv_environ
  exact hrun d.environ d

theorem saveEnv_namesFit (hfit : NamesFit d.files) : NamesFit (saveEnv d e).files := by
  unfold saveEnv
  dsimp only
  split
  · exact hfit
  intro name hname
  rcases AList.mem_insert _ |>.mp hname with rfl | hold
  · exact length_take_le _ _
  · exact hfit name hold

theorem saveAllEnv_namesFit {d : Device} (hfit : NamesFit d.files) :
    NamesFit (saveAllEnv d).files :=
  List.foldlRecOn (motive := fun d => NamesFit d.files) d.environ saveEnv hfit
    fun _ h _ _ => saveEnv_namesFit h

-- Induction on the variables, from any device. Their keys are distinct, so the file of
-- a variable is not written again for a later one.
theorem lookup_saveVars (henv : Saveable env) :
    (env.foldl saveEnv d).files.lookup k =
      ((env.lookup k).map (·.before 0x0A)).or (d.files.lookup k) := by
  induction env generalizing d with
  | nil => rfl
  | cons e rest ih =>
    obtain ⟨hnew, hrest⟩ := nodup_cons.mp henv.nodup
    have hsave := saveEnv_eq d (henv.keys e (.head _)) (henv.values e (.head _))
    have hrest' : Saveable rest :=
      ⟨hrest, fun e he => henv.keys e (.tail _ he),
        fun e he => henv.values e (.tail _ he)⟩
    rw [foldl_cons, ih hrest', hsave, lookup_cons_eq_ite]
    by_cases hk : k = e.1
    · rw [if_pos hk, hk, lookup_eq_none_of_notMem hnew, AList.lookup_insert]
      rfl
    · rw [if_neg hk, AList.lookup_insert_ne hk]

theorem lookup_saveAllEnv {d : Device} (henv : Saveable d.environ) (k : CStr) :
    (saveAllEnv d).files.lookup k =
      ((d.environ.lookup k).map (·.before 0x0A)).or (d.files.lookup k) :=
  lookup_saveVars henv

/-! ### One command -/

structure InStep (s : Session) : Prop where
  intact : s.device.overrun = false
  nodup : (s.device.environ.map Prod.fst).Nodup
  vars : ∀ e ∈ s.device.environ, KeyOk e.1 ∧ ValueOk e.2
  environ : ∀ k, s.device.environ.lookup k = s.last k
  files : ∀ k, s.device.files.lookup k = s.last k

theorem ValueOk.before_eq (h : ValueOk value) : value.before 0x0A = value := by
  apply Subtype.ext
  apply takeWhile_eq_self_iff.mpr
  intro c hc
  exact bne_iff_ne.mpr fun heq => h.oneLine (heq ▸ hc)

theorem loaded_of_ok {key value : CStr} (hkey : KeyOk key) (hvalue : ValueOk value) :
    loaded key value = some value := by
  rw [loaded, if_pos ⟨hkey.noEquals, hkey.isEntry, hvalue.fits⟩,
    dropEquals_eq_self.mpr hvalue.noEquals]

theorem InStep.last_ok (hs : InStep s) {key value : CStr} (hlast : s.last key = some value) :
    KeyOk key ∧ ValueOk value :=
  hs.vars (key, value) (mem_of_lookup_eq_some ((hs.environ key).trans hlast))

theorem InStep.survives (hs : InStep s) : Survives s where
  intact := hs.intact
  values key := by
    rw [getenv_loadAllEnv, hs.files key]
    cases hlast : s.last key with
    | none => rfl
    | some value =>
      obtain ⟨hkey, hvalue⟩ := hs.last_ok hlast
      exact loaded_of_ok hkey hvalue

theorem InStep.saveable (hs : InStep s) : Saveable s.device.environ :=
  ⟨hs.nodup, fun e he => (hs.vars e he).1.fits, fun e he => (hs.vars e he).2.fits.le⟩

theorem ValueOk.saveEnv_overrun (hkey : KeyOk e.1) (hvalue : ValueOk e.2) :
    (saveEnv d e).overrun = d.overrun := by
  have hkeyNe : e.1.val.length ≠ MAX_PATH_LEN :=
    ne_of_lt (hkey.fits.trans_lt (by decide))
  have hvalueNe : (e.2.before 0x0A).val.length ≠ MAX_ENV_VALUE_LENGTH :=
    ne_of_lt ((length_before_le e.2 0x0A).trans_lt hvalue.fits)
  unfold saveEnv
  dsimp only
  split
  · rfl
  · simp [hkeyNe, hvalueNe]

theorem atEnvSet_device (cmd : EnvCmd) : (atEnvSet d cmd.key cmd.value).1 =
      saveAllEnv { d with
        environ := if cmd.value.val.length = 0 then unsetenv d.environ cmd.key
          else setenv d.environ cmd.key cmd.value } := by
  have hkey := cmd.keyLen
  rw [atEnvSet, if_neg (by omega), if_neg (by omega), if_neg (not_lt.mpr cmd.valueLen)]

theorem InStep.save (hs : InStep s) {last : CStr → Option CStr} (hnodup : (env.map Prod.fst).Nodup)
    (hvars : ∀ e ∈ env, KeyOk e.1 ∧ ValueOk e.2) (hlookup : ∀ k, env.lookup k = last k)
    (hkept : ∀ k, last k = none → s.last k = none) :
    InStep ⟨saveAllEnv { s.device with environ := env }, last⟩ where
  intact := by
    refine List.foldlRecOn (motive := fun d : Device => d.overrun = false) env saveEnv hs.intact ?_
    intro d hd e he
    exact (ValueOk.saveEnv_overrun (hvars e he).1 (hvars e he).2).trans hd
  nodup := by rwa [saveAllEnv_environ]
  vars := by rwa [saveAllEnv_environ]
  environ := by rwa [saveAllEnv_environ]
  files k := by
    have hsaveable : Saveable env :=
      ⟨hnodup, fun e he => (hvars e he).1.fits, fun e he => (hvars e he).2.fits.le⟩
    rw [@lookup_saveAllEnv { s.device with environ := env } hsaveable k]
    change ((env.lookup k).map (·.before 0x0A)).or (s.device.files.lookup k) = last k
    rw [hlookup k, hs.files k]
    cases hlast : last k with
    | none => exact hkept k hlast
    | some value =>
      have hvalue := (hvars _ (mem_of_lookup_eq_some ((hlookup k).trans hlast))).2
      rw [Option.map_some, hvalue.before_eq, Option.some_or]

theorem unsetenv_of_lookup_none {name : CStr} (hnone : env.lookup name = none) :
    unsetenv env name = env := by
  unfold unsetenv
  split
  · rfl
  apply filter_eq_self.mpr
  intro e he
  have hne := lookup_eq_none_iff.mp hnone e he
  exact decide_eq_true (Ne.symm (bne_iff_ne.mp hne))

theorem nodup_setenv (name value : CStr) (hnodup : (env.map Prod.fst).Nodup) :
    ((setenv env name value).map Prod.fst).Nodup := by
  unfold setenv
  split
  · exact hnodup
  split
  · rwa [keys_replace]
  next hmem =>
    rw [map_append, nodup_append]
    refine ⟨hnodup, nodup_singleton _, ?_⟩
    intro k hk k' hk' heq
    apply hmem
    have hname : k' = name := mem_singleton.mp hk'
    rwa [heq, hname] at hk

theorem mem_setenv {name value : CStr} (he : e ∈ setenv env name value) :
    e ∈ env ∨ e = (name, dropEquals value) := by
  unfold setenv at he
  split at he
  · exact Or.inl he
  split at he
  · obtain ⟨old, hold, rfl⟩ := mem_map.mp he
    by_cases hname : old.1 = name
    · exact Or.inr (if_pos hname)
    · exact Or.inl (by rwa [if_neg hname])
  · rcases mem_append.mp he with hold | hnew
    · exact Or.inl hold
    · exact Or.inr (mem_singleton.mp hnew)

theorem InStep.step (hs : InStep s) (hcmd : CmdOk s cmd) : InStep (sessionStep s cmd) := by
  unfold CmdOk at hcmd
  unfold sessionStep
  rw [atEnvSet_device]
  by_cases hempty : cmd.value.val.length = 0
  · rw [if_pos hempty] at hcmd
    rw [if_pos hempty, if_pos hempty,
      unsetenv_of_lookup_none ((hs.environ cmd.key).trans hcmd), ← hcmd, update_eq_self]
    exact hs.save hs.nodup hs.vars hs.environ fun _ h => h
  rw [if_neg hempty] at hcmd
  obtain ⟨hkey, hvalue⟩ := hcmd
  have hdrop := dropEquals_eq_self.mpr hvalue.noEquals
  rw [if_neg hempty, if_neg hempty]
  refine hs.save (nodup_setenv _ _ hs.nodup) ?_ ?_ ?_
  · intro e he
    rcases mem_setenv he with hold | rfl
    · exact hs.vars e hold
    · exact ⟨hkey, hdrop.symm ▸ hvalue⟩
  · intro k
    rw [lookup_setenv hkey.noEquals, hdrop, update_apply, hs.environ k]
  · intro k hk
    by_cases heq : k = cmd.key
    · rw [heq, update_self] at hk
      cases hk
    · rwa [update_of_ne heq] at hk

theorem InStep.namesFit (hs : InStep s) : NamesFit s.device.files := by
  intro name hname
  obtain ⟨value, hvalue⟩ := Option.isSome_iff_exists.mp (AList.lookup_isSome.mpr hname)
  exact (hs.last_ok ((hs.files name).symm.trans hvalue)).1.fits

theorem Saveable.sublist {env env' : Environ} (henv : Saveable env) (hsub : env'.Sublist env) :
    Saveable env' :=
  ⟨henv.nodup.sublist (hsub.map Prod.fst), fun e he => henv.keys e (hsub.subset he),
    fun e he => henv.values e (hsub.subset he)⟩

theorem Survives.readBack (hsurv : Survives (sessionStep s cmd)) : ((saveAllEnv { s.device with
        environ := if cmd.value.val.length = 0 then unsetenv s.device.environ cmd.key
          else setenv s.device.environ cmd.key cmd.value }).files.lookup cmd.key).bind
        (loaded cmd.key) =
      if cmd.value.val.length = 0 then none else some cmd.value := by
  have hback := hsurv.values cmd.key
  rw [getenv_loadAllEnv] at hback
  rw [← atEnvSet_device]
  exact hback.trans (update_self _ _ _)

theorem InStep.last_none_of_deleted (hs : InStep s) (hempty : cmd.value.val.length = 0)
    (hsurv : Survives (sessionStep s cmd)) : s.last cmd.key = none := by
  by_contra hsome
  obtain ⟨value, hlast⟩ := Option.ne_none_iff_exists'.mp hsome
  obtain ⟨hkey, hvalue⟩ := hs.last_ok hlast
  have hunset : unsetenv s.device.environ cmd.key = s.device.environ.filter (·.1 ≠ cmd.key) :=
    if_neg hkey.noEquals
  have hsaveable : Saveable (unsetenv s.device.environ cmd.key) :=
    hs.saveable.sublist (hunset ▸ filter_sublist)
  have hgone : (unsetenv s.device.environ cmd.key).lookup cmd.key = none := by
    rw [hunset, lookup_eq_none_iff]
    intro e he
    have hne := of_decide_eq_true (mem_filter.mp he).2
    exact bne_iff_ne.mpr (Ne.symm hne)
  have hback := hsurv.readBack
  rw [if_pos hempty, if_pos hempty,
    @lookup_saveAllEnv { s.device with environ := unsetenv s.device.environ cmd.key } hsaveable,
    hgone, Option.map_none, Option.none_or, hs.files cmd.key, hlast, Option.bind_some,
    loaded_of_ok hkey hvalue] at hback
  exact Option.some_ne_none value hback

theorem loaded_eq_some {name raw value : CStr} (h : loaded name raw = some value) :
    0x3D ∉ name.val ∧ isEntry name ∧ raw.val.length < MAX_ENV_VALUE_LENGTH ∧
      dropEquals raw = value := by
  unfold loaded at h
  split at h
  next hcond => exact ⟨hcond.1, hcond.2.1, hcond.2.2, Option.some.inj h⟩
  · cases h

theorem valueOk_of_readBack
    (hfits : ((dropEquals value).before 0x0A).val.length < MAX_ENV_VALUE_LENGTH)
    (hback : dropEquals ((dropEquals value).before 0x0A) = value) : ValueOk value := by
  have hraw := length_dropEquals_le ((dropEquals value).before 0x0A)
  have hbefore := length_before_le (dropEquals value) 0x0A
  rw [hback] at hraw
  have hvalue : dropEquals value = value := dropEquals_of_length (hraw.trans hbefore)
  have hline : value.before 0x0A = value := by
    rw [hvalue] at hraw
    exact Subtype.ext ((takeWhile_sublist _).eq_of_length_le hraw)
  refine ⟨?_, ?_, dropEquals_eq_self.mp hvalue⟩
  · rwa [hvalue, hline] at hfits
  · intro hmem
    have hall := takeWhile_eq_self_iff.mp (congrArg Subtype.val hline) 0x0A hmem
    exact bne_iff_ne.mp hall rfl

theorem InStep.ok_of_set (hs : InStep s) (hset : cmd.value.val.length ≠ 0)
    (hsurv : Survives (sessionStep s cmd)) : KeyOk cmd.key ∧ ValueOk cmd.value := by
  let env := setenv s.device.environ cmd.key cmd.value
  have hback := hsurv.readBack
  rw [if_neg hset, if_neg hset] at hback
  obtain ⟨raw, hraw, hloaded⟩ := Option.bind_eq_some_iff.mp hback
  obtain ⟨hequals, hentry, hfits, hvalue⟩ := loaded_eq_some hloaded
  have hnames : NamesFit (saveAllEnv { s.device with environ := env }).files :=
    saveAllEnv_namesFit hs.namesFit
  have hkey : KeyOk cmd.key :=
    ⟨hnames _ (AList.lookup_isSome.mp (Option.isSome_of_eq_some hraw)), hequals, hentry⟩
  have hsaveable : Saveable env := by
    refine ⟨nodup_setenv _ _ hs.nodup, ?_, ?_⟩
    · intro e he
      rcases mem_setenv he with hold | rfl
      · exact hs.saveable.keys e hold
      · exact hkey.fits
    · intro e he
      rcases mem_setenv he with hold | rfl
      · exact hs.saveable.values e hold
      · exact (length_dropEquals_le cmd.value).trans cmd.valueLen
  rw [@lookup_saveAllEnv { s.device with environ := env } hsaveable cmd.key,
    lookup_setenv hequals, if_pos rfl] at hraw
  rw [← Option.some.inj hraw] at hfits hvalue
  exact ⟨hkey, valueOk_of_readBack hfits hvalue⟩

theorem InStep.cmdOk (hs : InStep s) (hsurv : Survives (sessionStep s cmd)) : CmdOk s cmd := by
  unfold CmdOk
  by_cases hempty : cmd.value.val.length = 0
  · rw [if_pos hempty]
    exact hs.last_none_of_deleted hempty hsurv
  · rw [if_neg hempty]
    exact hs.ok_of_set hempty hsurv

theorem sessionInit_inStep : InStep sessionInit :=
  ⟨rfl, nodup_nil, fun _ he => absurd he not_mem_nil, fun _ => rfl, fun _ => rfl⟩

/-! ### Whole sessions -/

/-- The values survive a reboot after every command exactly if no variable with a value is deleted,
    and every key and value fits its buffers and is free of separators. -/
theorem values_survive_iff (cmds : List EnvCmd) :
    Throughout sessionStep Survives sessionInit cmds ↔ Along sessionStep CmdOk sessionInit cmds :=
  throughout_iff_along_of_strong (fun _ hs => hs.survives) (fun _ _ hs hcmd => hs.step hcmd)
    (fun _ _ hs hsurv => hs.cmdOk hsurv) sessionInit_inStep

def setA : EnvCmd := ⟨⟨[0x41], by decide⟩, ⟨[0x31], by decide⟩, by decide, by decide⟩
def deleteA : EnvCmd := ⟨⟨[0x41], by decide⟩, ⟨[], by decide⟩, by decide, by decide⟩

/-- `AT+ENV=A,1` and `AT+ENV=A,` are both answered `OK`, and the variable is back after
    the reboot. -/
theorem deleted_variable_returns :
    let s := [setA, deleteA].foldl sessionStep sessionInit
    (atEnvSet sessionInit.device setA.key setA.value).2 = .ok ∧
    (atEnvSet (sessionStep sessionInit setA).device deleteA.key deleteA.value).2 = .ok ∧
    s.last setA.key = none ∧
    getenv (loadAllEnv s.device.files) setA.key = some setA.value := by
  decide +kernel

end AmebaRtos.Qwen
