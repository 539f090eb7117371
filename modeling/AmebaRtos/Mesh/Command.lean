import AmebaRtos.Lib.CString
import AmebaRtos.Ota.Receiving

/-!
# The OTA command and its record

`rmesh_ota_cmd_recv` writes host, port and resource of a command to the record `rmesh_ota_info`,
so that `rmesh_ota_init` can repeat the command after a reset. The resource is also the name of
the version. The record has three fields of 20 bytes, for the installed version, the wanted
version and the host. The strings are copied with their own length and read back up to the next
zero byte.

A copy that passes the end of one field goes on in the next one; one that passes the end of the
record, and a read that finds no zero in it, are undefined.
-/

namespace AmebaRtos.Mesh.Command

open Lib Ota List

def RMESH_OTA_VER_MAX_LEN : Nat := 20
def RMESH_PARTIAL_NODE_OTA : UInt8 := 2

/-- `rmesh_http_ota_param`. -/
structure OtaParam where
  host : CStr
  resource : CStr
  port : UInt16
  otaType : UInt8
deriving DecidableEq

/-- The command that `wtn_on_ota_request` finds in a packet. -/
def wtnOnOtaRequest (buf : Memory) : OtaParam :=
  let httpiplen := (buf 22).toNat
  let httpResourcelen := (buf (28 + httpiplen)).toNat
  { host := CStr.ofBytes (buf.window 23 httpiplen)
    resource := CStr.ofBytes (buf.window (29 + httpiplen) httpResourcelen)
    port := UInt16.ofNat ((buf (25 + httpiplen)).toNat * 256 + (buf (26 + httpiplen)).toNat)
    otaType := buf (31 + httpiplen + httpResourcelen) }

/-! ### The record -/

/-- `rmesh_ota_info_to_flash`; `text` is `cur_ota_ver`, `target_ota_ver` and `http_host`. -/
structure OtaInfo where
  otaVerLen : Nat
  httpPort : UInt32
  text : List UInt8
  length_text : text.length = 60
deriving DecidableEq

def CUR_OTA_VER : Nat := 0
def TARGET_OTA_VER : Nat := 20
def HTTP_HOST : Nat := 40

def OtaInfo.zero : OtaInfo := ⟨0, 0, List.replicate 60 0, length_replicate⟩

/-- `memcpy` into the record. -/
def OtaInfo.copy (info : OtaInfo) (offset : Nat) (bytes : List UInt8) : Option OtaInfo :=
  if h : offset + bytes.length ≤ info.text.length then
    some { info with
      text := copyAt info.text offset bytes
      length_text := (length_copyAt h).trans info.length_text }
  else none

def OtaInfo.setField (info : OtaInfo) (offset : Nat) (bytes : List UInt8) : Option OtaInfo :=
  (info.copy offset (List.replicate RMESH_OTA_VER_MAX_LEN 0)).bind (·.copy offset bytes)

/-- The record, and `ongoing_ota_ver`, which is empty while no update is going on. -/
structure Device where
  stored : Option OtaInfo
  ongoingOtaVer : List UInt8
deriving DecidableEq

/-! ### The functions -/

inductive CmdResult where
  | installed
  | ongoing
  | started (d : Device)
  | fault
deriving DecidableEq

/-- The part of `rmesh_ota_cmd_recv` that fills the record. -/
def recordCommand (info : OtaInfo) (p : OtaParam) : Option OtaInfo := do
  let info ← info.setField HTTP_HOST p.host.val
  let info ← info.setField TARGET_OTA_VER p.resource.val
  some { info with
    otaVerLen := p.resource.val.length % 2 ^ 8
    httpPort := p.port.toUInt32 }

def rmeshOtaCmdRecv (d : Device) (p : OtaParam) : CmdResult :=
  let otaVerLen := min p.resource.val.length RMESH_OTA_VER_MAX_LEN
  let info := d.stored.getD .zero
  if p.resource.val.take otaVerLen = info.text.take otaVerLen then .installed
  else if d.ongoingOtaVer ≠ [] then .ongoing
  else
    match recordCommand info p with
    | none => .fault
    | some info => .started ⟨some info, p.resource.val.take otaVerLen⟩

/-- A new version is recorded: by `rmesh_ota_status_request_cb` the `ongoing_ota_ver`, by
    `rmesh_ota_http_ota_task` the resource. -/
def recordVersion (d : Device) (ver : List UInt8) : Option Device := do
  let info ← (d.stored.getD .zero).setField CUR_OTA_VER ver
  some { d with stored := some { info with otaVerLen := ver.length % 2 ^ 8 } }

inductive InitResult where
  | idle
  -- the command that is repeated, and what becomes of it
  | again (p : OtaParam) (result : CmdResult)
  | fault
deriving DecidableEq

variable (stored : Option OtaInfo)

def rmeshOtaInit : InitResult :=
  match stored with
  | none => .idle
  | some info =>
    if info.otaVerLen = 0 then .idle
    else if info.text.length < TARGET_OTA_VER + info.otaVerLen then .fault
    else if (info.text.drop TARGET_OTA_VER).take info.otaVerLen = info.text.take info.otaVerLen
    then .idle
    else
      match cText (info.text.drop TARGET_OTA_VER), cText (info.text.drop HTTP_HOST) with
      | some resource, some host =>
        let p := ⟨host, resource, info.httpPort.toUInt16, RMESH_PARTIAL_NODE_OTA⟩
        .again p (rmeshOtaCmdRecv ⟨some info, []⟩ p)
      | _, _ => .fault

/-! ### What is to hold -/

/-- The version in `cur_ota_ver`. -/
def installedVer : List UInt8 :=
  (CStr.ofBytes ((stored.getD .zero).text.take RMESH_OTA_VER_MAX_LEN)).val

def Repeats (p : OtaParam) : Prop :=
  ∃ q d, rmeshOtaInit stored = .again q (.started d) ∧
    q.host = p.host ∧ q.port = p.port ∧ q.resource = p.resource

/-- A command is dropped exactly for the installed version; otherwise it is repeated after a reset
    until the new version has been recorded. -/
structure CommandKept (stored : Option OtaInfo) (p : OtaParam) : Prop where
  installed : rmeshOtaCmdRecv ⟨stored, []⟩ p = .installed ↔ p.resource.val = installedVer stored
  again : p.resource.val ≠ installedVer stored →
    ∃ d, rmeshOtaCmdRecv ⟨stored, []⟩ p = .started d ∧ Repeats d.stored p
  recorded : ∀ d, rmeshOtaCmdRecv ⟨stored, []⟩ p = .started d →
    ∀ ver, ver = d.ongoingOtaVer ∨ ver = p.resource.val →
      ∃ d', recordVersion d ver = some d' ∧ rmeshOtaInit d'.stored = .idle

/-- The resource is the installed version; or its first 20 bytes do not start it, and both strings
    are shorter than their fields. A longer resource survives only if it spills over the host, and
    its own beginning. -/
def Storable (p : OtaParam) : Prop :=
  p.resource.val = installedVer stored ∨
    (¬ p.resource.val.take RMESH_OTA_VER_MAX_LEN <+: installedVer stored ∧
      ((p.resource.val.length < 20 ∧ p.host.val.length < 20) ∨
        (20 ≤ p.resource.val.length ∧ p.resource.val.length < 40 ∧
          p.host.val = p.resource.val.drop 20 ∧ p.host.val <+: p.resource.val)))

/-! ### What the record holds -/

section

variable (info : OtaInfo) (bytes : List UInt8)

variable (htext : info.text = a ++ (b ++ c))
include htext

theorem copy_some (hlen : bytes.length = b.length) :
    ∃ info', info.copy a.length bytes = some info' ∧ info'.text = a ++ (bytes ++ c) := by
  have hfits : a.length + bytes.length ≤ info.text.length := by
    rw [htext, length_append, length_append]
    omega
  refine ⟨_, dif_pos hfits, ?_⟩
  change copyAt info.text a.length bytes = _
  rw [copyAt, htext, take_left, hlen, ← drop_drop, drop_left, drop_left, append_assoc]

theorem setField_some (hb : b.length = RMESH_OTA_VER_MAX_LEN)
    (hfits : bytes.length ≤ RMESH_OTA_VER_MAX_LEN + c.length) :
    ∃ info', info.setField a.length bytes = some info' ∧ info'.text =
        a ++ (bytes ++ (List.replicate RMESH_OTA_VER_MAX_LEN 0 ++ c).drop bytes.length) := by
  obtain ⟨cleared, hclear, hzeros⟩ := copy_some info
    (List.replicate RMESH_OTA_VER_MAX_LEN 0) htext (length_replicate.trans hb.symm)
  have hsplit := take_append_drop bytes.length (List.replicate RMESH_OTA_VER_MAX_LEN 0 ++ c)
  have hfront : bytes.length =
      ((List.replicate RMESH_OTA_VER_MAX_LEN 0 ++ c).take bytes.length).length := by
    rw [length_take, length_append, length_replicate]
    omega
  obtain ⟨info', hcopy, hcopied⟩ :=
    copy_some cleared bytes (hzeros.trans (congrArg (a ++ ·) hsplit.symm)) hfront
  refine ⟨info', ?_, hcopied⟩
  rw [OtaInfo.setField, hclear]
  exact hcopy

theorem setField_none (hb : b.length = RMESH_OTA_VER_MAX_LEN)
    (hlong : RMESH_OTA_VER_MAX_LEN + c.length < bytes.length) :
    info.setField a.length bytes = none := by
  obtain ⟨cleared, hclear, hzeros⟩ := copy_some info
    (List.replicate RMESH_OTA_VER_MAX_LEN 0) htext (length_replicate.trans hb.symm)
  rw [OtaInfo.setField, hclear]
  apply dif_neg
  rw [hzeros, length_append, length_append, length_replicate]
  omega

end

/-- `http_host` after a host of at most 20 bytes has been copied to it. -/
def hostField (host : List UInt8) : List UInt8 :=
  host ++ List.replicate (RMESH_OTA_VER_MAX_LEN - host.length) 0

/-- What lies behind the resource in the record. -/
def behind (host resource : List UInt8) : List UInt8 :=
  (List.replicate RMESH_OTA_VER_MAX_LEN 0 ++ hostField host).drop resource.length

section Stored

variable {info : OtaInfo} {p : OtaParam}

theorem length_hostField (h : host.length ≤ 20) : (hostField host).length = 20 := by
  rw [hostField, length_append, length_replicate, RMESH_OTA_VER_MAX_LEN]
  omega

theorem OtaInfo.text_eq :
    ∃ cur target host, info.text = cur ++ (target ++ host) ∧ cur = info.text.take 20 ∧
      cur.length = 20 ∧ target.length = 20 ∧ host.length = 20 := by
  have hlen := info.length_text
  refine ⟨_, (info.text.drop 20).take 20, (info.text.drop 20).drop 20, ?_, rfl, ?_, ?_, ?_⟩
  · rw [take_append_drop, take_append_drop]
  · rw [length_take, hlen]
    rfl
  · rw [length_take, length_drop, hlen]
    rfl
  · rw [length_drop, length_drop, hlen]

theorem setHost (hhost : p.host.val.length ≤ 20) :
    ∃ info' target, info.setField HTTP_HOST p.host.val = some info' ∧
      info'.text = info.text.take 20 ++ (target ++ hostField p.host.val) ∧
      target.length = 20 ∧ (info.text.take 20).length = 20 := by
  obtain ⟨cur, target, host, htext, rfl, hcur, htarget, hlast⟩ := info.text_eq
  have hsplit : info.text = (info.text.take 20 ++ target) ++ (host ++ []) := by
    rw [append_nil, append_assoc]
    exact htext
  obtain ⟨info', hset, htext'⟩ := setField_some info p.host.val hsplit hlast hhost
  rw [append_nil, drop_replicate, append_assoc] at htext'
  rw [length_append, hcur, htarget] at hset
  exact ⟨info', target, hset, htext', htarget, hcur⟩

theorem recordCommand_some (hhost : p.host.val.length ≤ 20)
    (hresource : p.resource.val.length ≤ 40) :
    ∃ info', recordCommand info p = some info' ∧ info'.otaVerLen = p.resource.val.length ∧
      info'.httpPort = p.port.toUInt32 ∧
      info'.text = info.text.take 20 ++ (p.resource.val ++ behind p.host.val p.resource.val) := by
  obtain ⟨info1, target, hset1, htext1, htarget, hcur⟩ := @setHost info p hhost
  have hroom := length_hostField hhost
  obtain ⟨info2, hset2, htext2⟩ := setField_some info1 p.resource.val htext1 htarget
    (hroom.symm ▸ hresource)
  rw [hcur] at hset2
  refine ⟨{ info2 with
    otaVerLen := p.resource.val.length % 2 ^ 8
    httpPort := p.port.toUInt32 }, ?_, Nat.mod_eq_of_lt (by omega), rfl, htext2⟩
  rw [recordCommand, hset1]
  change (info1.setField 20 p.resource.val).bind _ = _
  rw [hset2]
  rfl

theorem recordCommand_none (hlong : 20 < p.host.val.length ∨ 40 < p.resource.val.length) :
    recordCommand info p = none := by
  by_cases hhost : p.host.val.length ≤ 20
  · obtain ⟨info1, target, hset1, htext1, htarget, hcur⟩ := @setHost info p hhost
    have hroom := length_hostField hhost
    have hset2 := setField_none info1 p.resource.val htext1 htarget
      (by rw [hroom]; exact hlong.resolve_left (not_lt.mpr hhost))
    rw [hcur] at hset2
    rw [recordCommand, hset1]
    change (info1.setField 20 p.resource.val).bind _ = none
    rw [hset2]
    rfl
  obtain ⟨cur, target, host, htext, _, hcur, htarget, hlast⟩ := info.text_eq
  have hsplit : info.text = (cur ++ target) ++ (host ++ []) := by
    rw [append_nil, append_assoc]
    exact htext
  have hset := setField_none info p.host.val hsplit hlast (not_le.mp hhost)
  rw [length_append, hcur, htarget] at hset
  change (info.setField 40 p.host.val).bind _ = none
  rw [hset]
  rfl

end Stored

/-! ### Reading the strings back -/

section

theorem zeros_cons (hn : 0 < n) : List.replicate n (0 : UInt8) = 0 :: List.replicate (n - 1) 0 := by
  obtain ⟨m, rfl⟩ := Nat.exists_eq_succ_of_ne_zero (ne_of_gt hn)
  rfl

theorem drop_zeros_short (hn : n ≤ 20) (c : List UInt8) :
    (List.replicate 20 0 ++ c).drop n = List.replicate (20 - n) 0 ++ c := by
  rw [drop_append_of_le_length (hn.trans_eq length_replicate.symm), drop_replicate]

theorem drop_zeros_long (hn : 20 ≤ n) (c : List UInt8) :
    (List.replicate 20 0 ++ c).drop n = c.drop (n - 20) := by
  rw [drop_append, drop_eq_nil_of_le (length_replicate.trans_le hn), length_replicate, nil_append]

theorem behind_long {h r : List UInt8} (hr : 20 ≤ r.length) :
    behind h r = (hostField h).drop (r.length - 20) :=
  drop_zeros_long hr _

theorem cText_hostField_iff (hhost : host.val.length ≤ 20) :
    cText (hostField host.val) = some host ↔ host.val.length < 20 := by
  constructor
  · intro hread
    by_contra hfull
    have hzero : 20 - host.val.length = 0 := by omega
    have hfield : hostField host.val = host.val := by
      rw [hostField, RMESH_OTA_VER_MAX_LEN, hzero, replicate_zero, append_nil]
    rw [hfield, cText_of_not_mem host.property] at hread
    cases hread
  · intro hroom
    rw [hostField, RMESH_OTA_VER_MAX_LEN, zeros_cons (by omega)]
    exact cText_append_zero host

/-- The strings are read back as they were if both leave room for a zero, or if the host is just
    what the resource spills over. -/
theorem readBack_iff (hhost : host.val.length ≤ 20) :
    (cText (resource.val ++ behind host.val resource.val) = some resource ∧
      cText ((resource.val ++ behind host.val resource.val).drop 20) = some host) ↔
    (resource.val.length < 20 ∧ host.val.length < 20) ∨
      (20 ≤ resource.val.length ∧ resource.val.length < 40 ∧ host.val = resource.val.drop 20) := by
  by_cases hshort : resource.val.length < 20
  · have hbehind : behind host.val resource.val = _ := drop_zeros_short (le_of_lt hshort) _
    have hresource : cText (resource.val ++ behind host.val resource.val) = some resource := by
      rw [hbehind, zeros_cons (by omega)]
      exact cText_append_zero resource
    have hlen : (resource.val ++ List.replicate (20 - resource.val.length) 0).length = 20 := by
      rw [length_append, length_replicate]
      omega
    have hdrop : (resource.val ++ behind host.val resource.val).drop 20 = hostField host.val := by
      rw [hbehind, ← append_assoc, drop_left' hlen]
    rw [hdrop, cText_hostField_iff hhost]
    constructor
    · rintro ⟨_, hroom⟩
      exact .inl ⟨hshort, hroom⟩
    · rintro (⟨_, hroom⟩ | ⟨hlong, _⟩)
      · exact ⟨hresource, hroom⟩
      · omega
  have hlong : 20 ≤ resource.val.length := not_lt.mp hshort
  have hbehind := @behind_long host.val resource.val hlong
  have htail : 0 ∉ resource.val.drop 20 := fun hzero =>
    resource.property (mem_of_mem_drop hzero)
  rw [drop_append_of_le_length hlong]
  constructor
  · rintro ⟨hresource, hhostRead⟩
    obtain ⟨rest, hrest⟩ := eq_of_cText hresource
    have hzero : behind host.val resource.val = 0 :: rest := append_cancel_left hrest
    rw [hzero, cText_append_zero ⟨resource.val.drop 20, htail⟩] at hhostRead
    have hpos : 0 < (behind host.val resource.val).length := by
      rw [hzero]
      exact Nat.succ_pos _
    rw [hbehind, length_drop, length_hostField hhost] at hpos
    have heq : host.val = resource.val.drop 20 := by rw [← Option.some.inj hhostRead]
    exact .inr ⟨hlong, by omega, heq⟩
  · rintro (⟨hlt, _⟩ | ⟨_, hlt, heq⟩)
    · exact absurd hlt hshort
    · have hlen : host.val.length = resource.val.length - 20 := by
        rw [heq, length_drop]
      have hzeros : behind host.val resource.val =
          0 :: List.replicate (20 - host.val.length - 1) 0 := by
        rw [hbehind, hostField, ← hlen, drop_left, RMESH_OTA_VER_MAX_LEN]
        exact zeros_cons (by omega)
      rw [hzeros, cText_append_zero ⟨resource.val.drop 20, htail⟩]
      exact ⟨cText_append_zero resource, congrArg some (Subtype.ext heq.symm)⟩

end

/-! ### Dropped, repeated, recorded -/

section

variable {stored : Option OtaInfo} {p : OtaParam}

theorem length_take_resource (r : List UInt8) : (r.take 20).length = min r.length 20 := by
  rw [length_take, Nat.min_comm]

theorem memcmp_iff : p.resource.val.take (min p.resource.val.length RMESH_OTA_VER_MAX_LEN) =
        (stored.getD .zero).text.take (min p.resource.val.length RMESH_OTA_VER_MAX_LEN) ↔
      p.resource.val.take 20 <+: installedVer stored := by
  have hzero : 0 ∉ p.resource.val.take 20 := fun h =>
    p.resource.property (mem_of_mem_take h)
  have hlen := length_take_resource p.resource.val
  have htake : p.resource.val.take (min p.resource.val.length 20) = p.resource.val.take 20 := by
    rw [Nat.min_comm, ← take_eq_take_min]
  rw [installedVer, prefix_ofBytes_iff hzero, RMESH_OTA_VER_MAX_LEN, prefix_take_iff,
    prefix_iff_eq_take, htake, hlen]
  exact ⟨fun h => ⟨h, min_le_right _ _⟩, fun h => h.1⟩

theorem cmdRecv_installed (h : p.resource.val.take 20 <+: installedVer stored) :
    rmeshOtaCmdRecv ⟨stored, []⟩ p = .installed :=
  if_pos (memcmp_iff.mpr h)

theorem cmdRecv_new (h : ¬ p.resource.val.take 20 <+: installedVer stored) :
    rmeshOtaCmdRecv ⟨stored, []⟩ p =
      match recordCommand (stored.getD .zero) p with
      | none => .fault
      | some info => .started ⟨some info, p.resource.val.take 20⟩ := by
  have htake : p.resource.val.take (min p.resource.val.length RMESH_OTA_VER_MAX_LEN) =
      p.resource.val.take 20 := by
    rw [Nat.min_comm, RMESH_OTA_VER_MAX_LEN, ← take_eq_take_min]
  unfold rmeshOtaCmdRecv
  rw [if_neg (memcmp_iff.not.mpr h), if_neg (not_not_intro rfl), htake]

structure Holds (stored : Option OtaInfo) (p : OtaParam) (info : OtaInfo) : Prop where
  hostFits : p.host.val.length ≤ 20
  resourceFits : p.resource.val.length ≤ 40
  nonempty : 0 < p.resource.val.length
  otaVerLen : info.otaVerLen = p.resource.val.length
  httpPort : info.httpPort = p.port.toUInt32
  text : info.text = (stored.getD .zero).text.take 20 ++
    (p.resource.val ++ behind p.host.val p.resource.val)

theorem Holds.drop_target (h : Holds stored p info) :
    info.text.drop 20 = p.resource.val ++ behind p.host.val p.resource.val := by
  obtain ⟨cur, _, _, _, rfl, hcur, _⟩ := (stored.getD .zero).text_eq
  rw [h.text, drop_left' hcur]

theorem Holds.take_cur (h : Holds stored p info) :
    info.text.take 20 = (stored.getD .zero).text.take 20 := by
  obtain ⟨cur, _, _, _, rfl, hcur, _⟩ := (stored.getD .zero).text_eq
  rw [h.text, take_left' hcur]

theorem Holds.installedVer_eq (h : Holds stored p info) :
    installedVer (some info) = installedVer stored := by
  have hcur := h.take_cur
  unfold installedVer
  rw [RMESH_OTA_VER_MAX_LEN, Option.getD_some, hcur]

theorem holds_of_fits (hnew : ¬ p.resource.val.take 20 <+: installedVer stored)
    (hhost : p.host.val.length ≤ 20) (hresource : p.resource.val.length ≤ 40) :
    ∃ info, recordCommand (stored.getD .zero) p = some info ∧ Holds stored p info := by
  have hnonempty : 0 < p.resource.val.length := by
    by_contra hempty
    apply hnew
    rw [eq_nil_of_length_eq_zero (Nat.eq_zero_of_not_pos hempty)]
    exact nil_prefix
  obtain ⟨info, hrecord, hlen, hport, htext⟩ :=
    @recordCommand_some (stored.getD .zero) p hhost hresource
  exact ⟨info, hrecord, hhost, hresource, hnonempty, hlen, hport, htext⟩

theorem holds_of_started (hnew : ¬ p.resource.val.take 20 <+: installedVer stored)
    (hstarted : rmeshOtaCmdRecv ⟨stored, []⟩ p = .started d) :
    ∃ info, Holds stored p info ∧ d = ⟨some info, p.resource.val.take 20⟩ := by
  rw [cmdRecv_new hnew] at hstarted
  by_cases hfits : p.host.val.length ≤ 20 ∧ p.resource.val.length ≤ 40
  · obtain ⟨info, hrecord, hholds⟩ := holds_of_fits hnew hfits.1 hfits.2
    rw [hrecord] at hstarted
    cases hstarted
    exact ⟨info, hholds, rfl⟩
  · have hlong : 20 < p.host.val.length ∨ 40 < p.resource.val.length := by omega
    rw [recordCommand_none hlong] at hstarted
    cases hstarted

section

variable (h : Holds stored p info) (hnew : ¬ p.resource.val.take 20 <+: installedVer stored)
include h hnew

theorem Holds.init_eq : rmeshOtaInit (some info) =
      match cText (p.resource.val ++ behind p.host.val p.resource.val),
        cText ((p.resource.val ++ behind p.host.val p.resource.val).drop 20) with
      | some resource, some host =>
        .again ⟨host, resource, p.port, RMESH_PARTIAL_NODE_OTA⟩
          (rmeshOtaCmdRecv ⟨some info, []⟩ ⟨host, resource, p.port, RMESH_PARTIAL_NODE_OTA⟩)
      | _, _ => .fault := by
  have hpos := h.nonempty
  have hfits := h.resourceFits
  have htarget : (info.text.drop 20).take p.resource.val.length = p.resource.val := by
    rw [h.drop_target, take_left]
  have hhost : info.text.drop 40 =
      (p.resource.val ++ behind p.host.val p.resource.val).drop 20 := by
    rw [← h.drop_target, drop_drop]
  have hport : info.httpPort.toUInt16 = p.port := by
    rw [h.httpPort]
    exact UInt16.toUInt16_toUInt32 p.port
  -- the fields differ because the resource does not start the installed version
  have hdiffers : (info.text.drop 20).take p.resource.val.length ≠
      info.text.take p.resource.val.length := by
    intro heq
    apply hnew
    rw [htarget] at heq
    have hstarts : p.resource.val <+: info.text := prefix_iff_eq_take.mpr heq
    rw [← h.installedVer_eq, installedVer,
      prefix_ofBytes_iff (fun hzero => p.resource.property (mem_of_mem_take hzero)),
      prefix_take_iff]
    have hshort := take_prefix 20 p.resource.val
    refine ⟨hshort.trans hstarts, ?_⟩
    rw [length_take_resource]
    exact min_le_right _ _
  unfold rmeshOtaInit
  dsimp only
  rw [TARGET_OTA_VER, HTTP_HOST, h.otaVerLen, if_neg (ne_of_gt hpos), if_neg (by
    rw [info.length_text]
    omega), if_neg hdiffers, h.drop_target, hhost, hport]

theorem Holds.repeats_iff : Repeats (some info) p ↔
      cText (p.resource.val ++ behind p.host.val p.resource.val) = some p.resource ∧
        cText ((p.resource.val ++ behind p.host.val p.resource.val).drop 20) = some p.host := by
  have hinit := h.init_eq hnew
  constructor
  · rintro ⟨q, d, hagain, hhost, _, hresource⟩
    rw [hagain] at hinit
    split at hinit
    · rename_i resource host hr hh
      obtain ⟨rfl, _⟩ := InitResult.again.inj hinit
      exact ⟨hresource ▸ hr, hhost ▸ hh⟩
    · cases hinit
  · rintro ⟨hresource, hhost⟩
    rw [hresource, hhost] at hinit
    let q : OtaParam := ⟨p.host, p.resource, p.port, RMESH_PARTIAL_NODE_OTA⟩
    have hnew' : ¬ q.resource.val.take 20 <+: installedVer (some info) := by
      rw [h.installedVer_eq]
      exact hnew
    obtain ⟨info', hrecord, _⟩ := @recordCommand_some info q h.hostFits h.resourceFits
    have hstarted : rmeshOtaCmdRecv ⟨some info, []⟩ q =
        .started ⟨some info', q.resource.val.take 20⟩ := by
      rw [cmdRecv_new hnew', Option.getD_some, hrecord]
    exact ⟨q, _, hinit.trans (congrArg _ hstarted), rfl, rfl, rfl⟩

end

theorem Holds.recordVersion_some (h : Holds stored p info) (hver : ver.length ≤ 40) :
    ∃ info', recordVersion ⟨some info, ongoing⟩ ver = some ⟨some info', ongoing⟩ ∧
      info'.otaVerLen = ver.length ∧
      info'.text = ver ++ (List.replicate 20 0 ++
        (p.resource.val ++ behind p.host.val p.resource.val)).drop ver.length := by
  obtain ⟨cur, _, _, _, rfl, hcur, _⟩ := (stored.getD .zero).text_eq
  have hlen := info.length_text
  have htext : info.text = [] ++ ((stored.getD .zero).text.take 20 ++
      (p.resource.val ++ behind p.host.val p.resource.val)) := h.text
  rw [h.text, length_append] at hlen
  obtain ⟨info', hset, htext'⟩ := setField_some info ver htext hcur (by
    omega)
  refine ⟨{ info' with otaVerLen := ver.length % 2 ^ 8 }, ?_, Nat.mod_eq_of_lt (by omega), htext'⟩
  change (info.setField 0 ver).bind _ = _
  rw [show info.setField 0 ver = some info' from hset]
  rfl

theorem rmeshOtaInit_idle_iff (hlen : info.otaVerLen = ver.length) (htext : info.text = ver ++ rest)
    (hver : ver.length ≤ 40) : rmeshOtaInit (some info) = .idle ↔ ver <+: info.text.drop 20 := by
  have htake : info.text.take ver.length = ver := by rw [htext, take_left]
  rw [prefix_iff_eq_take]
  unfold rmeshOtaInit
  dsimp only
  rw [TARGET_OTA_VER, hlen, info.length_text, htake]
  by_cases hempty : ver.length = 0
  · rw [hempty]
    exact ⟨fun _ => eq_nil_of_length_eq_zero hempty, fun _ => rfl⟩
  rw [if_neg hempty, if_neg (by omega)]
  split
  · rename_i hsame
    exact ⟨fun _ => hsame.symm, fun _ => rfl⟩
  rename_i hdiffers
  refine ⟨fun hidle => ?_, fun hsame => absurd hsame.symm hdiffers⟩
  split at hidle
  · cases hidle
  · cases hidle

theorem Holds.recorded_short (h : Holds stored p info) (hver : ver <+: p.resource.val)
    (hlen : ver.length ≤ 20) :
    ∃ d, recordVersion ⟨some info, ongoing⟩ ver = some d ∧ rmeshOtaInit d.stored = .idle := by
  obtain ⟨info', hrecord, hverLen, htext⟩ := h.recordVersion_some
    (le_trans hlen (by decide) : ver.length ≤ 40)
  refine ⟨_, hrecord, ?_⟩
  rw [rmeshOtaInit_idle_iff hverLen htext (by omega)]
  have hfront : (ver ++ List.replicate (20 - ver.length) 0).length = 20 := by
    rw [length_append, length_replicate]
    omega
  rw [htext, drop_zeros_short hlen, ← append_assoc, drop_left' hfront]
  exact hver.trans (prefix_append _ _)

/-- A version that spills over its field ends it only if it starts with what it spills. -/
theorem Holds.recorded_long_iff (h : Holds stored p info) (hlong : 20 ≤ p.resource.val.length) :
    (∃ d, recordVersion ⟨some info, ongoing⟩ p.resource.val = some d ∧
      rmeshOtaInit d.stored = .idle) ↔ p.resource.val.drop 20 <+: p.resource.val := by
  obtain ⟨info', hrecord, hverLen, htext⟩ := h.recordVersion_some h.resourceFits
  have hspill : info'.text.drop 20 = p.resource.val.drop 20 ++
      (p.resource.val.drop (p.resource.val.length - 20) ++ behind p.host.val p.resource.val) := by
    rw [htext, drop_append_of_le_length hlong, drop_zeros_long hlong,
      drop_append_of_le_length (Nat.sub_le _ _)]
  have hidle := rmeshOtaInit_idle_iff hverLen htext h.resourceFits
  rw [hspill] at hidle
  constructor
  · rintro ⟨d, hd, hinit⟩
    rw [hrecord] at hd
    cases hd
    refine prefix_of_prefix_length_le (prefix_append _ _) (hidle.mp hinit) ?_
    rw [length_drop]
    exact Nat.sub_le _ _
  · intro hprefix
    refine ⟨_, hrecord, hidle.mpr ?_⟩
    have hfront := prefix_iff_eq_take.mp hprefix
    rw [length_drop] at hfront
    rw [← append_assoc, hfront, take_append_drop]
    exact prefix_append _ _

end

/-- **Which commands survive a reset.** Those for the installed version, and those that do not start
    with it and fit the fields of the record. -/
theorem commandKept_iff (p : OtaParam) : CommandKept stored p ↔ Storable stored p := by
  by_cases hsame : p.resource.val = installedVer stored
  · have hprefix : p.resource.val.take 20 <+: installedVer stored := by
      rw [← hsame]
      exact take_prefix _ _
    have hinstalled := cmdRecv_installed hprefix
    refine ⟨fun _ => .inl hsame, fun _ => ⟨?_, fun hne => absurd hsame hne, ?_⟩⟩
    · exact ⟨fun _ => hsame, fun _ => hinstalled⟩
    · intro d hstarted
      rw [hinstalled] at hstarted
      cases hstarted
  constructor
  · intro h
    have hnew : ¬ p.resource.val.take 20 <+: installedVer stored := fun hprefix =>
      hsame (h.installed.mp (cmdRecv_installed hprefix))
    obtain ⟨d, hstarted, hrepeats⟩ := h.again hsame
    obtain ⟨info, hholds, rfl⟩ := holds_of_started hnew hstarted
    refine .inr ⟨hnew, ?_⟩
    rcases (readBack_iff hholds.hostFits).mp ((hholds.repeats_iff hnew).mp hrepeats) with
      hshort | ⟨hlong, hlt, heq⟩
    · exact .inl hshort
    · refine .inr ⟨hlong, hlt, heq, ?_⟩
      rw [heq]
      exact (hholds.recorded_long_iff hlong).mp (h.recorded _ hstarted _ (.inr rfl))
  · rintro (heq | ⟨hnew, hfits⟩)
    · exact absurd heq hsame
    · have hread := hfits.imp_right fun hlong => (⟨hlong.1, hlong.2.1, hlong.2.2.1⟩ :
        20 ≤ p.resource.val.length ∧ p.resource.val.length < 40 ∧
          p.host.val = p.resource.val.drop 20)
      have hlens : p.host.val.length ≤ 20 ∧ p.resource.val.length ≤ 40 := by
        rcases hread with hshort | ⟨_, hlt, heq⟩
        · omega
        · rw [heq, length_drop]
          omega
      obtain ⟨info, hrecord, hholds⟩ := holds_of_fits hnew hlens.1 hlens.2
      have hstarted : rmeshOtaCmdRecv ⟨stored, []⟩ p =
          .started ⟨some info, p.resource.val.take 20⟩ := by
        rw [cmdRecv_new hnew, hrecord]
      constructor
      case installed =>
        rw [hstarted]
        refine ⟨fun hfalse => ?_, fun heq => absurd heq hsame⟩
        cases hfalse
      case again =>
        intro _
        refine ⟨_, hstarted, ?_⟩
        exact (hholds.repeats_iff hnew).mpr ((readBack_iff hlens.1).mpr hread)
      case recorded =>
        intro d hd ver hver
        rw [hstarted] at hd
        cases hd
        rcases hver with rfl | rfl
        · refine hholds.recorded_short ?_ ?_
          · exact take_prefix _ _
          rw [length_take_resource]
          exact min_le_right _ _
        rcases hfits with hshort | ⟨hlong, _, heq, hprefix⟩
        · exact hholds.recorded_short (prefix_refl _) (le_of_lt hshort.1)
        · rw [heq] at hprefix
          exact (hholds.recorded_long_iff hlong).mpr hprefix

/-- A request packet for port 80. -/
def requestPacket (host resource : List UInt8) : Memory := fun a =>
  (List.replicate 22 0 ++ [UInt8.ofNat host.length] ++ host ++ [0, 0, 0, 80, 0] ++
    [UInt8.ofNat resource.length] ++ resource ++ [0, 0, 1]).getD a 0

/-- Version `v12` is installed. -/
def installedV12 : OtaInfo where
  otaVerLen := 3
  httpPort := 80
  text := [118, 49, 50] ++ List.replicate 17 0 ++ [118, 49, 50] ++ List.replicate 37 0
  length_text := rfl

/-- Version `v1` is taken for version `v12`; and a resource of 20 bytes is repeated with the
    host as its end. -/
theorem command_confused :
    ¬ CommandKept (some installedV12) (wtnOnOtaRequest (requestPacket [104] [118, 49])) ∧
    ¬ CommandKept none (wtnOnOtaRequest (requestPacket [104] (List.replicate 20 97))) := by
  constructor
  · intro hkept
    have hsame := hkept.installed.mp (by decide +kernel)
    exact absurd hsame (by decide +kernel)
  · intro hkept
    obtain ⟨d, hd, q, _, hq, _, _, hresource⟩ := hkept.again (by decide +kernel)
    cases hd
    cases hq
    exact absurd hresource (by decide +kernel)

end AmebaRtos.Mesh.Command
