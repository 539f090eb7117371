import AmebaRtos.Mesh.Sender

/-!
# Which frames of the mesh OTA a node handles

`rmesh_ota_pkt_filter` decides for each frame whether the node processes it, leaves it to the
driver to relay, or both. A data frame of a partial OTA carries the addresses of the nodes it is
for, which are compared with the node's own and with the child list of `rmesh_ota_prepare_part2`.
The loop ends at the node's own address, so that children behind it are not seen.
-/

namespace AmebaRtos.Mesh

open Lib

def ETH_ALEN : Nat := 6
def RMESH_OTA_PATTERN_LEN : Nat := 8
def RMESH_MAX_NODE_NUM : Nat := 14

/-- The `type` of `rmesh_raw_additional_hdr`. -/
def RMESH_OTA_DATA : UInt8 := 0
def RMESH_OTA_UPDATE_REQ : UInt8 := 1
def RMESH_OTA_STATUS_REQ : UInt8 := 2
def RMESH_OTA_STATUS_RSP : UInt8 := 3

/-- The size of `rmesh_raw_additional_hdr`. -/
def ADDITIONAL_HDR_LEN : Nat := 4

/-- `ota_type`; it is zero before the first command. -/
inductive OtaType where
  | none
  | allNode
  | partialNode
deriving DecidableEq, Repr

/-- `rmesh_ota_filter_res`. -/
inductive FilterRes where
  | selfProcess
  | driverRelay
  | bothSelfAndRelay
  | noNeedProcess
deriving DecidableEq, Repr

structure ChildInfo where
  mac : Mac
  layer : Nat
  allocated : Bool

structure Topology where
  selfLayer : Nat
  fatherMac : Mac
  children : List ChildInfo

/-- The fields of `rmesh_ota_priv` that the filter reads, with the entries of `child_list`
    that are not null. -/
structure FilterPriv where
  rawPktIvLen : Nat
  otaType : OtaType
  selfLayer : Nat
  selfMac : Mac
  fatherMac : Mac
  childNum : Nat
  childList : List Mac

/-! ### The child list -/

variable (priv : FilterPriv)

/-- The children that get an entry. The array has room for `RMESH_MAX_NODE_NUM`. -/
def storedChildren (children : List ChildInfo) : List Mac :=
  ((children.filter fun child =>
      (priv.otaType ≠ .allNode ∨ child.layer = priv.selfLayer + 1) ∧ child.allocated = true).map
    ChildInfo.mac).take RMESH_MAX_NODE_NUM

variable (topology : Topology) (listAllocated : Bool)

/-- `rmesh_ota_prepare_part2`, where `listAllocated` says whether there is memory for the
    list of the driver. -/
def rmeshOtaPreparePart2 : FilterPriv :=
  let priv := { priv with selfLayer := topology.selfLayer, fatherMac := topology.fatherMac }
  if listAllocated then
    { priv with
      childNum := topology.children.length
      childList := storedChildren priv topology.children }
  else { priv with childNum := 0, childList := [] }

/-! ### The filter -/

def macAt (frame : Memory) (offset : Nat) : Mac :=
  BitVec.ofNat 48 (fromLE (frame.window offset ETH_ALEN))

/-- The loop over `child_list`; a null entry is followed. -/
def findChild (receiver : Mac) : Nat → List Mac → Option Bool
  | 0, _ => some false
  | _ + 1, [] => none
  | j + 1, mac :: rest => if receiver = mac then some true else findChild receiver j rest

section Filter

variable (priv : FilterPriv)

/-- The loop over the receivers of a data frame: `find_self` and `find_child`. -/
def findReceivers : Bool → List Mac → Option (Bool × Bool)
  | child, [] => some (false, child)
  | child, receiver :: rest =>
    if receiver = priv.selfMac then some (true, child)
    else
      match findChild receiver priv.childNum priv.childList with
      | none => none
      | some found => findReceivers (child || found) rest

variable (frame : Memory)

/-- The offset of `rmesh_raw_additional_hdr`; a broadcast frame has an IV before it. -/
def hdrOffset : Nat :=
  26 + RMESH_OTA_PATTERN_LEN +
    if macAt frame 4 = BitVec.allOnes 48 then priv.rawPktIvLen else 0

def otaReceivers : List Mac :=
  let offset := 26 + priv.rawPktIvLen + RMESH_OTA_PATTERN_LEN + ADDITIONAL_HDR_LEN
  (List.range (frame offset).toNat).map fun i => macAt frame (offset + 1 + ETH_ALEN * i)

def filterRes : Bool × Bool → FilterRes
  | (true, true) => .bothSelfAndRelay
  | (false, true) => .driverRelay
  | (true, false) => .selfProcess
  | (false, false) => .noNeedProcess

/-- `rmesh_ota_pkt_filter`; `none` when a null entry of the child list is followed. -/
def rmeshOtaPktFilter : Option FilterRes :=
  let type := frame (hdrOffset priv frame)
  let toDs := (frame 1).toNat.testBit 0
  let frDs := (frame 1).toNat.testBit 1
  if type = RMESH_OTA_STATUS_RSP ∧ toDs = true then
    some (if macAt frame 16 = priv.selfMac then .selfProcess else .driverRelay)
  else if type = RMESH_OTA_STATUS_REQ ∧ frDs = true then
    some (if macAt frame 4 = priv.selfMac then .selfProcess else .driverRelay)
  else if type = RMESH_OTA_UPDATE_REQ then
    -- a node that is not the target updates its child list too
    some (if macAt frame 16 = priv.selfMac then .selfProcess else .bothSelfAndRelay)
  else if type = RMESH_OTA_DATA then
    match priv.otaType with
    | .partialNode => (findReceivers priv false (otaReceivers priv frame)).map filterRes
    | .allNode => some (if macAt frame 16 = priv.fatherMac then .selfProcess else .noNeedProcess)
    | .none => some .noNeedProcess
  else some .noNeedProcess

end Filter

/-! ### What is to hold -/

variable (receivers : List Mac)

/-- The filter looks at the child list only; the node processes the frame exactly if it is a
    receiver, and has it relayed exactly if one of its children is. -/
def FilterRight (res : Option FilterRes) : Prop :=
  ∃ r, res = some r ∧ (r = .selfProcess ∨ r = .bothSelfAndRelay ↔ priv.selfMac ∈ receivers) ∧
    (r = .driverRelay ∨ r = .bothSelfAndRelay ↔ ∃ mac ∈ receivers, mac ∈ priv.childList)

def FilterPriv.ahead : List Mac :=
  receivers.takeWhile (· ≠ priv.selfMac)

/-- Every child has its entry, or no address is compared with all of them; and no child is only
    behind the node itself. -/
def ChildrenAhead : Prop :=
  (priv.childList.length = priv.childNum ∨ ∀ mac ∈ priv.ahead receivers, mac ∈ priv.childList) ∧
  ((∃ mac ∈ receivers, mac ∈ priv.childList) → ∃ mac ∈ priv.ahead receivers, mac ∈ priv.childList)

/-! ### The loops -/

theorem childList_le_childNum :
    let priv' := rmeshOtaPreparePart2 priv topology listAllocated
    priv'.childList.length ≤ priv'.childNum := by
  cases listAllocated with
  | false => exact le_refl 0
  | true =>
    calc (storedChildren _ topology.children).length
        ≤ _ := List.length_take_le' ..
      _ = _ := List.length_map ..
      _ ≤ topology.children.length := List.length_filter_le ..

theorem findChild_eq (h : list.length ≤ num) :
    findChild receiver num list =
      if receiver ∈ list then some true else if list.length = num then some false else none := by
  induction list generalizing num with
  | nil => cases num <;> rfl
  | cons mac rest ih =>
    obtain ⟨num, rfl⟩ : ∃ k, num = k + 1 := ⟨num - 1, by simp at h; omega⟩
    by_cases heq : receiver = mac
    · rw [findChild, if_pos heq, if_pos (by simp [heq])]
    · rw [findChild, ih (Nat.le_of_succ_le_succ h)]
      simp [heq]

/-- The loop over the receivers follows a null entry for an address that is no child, when there is
    one; it sees the children up to the node itself. -/
theorem findReceivers_eq {priv : FilterPriv} (h : priv.childList.length ≤ priv.childNum)
    (receivers : List Mac) :
    findReceivers priv child receivers =
      if priv.childList.length = priv.childNum ∨
          ∀ mac ∈ priv.ahead receivers, mac ∈ priv.childList then
        some (decide (priv.selfMac ∈ receivers),
          child || decide (∃ mac ∈ priv.ahead receivers, mac ∈ priv.childList))
      else none := by
  induction receivers generalizing child with
  | nil => simp [findReceivers, FilterPriv.ahead]
  | cons receiver rest ih =>
    by_cases hself : receiver = priv.selfMac
    · simp [findReceivers, FilterPriv.ahead, hself]
    rw [findReceivers, if_neg hself, findChild_eq h]
    have hahead : priv.ahead (receiver :: rest) = receiver :: priv.ahead rest := by
      simp [FilterPriv.ahead, hself]
    have hne : priv.selfMac ≠ receiver := fun heq => hself heq.symm
    by_cases hchild : receiver ∈ priv.childList
    · simp [hchild, ih, hahead, hne]
    · by_cases hnum : priv.childList.length = priv.childNum
      · simp [hchild, hnum, ih, hahead, hne]
      · simp [hchild, hnum, hahead]

theorem filterRight_map {priv : FilterPriv} {receivers : List Mac} {child : Bool} :
    FilterRight priv receivers (some (filterRes (decide (priv.selfMac ∈ receivers), child))) ↔
      (child = true ↔ ∃ mac ∈ receivers, mac ∈ priv.childList) := by
  unfold FilterRight
  by_cases hself : priv.selfMac ∈ receivers <;> cases child <;> simp [hself, filterRes]

/-! ### Main result -/

/-- The filter is right about a data frame exactly when no null entry is followed and no child is
    hidden behind the node itself. -/
theorem data_frame_filtered_iff (frame : Memory) (htype : priv.otaType = .partialNode)
    (hdata : frame (hdrOffset priv frame) = RMESH_OTA_DATA) :
    let priv' := rmeshOtaPreparePart2 priv topology listAllocated
    FilterRight priv' (otaReceivers priv' frame) (rmeshOtaPktFilter priv' frame) ↔
      ChildrenAhead priv' (otaReceivers priv' frame) := by
  intro priv'
  have htype' : priv'.otaType = .partialNode := by
    simpa only [priv', rmeshOtaPreparePart2, apply_ite, ite_self] using htype
  have hdata' : frame (hdrOffset priv' frame) = RMESH_OTA_DATA := by
    simpa only [hdrOffset, priv', rmeshOtaPreparePart2, apply_ite, ite_self] using hdata
  have hfilter : rmeshOtaPktFilter priv' frame =
      (findReceivers priv' false (otaReceivers priv' frame)).map filterRes := by
    rw [rmeshOtaPktFilter, hdata', htype']
    rfl
  have hle : priv'.childList.length ≤ priv'.childNum := childList_le_childNum ..
  rw [hfilter, findReceivers_eq hle]
  unfold ChildrenAhead
  split_ifs with hentries
  · rw [Option.map_some, filterRight_map, Bool.false_or, decide_eq_true_iff, and_iff_right hentries]
    refine ⟨Iff.mpr, fun h => ⟨?_, h⟩⟩
    rintro ⟨mac, hmac, hchild⟩
    exact ⟨mac, (List.takeWhile_sublist _).subset hmac, hchild⟩
  · constructor
    · rintro ⟨r, hr, _⟩
      cases hr
    · exact fun h => absurd h.1 hentries

/-- A node without IV in an update of the nodes 1 and 2, of which it is the first. -/
def firstOfTwo : FilterPriv := ⟨0, .partialNode, 1, 1, 9, 0, []⟩

def secondBelow : Topology := ⟨1, 9, [⟨2, 2, true⟩]⟩

/-- A broadcast data frame for the given nodes. -/
def dataFrame (receivers : List UInt8) : Memory := fun a =>
  if 4 ≤ a ∧ a < 10 then 0xFF
  else if a = 38 then UInt8.ofNat receivers.length
  else if 39 ≤ a ∧ (a - 39) % 6 = 0 then receivers.getD ((a - 39) / 6) 0 else 0

theorem child_first_relayed : FilterRight (rmeshOtaPreparePart2 firstOfTwo secondBelow true) [2, 1]
      (rmeshOtaPktFilter (rmeshOtaPreparePart2 firstOfTwo secondBelow true) (dataFrame [2, 1])) :=
  (data_frame_filtered_iff firstOfTwo secondBelow true (dataFrame [2, 1]) rfl rfl).mpr
    ⟨.inl rfl, fun _ => ⟨2, by decide, by decide⟩⟩

/-- A child behind the node itself gets nothing relayed. -/
theorem child_second_not_relayed : otaReceivers firstOfTwo (dataFrame [1, 2]) = [1, 2] ∧
    ¬ FilterRight (rmeshOtaPreparePart2 firstOfTwo secondBelow true) [1, 2]
      (rmeshOtaPktFilter (rmeshOtaPreparePart2 firstOfTwo secondBelow true)
        (dataFrame [1, 2])) := by
  refine ⟨by decide, ?_⟩
  rintro ⟨r, hr, _, hrelay⟩
  obtain rfl : FilterRes.selfProcess = r := Option.some.inj ((by decide : _ = _).trans hr)
  exact absurd (hrelay.mpr ⟨2, by decide, by decide⟩) (by decide)

end AmebaRtos.Mesh
