import AmebaRtos.Diagnose.HostTool

/-!
# What the tool makes of a frame

The answers of the device, one lemma for each kind: whole events are recorded, a large event
is opened by its first fragment, continued by the middle ones and recorded with the last.
-/

namespace AmebaRtos.Diagnose

open Lib List

/-! ### The frame around the payload -/

/-- The commands of the answers, with the place of their payload in an event. -/
def eventCommands : List (UInt8 × UInt8) :=
  [(0x03, PKG_EVT_START), (0x13, PKG_EVT_MID), (0x23, PKG_EVT_END)]

theorem processMessage_frame (hcmd : (cmd, segBits) ∈ eventCommands)
    (hsize : payload.length + 1 < 2 ^ 16) (h : Host) :
    processMessage h (DataFrame.bytes ⟨cmd, payload⟩) =
      handleGetEventResponse h payload segBits := by
  generalize hf : DataFrame.mk cmd payload = f
  obtain ⟨rfl, rfl⟩ : f.cmd = cmd ∧ f.payload = payload := by simp [← hf]
  have hlen : ¬ f.bytes.length < PKG_FIEXD_BYTES := by
    simp only [DataFrame.bytes, length_append, length_cons, length_toLE,
      PKG_FIEXD_BYTES]
    omega
  have hid : f.bytes.take 2 = [0x72, 0x74] := rfl
  have hfield : (f.bytes.drop 2).take 2 = toLE 2 (f.payload.length + 1) := rfl
  have hbody : (f.bytes.drop 4).dropLast = f.cmd :: f.payload := by
    change (f.cmd :: (f.payload ++ [f.crc])).dropLast = _
    rw [← cons_append, dropLast_concat]
  have hpayload : (f.bytes.drop 5).dropLast = f.payload := by
    change (f.payload ++ [f.crc]).dropLast = _
    rw [dropLast_concat]
  have hlast : f.bytes.getLastD 0 = f.crc := by
    have hsnoc : f.bytes = ([0x72, 0x74] ++ (toLE 2 (f.payload.length + 1) ++
        (f.cmd :: f.payload))) ++ [f.crc] := by
      simp [DataFrame.bytes]
    rw [hsnoc, getLastD_concat]
  have hvalue : fromLE (toLE 2 (f.payload.length + 1)) = f.payload.length + 1 := fromLE_toLE hsize
  have hget : f.bytes.getD 4 0 = f.cmd := rfl
  obtain ⟨htype, herr, hsegment⟩ : f.cmd &&& PKG_CMD_TYPE_BIT = CMD_READ ∧
      f.cmd &&& PKG_CMD_ERR_BIT = 0 ∧ f.cmd &&& PKG_CMD_SEG_BIT = segBits := by
    simp only [eventCommands, mem_cons, Prod.mk.injEq, not_mem_nil, or_false] at hcmd
    rcases hcmd with ⟨hcode, rfl⟩ | ⟨hcode, rfl⟩ | ⟨hcode, rfl⟩ <;> rw [hcode] <;> decide
  have hcrc : ¬ validateCrc f.cmd f.payload f.crc = false := by simp [validateCrc, DataFrame.crc]
  simp only [processMessage, if_neg hlen, hid, hfield, hbody, hpayload, hlast, hvalue, hget,
    htype, herr, hsegment, if_neg hcrc, length_cons, ne_eq, not_true_eq_false, if_false]

/-! ### Whole events -/

def StoredEvent.toHeader (e : StoredEvent) : RtkEvent := { e.toRtk with eventInfo := [] }

section Parse

variable {e : StoredEvent}

theorem parseEventHeader_header (he : e.Typed) :
    parseEventHeader (e.header ++ rest) = some e.toHeader := by
  have hlen : ¬ (e.header ++ rest).length < EVT_FIXED_BYTES := by
    simp [SIZEOF_EVENT, EVT_FIXED_BYTES]
  have hsize : e.evtLen < 2 ^ 16 := lt_of_le_of_lt (Nat.le_add_left _ _) he.size
  have hrsvd : (e.rsvd.toList ++ rest).take 3 = e.rsvd.toList := take_left' (by simp)
  rw [parseEventHeader, if_neg hlen]
  simp only [StoredEvent.header, append_assoc]
  have htype : fromLE (toLE 2 e.evtType) = e.evtType := fromLE_toLE he.type
  have hlength : fromLE (toLE 2 e.evtLen) = e.evtLen := fromLE_toLE hsize
  have htime : fromLE (toLE 4 e.evtTime) = e.evtTime := fromLE_toLE he.time
  have hlevel : fromLE (toLE 1 e.evtLevel) = e.evtLevel := fromLE_toLE he.level
  have hfields : ∀ tail : List UInt8,
      (toLE 2 e.evtType ++
        (toLE 2 e.evtLen ++ (toLE 4 e.evtTime ++ (toLE 1 e.evtLevel ++ tail)))).drop
        9 = tail := fun _ => rfl
  rw [hfields, hrsvd]
  exact congrArg some (RtkEvent.mk.injEq .. ▸ ⟨htype, hlength, htime, hlevel, rfl, rfl⟩)

theorem whole_cons (he : e.Typed) (c : List StoredEvent) : (e :: c).flatMap StoredEvent.bytes ≠ [] ∧
      parseEventHeader ((e :: c).flatMap StoredEvent.bytes) = some e.toHeader ∧
      ((e :: c).flatMap StoredEvent.bytes).drop e.realSize = c.flatMap StoredEvent.bytes ∧
      ((e :: c).flatMap StoredEvent.bytes).length =
        e.realSize + (c.flatMap StoredEvent.bytes).length := by
  have hlen : ((e :: c).flatMap StoredEvent.bytes).length =
      e.realSize + (c.flatMap StoredEvent.bytes).length := by
    rw [flatMap_cons, length_append, e.length_bytes]
  refine ⟨?_, ?_, ?_, hlen⟩
  · intro hnil
    have hpos := e.realSize_pos
    rw [hnil, length_nil] at hlen
    omega
  · rw [flatMap_cons, StoredEvent.bytes, append_assoc]
    exact parseEventHeader_header he
  · rw [flatMap_cons, drop_left' e.length_bytes]

theorem toHeader_size (e : StoredEvent) : e.toHeader.eventLength + EVT_FIXED_BYTES = e.realSize :=
  add_comm _ _

theorem scanEvents_whole {c : List StoredEvent} (htyped : ∀ e ∈ c, e.Typed) {fuel : Nat}
    (hfuel : (c.flatMap StoredEvent.bytes).length < fuel) (seen : Bool) :
    scanEvents fuel (c.flatMap StoredEvent.bytes) seen = (seen || !c.isEmpty, false) := by
  induction c generalizing fuel seen with
    (obtain ⟨fuel, rfl⟩ := Nat.exists_eq_succ_of_ne_zero (Nat.ne_zero_of_lt hfuel))
  | nil => simp [scanEvents]
  | cons e c ih =>
    obtain ⟨hne, hparse, hdrop, hlen⟩ := whole_cons (htyped e (.head _)) c
    have hpos := e.realSize_pos
    rw [scanEvents, if_neg hne, hparse]
    simp only [toHeader_size, hdrop]
    rw [ih (fun e' he' => htyped e' (.tail e he')) (by omega)]
    simp

def advance (timestamp offset : Nat) : List StoredEvent → Nat × Nat
  | [] => (timestamp, offset)
  | e :: c =>
    advance e.evtTime (if e.evtTime ≠ timestamp then e.realSize else offset + e.realSize) c

theorem completeEvents_whole {endTime : Nat} {c : List StoredEvent} (htyped : ∀ e ∈ c, e.Typed)
    (hend : ∀ e ∈ c, e.evtTime < endTime) {fuel : Nat}
    (hfuel : (c.flatMap StoredEvent.bytes).length < fuel) (timestamp offset : Nat)
    (size : Option Nat) (events : List RtkEvent) :
    completeEvents endTime fuel (c.flatMap StoredEvent.bytes) timestamp offset size events =
      (events ++ c.map StoredEvent.toRtk,
        .done (advance timestamp offset c).1 (advance timestamp offset c).2) := by
  induction c generalizing fuel timestamp offset size events with
    (obtain ⟨fuel, rfl⟩ := Nat.exists_eq_succ_of_ne_zero (Nat.ne_zero_of_lt hfuel))
  | nil => simp [completeEvents, advance]
  | cons e c ih =>
    obtain ⟨hne, hparse, hdrop, hlen⟩ := whole_cons (htyped e (.head _)) c
    have hpos := e.realSize_pos
    have hheader : e.header.length = EVT_FIXED_BYTES := e.length_header
    have hdata : e.evtInfo.length = e.toHeader.eventLength := rfl
    have hinfo : (((e :: c).flatMap StoredEvent.bytes).drop EVT_FIXED_BYTES).take
        e.toHeader.eventLength = e.evtInfo := by
      rw [flatMap_cons, StoredEvent.bytes, append_assoc, drop_left' hheader, take_left' hdata]
    have hfits : ¬ e.realSize > ((e :: c).flatMap StoredEvent.bytes).length := by omega
    have hkept : e.toHeader.eventTime < endTime := hend e (.head _)
    rw [completeEvents, hparse]
    simp only [toHeader_size, hdrop, hinfo, if_pos hkept, if_neg hfits]
    rw [ih (fun e' he' => htyped e' (.tail e he'))
      (fun e' he' => hend e' (.tail e he')) (by omega)]
    simp only [append_assoc]
    rfl

end Parse

section Handle

variable {h : Host}

theorem take_payload (hg : g < 2 ^ 16) : fromLE ((toLE 2 g ++ data).take PKG_OFFSET_BYTES) = g := by
  have hlen : (toLE 2 g).length = PKG_OFFSET_BYTES := length_toLE
  rw [take_left' hlen, fromLE_toLE hg]

theorem drop_payload : (toLE 2 g ++ data).drop PKG_OFFSET_BYTES = data :=
  drop_left' length_toLE

theorem length_payload : (toLE 2 g ++ data).length = PKG_OFFSET_BYTES + data.length := by
  rw [length_append, length_toLE, PKG_OFFSET_BYTES]

theorem payload_ne_nil : toLE 2 g ++ data ≠ [] := by
  simp [toLE]

theorem check_whole {c : List StoredEvent} (hne : c ≠ []) (htyped : ∀ e ∈ c, e.Typed) :
    checkIsAllCompleteEvents (toLE 2 g ++ c.flatMap StoredEvent.bytes) = .complete := by
  have hlen : ¬ (toLE 2 g ++ c.flatMap StoredEvent.bytes).length <
      PKG_OFFSET_BYTES + EVT_FIXED_BYTES := by
    obtain ⟨e, c, rfl⟩ := exists_cons_of_ne_nil hne
    have hge := e.realSize_ge
    rw [length_payload, (whole_cons (htyped e mem_cons_self) c).2.2.2, EVT_FIXED_BYTES]
    rw [SIZEOF_EVENT] at hge
    omega
  have hscan := @scanEvents_whole c htyped _ (by
    rw [length_payload, PKG_OFFSET_BYTES]
    omega : _ < (toLE 2 g ++ c.flatMap StoredEvent.bytes).length) false
  have hempty : c.isEmpty = false := by simpa using hne
  rw [checkIsAllCompleteEvents, if_neg hlen, drop_payload, hscan, hempty]
  rfl

theorem advance_lt (hts : timestamp < endTime) (hend : ∀ e ∈ c, e.evtTime < endTime)
    (offset : Nat) :
    (advance timestamp offset c).1 < endTime := by
  induction c generalizing timestamp offset with
  | nil => exact hts
  | cons e c ih =>
    exact ih (hend e (.head _)) (fun e' he' => hend e' (.tail e he')) _

theorem Host.checkEndTime_of_lt (hts : h.currentTimestamp < h.endTime) : h.checkEndTime = h :=
  if_neg (not_le.mpr hts)

@[simp] theorem Host.dropLargeEvent_endTime (h : Host) : h.dropLargeEvent.endTime = h.endTime := by
  unfold Host.dropLargeEvent
  split <;> rfl

@[simp] theorem Host.dropLargeEvent_timestamp :
    h.dropLargeEvent.currentTimestamp = h.currentTimestamp := by
  unfold Host.dropLargeEvent
  split <;> rfl

@[simp] theorem Host.dropLargeEvent_offset : h.dropLargeEvent.currentOffset = h.currentOffset := by
  unfold Host.dropLargeEvent
  split <;> rfl

@[simp] theorem Host.dropLargeEvent_events (h : Host) :
    h.dropLargeEvent.rtkEvents = h.rtkEvents := by
  unfold Host.dropLargeEvent
  split <;> rfl

@[simp] theorem Host.dropLargeEvent_output (h : Host) : h.dropLargeEvent.output = h.output := by
  unfold Host.dropLargeEvent
  split <;> rfl

def Host.recorded (h : Host) (g : Nat) (c : List StoredEvent) : Host :=
  { h.dropLargeEvent with
    rtkEvents := h.rtkEvents ++ c.map StoredEvent.toRtk
    currentTimestamp := (advance h.currentTimestamp g c).1
    currentOffset := (advance h.currentTimestamp g c).2
    currentReadState := .startOrComplete }

theorem handle_whole (hg : g < 2 ^ 16) (hne : c ≠ []) (htyped : ∀ e ∈ c, e.Typed)
    (hend : ∀ e ∈ c, e.evtTime < h.endTime) (hts : h.currentTimestamp < h.endTime)
    (hlong : EVT_FIXED_BYTES < (c.flatMap StoredEvent.bytes).length) :
    handleGetEventResponse h (toLE 2 g ++ c.flatMap StoredEvent.bytes) PKG_EVT_START =
      (h.recorded g c, true) := by
  have hlen : ¬ (toLE 2 g ++ c.flatMap StoredEvent.bytes).length ≤
      EVT_FIXED_BYTES + PKG_OFFSET_BYTES := by
    rw [length_payload]
    omega
  have hloop := @completeEvents_whole h.endTime c htyped hend _ (by
    rw [length_payload, PKG_OFFSET_BYTES]
    omega : _ < (toLE 2 g ++ c.flatMap StoredEvent.bytes).length) h.currentTimestamp g none
    h.rtkEvents
  have hprocess : processCompleteEvents h.dropLargeEvent (toLE 2 g ++ c.flatMap StoredEvent.bytes) =
      ({ h.dropLargeEvent with
          rtkEvents := h.rtkEvents ++ c.map StoredEvent.toRtk
          currentOffset := (advance h.currentTimestamp g c).2
          currentTimestamp := (advance h.currentTimestamp g c).1 },
        .done (advance h.currentTimestamp g c).1 (advance h.currentTimestamp g c).2) := by
    simp only [processCompleteEvents, if_neg hlen, take_payload hg, drop_payload,
      Host.dropLargeEvent_endTime, Host.dropLargeEvent_timestamp, Host.dropLargeEvent_events, hloop]
  have hafter : (h.recorded g c).checkEndTime = h.recorded g c := by
    apply Host.checkEndTime_of_lt
    simpa [Host.recorded] using advance_lt hts hend g
  simp only [handleGetEventResponse, check_whole hne htyped,
    hprocess]
  exact congrArg (·, true) hafter

theorem handle_bare (he : e.Typed) (hbare : e.evtLen = 0) (hts : h.currentTimestamp < h.endTime) :
    handleGetEventResponse h (toLE 2 g ++ [e].flatMap StoredEvent.bytes) PKG_EVT_START =
      ({ h.dropLargeEvent with currentReadState := .startOrComplete }, false) := by
  have hlen : (toLE 2 g ++ [e].flatMap StoredEvent.bytes).length ≤
      EVT_FIXED_BYTES + PKG_OFFSET_BYTES := by
    rw [length_payload, (whole_cons he []).2.2.2, DiagEvent.realSize, hbare]
    simp [SIZEOF_EVENT, EVT_FIXED_BYTES, PKG_OFFSET_BYTES]
  have hcheck := @check_whole g [e] (by simp) (by simpa using he)
  have hafter : Host.checkEndTime { h.dropLargeEvent with currentReadState := .startOrComplete } =
      { h.dropLargeEvent with currentReadState := .startOrComplete } := by
    apply Host.checkEndTime_of_lt
    simpa using hts
  simp only [handleGetEventResponse, if_neg payload_ne_nil, if_true, hcheck,
    processCompleteEvents, if_pos hlen, hafter]

/-! ### Fragments -/

def StoredEvent.upTo (e : StoredEvent) (n : Nat) : RtkEvent :=
  { e.toHeader with eventInfo := (e.bytes.take n).drop EVT_FIXED_BYTES }

/-- The first fragment of an event, of `n` bytes, has arrived. -/
def Host.opened (h : Host) (g n : Nat) (e : StoredEvent) : Host :=
  { h.dropLargeEvent with
    currentLargeEvent := some (e.upTo n)
    receivedLargeEventInfoLength :=
      if n - EVT_FIXED_BYTES ≠ 0 then n - EVT_FIXED_BYTES
      else h.dropLargeEvent.receivedLargeEventInfoLength
    currentTimestamp := e.evtTime
    currentOffset := if e.evtTime ≠ h.currentTimestamp then n else g + n
    currentReadState := .bigFirstSeg }

theorem handle_large (hg : g < 2 ^ 16) (he : e.Typed) (hn : EVT_FIXED_BYTES ≤ n)
    (hlarge : n < e.realSize) (hend : e.evtTime < h.endTime) :
    handleGetEventResponse h (toLE 2 g ++ e.bytes.take n) PKG_EVT_START =
      (h.opened g n e, true) := by
  have hlen : (e.bytes.take n).length = n := by
    rw [length_take, e.length_bytes, min_eq_left (le_of_lt hlarge)]
  have hparse : parseEventHeader (e.bytes.take n) = some e.toHeader := by
    rw [StoredEvent.bytes, take_append, take_of_length_le (le_trans (le_of_eq e.length_header) hn)]
    exact parseEventHeader_header he
  have hne : e.bytes.take n ≠ [] := by
    intro hnil
    rw [hnil] at hlen
    rw [← hlen] at hn
    exact absurd hn (by decide)
  have hcheck : checkIsAllCompleteEvents (toLE 2 g ++ e.bytes.take n) = .fragment := by
    have hshort : ¬ (toLE 2 g ++ e.bytes.take n).length < PKG_OFFSET_BYTES + EVT_FIXED_BYTES := by
      rw [length_payload]
      omega
    have hpart : ¬ e.toHeader.eventLength + EVT_FIXED_BYTES ≤ (e.bytes.take n).length := by
      rw [toHeader_size, hlen]
      exact not_le.mpr hlarge
    have hfuel : (toLE 2 g ++ e.bytes.take n).length = n + 1 + 1 := by
      rw [length_payload, PKG_OFFSET_BYTES]
      omega
    rw [checkIsAllCompleteEvents, if_neg hshort, drop_payload, hfuel, scanEvents, if_neg hne,
      hparse]
    simp only [if_neg hpart]
  have hlong : ¬ (toLE 2 g ++ e.bytes.take n).length < EVT_FIXED_BYTES + PKG_OFFSET_BYTES := by
    rw [length_payload]
    omega
  have hkept : e.toHeader.eventTime < h.dropLargeEvent.endTime := by
    rw [Host.dropLargeEvent_endTime]
    exact hend
  have hstart : processLargeEventStart h.dropLargeEvent (toLE 2 g ++ e.bytes.take n) =
      ({ h.opened g n e with currentReadState := h.dropLargeEvent.currentReadState }, true) := by
    simp only [processLargeEventStart, if_neg hlong, drop_payload, take_payload hg, hparse,
      if_pos hkept, hlen, Host.dropLargeEvent_timestamp]
    rfl
  have hafter : (h.opened g n e).checkEndTime = h.opened g n e := by
    apply Host.checkEndTime_of_lt
    simpa [Host.opened] using hend
  simp only [handleGetEventResponse, hcheck, hstart]
  exact congrArg (·, true) hafter

def Host.continued (h : Host) (large : RtkEvent) (data : List UInt8) : Host :=
  { h with
    currentLargeEvent := some { large with eventInfo := large.eventInfo ++ data }
    currentOffset := h.currentOffset + data.length
    receivedLargeEventInfoLength := h.receivedLargeEventInfoLength + data.length
    currentReadState := .bigMiddleSeg }

def Host.closed (h : Host) (large : RtkEvent) (data : List UInt8) : Host :=
  { h with
    rtkEvents := h.rtkEvents ++ [{ large with eventInfo := large.eventInfo ++ data }]
    currentOffset := h.currentOffset + data.length
    currentLargeEvent := none
    receivedLargeEventInfoLength := 0
    currentReadState := .startOrComplete }

/-- The length of a fragment that is accepted: a middle one leaves room, the last one leaves
    none. -/
def Host.Fits (h : Host) (middle : Bool) (large : RtkEvent) (data : List UInt8) : Prop :=
  if middle then h.receivedLargeEventInfoLength + data.length ≤ large.eventLength
  else h.receivedLargeEventInfoLength + data.length = large.eventLength

def Host.extended (h : Host) (middle : Bool) (large : RtkEvent) (data : List UInt8) : Host :=
  if middle then h.continued large data else h.closed large data

theorem handle_segment (middle : Bool) (data : List UInt8) :
    handleGetEventResponse h (toLE 2 g ++ data) (if middle then PKG_EVT_MID else PKG_EVT_END) =
      if h.currentReadState = .startOrComplete then (h, false)
      else
        (Host.checkEndTime { (processLargeEventSegment h (toLE 2 g ++ data) middle).1 with
          currentReadState := if middle then .bigMiddleSeg else .startOrComplete },
          (processLargeEventSegment h (toLE 2 g ++ data) middle).2) := by
  cases middle <;> rfl

section Segment

variable {data : List UInt8} (hg : g < 2 ^ 16) (hdata : data ≠ [])
  (hts : h.currentTimestamp < h.endTime)

theorem handle_refused (hts : h.currentTimestamp < h.endTime)
    (hfail : h.currentReadState ≠ .startOrComplete →
      processLargeEventSegment h (toLE 2 g ++ data) middle = (h, false)) :
    ∃ state, handleGetEventResponse h (toLE 2 g ++ data)
      (if middle then PKG_EVT_MID else PKG_EVT_END) =
      ({ h with currentReadState := state }, false) := by
  rw [handle_segment]
  by_cases hstate : h.currentReadState = .startOrComplete
  · exact ⟨h.currentReadState, if_pos hstate⟩
  · refine ⟨if middle then .bigMiddleSeg else .startOrComplete, ?_⟩
    rw [if_neg hstate, hfail hstate]
    exact congrArg (·, false) (Host.checkEndTime_of_lt hts)

include hg hdata hts

theorem handle_fragment (middle : Bool) :
    (∃ large, h.currentReadState ≠ .startOrComplete ∧ h.currentLargeEvent = some large ∧
      h.currentOffset = g ∧ h.Fits middle large data ∧
      handleGetEventResponse h (toLE 2 g ++ data) (if middle then PKG_EVT_MID else PKG_EVT_END) =
        (h.extended middle large data, true)) ∨
    ((∀ large, h.currentReadState ≠ .startOrComplete → h.currentLargeEvent = some large →
      h.currentOffset = g → ¬ h.Fits middle large data) ∧
      ∃ state, handleGetEventResponse h (toLE 2 g ++ data)
        (if middle then PKG_EVT_MID else PKG_EVT_END) =
        ({ h with currentReadState := state }, false)) := by
  have hlong : ¬ (toLE 2 g ++ data).length ≤ PKG_OFFSET_BYTES := by
    have hpos := length_pos_iff.mpr hdata
    rw [length_payload]
    omega
  by_cases hfits : ∃ large, h.currentReadState ≠ .startOrComplete ∧
      h.currentLargeEvent = some large ∧ h.currentOffset = g ∧ h.Fits middle large data
  · obtain ⟨large, hstate, hlarge, rfl, hlen⟩ := hfits
    refine .inl ⟨large, hstate, hlarge, rfl, hlen, ?_⟩
    have hseg : processLargeEventSegment h (toLE 2 h.currentOffset ++ data) middle =
        ({ h.extended middle large data with currentReadState := h.currentReadState }, true) := by
      simp only [processLargeEventSegment, if_neg hlong, hlarge, take_payload hg, drop_payload,
        ne_eq]
      cases middle with
      | true =>
        rw [if_neg (not_lt.mpr hlen)]
        rfl
      | false =>
        have hlen : h.receivedLargeEventInfoLength + data.length = large.eventLength := hlen
        rw [if_neg (not_not_intro hlen)]
        rfl
    have heq := @handle_segment h h.currentOffset middle data
    rw [if_neg hstate, hseg] at heq
    refine heq.trans (congrArg (·, true) ?_)
    cases middle <;> exact Host.checkEndTime_of_lt hts
  · refine .inr ⟨?_, handle_refused hts ?_⟩
    · intro large hstate hlarge hoff hlen
      exact hfits ⟨large, hstate, hlarge, hoff, hlen⟩
    · intro hstate
      simp only [processLargeEventSegment, if_neg hlong, take_payload hg, drop_payload]
      split
      · rfl
      rename_i large hlarge
      by_cases hoff : h.currentOffset = g
      · have hne : ¬ h.Fits middle large data :=
          fun hlen => hfits ⟨large, hstate, hlarge, hoff, hlen⟩
        cases middle with
        | true => simp [not_le.mp hne]
        | false => simp [show h.receivedLargeEventInfoLength + data.length ≠ _ from hne]
      · simp [hoff]

end Segment

end Handle

/-! ### What is kept -/

structure Host.Kept (endTime : Nat) (h : Host) : Prop where
  ends : h.endTime ≤ endTime
  events : ∀ x ∈ h.rtkEvents, x.eventTime < endTime
  large : ∀ x ∈ h.currentLargeEvent, x.eventTime < endTime
  output : ∀ l ∈ h.output, ∀ x ∈ l, x.eventTime < endTime

section Kept

variable {endTime : Nat} {h : Host}

theorem Host.Kept.init (endTime : Nat) : (Host.init endTime).Kept endTime :=
  ⟨le_refl _, by simp [Host.init], by simp [Host.init], by simp [Host.init]⟩

theorem Host.Kept.dropLargeEvent (hk : h.Kept endTime) : h.dropLargeEvent.Kept endTime := by
  rw [Host.dropLargeEvent]
  split
  · exact hk
  · exact { hk with large := by simp [Host.clearLargeEventInfo] }

theorem Host.Kept.finalize (hk : h.Kept endTime) : h.finalizeGetDiagEvents.Kept endTime := by
  refine ⟨Nat.zero_le _, by simp [Host.finalizeGetDiagEvents], hk.large, ?_⟩
  intro l hl
  cases hl
  exact hk.events

theorem Host.Kept.checkEndTime (hk : h.Kept endTime) : h.checkEndTime.Kept endTime := by
  rw [Host.checkEndTime]
  split
  · exact hk.finalize
  · exact hk

theorem completeEvents_kept (fuel : Nat) {limit : Nat} (hlimit : limit ≤ endTime)
    {data : List UInt8} {timestamp offset : Nat} {size : Option Nat} {events : List RtkEvent}
    (hevents : ∀ x ∈ events, x.eventTime < endTime) :
    ∀ x ∈ (completeEvents limit fuel data timestamp offset size events).1,
      x.eventTime < endTime := by
  induction fuel generalizing data timestamp offset size events with
  | zero => exact hevents
  | succ fuel ih =>
    simp only [completeEvents]
    split
    · exact hevents
    split
    · exact hevents
    rename_i header _
    have hkept : ∀ x ∈ (if header.eventTime < limit then
        events ++ [{ header with eventInfo := (data.drop EVT_FIXED_BYTES).take header.eventLength }]
        else events), x.eventTime < endTime := by
      split
      · rename_i hlt
        intro x hx
        rcases mem_append.mp hx with hx | hx
        · exact hevents x hx
        · rw [mem_singleton.mp hx]
          exact lt_of_lt_of_le hlt hlimit
      · exact hevents
    split
    · exact hkept
    · split
      · exact hkept
      · exact ih hkept

variable (hk : h.Kept endTime)
include hk

theorem Host.Kept.processCompleteEvents (response : List UInt8) :
    (processCompleteEvents h response).1.Kept endTime := by
  rw [Diagnose.processCompleteEvents]
  split
  · exact hk
  have hevents := @completeEvents_kept endTime response.length _ hk.ends
    (response.drop PKG_OFFSET_BYTES) h.currentTimestamp
      (fromLE (response.take PKG_OFFSET_BYTES)) none
    _ hk.events
  simp only
  split
  · rename_i hrun
    rw [hrun] at hevents
    exact { hk with events := hevents }
  · rename_i hrun
    rw [hrun] at hevents
    exact { hk with events := hevents }

theorem Host.Kept.processLargeEventStart (response : List UInt8) :
    (processLargeEventStart h response).1.Kept endTime := by
  simp only [Diagnose.processLargeEventStart]
  split
  · exact hk
  split
  · exact hk
  split
  · rename_i hlt
    refine { hk with large := ?_ }
    intro x hx
    cases hx
    exact lt_of_lt_of_le hlt hk.ends
  · exact hk

theorem Host.Kept.processLargeEventSegment (response : List UInt8)
    (isMiddleSeg : Bool) : (processLargeEventSegment h response isMiddleSeg).1.Kept endTime := by
  simp only [Diagnose.processLargeEventSegment]
  split
  · exact hk
  split
  · exact hk
  rename_i large hlarge
  have hbefore : large.eventTime < endTime := hk.large large hlarge
  split
  · exact hk
  split
  · split
    · exact hk
    refine { hk with large := ?_ }
    intro x hx
    cases hx
    exact hbefore
  split
  · exact hk
  refine { hk with events := ?_, large := by simp }
  intro x hx
  rcases mem_append.mp hx with hx | hx
  · exact hk.events x hx
  · rw [mem_singleton.mp hx]
    exact hbefore

theorem Host.Kept.handleGetEventResponse (response : List UInt8)
    (segType : UInt8) : (handleGetEventResponse h response segType).1.Kept endTime := by
  simp only [Diagnose.handleGetEventResponse]
  split
  · exact hk.dropLargeEvent.finalize
  split
  · have hcomplete := hk.dropLargeEvent.processCompleteEvents response
    split
    · split <;> rename_i hrun <;> rw [hrun] at hcomplete
      · exact hcomplete
      · exact Host.Kept.checkEndTime { hcomplete with }
      · exact Host.Kept.checkEndTime { hcomplete with }
    · exact Host.Kept.checkEndTime { hk.dropLargeEvent.processLargeEventStart response with }
    · exact hk.dropLargeEvent
  · split
    · split
      · exact hk
      · exact Host.Kept.checkEndTime { hk.processLargeEventSegment response _ with }
    · exact hk.checkEndTime

theorem Host.Kept.processMessage (pkg : List UInt8) : (processMessage h pkg).1.Kept endTime := by
  simp only [Diagnose.processMessage]
  repeat' split
  all_goals first
    | exact hk
    | exact hk.handleGetEventResponse _ _

end Kept

end AmebaRtos.Diagnose
