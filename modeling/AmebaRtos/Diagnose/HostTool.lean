import AmebaRtos.Diagnose.Protocol

/-!
# The tool that reads the events

`diagnose_diag_controller.py`: the tool asks for events from the timestamp and offset that follow
from the frames it has received. It takes apart frames of whole events, joins the fragments of
large ones, and keeps the events older than its end time. An empty frame or the end time hands the
events over and ends the loop.

Slices of a buffer at a position are here what is left of the buffer. A Python exception is an
outcome of its own where the code behind it is skipped.
-/

namespace AmebaRtos.Diagnose

open Lib

def EVT_FIXED_BYTES : Nat := 12
def PKG_OFFSET_BYTES : Nat := 2
def PKG_FIEXD_BYTES : Nat := 6
def CMD_READ : UInt8 := 0x03
def PKG_CMD_TYPE_BIT : UInt8 := 0x0f
def PKG_CMD_SEG_BIT : UInt8 := 0x30
def PKG_CMD_ERR_BIT : UInt8 := 0x80
def PKG_EVT_START : UInt8 := 0x00
def PKG_EVT_MID : UInt8 := 0x10
def PKG_EVT_END : UInt8 := 0x20
def MAX_RETRIES : Nat := 3

structure RtkEvent where
  eventType : Nat
  eventLength : Nat
  eventTime : Nat
  eventLevel : Nat
  reserved : List UInt8
  eventInfo : List UInt8
deriving DecidableEq

/-- The event as the tool should see it. -/
def StoredEvent.toRtk (e : StoredEvent) : RtkEvent :=
  ⟨e.evtType, e.evtLen, e.evtTime, e.evtLevel, e.rsvd.toList, e.evtInfo⟩

inductive ReadState where
  | startOrComplete
  | bigFirstSeg
  | bigMiddleSeg
deriving DecidableEq

/-- The state of `DiagController` while it reads; `output` is what was handed over for
    conversion. -/
structure Host where
  endTime : Nat
  currentTimestamp : Nat
  currentOffset : Nat
  currentLargeEvent : Option RtkEvent
  receivedLargeEventInfoLength : Nat
  currentReadState : ReadState
  rtkEvents : List RtkEvent
  output : Option (List RtkEvent)

variable (h : Host)

namespace Host

def init (endTime : Nat) : Host := ⟨endTime, 0, 0, none, 0, .startOrComplete, [], none⟩

def clearLargeEventInfo : Host :=
  { h with currentLargeEvent := none, receivedLargeEventInfoLength := 0 }

def dropLargeEvent : Host :=
  if h.currentReadState = .startOrComplete then h else h.clearLargeEventInfo

def finalizeGetDiagEvents : Host :=
  { h with
    endTime := 0
    currentOffset := 0
    currentTimestamp := 0
    currentReadState := .startOrComplete
    output := some h.rtkEvents
    rtkEvents := [] }

/-- The end of `_handle_get_event_response`. -/
def checkEndTime : Host :=
  if h.currentTimestamp ≥ h.endTime then h.finalizeGetDiagEvents else h

end Host

/-! ### Taking a frame apart -/

/-- `_parse_event_header`, which leaves `event_info` open. -/
def parseEventHeader (buf : List UInt8) : Option RtkEvent :=
  if buf.length < EVT_FIXED_BYTES then none
  else some
    { eventType := fromLE (buf.take 2)
      eventLength := fromLE ((buf.drop 2).take 2)
      eventTime := fromLE ((buf.drop 4).take 4)
      eventLevel := fromLE ((buf.drop 8).take 1)
      reserved := (buf.drop 9).take 3
      eventInfo := [] }

inductive FrameKind where
  | fragment
  | complete
  | both
deriving DecidableEq

/-- The loop of `_check_is_all_complete_events`: whether there are complete events, and
    whether there is a part of one. -/
def scanEvents : Nat → List UInt8 → Bool → Bool × Bool
  | 0, _, hasComplete => (hasComplete, false)
  | fuel + 1, data, hasComplete =>
    if data = [] then (hasComplete, false)
    else
      match parseEventHeader data with
      | none => (hasComplete, true)
      | some header =>
        if header.eventLength + EVT_FIXED_BYTES ≤ data.length then
          scanEvents fuel (data.drop (header.eventLength + EVT_FIXED_BYTES)) true
        else (hasComplete, true)

variable (response : List UInt8)

def checkIsAllCompleteEvents : FrameKind :=
  if response.length < PKG_OFFSET_BYTES + EVT_FIXED_BYTES then .fragment
  else
    match scanEvents response.length (response.drop PKG_OFFSET_BYTES) false with
    | (true, true) => .both
    | (_, true) => .fragment
    | (true, false) => .complete
    | (false, false) => .both

/-- How the loop of `_process_complete_events` ends. -/
inductive LoopEnd where
  | done (timestamp offset : Nat)
  | failed
  | raised
deriving DecidableEq

/-- The loop of `_process_complete_events`. The size of an event is set only for kept events; its
    use before the first of them raises an exception. -/
def completeEvents (endTime : Nat) : Nat → List UInt8 → Nat → Nat → Option Nat → List RtkEvent →
    List RtkEvent × LoopEnd
  | 0, _, _, _, _, events => (events, .failed)
  | fuel + 1, data, timestamp, offset, fullPacketSize, events =>
    if data = [] then (events, .done timestamp offset)
    else
      match parseEventHeader data with
      | none => (events, .failed)
      | some header =>
        let eventInfo := (data.drop EVT_FIXED_BYTES).take header.eventLength
        let kept := header.eventTime < endTime
        let events := if kept then events ++ [{ header with eventInfo := eventInfo }] else events
        let fullPacketSize :=
          if kept then some (header.eventLength + EVT_FIXED_BYTES) else fullPacketSize
        match fullPacketSize with
        | none => (events, .raised)
        | some size =>
          if size > data.length then (events, .failed)
          else
            completeEvents endTime fuel (data.drop size) header.eventTime
              (if header.eventTime ≠ timestamp then size else offset + size) (some size) events

def processCompleteEvents : Host × LoopEnd :=
  if response.length ≤ EVT_FIXED_BYTES + PKG_OFFSET_BYTES then (h, .failed)
  else
    let pkgOffset := fromLE (response.take PKG_OFFSET_BYTES)
    match completeEvents h.endTime response.length (response.drop PKG_OFFSET_BYTES)
      h.currentTimestamp pkgOffset none h.rtkEvents with
    | (events, .done timestamp offset) =>
      ({ h with rtkEvents := events, currentOffset := offset, currentTimestamp := timestamp },
        .done timestamp offset)
    | (events, other) => ({ h with rtkEvents := events }, other)

def processLargeEventStart : Host × Bool :=
  if response.length < EVT_FIXED_BYTES + PKG_OFFSET_BYTES then (h, false)
  else
    let eventData := response.drop PKG_OFFSET_BYTES
    let pkgOffset := fromLE (response.take PKG_OFFSET_BYTES)
    match parseEventHeader eventData with
    | none => (h, false)
    | some header =>
      if header.eventTime < h.endTime then
        ({ h with
            currentLargeEvent := some { header with eventInfo := eventData.drop EVT_FIXED_BYTES }
            receivedLargeEventInfoLength :=
              if eventData.length - EVT_FIXED_BYTES ≠ 0 then eventData.length - EVT_FIXED_BYTES
              else h.receivedLargeEventInfoLength
            currentTimestamp := header.eventTime
            currentOffset :=
              if header.eventTime ≠ h.currentTimestamp then eventData.length
              else pkgOffset + eventData.length }, true)
      else (h, true)

def processLargeEventSegment (isMiddleSeg : Bool) : Host × Bool :=
  if response.length ≤ PKG_OFFSET_BYTES then (h, false)
  else
    match h.currentLargeEvent with
    | none => (h, false)
    | some large =>
      let eventData := response.drop PKG_OFFSET_BYTES
      let received := h.receivedLargeEventInfoLength + eventData.length
      if h.currentOffset ≠ fromLE (response.take PKG_OFFSET_BYTES) then (h, false)
      else if isMiddleSeg then
        if received > large.eventLength then (h, false)
        else
          ({ h with
              currentLargeEvent := some { large with eventInfo := large.eventInfo ++ eventData }
              currentOffset := h.currentOffset + eventData.length
              receivedLargeEventInfoLength := received }, true)
      else if received ≠ large.eventLength then (h, false)
      else
        ({ h with
            rtkEvents := h.rtkEvents ++ [{ large with eventInfo := large.eventInfo ++ eventData }]
            currentOffset := h.currentOffset + eventData.length
            currentLargeEvent := none
            receivedLargeEventInfoLength := 0 }, true)

/-- `_handle_get_event_response`, with the success of the result. -/
def handleGetEventResponse (segType : UInt8) : Host × Bool :=
  if response = [] then (h.dropLargeEvent.finalizeGetDiagEvents, true)
  else if segType = PKG_EVT_START then
    match checkIsAllCompleteEvents response with
    | .complete =>
      match processCompleteEvents h.dropLargeEvent response with
      | (h', .raised) => (h', false)
      | (h', .failed) => (Host.checkEndTime { h' with currentReadState := .startOrComplete }, false)
      | (h', .done _ _) =>
          (Host.checkEndTime { h' with currentReadState := .startOrComplete }, true)
    | .fragment =>
      (Host.checkEndTime { (processLargeEventStart h.dropLargeEvent response).1 with
        currentReadState := .bigFirstSeg }, (processLargeEventStart h.dropLargeEvent response).2)
    | .both => (h.dropLargeEvent, false)
  else if segType = PKG_EVT_MID ∨ segType = PKG_EVT_END then
    if h.currentReadState = .startOrComplete then (h, false)
    else
      let middle := decide (segType = PKG_EVT_MID)
      (Host.checkEndTime { (processLargeEventSegment h response middle).1 with
        currentReadState := if middle then .bigMiddleSeg else .startOrComplete },
        (processLargeEventSegment h response middle).2)
  else (h.checkEndTime, true)

def validateCrc (cmd : UInt8) (payload : List UInt8) (received : UInt8) : Bool :=
  payload.foldl (· ^^^ ·) cmd == received

/-- `_process_message` for the answer to `GET_EVT`. -/
def processMessage (pkg : List UInt8) : Host × Bool :=
  if pkg.length < PKG_FIEXD_BYTES then (h, false)
  else if pkg.take 2 ≠ [0x72, 0x74] then (h, false)
  else if fromLE ((pkg.drop 2).take 2) ≠ (pkg.drop 4).dropLast.length then (h, false)
  else
    let cmd := pkg.getD 4 0
    if cmd &&& PKG_CMD_TYPE_BIT ≠ CMD_READ then (h, false)
    else if cmd &&& PKG_CMD_ERR_BIT ≠ 0 then (h, false)
    else if validateCrc cmd (pkg.drop 5).dropLast (pkg.getLastD 0) = false then (h, false)
    else handleGetEventResponse h (pkg.drop 5).dropLast (cmd &&& PKG_CMD_SEG_BIT)

/-! ### The loop -/

/-- `send_diag_command`: sent until an answer is processed; `answer` is what the device sends, if
    anything. -/
def sendDiagCommand (answer : Option (List UInt8)) : Nat → Host → Host × Bool
  | 0, h => (h, false)
  | retries + 1, h =>
    match answer with
    | none => sendDiagCommand answer retries h
    | some pkg =>
      match processMessage h pkg with
      | (h', true) => (h', true)
      | (h', false) => sendDiagCommand answer retries h'

inductive ReadResult where
  | running
  | finished (h : Host) (answer : Option (List UInt8))
  | failed

/-- `get_diag_event`, for at most `fuel` commands. -/
def getDiagEvent (device : Nat → Nat → Option (List UInt8)) : Nat → Host → ReadResult
  | 0, _ => .running
  | fuel + 1, h =>
    match sendDiagCommand (device h.currentTimestamp h.currentOffset) MAX_RETRIES h with
    | (_, false) => .failed
    | (h', true) =>
      if h'.currentTimestamp ≠ 0 ∨ h'.currentOffset ≠ 0 then getDiagEvent device fuel h'
      else .finished h' (device h.currentTimestamp h.currentOffset)

end AmebaRtos.Diagnose
