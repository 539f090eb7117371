import AmebaRtos.Diagnose.Reading

/-!
# Reading the whole queue

The tool starts at timestamp and offset zero and asks until a frame is empty. While the queue
does not change it receives every event once, in order and with its bytes, exactly if

* every event is older than the end time of the tool,
* no frame consists of one event without data, which the tool refuses,
* no offset that it asks for leaves the 16 bits in which the device reads it, and
* deleted events with the timestamp of the first event do not shift the offsets behind the
  first frame, for which the device reports offset zero when it was asked for timestamp zero.
-/

namespace AmebaRtos.Diagnose

open Lib
open List hiding Vector

/-! ### The property -/

variable (events : List StoredEvent) (deleted : List DeletedEvent) (capacity : Nat)

/-- The answers of a device with this queue and frame buffer. -/
def device (timestamp offset : Nat) : Option (List UInt8) :=
  (rtkDiagReqGetEvent events deleted capacity timestamp offset).map DataFrame.bytes

/-- The loop ends behind an empty frame, and what was received is the list. -/
def Receives (h : Host) (received : List RtkEvent) : Prop :=
  ∃ fuel h', getDiagEvent (device events deleted capacity) fuel h =
    .finished h' (some (DataFrame.bytes ⟨0x03, []⟩)) ∧ h'.output = some received

abbrev ReadsAll (h : Host) : Prop :=
  Receives events deleted capacity h (events.map StoredEvent.toRtk)

/-! ### The condition -/

def firstChunk : List StoredEvent → List StoredEvent
  | [] => []
  | e :: es => if e.realSize > capacity then [e] else packed capacity (e :: es) 0

def chunksFrom (capacity : Nat) : Nat → List StoredEvent → List (List StoredEvent)
  | 0, _ => []
  | fuel + 1, es =>
    if es = [] then []
    else firstChunk capacity es ::
      chunksFrom capacity fuel (es.drop (firstChunk capacity es).length)

/-- The queue as it is sent. -/
def chunks (es : List StoredEvent) : List (List StoredEvent) :=
  chunksFrom capacity es.length es

def Bare (c : List StoredEvent) : Prop := c.length = 1 ∧ ∀ e ∈ c, e.evtLen = 0
deriving Decidable

def endOffset (sent : List StoredEvent) : Nat :=
  match sent.getLast? with
  | none => 0
  | some e => deletedAt e.evtTime deleted + sizeAt e.evtTime sent

def Passes (deleted : List DeletedEvent) : List StoredEvent → List (List StoredEvent) → Prop
  | _, [] => True
  | sent, c :: cs =>
    ¬ Bare c ∧ endOffset deleted (sent ++ c) < 2 ^ 16 ∧ Passes deleted (sent ++ c) cs

/-- The offsets of the tool agree with those of the device behind the first chunk, or the
    device starts the first event again before the tool has recorded it. -/
def InStep : List StoredEvent → Prop
  | [] => True
  | e :: es =>
    e.evtTime = 0 ∨ deletedAt e.evtTime deleted = 0 ∨
      if e.realSize > capacity then capacity ≤ deletedAt e.evtTime deleted
      else ∀ a ∈ (firstChunk capacity (e :: es)).getLast?, a.evtTime ≠ e.evtTime

/-- The whole queue can be read. -/
structure Readable (events : List StoredEvent) (deleted : List DeletedEvent)
    (capacity endTime : Nat) : Prop where
  beforeEnd : ∀ e ∈ events, e.evtTime < endTime
  passes : Passes deleted [] (chunks capacity events)
  inStep : InStep deleted capacity events

/-! ### The loop -/

variable {events : List StoredEvent} {deleted : List DeletedEvent}
  {capacity endTime timestamp offset : Nat} {e last : StoredEvent}

section Loop

def react (capacity : Nat) (h : Host) (r : FindResult) : Host × Bool :=
  processMessage h (rtkDiagProtoPackEvent capacity r).bytes

theorem device_eq (hfind : rtkDiagQueueFind events deleted timestamp (offset % 2 ^ 16) = some r) :
    device events deleted capacity timestamp offset =
      some (rtkDiagProtoPackEvent capacity r).bytes := by
  rw [device, rtkDiagReqGetEvent, hfind]
  rfl

theorem sendDiagCommand_ok (hok : processMessage h pkg = (h', true)) :
    sendDiagCommand (some pkg) MAX_RETRIES h = (h', true) := by
  simp only [MAX_RETRIES, sendDiagCommand, hok]

theorem receives_step
    (hfind : rtkDiagQueueFind events deleted h.currentTimestamp (h.currentOffset % 2 ^ 16) = some r)
    (hok : react capacity h r = (h', true))
    (hmore : h'.currentTimestamp ≠ 0 ∨ h'.currentOffset ≠ 0) :
    ReadsAll events deleted capacity h ↔ ReadsAll events deleted capacity h' := by
  have hnext : ∀ fuel, getDiagEvent (device events deleted capacity) (fuel + 1) h =
      getDiagEvent (device events deleted capacity) fuel h' := by
    intro fuel
    simp only [getDiagEvent, device_eq hfind, sendDiagCommand_ok hok, if_pos hmore]
  constructor
  · rintro ⟨fuel, last, hrun, hout⟩
    cases fuel with
    | zero => cases hrun
    | succ fuel => exact ⟨fuel, last, (hnext fuel).symm.trans hrun, hout⟩
  · rintro ⟨fuel, last, hrun, hout⟩
    exact ⟨fuel + 1, last, (hnext fuel).trans hrun, hout⟩

theorem react_noMore : react capacity h .noMore = (h.dropLargeEvent.finalizeGetDiagEvents, true) :=
  processMessage_frame (.head _) (Nat.one_lt_two_pow (by decide)) h

theorem receives_noMore
    (hfind : rtkDiagQueueFind events deleted h.currentTimestamp (h.currentOffset % 2 ^ 16) =
      some .noMore) :
    ReadsAll events deleted capacity h ↔ h.rtkEvents = events.map StoredEvent.toRtk := by
  have hlast : ∀ fuel, getDiagEvent (device events deleted capacity) (fuel + 1) h =
      .finished h.dropLargeEvent.finalizeGetDiagEvents (some (DataFrame.bytes ⟨0x03, []⟩)) := by
    intro fuel
    simp only [getDiagEvent, device_eq hfind]
    rw [sendDiagCommand_ok react_noMore]
    rfl
  have hout : h.dropLargeEvent.finalizeGetDiagEvents.output = some h.rtkEvents := by
    simp [Host.finalizeGetDiagEvents]
  constructor
  · rintro ⟨fuel, last, hrun, hreceived⟩
    cases fuel with
    | zero => cases hrun
    | succ fuel =>
      rw [hlast] at hrun
      cases hrun
      exact Option.some.inj (hout.symm.trans hreceived)
  · intro hevents
    exact ⟨1, _, hlast 0, hout.trans (congrArg some hevents)⟩

def Keeps (Inv : Nat → Nat → Host → Prop) (timestamp offset : Nat) : Host × Bool → Prop
  | (h, false) => Inv timestamp offset h
  | (h, true) => Inv h.currentTimestamp h.currentOffset h

def Loses (received : List RtkEvent) (answer : Host × Bool) : Prop :=
  answer.2 = true ∧ answer.1.currentTimestamp = 0 ∧ answer.1.currentOffset = 0 ∧
    answer.1.output ≠ some received

/-- The rule for runs that do not receive the list: an invariant of the answers, none of which hands
    the list over. -/
theorem not_receives (Inv : Nat → Nat → Host → Prop)
    (hout : ∀ timestamp offset h, Inv timestamp offset h → h.output ≠ some received)
    (hstep : ∀ timestamp offset h r, Inv timestamp offset h →
      rtkDiagQueueFind events deleted timestamp (offset % 2 ^ 16) = some r →
      Keeps Inv timestamp offset (react capacity h r) ∨ Loses received (react capacity h r))
    (hinv : Inv h.currentTimestamp h.currentOffset h) :
    ¬ Receives events deleted capacity h received := by
  -- one command, with all its attempts
  have hsend : ∀ retries timestamp offset h, Inv timestamp offset h →
      ∀ h', sendDiagCommand (device events deleted capacity timestamp offset) retries h =
        (h', true) →
      Inv h'.currentTimestamp h'.currentOffset h' ∨ Loses received (h', true) := by
    intro retries timestamp offset
    induction retries with
    | zero =>
      intro h _ h' hrun
      exact absurd (congrArg Prod.snd hrun) Bool.false_ne_true
    | succ retries ih =>
      intro h hinv h' hrun
      cases hfind : rtkDiagQueueFind events deleted timestamp (offset % 2 ^ 16) with
      | none =>
        have hsilent : device events deleted capacity timestamp offset = none := by
          rw [device, rtkDiagReqGetEvent, hfind]
          rfl
        rw [hsilent] at ih hrun
        exact ih h hinv h' hrun
      | some r =>
        have hanswer := hstep timestamp offset h r hinv hfind
        rw [device_eq hfind] at ih hrun
        rcases hreact : react capacity h r with ⟨h₁, ok⟩
        rw [hreact] at hanswer
        have hmessage : processMessage h (rtkDiagProtoPackEvent capacity r).bytes =
          (h₁, ok) := hreact
        simp only [sendDiagCommand, hmessage] at hrun
        cases ok with
        | false => exact ih h₁ (hanswer.resolve_right fun hlost => Bool.noConfusion hlost.1) h' hrun
        | true =>
          cases hrun
          exact hanswer
  rintro ⟨fuel, last, hrun, hreceived⟩
  induction fuel generalizing h with
  | zero => cases hrun
  | succ fuel ih =>
    rw [getDiagEvent] at hrun
    rcases hcmd : sendDiagCommand
      (device events deleted capacity h.currentTimestamp h.currentOffset)
      MAX_RETRIES h with ⟨h₁, ok⟩
    rw [hcmd] at hrun
    cases ok with
    | false => cases hrun
    | true =>
      simp only at hrun
      rcases hsend _ _ _ h hinv h₁ hcmd with hinv₁ | ⟨-, hts, hoff, hlost⟩
      · split at hrun
        · exact ih hinv₁ hrun
        · obtain ⟨rfl, -⟩ := ReadResult.finished.inj hrun
          exact hout _ _ _ hinv₁ hreceived
      · rw [if_neg (not_or.mpr ⟨not_not.mpr hts, not_not.mpr hoff⟩)] at hrun
        obtain ⟨rfl, -⟩ := ReadResult.finished.inj hrun
        exact hlost hreceived

end Loop

/-! ### One answer -/

section

variable {h : Host} {behind : List StoredEvent} {g localOffset : Nat}

theorem length_packed_le (es : List StoredEvent) {total : Nat} (htotal : total ≤ capacity) :
    total + ((packed capacity es total).flatMap StoredEvent.bytes).length ≤ capacity := by
  induction es generalizing total with
  | nil => exact htotal
  | cons e es ih =>
    rw [packed]
    by_cases hfull : e.realSize + total > capacity
    · rw [if_pos hfull]
      exact htotal
    · have hrest := @ih (total + e.realSize) (by omega)
      rw [if_neg hfull, flatMap_cons, length_append, e.length_bytes]
      omega

theorem packed_subset (es : List StoredEvent) (total : Nat) :
    ∀ a ∈ packed capacity es total, a ∈ es := by
  intro a ha
  rw [← @packed_append_drop capacity es total]
  exact mem_append_left _ ha

theorem length_slice (e : StoredEvent) (n capacity : Nat) :
    ((e.bytes.drop n).take capacity).length = min capacity (e.realSize - n) := by
  rw [length_take, length_drop, e.length_bytes]

variable (hroom : capacity + 3 < 2 ^ 16)
include hroom

section Whole

variable (hfits : e.realSize ≤ capacity) (htyped : ∀ a ∈ e :: behind, a.Typed)
include hfits htyped

theorem react_start : react capacity h (.found e behind g 0) = handleGetEventResponse h
        (toLE 2 g ++ (packed capacity (e :: behind) 0).flatMap StoredEvent.bytes)
          PKG_EVT_START := by
  have hle := @length_packed_le capacity (e :: behind) 0 (Nat.zero_le _)
  rw [react, packEvent_whole htyped (by omega) hfits]
  refine processMessage_frame (.head _) ?_ h
  rw [length_payload, PKG_OFFSET_BYTES]
  omega

theorem react_whole (hg : g < 2 ^ 16) (hts : h.currentTimestamp < h.endTime)
    (hend : ∀ a ∈ e :: behind, a.evtTime < h.endTime)
    (hbare : ¬ Bare (packed capacity (e :: behind) 0)) :
    react capacity h (.found e behind g 0) =
      (h.recorded g (packed capacity (e :: behind) 0), true) := by
  have hsubset := @packed_subset capacity (e :: behind) 0
  have hlong : EVT_FIXED_BYTES <
      ((packed capacity (e :: behind) 0).flatMap StoredEvent.bytes).length := by
    have hcons := packed_cons hfits behind
    cases hrest : packed capacity behind e.realSize with
    | nil =>
      rw [hrest] at hcons
      have hdata : 0 < e.evtLen := by
        rw [hcons] at hbare
        simpa [Bare, Nat.pos_iff_ne_zero] using hbare
      rw [hcons, (whole_cons (htyped e mem_cons_self) []).2.2.2]
      exact Nat.lt_add_right _ (Nat.lt_add_of_pos_right hdata)
    | cons a c =>
      rw [hrest] at hcons
      have ha : a ∈ e :: behind := hsubset a (by simp [hcons])
      have hge := e.realSize_ge
      have hpos := a.realSize_pos
      rw [hcons, (whole_cons (htyped e mem_cons_self) _).2.2.2, (whole_cons (htyped a ha) _).2.2.2]
      exact lt_of_le_of_lt hge (by omega)
  rw [react_start hroom hfits htyped]
  refine handle_whole hg ?_ (fun a ha => htyped a (hsubset a ha))
    (fun a ha => hend a (hsubset a ha)) hts hlong
  rw [packed_cons hfits]
  exact cons_ne_nil _ _

theorem react_bare (hts : h.currentTimestamp < h.endTime)
    (hbare : Bare (packed capacity (e :: behind) 0)) :
    react capacity h (.found e behind g 0) =
      ({ h.dropLargeEvent with currentReadState := .startOrComplete }, false) := by
  have hsingle : packed capacity (e :: behind) 0 = [e] := by
    have hlen := hbare.1
    rw [packed_cons hfits] at hlen
    rw [packed_cons hfits, length_eq_zero_iff.mp (Nat.succ.inj hlen)]
  rw [react_start hroom hfits htyped, hsingle]
  rw [hsingle] at hbare
  exact handle_bare (htyped e (.head _)) (hbare.2 e (.head _)) hts

end Whole

variable (he : e.Typed)
include he

theorem react_large (hg : g < 2 ^ 16) (hcap : EVT_FIXED_BYTES ≤ capacity)
    (hlarge : capacity < e.realSize)
    (hend : e.evtTime < h.endTime) :
    react capacity h (.found e behind g 0) = (h.opened g capacity e, true) := by
  rw [react, packEvent_large he hlarge]
  refine (processMessage_frame (.head _) ?_ h).trans (handle_large hg he hcap hlarge hend)
  rw [length_payload, length_take, PKG_OFFSET_BYTES]
  omega

theorem react_fragment (hlocal : localOffset ≠ 0) (hinside : localOffset < e.realSize)
    (hcapacity : 0 < capacity) (hg : g < 2 ^ 16) (hts : h.currentTimestamp < h.endTime)
      {more : Bool}
    (hmore : more = decide (localOffset + capacity < e.realSize)) :
    (∃ large, h.currentReadState ≠ .startOrComplete ∧ h.currentLargeEvent = some large ∧
      h.currentOffset = g ∧ h.Fits more large ((e.bytes.drop localOffset).take capacity) ∧
      react capacity h (.found e behind g localOffset) =
        (h.extended more large ((e.bytes.drop localOffset).take capacity), true)) ∨
    ((∀ large, h.currentReadState ≠ .startOrComplete → h.currentLargeEvent = some large →
      h.currentOffset = g → ¬ h.Fits more large ((e.bytes.drop localOffset).take capacity)) ∧
      ∃ state, react capacity h (.found e behind g localOffset) =
        ({ h with currentReadState := state }, false)) := by
  have hlen := length_slice e localOffset capacity
  have hdata : (e.bytes.drop localOffset).take capacity ≠ [] := by
    rw [← length_pos_iff]
    omega
  have hreact : react capacity h (.found e behind g localOffset) =
      handleGetEventResponse h (toLE 2 g ++ (e.bytes.drop localOffset).take capacity)
        (if more then PKG_EVT_MID else PKG_EVT_END) := by
    have hroom' : (toLE 2 g ++ (e.bytes.drop localOffset).take capacity).length + 1 < 2 ^ 16 := by
      rw [length_payload, PKG_OFFSET_BYTES]
      omega
    cases more with
    | true =>
      rw [react, packEvent_middle he hlocal (of_decide_eq_true hmore.symm)]
      exact processMessage_frame (.tail _ (.head _)) hroom' h
    | false =>
      have hlast := not_lt.mp (of_decide_eq_false hmore.symm)
      have hrest : (e.bytes.drop localOffset).take capacity = e.bytes.drop localOffset := by
        apply take_of_length_le
        rw [length_drop, e.length_bytes]
        omega
      rw [hrest] at hroom' ⊢
      rw [react, packEvent_end he hlocal hinside hlast]
      exact processMessage_frame (.tail _ (.tail _ (.head _))) hroom' h
  rw [hreact]
  exact handle_fragment hg hdata hts more

end

/-! ### The states of an undisturbed transfer -/

def Host.settled (endTime : Nat) (sent : List StoredEvent) (timestamp offset : Nat) : Host :=
  ⟨endTime, timestamp, offset, none, 0, .startOrComplete, sent.map StoredEvent.toRtk, none⟩

/-- These events have been recorded, and `n` bytes of the next one have arrived. -/
def Host.fragment (endTime : Nat) (sent : List StoredEvent) (offset : Nat) (e : StoredEvent)
    (n : Nat) (state : ReadState) : Host :=
  ⟨endTime, e.evtTime, offset, some (e.upTo n), n - EVT_FIXED_BYTES, state,
    sent.map StoredEvent.toRtk, none⟩

section States

theorem settled_recorded :
    (Host.settled endTime sent timestamp offset).recorded g c =
      .settled endTime (sent ++ c) (advance timestamp g c).1 (advance timestamp g c).2 := by
  simp [Host.recorded, Host.settled, Host.dropLargeEvent]

theorem received_opened :
    (if n - EVT_FIXED_BYTES ≠ 0 then n - EVT_FIXED_BYTES else 0) = n - EVT_FIXED_BYTES := by
  by_cases hn : n - EVT_FIXED_BYTES = 0 <;> simp [hn]

theorem opened_eq {h : Host} (hnone : h.dropLargeEvent.receivedLargeEventInfoLength = 0) :
    h.opened g n e = ⟨h.endTime, e.evtTime, if e.evtTime ≠ h.currentTimestamp then n else g + n,
      some (e.upTo n), n - EVT_FIXED_BYTES, .bigFirstSeg, h.rtkEvents, h.output⟩ := by
  simp only [Host.opened, hnone, received_opened, Host.dropLargeEvent_endTime,
    Host.dropLargeEvent_events, Host.dropLargeEvent_output]

theorem settled_opened : (Host.settled endTime sent timestamp offset).opened g n e =
      .fragment endTime sent (if e.evtTime ≠ timestamp then n else g + n) e n .bigFirstSeg :=
  opened_eq rfl

theorem fragment_opened (hstate : state ≠ .startOrComplete) :
    (Host.fragment endTime sent offset e n state).opened g n' e =
      .fragment endTime sent (g + n') e n' .bigFirstSeg := by
  have hdrop : (Host.fragment endTime sent offset e n state).dropLargeEvent =
      (Host.fragment endTime sent offset e n state).clearLargeEventInfo := if_neg hstate
  have hopened := @opened_eq e g n' (Host.fragment endTime sent offset e n state)
    (by rw [hdrop]; rfl)
  rw [hopened]
  simp [Host.fragment]

theorem upTo_append (e : StoredEvent) (hn : EVT_FIXED_BYTES ≤ n) (hsize : n ≤ e.realSize) :
    (e.upTo n).eventInfo ++ (e.bytes.drop n).take k = (e.upTo (n + k)).eventInfo := by
  have htake : e.bytes.take (n + k) = e.bytes.take n ++ (e.bytes.drop n).take k := take_add ..
  have hlen : EVT_FIXED_BYTES ≤ (e.bytes.take n).length := by
    rw [length_take, e.length_bytes, min_eq_left hsize]
    exact hn
  simp only [StoredEvent.upTo, htake, drop_append_of_le_length hlen]

theorem upTo_realSize : e.upTo e.realSize = e.toRtk := by
  have hheader : e.header.length = EVT_FIXED_BYTES := e.length_header
  have hinfo : (e.bytes.take e.realSize).drop EVT_FIXED_BYTES = e.evtInfo := by
    rw [take_of_length_le (le_of_eq e.length_bytes), StoredEvent.bytes, drop_left' hheader]
  rw [StoredEvent.upTo, hinfo]
  rfl

theorem fragment_continued (hn : EVT_FIXED_BYTES ≤ n) (hsize : n + k < e.realSize) :
    (Host.fragment endTime sent offset e n state).continued (e.upTo n) ((e.bytes.drop n).take k) =
      .fragment endTime sent (offset + k) e (n + k) .bigMiddleSeg := by
  have hlen : ((e.bytes.drop n).take k).length = k := by
    rw [length_take, length_drop, e.length_bytes]
    omega
  have hinfo := upTo_append e (k := k) hn (by omega)
  have hcount : n - EVT_FIXED_BYTES + k = n + k - EVT_FIXED_BYTES := by omega
  simp only [Host.continued, Host.fragment, hlen, hinfo, hcount]
  rfl

theorem fragment_closed (hn : EVT_FIXED_BYTES ≤ n) (hsize : n < e.realSize) :
    (Host.fragment endTime sent offset e n state).closed (e.upTo n) (e.bytes.drop n) =
      .settled endTime (sent ++ [e]) e.evtTime (offset + (e.realSize - n)) := by
  have hlen : (e.bytes.drop n).length = e.realSize - n := by rw [length_drop, e.length_bytes]
  have hinfo : (e.upTo n).eventInfo ++ e.bytes.drop n = (e.upTo e.realSize).eventInfo := by
    rw [← Nat.add_sub_cancel' (le_of_lt hsize), ← upTo_append e hn (le_of_lt hsize),
      take_of_length_le (le_of_eq hlen)]
  have hevent : ({ e.upTo n with eventInfo := (e.upTo n).eventInfo ++ e.bytes.drop n } : RtkEvent) =
      e.toRtk := by
    rw [hinfo, ← upTo_realSize]
    rfl
  simp only [Host.closed, Host.fragment, hlen, hevent, Host.settled, map_append, map_cons, map_nil]

theorem advance_eq (hsorted : (c ++ [last]).Pairwise fun a b => a.evtTime ≤ b.evtTime)
    (hfrom : ∀ a ∈ c ++ [last], timestamp ≤ a.evtTime) :
    advance timestamp g (c ++ [last]) =
      (last.evtTime, (if last.evtTime = timestamp then g else 0) +
        sizeAt last.evtTime (c ++ [last])) := by
  induction c generalizing timestamp g with
  | nil =>
    by_cases htime : last.evtTime = timestamp
    · simp [advance, htime, sizeAt_cons_eq]
    · simp [advance, htime, sizeAt_cons_eq]
  | cons a c ih =>
    rw [cons_append, pairwise_cons] at hsorted
    have hle := hsorted.1 last (by simp)
    have hts := hfrom a (by simp)
    rw [cons_append, advance, ih hsorted.2 hsorted.1]
    by_cases hlast : last.evtTime = a.evtTime
    · rw [sizeAt_cons_eq hlast.symm]
      by_cases htime : a.evtTime = timestamp
      · simp [hlast, htime, add_assoc]
      · simp [hlast, htime]
    · have hne : last.evtTime ≠ timestamp := fun heq => hlast (le_antisymm (heq ▸ hts) hle)
      rw [if_neg hlast, if_neg hne, sizeAt_cons_ne (Ne.symm hlast)]

end States

/-! ### Runs that have lost the order -/

structure Setting (events : List StoredEvent) (deleted : List DeletedEvent)
    (capacity endTime : Nat) : Prop where
  order : InOrder deleted events
  typed : ∀ e ∈ events, e.Typed
  header : EVT_FIXED_BYTES ≤ capacity
  room : capacity + 3 < 2 ^ 16
  beforeEnd : ∀ e ∈ events, e.evtTime < endTime

theorem Setting.frame (s : Setting events deleted capacity endTime)
    (hsplit : events = front ++ e :: behind) (hfits : e.realSize ≤ capacity) :
    ∃ c last rest, packed capacity (e :: behind) 0 = c ++ [last] ∧ e :: behind = c ++ last :: rest ∧
      (e :: behind).drop (packed capacity (e :: behind) 0).length = rest ∧
      e.evtTime ≤ last.evtTime ∧
      ∀ timestamp ≤ e.evtTime, ∀ g, advance timestamp g (c ++ [last]) =
        (last.evtTime, (if last.evtTime = timestamp then g else 0) +
          sizeAt last.evtTime (c ++ [last])) := by
  have hne : packed capacity (e :: behind) 0 ≠ [] := by simp [packed_cons hfits]
  obtain ⟨c, last, hc⟩ := (eq_nil_or_concat _).resolve_left hne
  have hrest := @packed_append_drop capacity (e :: behind) 0
  generalize (e :: behind).drop (packed capacity (e :: behind) 0).length = rest at hrest
  rw [concat_eq_append] at hc
  rw [hc] at hrest
  have hsorted := (pairwise_append.mp (hsplit ▸ s.order.sorted)).2.1
  have hmin : ∀ a ∈ c ++ [last], e.evtTime ≤ a.evtTime := by
    intro a hin
    rcases mem_cons.mp (hrest ▸ mem_append_left rest hin) with rfl | hin
    · exact le_refl _
    · exact (pairwise_cons.mp hsorted).1 a hin
  rw [← hrest] at hsorted
  refine ⟨c, last, rest, hc, by simp [← hrest], rfl, hmin last (by simp), fun timestamp hle g => ?_⟩
  exact advance_eq (pairwise_append.mp hsorted).1 (fun a ha => le_trans hle (hmin a ha))

structure Ahead (events : List StoredEvent) (deleted : List DeletedEvent) (endTime : Nat)
    (timestamp offset : Nat) (h : Host) : Prop where
  noOutput : h.output = none
  sameEnd : h.endTime = endTime
  before : h.currentTimestamp < endTime
  atTimestamp : h.currentTimestamp = timestamp
  atOffset : h.currentOffset = offset
  ahead : ∀ r, rtkDiagQueueFind events deleted timestamp (offset % 2 ^ 16) = some r →
    events.length < h.rtkEvents.length + r.remaining

section Lost

variable {h : Host}

section

variable (s : Setting events deleted capacity endTime) (hsplit : events = front ++ e :: behind)
  (hout : h.output = none) (hendTime : h.endTime = endTime) (hts : h.currentTimestamp = e.evtTime)
include s hsplit hout hendTime hts

theorem ahead_of_find (hfinds : ∃ r, rtkDiagQueueFind (front ++ e :: behind) deleted e.evtTime
      (h.currentOffset % 2 ^ 16) = some r ∧ left ≤ r.remaining)
    (hcount : events.length < h.rtkEvents.length + left) :
    Ahead events deleted endTime h.currentTimestamp h.currentOffset h := by
  refine ⟨hout, hendTime, ?_, rfl, rfl, ?_⟩
  · rw [hts]
    exact s.beforeEnd e (by simp [hsplit])
  · intro r hfind
    obtain ⟨r', hfind', hle⟩ := hfinds
    rw [hts, hsplit, hfind'] at hfind
    cases hfind
    exact lt_of_lt_of_le hcount (Nat.add_le_add_left hle _)

theorem ahead_before
    (hoff : h.currentOffset % 2 ^ 16 < deletedAt e.evtTime deleted +
      sizeAt e.evtTime (front ++ [e]))
    (hcount : events.length < h.rtkEvents.length + (behind.length + 1)) :
    Ahead events deleted endTime h.currentTimestamp h.currentOffset h :=
  ahead_of_find s hsplit hout hendTime hts
    (find_before (hsplit ▸ s.order) hoff (Nat.mod_lt _ (by decide))) hcount

theorem ahead_not_past
    (hoff : h.currentOffset ≤ deletedAt e.evtTime deleted + sizeAt e.evtTime (front ++ [e]))
    (hcount : events.length < h.rtkEvents.length + behind.length) :
    Ahead events deleted endTime h.currentTimestamp h.currentOffset h :=
  ahead_of_find s hsplit hout hendTime hts (find_not_past (hsplit ▸ s.order)
    (le_trans (Nat.mod_le _ _) hoff) (Nat.mod_lt _ (by decide))) hcount

end

theorem sizeAt_snoc : sizeAt e.evtTime (front ++ [e]) = sizeAt e.evtTime front + e.realSize := by
  rw [sizeAt_append, sizeAt_cons_eq rfl, sizeAt_nil, add_zero]

theorem Ahead.refused (ha : Ahead events deleted endTime timestamp offset h)
    (hout : h'.output = h.output) (hendTime : h'.endTime = h.endTime)
    (hts : h'.currentTimestamp = h.currentTimestamp) (hoff : h'.currentOffset = h.currentOffset)
    (hevents : h'.rtkEvents = h.rtkEvents) : Ahead events deleted endTime timestamp offset h' :=
  ⟨hout.trans ha.noOutput, hendTime.trans ha.sameEnd, hts ▸ ha.before, hts.trans ha.atTimestamp,
    hoff.trans ha.atOffset, fun r hr => hevents ▸ ha.ahead r hr⟩

section Step

variable (s : Setting events deleted capacity endTime)
  (ha : Ahead events deleted endTime timestamp offset h)
  (hl : Located events deleted timestamp (offset % 2 ^ 16) e behind foundOffset localOffset front)
  (hcount : events.length < h.rtkEvents.length + (behind.length + 1))
include s ha hl hcount

theorem Ahead.large (hlocal : localOffset = 0) (hlarge : capacity < e.realSize) :
    Keeps (Ahead events deleted endTime) timestamp offset
      (react capacity h (.found e behind foundOffset localOffset)) := by
  subst hlocal
  have he : e ∈ events := by simp [hl.split]
  have hend : e.evtTime < h.endTime := ha.sameEnd ▸ s.beforeEnd e he
  rw [react_large s.room (s.typed e he) hl.word s.header hlarge hend]
  refine ahead_before s hl.split ?_ ?_ rfl ?_ ?_
  · simpa [Host.opened] using ha.noOutput
  · simpa [Host.opened] using ha.sameEnd
  · have hoffset := hl.offset
    rw [sizeAt_snoc]
    simp only [Host.opened]
    split <;> omega
  · simpa [Host.opened] using hcount

theorem Ahead.whole (hlocal : localOffset = 0) (hfits : e.realSize ≤ capacity) :
    Keeps (Ahead events deleted endTime) timestamp offset
      (react capacity h (.found e behind foundOffset localOffset)) := by
  subst hlocal
  have hmem : ∀ a ∈ e :: behind, a ∈ events := fun a hin => by simp [hl.split, mem_cons.mp hin]
  have htyped := fun a hin => s.typed a (hmem a hin)
  have hts : h.currentTimestamp < h.endTime := ha.sameEnd ▸ ha.before
  by_cases hbare : Bare (packed capacity (e :: behind) 0)
  · rw [react_bare s.room hfits htyped hts hbare]
    refine ha.refused ?_ ?_ ?_ ?_ ?_ <;> simp
  have hend : ∀ a ∈ e :: behind, a.evtTime < h.endTime := fun a hin =>
    ha.sameEnd ▸ s.beforeEnd a (hmem a hin)
  rw [react_whole s.room hfits htyped hl.word hts hend hbare]
  obtain ⟨c, last, rest, hc, hlist, -, hmin, hadvance⟩ := s.frame hl.split hfits
  have hsplit : events = (front ++ c) ++ last :: rest := by rw [hl.split, hlist, append_assoc]
  have hadvance := hadvance h.currentTimestamp (ha.atTimestamp ▸ hl.newer) foundOffset
  rw [hc]
  refine ahead_not_past s hsplit ?_ ?_ ?_ ?_ ?_
  · simpa [Host.recorded] using ha.noOutput
  · simpa [Host.recorded] using ha.sameEnd
  · simp [Host.recorded, hadvance]
  · simp only [Host.recorded, hadvance, append_assoc]
    rw [sizeAt_append _ front]
    by_cases hlast : last.evtTime = h.currentTimestamp
    · have htime : e.evtTime = last.evtTime := by
        refine le_antisymm hmin ?_
        rw [hlast, ha.atTimestamp]
        exact hl.newer
      have hoffset := hl.offset
      rw [htime] at hoffset
      rw [if_pos hlast]
      omega
    · rw [if_neg hlast]
      omega
  · have hlen := congrArg List.length hlist
    simp only [length_append, length_cons] at hlen
    simp only [Host.recorded, length_append, length_map, length_cons]
    omega

theorem Ahead.segment (hlocal : localOffset ≠ 0) :
    Keeps (Ahead events deleted endTime) timestamp offset
      (react capacity h (.found e behind foundOffset localOffset)) := by
  have he : e ∈ events := by simp [hl.split]
  have hinside := hl.inside
  obtain ⟨htime, -, hoffset⟩ := hl.middle hlocal
  have hts : h.currentTimestamp < h.endTime := ha.sameEnd ▸ ha.before
  have hsame : h.currentTimestamp = e.evtTime := ha.atTimestamp.trans htime.symm
  have hcapacity : 0 < capacity := lt_of_lt_of_le (by decide) s.header
  have hlen := length_slice e localOffset capacity
  rcases react_fragment s.room (s.typed e he) hlocal hinside hcapacity hl.word hts rfl with
    ⟨large, -, -, hoff, -, hok⟩ | ⟨-, state, hfail⟩
  · rw [hok]
    by_cases hmore : localOffset + capacity < e.realSize
    · rw [decide_eq_true hmore]
      refine ahead_before s hl.split ha.noOutput ha.sameEnd hsame ?_ hcount
      simp only [Host.extended, if_true, Host.continued, sizeAt_snoc]
      omega
    rw [decide_eq_false hmore]
    refine ahead_not_past s hl.split ha.noOutput ha.sameEnd hsame ?_ ?_
    · simp only [Host.extended, Bool.false_eq_true, if_false, Host.closed, sizeAt_snoc]
      omega
    · simp only [Host.extended, Bool.false_eq_true, if_false, Host.closed, length_append,
        length_singleton]
      omega
  · rw [hfail]
    exact ha.refused rfl rfl rfl rfl rfl

end Step

theorem Ahead.not_receives (s : Setting events deleted capacity endTime)
    (ha : Ahead events deleted endTime h.currentTimestamp h.currentOffset h) :
    ¬ ReadsAll events deleted capacity h := by
  refine Diagnose.not_receives (Ahead events deleted endTime) ?_ ?_ ha
  · intro timestamp offset h ha hout
    rw [ha.noOutput] at hout
    cases hout
  · intro timestamp offset h r ha hfind
    have hcount := ha.ahead r hfind
    cases r with
    | noMore =>
      rw [react_noMore]
      refine .inr ⟨rfl, rfl, rfl, ?_⟩
      intro hout
      have hevents := Option.some.inj hout
      rw [Host.dropLargeEvent_events] at hevents
      rw [hevents, length_map] at hcount
      exact lt_irrefl _ hcount
    | found e behind foundOffset localOffset =>
      obtain ⟨front, hl⟩ := find_located s.order (Nat.mod_lt _ (by decide)) hfind
      refine .inl ?_
      by_cases hlocal : localOffset = 0
      · by_cases hlarge : capacity < e.realSize
        · exact ha.large s hl hcount hlocal hlarge
        · exact ha.whole s hl hcount hlocal (not_lt.mp hlarge)
      · exact ha.segment s hl hcount hlocal

end Lost

/-! ### The fragments of a large event -/

section

variable {state : ReadState}

def startOffset (deleted : List DeletedEvent) (sent : List StoredEvent) (e : StoredEvent) : Nat :=
  deletedAt e.evtTime deleted + sizeAt e.evtTime sent

theorem endOffset_snoc :
    endOffset deleted (sent ++ [e]) = startOffset deleted sent e + e.realSize := by
  simp [endOffset, startOffset, sizeAt_snoc, add_assoc]

theorem find_fragment (s : Setting events deleted capacity endTime)
    (hsplit : events = sent ++ e :: rest) (hn : n < e.realSize)
    (hword : startOffset deleted sent e + n < 2 ^ 16) :
    rtkDiagQueueFind events deleted e.evtTime ((startOffset deleted sent e + n) % 2 ^ 16) =
      some (.found e rest (startOffset deleted sent e + n) n) := by
  subst hsplit
  rw [Nat.mod_eq_of_lt hword]
  exact find_inside s.order hn hword

variable (s : Setting events deleted capacity endTime) (hsplit : events = sent ++ e :: rest)
  (hstate : state ≠ .startOrComplete) (hcap : capacity ≤ n) (hg : g < 2 ^ 16)
include s hsplit hstate hcap hg

theorem react_extends (hinside : n < e.realSize)
    (hmore : more = decide (n + capacity < e.realSize)) :
    react capacity (.fragment endTime sent g e n state) (.found e rest g n) =
      ((Host.fragment endTime sent g e n state).extended more (e.upTo n)
        ((e.bytes.drop n).take capacity), true) := by
  have he : e ∈ events := by simp [hsplit]
  have hheader := s.header
  have hn : EVT_FIXED_BYTES ≤ n := le_trans hheader hcap
  have hpos : n ≠ 0 := ne_of_gt (lt_of_lt_of_le (by decide) hn)
  have hcapacity : 0 < capacity := lt_of_lt_of_le (by decide) hheader
  rcases @react_fragment capacity e (.fragment endTime sent g e n state) rest g n s.room
      (s.typed e he) hpos hinside hcapacity hg (s.beforeEnd e he) more hmore with
    ⟨large, -, hlarge, -, -, hok⟩ | ⟨hrefused, -⟩
  · cases hlarge
    exact hok
  -- the lengths of the fragments add up to the length of the event
  have hsize : (e.upTo n).eventLength + EVT_FIXED_BYTES = e.realSize := toHeader_size e
  have hlen := length_slice e n capacity
  refine absurd ?_ (hrefused (e.upTo n) hstate rfl rfl)
  cases more with
  | true =>
    simp only [Host.Fits, if_true, Host.fragment]
    omega
  | false =>
    have hge := of_decide_eq_false hmore.symm
    simp only [Host.Fits, Bool.false_eq_true, if_false, Host.fragment]
    omega

theorem react_continues (hmore : n + capacity < e.realSize) :
    react capacity (.fragment endTime sent g e n state) (.found e rest g n) =
      (.fragment endTime sent (g + capacity) e (n + capacity) .bigMiddleSeg, true) := by
  have hn : EVT_FIXED_BYTES ≤ n := le_trans s.header hcap
  rw [react_extends s hsplit hstate hcap hg (by omega) (decide_eq_true hmore).symm,
    ← fragment_continued hn hmore]
  rfl

theorem react_closes (hinside : n < e.realSize) (hlast : e.realSize ≤ n + capacity) :
    react capacity (.fragment endTime sent g e n state) (.found e rest g n) =
      (.settled endTime (sent ++ [e]) e.evtTime (g + (e.realSize - n)), true) := by
  have hn : EVT_FIXED_BYTES ≤ n := le_trans s.header hcap
  have hrest : (e.bytes.drop n).take capacity = e.bytes.drop n := by
    apply take_of_length_le
    rw [length_drop, e.length_bytes]
    omega
  rw [react_extends s hsplit hstate hcap hg hinside (decide_eq_false (not_lt.mpr hlast)).symm,
    hrest, ← fragment_closed hn hinside]
  rfl

end

structure Restarting (deleted : List DeletedEvent) (capacity endTime : Nat)
    (sent : List StoredEvent) (e : StoredEvent) (limit : Nat) (timestamp offset : Nat)
    (h : Host) : Prop where
  atTimestamp : timestamp = e.evtTime
  reached : ∃ n state, capacity ∣ n ∧ capacity ≤ n ∧ n ≤ limit ∧ state ≠ ReadState.startOrComplete ∧
    offset = startOffset deleted sent e + n ∧ h = .fragment endTime sent offset e n state

section Wrapped

variable (s : Setting events deleted capacity endTime) (hsplit : events = sent ++ e :: rest)
include s hsplit

theorem restarting_step (holder : ∀ a ∈ sent, a.evtTime < e.evtTime)
    (hdvd : capacity ∣ n) (hinside : n < e.realSize)
    (hword : 2 ^ 16 ≤ startOffset deleted sent e + n)
    (hinv : Restarting deleted capacity endTime sent e n timestamp offset h)
    (hfind : rtkDiagQueueFind events deleted timestamp (offset % 2 ^ 16) = some r) :
    Keeps (Restarting deleted capacity endTime sent e n) timestamp offset (react capacity h r) := by
  obtain ⟨rfl, k, state, hk, hcap, hle, hstate, rfl, rfl⟩ := hinv
  have he : e ∈ events := by simp [hsplit]
  have hsize := (s.typed e he).size
  have hbase : startOffset deleted sent e = deletedAt e.evtTime deleted := by
    rw [startOffset, sizeAt_eq_zero fun a ha => ne_of_lt (holder a ha), add_zero]
  have hcapLimit : capacity ≤ n := le_trans hcap hle
  by_cases hlow : startOffset deleted sent e + k < 2 ^ 16
  · have hnext : k + capacity ≤ n := by
      obtain ⟨i, rfl⟩ := hk
      obtain ⟨j, rfl⟩ := hdvd
      have hij : i < j := by
        by_contra hnot
        have := Nat.mul_le_mul_left capacity (not_lt.mp hnot)
        omega
      calc capacity * i + capacity = capacity * (i + 1) := by rw [mul_add, mul_one]
        _ ≤ capacity * j := Nat.mul_le_mul_left _ hij
    rw [find_fragment s hsplit (by omega) hlow] at hfind
    cases hfind
    rw [react_continues s hsplit hstate hcap hlow (by omega)]
    exact ⟨rfl, k + capacity, _, Nat.dvd_add hk (dvd_refl _), Nat.le_add_left _ _, hnext,
      ReadState.noConfusion, add_assoc _ _ _, rfl⟩
  · have hdeleted := deletedAt_lt e.evtTime deleted
    have hwrap : (startOffset deleted sent e + k) % 2 ^ 16 ≤ deletedAt e.evtTime deleted := by omega
    have hfirst := s.order
    rw [hsplit] at hfirst hfind
    rw [find_deleted hfirst holder hwrap] at hfind
    cases hfind
    rw [react_large s.room (s.typed e he) hdeleted s.header (by omega) (s.beforeEnd e he),
      fragment_opened hstate]
    exact ⟨rfl, capacity, _, dvd_refl _, le_refl _, hcapLimit, ReadState.noConfusion,
      by rw [hbase]; rfl, rfl⟩

theorem fragment_wrapped (hstate : state ≠ .startOrComplete) (hdvd : capacity ∣ n)
    (hcap : capacity ≤ n) (hinside : n < e.realSize)
    (hword : 2 ^ 16 ≤ startOffset deleted sent e + n) :
    ¬ ReadsAll events deleted capacity
      (.fragment endTime sent (startOffset deleted sent e + n) e n state) := by
  have hsorted := s.order.sorted
  rw [hsplit, pairwise_append] at hsorted
  have hle : ∀ a ∈ sent, a.evtTime ≤ e.evtTime := fun a ha => hsorted.2.2 a ha e (.head _)
  by_cases holder : ∀ a ∈ sent, a.evtTime < e.evtTime
  · refine not_receives (Restarting deleted capacity endTime sent e n) ?_ ?_
      ⟨rfl, n, state, hdvd, hcap, le_refl _, hstate, rfl, rfl⟩
    · rintro timestamp offset h ⟨-, k, state, -, -, -, -, -, rfl⟩ hout
      cases hout
    · intro timestamp offset h r hinv hfind
      exact .inl (restarting_step s hsplit holder hdvd hinside hword hinv hfind)
  -- an earlier event has the timestamp, so the last one has it
  obtain ⟨a, ha, hnot⟩ : ∃ a ∈ sent, ¬ a.evtTime < e.evtTime := by simpa using holder
  obtain ⟨front, p, rfl⟩ : ∃ front p, sent = front ++ [p] := by
    rcases eq_nil_or_concat sent with rfl | ⟨front, p, hconcat⟩
    · cases ha
    · exact ⟨front, p, by rw [hconcat, concat_eq_append]⟩
  have hp : p.evtTime = e.evtTime := by
    refine le_antisymm (hle p (by simp)) ?_
    rcases mem_append.mp ha with hin | hin
    · exact le_trans (not_lt.mp hnot)
        ((pairwise_append.mp hsorted.1).2.2 a hin p (by simp))
    · rw [← mem_singleton.mp hin]
      exact not_lt.mp hnot
  have hsize := (s.typed e (by simp [hsplit])).size
  have hsplit' : events = front ++ p :: e :: rest := by simp [hsplit]
  refine Ahead.not_receives s (ahead_before s hsplit' rfl rfl hp.symm ?_ ?_)
  · rw [hp]
    change (startOffset deleted (front ++ [p]) e + n) % 2 ^ 16 <
      startOffset deleted (front ++ [p]) e
    omega
  · simp [hsplit, Host.fragment]

end Wrapped

/-- The tool counts the offsets inside the first event from zero, the device from the deleted
    events: the last fragment never has the length that is missing. -/
structure Shifted (deleted : List DeletedEvent) (endTime : Nat) (e : StoredEvent)
    (timestamp offset : Nat) (h : Host) : Prop where
  atTimestamp : timestamp = e.evtTime
  sameTimestamp : h.currentTimestamp = e.evtTime
  atOffset : h.currentOffset = offset
  sameEnd : h.endTime = endTime
  noOutput : h.output = none
  behindDeleted : deletedAt e.evtTime deleted < offset
  inside : offset ≤ e.realSize
  counted : h.receivedLargeEventInfoLength + EVT_FIXED_BYTES = offset
  large : ∃ large, h.currentLargeEvent = some large ∧
    large.eventLength + EVT_FIXED_BYTES = e.realSize

section Shift

variable (s : Setting (e :: rest) deleted capacity endTime)
    (hdeleted : deletedAt e.evtTime deleted ≠ 0)
include s hdeleted

theorem shifted_step (hinv : Shifted deleted endTime e timestamp offset h)
    (hfind : rtkDiagQueueFind (e :: rest) deleted timestamp (offset % 2 ^ 16) = some r) :
    Keeps (Shifted deleted endTime e) timestamp offset (react capacity h r) := by
  have htyped := s.typed e (.head _)
  have hsize := htyped.size
  have hbehind := hinv.behindDeleted
  have hinside := hinv.inside
  have hts : h.currentTimestamp < h.endTime := by
    rw [hinv.sameTimestamp, hinv.sameEnd]
    exact s.beforeEnd e (.head _)
  have hcapacity : 0 < capacity := lt_of_lt_of_le (by decide) s.header
  obtain ⟨large, hlarge, hlength⟩ := hinv.large
  have hcounted := hinv.counted
  -- the device finds a byte in front of the one that is missing
  have hmod : offset % 2 ^ 16 = offset := Nat.mod_eq_of_lt (by omega)
  obtain ⟨inner, hinner, hlocal⟩ :
    ∃ inner, offset = deletedAt e.evtTime deleted + inner ∧ inner ≠ 0 :=
    ⟨offset - deletedAt e.evtTime deleted, by omega, by omega⟩
  have hfound : rtkDiagQueueFind (e :: rest) deleted e.evtTime offset =
      some (.found e rest offset inner) := by
    have hfind' := @find_inside deleted [] rest e s.order inner (by omega) (by simpa using by omega)
    simpa [← hinner] using hfind'
  rw [hinv.atTimestamp, hmod, hfound] at hfind
  cases hfind
  have hlen := length_slice e inner capacity
  rcases react_fragment (g := offset) s.room htyped hlocal (by omega) hcapacity
    (by omega) hts rfl with
    ⟨large', -, hlarge', hoff, hfits, hok⟩ | ⟨-, state, hfail⟩
  · cases hlarge.symm.trans hlarge'
    by_cases hmore : inner + capacity < e.realSize
    · rw [decide_eq_true hmore] at hfits hok
      simp only [Host.Fits, if_true] at hfits
      rw [hok]
      refine ⟨hinv.sameTimestamp, hinv.sameTimestamp, rfl, hinv.sameEnd, hinv.noOutput, ?_, ?_, ?_,
        ⟨_, rfl, hlength⟩⟩
      all_goals
        simp only [Host.extended, if_true, Host.continued]
        omega
    · rw [decide_eq_false hmore] at hfits
      simp only [Host.Fits, Bool.false_eq_true, if_false] at hfits
      omega
  · rw [hfail]
    exact { hinv with }

theorem Shifted.not_receives (hinv : Shifted deleted endTime e h.currentTimestamp h.currentOffset h)
    : ¬ Receives (e :: rest) deleted capacity h received := by
  refine Diagnose.not_receives (Shifted deleted endTime e) ?_ ?_ hinv
  · intro timestamp offset h hinv hout
    rw [hinv.noOutput] at hout
    cases hout
  · intro timestamp offset h r hinv hfind
    exact .inl (shifted_step s hdeleted hinv hfind)

end Shift

/-! ### The chunks of the queue -/

section

theorem firstChunk_ne_nil (e : StoredEvent) (es : List StoredEvent) :
    firstChunk capacity (e :: es) ≠ [] := by
  by_cases hlarge : e.realSize > capacity
  · simp [firstChunk, hlarge]
  · simp [firstChunk, hlarge, packed_cons (not_lt.mp hlarge)]

theorem firstChunk_append_drop (es : List StoredEvent) :
    firstChunk capacity es ++ es.drop (firstChunk capacity es).length = es := by
  cases es with
  | nil => rfl
  | cons e es =>
    by_cases hlarge : e.realSize > capacity
    · simp [firstChunk, hlarge]
    · simpa [firstChunk, hlarge] using @packed_append_drop capacity (e :: es) 0

theorem first_le_last (hsorted : (e :: es).Pairwise fun a b => a.evtTime ≤ b.evtTime)
    (hlast : last ∈ (firstChunk capacity (e :: es)).getLast?) :
    last ∈ e :: es ∧ e.evtTime ≤ last.evtTime := by
  have hmem : last ∈ e :: es := by
    rw [← @firstChunk_append_drop capacity (e :: es)]
    exact mem_append_left _ (mem_of_getLast? hlast)
  refine ⟨hmem, ?_⟩
  rcases mem_cons.mp hmem with rfl | hmem
  · exact le_refl _
  · exact (pairwise_cons.mp hsorted).1 last hmem

theorem drop_firstChunk_lt (e : StoredEvent) (es : List StoredEvent) :
    ((e :: es).drop (firstChunk capacity (e :: es)).length).length < (e :: es).length := by
  have hpos := length_pos_iff.mpr (@firstChunk_ne_nil capacity e es)
  rw [length_drop]
  simp only [length_cons]
  omega

theorem chunksFrom_eq (hfuel : es.length ≤ fuel) (hfuel' : es.length ≤ fuel') :
    chunksFrom capacity fuel es = chunksFrom capacity fuel' es := by
  induction fuel generalizing fuel' es with
  | zero =>
    have hnil : es = [] := length_eq_zero_iff.mp (Nat.le_zero.mp hfuel)
    subst hnil
    cases fuel' <;> rfl
  | succ fuel ih =>
    cases es with
    | nil => cases fuel' <;> rfl
    | cons e es =>
      cases fuel' with
      | zero => exact absurd hfuel' (Nat.not_succ_le_zero _)
      | succ fuel' =>
        have hlt := @drop_firstChunk_lt capacity e es
        simp only [chunksFrom]
        rw [ih (Nat.le_of_lt_succ (lt_of_lt_of_le hlt hfuel))
          (Nat.le_of_lt_succ (lt_of_lt_of_le hlt hfuel'))]

theorem chunks_cons :
    chunks capacity (e :: es) = firstChunk capacity (e :: es) ::
      chunks capacity ((e :: es).drop (firstChunk capacity (e :: es)).length) := by
  have hlt := @drop_firstChunk_lt capacity e es
  rw [chunks, length_cons, chunksFrom,
    chunksFrom_eq (Nat.le_of_lt_succ hlt) (le_refl _)]
  rfl

end

/-! ### The undisturbed transfer -/

section

variable {n : Nat}

theorem receives_fragment (s : Setting events deleted capacity endTime)
    (hsplit : events = sent ++ e :: rest) (hnext : ReadsAll events deleted capacity
      (.settled endTime (sent ++ [e]) e.evtTime (endOffset deleted (sent ++ [e]))) ↔ P)
    (hsmall : P → endOffset deleted (sent ++ [e]) < 2 ^ 16) (hstate : state ≠ .startOrComplete)
    (hdvd : capacity ∣ n) (hcap : capacity ≤ n) (hinside : n < e.realSize) :
    ReadsAll events deleted capacity
      (.fragment endTime sent (startOffset deleted sent e + n) e n state) ↔ P := by
  have hcapacity : 0 < capacity := lt_of_lt_of_le (by decide) s.header
  induction hleft : e.realSize - n using Nat.strongRecOn generalizing n state with
  | _ left ih =>
    by_cases hword : startOffset deleted sent e + n < 2 ^ 16
    · have hfind := find_fragment s hsplit hinside hword
      by_cases hmore : n + capacity < e.realSize
      · have hok := react_continues s hsplit hstate hcap hword hmore
        rw [receives_step hfind hok (.inr (by simp only [Host.fragment]; omega))]
        have hrest := @ih (e.realSize - (n + capacity)) (by omega) (n + capacity) .bigMiddleSeg
          ReadState.noConfusion (Nat.dvd_add hdvd (dvd_refl _)) (Nat.le_add_left _ _) hmore rfl
        rw [← add_assoc] at hrest
        exact hrest
      have hok := react_closes s hsplit hstate hcap hword hinside (not_lt.mp hmore)
      have hoff : startOffset deleted sent e + n + (e.realSize - n) =
          endOffset deleted (sent ++ [e]) := by
        rw [endOffset_snoc]
        omega
      rw [hoff] at hok
      rw [receives_step hfind hok (.inr ?_)]
      · exact hnext
      · simp only [Host.settled]
        omega
    · have hnot := fragment_wrapped s hsplit hstate hdvd hcap hinside (not_lt.mp hword)
      refine iff_of_false hnot fun hp => hword ?_
      have hend := hsmall hp
      rw [endOffset_snoc] at hend
      omega

def Continues (events : List StoredEvent) (deleted : List DeletedEvent) (capacity endTime : Nat)
    (front : List StoredEvent) (p : StoredEvent) (post : List StoredEvent) : Prop :=
  ReadsAll events deleted capacity
      (.settled endTime (front ++ [p]) p.evtTime (endOffset deleted (front ++ [p]))) ↔
    endOffset deleted (front ++ [p]) < 2 ^ 16 ∧ Passes deleted (front ++ [p]) (chunks capacity post)

theorem not_bare_of_large (hheader : EVT_FIXED_BYTES ≤ capacity) (hlarge : capacity < e.realSize) :
    ¬ Bare [e] := by
  have hlen : e.evtLen ≠ 0 := by
    intro hzero
    rw [DiagEvent.realSize, hzero] at hlarge
    exact absurd hheader (not_le.mpr hlarge)
  simpa [Bare] using hlen

variable (s : Setting events deleted capacity endTime)
include s

theorem not_receives_bare (hsplit : events = sent ++ e :: rest) (hts : timestamp < endTime)
    (hfind : rtkDiagQueueFind events deleted timestamp (offset % 2 ^ 16) = some (.found e rest g 0))
    (hfits : e.realSize ≤ capacity) (hbare : Bare (packed capacity (e :: rest) 0)) :
    ¬ Receives events deleted capacity (.settled endTime sent timestamp offset) received := by
  have htyped : ∀ a ∈ e :: rest, a.Typed := fun a ha =>
    s.typed a (by simp [hsplit, mem_cons.mp ha])
  refine not_receives (fun ts off h => ts = timestamp ∧ off = offset ∧ h.output = none ∧
    h.currentTimestamp = timestamp ∧ h.endTime = endTime) ?_ ?_ ⟨rfl, rfl, rfl, rfl, rfl⟩
  · rintro ts off h ⟨-, -, hout, -⟩ hreceived
    rw [hout] at hreceived
    cases hreceived
  · rintro ts off h r ⟨rfl, rfl, hout, htime, hend⟩ hfind'
    rw [hfind] at hfind'
    cases hfind'
    rw [react_bare s.room hfits htyped (by rw [htime, hend]; exact hts) hbare]
    exact .inl ⟨rfl, rfl, by simpa using hout, by simpa using htime, by simpa using hend⟩

theorem receives_chunk (hsplit : events = sent ++ e :: rest) (hg : g < 2 ^ 16)
    (hts : timestamp < endTime) (hfrom : timestamp ≤ e.evtTime)
    (hfind : rtkDiagQueueFind events deleted timestamp (offset % 2 ^ 16) = some (.found e rest g 0))
    (hbase : ∀ last ∈ (firstChunk capacity (e :: rest)).getLast?,
      (if last.evtTime = timestamp then g else 0) = startOffset deleted sent last)
    (hnext : ∀ front p post, post.length < (e :: rest).length → events = (front ++ [p]) ++ post →
      Continues events deleted capacity endTime front p post) :
    ReadsAll events deleted capacity (.settled endTime sent timestamp offset) ↔
      Passes deleted sent (chunks capacity (e :: rest)) := by
  have hmem : ∀ a ∈ e :: rest, a ∈ events := fun a ha => by simp [hsplit, mem_cons.mp ha]
  have he := hmem e (.head _)
  rw [chunks_cons, Passes]
  by_cases hlarge : e.realSize > capacity
  · have hchunk : firstChunk capacity (e :: rest) = [e] := by simp [firstChunk, hlarge]
    have hheader := s.header
    rw [hchunk] at hbase ⊢
    have hbare : ¬ Bare [e] := not_bare_of_large hheader hlarge
    have hoff : (if e.evtTime ≠ timestamp then capacity else g + capacity) =
        startOffset deleted sent e + capacity := by
      rw [← hbase e rfl]
      by_cases htime : e.evtTime = timestamp <;> simp [htime]
    have hok := @react_large capacity e (.settled endTime sent timestamp offset) rest g s.room
      (s.typed e he) hg hheader hlarge (s.beforeEnd e he)
    rw [settled_opened, hoff] at hok
    rw [receives_step hfind hok (.inr ?_)]
    · rw [receives_fragment s hsplit
        (hnext sent e rest (Nat.lt_succ_self _) (by simp [hsplit])) And.left ReadState.noConfusion
        (dvd_refl _) (le_refl _) hlarge]
      simp [hbare]
    · simp only [Host.fragment]
      have hpos : 0 < capacity := lt_of_lt_of_le (by decide) hheader
      omega
  have hfits := not_lt.mp hlarge
  have hchunk : firstChunk capacity (e :: rest) = packed capacity (e :: rest) 0 := by
    simp [firstChunk, hlarge]
  have htyped := fun a ha => s.typed a (hmem a ha)
  by_cases hbare : Bare (packed capacity (e :: rest) 0)
  · exact iff_of_false (not_receives_bare s hsplit hts hfind hfits hbare) (by simp [hchunk, hbare])
  have hend : ∀ a ∈ e :: rest, a.evtTime < endTime := fun a ha => s.beforeEnd a (hmem a ha)
  have hok := @react_whole capacity e (.settled endTime sent timestamp offset) rest g s.room hfits
    htyped hg hts hend hbare
  have hless := @drop_firstChunk_lt capacity e rest
  obtain ⟨c, last, post, hc, hlist, hdrop, -, hadvance⟩ := s.frame hsplit hfits
  rw [hchunk, hdrop] at hless ⊢
  rw [hchunk, hc] at hbase
  rw [hc] at hok hbare ⊢
  have hlast : startOffset deleted sent last = if last.evtTime = timestamp then g else 0 :=
    (hbase last (by simp)).symm
  have hoff : startOffset deleted sent last + sizeAt last.evtTime (c ++ [last]) =
      endOffset deleted (sent ++ c ++ [last]) := by
    rw [endOffset_snoc, sizeAt_snoc, startOffset, startOffset, sizeAt_append]
    omega
  rw [settled_recorded, hadvance timestamp hfrom, ← hlast, hoff, ← append_assoc] at hok
  rw [receives_step hfind hok (.inr ?_)]
  · have hcontinues := hnext (sent ++ c) last post hless (by rw [hsplit, hlist]; simp)
    rw [Continues] at hcontinues
    rw [hcontinues]
    simp [hbare]
  · have hpos := last.realSize_pos
    simp only [Host.settled, endOffset_snoc]
    omega

theorem startOffset_newer (hp : p ∈ events) (hsent : ∀ a ∈ sent, a.evtTime ≤ p.evtTime)
    (hlast : p.evtTime < last.evtTime) : startOffset deleted sent last = 0 := by
  rw [startOffset, sizeAt_eq_zero fun a ha => ne_of_lt (lt_of_le_of_lt (hsent a ha) hlast),
    deletedAt_eq_zero fun d hd => ne_of_lt (lt_of_le_of_lt (s.order.older d hd p hp) hlast)]

theorem receives_settled (front : List StoredEvent) (p : StoredEvent) (post : List StoredEvent)
    (hsplit : events = (front ++ [p]) ++ post) :
    Continues events deleted capacity endTime front p post := by
  induction hlen : post.length using Nat.strongRecOn generalizing front p post with
  | _ len ih =>
    have hsplit' : events = front ++ p :: post := by simp [hsplit]
    have hp : p ∈ events := by simp [hsplit]
    have horder := s.order
    rw [hsplit'] at horder
    have hsorted := pairwise_append.mp horder.sorted
    have hcons := pairwise_cons.mp hsorted.2.1
    have hoff : endOffset deleted (front ++ [p]) =
        deletedAt p.evtTime deleted + sizeAt p.evtTime (front ++ [p]) := by
      simp [endOffset]
    by_cases hword : endOffset deleted (front ++ [p]) < 2 ^ 16
    · rw [Continues, and_iff_right hword]
      have hmod : endOffset deleted (front ++ [p]) % 2 ^ 16 =
          deletedAt p.evtTime deleted + sizeAt p.evtTime (front ++ [p]) := by
        rw [Nat.mod_eq_of_lt hword, hoff]
      cases post with
      | nil =>
        have hfind : rtkDiagQueueFind events deleted p.evtTime
            (endOffset deleted (front ++ [p]) % 2 ^ 16) = some .noMore := by
          rw [hmod, hsplit']
          exact find_end horder (hoff ▸ hword) (by simp)
        rw [receives_noMore hfind]
        simp [Host.settled, hsplit, chunks, chunksFrom, Passes]
      | cons a rest =>
        have hpa : p.evtTime ≤ a.evtTime := hcons.1 a (.head _)
        have hfind : rtkDiagQueueFind events deleted p.evtTime
            (endOffset deleted (front ++ [p]) % 2 ^ 16) =
            some (.found a rest
              (if a.evtTime = p.evtTime then endOffset deleted (front ++ [p]) else 0) 0) := by
          by_cases htime : a.evtTime = p.evtTime
          · have hinside := @find_inside deleted (front ++ [p]) rest a (hsplit ▸ s.order) 0
              a.realSize_pos (by rw [htime, ← hoff]; exact hword)
            rw [htime, ← hoff, ← hsplit] at hinside
            rw [if_pos htime, Nat.mod_eq_of_lt hword]
            exact hinside
          · have hend := find_end horder (hoff ▸ hword) (by simpa using htime)
            rw [← hmod, ← hsplit'] at hend
            rw [if_neg htime]
            exact hend
        refine receives_chunk s hsplit ?_ (s.beforeEnd p hp) hpa hfind ?_ ?_
        · split
          · exact hword
          · decide
        · intro last hlast
          obtain ⟨hmem, hale⟩ := first_le_last hcons.2 hlast
          have hle : p.evtTime ≤ last.evtTime := hcons.1 last hmem
          by_cases htime : last.evtTime = p.evtTime
          · have hsame : a.evtTime = p.evtTime := le_antisymm (htime ▸ hale) hpa
            rw [if_pos htime, if_pos hsame, hoff, startOffset, htime]
          have hsent : ∀ b ∈ front ++ [p], b.evtTime ≤ p.evtTime := by
            intro b hb
            rcases mem_append.mp hb with hb | hb
            · exact hsorted.2.2 b hb p (.head _)
            · rw [mem_singleton.mp hb]
          rw [if_neg htime, startOffset_newer s hp hsent (Nat.lt_of_le_of_ne hle (Ne.symm htime))]
        · intro front' p' post' hless hsplit''
          exact ih post'.length (hlen ▸ hless) front' p' post' hsplit'' rfl
    · refine iff_of_false (Ahead.not_receives s ?_) fun hand => hword hand.1
      refine ahead_before s hsplit' rfl rfl rfl ?_ ?_
      · rw [← hoff]
        exact lt_of_lt_of_le (Nat.mod_lt _ (by decide)) (not_lt.mp hword)
      · simp [Host.settled, hsplit]

end

/-! ### The first request -/

section

variable (s : Setting (e :: rest) deleted capacity endTime)
include s

theorem find_first_zero : rtkDiagQueueFind (e :: rest) deleted 0 (0 % 2 ^ 16) =
      some (.found e rest (if e.evtTime = 0 then deletedAt 0 deleted else 0) 0) := by
  by_cases htime : e.evtTime = 0
  · have hfind := @find_deleted deleted [] rest e s.order 0 (by simp) (Nat.zero_le _)
    rw [htime] at hfind
    rw [if_pos htime]
    exact hfind
  · have hnewer : e.evtTime > 0 := Nat.pos_of_ne_zero htime
    simp [rtkDiagQueueFind, htime]

theorem startOffset_first (hlast : last ∈ (firstChunk capacity (e :: rest)).getLast?)
    (hne : last.evtTime ≠ e.evtTime) : startOffset deleted [] last = 0 :=
  startOffset_newer s (.head _) (by simp)
    (Nat.lt_of_le_of_ne (first_le_last s.order.sorted hlast).2 (Ne.symm hne))

/-- A large first event behind deleted events of its timestamp: the tool asks for the offset
    `capacity`, and the device starts the event again if that lies among the deleted ones. -/
theorem receives_first_large (htime : e.evtTime ≠ 0) (hdeleted : deletedAt e.evtTime deleted ≠ 0)
    (hlarge : capacity < e.realSize) :
    ReadsAll (e :: rest) deleted capacity (.settled endTime [] 0 0) ↔
      Passes deleted [] (chunks capacity (e :: rest)) ∧ capacity ≤ deletedAt e.evtTime deleted := by
  have hheader := s.header
  have htyped := s.typed e (.head _)
  have hend := s.beforeEnd e (.head _)
  have hfind := find_first_zero s
  rw [if_neg htime] at hfind
  have hok := @react_large capacity e (.settled endTime [] 0 0) rest 0 s.room htyped (by decide)
    hheader hlarge hend
  rw [settled_opened, if_pos htime] at hok
  rw [receives_step hfind hok (.inl htime)]
  by_cases hamong : capacity ≤ deletedAt e.evtTime deleted
  · have hcap : capacity % 2 ^ 16 ≤ deletedAt e.evtTime deleted :=
      le_trans (Nat.mod_le _ _) hamong
    have hagain := @find_deleted deleted [] rest e s.order _ (by simp) hcap
    rw [nil_append] at hagain
    have hok' := @react_large capacity e
      (.fragment endTime [] capacity e capacity .bigFirstSeg) rest
      (deletedAt e.evtTime deleted) s.room htyped (deletedAt_lt _ _) hheader hlarge hend
    rw [fragment_opened ReadState.noConfusion] at hok'
    rw [receives_step hagain hok' (.inl htime)]
    have hchunk : firstChunk capacity (e :: rest) = [e] := by simp [firstChunk, hlarge]
    have hbare : ¬ Bare [e] := not_bare_of_large hheader hlarge
    have hstart : startOffset deleted [] e = deletedAt e.evtTime deleted := by simp [startOffset]
    have hnext := receives_settled s [] e rest rfl
    rw [← hstart, receives_fragment s (nil_append _).symm hnext And.left ReadState.noConfusion
      (dvd_refl _) (le_refl _) hlarge, chunks_cons, hchunk]
    simp [Passes, hbare, hamong, hstart]
  · refine iff_of_false (Shifted.not_receives s hdeleted ?_) fun hand => hamong hand.2
    exact ⟨rfl, rfl, rfl, rfl, rfl, not_le.mp hamong, le_of_lt hlarge,
      Nat.sub_add_cancel hheader, _, rfl, toHeader_size e⟩

/-- A first frame within the first timestamp, behind deleted events of that timestamp: its events
    are sent again. -/
theorem not_receives_first (htime : e.evtTime ≠ 0) (hdeleted : deletedAt e.evtTime deleted ≠ 0)
    (hfits : e.realSize ≤ capacity) (hlast : last ∈ (firstChunk capacity (e :: rest)).getLast?)
    (hsame : last.evtTime = e.evtTime) :
    ¬ ReadsAll (e :: rest) deleted capacity (.settled endTime [] 0 0) := by
  have hfind := find_first_zero s
  rw [if_neg htime] at hfind
  have hts : 0 < endTime := lt_of_le_of_lt (Nat.zero_le _) (s.beforeEnd e (.head _))
  by_cases hbare : Bare (packed capacity (e :: rest) 0)
  · exact not_receives_bare s (nil_append _).symm hts hfind hfits hbare
  have hchunk : firstChunk capacity (e :: rest) = packed capacity (e :: rest) 0 := by
    simp [firstChunk, not_lt.mpr hfits]
  have hok := @react_whole capacity e (.settled endTime [] 0 0) rest 0 s.room hfits s.typed
    (by decide) hts s.beforeEnd hbare
  obtain ⟨c, last', post, hc, hlist, -, -, hadvance⟩ := s.frame (nil_append _).symm hfits
  rw [hchunk, hc] at hlast
  obtain rfl : last' = last := by simpa using hlast
  rw [hc, settled_recorded, hadvance 0 (Nat.zero_le _), ite_self, zero_add] at hok
  have hne : last'.evtTime ≠ 0 := hsame ▸ htime
  rw [receives_step hfind hok (.inl hne)]
  refine Ahead.not_receives s (ahead_before s hlist rfl rfl rfl ?_ ?_)
  · rw [hsame]
    exact lt_of_le_of_lt (Nat.mod_le _ _) (Nat.lt_add_of_pos_left (Nat.pos_of_ne_zero hdeleted))
  · have hlen := congrArg List.length hlist
    simp only [Host.settled, length_append, length_map, length_cons] at hlen ⊢
    omega

theorem receives_from_first : ReadsAll (e :: rest) deleted capacity (.settled endTime [] 0 0) ↔
      Passes deleted [] (chunks capacity (e :: rest)) ∧ InStep deleted capacity (e :: rest) := by
  have hts : 0 < endTime := lt_of_le_of_lt (Nat.zero_le _) (s.beforeEnd e (.head _))
  -- the offset of the tool is right behind the first frame
  have hchunk : ∀ g < 2 ^ 16,
      rtkDiagQueueFind (e :: rest) deleted 0 (0 % 2 ^ 16) = some (.found e rest g 0) →
      (∀ last ∈ (firstChunk capacity (e :: rest)).getLast?,
        (if last.evtTime = 0 then g else 0) = startOffset deleted [] last) →
      (ReadsAll (e :: rest) deleted capacity (.settled endTime [] 0 0) ↔
        Passes deleted [] (chunks capacity (e :: rest))) := fun g hg hfind hbase =>
    receives_chunk s (nil_append _).symm hg hts (Nat.zero_le _) hfind hbase
      fun front p post _ hsplit => receives_settled s front p post hsplit
  have hfind := find_first_zero s
  by_cases htime : e.evtTime = 0
  · rw [if_pos htime] at hfind
    rw [hchunk _ (deletedAt_lt _ _) hfind ?_]
    · simp [InStep, htime]
    · intro last hlast
      by_cases hzero : last.evtTime = 0
      · simp [startOffset, hzero]
      · rw [if_neg hzero, startOffset_first s hlast (htime ▸ hzero)]
  rw [if_neg htime] at hfind
  have hwhole : (∀ last ∈ (firstChunk capacity (e :: rest)).getLast?,
      startOffset deleted [] last = 0) →
      (ReadsAll (e :: rest) deleted capacity (.settled endTime [] 0 0) ↔
        Passes deleted [] (chunks capacity (e :: rest))) := by
    intro hbase
    refine hchunk 0 (by decide) hfind fun last hlast => ?_
    rw [hbase last hlast, ite_self]
  by_cases hdeleted : deletedAt e.evtTime deleted = 0
  · rw [hwhole ?_]
    · simp [InStep, hdeleted]
    · intro last hlast
      by_cases hsame : last.evtTime = e.evtTime
      · simp [startOffset, hsame, hdeleted]
      · exact startOffset_first s hlast hsame
  by_cases hlarge : e.realSize > capacity
  · rw [receives_first_large s htime hdeleted hlarge]
    simp [InStep, htime, hdeleted, hlarge]
  by_cases hnewer : ∀ a ∈ (firstChunk capacity (e :: rest)).getLast?, a.evtTime ≠ e.evtTime
  · rw [hwhole fun last hlast => startOffset_first s hlast (hnewer last hlast)]
    simp only [InStep, htime, hdeleted, if_neg hlarge, false_or]
    exact (and_iff_left hnewer).symm
  obtain ⟨last, hlast, hsame⟩ : ∃ a ∈ (firstChunk capacity (e :: rest)).getLast?,
      a.evtTime = e.evtTime := by
    by_contra hnone
    exact hnewer fun a ha hsame => hnone ⟨a, ha, hsame⟩
  refine iff_of_false (not_receives_first s htime hdeleted (not_lt.mp hlarge) hlast hsame) ?_
  simp only [InStep, htime, hdeleted, if_neg hlarge, false_or]
  exact fun hand => hnewer hand.2

end

/-! ### The main result -/

section

theorem before_end_of_receives
    (hreceives : Receives events deleted capacity (.init endTime) received) :
    ∀ x ∈ received, x.eventTime < endTime := by
  by_contra hnot
  refine not_receives (fun _ _ h => h.Kept endTime) ?_ ?_ (Host.Kept.init endTime) hreceives
  · intro _ _ h hk hout
    exact hnot (hk.output received hout)
  · intro _ _ h r hk _
    have hnext : (react capacity h r).1.Kept endTime := hk.processMessage _
    refine .inl ?_
    rcases hreact : react capacity h r with ⟨h', _ | _⟩ <;> rw [hreact] at hnext <;> exact hnext

theorem receives_iff_readable (order : InOrder deleted events) (typed : ∀ e ∈ events, e.Typed)
    (header : EVT_FIXED_BYTES ≤ capacity) (room : capacity + 3 < 2 ^ 16) :
    ReadsAll events deleted capacity (.init endTime) ↔
      Readable events deleted capacity endTime := by
  cases events with
  | nil =>
    have hfind : rtkDiagQueueFind [] deleted 0 (0 % 2 ^ 16) = some .noMore := rfl
    have hreceives : Receives [] deleted capacity (.init endTime) [] :=
      (receives_noMore hfind).mpr rfl
    exact iff_of_true hreceives ⟨by simp, trivial, trivial⟩
  | cons e rest =>
    constructor
    · intro hreceives
      have hbefore : ∀ a ∈ e :: rest, a.evtTime < endTime := fun a ha =>
        before_end_of_receives hreceives a.toRtk (mem_map_of_mem ha)
      have s : Setting (e :: rest) deleted capacity endTime := ⟨order, typed, header, room, hbefore⟩
      obtain ⟨hpasses, hstep⟩ := (receives_from_first s).mp hreceives
      exact ⟨hbefore, hpasses, hstep⟩
    · rintro ⟨hbefore, hpasses, hstep⟩
      exact (receives_from_first ⟨order, typed, header, room, hbefore⟩).mpr ⟨hpasses, hstep⟩

end

/-- The tool receives every event of a queue that does not change, once, in order and with its
    bytes, and then an empty frame, exactly if the queue is readable. -/
theorem queue_received_iff (q : DiagQueue) (rsvd : EventRef → Vector UInt8 3)
    {senderBufferSize : Nat} (endTime : Nat) (hbuffer : senderBufferSize < 2 ^ 16)
    (hheader : SIZEOF_EVENT ≤ eventCapacity senderBufferSize)
    (htyped : ∀ e ∈ q.stored rsvd, e.Typed)
    (horder : InOrder q.deletedEvtArr.toList (q.stored rsvd)) :
    Receives (q.stored rsvd) q.deletedEvtArr.toList (eventCapacity senderBufferSize) (.init endTime)
        ((q.stored rsvd).map StoredEvent.toRtk) ↔
      Readable (q.stored rsvd) q.deletedEvtArr.toList (eventCapacity senderBufferSize) endTime := by
  refine receives_iff_readable horder htyped hheader ?_
  have hpos : 0 < eventCapacity senderBufferSize := lt_of_lt_of_le (by decide) hheader
  simp only [eventCapacity] at hpos ⊢
  omega

instance decidablePasses (deleted : List DeletedEvent) :
    ∀ sent cs, Decidable (Passes deleted sent cs)
  | _, [] => isTrue trivial
  | sent, c :: cs =>
    have := decidablePasses deleted (sent ++ c) cs
    inferInstanceAs (Decidable (_ ∧ _ ∧ _))

instance (deleted : List DeletedEvent) (capacity : Nat) :
    ∀ events, Decidable (InStep deleted capacity events)
  | [] => isTrue trivial
  | _ :: _ => inferInstanceAs (Decidable (_ ∨ _ ∨ _))

/-- What the tool has handed over when its loop has ended. -/
def ReadResult.received : ReadResult → Option (List RtkEvent)
  | .finished h _ => h.output
  | _ => none

/-- Two events, and one of 600 bytes, which is read in fragments. -/
def threeEvents : List QueueOp :=
  [.enqueue (noteEvent 5) true, .enqueue (noteEvent 6) true,
    .enqueue ⟨2, 7, 0, List.replicate 600 9⟩ true]

theorem queue_received_run :
    ∃ q, threeEvents.foldl queueStep (rtkDiagQueueInit 300 2000) = some q ∧
      Receives (q.stored fun _ => #v[0, 0, 0]) q.deletedEvtArr.toList (eventCapacity 512)
        (.init 100)
        ((q.stored fun _ => #v[0, 0, 0]).map StoredEvent.toRtk) := by
  have hrun : (threeEvents.foldl queueStep (rtkDiagQueueInit 300 2000)).map
      (fun q => (q.stored fun _ => #v[0, 0, 0], q.deletedEvtArr.toList)) =
      some ([⟨noteEvent 5, #v[0, 0, 0]⟩, ⟨noteEvent 6, #v[0, 0, 0]⟩,
        ⟨⟨2, 7, 0, List.replicate 600 9⟩, #v[0, 0, 0]⟩], []) := by
    decide +kernel
  obtain ⟨q, hq, hstate⟩ := Option.map_eq_some_iff.mp hrun
  obtain ⟨hstored, hdeleted⟩ := Prod.mk.inj hstate
  refine ⟨q, hq, (queue_received_iff q _ 100 (by decide) (by decide) ?_ ?_).mpr ?_⟩
  · rw [hstored]
    simp only [mem_cons, not_mem_nil, or_false, forall_eq_or_imp, forall_eq]
    refine ⟨?_, ?_, ?_⟩ <;>
      exact ⟨by decide +kernel, by decide +kernel, by decide +kernel, by decide +kernel⟩
  · rw [hstored, hdeleted]
    exact ⟨by decide +kernel, by decide +kernel⟩
  · rw [hstored, hdeleted]
    exact ⟨by decide +kernel, by decide +kernel, by decide +kernel⟩

/-- Two events with timestamp 5, the first given up: the offset that the tool asks for lies among
    the deleted bytes, and the second event is recorded twice. -/
theorem event_received_twice :
    ∃ q, [QueueOp.enqueue (noteEvent 5) true, .enqueue (noteEvent 5) true].foldl queueStep
        (rtkDiagQueueInit 140 300) = some q ∧
      (q.stored fun _ => #v[0, 0, 0]) = [⟨noteEvent 5, #v[0, 0, 0]⟩] ∧
      (getDiagEvent (device (q.stored fun _ => #v[0, 0, 0]) q.deletedEvtArr.toList
        (eventCapacity 512))
        3 (.init 100)).received =
        some (List.replicate 2 (StoredEvent.toRtk ⟨noteEvent 5, #v[0, 0, 0]⟩)) ∧
      ¬ Receives (q.stored fun _ => #v[0, 0, 0]) q.deletedEvtArr.toList (eventCapacity 512)
        (.init 100) ((q.stored fun _ => #v[0, 0, 0]).map StoredEvent.toRtk) := by
  have hrun : ([QueueOp.enqueue (noteEvent 5) true, .enqueue (noteEvent 5) true].foldl queueStep
      (rtkDiagQueueInit 140 300)).map
      (fun q => (q.stored fun _ => #v[0, 0, 0], q.deletedEvtArr.toList)) =
      some ([⟨noteEvent 5, #v[0, 0, 0]⟩], [⟨5, 1, 100⟩]) := by
    decide +kernel
  obtain ⟨q, hq, hstate⟩ := Option.map_eq_some_iff.mp hrun
  obtain ⟨hstored, hdeleted⟩ := Prod.mk.inj hstate
  refine ⟨q, hq, hstored, by rw [hstored, hdeleted]; decide +kernel, ?_⟩
  rw [hstored, hdeleted]
  refine mt (receives_iff_readable ⟨by decide, by decide⟩ ?_ (by decide) (by decide)).mp ?_
  rotate_left
  · rintro ⟨-, -, hstep⟩
    exact absurd hstep (by decide +kernel)
  · simp only [mem_singleton, forall_eq]
    exact ⟨by decide, by decide, by decide, by decide⟩

end AmebaRtos.Diagnose
