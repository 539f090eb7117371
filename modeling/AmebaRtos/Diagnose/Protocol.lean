import Mathlib.Data.Vector.Defs
import AmebaRtos.Diagnose.TotalSize
import AmebaRtos.Lib.Memory

/-!
# Reading events from the device

`AT+DIAG=GET_EVT` names an event by its timestamp and by an offset among the bytes of all events
with that timestamp, the deleted ones included. `rtk_diag_queue_find` looks it up, and
`ameba_diagnose_protocol.c` packs as many whole events as the frame holds, or a fragment of a
larger one. The pointer that is returned, and the node remembered for the events behind it, are
here the event and the events that follow it.
-/

namespace AmebaRtos.Diagnose

open Lib
open List hiding Vector

/-- `RtkDiagEvent_t` as it lies in memory; nothing is ever written to `rsvd`. -/
structure StoredEvent extends DiagEvent where
  rsvd : Vector UInt8 3
deriving DecidableEq

variable (timestamp : Nat) (e : StoredEvent)

namespace StoredEvent

/-- The fields in front of `evt_info`. -/
def header : List UInt8 :=
  toLE 2 e.evtType ++ (toLE 2 e.evtLen ++ (toLE 4 e.evtTime ++ (toLE 1 e.evtLevel ++
    e.rsvd.toList)))

def bytes : List UInt8 := e.header ++ e.evtInfo

/-- The fields fit their types, and the size fits the 16 bits in which it is kept. -/
structure Typed (e : StoredEvent) : Prop where
  type : e.evtType < 2 ^ 16
  time : e.evtTime < 2 ^ 32
  level : e.evtLevel < 2 ^ 8
  size : e.realSize < 2 ^ 16

@[simp] theorem length_header : e.header.length = SIZEOF_EVENT := by
  simp [header, SIZEOF_EVENT]

@[simp] theorem length_bytes : e.bytes.length = e.realSize := by
  simp [bytes, DiagEvent.realSize, DiagEvent.evtLen]

theorem realSize_ge : SIZEOF_EVENT ≤ e.realSize := Nat.le_add_right _ _

theorem realSize_pos : 0 < e.realSize :=
  lt_of_lt_of_le (by decide) e.realSize_ge

end StoredEvent

/-- The events of the queue as they lie in memory. -/
def DiagQueue.stored (q : DiagQueue) (rsvd : EventRef → Vector UInt8 3) : List StoredEvent :=
  q.evtNodeArr.toList.filterMap fun ref => (q.eventAt ref).map fun e => ⟨e, rsvd ref⟩

/-! ### Finding an event -/

/-- What `rtk_diag_queue_find` returns: the event, the offset in front of it or inside it, and its
    part inside. -/
inductive FindResult where
  | noMore
  | found (event : StoredEvent) (behind : List StoredEvent) (globalOffset localOffset : Nat)

/-- What comes first in the rest of the queue, with no offset. -/
def FindResult.first : List StoredEvent → FindResult
  | [] => .noMore
  | e :: es => .found e es 0 0

def deletedOffset (timestamp : Nat) : List DeletedEvent → Nat → Option Nat
  | [], totalOffset => some totalOffset
  | d :: ds, totalOffset =>
    if d.evtTime = timestamp then
      deletedOffset timestamp ds ((totalOffset + (SIZEOF_EVENT + d.evtLen)) % 2 ^ 16)
    else if d.evtTime > timestamp then none
    else deletedOffset timestamp ds totalOffset

/-- The loop over the events with the timestamp: what is left of the queue, the offset there, and
    the offset inside the event. -/
def walk (timestamp globalOffset : Nat) : List StoredEvent → Nat → List StoredEvent × Nat × Nat
  | [], totalOffset => ([], totalOffset, 0)
  | e :: es, totalOffset =>
    if e.evtTime = timestamp then
      if totalOffset + e.realSize > globalOffset then
        (e :: es, totalOffset, globalOffset - totalOffset)
      else walk timestamp globalOffset es ((totalOffset + e.realSize) % 2 ^ 16)
    else (e :: es, totalOffset, 0)

/-- `rtk_diag_queue_find`; no result when an assertion fails. -/
def rtkDiagQueueFind (events : List StoredEvent) (deleted : List DeletedEvent)
    (timestamp globalOffset : Nat) : Option FindResult :=
  match events.dropWhile fun e => decide (e.evtTime < timestamp) with
  | [] => some .noMore
  | e :: es =>
    if e.evtTime > timestamp then some (.found e es 0 0)
    else
      (deletedOffset timestamp deleted 0).bind fun totalOffset =>
        if globalOffset ≤ totalOffset then some (.found e es totalOffset 0)
        else
          match walk timestamp globalOffset (e :: es) totalOffset with
          | ([], total, _) => if globalOffset = total then some .noMore else none
          | (e' :: es', _, localOffset) =>
            if e'.evtTime ≠ timestamp then some (.found e' es' 0 0)
            else some (.found e' es' globalOffset localOffset)

/-! ### Packing a frame -/

def SIZEOF_DATA_FRAME : Nat := 5

/-- `event_capacity` of a frame buffer, as `rtk_diag_proto_set_buffer` computes it. -/
def eventCapacity (senderBufferSize : Nat) : Nat := senderBufferSize - SIZEOF_DATA_FRAME - 2 - 1

/-- `RtkDiagDataFrame_t`, its payload without the checksum. -/
structure DataFrame where
  cmd : UInt8
  payload : List UInt8
deriving DecidableEq

/-- `rtk_diag_proto_pack_crc`. -/
def DataFrame.crc (f : DataFrame) : UInt8 := f.payload.foldl (· ^^^ ·) f.cmd

def DataFrame.bytes (f : DataFrame) : List UInt8 :=
  [0x72, 0x74] ++ (toLE 2 (f.payload.length + 1) ++ (f.cmd :: (f.payload ++ [f.crc])))

/-- The loop of `rtk_diag_proto_load_data_from_start` that copies whole events. -/
def loadWhole (capacity : Nat) : List StoredEvent → Nat → List UInt8
  | [], _ => []
  | e :: es, total =>
    if e.realSize % 2 ^ 16 + total > capacity then []
    else e.bytes.take (e.realSize % 2 ^ 16) ++
      loadWhole capacity es ((total + e.realSize % 2 ^ 16) % 2 ^ 16)

/-- `rtk_diag_proto_load_data_from_start`. -/
def loadDataFromStart (capacity : Nat) (e : StoredEvent) (behind : List StoredEvent) : List UInt8 :=
  if e.realSize % 2 ^ 16 > capacity then e.bytes.take capacity
  else loadWhole capacity (e :: behind) 0

/-- `rtk_diag_proto_load_data_from_middle`. -/
def loadDataFromMiddle (capacity : Nat) (e : StoredEvent) (localOffset : Nat) :
    UInt8 × List UInt8 :=
  if e.realSize % 2 ^ 16 > localOffset + capacity then
    (0x13, (e.bytes.drop localOffset).take capacity)
  else
    (0x23, (e.bytes.drop localOffset).take ((e.realSize % 2 ^ 16 + 2 ^ 16 - localOffset) % 2 ^ 16))

def rtkDiagProtoPackEvent (capacity : Nat) : FindResult → DataFrame
  | .noMore => ⟨0x03, []⟩
  | .found e behind globalOffset localOffset =>
    if localOffset = 0 then
      ⟨0x03, toLE 2 globalOffset ++ loadDataFromStart capacity e behind⟩
    else
      ⟨(loadDataFromMiddle capacity e localOffset).1,
        toLE 2 globalOffset ++ (loadDataFromMiddle capacity e localOffset).2⟩

/-- `AT+DIAG=GET_EVT`: the offset is read into 16 bits. -/
def rtkDiagReqGetEvent (events : List StoredEvent) (deleted : List DeletedEvent) (capacity : Nat)
    (timestamp offset : Nat) : Option DataFrame :=
  (rtkDiagQueueFind events deleted timestamp (offset % 2 ^ 16)).map (rtkDiagProtoPackEvent capacity)

/-! ### Offsets among the events of one timestamp -/

def sizeAt (events : List StoredEvent) : Nat :=
  ((events.filter fun e => decide (e.evtTime = timestamp)).map (·.realSize)).sum

def deletedAt (deleted : List DeletedEvent) : Nat :=
  ((deleted.filter fun d => decide (d.evtTime = timestamp)).map (SIZEOF_EVENT + ·.evtLen)).sum
    % 2 ^ 16

/-- The timestamps do not decrease from the deleted events to the newest one. -/
structure InOrder (deleted : List DeletedEvent) (events : List StoredEvent) : Prop where
  sorted : events.Pairwise fun a b => a.evtTime ≤ b.evtTime
  older : ∀ d ∈ deleted, ∀ e ∈ events, d.evtTime ≤ e.evtTime

@[simp] theorem sizeAt_nil : sizeAt timestamp [] = 0 := rfl

variable {timestamp : Nat} {e : StoredEvent}

theorem sizeAt_cons_eq (h : e.evtTime = timestamp) :
    sizeAt timestamp (e :: es) = e.realSize + sizeAt timestamp es := by
  simp [sizeAt, h]

theorem sizeAt_cons_ne (h : e.evtTime ≠ timestamp) :
    sizeAt timestamp (e :: es) = sizeAt timestamp es := by
  simp [sizeAt, h]

theorem sizeAt_append (timestamp : Nat) (es es' : List StoredEvent) :
    sizeAt timestamp (es ++ es') = sizeAt timestamp es + sizeAt timestamp es' := by
  simp [sizeAt]

theorem sizeAt_eq_zero (h : ∀ e ∈ es, e.evtTime ≠ timestamp) : sizeAt timestamp es = 0 := by
  induction es with
  | nil => rfl
  | cons e es ih =>
    rw [sizeAt_cons_ne (h e mem_cons_self)]
    exact ih fun e' he' => h e' (.tail e he')

theorem deletedAt_lt (timestamp : Nat) (deleted : List DeletedEvent) :
    deletedAt timestamp deleted < 2 ^ 16 := Nat.mod_lt _ (by decide)

theorem deletedAt_eq_zero (h : ∀ d ∈ deleted, d.evtTime ≠ timestamp) :
    deletedAt timestamp deleted = 0 := by
  have hfilter : deleted.filter (fun d => decide (d.evtTime = timestamp)) = [] := by
    simpa using h
  simp [deletedAt, hfilter]

theorem deletedOffset_eq (h : ∀ d ∈ deleted, d.evtTime ≤ timestamp) (htotal : total < 2 ^ 16) :
    deletedOffset timestamp deleted total =
      some ((total + ((deleted.filter fun d => decide (d.evtTime = timestamp)).map
        (SIZEOF_EVENT + ·.evtLen)).sum) % 2 ^ 16) := by
  induction deleted generalizing total with
  | nil =>
    exact congrArg some (Nat.mod_eq_of_lt htotal).symm
  | cons d ds ih =>
    have hds := fun d' hd' => h d' (.tail d hd')
    by_cases htime : d.evtTime = timestamp
    · rw [deletedOffset, ih hds (Nat.mod_lt _ (by decide))]
      simp [htime, add_assoc]
    · have hle : ¬ d.evtTime > timestamp := not_lt.mpr (h d (.head _))
      rw [deletedOffset, if_neg hle, ih hds htotal]
      simp [htime]

theorem deletedOffset_zero (h : ∀ d ∈ deleted, d.evtTime ≤ timestamp) :
    deletedOffset timestamp deleted 0 = some (deletedAt timestamp deleted) := by
  rw [deletedOffset_eq h (by decide), zero_add, deletedAt]

/-! ### Where the loop stops -/

section

theorem walk_append (hes : ∀ e ∈ es, e.evtTime = timestamp)
    (hfits : total + sizeAt timestamp es ≤ globalOffset) (hword : globalOffset < 2 ^ 16) :
    walk timestamp globalOffset (es ++ rest) total =
      walk timestamp globalOffset rest (total + sizeAt timestamp es) := by
  induction es generalizing total with
  | nil => rfl
  | cons e es ih =>
    have htime := hes e (.head _)
    rw [sizeAt_cons_eq htime] at hfits ⊢
    have hle : total + e.realSize ≤ globalOffset :=
      le_trans (Nat.add_le_add_left (Nat.le_add_right _ _) _) hfits
    rw [cons_append, walk, if_pos htime, if_neg (not_lt.mpr hle),
      Nat.mod_eq_of_lt (lt_of_le_of_lt hle hword),
      ih (fun e' he' => hes e' (.tail e he')) (by rwa [add_assoc]),
      add_assoc]

theorem walk_end (hrest : ∀ e ∈ rest.head?, e.evtTime ≠ timestamp) :
    walk timestamp globalOffset rest total = (rest, total, 0) := by
  cases rest with
  | nil => rfl
  | cons e es => rw [walk, if_neg (hrest e rfl)]

end

/-! ### What is found -/

section

theorem split_older (hsorted : (front ++ e :: behind).Pairwise fun a b => a.evtTime ≤ b.evtTime) :
    ∃ older same, front = older ++ same ∧ (∀ a ∈ older, a.evtTime < e.evtTime) ∧
      ∀ a ∈ same, a.evtTime = e.evtTime := by
  induction front with
  | nil => exact ⟨[], [], rfl, by simp, by simp⟩
  | cons a front ih =>
    rw [cons_append, pairwise_cons] at hsorted
    have hle : a.evtTime ≤ e.evtTime := hsorted.1 e (by simp)
    by_cases heq : a.evtTime = e.evtTime
    · refine ⟨[], a :: front, rfl, by simp, forall_mem_cons.mpr ⟨heq, fun b hb => ?_⟩⟩
      have hfrom : a.evtTime ≤ b.evtTime := hsorted.1 b (by simp [hb])
      have hto : b.evtTime ≤ e.evtTime := (pairwise_append.mp hsorted.2).2.2 b hb e (.head _)
      exact le_antisymm hto (heq ▸ hfrom)
    · obtain ⟨older, same, rfl, holder, hsame⟩ := ih hsorted.2
      exact ⟨a :: older, same, rfl, forall_mem_cons.mpr ⟨Nat.lt_of_le_of_ne hle heq, holder⟩, hsame⟩

theorem sizeAt_split (holder : ∀ a ∈ older, a.evtTime < timestamp) :
    sizeAt timestamp (older ++ same) = sizeAt timestamp same := by
  rw [sizeAt_append, sizeAt_eq_zero fun a ha => ne_of_lt (holder a ha), zero_add]

theorem dropWhile_older {older rest : List StoredEvent}
    (holder : ∀ a ∈ older, a.evtTime < timestamp)
    (hrest : ∀ a ∈ rest.head?, timestamp ≤ a.evtTime) :
    (older ++ rest).dropWhile (fun a => decide (a.evtTime < timestamp)) = rest := by
  induction older with
  | nil =>
    cases rest with
    | nil => rfl
    | cons a rest => simpa using hrest a rfl
  | cons a older ih =>
    have hlt := holder a (.head _)
    simp only [cons_append, dropWhile_cons, hlt]
    exact ih fun b hb => holder b (.tail a hb)

theorem find_from_first (holder : ∀ a ∈ older, a.evtTime < timestamp)
    (hfirst : first.evtTime = timestamp) (hdeleted : ∀ d ∈ deleted, d.evtTime ≤ timestamp)
    (globalOffset : Nat) :
    rtkDiagQueueFind (older ++ first :: es) deleted timestamp globalOffset =
      if globalOffset ≤ deletedAt timestamp deleted then
        some (.found first es (deletedAt timestamp deleted) 0)
      else
        match walk timestamp globalOffset (first :: es) (deletedAt timestamp deleted) with
        | ([], total, _) => if globalOffset = total then some .noMore else none
        | (e' :: es', _, localOffset) =>
          if e'.evtTime ≠ timestamp then some (.found e' es' 0 0)
          else some (.found e' es' globalOffset localOffset) := by
  have hdrop := @dropWhile_older timestamp older (first :: es) holder
    (by simp [le_of_eq hfirst.symm])
  have hnewer : ¬ first.evtTime > timestamp := by simp [hfirst]
  simp only [rtkDiagQueueFind, hdrop, if_neg hnewer, deletedOffset_zero hdeleted, Option.bind_some]

theorem find_walk (holder : ∀ a ∈ older, a.evtTime < e.evtTime)
    (hsame : ∀ a ∈ same, a.evtTime = e.evtTime) (hdeleted : ∀ d ∈ deleted, d.evtTime ≤ e.evtTime)
    (hpast : ¬ globalOffset ≤ deletedAt e.evtTime deleted) :
    rtkDiagQueueFind (older ++ (same ++ e :: behind)) deleted e.evtTime globalOffset =
      match walk e.evtTime globalOffset (same ++ e :: behind) (deletedAt e.evtTime deleted) with
      | ([], total, _) => if globalOffset = total then some .noMore else none
      | (e' :: es', _, localOffset) =>
        if e'.evtTime ≠ e.evtTime then some (.found e' es' 0 0)
        else some (.found e' es' globalOffset localOffset) := by
  cases same with
  | nil => rw [nil_append, find_from_first holder rfl hdeleted, if_neg hpast]
  | cons first same =>
    rw [cons_append, find_from_first holder (hsame first mem_cons_self) hdeleted, if_neg hpast]

variable (horder : InOrder deleted (front ++ e :: behind))
include horder

theorem InOrder.deleted_le : ∀ d ∈ deleted, d.evtTime ≤ e.evtTime := fun d hd =>
  horder.older d hd e (by simp)

theorem find_inside {localOffset : Nat} (hlocal : localOffset < e.realSize)
    (hword : deletedAt e.evtTime deleted + sizeAt e.evtTime front + localOffset < 2 ^ 16) :
    rtkDiagQueueFind (front ++ e :: behind) deleted e.evtTime
        (deletedAt e.evtTime deleted + sizeAt e.evtTime front + localOffset) =
      some (.found e behind
        (deletedAt e.evtTime deleted + sizeAt e.evtTime front + localOffset) localOffset) := by
  obtain ⟨older, same, rfl, holder, hsame⟩ := split_older horder.sorted
  rw [sizeAt_split holder] at hword ⊢
  rw [append_assoc]
  by_cases hpast : deletedAt e.evtTime deleted + sizeAt e.evtTime same + localOffset ≤
      deletedAt e.evtTime deleted
  · cases same with
    | nil =>
      obtain rfl : localOffset = 0 := by omega
      rw [nil_append, find_from_first holder rfl horder.deleted_le, if_pos hpast]
      rfl
    | cons first same =>
      rw [sizeAt_cons_eq (hsame first mem_cons_self)] at hpast
      have hpos := first.realSize_pos
      omega
  · rw [find_walk holder hsame horder.deleted_le hpast,
      walk_append hsame (Nat.le_add_right _ _) hword, walk, if_pos rfl,
      if_pos (Nat.add_lt_add_left hlocal _)]
    simp

theorem find_deleted {globalOffset : Nat} (holder : ∀ a ∈ front, a.evtTime < e.evtTime)
    (hoffset : globalOffset ≤ deletedAt e.evtTime deleted) :
    rtkDiagQueueFind (front ++ e :: behind) deleted e.evtTime globalOffset =
      some (.found e behind (deletedAt e.evtTime deleted) 0) := by
  rw [find_from_first holder rfl horder.deleted_le, if_pos hoffset]

theorem find_end (hword : deletedAt e.evtTime deleted + sizeAt e.evtTime (front ++ [e]) < 2 ^ 16)
    (hbehind : ∀ a ∈ behind.head?, a.evtTime ≠ e.evtTime) :
    rtkDiagQueueFind (front ++ e :: behind) deleted e.evtTime
        (deletedAt e.evtTime deleted + sizeAt e.evtTime (front ++ [e])) =
      some (.first behind) := by
  obtain ⟨older, same, rfl, holder, hsame⟩ := split_older horder.sorted
  have hsame' : ∀ a ∈ same ++ [e], a.evtTime = e.evtTime :=
    forall_mem_append.mpr ⟨hsame, forall_mem_singleton.mpr rfl⟩
  have hlist : same ++ e :: behind = (same ++ [e]) ++ behind := by simp
  have hpos : 0 < sizeAt e.evtTime (same ++ [e]) := by
    rw [sizeAt_append, sizeAt_cons_eq rfl]
    exact Nat.add_pos_right _ (Nat.add_pos_left e.realSize_pos _)
  simp only [append_assoc, sizeAt_split holder] at hword ⊢
  rw [find_walk holder hsame horder.deleted_le (by omega), hlist,
    walk_append hsame' (le_refl _) hword, walk_end hbehind]
  cases behind with
  | nil => simp [FindResult.first]
  | cons a rest => simp [FindResult.first, hbehind a rfl]

end

theorem exists_inside {timestamp base globalOffset : Nat} (hfrom : base ≤ globalOffset)
    (hto : globalOffset < base + sizeAt timestamp es) :
    ∃ front e behind localOffset, es = front ++ e :: behind ∧ e.evtTime = timestamp ∧
      localOffset < e.realSize ∧ globalOffset = base + sizeAt timestamp front + localOffset := by
  induction es generalizing base with
  | nil => exact absurd hto (not_lt.mpr hfrom)
  | cons a es ih =>
    by_cases htime : a.evtTime = timestamp
    · rw [sizeAt_cons_eq htime, ← add_assoc] at hto
      by_cases hpast : base + a.realSize ≤ globalOffset
      · obtain ⟨front, e, behind, localOffset, rfl, he, hlocal, heq⟩ := ih hpast hto
        refine ⟨a :: front, e, behind, localOffset, rfl, he, hlocal, ?_⟩
        rw [sizeAt_cons_eq htime, heq, add_assoc base]
      · refine ⟨[], a, es, globalOffset - base, rfl, htime, ?_, ?_⟩
        · exact Nat.sub_lt_left_of_lt_add hfrom (not_le.mp hpast)
        · simp [Nat.add_sub_cancel' hfrom]
    · rw [sizeAt_cons_ne htime] at hto
      obtain ⟨front, e, behind, localOffset, rfl, he, hlocal, heq⟩ := ih hfrom hto
      refine ⟨a :: front, e, behind, localOffset, rfl, he, hlocal, ?_⟩
      rw [sizeAt_cons_ne htime, heq]

def FindResult.remaining : FindResult → Nat
  | .noMore => 0
  | .found _ behind _ _ => behind.length + 1

@[simp] theorem FindResult.remaining_first : (FindResult.first es).remaining = es.length := by
  cases es <;> rfl

section NotPast

theorem find_before (horder : InOrder deleted (front ++ e :: behind))
    (hoffset : globalOffset < deletedAt e.evtTime deleted + sizeAt e.evtTime (front ++ [e]))
    (hword : globalOffset < 2 ^ 16) :
    ∃ r, rtkDiagQueueFind (front ++ e :: behind) deleted e.evtTime globalOffset = some r ∧
      behind.length + 1 ≤ r.remaining := by
  by_cases hdel : globalOffset ≤ deletedAt e.evtTime deleted
  · obtain ⟨older, same, rfl, holder, hsame⟩ := split_older horder.sorted
    have hdeleted := horder.deleted_le
    cases same with
    | nil =>
      refine ⟨.found e behind (deletedAt e.evtTime deleted) 0, ?_, le_refl _⟩
      rw [append_nil, find_from_first holder rfl hdeleted, if_pos hdel]
    | cons first same =>
      refine ⟨.found first (same ++ e :: behind) (deletedAt e.evtTime deleted) 0, ?_, ?_⟩
      · rw [append_assoc, cons_append,
          find_from_first holder (hsame first (.head _)) hdeleted, if_pos hdel]
      · simp only [FindResult.remaining, length_append, length_cons]
        omega
  · obtain ⟨front', e', behind', localOffset, hsplit, htime, hlocal, rfl⟩ :=
      exists_inside (Nat.le_of_not_le hdel) hoffset
    have hlist : front ++ e :: behind = front' ++ e' :: (behind' ++ behind) := by
      rw [← singleton_append, ← append_assoc, hsplit, append_assoc, cons_append]
    rw [hlist] at horder ⊢
    rw [← htime] at hword ⊢
    refine ⟨_, find_inside horder hlocal hword, ?_⟩
    simp [FindResult.remaining]

theorem find_not_past (horder : InOrder deleted (front ++ e :: behind))
    (hoffset : globalOffset ≤ deletedAt e.evtTime deleted + sizeAt e.evtTime (front ++ [e]))
    (hword : globalOffset < 2 ^ 16) :
    ∃ r, rtkDiagQueueFind (front ++ e :: behind) deleted e.evtTime globalOffset = some r ∧
      behind.length ≤ r.remaining := by
  rcases Nat.lt_or_eq_of_le hoffset with hlt | rfl
  · obtain ⟨r, hfind, hle⟩ := find_before horder hlt hword
    exact ⟨r, hfind, Nat.le_of_succ_le hle⟩
  by_cases hbehind : ∀ a ∈ behind.head?, a.evtTime ≠ e.evtTime
  · refine ⟨_, find_end horder hword hbehind, ?_⟩
    simp
  cases behind with
  | nil => simp at hbehind
  | cons a rest =>
    have htime : a.evtTime = e.evtTime := by simpa using hbehind
    rw [← singleton_append, ← append_assoc] at horder ⊢
    rw [← htime] at hword ⊢
    refine ⟨_, find_inside horder a.realSize_pos hword, ?_⟩
    simp [FindResult.remaining]

end NotPast

structure Located (events : List StoredEvent) (deleted : List DeletedEvent)
    (timestamp globalOffset : Nat) (e : StoredEvent) (behind : List StoredEvent)
    (foundOffset localOffset : Nat) (front : List StoredEvent) : Prop where
  split : events = front ++ e :: behind
  inside : localOffset < e.realSize
  newer : timestamp ≤ e.evtTime
  word : foundOffset < 2 ^ 16
  offset : foundOffset ≤ deletedAt e.evtTime deleted + sizeAt e.evtTime front + localOffset
  middle : localOffset ≠ 0 → e.evtTime = timestamp ∧ foundOffset = globalOffset ∧
    foundOffset = deletedAt e.evtTime deleted + sizeAt e.evtTime front + localOffset

theorem split_while (p : StoredEvent → Prop) [DecidablePred p] (es : List StoredEvent) :
    ∃ front rest, es = front ++ rest ∧ (∀ a ∈ front, p a) ∧ ∀ a ∈ rest.head?, ¬ p a := by
  refine ⟨_, _, (takeWhile_append_dropWhile (p := fun a => decide (p a))).symm, ?_, ?_⟩
  · intro a ha
    simpa using mem_takeWhile_imp ha
  · intro a ha
    have hfirst := List.head?_dropWhile_not (fun a => decide (p a)) es
    rw [ha] at hfirst
    simpa using hfirst

theorem find_located_past {older es behind : List StoredEvent}
    {globalOffset foundOffset localOffset : Nat} {first e : StoredEvent}
    (horder : InOrder deleted (older ++ first :: es))
    (holder : ∀ a ∈ older, a.evtTime < first.evtTime)
    (hdel : ¬ globalOffset ≤ deletedAt first.evtTime deleted)
    (hpast : ¬ globalOffset < deletedAt first.evtTime deleted +
      sizeAt first.evtTime (older ++ first :: es)) (hword : globalOffset < 2 ^ 16)
    (hfind : rtkDiagQueueFind (older ++ first :: es) deleted first.evtTime globalOffset =
      some (.found e behind foundOffset localOffset)) :
    ∃ front, Located (older ++ first :: es) deleted first.evtTime globalOffset e behind foundOffset
      localOffset front := by
  rw [find_from_first holder rfl horder.deleted_le, if_neg hdel] at hfind
  obtain ⟨same, newer, hsplit, hsame, hnewer⟩ :=
    split_while (·.evtTime = first.evtTime) (first :: es)
  have hfits : deletedAt first.evtTime deleted + sizeAt first.evtTime same ≤ globalOffset := by
    rw [hsplit, sizeAt_append, sizeAt_append] at hpast
    omega
  rw [hsplit, walk_append hsame hfits hword, walk_end hnewer] at hfind
  cases newer with
  | nil =>
    simp only at hfind
    split at hfind <;> simp at hfind
  | cons a rest =>
    have htime := hnewer a rfl
    simp only [if_pos htime, Option.some.injEq, FindResult.found.injEq] at hfind
    obtain ⟨rfl, rfl, rfl, rfl⟩ := hfind
    have hle : first.evtTime ≤ a.evtTime := by
      have hsorted := (pairwise_append.mp horder.sorted).2.1
      rw [pairwise_cons] at hsorted
      rcases mem_cons.mp (hsplit ▸ (by simp) : a ∈ first :: es) with rfl | ha
      · exact le_refl _
      · exact hsorted.1 a ha
    refine ⟨older ++ same, ?_, a.realSize_pos, hle, by decide, Nat.zero_le _, fun h => absurd rfl h⟩
    rw [hsplit, append_assoc]

theorem find_located {events behind : List StoredEvent}
    {timestamp globalOffset foundOffset localOffset : Nat} (horder : InOrder deleted events)
    (hword : globalOffset < 2 ^ 16)
    (hfind : rtkDiagQueueFind events deleted timestamp globalOffset =
      some (.found e behind foundOffset localOffset)) :
    ∃ front, Located events deleted timestamp globalOffset e behind foundOffset localOffset
      front := by
  obtain ⟨older, rest, rfl, holder, hrest⟩ := split_while (·.evtTime < timestamp) events
  simp only [not_lt] at hrest
  cases rest with
  | nil =>
    rw [rtkDiagQueueFind, dropWhile_older holder hrest] at hfind
    exact absurd hfind (by simp)
  | cons first es =>
    rcases Nat.lt_or_eq_of_le (hrest first rfl) with hnewer | hsame
    · rw [rtkDiagQueueFind, dropWhile_older holder hrest] at hfind
      simp only [if_pos hnewer, Option.some.injEq, FindResult.found.injEq] at hfind
      obtain ⟨rfl, rfl, rfl, rfl⟩ := hfind
      exact ⟨older, rfl, first.realSize_pos, le_of_lt hnewer, by decide, Nat.zero_le _,
        fun h => absurd rfl h⟩
    subst hsame
    by_cases hdel : globalOffset ≤ deletedAt first.evtTime deleted
    · rw [find_from_first holder rfl horder.deleted_le, if_pos hdel] at hfind
      simp only [Option.some.injEq, FindResult.found.injEq] at hfind
      obtain ⟨rfl, rfl, rfl, rfl⟩ := hfind
      exact ⟨older, rfl, first.realSize_pos, le_refl _, deletedAt_lt _ _,
        Nat.le_add_right _ _, fun h => absurd rfl h⟩
    by_cases hin : globalOffset < deletedAt first.evtTime deleted +
        sizeAt first.evtTime (older ++ first :: es)
    · obtain ⟨front', e', behind', inner, hsplit, htime, hinner, rfl⟩ :=
        exists_inside (Nat.le_of_not_le hdel) hin
      rw [hsplit] at horder hfind ⊢
      rw [← htime] at hword hfind ⊢
      rw [find_inside horder hinner hword] at hfind
      obtain ⟨rfl, rfl, rfl, rfl⟩ := hfind
      exact ⟨front', rfl, hinner, le_refl _, hword, le_refl _, fun _ => ⟨rfl, rfl, rfl⟩⟩
    · exact find_located_past horder holder hdel hin hword hfind

/-! ### What a frame carries -/

def packed (capacity : Nat) : List StoredEvent → Nat → List StoredEvent
  | [], _ => []
  | e :: es, total =>
    if e.realSize + total > capacity then []
    else e :: packed capacity es (total + e.realSize)

section Packed

theorem loadWhole_eq (htyped : ∀ e ∈ es, e.Typed) (hcapacity : capacity < 2 ^ 16) :
    loadWhole capacity es total = (packed capacity es total).flatMap StoredEvent.bytes := by
  induction es generalizing total with
  | nil => rfl
  | cons e es ih =>
    have hsize : e.realSize % 2 ^ 16 = e.realSize :=
      Nat.mod_eq_of_lt (htyped e (.head _)).size
    rw [loadWhole, packed, hsize]
    by_cases hfull : e.realSize + total > capacity
    · rw [if_pos hfull, if_pos hfull]
      rfl
    have hfits : total + e.realSize < 2 ^ 16 := by omega
    rw [if_neg hfull, if_neg hfull, Nat.mod_eq_of_lt hfits,
      ih (fun e' he' => htyped e' (.tail e he')), flatMap_cons,
      take_of_length_le (le_of_eq e.length_bytes)]

theorem packed_append_drop (es : List StoredEvent) (total : Nat) :
    packed capacity es total ++ es.drop (packed capacity es total).length = es := by
  induction es generalizing total with
  | nil => rfl
  | cons e es ih =>
    rw [packed]
    by_cases hfull : e.realSize + total > capacity
    · rw [if_pos hfull]
      rfl
    · rw [if_neg hfull]
      exact congrArg (e :: ·) (ih _)

theorem packed_cons (hfits : e.realSize ≤ capacity) (es : List StoredEvent) :
    packed capacity (e :: es) 0 = e :: packed capacity es e.realSize := by
  rw [packed, add_zero, if_neg (not_lt.mpr hfits), zero_add]

theorem packEvent_large (he : e.Typed) (hlarge : e.realSize > capacity) :
    rtkDiagProtoPackEvent capacity (.found e behind globalOffset 0) =
      ⟨0x03, toLE 2 globalOffset ++ e.bytes.take capacity⟩ := by
  simp only [rtkDiagProtoPackEvent, loadDataFromStart, Nat.mod_eq_of_lt he.size, if_true,
    if_pos hlarge]

theorem packEvent_whole (htyped : ∀ a ∈ e :: behind, a.Typed) (hcapacity : capacity < 2 ^ 16)
    (hfits : e.realSize ≤ capacity) :
    rtkDiagProtoPackEvent capacity (.found e behind globalOffset 0) = ⟨0x03, toLE 2 globalOffset ++
        (packed capacity (e :: behind) 0).flatMap StoredEvent.bytes⟩ := by
  have he := htyped e (.head _)
  simp only [rtkDiagProtoPackEvent, loadDataFromStart, Nat.mod_eq_of_lt he.size, if_true,
    if_neg (not_lt.mpr hfits), loadWhole_eq htyped hcapacity]

theorem packEvent_middle (he : e.Typed) (hlocal : localOffset ≠ 0)
    (hmore : e.realSize > localOffset + capacity) :
    rtkDiagProtoPackEvent capacity (.found e behind globalOffset localOffset) =
      ⟨0x13, toLE 2 globalOffset ++ (e.bytes.drop localOffset).take capacity⟩ := by
  simp only [rtkDiagProtoPackEvent, loadDataFromMiddle, Nat.mod_eq_of_lt he.size, if_neg hlocal,
    if_pos hmore]

theorem packEvent_end (he : e.Typed) (hlocal : localOffset ≠ 0) (hinside : localOffset < e.realSize)
    (hlast : e.realSize ≤ localOffset + capacity) :
    rtkDiagProtoPackEvent capacity (.found e behind globalOffset localOffset) =
      ⟨0x23, toLE 2 globalOffset ++ e.bytes.drop localOffset⟩ := by
  have hsize := he.size
  have hrest : (e.realSize + 2 ^ 16 - localOffset) % 2 ^ 16 = e.realSize - localOffset := by omega
  have htake : (e.bytes.drop localOffset).take (e.realSize - localOffset) =
      e.bytes.drop localOffset := by
    simp
  simp only [rtkDiagProtoPackEvent, loadDataFromMiddle, Nat.mod_eq_of_lt hsize, if_neg hlocal,
    if_neg (not_lt.mpr hlast), hrest, htake]

end Packed

end AmebaRtos.Diagnose
