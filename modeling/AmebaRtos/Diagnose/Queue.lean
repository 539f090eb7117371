import Mathlib.Data.List.Nodup
import AmebaRtos.Diagnose.Heap
import AmebaRtos.Diagnose.RingArray
import AmebaRtos.Lib.Run

/-!
# The queue of diagnose events

`ameba_diagnose_queue.c`: events are kept in the order in which they were added. Those with at
most `RTK_DIAG_LITTLE_EVENT_THRESHOLD` bytes of data live in the fixed heap, the others in memory
of the system; a ring array refers to all of them. Room for a new event is made by giving up the
oldest ones, which leave a record in a second ring array.

A function has no result when the code would follow a null reference or one to freed memory, free
what was not allocated, fail an assertion, or not return. The state also carries every record ever
written, of which the ring array keeps the last ones.
-/

namespace AmebaRtos.Diagnose

open Lib Function List

/-- `sizeof(RtkDiagEvent_t)`. -/
def SIZEOF_EVENT : Nat := 12
def RTK_DIAG_HEAP_SIZE : Nat := 2048
def RTK_DIAG_SYS_HEAP_UPPER_LIMIT : Nat := 4096
def RTK_DIAG_LITTLE_EVENT_THRESHOLD : Nat := 128
def RTK_DIAG_BIT_EVENT_THRESHOLD : Nat := RTK_DIAG_HEAP_SIZE
def RTK_DIAG_HEAP_SIZE_MIN : Nat := SIZEOF_EVENT + RTK_DIAG_LITTLE_EVENT_THRESHOLD
def RTK_DIAG_DELETED_EVENT_MAX_COUNT : Nat := 20

/-- `RtkDiagEvent_t`. -/
structure DiagEvent where
  evtType : Nat
  evtTime : Nat
  evtLevel : Nat
  evtInfo : List UInt8
deriving DecidableEq, Repr

variable (e : DiagEvent)

def DiagEvent.evtLen : Nat := e.evtInfo.length

/-- `RTK_DIAG_EVENT_STRUCTURE_REAL_SIZE`. -/
def DiagEvent.realSize : Nat := SIZEOF_EVENT + e.evtLen

def DiagEvent.isLittle : Bool :=
  decide (e.evtLen ≤ RTK_DIAG_LITTLE_EVENT_THRESHOLD)

/-- `RtkDiagDeletedEvent_t`. -/
structure DeletedEvent where
  evtTime : Nat
  evtType : Nat
  evtLen : Nat
deriving DecidableEq, Repr

def DiagEvent.deleted : DeletedEvent := ⟨e.evtTime, e.evtType, e.evtLen⟩

/-- `RtkDiagEvent_t *`: a block of the heap, or memory of the system. -/
inductive EventRef where
  | heap (offset : Nat)
  | sys (address : Nat)
deriving DecidableEq, Repr

structure DiagQueue where
  heap : DiagHeap
  deletedEvtArr : RingArray DeletedEvent
  evtNodeArr : RingArray EventRef
  totalSize : Nat
  totalCapacity : Nat
  -- what was written into the blocks of the heap, and the memory of the system
  pool : Nat → DiagEvent
  sys : Nat → Option DiagEvent
  nextSys : Nat
  recorded : List DeletedEvent

variable (q : DiagQueue) (e : DiagEvent)

namespace DiagQueue

/-- `rtk_diag_element_length_callback`. -/
def getter (offset : Nat) : Nat := (q.pool offset).realSize

def eventAt : EventRef → Option DiagEvent
  | .heap offset => some (q.pool offset)
  | .sys address => q.sys address

/-- The events of the queue, from the oldest to the newest. -/
protected def events : List DiagEvent := q.evtNodeArr.toList.filterMap q.eventAt

/-- `rtk_diag_ring_array_pop` on the events, and the event itself. -/
def popNode : Option (EventRef × DiagEvent × DiagQueue) := do
  let ref ← q.evtNodeArr.pop.1
  let e ← q.eventAt ref
  some (ref, e, { q with evtNodeArr := q.evtNodeArr.pop.2 })

/-- `rtk_diag_ring_array_emplace_back` on the deleted events. -/
def record : DiagQueue :=
  { q with
    deletedEvtArr := q.deletedEvtArr.emplaceBack e.deleted
    recorded := q.recorded ++ [e.deleted] }

/-- `rtos_mem_free`. -/
def memFree : EventRef → Option DiagQueue
  | .heap _ => none
  | .sys address =>
    (q.sys address).map fun _ => { q with sys := update q.sys address none }

/-- `rtk_diag_heap_free`. -/
def heapFree : Option DiagQueue :=
  (rtkDiagHeapFree q.getter q.heap).map fun r => { q with heap := r.1 }

def release (ref : EventRef) (e : DiagEvent) : Option DiagQueue :=
  if e.evtLen ≤ RTK_DIAG_LITTLE_EVENT_THRESHOLD then q.heapFree
  else if e.evtLen ≤ RTK_DIAG_BIT_EVENT_THRESHOLD then q.memFree ref
  else none

/-- `total_size -= ...` on 16 bits. -/
def subTotal (size : Nat) : DiagQueue :=
  { q with totalSize := (q.totalSize + 2 ^ 16 - size) % 2 ^ 16 }

end DiagQueue

open DiagQueue

/-- `rtk_diag_heap_element_remove_callback`: gives up events until `event` is reached. -/
def rtkDiagHeapElementRemoveCallback (event : EventRef) : Nat → DiagQueue → Option DiagQueue
  | 0, _ => none
  | fuel + 1, q => do
    let (ref, e, q) ← q.popNode
    let q := q.record e
    let q ← if e.evtLen > RTK_DIAG_LITTLE_EVENT_THRESHOLD then
        (q.subTotal e.realSize).memFree ref
      else some q
    if ref = event then some q else rtkDiagHeapElementRemoveCallback event fuel q

/-- `rtk_diag_queue_init`; `none` when the heap is too small. -/
def rtkDiagQueueInit (heapCapacity totalCapacity : Nat) : Option DiagQueue :=
  if heapCapacity < RTK_DIAG_HEAP_SIZE_MIN then none
  else some
    { heap := rtkDiagHeapCreate heapCapacity
      deletedEvtArr := .create RTK_DIAG_DELETED_EVENT_MAX_COUNT
      evtNodeArr := .create (totalCapacity / SIZEOF_EVENT)
      totalSize := heapCapacity
      totalCapacity := totalCapacity
      pool := fun _ => ⟨0, 0, 0, []⟩
      sys := fun _ => none
      nextSys := 0
      recorded := [] }

def rtkDiagQueueSetTotalCapacity (totalCapacity : Nat) : DiagQueue :=
  if totalCapacity > q.heap.capacity + RTK_DIAG_LITTLE_EVENT_THRESHOLD + SIZEOF_EVENT then
    { q with totalCapacity := totalCapacity }
  else q

/-! ### Adding an event -/

inductive EnqueueResult where
  | success
  | tooLargeBuff
  | evtAddFail
  | mallocFail
deriving DecidableEq, Repr

/-- The loop of `rtk_diag_queue_enqueue` that makes room for a big event. -/
def makeRoom (eventLen : Nat) : Nat → DiagQueue → Option DiagQueue
  | 0, _ => none
  | fuel + 1, q =>
    if q.evtNodeArr.count > 0 ∧ q.totalSize + eventLen > q.totalCapacity then do
      let (ref, e, q) ← q.popNode
      let q ← (q.record e).release ref e
      makeRoom eventLen fuel
        (if e.evtLen ≤ RTK_DIAG_LITTLE_EVENT_THRESHOLD then q else q.subTotal e.realSize)
    else some q

/-- The allocation of a little event. The callback for blocks given up changes neither the heap nor
    its contents. -/
def heapMalloc (eventLen : Nat) : Option (DiagQueue × Option Nat) := do
  let r ← rtkDiagHeapMalloc q.getter q.heap eventLen
  let q ← r.released.foldlM
    (fun q b => rtkDiagHeapElementRemoveCallback (.heap b.offset) (q.evtNodeArr.count + 1) q) q
  some ({ q with heap := r.heap }, r.result)

/-- The end of `rtk_diag_queue_enqueue`: the event is written and referred to. -/
def storeEvent (ref : EventRef) (e : DiagEvent) : DiagQueue :=
  let q := match ref with
    | .heap offset => { q with pool := update q.pool offset e }
    | .sys address =>
      { q with
        sys := update q.sys address (some e)
        totalSize := (q.totalSize + e.realSize) % 2 ^ 16 }
  { q with evtNodeArr := q.evtNodeArr.emplaceBack ref }

/-- `rtk_diag_queue_enqueue`; `mallocOk` says whether the system has memory left. -/
def rtkDiagQueueEnqueue (mallocOk : Bool) : Option (DiagQueue × EnqueueResult) :=
  if e.evtLen > RTK_DIAG_BIT_EVENT_THRESHOLD then some (q, .tooLargeBuff)
  else if e.evtLen > RTK_DIAG_LITTLE_EVENT_THRESHOLD then do
    let q ← makeRoom e.realSize (q.evtNodeArr.count + 1) q
    if q.totalSize + e.realSize > q.totalCapacity then some (q, .evtAddFail)
    else if !mallocOk then some (q, .mallocFail)
    else some (storeEvent { q with nextSys := q.nextSys + 1 } (.sys q.nextSys) e, .success)
  else do
    let (q, result) ← heapMalloc q e.realSize
    match result with
    | none => some (q, .mallocFail)
    | some offset => some (storeEvent q (.heap offset) e, .success)

/-! ### Taking events out -/

/-- `rtk_diag_queue_dequeue`. A little event is copied and its block freed; the memory of a big
    one passes to the caller. -/
def rtkDiagQueueDequeue (mallocOk : Bool) : Option (DiagQueue × Option DiagEvent) :=
  if q.evtNodeArr.count = 0 then some (q, none)
  else do
    let (ref, e, q) ← q.popNode
    -- the memory for the copy is written without a check
    if e.isLittle && !mallocOk then none
    else do
      let q ← q.release ref e
      some (q, some e)

/-- `rtk_diag_queue_clear`. -/
def clearLoop : Nat → DiagQueue → Option DiagQueue
  | 0, _ => none
  | fuel + 1, q =>
    if q.evtNodeArr.count > 0 then do
      let (ref, e, q) ← q.popNode
      let q ← q.release ref e
      clearLoop fuel q
    else some q

def rtkDiagQueueClear : Option DiagQueue := clearLoop (q.evtNodeArr.count + 1) q

/-- The loops of `rtk_diag_queue_del_before` and `rtk_diag_queue_del_after`: the first one
    stops at an event that `keep` names. -/
def deleteLoop (keep : DiagEvent → Bool) : Nat → DiagQueue → Nat → Option (DiagQueue × Nat)
  | 0, _, _ => none
  | fuel + 1, q, count =>
    if q.evtNodeArr.count > 0 then do
      let ref ← q.evtNodeArr.at? 0
      let e ← q.eventAt ref
      if keep e then some (q, count)
      else do
        let q ← q.release ref e
        deleteLoop keep fuel { q with evtNodeArr := q.evtNodeArr.pop.2 } ((count + 1) % 2 ^ 16)
    else some (q, count)

def rtkDiagQueueDelBefore (timestamp : Nat) : Option (DiagQueue × Nat) :=
  deleteLoop (fun e => decide (e.evtTime > timestamp)) (q.evtNodeArr.count + 1) q 0

/-- `rtk_diag_queue_del_after`, which takes out everything. -/
def rtkDiagQueueDelAfter (_timestamp : Nat) : Option (DiagQueue × Nat) :=
  deleteLoop (fun _ => false) (q.evtNodeArr.count + 1) q 0

/-! ### Calls -/

inductive QueueOp where
  | enqueue (e : DiagEvent) (mallocOk : Bool)
  | dequeue (mallocOk : Bool)
  | delBefore (timestamp : Nat)
  | delAfter (timestamp : Nat)
  | clear
  | setTotalCapacity (totalCapacity : Nat)

def queueOp : QueueOp → Option DiagQueue
  | .enqueue e mallocOk => (rtkDiagQueueEnqueue q e mallocOk).map Prod.fst
  | .dequeue mallocOk => (rtkDiagQueueDequeue q mallocOk).map Prod.fst
  | .delBefore timestamp => (rtkDiagQueueDelBefore q timestamp).map Prod.fst
  | .delAfter timestamp => (rtkDiagQueueDelAfter q timestamp).map Prod.fst
  | .clear => rtkDiagQueueClear q
  | .setTotalCapacity totalCapacity => some (rtkDiagQueueSetTotalCapacity q totalCapacity)

/-- A call, unless an earlier one had no result. -/
def queueStep (s : Option DiagQueue) (op : QueueOp) : Option DiagQueue := s.bind (queueOp · op)

def EventRef.offset? : EventRef → Option Nat
  | .heap offset => some offset
  | .sys _ => none

/-! ### The first event of the queue -/

structure Listed (q : DiagQueue) (refs : List EventRef) (events : List DiagEvent) : Prop where
  ring : q.evtNodeArr.Holds refs
  liveRefs : refs.map q.eventAt = events.map some
  byLength : ∀ ref ∈ refs, ∀ e, q.eventAt ref = some e → (ref.offset?.isSome = e.isLittle)
  small : ∀ e ∈ events, e.evtLen ≤ RTK_DIAG_BIT_EVENT_THRESHOLD
  fresh : ∀ address, .sys address ∈ refs → address < q.nextSys
  nodup : refs.Nodup

structure InSync (q : DiagQueue) (refs : List EventRef) (live : List Block)
    (events : List DiagEvent) : Prop extends Listed q refs events where
  layout : Layout q.heap live
  reports : Reports q.getter live
  little : refs.filterMap EventRef.offset? = live.map Block.offset
  heapSize : RTK_DIAG_HEAP_SIZE_MIN ≤ q.heap.capacity

def bigSize (events : List DiagEvent) : Nat :=
  ((events.filter fun e => !e.isLittle).map DiagEvent.realSize).sum

/-- The counter is `base` and the sizes of the big events. -/
structure Counted (q : DiagQueue) (base : Nat) (events : List DiagEvent) : Prop where
  total : q.totalSize = base + bigSize events
  fits : q.totalSize < 2 ^ 16

structure KeepsCount (q : DiagQueue) (events : List DiagEvent) (q' : DiagQueue)
    (events' : List DiagEvent) : Prop where
  heapCapacity : q'.heap.capacity = q.heap.capacity
  totalCapacity : q'.totalCapacity = q.totalCapacity
  counted : ∀ base, Counted q base events → Counted q' base events'

structure SameBooks (q q' : DiagQueue) : Prop where
  heapCapacity : q'.heap.capacity = q.heap.capacity
  totalSize : q'.totalSize = q.totalSize
  totalCapacity : q'.totalCapacity = q.totalCapacity
  deletedEvtArr : q'.deletedEvtArr = q.deletedEvtArr
  recorded : q'.recorded = q.recorded

/-- The ring array of the deleted events lists the last ones recorded. -/
def DiagQueue.Listing (q : DiagQueue) : Prop :=
  q.deletedEvtArr.capacity = RTK_DIAG_DELETED_EVENT_MAX_COUNT ∧
    q.deletedEvtArr.Holds (q.recorded.rtake RTK_DIAG_DELETED_EVENT_MAX_COUNT)

/-- Events were given up from the front of the queue, and each was recorded. -/
def GivenUp (q : DiagQueue) (events : List DiagEvent) (q' : DiagQueue) (events' : List DiagEvent) :
    Prop :=
  ∃ gone, events = gone ++ events' ∧ q'.recorded = q.recorded ++ gone.map DiagEvent.deleted ∧
    (q.Listing → q'.Listing)

section Sizes

variable {q q' q'' : DiagQueue} {e : DiagEvent}

theorem bigSize_cons_little (hlen : e.evtLen ≤ RTK_DIAG_LITTLE_EVENT_THRESHOLD) :
    bigSize (e :: events) = bigSize events := by
  simp [bigSize, DiagEvent.isLittle, hlen]

theorem bigSize_cons_big (hlen : ¬ e.evtLen ≤ RTK_DIAG_LITTLE_EVENT_THRESHOLD) :
    bigSize (e :: events) = e.realSize + bigSize events := by
  simp [bigSize, DiagEvent.isLittle, hlen]

theorem bigSize_append : bigSize (events ++ events') = bigSize events + bigSize events' := by
  simp [bigSize]

theorem Counted.subTotal (hlen : ¬ e.evtLen ≤ RTK_DIAG_LITTLE_EVENT_THRESHOLD)
    (h : Counted q base (e :: events)) : Counted (q.subTotal e.realSize) base events := by
  have htotal := h.total
  have hfits := h.fits
  rw [bigSize_cons_big hlen] at htotal
  have hsub : (q.subTotal e.realSize).totalSize = base + bigSize events := by
    change (q.totalSize + 2 ^ 16 - e.realSize) % 2 ^ 16 = _
    omega
  exact ⟨hsub, by omega⟩

theorem Counted.little (hlen : e.evtLen ≤ RTK_DIAG_LITTLE_EVENT_THRESHOLD)
    (h : Counted q base (e :: events)) : Counted q base events :=
  ⟨h.total.trans (by rw [bigSize_cons_little hlen]), h.fits⟩

theorem Counted.congr (h : Counted q base events) (htotal : q'.totalSize = q.totalSize) :
    Counted q' base events :=
  ⟨htotal.trans h.total, htotal ▸ h.fits⟩

theorem KeepsCount.refl (q : DiagQueue) (events : List DiagEvent) : KeepsCount q events q events :=
  ⟨rfl, rfl, fun _ h => h⟩

theorem KeepsCount.trans (h : KeepsCount q events q' events')
    (h' : KeepsCount q' events' q'' events'') : KeepsCount q events q'' events'' where
  heapCapacity := h'.heapCapacity.trans h.heapCapacity
  totalCapacity := h'.totalCapacity.trans h.totalCapacity
  counted base hq := h'.counted base (h.counted base hq)

theorem SameBooks.refl (q : DiagQueue) : SameBooks q q := ⟨rfl, rfl, rfl, rfl, rfl⟩

theorem listing_record (h : q.Listing) (e : DiagEvent) : (q.record e).Listing := by
  obtain ⟨hcapacity, hholds⟩ := h
  have hpos : 0 < q.deletedEvtArr.capacity := hcapacity ▸ by decide
  refine ⟨hcapacity, ?_⟩
  have hstep := (hholds.step hpos (.emplaceBack e.deleted)).1
  rw [hcapacity] at hstep
  exact RingArray.queueStep_rtake q.recorded 19 ▸ hstep

theorem GivenUp.refl (q : DiagQueue) (events : List DiagEvent) : GivenUp q events q events :=
  ⟨[], rfl, (append_nil _).symm, id⟩

theorem GivenUp.trans (h : GivenUp q events q' events') (h' : GivenUp q' events' q'' events'') :
    GivenUp q events q'' events'' := by
  obtain ⟨gone, rfl, hrecorded, hlisting⟩ := h
  obtain ⟨gone', rfl, hrecorded', hlisting'⟩ := h'
  refine ⟨gone ++ gone', (append_assoc ..).symm, ?_, hlisting' ∘ hlisting⟩
  rw [hrecorded', hrecorded, map_append, append_assoc]

theorem givenUp_cons (harr : q'.deletedEvtArr = (q.record e).deletedEvtArr)
    (hrecorded : q'.recorded = (q.record e).recorded) : GivenUp q (e :: events) q' events := by
  refine ⟨[e], rfl, hrecorded, fun hlisting => ?_⟩
  unfold DiagQueue.Listing
  rw [harr, hrecorded]
  exact listing_record hlisting e

end Sizes

structure TakenOut (q : DiagQueue) (refs : List EventRef) (q' : DiagQueue) : Prop where
  ring : q'.evtNodeArr = q.evtNodeArr.pop.2
  kept : ∀ ref ∈ refs, q'.eventAt ref = q.eventAt ref
  nextSys : q'.nextSys = q.nextSys

variable {e : DiagEvent}

section First

variable {q q' : DiagQueue}

theorem Listed.cases_nil (h : Listed q [] events) : q.evtNodeArr.count = 0 ∧ events = [] :=
  ⟨h.ring.count, map_eq_nil_iff.mp h.liveRefs.symm⟩

theorem Listed.cases_cons (h : Listed q (ref :: refs) events) :
    ∃ e rest, events = e :: rest ∧ q.eventAt ref = some e ∧ refs.map q.eventAt = rest.map some := by
  have hmap := h.liveRefs
  cases events with
  | nil => cases hmap
  | cons e rest =>
    rw [map_cons, map_cons, List.cons.injEq] at hmap
    exact ⟨e, rest, rfl, hmap.1, hmap.2⟩

theorem Listed.events_eq (h : Listed q refs events) : q.events = events := by
  have hevents : (refs.map q.eventAt).filterMap id = events := by
    rw [h.liveRefs]
    simp
  rw [List.filterMap_map] at hevents
  rw [DiagQueue.events, h.ring.toList]
  exact hevents

section

variable (h : Listed q (ref :: refs) (e :: events))
include h

theorem Listed.tail (out : TakenOut q refs q') : Listed q' refs events := by
  obtain ⟨e', rest, heq, href, hrest⟩ := h.cases_cons
  cases heq
  refine ⟨?_, ?_, ?_, ?_, ?_, (nodup_cons.mp h.nodup).2⟩
  · rw [out.ring]
    exact h.ring.pop_snd
  · rw [← hrest]
    exact map_congr_left out.kept
  · intro r hr e' he'
    rw [out.kept r hr] at he'
    exact h.byLength r (.tail _ hr) e' he'
  · exact fun e' he' => h.small e' (.tail _ he')
  · intro address haddress
    rw [out.nextSys]
    exact h.fresh address (.tail _ haddress)

theorem Listed.popNode :
    q.popNode = some (ref, e, { q with evtNodeArr := q.evtNodeArr.pop.2 }) := by
  obtain ⟨e', rest, heq, href, _⟩ := h.cases_cons
  cases heq
  simp only [DiagQueue.popNode, h.ring.pop_fst, href, Option.bind_eq_bind, Option.bind_some]

theorem Listed.first_isLittle : ref.offset?.isSome = e.isLittle := by
  obtain ⟨e', rest, heq, href, _⟩ := h.cases_cons
  cases heq
  exact h.byLength ref (.head _) e href

end

structure Freed (q : DiagQueue) (heap : DiagHeap) (sys : Nat → Option DiagEvent) (q' : DiagQueue) :
    Prop where
  heap : q'.heap = heap
  sys : q'.sys = sys
  pool : q'.pool = q.pool
  ring : q'.evtNodeArr = q.evtNodeArr.pop.2
  nextSys : q'.nextSys = q.nextSys

theorem freed_pop (q : DiagQueue) (heap : DiagHeap) (sys : Nat → Option DiagEvent) :
    Freed q heap sys { q with evtNodeArr := q.evtNodeArr.pop.2, heap := heap, sys := sys } :=
  ⟨rfl, rfl, rfl, rfl, rfl⟩

theorem getter_congr (hpool : q'.pool = q.pool) : q'.getter = q.getter := by
  funext offset
  rw [DiagQueue.getter, hpool, DiagQueue.getter]

theorem eventAt_congr (refs : List EventRef) (hpool : q'.pool = q.pool)
    (hsys : ∀ address, .sys address ∈ refs → q'.sys address = q.sys address) :
    ∀ ref ∈ refs, q'.eventAt ref = q.eventAt ref := by
  intro ref hmem
  cases ref with
  | heap offset => exact congrArg some (congrFun hpool offset)
  | sys address => exact hsys address hmem

theorem Listed.kept_sys (h : Listed q (.sys address :: refs) events) (hpool : q'.pool = q.pool)
    (hsys : q'.sys = update q.sys address none) : ∀ ref ∈ refs, q'.eventAt ref = q.eventAt ref := by
  refine eventAt_congr refs hpool fun other hother => ?_
  have hne : other ≠ address := fun heq => (nodup_cons.mp h.nodup).1 (heq ▸ hother)
  rw [hsys, update_of_ne hne]

theorem Listed.congr (h : Listed q refs events) (hring : q'.evtNodeArr = q.evtNodeArr)
    (hpool : q'.pool = q.pool) (hsys : q'.sys = q.sys) (hnext : q.nextSys ≤ q'.nextSys) :
    Listed q' refs events := by
  have hsame := eventAt_congr refs hpool fun address _ => congrFun hsys address
  refine ⟨hring ▸ h.ring, ?_, ?_, h.small, ?_, h.nodup⟩
  · rw [← h.liveRefs]
    exact map_congr_left hsame
  · intro ref hmem e he
    rw [hsame ref hmem] at he
    exact h.byLength ref hmem e he
  · intro address hmem
    exact (h.fresh address hmem).trans_le hnext

theorem InSync.heap_first (h : InSync q (.heap offset :: refs) live (e :: events)) :
    ∃ b rest, live = b :: rest ∧ b.offset = offset ∧
      refs.filterMap EventRef.offset? = rest.map Block.offset := by
  have hlittle : offset :: refs.filterMap EventRef.offset? = live.map Block.offset := h.little
  cases live with
  | nil => cases hlittle
  | cons b rest =>
    rw [map_cons, List.cons.injEq] at hlittle
    exact ⟨b, rest, rfl, hlittle.1.symm, hlittle.2⟩

-- The two cases are those of the code: a block of the heap, or memory of the system.
theorem InSync.release (h : InSync q (ref :: refs) live (e :: events)) : ∃ heap sys live',
      (∀ q₁ : DiagQueue, q₁.heap = q.heap → q₁.pool = q.pool → q₁.sys = q.sys →
        q₁.release ref e = some { q₁ with heap := heap, sys := sys }) ∧
      (∀ q', Freed q heap sys q' → InSync q' refs live' events) ∧
      heap.capacity = q.heap.capacity := by
  have hfirst := h.toListed.first_isLittle
  cases ref with
  | heap offset =>
    obtain ⟨b, rest, rfl, hoffset, hlittle⟩ := h.heap_first
    obtain ⟨⟨heap, length⟩, hfree, _, _, _, hcapacity, hlayout⟩ :=
      rtkDiagHeapFree_cons h.layout (h.reports b (.head _))
    have hlen : e.evtLen ≤ RTK_DIAG_LITTLE_EVENT_THRESHOLD := of_decide_eq_true hfirst.symm
    refine ⟨heap, q.sys, rest, ?_, ?_, hcapacity⟩
    · intro q₁ hheap hpool hsys
      rw [DiagQueue.release, if_pos hlen, DiagQueue.heapFree, getter_congr hpool, hheap, hfree,
        ← hsys]
      rfl
    · intro q' freed
      have hkept := eventAt_congr refs freed.pool fun address _ => congrFun freed.sys address
      have hlisted := h.toListed.tail ⟨freed.ring, hkept, freed.nextSys⟩
      refine ⟨hlisted, freed.heap ▸ hlayout, ?_, hlittle, ?_⟩
      · rw [getter_congr freed.pool]
        exact fun a ha => h.reports a (.tail _ ha)
      · rw [freed.heap, show heap.capacity = q.heap.capacity from hcapacity]
        exact h.heapSize
  | sys address =>
    obtain ⟨e', rest, heq, hevent, _⟩ := h.toListed.cases_cons
    cases heq
    have hlen : ¬ e.evtLen ≤ RTK_DIAG_LITTLE_EVENT_THRESHOLD := of_decide_eq_false hfirst.symm
    refine ⟨q.heap, update q.sys address none, live, ?_, ?_, rfl⟩
    · intro q₁ hheap hpool hsys
      have hevent' : q₁.sys address = some e := hsys ▸ hevent
      rw [DiagQueue.release, if_neg hlen, if_pos (h.small e mem_cons_self),
        DiagQueue.memFree, hevent', Option.map_some, ← hheap, ← hsys]
    · intro q' freed
      have hlisted := h.toListed.tail
        ⟨freed.ring, h.toListed.kept_sys freed.pool freed.sys, freed.nextSys⟩
      refine ⟨hlisted, freed.heap ▸ h.layout, ?_, h.little, freed.heap ▸ h.heapSize⟩
      rw [getter_congr freed.pool]
      exact h.reports

end First

/-! ### Taking events out keeps the queue in step -/

def Synced (s : Option DiagQueue) : Prop :=
  ∃ q refs live events, s = some q ∧ InSync q refs live events

section Out

variable {q : DiagQueue}

section

variable (h : InSync q refs live events)
include h

theorem InSync.withTotalCapacity (totalCapacity : Nat) :
    InSync { q with totalCapacity := totalCapacity } refs live events :=
  ⟨h.toListed.congr rfl rfl rfl le_rfl, h.layout, h.reports, h.little, h.heapSize⟩

theorem rtkDiagQueueDequeue_spec
    (hcopy : ∀ e, events.head? = some e → e.isLittle = true → mallocOk = true) :
    ∃ q' refs' live', rtkDiagQueueDequeue q mallocOk = some (q', events.head?) ∧
      InSync q' refs' live' (events.drop 1) ∧ SameBooks q q' := by
  unfold rtkDiagQueueDequeue
  cases refs with
  | nil =>
    obtain ⟨hcount, rfl⟩ := h.toListed.cases_nil
    rw [if_pos hcount]
    exact ⟨q, [], live, rfl, h, .refl q⟩
  | cons ref refs =>
    obtain ⟨e, events, rfl, _, _⟩ := h.toListed.cases_cons
    obtain ⟨heap, sys, live', hrelease, hsync, hcapacity⟩ := h.release
    have hcount : q.evtNodeArr.count ≠ 0 := h.ring.count ▸ Nat.succ_ne_zero _
    rw [if_neg hcount, h.toListed.popNode]
    have hmalloc : ¬ (e.isLittle && !mallocOk) = true := fun hnone => by
      obtain ⟨hlittle, hfailed⟩ := Bool.and_eq_true_iff.mp hnone
      rw [hcopy e rfl hlittle] at hfailed
      cases hfailed
    simp only [Option.bind_eq_bind, Option.bind_some, if_neg hmalloc]
    rw [hrelease { q with evtNodeArr := q.evtNodeArr.pop.2 } rfl rfl rfl]
    exact ⟨_, refs, live', rfl, hsync _ (freed_pop q heap sys),
      ⟨hcapacity, rfl, rfl, rfl, rfl⟩⟩

/-- Without memory for the copy of a little event, the call has no result. -/
theorem rtkDiagQueueDequeue_none (hfirst : events.head? = some e) (hlittle : e.isLittle = true) :
    rtkDiagQueueDequeue q false = none := by
  cases refs with
  | nil =>
    obtain ⟨_, rfl⟩ := h.toListed.cases_nil
    cases hfirst
  | cons ref refs =>
    obtain ⟨e, events, rfl, _, _⟩ := h.toListed.cases_cons
    cases hfirst
    have hcount : q.evtNodeArr.count ≠ 0 := h.ring.count ▸ Nat.succ_ne_zero _
    rw [rtkDiagQueueDequeue, if_neg hcount, h.toListed.popNode]
    simp only [Option.bind_eq_bind, Option.bind_some, hlittle, Bool.not_false, Bool.and_self,
      if_true]

end

theorem clearLoop_spec (fuel : Nat) (h : InSync q refs live events) (hfuel : refs.length < fuel) :
    ∃ q' live', clearLoop fuel q = some q' ∧ InSync q' [] live' [] ∧ SameBooks q q' := by
  induction refs generalizing q live events fuel with
    (obtain ⟨fuel, rfl⟩ := Nat.exists_eq_succ_of_ne_zero (Nat.ne_zero_of_lt hfuel))
  | nil =>
    obtain ⟨hcount, rfl⟩ := h.toListed.cases_nil
    rw [clearLoop, if_neg hcount.not_gt]
    exact ⟨q, live, rfl, h, .refl q⟩
  | cons ref refs ih =>
    obtain ⟨e, events, rfl, _, _⟩ := h.toListed.cases_cons
    obtain ⟨heap, sys, live', hrelease, hsync, hcapacity⟩ := h.release
    have hcount : q.evtNodeArr.count > 0 := h.ring.count ▸ Nat.succ_pos _
    rw [clearLoop, if_pos hcount, h.toListed.popNode]
    simp only [Option.bind_eq_bind, Option.bind_some]
    rw [hrelease { q with evtNodeArr := q.evtNodeArr.pop.2 } rfl rfl rfl]
    obtain ⟨q', live', hrun, hsync', hsame⟩ :=
      ih fuel (hsync _ (freed_pop q heap sys)) (Nat.lt_of_succ_lt_succ hfuel)
    exact ⟨q', live', hrun, hsync', { hsame with
      heapCapacity := hsame.heapCapacity.trans hcapacity }⟩

theorem deleteLoop_spec (keep : DiagEvent → Bool) (fuel count : Nat)
    (h : InSync q refs live events) (hfuel : refs.length < fuel) :
    ∃ q' refs' live', (deleteLoop keep fuel q count).map Prod.fst = some q' ∧
      InSync q' refs' live' (events.dropWhile fun e => !keep e) ∧ SameBooks q q' := by
  induction refs generalizing q live events fuel count with
    (obtain ⟨fuel, rfl⟩ := Nat.exists_eq_succ_of_ne_zero (Nat.ne_zero_of_lt hfuel))
  | nil =>
    obtain ⟨hcount, rfl⟩ := h.toListed.cases_nil
    rw [deleteLoop, if_neg hcount.not_gt]
    exact ⟨q, [], live, rfl, h, .refl q⟩
  | cons ref refs ih =>
    obtain ⟨e, events, rfl, hevent, _⟩ := h.toListed.cases_cons
    obtain ⟨heap, sys, live', hrelease, hsync, hcapacity⟩ := h.release
    have hcount : q.evtNodeArr.count > 0 := h.ring.count ▸ Nat.succ_pos _
    have hfirst : q.evtNodeArr.at? 0 = some ref := h.ring.at? 0
    rw [deleteLoop, if_pos hcount, hfirst]
    simp only [Option.bind_eq_bind, Option.bind_some, hevent]
    by_cases hkeep : keep e = true
    · rw [if_pos hkeep, dropWhile_cons_of_neg (by simp [hkeep])]
      exact ⟨q, _, live, rfl, h, .refl q⟩
    rw [if_neg hkeep, hrelease q rfl rfl rfl,
      dropWhile_cons_of_pos (by simpa using hkeep)]
    obtain ⟨q', refs', live', hrun, hsync', hsame⟩ :=
      ih fuel _ (hsync _ (freed_pop q heap sys)) (Nat.lt_of_succ_lt_succ hfuel)
    exact ⟨q', refs', live', hrun, hsync', { hsame with
      heapCapacity := hsame.heapCapacity.trans hcapacity }⟩

end Out

/-! ### Giving events up -/

section

variable {q : DiagQueue}

/-- What making room gives: an event is given up if needed and only then, and in the end the new
    event fits or nothing is left to give up. -/
structure RoomMade (eventLen : Nat) (q : DiagQueue) (refs : List EventRef) (events : List DiagEvent)
    (q' : DiagQueue) (refs' : List EventRef) (events' : List DiagEvent) : Prop where
  ringCapacity : q'.evtNodeArr.capacity = q.evtNodeArr.capacity
  fewer : refs'.length ≤ refs.length
  less : q.evtNodeArr.count > 0 ∧ q.totalSize + eventLen > q.totalCapacity →
    refs'.length < refs.length
  same : ¬ (q.evtNodeArr.count > 0 ∧ q.totalSize + eventLen > q.totalCapacity) → q' = q
  keeps : KeepsCount q events q' events'
  givenUp : GivenUp q events q' events'
  done : q'.totalSize + eventLen ≤ q'.totalCapacity ∨ events' = []

theorem makeRoom_spec (eventLen fuel : Nat) (h : InSync q refs live events)
    (hfuel : refs.length < fuel) :
    ∃ q' refs' live' events', makeRoom eventLen fuel q = some q' ∧
      InSync q' refs' live' events' ∧ RoomMade eventLen q refs events q' refs' events' := by
  induction refs generalizing q live events fuel with
    (obtain ⟨fuel, rfl⟩ := Nat.exists_eq_succ_of_ne_zero (Nat.ne_zero_of_lt hfuel))
  | nil =>
    obtain ⟨hcount, rfl⟩ := h.toListed.cases_nil
    have hdone : ¬ (q.evtNodeArr.count > 0 ∧ q.totalSize + eventLen > q.totalCapacity) :=
      fun hmore => absurd hcount hmore.1.ne'
    rw [makeRoom, if_neg hdone]
    exact ⟨q, [], live, [], rfl, h, rfl, le_rfl, fun hmore => absurd hmore hdone, fun _ => rfl,
      .refl q [], .refl q [], .inr rfl⟩
  | cons ref refs ih =>
    rw [makeRoom]
    by_cases hmore : q.evtNodeArr.count > 0 ∧ q.totalSize + eventLen > q.totalCapacity
    · obtain ⟨e, events, rfl, _, _⟩ := h.toListed.cases_cons
      obtain ⟨heap, sys, live', hrelease, hsync, hcapacity⟩ := h.release
      rw [if_pos hmore, h.toListed.popNode]
      simp only [Option.bind_eq_bind, Option.bind_some]
      rw [hrelease (DiagQueue.record { q with evtNodeArr := q.evtNodeArr.pop.2 } e) rfl rfl rfl,
        Option.bind_some]
      have hrest : ∀ q₂, Freed q heap sys q₂ → KeepsCount q (e :: events) q₂ events →
          GivenUp q (e :: events) q₂ events →
          ∃ q' refs' live' events', makeRoom eventLen fuel q₂ = some q' ∧
            InSync q' refs' live' events' ∧
            RoomMade eventLen q (ref :: refs) (e :: events) q' refs' events' := by
        intro q₂ hfreed hkeeps hgone
        obtain ⟨q', refs', live', events', hrun, hsync', hroom⟩ :=
          ih fuel (hsync q₂ hfreed) (Nat.lt_of_succ_lt_succ hfuel)
        refine ⟨q', refs', live', events', hrun, hsync', ?_, hroom.fewer.trans (Nat.le_succ _),
          fun _ => Nat.lt_succ_of_le hroom.fewer, fun hnot => absurd hmore hnot,
          hkeeps.trans hroom.keeps, hgone.trans hroom.givenUp, hroom.done⟩
        rw [hroom.ringCapacity, hfreed.ring, RingArray.pop_capacity]
      by_cases hlen : e.evtLen ≤ RTK_DIAG_LITTLE_EVENT_THRESHOLD
      · rw [if_pos hlen]
        exact hrest _ ⟨rfl, rfl, rfl, rfl, rfl⟩
          ⟨hcapacity, rfl, fun _ hcount => (hcount.little hlen).congr rfl⟩ (givenUp_cons rfl rfl)
      · rw [if_neg hlen]
        exact hrest _ ⟨rfl, rfl, rfl, rfl, rfl⟩
          ⟨hcapacity, rfl, fun _ hcount => (hcount.subTotal hlen).congr rfl⟩ (givenUp_cons rfl rfl)
    · rw [if_neg hmore]
      have hcount : q.evtNodeArr.count > 0 := h.ring.count ▸ Nat.succ_pos _
      have hfits := not_lt.mp fun hover => hmore ⟨hcount, hover⟩
      exact ⟨q, _, live, _, rfl, h, rfl, le_rfl, fun h => absurd h hmore, fun _ => rfl,
        .refl q _, .refl q _, .inl hfits⟩

structure Untouched (q q' : DiagQueue) : Prop where
  heap : q'.heap = q.heap
  pool : q'.pool = q.pool
  ringCapacity : q'.evtNodeArr.capacity = q.evtNodeArr.capacity

theorem Untouched.trans {q q' q'' : DiagQueue} (h : Untouched q q') (h' : Untouched q' q'') :
    Untouched q q'' :=
  ⟨h'.heap.trans h.heap, h'.pool.trans h.pool, h'.ringCapacity.trans h.ringCapacity⟩

-- Induction on the references. Those in front of the first block are to big events, which
-- are given up as well.
theorem removeCallback_spec (fuel : Nat) (h : Listed q refs events)
    (hfirst : refs.filterMap EventRef.offset? = offset :: offsets) (hfuel : refs.length < fuel) :
    ∃ q' refs' events',
      rtkDiagHeapElementRemoveCallback (.heap offset) fuel q = some q' ∧ Listed q' refs' events' ∧
      refs'.filterMap EventRef.offset? = offsets ∧ refs'.length < refs.length ∧ Untouched q q' ∧
      KeepsCount q events q' events' ∧ GivenUp q events q' events' := by
  induction refs generalizing q events fuel with
  | nil => cases hfirst
  | cons ref refs ih =>
    obtain ⟨fuel, rfl⟩ := Nat.exists_eq_succ_of_ne_zero (Nat.ne_zero_of_lt hfuel)
    obtain ⟨e, events, rfl, hevent, _⟩ := h.cases_cons
    have hisLittle := h.first_isLittle
    rw [rtkDiagHeapElementRemoveCallback, h.popNode]
    simp only [Option.bind_eq_bind, Option.bind_some]
    cases ref with
    | heap offset' =>
      have hlen : e.evtLen ≤ RTK_DIAG_LITTLE_EVENT_THRESHOLD := of_decide_eq_true hisLittle.symm
      have hoffset : offset' :: refs.filterMap EventRef.offset? = offset :: offsets := hfirst
      rw [List.cons.injEq] at hoffset
      rw [if_neg (not_lt.mpr hlen), hoffset.1, if_pos rfl]
      refine ⟨_, refs, events, rfl, h.tail ?_, hoffset.2, Nat.lt_succ_self _, ⟨rfl, rfl, ?_⟩,
        ⟨rfl, rfl, fun _ hcount => (hcount.little hlen).congr rfl⟩, givenUp_cons rfl rfl⟩
      · exact ⟨rfl, fun ref _ => by cases ref <;> rfl, rfl⟩
      · exact q.evtNodeArr.pop_capacity
    | sys address =>
      have hlen : ¬ e.evtLen ≤ RTK_DIAG_LITTLE_EVENT_THRESHOLD :=
        of_decide_eq_false hisLittle.symm
      let q₁ := (DiagQueue.record { q with evtNodeArr := q.evtNodeArr.pop.2 } e).subTotal e.realSize
      let q₂ := { q₁ with sys := update q.sys address none }
      have hfree : q₁.memFree (.sys address) = some q₂ := by
        change (q.sys address).map _ = some q₂
        rw [show q.sys address = some e from hevent]
        rfl
      have htail : Listed q₂ refs events :=
        h.tail ⟨rfl, h.kept_sys rfl rfl, rfl⟩
      obtain ⟨q', refs', events', hrun, hlisted, hoffsets, hlt, huntouched, hkeeps, hgone⟩ :=
        ih fuel htail hfirst (Nat.lt_of_succ_lt_succ hfuel)
      rw [if_pos (not_le.mp hlen), hfree]
      have hfirst₂ : Untouched q q₂ := ⟨rfl, rfl, q.evtNodeArr.pop_capacity⟩
      have hkeeps₂ : KeepsCount q (e :: events) q₂ events :=
        ⟨rfl, rfl, fun _ hcount => (hcount.subTotal hlen).congr rfl⟩
      exact ⟨q', refs', events', hrun, hlisted, hoffsets, hlt.trans (Nat.lt_succ_self _),
        hfirst₂.trans huntouched, hkeeps₂.trans hkeeps, (givenUp_cons rfl rfl).trans hgone⟩

theorem removeCallbacks_spec {released : List Block} (h : Listed q refs events)
    (hfirst : refs.filterMap EventRef.offset? = released.map Block.offset ++ offsets) :
    ∃ q' refs' events', released.foldlM (fun q b =>
        rtkDiagHeapElementRemoveCallback (.heap b.offset) (q.evtNodeArr.count + 1) q) q = some q' ∧
      Listed q' refs' events' ∧ refs'.filterMap EventRef.offset? = offsets ∧
      refs'.length + released.length ≤ refs.length ∧ Untouched q q' ∧
      KeepsCount q events q' events' ∧ GivenUp q events q' events' := by
  induction released generalizing q refs events with
  | nil =>
    exact ⟨q, refs, events, rfl, h, hfirst, le_rfl, ⟨rfl, rfl, rfl⟩, .refl q events, .refl q events⟩
  | cons b released ih =>
    obtain ⟨q₁, refs₁, events₁, hrun, hlisted, hoffsets, hlt, huntouched, hkeeps, hgone⟩ :=
      removeCallback_spec (q.evtNodeArr.count + 1) h hfirst (Nat.lt_succ_of_le h.ring.count.ge)
    obtain ⟨q', refs', events', hrest, hlisted', hoffsets', hle, huntouched', hkeeps', hgone'⟩ :=
      ih hlisted hoffsets
    refine ⟨q', refs', events', ?_, hlisted', hoffsets', ?_, huntouched.trans huntouched',
      hkeeps.trans hkeeps', hgone.trans hgone'⟩
    · rw [foldlM_cons, hrun]
      exact hrest
    · rw [length_cons]
      omega

end

/-! ### Storing an event -/

section

variable {q : DiagQueue}

theorem Listed.store (h : Listed q refs events) (hroom : q.evtNodeArr.count < q.evtNodeArr.capacity)
    (hkept : ∀ r ∈ refs, (storeEvent q ref e).eventAt r = q.eventAt r)
    (hnew : (storeEvent q ref e).eventAt ref = some e) (hnotMem : ref ∉ refs)
    (hlittle : ref.offset?.isSome = e.isLittle) (hsmall : e.evtLen ≤ RTK_DIAG_BIT_EVENT_THRESHOLD)
    (hfresh : ∀ address, ref = .sys address → address < q.nextSys) :
    Listed (storeEvent q ref e) (refs ++ [ref]) (events ++ [e]) := by
  have hring : (storeEvent q ref e).evtNodeArr = q.evtNodeArr.emplaceBack ref := by
    cases ref <;> rfl
  have hnext : (storeEvent q ref e).nextSys = q.nextSys := by cases ref <;> rfl
  refine ⟨?_, ?_, ?_, ?_, ?_, ?_⟩
  · rw [hring]
    exact h.ring.emplaceBack hroom ref
  · rw [map_append, map_append, map_congr_left hkept, h.liveRefs,
      map_singleton, map_singleton, hnew]
  · refine forall_mem_append.mpr ⟨fun r hr e' he' => h.byLength r hr e' (hkept r hr ▸ he'),
      forall_mem_singleton.mpr fun e' he' => ?_⟩
    rwa [← Option.some.inj (hnew.symm.trans he')]
  · exact forall_mem_append.mpr ⟨h.small, forall_mem_singleton.mpr hsmall⟩
  · intro address haddress
    rw [hnext]
    rcases mem_append.mp haddress with hold | hlast
    · exact h.fresh address hold
    · exact hfresh address (mem_singleton.mp hlast).symm
  · refine nodup_append.mpr ⟨h.nodup, nodup_singleton _, ?_⟩
    intro r hr r' hr' heq
    rw [mem_singleton.mp hr'] at heq
    exact hnotMem (heq ▸ hr)

theorem Listed.store_heap (h : Listed q refs events)
    (hlayout : Layout q.heap (kept ++ [⟨offset, e.realSize⟩])) (hreports : Reports q.getter kept)
    (hlittle : refs.filterMap EventRef.offset? = kept.map Block.offset)
    (hsize : RTK_DIAG_HEAP_SIZE_MIN ≤ q.heap.capacity)
    (hlen : e.evtLen ≤ RTK_DIAG_LITTLE_EVENT_THRESHOLD)
    (hroom : q.evtNodeArr.count < q.evtNodeArr.capacity) :
    InSync (storeEvent q (.heap offset) e) (refs ++ [.heap offset])
      (kept ++ [⟨offset, e.realSize⟩]) (events ++ [e]) := by
  have hapart : ∀ b ∈ kept, b.offset ≠ offset := hlayout.offset_notMem
  have hnotMem : EventRef.heap offset ∉ refs := by
    intro hmem
    have hoffset : offset ∈ kept.map Block.offset :=
      hlittle ▸ mem_filterMap.mpr ⟨_, hmem, rfl⟩
    obtain ⟨b, hb, heq⟩ := mem_map.mp hoffset
    exact hapart b hb heq
  have hpool : (storeEvent q (.heap offset) e).pool = update q.pool offset e := rfl
  have hself : (storeEvent q (.heap offset) e).pool offset = e := by
    rw [hpool, update_self]
  have hother : ∀ other, other ≠ offset →
      (storeEvent q (.heap offset) e).pool other = q.pool other := by
    intro other hne
    rw [hpool, update_of_ne hne]
  have hkept : ∀ r ∈ refs, (storeEvent q (.heap offset) e).eventAt r = q.eventAt r := by
    intro r hr
    cases r with
    | heap other => exact congrArg some (hother other fun heq => hnotMem (heq ▸ hr))
    | sys address => rfl
  have hnew : (storeEvent q (.heap offset) e).eventAt (.heap offset) = some e :=
    congrArg some hself
  have hbig : RTK_DIAG_LITTLE_EVENT_THRESHOLD ≤ RTK_DIAG_BIT_EVENT_THRESHOLD := by decide
  refine ⟨h.store hroom hkept hnew hnotMem (decide_eq_true hlen).symm (hlen.trans hbig)
    nofun, hlayout, forall_mem_append.mpr ⟨fun b hb => ?_,
      forall_mem_singleton.mpr (congrArg DiagEvent.realSize hself)⟩, ?_, hsize⟩
  · have hgetter : (storeEvent q (.heap offset) e).getter b.offset = q.getter b.offset :=
      congrArg DiagEvent.realSize (hother b.offset (hapart b hb))
    exact hgetter.trans (hreports b hb)
  · rw [filterMap_append, map_append, hlittle]
    rfl

theorem InSync.store_sys (h : InSync q refs live events)
    (hlen : ¬ e.evtLen ≤ RTK_DIAG_LITTLE_EVENT_THRESHOLD)
    (hsmall : e.evtLen ≤ RTK_DIAG_BIT_EVENT_THRESHOLD)
    (hroom : q.evtNodeArr.count < q.evtNodeArr.capacity) :
    InSync (storeEvent { q with nextSys := q.nextSys + 1 } (.sys q.nextSys) e)
      (refs ++ [.sys q.nextSys]) live (events ++ [e]) := by
  have hnotMem : EventRef.sys q.nextSys ∉ refs := fun hmem =>
    absurd (h.fresh _ hmem) (lt_irrefl _)
  have hbase : Listed { q with nextSys := q.nextSys + 1 } refs events :=
    h.toListed.congr rfl rfl rfl (Nat.le_succ _)
  have hkept : ∀ r ∈ refs,
      (storeEvent { q with nextSys := q.nextSys + 1 } (.sys q.nextSys) e).eventAt r =
        DiagQueue.eventAt { q with nextSys := q.nextSys + 1 } r := by
    intro r hr
    cases r with
    | heap other => rfl
    | sys address =>
      have hne : address ≠ q.nextSys := fun heq => hnotMem (heq ▸ hr)
      exact update_of_ne hne (some e) q.sys
  refine ⟨hbase.store hroom hkept (update_self _ _ _) hnotMem
    (decide_eq_false hlen).symm hsmall ?_, h.layout, h.reports, ?_, h.heapSize⟩
  · intro address heq
    cases heq
    exact Nat.lt_succ_self _
  · rw [filterMap_append, h.little]
    exact append_nil _

end

end AmebaRtos.Diagnose
