import Mathlib.Data.List.TakeWhile
import AmebaRtos.Diagnose.Queue

/-!
# Whole runs of the diagnose queue

Every call keeps the queue in step as long as a new event finds a free slot in the ring. The
capacity of the ring is fixed by the limit on the total size at the start; when the limit is
raised later, more events fit than the ring has slots, and the oldest reference is overwritten.
-/

namespace AmebaRtos.Diagnose

open Lib List

/-- The ring has a free slot for an event that is stored: it has one already, or an older event is
    given up for it. -/
def HasSlot (q : DiagQueue) (e : DiagEvent) (mallocOk : Bool) : Prop :=
  q.evtNodeArr.count < q.evtNodeArr.capacity ∨
  e.evtLen > RTK_DIAG_BIT_EVENT_THRESHOLD ∨
  if e.evtLen > RTK_DIAG_LITTLE_EVENT_THRESHOLD then
    q.totalSize + e.realSize > q.totalCapacity ∨ mallocOk = false
  else NeedsEviction q.heap e.realSize
deriving Decidable

/-- There is memory for the copy of a little event at the head of the queue. -/
def HasCopy (q : DiagQueue) (mallocOk : Bool) : Prop :=
  ∀ e, q.events.head? = some e → e.isLittle = true → mallocOk = true

def OpOk (s : Option DiagQueue) : QueueOp → Prop
  | .enqueue e mallocOk => ∀ q, s = some q → HasSlot q e mallocOk
  | .dequeue mallocOk => ∀ q, s = some q → HasCopy q mallocOk
  | _ => True

instance (q : DiagQueue) (mallocOk : Bool) : Decidable (HasCopy q mallocOk) :=
  inferInstanceAs (Decidable (∀ e ∈ q.events.head?, e.isLittle = true → mallocOk = true))

instance (s : Option DiagQueue) : ∀ op, Decidable (OpOk s op)
  | .enqueue e mallocOk => inferInstanceAs (Decidable (∀ q ∈ s, HasSlot q e mallocOk))
  | .dequeue mallocOk => inferInstanceAs (Decidable (∀ q ∈ s, HasCopy q mallocOk))
  | .delBefore _ => isTrue trivial
  | .delAfter _ => isTrue trivial
  | .clear => isTrue trivial
  | .setTotalCapacity _ => isTrue trivial

/-! ### The property -/

/-- The events that a call takes out. -/
def QueueOp.takenOut (events : List DiagEvent) : QueueOp → List DiagEvent
  | .dequeue _ => events.take 1
  | .delBefore timestamp => events.takeWhile fun e => !decide (e.evtTime > timestamp)
  | .delAfter _ => events
  | .clear => events
  | _ => []

def QueueOp.accepted (q : DiagQueue) : QueueOp → List DiagEvent
  | .enqueue e mallocOk =>
    if (rtkDiagQueueEnqueue q e mallocOk).map Prod.snd = some .success then [e] else []
  | _ => []

def QueueOp.returned (q : DiagQueue) : QueueOp → List DiagEvent
  | .dequeue mallocOk => ((rtkDiagQueueDequeue q mallocOk).bind Prod.snd).toList
  | _ => []

def QueueOp.requested (q : DiagQueue) : QueueOp → List DiagEvent
  | .dequeue _ => []
  | op => op.takenOut q.events

/-- The queue as its callers see it: the events it has accepted, those a dequeue has returned, and
    those it was asked to delete. -/
structure Use where
  queue : Option DiagQueue
  enqueued : List DiagEvent
  returned : List DiagEvent
  requested : List DiagEvent

def useStep (u : Use) (op : QueueOp) : Use :=
  match u.queue with
  | none => u
  | some q =>
    { queue := queueStep u.queue op
      enqueued := u.enqueued ++ op.accepted q
      returned := u.returned ++ op.returned q
      requested := u.requested ++ op.requested q }

def Use.init (heapCapacity totalCapacity : Nat) : Use :=
  ⟨rtkDiagQueueInit heapCapacity totalCapacity, [], [], []⟩

inductive Fate where
  | returned
  | deleted
  | recorded
deriving DecidableEq, Repr

def fates (departed : List (DiagEvent × Fate)) (fate : Fate) : List DiagEvent :=
  (departed.filter (·.2 = fate)).map Prod.fst

/-- The references are live, and those to little events are the live blocks of the heap in order.
    Every event accepted is still there, was returned, deleted on request, or recorded; and the
    list of the deleted events has the last records. -/
structure Accounted (u : Use) (q : DiagQueue) (refs : List EventRef) (live : List Block)
    (events : List DiagEvent) (departed : List (DiagEvent × Fate)) : Prop where
  ring : q.evtNodeArr.Holds refs
  layout : Layout q.heap live
  reports : Reports q.getter live
  little : refs.filterMap EventRef.offset? = live.map Block.offset
  liveRefs : refs.map q.eventAt = events.map some
  byLength : ∀ ref ∈ refs, ∀ e, q.eventAt ref = some e → (ref.offset?.isSome = e.isLittle)
  history : u.enqueued = departed.map Prod.fst ++ events
  returned : fates departed .returned = u.returned
  deleted : fates departed .deleted = u.requested
  recorded : (fates departed .recorded).map DiagEvent.deleted = q.recorded
  listing : q.deletedEvtArr.toList = q.recorded.rtake RTK_DIAG_DELETED_EVENT_MAX_COUNT

def QueueOk (u : Use) : Prop :=
  ∃ q refs live events departed, u.queue = some q ∧ Accounted u q refs live events departed

section Enqueue

variable {e : DiagEvent}

/-- After an addition: the queue is in step, the counter follows its events as long as the limit
    is a 16-bit number, and the events given up for a new one were recorded. -/
def Added (q : DiagQueue) (events : List DiagEvent) (e : DiagEvent)
    (s : Option (DiagQueue × EnqueueResult)) : Prop :=
  ∃ q' refs' live' events' result, s = some (q', result) ∧ InSync q' refs' live' events' ∧
    (q.totalCapacity < 2 ^ 16 → KeepsCount q events q' events') ∧
    ∃ rest, GivenUp q events q' rest ∧ events' = rest ++ if result = .success then [e] else []

theorem counted_store_sys (hlen : ¬ e.evtLen ≤ RTK_DIAG_LITTLE_EVENT_THRESHOLD)
    (hfits : q₁.totalSize + e.realSize < 2 ^ 16) (h : Counted q₁ base events) :
    Counted (storeEvent q₁ (.sys address) e) base (events ++ [e]) := by
  have htotal : (storeEvent q₁ (.sys address) e).totalSize = q₁.totalSize + e.realSize :=
    Nat.mod_eq_of_lt hfits
  refine ⟨?_, htotal ▸ hfits⟩
  rw [htotal, h.total, bigSize_append, bigSize_cons_big hlen]
  exact Nat.add_assoc _ _ _

/-- The part of the property that follows what became of the events. -/
structure Tracked (u : Use) (q : DiagQueue) (events : List DiagEvent)
    (departed : List (DiagEvent × Fate)) : Prop where
  history : u.enqueued = departed.map Prod.fst ++ events
  returned : fates departed .returned = u.returned
  deleted : fates departed .deleted = u.requested
  recorded : (fates departed .recorded).map DiagEvent.deleted = q.recorded
  listing : q.Listing

theorem fates_length (departed : List (DiagEvent × Fate)) :
    departed.length = (fates departed .returned).length + (fates departed .deleted).length +
      (fates departed .recorded).length := by
  induction departed with
  | nil => rfl
  | cons gone departed ih =>
    obtain ⟨e, fate⟩ := gone
    cases fate <;> simp [fates] at ih ⊢ <;> omega

variable (h : InSync q refs live events)
include h

theorem enqueue_big_added (hlen : ¬ e.evtLen ≤ RTK_DIAG_LITTLE_EVENT_THRESHOLD)
    (hsmall : e.evtLen ≤ RTK_DIAG_BIT_EVENT_THRESHOLD) (hslot : HasSlot q e mallocOk) :
    Added q events e (rtkDiagQueueEnqueue q e mallocOk) := by
  obtain ⟨q', refs', live', events', hrun, hsync, hroom⟩ :=
    makeRoom_spec e.realSize (q.evtNodeArr.count + 1) h (Nat.lt_succ_of_le h.ring.count.ge)
  rw [rtkDiagQueueEnqueue, if_neg (not_lt.mpr hsmall), if_pos (not_le.mp hlen), hrun]
  simp only [Option.bind_eq_bind, Option.bind_some]
  by_cases hfull : q'.totalSize + e.realSize > q'.totalCapacity
  · rw [if_pos hfull]
    exact ⟨q', refs', live', events', _, rfl, hsync, fun _ => hroom.keeps, events', hroom.givenUp,
      (append_nil _).symm⟩
  rw [if_neg hfull]
  cases mallocOk with
  | false =>
    exact ⟨q', refs', live', events', _, rfl, hsync, fun _ => hroom.keeps, events', hroom.givenUp,
      (append_nil _).symm⟩
  | true =>
    refine ⟨_, _, live', _, _, rfl, hsync.store_sys hlen hsmall ?_, fun hlimit => ?_, events',
      hroom.givenUp, rfl⟩
    · rw [hsync.ring.count, hroom.ringCapacity]
      rcases hslot with hfree | htooLarge | hmore
      · exact hroom.fewer.trans_lt (h.ring.count ▸ hfree)
      · exact absurd hsmall (not_le.mpr htooLarge)
      rw [if_pos (not_le.mp hlen)] at hmore
      have hover := hmore.resolve_right Bool.noConfusion
      by_cases hcount : q.evtNodeArr.count > 0
      · exact (hroom.less ⟨hcount, hover⟩).trans_le h.ring.bound
      · -- nothing to give up, so the event would not have been stored
        rw [hroom.same fun hmore => hcount hmore.1] at hfull
        exact absurd hover hfull
    · have hfits : q'.totalSize + e.realSize < 2 ^ 16 :=
        (not_lt.mp hfull).trans_lt (hroom.keeps.totalCapacity ▸ hlimit)
      exact hroom.keeps.trans ⟨rfl, rfl, fun _ hcount =>
        counted_store_sys hlen hfits (hcount.congr rfl)⟩

theorem realSize_fits (hlen : e.evtLen ≤ RTK_DIAG_LITTLE_EVENT_THRESHOLD) :
    0 < e.realSize ∧ e.realSize ≤ q.heap.capacity :=
  ⟨lt_of_lt_of_le (by decide) (Nat.le_add_right SIZEOF_EVENT e.evtLen),
    (Nat.add_le_add_left hlen SIZEOF_EVENT).trans h.heapSize⟩

theorem enqueue_little_added (hlen : e.evtLen ≤ RTK_DIAG_LITTLE_EVENT_THRESHOLD)
    (hslot : HasSlot q e mallocOk) :
    Added q events e (rtkDiagQueueEnqueue q e mallocOk) := by
  have hsmall : e.evtLen ≤ RTK_DIAG_BIT_EVENT_THRESHOLD := hlen.trans (by decide)
  obtain ⟨hpos, hfits⟩ := realSize_fits h hlen
  obtain ⟨r, hr, hnone, hcapacity, offset, kept, hresult, hlive, hlayout⟩ :=
    rtkDiagHeapMalloc_spec h.layout h.reports hpos hfits
  have hfirst : refs.filterMap EventRef.offset? =
      r.released.map Block.offset ++ kept.map Block.offset := by
    rw [h.little, hlive, map_append]
  obtain ⟨q', refs', events', hrun, hlisted, hlittle, hle, huntouched, hkeeps, hgone⟩ :=
    removeCallbacks_spec h.toListed hfirst
  rw [rtkDiagQueueEnqueue, if_neg (not_lt.mpr hsmall), if_neg (not_lt.mpr hlen), heapMalloc,
    hr]
  simp only [Option.bind_eq_bind, Option.bind_some, hrun, hresult]
  have hlisted' : Listed { q' with heap := r.heap } refs' events' :=
    hlisted.congr rfl rfl rfl le_rfl
  have hreports : Reports (DiagQueue.getter { q' with heap := r.heap }) kept := by
    rw [show DiagQueue.getter { q' with heap := r.heap } =
      q.getter from getter_congr huntouched.pool]
    exact fun b hb => h.reports b (hlive ▸ mem_append_right _ hb)
  have hstored : KeepsCount q' events' (storeEvent { q' with heap := r.heap } (.heap offset) e)
      (events' ++ [e]) := by
    refine ⟨hcapacity.trans (congrArg DiagHeap.capacity huntouched.heap).symm, rfl, ?_⟩
    intro base hcount
    refine ⟨?_, hcount.fits⟩
    rw [bigSize_append, bigSize_cons_little hlen]
    exact hcount.total
  refine ⟨_, _, _, _, _, rfl, hlisted'.store_heap hlayout hreports hlittle
    (hcapacity ▸ h.heapSize) hlen ?_, fun _ => hkeeps.trans hstored, events', hgone, rfl⟩
  rw [hlisted.ring.count, huntouched.ringCapacity]
  have hbound := h.ring.bound
  rcases hslot with hfree | htooLarge | hmore
  · rw [h.ring.count] at hfree
    omega
  · exact absurd hsmall (not_le.mpr htooLarge)
  rw [if_neg (not_lt.mpr hlen)] at hmore
  have hreleased : 0 < r.released.length :=
    length_pos_iff.mpr fun hnil => hnone.mp hnil hmore
  omega

theorem rtkDiagQueueEnqueue_added (hslot : HasSlot q e mallocOk) :
    Added q events e (rtkDiagQueueEnqueue q e mallocOk) := by
  by_cases hsmall : e.evtLen ≤ RTK_DIAG_BIT_EVENT_THRESHOLD
  · by_cases hlen : e.evtLen ≤ RTK_DIAG_LITTLE_EVENT_THRESHOLD
    · exact enqueue_little_added h hlen hslot
    · exact enqueue_big_added h hlen hsmall hslot
  · rw [rtkDiagQueueEnqueue, if_pos (not_le.mp hsmall)]
    exact ⟨q, refs, live, events, _, rfl, h, fun _ => .refl q events, events, .refl q events,
      (append_nil _).symm⟩

/-- When a slot is taken over, the queue cannot account for one of the events. -/
theorem Tracked.not_queueOk_store (hu : Tracked u q events departed) (hq : u.queue = some q)
    (hstored : rtkDiagQueueEnqueue q e mallocOk = some (q', .success))
    (hcount : q'.evtNodeArr.count = q.evtNodeArr.count) (hrecorded : q'.recorded = q.recorded) :
    ¬ QueueOk (useStep u (.enqueue e mallocOk)) := by
  rintro ⟨q'', refs', live', events', departed', hq'', haccounted⟩
  simp only [useStep, hq, queueStep, Option.bind_some, queueOp, hstored, Option.map_some] at hq''
  cases hq''
  have hhistory := haccounted.history
  have hreturned := haccounted.returned
  have hdeleted := haccounted.deleted
  simp only [useStep, hq, QueueOp.accepted, QueueOp.returned, QueueOp.requested, QueueOp.takenOut,
    hstored, Option.map_some, if_true, append_nil, hu.history] at hhistory hreturned hdeleted
  have hrefs : refs'.length = refs.length :=
    haccounted.ring.count.symm.trans (hcount.trans h.ring.count)
  have hlen := congrArg List.length h.liveRefs
  have hlen' := congrArg List.length haccounted.liveRefs
  have hlength := congrArg List.length hhistory
  have hgone := fates_length departed
  have hgone' := fates_length departed'
  have hrecords := congrArg List.length hu.recorded
  have hrecords' := congrArg List.length haccounted.recorded
  rw [hu.returned, hu.deleted] at hgone
  rw [hreturned, hdeleted] at hgone'
  rw [hrecorded] at hrecords'
  simp only [length_append, length_singleton, length_map] at hlen hlen' hlength hrecords hrecords'
  omega

theorem hasSlot_of_queueOk (hu : Tracked u q events departed) (hq : u.queue = some q)
    (hok : QueueOk (useStep u (.enqueue e mallocOk))) : HasSlot q e mallocOk := by
  by_contra hslot
  obtain ⟨hfull, hrest⟩ := not_or.mp hslot
  obtain ⟨hsmall, hrest⟩ := not_or.mp hrest
  have hcount : q.evtNodeArr.count = q.evtNodeArr.capacity :=
    le_antisymm (h.ring.count ▸ h.ring.bound) (not_lt.mp hfull)
  by_cases hlen : e.evtLen > RTK_DIAG_LITTLE_EVENT_THRESHOLD
  · rw [if_pos hlen] at hrest
    obtain ⟨hroom, hmalloc⟩ := not_or.mp hrest
    obtain ⟨q', _, _, _, hrun, _, hmade⟩ :=
      makeRoom_spec e.realSize (q.evtNodeArr.count + 1) h (Nat.lt_succ_of_le h.ring.count.ge)
    rw [hmade.same fun hmore => hroom hmore.2] at hrun
    have hstored : rtkDiagQueueEnqueue q e mallocOk =
        some (storeEvent { q with nextSys := q.nextSys + 1 } (.sys q.nextSys) e, .success) := by
      rw [rtkDiagQueueEnqueue, if_neg hsmall, if_pos hlen, hrun]
      simp only [Option.bind_eq_bind, Option.bind_some]
      rw [if_neg hroom, Bool.eq_true_of_not_eq_false hmalloc]
      rfl
    exact hu.not_queueOk_store h hq hstored (if_pos hcount) rfl hok
  · rw [if_neg hlen] at hrest
    obtain ⟨hpos, hfits⟩ := realSize_fits h (not_lt.mp hlen)
    obtain ⟨r, hr, hnone, _, offset, kept, hresult, _, _⟩ :=
      rtkDiagHeapMalloc_spec h.layout h.reports hpos hfits
    have hstored : rtkDiagQueueEnqueue q e mallocOk =
        some (storeEvent { q with heap := r.heap } (.heap offset) e, .success) := by
      rw [rtkDiagQueueEnqueue, if_neg hsmall, if_neg hlen, heapMalloc, hr]
      simp only [Option.bind_eq_bind, Option.bind_some, hnone.mpr hrest, hresult]
      rfl
    exact hu.not_queueOk_store h hq hstored (if_pos hcount) rfl hok

end Enqueue

/-! ### Runs -/

def QueueOp.TakesOut : QueueOp → Prop
  | .enqueue _ _ => False
  | .setTotalCapacity _ => False
  | _ => True

theorem InSync.dequeue (h : InSync q refs live events) (hcopy : HasCopy q mallocOk) :
    ∃ q' refs' live', rtkDiagQueueDequeue q mallocOk = some (q', events.head?) ∧
      InSync q' refs' live' (events.drop 1) ∧ SameBooks q q' := by
  apply rtkDiagQueueDequeue_spec h
  rw [← h.toListed.events_eq]
  exact hcopy

theorem takesOut_spec (h : InSync q refs live events) (hok : OpOk (some q) op)
    (hop : op.TakesOut) : ∃ q' refs' live' rest, queueOp q op = some q' ∧
      InSync q' refs' live' rest ∧ events = op.takenOut events ++ rest ∧ SameBooks q q' := by
  have hfuel : refs.length < q.evtNodeArr.count + 1 := Nat.lt_succ_of_le h.ring.count.ge
  cases op with
  | enqueue e mallocOk => exact hop.elim
  | dequeue mallocOk =>
    obtain ⟨q', refs', live', hrun, hsync, hsame⟩ := h.dequeue (hok q rfl)
    exact ⟨q', refs', live', _, congrArg (Option.map Prod.fst) hrun, hsync,
      (take_append_drop 1 events).symm, hsame⟩
  | delBefore timestamp =>
    obtain ⟨q', refs', live', hrun, hsync, hsame⟩ := deleteLoop_spec _ _ 0 h hfuel
    exact ⟨q', refs', live', _, hrun, hsync, takeWhile_append_dropWhile.symm, hsame⟩
  | delAfter timestamp =>
    obtain ⟨q', refs', live', hrun, hsync, hsame⟩ := deleteLoop_spec (fun _ => false) _ 0 h hfuel
    have hnone : (events.dropWhile fun _ => !false) = [] :=
      dropWhile_eq_nil_iff.mpr fun _ _ => rfl
    exact ⟨q', refs', live', [], hrun, hnone ▸ hsync, (append_nil events).symm, hsame⟩
  | clear =>
    obtain ⟨q', live', hrun, hsync, hsame⟩ := clearLoop_spec _ h hfuel
    exact ⟨q', [], live', [], hrun, hsync, (append_nil events).symm, hsame⟩
  | setTotalCapacity totalCapacity => exact hop.elim

theorem InSync.setTotalCapacity (h : InSync q refs live events) (totalCapacity : Nat) :
    InSync (rtkDiagQueueSetTotalCapacity q totalCapacity) refs live events := by
  unfold rtkDiagQueueSetTotalCapacity
  split
  · exact h.withTotalCapacity totalCapacity
  · exact h

/-- What a call does to the events: those at the front that leave do so in a known way, and an
    accepted one comes behind the others. -/
structure Moved (op : QueueOp) (q : DiagQueue) (events : List DiagEvent) (q' : DiagQueue)
    (events' : List DiagEvent) (gone : List (DiagEvent × Fate)) : Prop where
  queue : events ++ op.accepted q = gone.map Prod.fst ++ events'
  returned : fates gone .returned = op.returned q
  deleted : fates gone .deleted = op.requested q
  recorded : q'.recorded = q.recorded ++ (fates gone .recorded).map DiagEvent.deleted
  listing : q.Listing → q'.Listing

theorem fates_map (events : List DiagEvent) (fate fate' : Fate) :
    fates (events.map (·, fate)) fate' = if fate = fate' then events else [] := by
  by_cases heq : fate = fate'
  · simp [fates, filter_map, Function.comp_def, heq]
  · simp [fates, filter_map, Function.comp_def, heq]

theorem map_fst_fate (events : List DiagEvent) (fate : Fate) :
    (events.map (·, fate)).map Prod.fst = events := by
  simp [Function.comp_def]

theorem SameBooks.listing (h : SameBooks q q') (hlisting : q.Listing) : q'.Listing := by
  unfold DiagQueue.Listing
  rw [h.deletedEvtArr, h.recorded]
  exact hlisting

theorem moved_deleted (hsame : SameBooks q q') (hevents : events = op.requested q ++ events')
    (haccepted : op.accepted q = []) (hreturned : op.returned q = []) :
    Moved op q events q' events' ((op.requested q).map (·, .deleted)) where
  queue := by rw [haccepted, append_nil, map_fst_fate, hevents]
  returned := by rw [hreturned, fates_map, if_neg Fate.noConfusion]
  deleted := by rw [fates_map, if_pos rfl]
  recorded := by rw [hsame.recorded, fates_map, if_neg Fate.noConfusion, map_nil, append_nil]
  listing := hsame.listing

/-- **One call** keeps the queue in step, and every event that leaves it is accounted for. -/
theorem InSync.step (h : InSync q refs live events) (hop : OpOk (some q) op) :
    ∃ q' refs' live' events' gone, queueOp q op = some q' ∧ InSync q' refs' live' events' ∧
      Moved op q events q' events' gone := by
  have hevents := h.toListed.events_eq
  have htakes : op.TakesOut → op.requested q = op.takenOut events → op.accepted q = [] →
      op.returned q = [] → ∃ q' refs' live' events' gone, queueOp q op = some q' ∧
        InSync q' refs' live' events' ∧ Moved op q events q' events' gone := by
    intro htakes hrequested haccepted hreturned
    obtain ⟨q', refs', live', rest, hrun, hsync, hrest, hsame⟩ := takesOut_spec h hop htakes
    exact ⟨q', refs', live', rest, _, hrun, hsync,
      moved_deleted hsame (hrequested ▸ hrest) haccepted hreturned⟩
  cases op with
  | enqueue e mallocOk =>
    obtain ⟨q', refs', live', events', result, hrun, hsync, _, rest,
      ⟨gone, rfl, hrecorded, hlisting⟩,
      rfl⟩ := rtkDiagQueueEnqueue_added h (hop q rfl)
    refine ⟨q', refs', live', _, gone.map (·, .recorded), congrArg (Option.map Prod.fst) hrun,
      hsync, ?_, ?_, ?_, ?_, hlisting⟩
    · simp only [QueueOp.accepted, hrun, Option.map_some, Option.some.injEq, map_fst_fate,
        append_assoc]
    · rw [fates_map, if_neg Fate.noConfusion]
      rfl
    · rw [fates_map, if_neg Fate.noConfusion]
      rfl
    · rw [fates_map, if_pos rfl, hrecorded]
  | dequeue mallocOk =>
    obtain ⟨q', refs', live', hrun, hsync, hsame⟩ := h.dequeue (hop q rfl)
    refine ⟨q', refs', live', _, events.head?.toList.map (·, .returned),
      congrArg (Option.map Prod.fst) hrun, hsync, ?_, ?_, ?_, ?_, hsame.listing⟩
    · rw [map_fst_fate]
      cases events with
      | nil => rfl
      | cons e events => exact append_nil _
    · rw [fates_map, if_pos rfl, QueueOp.returned, hrun]
      rfl
    · rw [fates_map, if_neg Fate.noConfusion]
      rfl
    · rw [hsame.recorded, fates_map, if_neg Fate.noConfusion, map_nil, append_nil]
  | setTotalCapacity totalCapacity =>
    refine ⟨_, refs, live, events, [], rfl, h.setTotalCapacity totalCapacity, append_nil _, rfl,
      rfl, ?_, ?_⟩
    all_goals
      unfold rtkDiagQueueSetTotalCapacity
      split
    all_goals first | exact (append_nil _).symm | exact id
  | delBefore timestamp => exact htakes trivial (congrArg _ hevents) rfl rfl
  | delAfter timestamp => exact htakes trivial hevents rfl rfl
  | clear => exact htakes trivial hevents rfl rfl

/-- The queue is in step and follows what became of its events. -/
def Followed (u : Use) : Prop :=
  ∃ q refs live events departed, u.queue = some q ∧ InSync q refs live events ∧
    Tracked u q events departed

theorem Followed.queueOk (h : Followed u) : QueueOk u := by
  obtain ⟨q, refs, live, events, departed, hu, hsync, htracked⟩ := h
  exact ⟨q, refs, live, events, departed, hu, hsync.ring, hsync.layout, hsync.reports, hsync.little,
    hsync.liveRefs, hsync.byLength, htracked.history, htracked.returned, htracked.deleted,
    htracked.recorded, htracked.listing.2.toList⟩

theorem fates_append (departed gone : List (DiagEvent × Fate)) (fate : Fate) :
    fates (departed ++ gone) fate = fates departed fate ++ fates gone fate := by
  simp [fates]

/-- No operation loses track of an event. -/
theorem Followed.step (h : Followed u) (hop : OpOk u.queue op) : Followed (useStep u op) := by
  obtain ⟨q, refs, live, events, departed, hu, hsync, htracked⟩ := h
  rw [hu] at hop
  obtain ⟨q', refs', live', events', gone, hrun, hsync', hmoved⟩ := hsync.step hop
  have hstep : useStep u op = ⟨some q', u.enqueued ++ op.accepted q, u.returned ++ op.returned q,
      u.requested ++ op.requested q⟩ := by
    simp only [useStep, hu, queueStep, Option.bind_some, hrun]
  rw [hstep]
  refine ⟨q', refs', live', events', departed ++ gone, rfl, hsync', ?_, ?_, ?_, ?_,
    hmoved.listing htracked.listing⟩
  · simp only [htracked.history, map_append, append_assoc, hmoved.queue]
  · rw [fates_append, htracked.returned, hmoved.returned]
  · rw [fates_append, htracked.deleted, hmoved.deleted]
  · rw [fates_append, map_append, htracked.recorded, hmoved.recorded]

theorem Followed.opOk (h : Followed u) (hok : QueueOk (useStep u op)) : OpOk u.queue op := by
  obtain ⟨q, refs, live, events, departed, hu, hsync, htracked⟩ := h
  cases op with
  | enqueue e mallocOk =>
    intro q' hq'
    cases hu.symm.trans hq'
    exact hasSlot_of_queueOk hsync htracked hu hok
  | dequeue mallocOk =>
    intro q' hq' e hfirst hlittle
    cases hu.symm.trans hq'
    by_contra hmalloc
    obtain rfl := Bool.eq_false_of_not_eq_true hmalloc
    have hnone := rtkDiagQueueDequeue_none hsync (hsync.toListed.events_eq ▸ hfirst) hlittle
    obtain ⟨q'', _, _, _, _, hq'', _⟩ := hok
    simp only [useStep, hu, queueStep, Option.bind_some, queueOp, hnone] at hq''
    cases hq''
  | delBefore timestamp => trivial
  | delAfter timestamp => trivial
  | clear => trivial
  | setTotalCapacity totalCapacity => trivial

theorem rtkDiagQueueInit_synced (hsize : RTK_DIAG_HEAP_SIZE_MIN ≤ heapCapacity) :
    Synced (rtkDiagQueueInit heapCapacity totalCapacity) := by
  rw [rtkDiagQueueInit, if_neg (not_lt.mpr hsize)]
  refine ⟨_, [], [], [], rfl, ⟨RingArray.create_holds _, rfl, ?_, ?_, ?_, nodup_nil⟩,
    rtkDiagHeapCreate_layout _, ?_, rfl, hsize⟩
  all_goals exact fun _ hmem => absurd hmem not_mem_nil

theorem init_followed (hsize : RTK_DIAG_HEAP_SIZE_MIN ≤ heapCapacity) :
    Followed (.init heapCapacity totalCapacity) := by
  obtain ⟨q, refs, live, events, hq, hsync⟩ := rtkDiagQueueInit_synced hsize
  refine ⟨q, refs, live, events, [], hq, hsync, ?_⟩
  have hevents := hsync.toListed.events_eq
  rw [rtkDiagQueueInit, if_neg (not_lt.mpr hsize)] at hq
  obtain rfl := Option.some.inj hq
  exact ⟨hevents, rfl, rfl, rfl, rfl, RingArray.create_holds _⟩

/-- In every state of a run the queue is accounted for, exactly if the ring has a free slot for
    every event that is stored along the run, and a little event that is dequeued has memory. -/
theorem queue_accounted_iff {heapCapacity : Nat} (hsize : RTK_DIAG_HEAP_SIZE_MIN ≤ heapCapacity)
    (totalCapacity : Nat) (ops : List QueueOp) :
    Throughout useStep QueueOk (.init heapCapacity totalCapacity) ops ↔
      Along useStep (fun u op => OpOk u.queue op) (.init heapCapacity totalCapacity) ops :=
  throughout_iff_along_of_strong (fun _ h => h.queueOk) (fun _ _ h hop => h.step hop)
    (fun _ _ h hok => h.opOk hok) (init_followed hsize)

/-- A little event, and one that is just too big to be one. -/
def littleEvent : DiagEvent := ⟨1, 0, 0, [1]⟩
def bigEvent : DiagEvent := ⟨1, 0, 0, List.replicate 129 0⟩

theorem little_events_accounted :
    Throughout useStep QueueOk (.init RTK_DIAG_HEAP_SIZE RTK_DIAG_SYS_HEAP_UPPER_LIMIT)
      [.enqueue littleEvent true, .enqueue bigEvent true, .dequeue true, .clear] :=
  (queue_accounted_iff (by decide) _ _).mpr (by decide +kernel)

/-- With the sizes of the system and the limit raised once: a little event and 341 big ones fit, but
    the ring has 341 slots, and no reference leads to the little event any longer. -/
theorem first_event_lost :
    let ops := .setTotalCapacity 65535 :: .enqueue littleEvent true ::
      List.replicate 341 (.enqueue bigEvent true)
    let u := ops.foldl useStep (.init RTK_DIAG_HEAP_SIZE RTK_DIAG_SYS_HEAP_UPPER_LIMIT)
    (u.enqueued.length, u.returned, u.requested) = (342, [], []) ∧
    u.queue.map (fun q => (q.recorded, q.evtNodeArr.count, q.heap.usedSize)) =
      some ([], 341, littleEvent.realSize) ∧
    u.queue.map (fun q => (List.range q.evtNodeArr.count).map fun i =>
      (q.evtNodeArr.at? i).bind EventRef.offset?) = some (List.replicate 341 none) := by
  decide +kernel

end AmebaRtos.Diagnose
