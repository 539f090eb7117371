import AmebaRtos.Diagnose.QueueRun

/-!
# The size counter of the diagnose queue

`total_size` is the capacity of the fixed heap and the sizes of the big events, which are refused
when it leaves no room. It is lowered when events are given up for a new one, but not when they
are dequeued, cleared or deleted.
-/

namespace AmebaRtos.Diagnose

open Lib

/-- The counter is right, and an event that fits next to the heap is accepted once older
    ones have been given up. -/
structure SizesOk (q : DiagQueue) : Prop where
  total : q.totalSize = q.heap.capacity + bigSize q.events
  accepts : ∀ e : DiagEvent, q.heap.capacity + e.realSize ≤ q.totalCapacity →
    ∃ q', rtkDiagQueueEnqueue q e true = some (q', .success)

def SizeOk (s : Option DiagQueue) : Prop := ∃ q, s = some q ∧ SizesOk q

/-- The limit leaves room next to the heap for no event above the threshold. -/
def LimitOk (heapCapacity totalCapacity : Nat) : Prop :=
  totalCapacity ≤ heapCapacity + (SIZEOF_EVENT + RTK_DIAG_BIT_EVENT_THRESHOLD)
deriving Decidable

/-- The condition on a call: no big event is dequeued, cleared or deleted, and the limit
    stays where it should. -/
def SizeCond (s : Option DiagQueue) (op : QueueOp) : Prop :=
  ∀ q, s = some q → (∀ e ∈ op.takenOut q.events, e.isLittle = true) ∧ LimitOk q.heap.capacity
      (match op with
        | .setTotalCapacity totalCapacity =>
            (rtkDiagQueueSetTotalCapacity q totalCapacity).totalCapacity
        | _ => q.totalCapacity)

/-- The limit is a 16-bit number. -/
def QueueOp.Typed : QueueOp → Prop
  | .setTotalCapacity totalCapacity => totalCapacity < 2 ^ 16
  | _ => True

/-- A run in which the ring of references always has a slot, and a copy its memory. -/
def SlotPremise (s : Option DiagQueue) (op : QueueOp) : Prop := OpOk s op ∧ op.Typed

instance (s : Option DiagQueue) (op : QueueOp) : Decidable (SizeCond s op) :=
  inferInstanceAs (Decidable (∀ q ∈ s, _ ∧ LimitOk _ _))

def Balanced (s : Option DiagQueue) : Prop :=
  ∃ q refs live events, s = some q ∧ InSync q refs live events ∧
    Counted q q.heap.capacity events ∧ q.totalCapacity < 2 ^ 16 ∧
    LimitOk q.heap.capacity q.totalCapacity

section Steps

theorem bigSize_eq_zero : bigSize events = 0 ↔ ∀ e ∈ events, e.isLittle = true := by
  induction events with
  | nil => simp [bigSize]
  | cons e events ih =>
    by_cases hlen : e.evtLen ≤ RTK_DIAG_LITTLE_EVENT_THRESHOLD
    · simp [bigSize_cons_little hlen, ih, DiagEvent.isLittle, hlen]
    · simp [bigSize_cons_big hlen, DiagEvent.isLittle, hlen, DiagEvent.realSize, SIZEOF_EVENT]

/-! ### An event that fits is accepted -/

section

variable (h : InSync q refs live events)
include h

theorem accepts_big (hcount : Counted q q.heap.capacity events)
    (hlen : ¬ e.evtLen ≤ RTK_DIAG_LITTLE_EVENT_THRESHOLD)
    (hsmall : e.evtLen ≤ RTK_DIAG_BIT_EVENT_THRESHOLD)
    (hfits : q.heap.capacity + e.realSize ≤ q.totalCapacity) :
    ∃ q', rtkDiagQueueEnqueue q e true = some (q', .success) := by
  obtain ⟨q', refs', live', events', hrun, _, hroom⟩ :=
    makeRoom_spec e.realSize (q.evtNodeArr.count + 1) h (Nat.lt_succ_of_le h.ring.count.ge)
  have hdone : ¬ q'.totalSize + e.realSize > q'.totalCapacity := by
    rcases hroom.done with hdone | rfl
    · exact not_lt.mpr hdone
    -- nothing is left in the queue, so only the heap counts
    have htotal := (hroom.keeps.counted _ hcount).total
    rw [htotal, hroom.keeps.totalCapacity]
    exact not_lt.mpr hfits
  rw [rtkDiagQueueEnqueue, if_neg (not_lt.mpr hsmall), if_pos (not_le.mp hlen), hrun]
  simp [hdone]

theorem accepts_little (hlen : e.evtLen ≤ RTK_DIAG_LITTLE_EVENT_THRESHOLD) :
    ∃ q', rtkDiagQueueEnqueue q e true = some (q', .success) := by
  have hsmall : e.evtLen ≤ RTK_DIAG_BIT_EVENT_THRESHOLD := hlen.trans (by decide)
  obtain ⟨hpos, hfits⟩ := realSize_fits h hlen
  obtain ⟨r, hr, _, _, offset, kept, hresult, hlive, _⟩ :=
    rtkDiagHeapMalloc_spec h.layout h.reports hpos hfits
  have hfirst : refs.filterMap EventRef.offset? =
      r.released.map Block.offset ++ kept.map Block.offset := by
    rw [h.little, hlive, List.map_append]
  obtain ⟨q', _, _, hrun, _⟩ := removeCallbacks_spec h.toListed hfirst
  rw [rtkDiagQueueEnqueue, if_neg (not_lt.mpr hsmall), if_neg (not_lt.mpr hlen), heapMalloc,
    hr]
  simp [hrun, hresult]

theorem sizesOk_of_counted (hcount : Counted q q.heap.capacity events)
    (hlimit : LimitOk q.heap.capacity q.totalCapacity) : SizesOk q := by
  refine ⟨h.toListed.events_eq.symm ▸ hcount.total, fun e hfits => ?_⟩
  have hsmall : e.evtLen ≤ RTK_DIAG_BIT_EVENT_THRESHOLD := by
    have hroom := hfits.trans hlimit
    unfold DiagEvent.realSize at hroom
    omega
  by_cases hlen : e.evtLen ≤ RTK_DIAG_LITTLE_EVENT_THRESHOLD
  · exact accepts_little h hlen
  · exact accepts_big h hcount hlen hsmall hfits

end

theorem SizesOk.limitOk (h : SizesOk q) : LimitOk q.heap.capacity q.totalCapacity := by
  by_contra hlimit
  let e : DiagEvent := ⟨0, 0, 0, List.replicate (RTK_DIAG_BIT_EVENT_THRESHOLD + 1) 0⟩
  have hlen : e.evtLen = RTK_DIAG_BIT_EVENT_THRESHOLD + 1 := List.length_replicate
  have hfits : q.heap.capacity + e.realSize ≤ q.totalCapacity := by
    rw [DiagEvent.realSize, hlen]
    exact not_le.mp hlimit
  obtain ⟨q', hrun⟩ := h.accepts e hfits
  rw [rtkDiagQueueEnqueue, if_pos (hlen ▸ Nat.lt_succ_self _)] at hrun
  cases hrun

end Steps

theorem Balanced.sizeOk (h : Balanced s) : SizeOk s := by
  obtain ⟨q, refs, live, events, rfl, hsync, hcount, _, hlimit⟩ := h
  exact ⟨q, rfl, sizesOk_of_counted hsync hcount hlimit⟩

/-! ### Steps -/

theorem counted_takesOut_iff (hcount : Counted q q.heap.capacity (taken ++ rest))
    (hsame : SameBooks q q') :
    q'.totalSize = q'.heap.capacity + bigSize rest ↔ ∀ e ∈ taken, e.isLittle = true := by
  have htotal := hcount.total
  rw [bigSize_append] at htotal
  rw [hsame.totalSize, hsame.heapCapacity, ← bigSize_eq_zero]
  omega

/-- Under the condition the total stays that of the events. -/
theorem Balanced.step (h : Balanced s) (hop : SlotPremise s op) (hcond : SizeCond s op) :
    Balanced (queueStep s op) := by
  obtain ⟨q, refs, live, events, rfl, hsync, hcount, hbound, hlimit⟩ := h
  have htakes : op.TakesOut → Balanced (queueStep (some q) op) := by
    intro htakes
    obtain ⟨q', refs', live', rest, hrun, hsync', hevents, hsame⟩ :=
      takesOut_spec hsync hop.1 htakes
    have hlittle := (hcond q rfl).1
    rw [hsync.toListed.events_eq] at hlittle
    have htotal := (counted_takesOut_iff (hevents ▸ hcount) hsame).mpr hlittle
    refine ⟨q', refs', live', rest, hrun, hsync', ⟨htotal, ?_⟩, ?_, ?_⟩
    · rw [hsame.totalSize]
      exact hcount.fits
    · rwa [hsame.totalCapacity]
    · rwa [hsame.heapCapacity, hsame.totalCapacity]
  cases op with
  | enqueue e mallocOk =>
    obtain ⟨q', refs', live', events', result, hrun, hsync', hkeeps, _⟩ :=
      rtkDiagQueueEnqueue_added hsync (hop.1 q rfl)
    have hkept := hkeeps hbound
    refine ⟨q', refs', live', events', congrArg (Option.map Prod.fst) hrun, hsync', ?_, ?_, ?_⟩
    · rw [hkept.heapCapacity]
      exact hkept.counted _ hcount
    · rwa [hkept.totalCapacity]
    · rwa [hkept.heapCapacity, hkept.totalCapacity]
  | setTotalCapacity totalCapacity =>
    have hnew := (hcond q rfl).2
    refine ⟨rtkDiagQueueSetTotalCapacity q totalCapacity, refs, live, events, rfl,
      hsync.setTotalCapacity totalCapacity, ?_⟩
    revert hnew
    simp only [rtkDiagQueueSetTotalCapacity]
    split
    · exact fun hnew => ⟨hcount.congr rfl, hop.2, hnew⟩
    · exact fun hnew => ⟨hcount, hbound, hnew⟩
  | _ => exact htakes trivial

theorem Balanced.sizeCond (h : Balanced s) (hop : SlotPremise s op)
    (hok : SizeOk (queueStep s op)) : SizeCond s op := by
  obtain ⟨q, refs, live, events, rfl, hsync, hcount, _, hlimit⟩ := h
  obtain ⟨q₁, hq₁, hsizes⟩ := hok
  have htakes : op.TakesOut → ∀ e ∈ op.takenOut q.events, e.isLittle = true := by
    intro htakes
    obtain ⟨q', refs', live', rest, hrun, hsync', hevents, hsame⟩ :=
      takesOut_spec hsync hop.1 htakes
    have heq : q' = q₁ := Option.some.inj (hrun.symm.trans hq₁)
    rw [hsync.toListed.events_eq]
    refine (counted_takesOut_iff (hevents ▸ hcount) hsame).mp ?_
    rw [heq, hsizes.total, ← heq, hsync'.toListed.events_eq]
  intro q' hq'
  cases hq'
  cases op with
  | enqueue e mallocOk => exact ⟨fun _ hmem => absurd hmem List.not_mem_nil, hlimit⟩
  | setTotalCapacity totalCapacity =>
    refine ⟨fun _ hmem => absurd hmem List.not_mem_nil, ?_⟩
    cases hq₁
    have hnew := hsizes.limitOk
    revert hnew
    simp only [rtkDiagQueueSetTotalCapacity]
    split
    · exact id
    · exact id
  | _ => exact ⟨htakes trivial, hlimit⟩

/-- If the ring always has a slot: the counter is right and an event that fits is accepted, exactly
    if no event above the threshold would fit the limit, and no big event is ever dequeued, cleared
    or deleted. -/
theorem totalSize_accounted_iff {heapCapacity totalCapacity : Nat}
    (hsize : RTK_DIAG_HEAP_SIZE_MIN ≤ heapCapacity) (hheap : heapCapacity < 2 ^ 16)
    (htotal : totalCapacity < 2 ^ 16) {ops : List QueueOp}
    (hops : Along queueStep SlotPremise (rtkDiagQueueInit heapCapacity totalCapacity) ops) :
    Throughout queueStep SizeOk (rtkDiagQueueInit heapCapacity totalCapacity) ops ↔
      LimitOk heapCapacity totalCapacity ∧
        Along queueStep SizeCond (rtkDiagQueueInit heapCapacity totalCapacity) ops := by
  obtain ⟨q, refs, live, events, hinit, hsync⟩ := rtkDiagQueueInit_synced hsize
  have hq := hinit
  rw [rtkDiagQueueInit, if_neg (not_lt.mpr hsize)] at hq
  obtain rfl := Option.some.inj hq
  obtain rfl : events = [] := by
    have hnil := hsync.toListed.events_eq
    exact hnil.symm
  have hbalanced : LimitOk heapCapacity totalCapacity →
      Balanced (rtkDiagQueueInit heapCapacity totalCapacity) := fun hlimit =>
    ⟨_, refs, live, [], hinit, hsync, ⟨rfl, hheap⟩, htotal, hlimit⟩
  have hiff := fun hlimit => throughout_iff_along_under (fun _ h => h.sizeOk)
    (fun _ _ h hop hcond => h.step hop hcond) (fun _ _ h hop hok => h.sizeCond hop hok)
    (hbalanced hlimit) hops
  constructor
  · intro hok
    obtain ⟨q', hq', hsizes⟩ := hok.first
    have hlimit : LimitOk heapCapacity totalCapacity := by
      cases hinit.symm.trans hq'
      exact hsizes.limitOk
    exact ⟨hlimit, (hiff hlimit).mp hok⟩
  · rintro ⟨hlimit, hcond⟩
    exact (hiff hlimit).mpr hcond

/-- An event of a tenth of a kilobyte; a heap of `RTK_DIAG_HEAP_SIZE_MIN` bytes holds one of them.
-/
def noteEvent (time : Nat) : DiagEvent := ⟨1, time, 0, List.replicate 100 7⟩

/-- A big event, and two little ones of which the second takes the place of the first. -/
theorem big_event_accounted :
    Throughout queueStep SizeOk (rtkDiagQueueInit 140 240)
      [.enqueue bigEvent true, .enqueue (noteEvent 5) true, .enqueue (noteEvent 6) true] := by
  refine (totalSize_accounted_iff (by decide) (by decide) (by decide) ?_).mpr
    ⟨by decide, by decide +kernel⟩
  refine ⟨⟨?_, trivial⟩, ⟨?_, trivial⟩, ⟨?_, trivial⟩, trivial⟩ <;> decide +kernel

/-- 14 big events, each cleared on its own: the queue is empty, but the counter still has all of
    them, and the next one is refused. -/
theorem big_event_refused :
    let ops := (List.replicate 14 [.enqueue bigEvent true, .clear]).flatten
    let s := ops.foldl queueStep
      (rtkDiagQueueInit RTK_DIAG_HEAP_SIZE RTK_DIAG_SYS_HEAP_UPPER_LIMIT)
    s.map (fun q => (q.events, q.totalSize)) =
      some ([], RTK_DIAG_HEAP_SIZE + 14 * bigEvent.realSize) ∧
    s.bind (fun q => (rtkDiagQueueEnqueue q bigEvent true).map Prod.snd) = some .evtAddFail := by
  decide +kernel

end AmebaRtos.Diagnose
