import AmebaRtos.Lib.Blocks

/-!
# The heap of the diagnose queue

`ameba_diagnose_heap.c`: a pool from which blocks are taken one behind the other. When it is full,
the oldest blocks are given up; their owner is told by the `notice` callback. The used part is one
range of the pool (the *normal* form, with the same bounds for head and tail), or two: the tail at
the start of the pool and, behind it, the head with the older blocks (the *wrapped* form).

The lengths of the blocks are read from their contents with the `getter` callback. An allocation
is modelled with the blocks that `notice` is called for. The functions return no result if a
`DIAG_DBG_ASSERT` fails.
-/

namespace AmebaRtos.Diagnose

open Lib List

/-- `RtkDiagHeapHandler_t`. The cursors are offsets into the pool. -/
structure DiagHeap where
  capacity : Nat
  headBegin : Nat
  headEnd : Nat
  tailBegin : Nat
  tailEnd : Nat
  usedSize : Nat
deriving DecidableEq, Repr

variable (getter : Nat → Nat) (capacity : Nat)

/-- `rtk_diag_heap_create`, for a capacity that it accepts. -/
def rtkDiagHeapCreate : DiagHeap := ⟨capacity, 0, 0, 0, 0, 0⟩

def diagDbgAssert (p : Prop) [Decidable p] : Option Unit := if p then some () else none

@[simp] theorem diagDbgAssert_of [Decidable p] (h : p) : diagDbgAssert p = some () :=
  if_pos h

structure Evicted where
  heap : DiagHeap
  freeSpace : Nat
  released : List Block
deriving DecidableEq, Repr

/-- The loop `while (free_space < length)` of both allocation functions. It is left with less than
    `length` when the head is used up. -/
def evictBlocks (getter : Nat → Nat) : Nat → DiagHeap → Nat → Nat → Option Evicted
  | 0, _, _, _ => none
  | fuel + 1, h, freeSpace, length =>
    if freeSpace < length then
      if h.headBegin < h.headEnd then
        let currentHeadDataLength := getter h.headBegin
        (evictBlocks getter fuel
          { h with
            headBegin := h.headBegin + currentHeadDataLength
            usedSize := h.usedSize - currentHeadDataLength }
          (freeSpace + currentHeadDataLength) length).map fun e =>
            { e with released := ⟨h.headBegin, currentHeadDataLength⟩ :: e.released }
      else some ⟨h, freeSpace, []⟩
    else some ⟨h, freeSpace, []⟩

structure MallocResult where
  heap : DiagHeap
  result : Option Nat
  released : List Block
deriving DecidableEq, Repr

/-- The end of `rtk_diag_heap_malloc_normal` without room at the tail: the block goes to the start
    of the pool. -/
def placeAtStart (e : Evicted) (length : Nat) : Option MallocResult := do
  let h ← if e.freeSpace < length then do
      -- the start of the head enters the hole
      diagDbgAssert (e.heap.usedSize = 0)
      some { e.heap with headBegin := 0, headEnd := length }
    else some e.heap
  let h := { h with tailBegin := 0, tailEnd := length, usedSize := h.usedSize + length }
  if h.headBegin ≥ h.headEnd then do
    diagDbgAssert (h.headBegin = h.headEnd)
    some ⟨{ h with headBegin := 0, headEnd := h.tailEnd }, some 0, e.released⟩
  else some ⟨h, some 0, e.released⟩

variable (h : DiagHeap)

def rtkDiagHeapMallocNormal (length : Nat) : Option MallocResult := do
  diagDbgAssert (h.headEnd = h.tailEnd)
  diagDbgAssert (h.usedSize = h.headEnd - h.headBegin)
  if h.capacity - h.tailEnd ≥ length then
    -- sufficient space at the tail
    let tailEnd := h.tailEnd + length
    some
      { heap := { h with
          tailEnd := tailEnd
          usedSize := h.usedSize + length
          headEnd := if h.headBegin = h.tailBegin then tailEnd else h.headEnd }
        result := some h.tailEnd
        released := [] }
  else
    let e ← evictBlocks getter (h.capacity + 1) h h.headBegin length
    placeAtStart e length

/-- The end of `rtk_diag_heap_malloc` in the wrapped form: the block goes behind the tail, and a
    head without blocks joins the tail. -/
def placeBehindTail (length : Nat) (released : List Block) : Option MallocResult := do
  let result := h.tailEnd
  let h := { h with tailEnd := h.tailEnd + length, usedSize := h.usedSize + length }
  if h.headBegin = 0 then some ⟨{ h with headEnd := h.tailEnd }, some result, released⟩
  else if h.headBegin ≥ h.headEnd then do
    diagDbgAssert (h.headBegin = h.headEnd)
    some ⟨{ h with headBegin := 0, headEnd := h.tailEnd }, some result, released⟩
  else some ⟨h, some result, released⟩

def rtkDiagHeapMalloc (length : Nat) : Option MallocResult :=
  if length > h.capacity then some ⟨h, none, []⟩
  else if h.headBegin = h.tailBegin then rtkDiagHeapMallocNormal getter h length
  else do
    diagDbgAssert (h.tailBegin = 0)
    diagDbgAssert (h.tailEnd > h.tailBegin)
    diagDbgAssert (h.headBegin ≥ h.tailEnd)
    diagDbgAssert (h.headEnd > h.headBegin)
    diagDbgAssert (h.capacity ≥ h.headEnd)
    diagDbgAssert (h.usedSize = (h.tailEnd - h.tailBegin) + (h.headEnd - h.headBegin))
    if h.headBegin - h.tailEnd ≥ length then
      some
        { heap := { h with tailEnd := h.tailEnd + length, usedSize := h.usedSize + length }
          result := some h.tailEnd
          released := [] }
    else
      let e ← evictBlocks getter (h.capacity + 1) h (h.headBegin - h.tailEnd) length
      if e.freeSpace < length then
        -- the head is used up: try the hole behind it
        let freeSpace := e.freeSpace + (e.heap.capacity - e.heap.headEnd)
        let h := { e.heap with headBegin := 0, headEnd := e.heap.tailEnd }
        if freeSpace ≥ length then placeBehindTail h length e.released
        else
          (rtkDiagHeapMallocNormal getter h length).map fun r =>
            { r with released := e.released ++ r.released }
      else placeBehindTail e.heap length e.released

/-- `rtk_diag_heap_free`: the heap, and the length of the block that was freed. -/
def rtkDiagHeapFree : Option (DiagHeap × Nat) :=
  if h.usedSize > 0 then
    let isHeadOverlapTail := h.headBegin = h.tailBegin
    let currentHeadDataLength := getter h.headBegin
    let h := { h with
      usedSize := h.usedSize - currentHeadDataLength
      headBegin := h.headBegin + currentHeadDataLength }
    if h.headBegin ≥ h.headEnd then do
      diagDbgAssert (h.headBegin = h.headEnd)
      let h := if isHeadOverlapTail then { h with tailBegin := 0, tailEnd := 0 } else h
      some ({ h with headBegin := h.tailBegin, headEnd := h.tailEnd }, currentHeadDataLength)
    else if isHeadOverlapTail then
      some ({ h with tailBegin := h.headBegin }, currentHeadDataLength)
    else some (h, currentHeadDataLength)
  else some (h, 0)

/-! ### The two forms -/

structure NormalForm (h : DiagHeap) (live : List Block) : Prop where
  begins : h.headBegin = h.tailBegin
  ends : h.headEnd = h.tailEnd
  bound : h.headEnd ≤ h.capacity
  used : h.usedSize = h.headEnd - h.headBegin
  blocks : Contiguous h.headBegin live h.headEnd

structure WrappedForm (h : DiagHeap) (head tail : List Block) : Prop where
  tailBegin : h.tailBegin = 0
  tailEnd : h.tailEnd > h.tailBegin
  gap : h.headBegin ≥ h.tailEnd
  headEnd : h.headEnd > h.headBegin
  bound : h.capacity ≥ h.headEnd
  used : h.usedSize = (h.tailEnd - h.tailBegin) + (h.headEnd - h.headBegin)
  headBlocks : Contiguous h.headBegin head h.headEnd
  tailBlocks : Contiguous h.tailBegin tail h.tailEnd

inductive Layout (h : DiagHeap) : List Block → Prop
  | normal {live : List Block} (form : NormalForm h live) : Layout h live
  | wrapped {head tail : List Block} (form : WrappedForm h head tail) : Layout h (head ++ tail)

theorem rtkDiagHeapCreate_layout : Layout (rtkDiagHeapCreate capacity) [] :=
  .normal ⟨rfl, rfl, Nat.zero_le _, rfl, rfl⟩

/-! ### Allocation -/

section

variable {h : DiagHeap} {getter : Nat → Nat} {length : Nat}

def Reports (getter : Nat → Nat) (live : List Block) : Prop :=
  ∀ b ∈ live, getter b.offset = b.length

-- Induction on the blocks of the head. The free space and the start of the head grow by
-- the same amount in every round.
theorem evictBlocks_spec {head : List Block} (hblocks : Contiguous h.headBegin head h.headEnd)
    (hgetter : Reports getter head) (hfuel : head.length < fuel)
    (hused : h.headEnd ≤ h.usedSize + h.headBegin) :
    ∃ released kept position, evictBlocks getter fuel h freeSpace length = some ⟨{ h with
            headBegin := position
            usedSize := h.usedSize + h.headBegin - position },
          freeSpace + (position - h.headBegin), released⟩ ∧
      head = released ++ kept ∧ Contiguous position kept h.headEnd ∧ h.headBegin ≤ position ∧
      (length ≤ freeSpace + (position - h.headBegin) ∨ kept = []) := by
  induction head generalizing fuel h freeSpace with
    (obtain ⟨fuel, rfl⟩ := Nat.exists_eq_succ_of_ne_zero (Nat.ne_zero_of_lt hfuel))
  | nil =>
    have hend : h.headBegin = h.headEnd := hblocks
    refine ⟨[], [], h.headBegin, ?_, rfl, hblocks, le_rfl, Or.inr rfl⟩
    rw [evictBlocks, if_neg hend.ge.not_gt, ite_self, Nat.sub_self, Nat.add_sub_cancel]
    rfl
  | cons b rest ih =>
    by_cases henough : freeSpace < length
    · obtain ⟨hoffset, hpos, hrest⟩ := hblocks
      have hlen : getter h.headBegin = b.length :=
        hoffset ▸ hgetter b (.head _)
      have hle := hrest.le
      obtain ⟨released, kept, position, hrun, hsplit, hkept, hposition, hdone⟩ :=
        @ih { h with
            headBegin := h.headBegin + b.length
            usedSize := h.usedSize - b.length } fuel (freeSpace + b.length) hrest
          (fun a ha => hgetter a (.tail _ ha)) (Nat.lt_of_succ_lt_succ hfuel)
          (by simp only; omega)
      simp only at hrun hposition hdone
      refine ⟨b :: released, kept, position, ?_, ?_, hkept, by omega, ?_⟩
      · have hused' : h.usedSize - b.length + (h.headBegin + b.length) - position =
            h.usedSize + h.headBegin - position := by omega
        have hfree : freeSpace + b.length + (position - (h.headBegin + b.length)) =
            freeSpace + (position - h.headBegin) := by omega
        have hb : (⟨h.headBegin, b.length⟩ : Block) = b := by rw [← hoffset]
        rw [evictBlocks, if_pos henough, if_pos (by omega), hlen]
        dsimp only
        rw [hrun, Option.map_some, hused', hfree, hb]
      · rw [hsplit, cons_append]
      · refine hdone.imp_left fun hlength => ?_
        omega
    · refine ⟨[], b :: rest, h.headBegin, ?_, rfl, hblocks, le_rfl, Or.inl (by omega)⟩
      rw [evictBlocks, if_neg henough, Nat.sub_self, Nat.add_sub_cancel]
      rfl

theorem evictBlocks_released (hrun : evictBlocks getter fuel h freeSpace length = some e) :
    e.released = [] ↔ ¬ (freeSpace < length ∧ h.headBegin < h.headEnd) := by
  cases fuel with
  | zero => cases hrun
  | succ fuel =>
    rw [evictBlocks] at hrun
    by_cases hshort : freeSpace < length
    · by_cases hblock : h.headBegin < h.headEnd
      · rw [if_pos hshort, if_pos hblock] at hrun
        obtain ⟨e', _, rfl⟩ := Option.map_eq_some_iff.mp hrun
        exact ⟨fun hnil => absurd hnil (cons_ne_nil _ _), fun h => absurd ⟨hshort, hblock⟩ h⟩
      · rw [if_pos hshort, if_neg hblock] at hrun
        cases hrun
        exact ⟨fun _ h => hblock h.2, fun _ => rfl⟩
    · rw [if_neg hshort] at hrun
      cases hrun
      exact ⟨fun _ h => hshort h.1, fun _ => rfl⟩

def NeedsEviction (h : DiagHeap) (length : Nat) : Prop :=
  if h.headBegin = h.tailBegin then
    h.capacity - h.tailEnd < length ∧ h.headBegin < length ∧ h.headBegin < h.headEnd
  else h.headBegin - h.tailEnd < length
deriving Decidable

def Allocates (h : DiagHeap) (live : List Block) (length : Nat) (r : MallocResult) : Prop :=
  r.heap.capacity = h.capacity ∧
  ∃ offset kept, r.result = some offset ∧ live = r.released ++ kept ∧
    Layout r.heap (kept ++ [⟨offset, length⟩])

structure Emptied (h : DiagHeap) (length : Nat) (e : Evicted) (kept : List Block) : Prop where
  blocks : Contiguous e.heap.headBegin kept e.heap.headEnd
  bound : e.heap.headEnd ≤ e.heap.capacity
  capacity : e.heap.capacity = h.capacity
  enough : length ≤ e.freeSpace ∨ kept = []

theorem placeAtStart_spec (left : Emptied h length e kept) (hfree : e.freeSpace = e.heap.headBegin)
    (hused : e.heap.usedSize = e.heap.headEnd - e.heap.headBegin) (hpos : 0 < length)
    (hfits : length ≤ h.capacity) :
    ∃ r, placeAtStart e length = some r ∧ r.released = e.released ∧
      Allocates h (e.released ++ kept) length r := by
  have hcapacity := left.capacity
  have hbound := left.bound
  unfold placeAtStart
  by_cases hshort : e.freeSpace < length
  · -- the head is used up, and the new block is the only one
    have hkept : kept = [] := left.enough.resolve_left (not_le.mpr hshort)
    have hend : e.heap.headBegin = e.heap.headEnd := by
      have hblocks := left.blocks
      rwa [hkept] at hblocks
    have hzero : e.heap.usedSize = 0 := by omega
    rw [if_pos hshort, diagDbgAssert_of hzero]
    simp only [Option.bind_eq_bind, Option.bind_some]
    rw [if_neg (by omega)]
    refine ⟨_, rfl, rfl, hcapacity, 0, [], rfl, by rw [hkept], .normal ⟨rfl, rfl, ?_, ?_, ?_⟩⟩
    · exact hcapacity ▸ hfits
    · simp only; omega
    · exact ⟨rfl, hpos, zero_add length⟩
  rw [if_neg hshort]
  simp only [Option.bind_eq_bind, Option.bind_some]
  by_cases hempty : e.heap.headBegin ≥ e.heap.headEnd
  · obtain ⟨hend, hkept⟩ := left.blocks.of_ge hempty
    rw [if_pos hempty, diagDbgAssert_of hend]
    refine ⟨_, rfl, rfl, hcapacity, 0, [], rfl, by rw [hkept], .normal ⟨rfl, rfl, ?_, ?_, ?_⟩⟩
    · exact hcapacity ▸ hfits
    · simp only; omega
    · exact ⟨rfl, hpos, zero_add length⟩
  rw [if_neg hempty]
  refine ⟨_, rfl, rfl, hcapacity, 0, kept, rfl, rfl,
    .wrapped ⟨rfl, hpos, ?_, not_le.mp hempty, hbound, ?_, left.blocks, ?_⟩⟩
  · simp only; omega
  · simp only; omega
  · exact ⟨rfl, hpos, zero_add length⟩

theorem rtkDiagHeapMallocNormal_spec (form : NormalForm h live) (hgetter : Reports getter live)
    (hpos : 0 < length) (hfits : length ≤ h.capacity) :
    ∃ r, rtkDiagHeapMallocNormal getter h length = some r ∧
      (r.released = [] ↔ ¬ (h.capacity - h.tailEnd < length ∧ h.headBegin < length ∧
        h.headBegin < h.headEnd)) ∧
      Allocates h live length r := by
  have hbegins := form.begins
  have hends := form.ends
  have hbound := form.bound
  have hused := form.used
  have hle := form.blocks.le
  unfold rtkDiagHeapMallocNormal
  rw [diagDbgAssert_of hends, diagDbgAssert_of hused]
  simp only [Option.bind_eq_bind]
  by_cases hroom : h.capacity - h.tailEnd ≥ length
  · rw [if_pos hroom, if_pos hbegins]
    refine ⟨_, rfl, ?_, rfl, h.tailEnd, live, rfl, rfl, .normal ⟨hbegins, rfl, ?_, ?_, ?_⟩⟩
    · exact ⟨fun _ hfull => hfull.1.not_ge hroom, fun _ => rfl⟩
    · simp only; omega
    · simp only; omega
    · exact (hends ▸ form.blocks).append (Contiguous.single hpos)
  rw [if_neg hroom]
  have hfuel : live.length < h.capacity + 1 := by
    have hlength := form.blocks.length_le
    omega
  obtain ⟨released, kept, position, hrun, hsplit, hkept, hposition, hdone⟩ :=
    evictBlocks_spec form.blocks hgetter hfuel (by omega)
  have hreleased := evictBlocks_released hrun
  rw [hrun, hsplit]
  obtain ⟨r, hplace, hr, halloc⟩ := placeAtStart_spec (e := ⟨{ h with
      headBegin := position
      usedSize := h.usedSize + h.headBegin - position }, _, released⟩)
    ⟨hkept, hbound, rfl, hdone⟩ (by simp only; omega) (by simp only; omega) hpos hfits
  refine ⟨r, hplace, ?_, halloc⟩
  rw [hr, hreleased]
  exact not_congr ⟨fun hfull => ⟨not_le.mp hroom, hfull⟩, fun hfull => hfull.2⟩

theorem placeBehindTail_gap {kept tail : List Block} (left : Emptied h length e kept)
    (htail : Contiguous 0 tail e.heap.tailEnd) (hbegin : e.heap.tailBegin = 0)
    (htailPos : 0 < e.heap.tailEnd) (hgap : e.heap.tailEnd + length ≤ e.heap.headBegin)
    (hused : e.heap.usedSize = e.heap.tailEnd + (e.heap.headEnd - e.heap.headBegin))
    (hpos : 0 < length) :
    ∃ r, placeBehindTail e.heap length e.released = some r ∧ r.released = e.released ∧
      Allocates h (e.released ++ kept ++ tail) length r := by
  have hcapacity := left.capacity
  have hbound := left.bound
  have hsingle := htail.append (Contiguous.single hpos)
  unfold placeBehindTail
  simp only
  rw [if_neg (by omega)]
  by_cases hempty : e.heap.headBegin ≥ e.heap.headEnd
  · obtain ⟨hend, hkept⟩ := left.blocks.of_ge hempty
    rw [if_pos hempty, diagDbgAssert_of hend]
    refine ⟨_, rfl, rfl, hcapacity, e.heap.tailEnd, tail, rfl, by rw [hkept, append_nil],
      .normal ⟨hbegin.symm, rfl, ?_, ?_, hsingle⟩⟩
    · simp only; omega
    · simp only; omega
  rw [if_neg hempty]
  refine ⟨_, rfl, rfl, hcapacity, e.heap.tailEnd, kept ++ tail, rfl, append_assoc _ _ _, ?_⟩
  rw [append_assoc]
  refine .wrapped ⟨hbegin, ?_, hgap, not_le.mp hempty, hbound, ?_, left.blocks, ?_⟩
  · simp only; omega
  · simp only; omega
  · exact hbegin.symm ▸ hsingle

theorem placeBehindTail_hole {tail : List Block} (form : NormalForm h tail)
    (hbegin : h.headBegin = 0) (hroom : h.tailEnd + length ≤ h.capacity) (hpos : 0 < length) :
    ∃ r, placeBehindTail h length released = some r ∧ r.released = released ∧
      Allocates h (released ++ tail) length r := by
  have hused := form.used
  have hends := form.ends
  have hblocks := form.blocks
  unfold placeBehindTail
  rw [if_pos hbegin]
  refine ⟨_, rfl, rfl, rfl, h.tailEnd, tail, rfl, rfl, .normal ⟨form.begins, rfl, hroom, ?_, ?_⟩⟩
  · simp only; omega
  · exact (hends ▸ hblocks).append (Contiguous.single hpos)

theorem Allocates.after {h h' : DiagHeap} {r : MallocResult} (hr : Allocates h live length r)
    (hcapacity : h.capacity = h'.capacity) (released : List Block) :
    Allocates h' (released ++ live) length { r with released := released ++ r.released } := by
  obtain ⟨hcap, offset, kept, hresult, hlive, hlayout⟩ := hr
  refine ⟨hcap.trans hcapacity, offset, kept, hresult, ?_, hlayout⟩
  rw [hlive, append_assoc]

theorem rtkDiagHeapMalloc_wrapped {head tail : List Block} (form : WrappedForm h head tail)
    (hgetter : Reports getter (head ++ tail)) (hpos : 0 < length) (hfits : length ≤ h.capacity) :
    ∃ r, rtkDiagHeapMalloc getter h length = some r ∧
      (r.released = [] ↔ ¬ h.headBegin - h.tailEnd < length) ∧
      Allocates h (head ++ tail) length r := by
  obtain ⟨hbegin, htailPos, hgap, hheadPos, hbound, hused, hheadBlocks, htailBlocks⟩ := form
  have htail : Contiguous 0 tail h.tailEnd := hbegin ▸ htailBlocks
  unfold rtkDiagHeapMalloc
  rw [if_neg (by omega), if_neg (by omega), diagDbgAssert_of hbegin, diagDbgAssert_of htailPos,
    diagDbgAssert_of hgap, diagDbgAssert_of hheadPos, diagDbgAssert_of hbound,
    diagDbgAssert_of hused]
  simp only [Option.bind_eq_bind, Option.bind_some]
  by_cases hroom : h.headBegin - h.tailEnd ≥ length
  · rw [if_pos hroom]
    refine ⟨_, rfl, ⟨fun _ hfull => hfull.not_ge hroom, fun _ => rfl⟩, rfl, h.tailEnd,
      head ++ tail, rfl, rfl, ?_⟩
    rw [append_assoc]
    refine .wrapped ⟨hbegin, ?_, ?_, hheadPos, hbound, ?_, hheadBlocks, ?_⟩
    · simp only; omega
    · simp only; omega
    · simp only; omega
    · exact htailBlocks.append (Contiguous.single hpos)
  rw [if_neg hroom]
  have hfuel : head.length < h.capacity + 1 := by
    have hlength := hheadBlocks.length_le
    omega
  obtain ⟨released, kept, position, hrun, hsplit, hkept, hposition, hdone⟩ :=
    evictBlocks_spec hheadBlocks
      (fun b hb => hgetter b (mem_append_left _ hb)) hfuel (by omega)
  have hkeptLe := hkept.le
  -- the first block of the head is among those that are given up
  have hsome : released ≠ [] := fun hnil =>
    (evictBlocks_released hrun).mp hnil ⟨not_le.mp hroom, hheadPos⟩
  have hiff : ∀ {blocks : List Block}, blocks ≠ [] →
      (blocks = [] ↔ ¬ h.headBegin - h.tailEnd < length) := fun hne =>
    ⟨fun hnil => absurd hnil hne, fun hroom' => absurd (not_lt.mp hroom') hroom⟩
  rw [hrun, Option.bind_some, hsplit]
  by_cases hshort : h.headBegin - h.tailEnd + (position - h.headBegin) < length
  · -- every block of the head is gone
    have hnil : kept = [] := hdone.resolve_left (not_le.mpr hshort)
    have hend : position = h.headEnd := by rwa [hnil] at hkept
    have hnormal : NormalForm { h with
        headBegin := 0
        headEnd := h.tailEnd
        usedSize := h.usedSize + h.headBegin - position } tail :=
      ⟨hbegin.symm, rfl, by simp only; omega, by simp only; omega, htail⟩
    rw [if_pos hshort, hnil, append_nil]
    by_cases hhole : h.headBegin - h.tailEnd + (position - h.headBegin) +
        (h.capacity - h.headEnd) ≥ length
    · rw [if_pos hhole]
      obtain ⟨r, hr, hreleased, halloc⟩ :=
        placeBehindTail_hole hnormal rfl (by simp only; omega) hpos
      exact ⟨r, hr, hreleased ▸ hiff hsome, halloc⟩
    rw [if_neg hhole]
    obtain ⟨r, hr, _, halloc⟩ := rtkDiagHeapMallocNormal_spec hnormal
      (fun b hb => hgetter b (mem_append_right _ hb)) hpos hfits
    rw [hr]
    exact ⟨_, rfl, hiff (append_ne_nil_of_left_ne_nil hsome _), halloc.after rfl released⟩
  · rw [if_neg hshort]
    obtain ⟨r, hr, hreleased, halloc⟩ := placeBehindTail_gap (e := ⟨{ h with
        headBegin := position
        usedSize := h.usedSize + h.headBegin - position }, _, released⟩)
      ⟨hkept, hbound, rfl, hdone⟩ htail hbegin (by simp only; omega) (by simp only; omega)
      (by simp only; omega) hpos
    exact ⟨r, hr, hreleased ▸ hiff hsome, halloc⟩

theorem rtkDiagHeapMalloc_spec (layout : Layout h live) (hgetter : Reports getter live)
    (hpos : 0 < length) (hfits : length ≤ h.capacity) :
    ∃ r, rtkDiagHeapMalloc getter h length = some r ∧
      (r.released = [] ↔ ¬ NeedsEviction h length) ∧ Allocates h live length r := by
  unfold NeedsEviction
  cases layout with
  | normal form =>
    rw [rtkDiagHeapMalloc, if_neg (not_lt.mpr hfits), if_pos form.begins, if_pos form.begins]
    exact rtkDiagHeapMallocNormal_spec form hgetter hpos hfits
  | wrapped form =>
    have hapart : h.headBegin ≠ h.tailBegin :=
      (form.tailEnd.trans_le form.gap).ne'
    rw [if_neg hapart]
    exact rtkDiagHeapMalloc_wrapped form hgetter hpos hfits

/-! ### Freeing -/

def Frees (h : DiagHeap) (b : Block) (rest : List Block) (r : DiagHeap × Nat) : Prop :=
  r.2 = b.length ∧ b.offset = h.headBegin ∧ 0 < b.length ∧ r.1.capacity = h.capacity ∧
    Layout r.1 rest

theorem rtkDiagHeapFree_normal (form : NormalForm h (b :: rest))
    (hgetter : getter b.offset = b.length) :
    ∃ r, rtkDiagHeapFree getter h = some r ∧ Frees h b rest r := by
  obtain ⟨hbegins, hends, hbound, hused, hoffset, hpos, hrest⟩ := form
  have hle := hrest.le
  rw [hoffset] at hgetter
  rw [rtkDiagHeapFree, if_pos (by omega)]
  simp only [hgetter]
  by_cases hempty : h.headBegin + b.length ≥ h.headEnd
  · obtain ⟨hend, hnil⟩ := hrest.of_ge hempty
    rw [if_pos hempty, diagDbgAssert_of hend, if_pos hbegins]
    refine ⟨_, rfl, rfl, hoffset, hpos, rfl, ?_⟩
    rw [hnil]
    exact .normal ⟨rfl, rfl, Nat.zero_le _, by simp only; omega, rfl⟩
  · rw [if_neg hempty, if_pos hbegins]
    exact ⟨_, rfl, rfl, hoffset, hpos, rfl,
      .normal ⟨rfl, hends, hbound, by simp only; omega, hrest⟩⟩

theorem rtkDiagHeapFree_wrapped {head tail : List Block} (form : WrappedForm h (b :: head) tail)
    (hgetter : getter b.offset = b.length) :
    ∃ r, rtkDiagHeapFree getter h = some r ∧ Frees h b (head ++ tail) r := by
  obtain ⟨hbegin, htailPos, hgap, hheadPos, hbound, hused, ⟨hoffset, hpos, hrest⟩, htail⟩ := form
  have hapart : h.headBegin ≠ h.tailBegin := by omega
  rw [hoffset] at hgetter
  rw [rtkDiagHeapFree, if_pos (by omega)]
  simp only [hgetter]
  by_cases hempty : h.headBegin + b.length ≥ h.headEnd
  · obtain ⟨hend, hnil⟩ := hrest.of_ge hempty
    rw [if_pos hempty, diagDbgAssert_of hend, if_neg hapart]
    refine ⟨_, rfl, rfl, hoffset, hpos, rfl, ?_⟩
    rw [hnil]
    exact .normal ⟨rfl, rfl, by simp only; omega, by simp only; omega, htail⟩
  rw [if_neg hempty, if_neg hapart]
  refine ⟨_, rfl, rfl, hoffset, hpos, rfl,
    .wrapped ⟨hbegin, htailPos, ?_, ?_, hbound, ?_, hrest, htail⟩⟩
  · simp only; omega
  · exact not_le.mp hempty
  · simp only; omega

theorem rtkDiagHeapFree_cons (layout : Layout h (b :: rest))
    (hgetter : getter b.offset = b.length) :
    ∃ r, rtkDiagHeapFree getter h = some r ∧ Frees h b rest r := by
  generalize hlive : b :: rest = live at layout
  cases layout with
  | normal form =>
    subst hlive
    exact rtkDiagHeapFree_normal form hgetter
  | @wrapped head tail form =>
    cases head with
    | nil => exact absurd form.headBlocks form.headEnd.ne
    | cons a head =>
      obtain ⟨rfl, rfl⟩ := hlive
      exact rtkDiagHeapFree_wrapped form hgetter

/-! ### Blocks of a heap in form -/

theorem Layout.inside (layout : Layout h live) :
    ∀ b ∈ live, 0 < b.length ∧ b.offset + b.length ≤ h.capacity := by
  have hinside : ∀ {start stop : Nat} {blocks : List Block}, Contiguous start blocks stop →
      stop ≤ h.capacity → ∀ b ∈ blocks, 0 < b.length ∧ b.offset + b.length ≤ h.capacity :=
    fun hblocks hle b hb => ⟨(hblocks.mem hb).2.1, (hblocks.mem hb).2.2.trans hle⟩
  cases layout with
  | normal form => exact hinside form.blocks form.bound
  | wrapped form =>
    exact forall_mem_append.mpr ⟨hinside form.headBlocks form.bound,
      hinside form.tailBlocks (form.gap.trans (form.headEnd.le.trans form.bound))⟩

theorem Layout.apart (layout : Layout h live) : live.Pairwise Block.Apart := by
  cases layout with
  | normal form => exact form.blocks.apart
  | wrapped form =>
    refine pairwise_append.mpr ⟨form.headBlocks.apart, form.tailBlocks.apart, ?_⟩
    intro a ha b hb
    exact Or.inr ((form.tailBlocks.mem hb).2.2.trans (form.gap.trans (form.headBlocks.mem ha).1))

theorem Layout.usedSize (layout : Layout h live) : h.usedSize = (live.map Block.length).sum := by
  cases layout with
  | normal form => rw [form.used, form.blocks.stop_eq, Nat.add_sub_cancel_left]
  | wrapped form =>
    rw [form.used, form.headBlocks.stop_eq, form.tailBlocks.stop_eq, Nat.add_sub_cancel_left,
      Nat.add_sub_cancel_left, map_append, sum_append, add_comm]

theorem rtkDiagHeapFree_nil (layout : Layout h []) : rtkDiagHeapFree getter h = some (h, 0) := by
  have hunused : h.usedSize = 0 := layout.usedSize
  rw [rtkDiagHeapFree, if_neg (by omega)]

theorem Layout.offset_notMem (layout : Layout h (kept ++ [b])) :
    ∀ a ∈ kept, a.offset ≠ b.offset := by
  intro a ha heq
  have hapart := (pairwise_append.mp layout.apart).2.2 a ha b (.head _)
  have hapos := (layout.inside a (mem_append_left _ ha)).1
  have hbpos := (layout.inside b (mem_append_right _ (.head _))).1
  unfold Block.Apart at hapart
  omega

end

/-! ### Runs -/

/-- A call, with a length that the pool can hold. -/
inductive HeapOp (capacity : Nat) where
  | malloc (length : Nat) (fits : 0 < length ∧ length ≤ capacity)
  | free

/-- The heap, the lengths that its owner wrote into the blocks, and what was allocated
    and released so far. -/
structure HeapRun where
  heap : DiagHeap
  getter : Nat → Nat
  allocated : List Block
  released : List Block

def heapRunInit : HeapRun := ⟨rtkDiagHeapCreate capacity, fun _ => 0, [], []⟩

def heapStep {capacity : Nat} (s : HeapRun) : HeapOp capacity → Option HeapRun
  | .malloc length _ => do
    let r ← rtkDiagHeapMalloc s.getter s.heap length
    let offset ← r.result
    some ⟨r.heap, Function.update s.getter offset length, s.allocated ++ [⟨offset, length⟩],
      s.released ++ r.released⟩
  | .free => do
    let (heap, length) ← rtkDiagHeapFree s.getter s.heap
    -- an empty heap has nothing to free
    let released := if length = 0 then [] else [⟨s.heap.headBegin, length⟩]
    some ⟨heap, s.getter, s.allocated, s.released ++ released⟩

/-- The lengths that a list of calls asks for. -/
def requested {capacity : Nat} (ops : List (HeapOp capacity)) : List Nat :=
  ops.filterMap fun op => match op with
    | .malloc length _ => some length
    | .free => none

def AssertedForm : Prop :=
  (h.headBegin = h.tailBegin ∧ h.headEnd = h.tailEnd ∧ h.headBegin ≤ h.headEnd ∧
    h.headEnd ≤ h.capacity ∧ h.usedSize = h.headEnd - h.headBegin) ∨
  (h.tailBegin = 0 ∧ h.tailEnd > h.tailBegin ∧ h.headBegin ≥ h.tailEnd ∧
    h.headEnd > h.headBegin ∧ h.capacity ≥ h.headEnd ∧
    h.usedSize = (h.tailEnd - h.tailBegin) + (h.headEnd - h.headBegin))

def HeapRun.live (s : HeapRun) : List Block := s.allocated.drop s.released.length

/-- What holds between the calls of a run that asked for the lengths `requests`. -/
structure HeapSafe (capacity : Nat) (requests : List Nat) (s : HeapRun) : Prop where
  form : AssertedForm s.heap
  poolSize : s.heap.capacity = capacity
  used : s.heap.usedSize = (s.live.map Block.length).sum
  apart : s.live.Pairwise Block.Apart
  inside : ∀ b ∈ s.live, b.offset + b.length ≤ capacity
  granted : s.allocated.map Block.length = requests
  fifo : s.released ++ s.live = s.allocated

theorem Layout.assertedForm {h : DiagHeap} {live : List Block} (layout : Layout h live) :
    AssertedForm h := by
  cases layout with
  | normal form =>
    exact Or.inl ⟨form.begins, form.ends, form.blocks.le, form.bound, form.used⟩
  | wrapped form =>
    exact Or.inr ⟨form.tailBegin, form.tailEnd, form.gap, form.headEnd, form.bound, form.used⟩

structure HeapInv (capacity : Nat) (requests : List Nat) (live : List Block) (s : HeapRun) :
    Prop where
  layout : Layout s.heap live
  poolSize : s.heap.capacity = capacity
  reports : Reports s.getter live
  granted : s.allocated.map Block.length = requests
  fifo : s.allocated = s.released ++ live

section Run

variable {capacity : Nat}

theorem HeapInv.safe (inv : HeapInv capacity requests live s) : HeapSafe capacity requests s := by
  have hlive : s.live = live := by
    rw [HeapRun.live, inv.fifo, drop_left]
  refine ⟨inv.layout.assertedForm, inv.poolSize, ?_, ?_, ?_, inv.granted, ?_⟩
  · rw [hlive]
    exact inv.layout.usedSize
  · rw [hlive]
    exact inv.layout.apart
  · rw [hlive, ← inv.poolSize]
    exact fun b hb => (inv.layout.inside b hb).2
  · rw [hlive, inv.fifo]

theorem HeapInv.malloc {length : Nat} (inv : HeapInv capacity requests live s)
    (fits : 0 < length ∧ length ≤ capacity) :
    ∃ s' live', heapStep s (.malloc length fits) = some s' ∧
      HeapInv capacity (requests ++ [length]) live' s' := by
  obtain ⟨r, hr, _, hcapacity, offset, kept, hresult, hlive, hlayout⟩ :=
    rtkDiagHeapMalloc_spec inv.layout inv.reports fits.1 (inv.poolSize.symm ▸ fits.2)
  have hstep : heapStep s (.malloc length fits) =
      some ⟨r.heap, Function.update s.getter offset length, s.allocated ++ [⟨offset, length⟩],
        s.released ++ r.released⟩ := by
    simp only [heapStep, hr, hresult, Option.bind_eq_bind, Option.bind_some]
  refine ⟨_, kept ++ [⟨offset, length⟩], hstep, hlayout, hcapacity.trans inv.poolSize, ?_, ?_, ?_⟩
  · -- the owner writes the new block only
    refine forall_mem_append.mpr
      ⟨fun b hb => ?_, forall_mem_singleton.mpr (Function.update_self _ _ _)⟩
    exact (Function.update_of_ne (hlayout.offset_notMem b hb) _ _).trans
      (inv.reports b (hlive ▸ mem_append_right _ hb))
  · rw [map_append, inv.granted]
    rfl
  · rw [inv.fifo, hlive, append_assoc, append_assoc, append_assoc]

theorem HeapInv.free (inv : HeapInv capacity requests live s) :
    ∃ s' live', heapStep s (.free : HeapOp capacity) = some s' ∧
      HeapInv capacity requests live' s' := by
  cases live with
  | nil =>
    have hstep : heapStep s (.free : HeapOp capacity) = some s := by
      simp only [heapStep, rtkDiagHeapFree_nil inv.layout, Option.bind_eq_bind, Option.bind_some,
        if_true, append_nil]
    exact ⟨s, [], hstep, inv⟩
  | cons b rest =>
    obtain ⟨⟨heap, length⟩, hr, hlength, hoffset, hpos, hcapacity, hlayout⟩ :=
      rtkDiagHeapFree_cons inv.layout (inv.reports b (.head _))
    have hlen : length = b.length := hlength
    have hblock : (⟨s.heap.headBegin, length⟩ : Block) = b := by rw [← hoffset, hlen]
    have hne : length ≠ 0 := hlen ▸ ne_of_gt hpos
    have hstep : heapStep s (.free : HeapOp capacity) =
        some ⟨heap, s.getter, s.allocated, s.released ++ [b]⟩ := by
      simp only [heapStep, hr, Option.bind_eq_bind, Option.bind_some, if_neg hne, hblock]
    refine ⟨_, rest, hstep, hlayout, hcapacity.trans inv.poolSize, ?_, inv.granted, ?_⟩
    · exact fun a ha => inv.reports a (.tail _ ha)
    · rw [inv.fifo, append_assoc, singleton_append]

theorem heapRun_inv (ops : List (HeapOp capacity)) (inv : HeapInv capacity requests live s) :
    ∃ s' live', ops.foldlM heapStep s = some s' ∧
      HeapInv capacity (requests ++ requested ops) live' s' := by
  induction ops generalizing requests live s with
  | nil => exact ⟨s, live, rfl, (append_nil requests).symm ▸ inv⟩
  | cons op rest ih =>
    cases op with
    | malloc length fits =>
      obtain ⟨s₁, live₁, hstep, inv₁⟩ := inv.malloc fits
      obtain ⟨s', live', hrest, inv'⟩ := ih inv₁
      refine ⟨s', live', ?_, ?_⟩
      · rw [foldlM_cons, hstep]
        exact hrest
      · rwa [append_assoc] at inv'
    | free =>
      obtain ⟨s₁, live₁, hstep, inv₁⟩ := inv.free
      obtain ⟨s', live', hrest, inv'⟩ := ih inv₁
      refine ⟨s', live', ?_, inv'⟩
      rw [foldlM_cons, hstep]
      exact hrest

end Run

end AmebaRtos.Diagnose
