import Mathlib.Data.Nat.ModEq
import Mathlib.Data.PNat.Defs
import Mathlib.Data.List.DropRight

/-!
# The ring array

`ameba_diagnose_ring_array.c`: a queue of elements of one size in an array whose capacity
is fixed when it is created. A new element that finds the array full takes the place of
the oldest one.
-/

namespace AmebaRtos.Diagnose

open List

/-- `RtkDiagRingArrayHandler_t`, with its elements by slot. -/
structure RingArray (α : Type*) where
  capacity : Nat
  head : Nat
  tail : Nat
  count : Nat
  data : Nat → Option α

namespace RingArray

variable {α : Type*}

/-- `rtk_diag_ring_array_create`. -/
def create (capacity : Nat) : RingArray α := ⟨capacity, 0, 0, 0, fun _ => none⟩

/-- `rtk_diag_ring_array_emplace_back`. -/
def emplaceBack (r : RingArray α) (x : α) : RingArray α where
  capacity := r.capacity
  head := if r.count = r.capacity then (r.head + 1) % r.capacity else r.head
  count := if r.count = r.capacity then r.count else r.count + 1
  data := Function.update r.data r.tail (some x)
  tail := (r.tail + 1) % r.capacity

/-- `rtk_diag_ring_array_at`, which `rtk_diag_ring_array_view` repeats. -/
def at? (r : RingArray α) (index : Nat) : Option α :=
  if index ≥ r.count then none else r.data ((r.head + index) % r.capacity)

/-- The elements, from the oldest to the newest. -/
def toList (r : RingArray α) : List α := (List.range r.count).filterMap r.at?

/-- `rtk_diag_ring_array_pop`. -/
def pop (r : RingArray α) : Option α × RingArray α :=
  if r.count = 0 then (none, r)
  else (r.data r.head, { r with head := (r.head + 1) % r.capacity, count := r.count - 1 })

structure Holds (r : RingArray α) (l : List α) : Prop where
  count : r.count = l.length
  bound : l.length ≤ r.capacity
  head : 0 < r.capacity → r.head < r.capacity
  tail : r.tail = (r.head + r.count) % r.capacity
  slots : ∀ i < l.length, r.data ((r.head + i) % r.capacity) = l[i]?

theorem create_holds (capacity : Nat) : (create capacity : RingArray α).Holds [] where
  count := rfl
  bound := Nat.zero_le _
  head := id
  tail := (Nat.zero_mod _).symm
  slots _ hi := absurd hi (Nat.not_lt_zero _)

variable {r : RingArray α}

theorem Holds.emplaceBack (h : r.Holds l) (hroom : r.count < r.capacity) (x : α) :
    (r.emplaceBack x).Holds (l ++ [x]) := by
  have hne : r.count ≠ r.capacity := hroom.ne
  have hlen : l.length < r.capacity := h.count ▸ hroom
  have hhead : (r.emplaceBack x).head = r.head := if_neg hne
  have hcount : (r.emplaceBack x).count = r.count + 1 := if_neg hne
  refine ⟨?_, ?_, ?_, ?_, ?_⟩
  · rw [hcount, h.count, length_append, length_singleton]
  · rw [length_append]
    exact hlen
  · rw [hhead]
    exact h.head
  · rw [hhead, hcount]
    change (r.tail + 1) % r.capacity = (r.head + (r.count + 1)) % r.capacity
    rw [h.tail, Nat.mod_add_mod, add_assoc]
  · intro i hi
    rw [hhead]
    change Function.update r.data r.tail (some x) ((r.head + i) % r.capacity) = _
    rw [length_append, length_singleton] at hi
    rcases Nat.lt_succ_iff_lt_or_eq.mp hi with hold | rfl
    · have hslot : (r.head + i) % r.capacity ≠ r.tail := by
        rw [h.tail, h.count]
        exact fun heq =>
          hold.ne ((Nat.ModEq.add_left_cancel' _ heq).eq_of_lt_of_lt (hold.trans hlen) hlen)
      rw [Function.update_of_ne hslot, h.slots i hold, List.getElem?_append_left hold]
    · have hslot : (r.head + l.length) % r.capacity = r.tail := by rw [h.tail, h.count]
      rw [hslot, Function.update_self, List.getElem?_append_right le_rfl, Nat.sub_self]
      rfl

theorem Holds.at? (h : r.Holds l) (index : Nat) : r.at? index = l[index]? := by
  rw [RingArray.at?, h.count]
  split
  · rename_i hover
    exact (List.getElem?_eq_none hover).symm
  · rename_i hlt
    exact h.slots index (not_le.mp hlt)

theorem filterMap_range_getElem? :
    (List.range l.length).filterMap (fun index => l[index]?) = l := by
  induction l with
  | nil => rfl
  | cons x l ih =>
    rw [length_cons, range_succ_eq_map, filterMap_cons, filterMap_map]
    exact congrArg (x :: ·) ih

theorem Holds.toList (h : r.Holds l) : r.toList = l := by
  have hat : r.at? = fun index => l[index]? := funext h.at?
  rw [RingArray.toList, hat, h.count]
  exact filterMap_range_getElem?

theorem Holds.pop_fst (h : r.Holds (x :: l)) : r.pop.1 = some x := by
  have hcount : r.count ≠ 0 := h.count ▸ Nat.succ_ne_zero _
  have hhead : r.head % r.capacity = r.head :=
    Nat.mod_eq_of_lt (h.head ((Nat.succ_pos _).trans_le h.bound))
  have hslot := h.slots 0 (Nat.zero_lt_succ _)
  rw [add_zero, hhead] at hslot
  rw [pop, if_neg hcount]
  exact hslot

theorem Holds.pop_snd (h : r.Holds (x :: l)) : r.pop.2.Holds l := by
  have hcount : r.count ≠ 0 := h.count ▸ Nat.succ_ne_zero _
  have hlen : r.count - 1 = l.length := congrArg (· - 1) h.count
  rw [pop, if_neg hcount]
  refine ⟨hlen, (Nat.le_succ _).trans h.bound, fun hpos => Nat.mod_lt _ hpos, ?_, ?_⟩
  · change r.tail = ((r.head + 1) % r.capacity + (r.count - 1)) % r.capacity
    rw [h.tail, Nat.mod_add_mod, add_assoc, Nat.add_sub_cancel' (Nat.pos_of_ne_zero hcount)]
  · intro i hi
    have hslot := h.slots (i + 1) (Nat.succ_lt_succ hi)
    rwa [Nat.mod_add_mod, add_right_comm]

theorem pop_capacity : r.pop.2.capacity = r.capacity := by
  unfold pop
  split
  · rfl
  · rfl

/-- `rtk_diag_ring_array_clear`. -/
def clear (r : RingArray α) : RingArray α := { r with head := 0, tail := 0, count := 0 }

/-! ### Runs -/

inductive Op (α : Type*) where
  | emplaceBack (x : α)
  | pop
  | clear

def step (r : RingArray α) : Op α → RingArray α
  | .emplaceBack x => r.emplaceBack x
  | .pop => r.pop.2
  | .clear => r.clear

/-- A queue of at most `capacity` elements, in which the oldest makes room for a new one. -/
def queueStep (capacity : Nat) (l : List α) : Op α → List α
  | .emplaceBack x => (if l.length = capacity then l.tail else l) ++ [x]
  | .pop => l.tail
  | .clear => []

/-- What the queue keeps of all elements ever added. -/
theorem queueStep_rtake (l : List α) (n : Nat) :
    queueStep (n + 1) (l.rtake (n + 1)) (.emplaceBack x) = (l ++ [x]).rtake (n + 1) := by
  rw [rtake_concat_succ, queueStep]
  congr 1
  simp only [rtake_eq_reverse_take_reverse, length_reverse, length_take]
  split
  · rename_i hfull
    rw [tail_reverse, dropLast_eq_take, take_take, length_take, length_reverse, hfull,
      Nat.add_sub_cancel, Nat.min_eq_left (Nat.le_succ n)]
  · rw [take_of_length_le (by rw [length_reverse]; omega),
      take_of_length_le (by rw [length_reverse]; omega)]

theorem Holds.step (h : r.Holds l) (hpos : 0 < r.capacity) (op : Op α) :
    (r.step op).Holds (queueStep r.capacity l op) ∧ (r.step op).capacity = r.capacity := by
  cases op with
  | clear => exact ⟨⟨rfl, Nat.zero_le _, id, (Nat.zero_mod _).symm, nofun⟩, rfl⟩
  | pop =>
    refine ⟨?_, pop_capacity⟩
    rcases l with _ | ⟨x, l⟩
    · have hcount : r.count = 0 := h.count
      rw [RingArray.step, RingArray.pop, if_pos hcount]
      exact h
    · exact h.pop_snd
  | emplaceBack x =>
    refine ⟨?_, rfl⟩
    by_cases hfull : l.length = r.capacity
    · obtain ⟨y, l, rfl⟩ := exists_cons_of_length_pos (hfull ▸ hpos)
      -- on a full array it is as if the oldest element were popped first
      have hpop : r.emplaceBack x = r.pop.2.emplaceBack x := by
        have hcount : r.count = r.capacity := h.count.trans hfull
        have hless : r.capacity - 1 ≠ r.capacity := by omega
        simp only [RingArray.emplaceBack, RingArray.pop, hcount, if_true, if_neg hpos.ne',
          if_neg hless, Nat.sub_add_cancel hpos]
      have hroom : r.pop.2.count < r.pop.2.capacity := by
        rw [h.pop_snd.count, pop_capacity, ← hfull]
        exact Nat.lt_succ_self _
      rw [RingArray.step, hpop, queueStep, if_pos hfull]
      exact h.pop_snd.emplaceBack hroom x
    · rw [queueStep, if_neg hfull]
      exact h.emplaceBack (h.count ▸ lt_of_le_of_ne h.bound hfull) x

/-- **A ring array is a queue** in which the oldest element makes room for a new one: after any
    calls, it lists and pops what the queue holds. -/
theorem ring_array_queue (capacity : ℕ+) (ops : List (Op α)) :
    let r := ops.foldl step (create capacity)
    let l := ops.foldl (queueStep capacity) []
    r.toList = l ∧ (∀ index, r.at? index = l[index]?) ∧ r.pop.1 = l.head? := by
  intro r l
  have hrun : ∀ (r : RingArray α) l, r.Holds l → r.capacity = capacity →
      (ops.foldl step r).Holds (ops.foldl (queueStep capacity) l) := by
    induction ops with
    | nil => exact fun _ _ h _ => h
    | cons op ops ih =>
      intro r l h hcapacity
      obtain ⟨hstep, hsame⟩ := h.step (hcapacity ▸ capacity.pos) op
      rw [hcapacity] at hstep hsame
      exact ih _ _ hstep hsame
  have h : r.Holds l := hrun _ [] (create_holds capacity) rfl
  refine ⟨h.toList, h.at?, ?_⟩
  generalize l = l at h ⊢
  rcases l with _ | ⟨x, rest⟩
  · have hcount : r.count = 0 := h.count
    rw [pop, if_pos hcount]
    rfl
  · exact h.pop_fst

end RingArray

end AmebaRtos.Diagnose
