import Mathlib.Data.List.Infix

/-!
# Runs of a stream

A stream of items is divided into runs: a run goes on as long as the items have the same key,
and an item may also end its run. `done` are the complete runs and `cur` is the run that is
still open.
-/

namespace AmebaRtos.Lib

structure Segment (α : Type*) where
  done : List (List α)
  cur : List α

namespace Segment

section Runs

variable {α κ : Type*} [DecidableEq κ] (key : α → κ) (ends : α → Bool)

def empty : Segment α := ⟨[], []⟩

def Breaks (seg : Segment α) (a : α) : Prop := ∃ b ∈ seg.cur.getLast?, key b ≠ key a

instance (seg : Segment α) (a : α) : Decidable (seg.Breaks key a) :=
  match h : seg.cur.getLast? with
  | none => isFalse (by simp [Breaks, h])
  | some b => decidable_of_iff (key b ≠ key a) (by simp [Breaks, h])

def run (seg : Segment α) (a : α) : List α :=
  if seg.Breaks key a then [a] else seg.cur ++ [a]

def closed (seg : Segment α) (a : α) : List (List α) :=
  if seg.Breaks key a then seg.done ++ [seg.cur] else seg.done

def add (seg : Segment α) (a : α) : Segment α :=
  if ends a then ⟨seg.closed key a ++ [seg.run key a], []⟩
  else ⟨seg.closed key a, seg.run key a⟩

def addAll (seg : Segment α) (items : List α) : Segment α := items.foldl (add key ends) seg

variable {key ends} {seg : Segment α}

theorem run_of_breaks (h : seg.Breaks key a) : seg.run key a = [a] := if_pos h

theorem run_of_not_breaks (h : ¬ seg.Breaks key a) : seg.run key a = seg.cur ++ [a] := if_neg h

theorem closed_of_breaks (h : seg.Breaks key a) : seg.closed key a = seg.done ++ [seg.cur] :=
  if_pos h

theorem closed_of_not_breaks (h : ¬ seg.Breaks key a) : seg.closed key a = seg.done := if_neg h

theorem add_of_ends (h : ends a = true) :
    seg.add key ends a = ⟨seg.closed key a ++ [seg.run key a], []⟩ := if_pos h

theorem add_of_not_ends (h : ends a = false) :
    seg.add key ends a = ⟨seg.closed key a, seg.run key a⟩ := by
  simp [add, h]

theorem getLast?_run : (seg.run key a).getLast? = some a := by
  unfold run
  split
  · rfl
  · simp

theorem done_prefix_closed : seg.done <+: seg.closed key a := by
  unfold closed
  split
  · exact List.prefix_append _ _
  · exact List.prefix_rfl

theorem done_prefix_add : seg.done <+: (seg.add key ends a).done := by
  unfold add
  split
  · exact done_prefix_closed.trans (List.prefix_append _ _)
  · exact done_prefix_closed

theorem done_prefix_addAll : seg.done <+: (seg.addAll key ends items).done := by
  induction items generalizing seg with
  | nil => exact List.prefix_rfl
  | cons a rest ih => exact done_prefix_add.trans ih

end Runs

end Segment

end AmebaRtos.Lib
