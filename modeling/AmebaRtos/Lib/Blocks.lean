import Mathlib.Algebra.BigOperators.Group.List.Basic
import Mathlib.Algebra.GroupWithZero.Nat
import Mathlib.Order.Nat

/-!
# Blocks of a pool

A block is a range of offsets. Blocks that follow each other without a gap are the
usual contents of a part of a pool that is used first in, first out: a new block goes
to the end, and the oldest one leaves at the front.
-/

namespace AmebaRtos.Lib

structure Block where
  offset : Nat
  length : Nat
deriving DecidableEq, Repr

def Block.Apart (a b : Block) : Prop :=
  a.offset + a.length ≤ b.offset ∨ b.offset + b.length ≤ a.offset

def Contiguous : Nat → List Block → Nat → Prop
  | start, [], stop => start = stop
  | start, b :: rest, stop =>
    b.offset = start ∧ 0 < b.length ∧ Contiguous (start + b.length) rest stop

namespace Contiguous

theorem append (h : Contiguous start blocks middle) (h' : Contiguous middle blocks' stop) :
    Contiguous start (blocks ++ blocks') stop := by
  induction blocks generalizing start with
  | nil =>
    have heq : start = middle := h
    exact heq ▸ h'
  | cons b rest ih => exact ⟨h.1, h.2.1, ih h.2.2⟩

theorem single (hpos : 0 < length) : Contiguous start [⟨start, length⟩] (start + length) :=
  ⟨rfl, hpos, rfl⟩

variable (h : Contiguous start blocks stop)
include h

theorem stop_eq : stop = start + (blocks.map Block.length).sum := by
  induction blocks generalizing start with
  | nil => exact (Eq.symm h : stop = start)
  | cons b rest ih =>
    rw [ih h.2.2, List.map_cons, List.sum_cons, Nat.add_assoc]

theorem le : start ≤ stop := by
  rw [h.stop_eq]
  exact Nat.le_add_right _ _

theorem of_ge (hge : start ≥ stop) : start = stop ∧ blocks = [] := by
  cases blocks with
  | nil => exact ⟨h, rfl⟩
  | cons b rest =>
    have hle := h.2.2.le
    have hpos := h.2.1
    omega

theorem length_le : start + blocks.length ≤ stop := by
  induction blocks generalizing start with
  | nil =>
    have heq : start = stop := h
    exact heq.le
  | cons b rest ih =>
    have hrest := ih h.2.2
    have hpos := h.2.1
    rw [List.length_cons]
    omega

theorem mem (hb : b ∈ blocks) : start ≤ b.offset ∧ 0 < b.length ∧ b.offset + b.length ≤ stop := by
  induction blocks generalizing start with
  | nil => cases hb
  | cons a rest ih =>
    obtain ⟨hoffset, hpos, hrest⟩ := h
    rcases List.mem_cons.mp hb with rfl | hb
    · exact ⟨hoffset.ge, hpos, hoffset ▸ hrest.le⟩
    · obtain ⟨hstart, hlen, hstop⟩ := ih hrest hb
      exact ⟨(Nat.le_add_right _ _).trans hstart, hlen, hstop⟩

theorem apart : blocks.Pairwise Block.Apart := by
  induction blocks generalizing start with
  | nil => exact List.Pairwise.nil
  | cons a rest ih =>
    refine List.Pairwise.cons ?_ (ih h.2.2)
    intro b hb
    exact Or.inl (h.1 ▸ (h.2.2.mem hb).1)

end Contiguous

end AmebaRtos.Lib
