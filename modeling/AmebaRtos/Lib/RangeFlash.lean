import Mathlib.Data.List.GetD
import AmebaRtos.Lib.NorFlash

/-!
# NOR flash: requests for ranges

A programmer tells a flash device which range to erase and which bytes to write. An erase sets
every bit of the range and a write can only clear bits.
-/

namespace AmebaRtos.Lib

inductive RangeOp where
  | erase (start size : Nat)
  | write (start : Nat) (bytes : List UInt8)
deriving DecidableEq, Repr

namespace RangeOp

def addr : RangeOp → Nat
  | .erase start _ => start
  | .write start _ => start

/-- The request addresses the byte at `a`. -/
def Touches : RangeOp → Nat → Prop
  | .erase start size, a => start ≤ a ∧ a < start + size
  | .write start bytes, a => start ≤ a ∧ a < start + bytes.length

instance (op : RangeOp) (a : Nat) : Decidable (op.Touches a) := by
  cases op
  · exact inferInstanceAs (Decidable (_ ∧ _))
  · exact inferInstanceAs (Decidable (_ ∧ _))

def apply : RangeOp → Memory → Memory
  | .erase start size, mem => fun a => if start ≤ a ∧ a < start + size then 0xFF else mem a
  | .write start bytes, mem => fun a =>
    if start ≤ a ∧ a < start + bytes.length then mem a &&& bytes.getD (a - start) 0xFF else mem a

variable {op : RangeOp}

theorem apply_of_not_touches (h : ¬ op.Touches a) : op.apply mem a = mem a := by
  cases op with
  | erase start size => exact if_neg h
  | write start bytes => exact if_neg h

theorem apply_erase (hlo : start ≤ a) (hhi : a < start + size) :
    (RangeOp.erase start size).apply mem a = 0xFF :=
  if_pos ⟨hlo, hhi⟩

theorem apply_write (hlo : start ≤ a) (hhi : a < start + bytes.length) :
    (RangeOp.write start bytes).apply mem a = mem a &&& bytes.getD (a - start) 0xFF :=
  if_pos ⟨hlo, hhi⟩

theorem apply_write_append (start : Nat) (bytes bytes' : List UInt8) (mem : Memory) :
    (RangeOp.write (start + bytes.length) bytes').apply ((RangeOp.write start bytes).apply mem) =
      (RangeOp.write start (bytes ++ bytes')).apply mem := by
  funext a
  simp only [apply, List.length_append]
  by_cases hbefore : a < start
  · rw [if_neg (by omega), if_neg (by omega), if_neg (by omega)]
  by_cases hfirst : a < start + bytes.length
  · rw [if_neg (by omega), if_pos (by omega), if_pos (by omega),
      List.getD_append _ _ _ _ (by omega)]
  by_cases hsecond : a < start + bytes.length + bytes'.length
  · rw [if_pos (by omega), if_neg (by omega), if_pos (by omega),
      List.getD_append_right _ _ _ _ (by omega), Nat.sub_sub]
  · rw [if_neg (by omega), if_neg (by omega), if_neg (by omega)]

def applyAll (ops : List RangeOp) (mem : Memory) : Memory :=
  ops.foldl (fun mem op => op.apply mem) mem

@[simp] theorem applyAll_append : applyAll (ops ++ ops') mem = applyAll ops' (applyAll ops mem) :=
  List.foldl_append

theorem applyAll_of_not_touches (h : ∀ op ∈ ops, ¬ op.Touches a) : applyAll ops mem a = mem a := by
  induction ops generalizing mem with
  | nil => rfl
  | cons op ops ih =>
    have hrest := @ih (op.apply mem) fun op' hop' => h op' (.tail _ hop')
    exact hrest.trans (apply_of_not_touches (h op (.head _)))

end RangeOp

end AmebaRtos.Lib
