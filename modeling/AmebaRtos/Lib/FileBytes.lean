import Mathlib.Tactic.Common

/-!
# Files as byte strings

A file is the list of its bytes. A write at a position replaces what is there and
extends the file where needed; a gap behind the old end reads as zeros. An open file
has a position that reads and writes move.
-/

namespace AmebaRtos.Lib

open List

/-- Write `bytes` into a file at `offset`. -/
def writeAt (file : List UInt8) (offset : Nat) (bytes : List UInt8) : List UInt8 :=
  (file ++ List.replicate (offset - file.length) 0).take offset ++ bytes ++
    file.drop (offset + bytes.length)

section WriteAt

theorem length_writeAt (file : List UInt8) (offset : Nat) (bytes : List UInt8) :
    (writeAt file offset bytes).length = max file.length (offset + bytes.length) := by
  simp only [writeAt, length_append, length_take, length_replicate, length_drop]
  omega

theorem writeAt_middle (front old new back : List UInt8) (hlen : old.length = new.length) :
    writeAt (front ++ (old ++ back)) front.length new = front ++ (new ++ back) := by
  have hback : (front ++ (old ++ back)).drop (front.length + new.length) = back := by
    rw [← hlen, ← length_append, ← append_assoc, drop_left]
  rw [writeAt, hback, append_assoc front, take_left, append_assoc]

theorem length_front (file : List UInt8) (offset : Nat) :
    ((file ++ List.replicate (offset - file.length) 0).take offset).length = offset := by
  simp only [length_take, length_append, length_replicate]
  omega

theorem getElem?_writeAt_mem (ha : offset ≤ a) (ha' : a < offset + bytes.length) :
    (writeAt file offset bytes)[a]? = bytes[a - offset]? := by
  have hfront := length_front file offset
  rw [writeAt, append_assoc, List.getElem?_append_right (by omega), hfront,
    List.getElem?_append_left (by omega)]

theorem getElem?_writeAt_other (hout : a < offset ∨ offset + bytes.length ≤ a)
    (ha : a < file.length) : (writeAt file offset bytes)[a]? = file[a]? := by
  have hfront := length_front file offset
  rw [writeAt, append_assoc]
  rcases hout with hbefore | hbehind
  · rw [List.getElem?_append_left (by omega), List.getElem?_take_of_lt hbefore,
      List.getElem?_append_left ha]
  rw [List.getElem?_append_right (by omega), List.getElem?_append_right (by omega),
    List.getElem?_drop]
  congr 1
  omega

theorem getElem?_writeAt_gap (hgap : file.length ≤ a) (ha : a < offset) :
    (writeAt file offset bytes)[a]? = some 0 := by
  have hfront := length_front file offset
  rw [writeAt, append_assoc, List.getElem?_append_left (by omega),
    List.getElem?_take_of_lt ha, List.getElem?_append_right hgap]
  simp only [List.getElem?_replicate]
  exact if_pos (by omega)

theorem writeAt_writeAt :
    writeAt (writeAt file offset first) (offset + first.length) second =
      writeAt file offset (first ++ second) := by
  apply ext_getElem?
  intro a
  have hlen := length_writeAt file offset first
  have hlen' := length_writeAt (writeAt file offset first) (offset + first.length) second
  have hboth := length_writeAt file offset (first ++ second)
  rw [length_append] at hboth
  by_cases hend : a < max file.length (offset + first.length + second.length)
  · by_cases hsecond : offset + first.length ≤ a ∧ a < offset + first.length + second.length
    · rw [getElem?_writeAt_mem hsecond.1 hsecond.2, getElem?_writeAt_mem (by omega)
        (by rw [length_append]; omega), List.getElem?_append_right (by omega)]
      congr 1
      omega
    rw [getElem?_writeAt_other (by omega) (by omega)]
    by_cases hfirst : offset ≤ a ∧ a < offset + first.length
    · rw [getElem?_writeAt_mem hfirst.1 hfirst.2, getElem?_writeAt_mem hfirst.1
        (by rw [length_append]; omega), List.getElem?_append_left (by omega)]
    by_cases hold : a < file.length
    · rw [getElem?_writeAt_other (by omega) hold, getElem?_writeAt_other
        (by rw [length_append]; omega) hold]
    · rw [getElem?_writeAt_gap (by omega) (by omega),
        getElem?_writeAt_gap (by omega) (by omega)]
  · rw [List.getElem?_eq_none (by omega), List.getElem?_eq_none (by omega)]

end WriteAt

structure OpenFile where
  content : List UInt8
  pos : Nat

/-- `fwrite`. -/
def OpenFile.write (f : OpenFile) (bytes : List UInt8) : OpenFile :=
  ⟨writeAt f.content f.pos bytes, f.pos + bytes.length⟩

/-- `fread` of up to `size` bytes. -/
def OpenFile.read (f : OpenFile) (size : Nat) : List UInt8 := (f.content.drop f.pos).take size

theorem OpenFile.write_write (f : OpenFile) :
    (f.write first).write second = f.write (first ++ second) := by
  simp only [OpenFile.write, writeAt_writeAt, length_append, Nat.add_assoc]

/-- A loop that writes `size` equal bytes, at most `step` at a time. -/
def OpenFile.fill (byte : UInt8) (step : Nat) : (fuel : Nat) → OpenFile → (size : Nat) → OpenFile
  | 0, f, _ => f
  | fuel + 1, f, size =>
    if size > 0 then
      let writeSize := if size > step then step else size
      OpenFile.fill byte step fuel (f.write (List.replicate writeSize byte)) (size - writeSize)
    else f

theorem OpenFile.fill_eq (hstep : 0 < step) :
    ∀ (fuel : Nat) (f : OpenFile) (size : Nat), 0 < size → size ≤ fuel →
      OpenFile.fill byte step fuel f size = f.write (List.replicate size byte) := by
  intro fuel
  induction fuel with
  | zero =>
    omega
  | succ fuel ih =>
    intro f size hpos hfuel
    rw [OpenFile.fill, if_pos hpos]
    by_cases hlarge : size > step
    · rw [if_pos hlarge, ih _ _ (by omega) (by omega), OpenFile.write_write,
        replicate_append_replicate, Nat.add_sub_cancel' (Nat.le_of_lt hlarge)]
    · rw [if_neg hlarge]
      cases fuel <;> simp [OpenFile.fill]

end AmebaRtos.Lib
