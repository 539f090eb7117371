import Mathlib.Data.List.Induction
import AmebaRtos.Lib.FileBytes

/-!
# The flash translation layer on files

`ftl.c` keeps the data of `ftl_save_to_storage` in one file, and in a second one a byte for each
of its bytes that says whether it was ever written. Both are padded with zeros when a save starts
behind their end, so the trace file shows the gaps, and `ftl_load_from_storage` refuses a region
with a gap. The files exist; file operations do not fail.
-/

namespace AmebaRtos.FileSystem

open Lib List

def FTL_READ_SUCCESS : Nat := 0x00
def FTL_READ_ERROR_READ_NOT_FOUND : Nat := 0x02
def FTL_BUF_SIZE : Nat := 2048

/-- The contents of `path_trace` and `path`. -/
structure FtlFiles where
  trace : List UInt8
  data : List UInt8

def ftlInit : FtlFiles := ⟨[], []⟩

variable (content : List UInt8) (s : FtlFiles) (pdata : List UInt8) (offset : Nat)

def openPadded : OpenFile :=
  let f : OpenFile :=
    if content.length < offset then
      let padSize := offset - content.length
      OpenFile.fill 0 FTL_BUF_SIZE padSize ⟨content, content.length⟩ padSize
    else ⟨content, 0⟩
  { f with pos := offset }

def ftlSaveToStorage : FtlFiles where
  trace := (OpenFile.fill 1 FTL_BUF_SIZE pdata.length (openPadded s.trace offset)
    pdata.length).content
  data := ((openPadded s.data offset).write pdata).content

/-- What is in a buffer after `bytes` have been read into it. -/
def readInto (buf bytes : List UInt8) : List UInt8 := bytes ++ buf.drop bytes.length

/-- `ftl_load_from_storage`: the result and the caller's buffer, into which the trace bytes are read
    first. -/
def ftlLoadFromStorage (buf : List UInt8) (offset size : Nat) : Nat × List UInt8 :=
  if offset + size > s.trace.length then (FTL_READ_ERROR_READ_NOT_FOUND, buf)
  else
    let buf := readInto buf (OpenFile.read ⟨s.trace, offset⟩ size)
    if (buf.take size).any (· == 0) then (FTL_READ_ERROR_READ_NOT_FOUND, buf)
    else if offset > s.data.length then
      (FTL_READ_SUCCESS, readInto buf (List.replicate size 0))
    else (FTL_READ_SUCCESS, readInto buf (OpenFile.read ⟨s.data, offset⟩ size))

/-! ### What was saved -/

/-- A call of `ftl_save_to_storage`. -/
structure Save where
  offset : Nat
  pdata : List UInt8

def Save.apply (save : Save) (a : Nat) (old : Option UInt8) : Option UInt8 :=
  if save.offset ≤ a ∧ a < save.offset + save.pdata.length then save.pdata[a - save.offset]?
  else old

variable (saves : List Save)

/-- The value of the last save that covers an address. -/
def lastSaved (a : Nat) : Option UInt8 :=
  saves.foldl (fun old save => save.apply a old) none

/-- The end of the furthest save. -/
def savedEnd : Nat :=
  saves.foldl (fun e save => max e (save.offset + save.pdata.length)) 0

def ftlRun (saves : List Save) : FtlFiles :=
  saves.foldl (fun s save => ftlSaveToStorage s save.pdata save.offset) ftlInit

/-! ### A save writes both files -/

theorem openPadded_eq :
    openPadded content offset =
      ⟨content ++ List.replicate (offset - content.length) 0, offset⟩ := by
  unfold openPadded
  by_cases hshort : content.length < offset
  · simp only [if_pos hshort]
    rw [OpenFile.fill_eq (by decide) _ _ _ (by omega) (Nat.le_refl _)]
    simp [OpenFile.write, writeAt]
  · simp only [if_neg hshort]
    rw [Nat.sub_eq_zero_of_le (Nat.le_of_not_lt hshort), replicate_zero, append_nil]

theorem writeAt_padded :
    writeAt (content ++ List.replicate (offset - content.length) 0) offset bytes =
      writeAt content offset bytes := by
  have hdrop : (content ++ List.replicate (offset - content.length) 0).drop
      (offset + bytes.length) = content.drop (offset + bytes.length) := by
    rw [drop_append, drop_replicate,
      Nat.sub_eq_zero_of_le (by omega : offset - content.length ≤ offset + bytes.length -
        content.length), replicate_zero, append_nil]
  have hlen : offset - (content ++ List.replicate (offset - content.length) (0 : UInt8)).length =
      0 := by
    rw [length_append, length_replicate]
    omega
  rw [writeAt, hlen, hdrop, replicate_zero, append_nil, writeAt]

theorem ftlSave_data : (ftlSaveToStorage s pdata offset).data = writeAt s.data offset pdata := by
  simp only [ftlSaveToStorage, openPadded_eq]
  exact writeAt_padded _ _

theorem ftlSave_trace : (ftlSaveToStorage s pdata offset).trace =
      writeAt s.trace offset (List.replicate pdata.length 1) := by
  rw [ftlSaveToStorage, openPadded_eq, ← writeAt_padded]
  by_cases hsize : 0 < pdata.length
  · rw [OpenFile.fill_eq (by decide) _ _ _ hsize (Nat.le_refl _)]
    rfl
  -- nothing is written; the file keeps its padding
  have hzero : pdata.length = 0 := Nat.eq_zero_of_not_pos hsize
  have hpad : offset - (s.trace ++ List.replicate (offset - s.trace.length)
      (0 : UInt8)).length = 0 := by
    rw [length_append, length_replicate]
    omega
  rw [hzero, OpenFile.fill, writeAt, hpad, replicate_zero, append_nil,
    replicate_zero, append_nil, length_nil, Nat.add_zero, take_append_drop]

/-! ### The files agree with the history -/

structure Recorded (saves : List Save) (s : FtlFiles) : Prop where
  traceEnd : s.trace.length = savedEnd saves
  dataEnd : s.data.length = savedEnd saves
  traced : ∀ a < savedEnd saves, s.trace[a]? = some (if (lastSaved saves a).isSome then 1 else 0)
  stored : ∀ a v, lastSaved saves a = some v → a < savedEnd saves ∧ s.data[a]? = some v

theorem lastSaved_concat : lastSaved (saves ++ [save]) a = save.apply a (lastSaved saves a) := by
  simp [lastSaved]

theorem savedEnd_concat (save : Save) :
    savedEnd (saves ++ [save]) = max (savedEnd saves) (save.offset + save.pdata.length) := by
  simp [savedEnd]

theorem Recorded.save {saves : List Save} {s : FtlFiles} (h : Recorded saves s) (save : Save) :
    Recorded (saves ++ [save]) (ftlSaveToStorage s save.pdata save.offset) := by
  have hend := savedEnd_concat saves save
  constructor
  · rw [ftlSave_trace, length_writeAt, length_replicate, h.traceEnd, hend]
  · rw [ftlSave_data, length_writeAt, h.dataEnd, hend]
  · intro a ha
    rw [ftlSave_trace, lastSaved_concat, Save.apply]
    by_cases hin : save.offset ≤ a ∧ a < save.offset + save.pdata.length
    · have hidx : a - save.offset < save.pdata.length := by omega
      rw [getElem?_writeAt_mem hin.1 (by rw [length_replicate]; exact hin.2), if_pos hin,
        List.getElem?_eq_getElem hidx, List.getElem?_replicate]
      exact if_pos hidx
    rw [if_neg hin]
    by_cases hold : a < savedEnd saves
    · rw [getElem?_writeAt_other (by rw [length_replicate]; omega)
        (by rw [h.traceEnd]; exact hold)]
      exact h.traced a hold
    -- the gap in front of the save
    rw [getElem?_writeAt_gap (by rw [h.traceEnd]; omega) (by omega)]
    cases hlast : lastSaved saves a with
    | none => rfl
    | some v => exact absurd (h.stored a v hlast).1 hold
  · intro a v hv
    rw [lastSaved_concat, Save.apply] at hv
    rw [ftlSave_data]
    by_cases hin : save.offset ≤ a ∧ a < save.offset + save.pdata.length
    · rw [if_pos hin] at hv
      exact ⟨by omega, (getElem?_writeAt_mem hin.1 hin.2).trans hv⟩
    rw [if_neg hin] at hv
    obtain ⟨ha, hdata⟩ := h.stored a v hv
    refine ⟨by omega, ?_⟩
    rw [getElem?_writeAt_other (by omega) (by rw [h.dataEnd]; exact ha)]
    exact hdata

theorem recorded_run : Recorded saves (ftlRun saves) := by
  induction saves using List.reverseRecOn with
  | nil =>
    refine ⟨rfl, rfl, fun a ha => absurd ha (Nat.not_lt_zero a), fun a v hv => ?_⟩
    cases hv
  | append_singleton saves save ih =>
    have hrun : ftlRun (saves ++ [save]) =
        ftlSaveToStorage (ftlRun saves) save.pdata save.offset := by
      simp [ftlRun]
    rw [hrun]
    exact ih.save save

/-! ### Loading -/

section

variable {saves : List Save} {s : FtlFiles}

theorem read_eq (offset size i : Nat) : (OpenFile.read ⟨content, offset⟩ size)[i]? =
      if i < size then content[offset + i]? else none := by
  rw [OpenFile.read, List.getElem?_take]
  by_cases hi : i < size
  · rw [if_pos hi, if_pos hi, List.getElem?_drop]
  · rw [if_neg hi, if_neg hi]

theorem length_read {content : List UInt8} {offset size : Nat}
    (hend : offset + size ≤ content.length) :
    (OpenFile.read ⟨content, offset⟩ size).length = size := by
  rw [OpenFile.read, length_take, length_drop]
  dsimp only
  omega

theorem take_readInto (buf bytes : List UInt8) :
    (readInto buf bytes).take bytes.length = bytes := by
  rw [readInto, take_left]

theorem Recorded.any_zero (h : Recorded saves s) {offset size : Nat}
    (hend : offset + size ≤ savedEnd saves) :
    (OpenFile.read ⟨s.trace, offset⟩ size).any (· == 0) = false ↔
      ∀ i < size, (lastSaved saves (offset + i)).isSome = true := by
  have hread := read_eq s.trace offset size
  have hlen := @length_read s.trace offset size (by rw [h.traceEnd]; exact hend)
  rw [any_eq_false]
  constructor
  · intro hnone i hi
    have hbyte := hread i
    rw [if_pos hi, h.traced _ (by omega)] at hbyte
    have hne := hnone _ (mem_of_getElem? hbyte)
    by_contra hmissing
    rw [if_neg hmissing] at hne
    exact hne rfl
  · intro hall byte hbyte
    obtain ⟨i, hi, rfl⟩ := getElem_of_mem hbyte
    have hsize : i < size := hlen ▸ hi
    have hat := hread i
    rw [if_pos hsize, h.traced _ (by omega), if_pos (hall i hsize),
      List.getElem?_eq_getElem hi] at hat
    rw [Option.some.inj hat]
    decide

theorem Recorded.load (h : Recorded saves s) (buf : List UInt8) (offset size : Nat) :
    ((ftlLoadFromStorage s buf offset size).1 = FTL_READ_SUCCESS ∧ offset + size ≤ savedEnd saves ∧
      (∀ i < size, (lastSaved saves (offset + i)).isSome = true) ∧
      ∀ i < size, (ftlLoadFromStorage s buf offset size).2[i]? = lastSaved saves (offset + i)) ∨
    ((ftlLoadFromStorage s buf offset size).1 = FTL_READ_ERROR_READ_NOT_FOUND ∧
      ¬ (offset + size ≤ savedEnd saves ∧
        ∀ i < size, (lastSaved saves (offset + i)).isSome = true)) := by
  unfold ftlLoadFromStorage
  by_cases hend : offset + size > s.trace.length
  · rw [if_pos hend]
    rw [h.traceEnd] at hend
    exact .inr ⟨rfl, fun hcovered => by omega⟩
  rw [if_neg hend]
  rw [h.traceEnd] at hend
  have hend : offset + size ≤ savedEnd saves := Nat.le_of_not_lt hend
  have htake : (readInto buf (OpenFile.read ⟨s.trace, offset⟩ size)).take size =
      OpenFile.read ⟨s.trace, offset⟩ size := by
    have hlen := @length_read s.trace offset size (by rw [h.traceEnd]; exact hend)
    have := take_readInto buf (OpenFile.read ⟨s.trace, offset⟩ size)
    rwa [hlen] at this
  dsimp only
  rw [htake]
  cases hzero : (OpenFile.read ⟨s.trace, offset⟩ size).any (· == 0) with
  | true =>
    refine .inr ⟨rfl, fun hcovered => ?_⟩
    rw [(h.any_zero hend).mpr hcovered.2] at hzero
    cases hzero
  | false =>
    have hall := (h.any_zero hend).mp hzero
    have hdata : ¬ offset > s.data.length := by
      rw [h.dataEnd]
      omega
    rw [if_neg Bool.false_ne_true, if_neg hdata]
    refine .inl ⟨rfl, hend, hall, fun i hi => ?_⟩
    obtain ⟨v, hv⟩ := Option.isSome_iff_exists.mp (hall i hi)
    have hlen := @length_read s.data offset size (by rw [h.dataEnd]; exact hend)
    have hread := read_eq s.data offset size i
    rw [if_pos hi, (h.stored _ v hv).2] at hread
    rw [readInto, List.getElem?_append_left (by rw [hlen]; exact hi), hread, hv]

end

/-- **A load returns what was saved last.** It succeeds when every byte of the region was saved,
    with the value of the last save that covers it, and otherwise reports that it was not found. -/
theorem ftlLoad_lastSaved (saves : List Save) (buf : List UInt8) (offset size : Nat) :
    ((ftlLoadFromStorage (ftlRun saves) buf offset size).1 = FTL_READ_SUCCESS ↔
      (∀ a, offset ≤ a → a < offset + size → (lastSaved saves a).isSome = true) ∧
        (size = 0 → offset ≤ savedEnd saves)) ∧
    ((ftlLoadFromStorage (ftlRun saves) buf offset size).1 = FTL_READ_SUCCESS →
      ∀ i < size, (ftlLoadFromStorage (ftlRun saves) buf offset size).2[i]? =
        lastSaved saves (offset + i)) ∧
    ((ftlLoadFromStorage (ftlRun saves) buf offset size).1 ≠ FTL_READ_SUCCESS →
      (ftlLoadFromStorage (ftlRun saves) buf offset size).1 = FTL_READ_ERROR_READ_NOT_FOUND) := by
  have hrecorded := recorded_run saves
  have hregion : ((∀ a, offset ≤ a → a < offset + size → (lastSaved saves a).isSome = true) ∧
        (size = 0 → offset ≤ savedEnd saves)) ↔
      offset + size ≤ savedEnd saves ∧
        ∀ i < size, (lastSaved saves (offset + i)).isSome = true := by
    constructor
    · rintro ⟨hall, hempty⟩
      refine ⟨?_, fun i hi => hall _ (Nat.le_add_right _ _) (by omega)⟩
      rcases Nat.eq_zero_or_pos size with hzero | hpos
      · rw [hzero]
        exact hempty hzero
      -- the last byte of the region was saved
      obtain ⟨v, hv⟩ := Option.isSome_iff_exists.mp
        (hall (offset + size - 1) (by omega) (by omega))
      have := (hrecorded.stored _ v hv).1
      omega
    · rintro ⟨hend, hall⟩
      refine ⟨fun a hlow hhigh => ?_, fun hzero => by omega⟩
      have := hall (a - offset) (by omega)
      rwa [Nat.add_sub_cancel' hlow] at this
  rw [hregion]
  rcases hrecorded.load buf offset size with ⟨hret, hend, hall, hvalues⟩ | ⟨hret, hmissing⟩
  · exact ⟨⟨fun _ => ⟨hend, hall⟩, fun _ => hret⟩, fun _ => hvalues, fun hne => absurd hret hne⟩
  have hne : (ftlLoadFromStorage (ftlRun saves) buf offset size).1 ≠ FTL_READ_SUCCESS := by
    rw [hret]
    decide
  exact ⟨⟨fun h => absurd h hne, fun h => absurd h hmissing⟩, fun h => absurd h hne,
    fun _ => hret⟩

/-- Nothing is missing in an empty region, but behind the end of the file it is not
    found. -/
theorem empty_region_not_found : (∀ a, 1 ≤ a → a < 1 + 0 → (lastSaved [] a).isSome = true) ∧
      (ftlLoadFromStorage (ftlRun []) [] 1 0).1 = FTL_READ_ERROR_READ_NOT_FOUND :=
  ⟨fun a h h' => by omega, by decide⟩

end AmebaRtos.FileSystem
