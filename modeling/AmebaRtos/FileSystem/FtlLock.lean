import AmebaRtos.Lib.Run

/-!
# The mutex of the flash translation layer

`ftl_save_to_storage` and `ftl_load_from_storage` hold a mutex while they work on two files, one
after the other. The outcome of every call they make and of every test on the contents is an
input here: what the functions do is followed as far as the mutex and the open files go.
-/

namespace AmebaRtos.FileSystem

open Lib

/-- The state of `ftl_op_mux`, and the number of open files. -/
structure FtlLock where
  mutexHeld : Bool
  opened : Nat
deriving DecidableEq

namespace FtlLock

variable (l : FtlLock)

def take : FtlLock := { l with mutexHeld := true }
def give : FtlLock := { l with mutexHeld := false }
def fopen : FtlLock := { l with opened := l.opened + 1 }
def fclose : FtlLock := { l with opened := l.opened - 1 }

end FtlLock

/-- One file of a save: whether it is opened with `"rx"` and `"+"`, is shorter than the offset, the
    padding has a buffer and is written, the place is found, the marks have a buffer, and the data
    is written. -/
structure SaveCalls where
  rx : Bool
  plus : Bool
  short : Bool
  padBuffer : Bool
  padded : Bool
  seek : Bool
  buffer : Bool
  written : Bool

/-- The part of `ftl_save_to_storage` for one file, and whether it goes on. `memset` marks the
    buffer without a test: no result when it is `NULL`. -/
def saveFile (marks : Bool) (c : SaveCalls) (l : FtlLock) : Option (FtlLock × Bool) :=
  if c.rx then some (l.fopen.give, false)
  else if !c.plus then some (l, false)
  else
    let l := l.fopen
    if c.short && !c.padBuffer then none
    else if c.short && !c.padded then some (l.fclose.give, false)
    else if !c.seek then some (l.fclose.give, false)
    else if marks && !c.buffer then none
    else if !c.written then some (l.fclose.give, false)
    else some (l, true)

/-- What follows on a file, if the function goes on. -/
def goOn (r : Option (FtlLock × Bool)) (next : FtlLock → Option FtlLock) : Option FtlLock :=
  r.bind fun (l, goesOn) => if goesOn then next l else some l

def ftlSave (trace data : SaveCalls) (l : FtlLock) : Option FtlLock :=
  goOn (saveFile true trace l.take) fun l =>
    goOn (saveFile false data l.fclose) fun l => some l.fclose.give

/-- A load: whether the trace file is opened, contains the region, is sought and read, and has it
    marked; and the same of the data file. -/
structure LoadCalls where
  openTrace : Bool
  inside : Bool
  seekTrace : Bool
  readTrace : Bool
  marked : Bool
  openData : Bool
  behind : Bool
  seekData : Bool
  readData : Bool

def ftlLoad (c : LoadCalls) (l : FtlLock) : FtlLock :=
  let l := l.take
  if !c.openTrace then l.give
  else
    let l := l.fopen
    if !c.inside then l.fclose.give
    else if !c.seekTrace then l.fclose.give
    else if !c.readTrace then l.fclose.give
    else if !c.marked then l.fclose.give
    else
      let l := l.fclose
      if !c.openData then l.give
      else
        let l := l.fopen
        if c.behind then l.fclose.give
        else if !c.seekData then l.fclose.give
        else if !c.readData then l.fclose.give
        else l.fclose.give

inductive FtlCall where
  | save (trace data : SaveCalls)
  | load (calls : LoadCalls)

/-- A call; none of them returns when the mutex is held. -/
def ftlStep (s : Option FtlLock) (call : FtlCall) : Option FtlLock :=
  s.bind fun l =>
    if l.mutexHeld then none
    else match call with
      | .save trace data => ftlSave trace data l
      | .load calls => some (ftlLoad calls l)

/-- The mutex is free, and no file is open. -/
def FtlFree (s : Option FtlLock) : Prop := s = some ⟨false, 0⟩

/-- The marks or the data are reached. -/
def SaveCalls.Reach (c : SaveCalls) : Prop := (c.short = true → c.padded = true) ∧ c.seek = true
deriving Decidable

/-- The file exists and can be opened, and there is memory for every buffer that is used. -/
def SaveCalls.Ok (marks : Bool) (c : SaveCalls) : Prop :=
  c.rx = false ∧ c.plus = true ∧ (c.short = true → c.padBuffer = true) ∧
    (marks = true → c.Reach → c.buffer = true)
deriving Decidable

def FtlCallOk (_ : Option FtlLock) : FtlCall → Prop
  | .save trace data => trace.Ok true ∧ (trace.Reach ∧ trace.written = true → data.Ok false)
  | .load _ => True

section

theorem saveFile_eq (hok : c.Ok marks) : saveFile marks c ⟨true, 0⟩ =
    some (if c.Reach ∧ c.written = true then (⟨true, 1⟩, true) else (⟨false, 0⟩, false)) := by
  obtain ⟨rx, plus, short, padBuffer, padded, seek, buffer, written⟩ := c
  revert marks rx plus short padBuffer padded seek buffer written
  decide

theorem saveFile_of_not_ok (hok : ¬ c.Ok marks) :
    ∀ r ∈ saveFile marks c ⟨true, 0⟩, r.2 = false ∧ r.1 ≠ ⟨false, 0⟩ := by
  obtain ⟨rx, plus, short, padBuffer, padded, seek, buffer, written⟩ := c
  revert marks rx plus short padBuffer padded seek buffer written
  decide

theorem goOn_free_iff (next : FtlLock → Option FtlLock) :
    goOn (saveFile marks c ⟨true, 0⟩) next = some ⟨false, 0⟩ ↔
      c.Ok marks ∧ (c.Reach ∧ c.written = true → next ⟨true, 1⟩ = some ⟨false, 0⟩) := by
  by_cases hok : c.Ok marks
  · rw [saveFile_eq hok, and_iff_right hok]
    by_cases hwritten : c.Reach ∧ c.written = true
    · rw [if_pos hwritten, forall_prop_of_true hwritten]
      rfl
    · rw [if_neg hwritten]
      exact iff_of_true rfl fun h => absurd h hwritten
  · refine iff_of_false ?_ fun h => hok h.1
    cases hrun : saveFile marks c ⟨true, 0⟩ with
    | none => nofun
    | some r =>
      obtain ⟨hstops, hheld⟩ := saveFile_of_not_ok hok r hrun
      simp [goOn, hstops, hheld]

end

/-- **The mutex is given back and the files are closed** behind every call of a run exactly if every
    save can open both files and has memory for its buffers. -/
theorem ftl_released_iff (calls : List FtlCall) :
    Throughout ftlStep FtlFree (some ⟨false, 0⟩) calls ↔
      Along ftlStep FtlCallOk (some ⟨false, 0⟩) calls := by
  refine throughout_iff_along (fun s call hs => ?_) rfl
  cases hs
  cases call with
  | save trace data =>
    change ftlSave trace data ⟨false, 0⟩ = some ⟨false, 0⟩ ↔ _
    refine (@goOn_free_iff true trace _).trans ?_
    refine and_congr_right fun _ => imp_congr_right fun _ => ?_
    exact (@goOn_free_iff false data _).trans (and_iff_left fun _ => rfl)
  | load c =>
    refine iff_of_true (congrArg some ?_) trivial
    unfold ftlLoad
    dsimp only
    split_ifs <;> rfl

/-- The trace file cannot be opened: the next call waits for the mutex. -/
theorem ftl_call_blocked :
    let calls : SaveCalls := ⟨false, false, false, true, true, true, true, true⟩
    let load : LoadCalls := ⟨true, true, true, true, true, true, false, true, true⟩
    ftlStep (some ⟨false, 0⟩) (.save calls calls) = some ⟨true, 0⟩ ∧
      ftlStep (some ⟨true, 0⟩) (.load load) = none :=
  ⟨rfl, rfl⟩

end AmebaRtos.FileSystem
