import AmebaRtos.Lib.Memory

/-!
# NOR flash: erases and writes

A NOR flash is erased by the sector, which sets every bit, and written by the byte,
which can only clear bits. A run of a program is seen here as the list of the
operations it issued; what a power cut leaves behind is the replay of a prefix.
The section variable `sector` is the sector size.
-/

namespace AmebaRtos.Lib

open List

inductive FlashOp where
  | erase (addr : Nat)
  | write (addr : Nat) (bytes : List UInt8)
deriving DecidableEq, Repr

theorem erased_and (byte : UInt8) : 0xFF &&& byte = byte := by
  apply UInt8.eq_of_toBitVec_eq
  exact BitVec.allOnes_and

section Replay

variable (sector : Nat)

/-- The operation may change the byte at address `a`. -/
def FlashOp.Touches : FlashOp → Nat → Prop
  | .erase addr, a => a / sector = addr / sector
  | .write addr bytes, a => addr ≤ a ∧ a < addr + bytes.length

instance (op : FlashOp) (a : Nat) : Decidable (op.Touches sector a) := by
  cases op
  · exact inferInstanceAs (Decidable (_ = _))
  · exact inferInstanceAs (Decidable (_ ∧ _))

def FlashOp.apply : FlashOp → Memory → Memory
  | .erase addr, mem => fun a => if a / sector = addr / sector then 0xFF else mem a
  | .write addr bytes, mem => fun a =>
    if addr ≤ a ∧ a < addr + bytes.length then mem a &&& bytes.getD (a - addr) 0xFF else mem a

def replay (ops : List FlashOp) (mem : Memory) : Memory :=
  ops.foldl (fun mem op => op.apply sector mem) mem

@[simp] theorem replay_nil : replay sector [] mem = mem := rfl

@[simp] theorem replay_append :
    replay sector (ops ++ ops') mem = replay sector ops' (replay sector ops mem) := by
  simp [replay]

@[simp] theorem replay_singleton :
    replay sector [op] mem = op.apply sector mem := rfl

variable {sector}

theorem FlashOp.apply_of_not_touches {op : FlashOp} (h : ¬ op.Touches sector a) (mem : Memory) :
    op.apply sector mem a = mem a := by
  cases op with
  | erase addr => exact if_neg h
  | write addr bytes => exact if_neg h

theorem replay_of_not_touches (h : ∀ op ∈ ops, ¬ op.Touches sector a) (mem : Memory) :
    replay sector ops mem a = mem a := by
  induction ops generalizing mem with
  | nil => rfl
  | cons op ops ih =>
    have hrest := ih (fun op' hop' => h op' (.tail _ hop')) (op.apply sector mem)
    exact hrest.trans (FlashOp.apply_of_not_touches (h op (mem_cons_self ..)) mem)

theorem FlashOp.apply_erase (h : a / sector = addr / sector) (mem : Memory) :
    (FlashOp.erase addr).apply sector mem a = 0xFF :=
  if_pos h

theorem FlashOp.apply_write_erased (hlo : addr ≤ a) (hhi : a < addr + bytes.length)
    (herased : mem a = 0xFF) :
    (FlashOp.write addr bytes).apply sector mem a = bytes.getD (a - addr) 0xFF := by
  simp only [FlashOp.apply, hlo, hhi, and_self, if_true, herased, erased_and]

/-! ### Writes to erased sectors -/

variable (sector) in
/-- Every byte written lies in a sector erased before, and no sector is erased again once it was
    written to. -/
def ErasedOnce (ops : List FlashOp) : Prop :=
  ∀ before addr bytes after, ops = before ++ .write addr bytes :: after →
    ∀ a, addr ≤ a → a < addr + bytes.length → (∃ e, .erase e ∈ before ∧ a / sector = e / sector) ∧
        ∀ e, .erase e ∈ after → a / sector ≠ e / sector

theorem erasedOnce_nil : ErasedOnce sector [] := by
  intro before addr bytes after h
  simp at h

theorem ErasedOnce.erase (h : ErasedOnce sector ops)
    (hfree : ∀ addr bytes, .write addr bytes ∈ ops → ∀ a, addr ≤ a → a < addr + bytes.length →
      a / sector ≠ e / sector) : ErasedOnce sector (ops ++ [.erase e]) := by
  intro before addr bytes after hops a hlo hhi
  rcases eq_nil_or_concat after with rfl | ⟨after, last, rfl⟩
  · have hlast := (append_inj' hops rfl).2
    simp at hlast
  rw [concat_eq_append, ← cons_append, ← append_assoc] at hops
  obtain ⟨hinit, hlast⟩ := append_inj' hops rfl
  obtain ⟨herased, hlater⟩ := h before addr bytes after hinit a hlo hhi
  refine ⟨herased, fun e' he' => ?_⟩
  rw [concat_eq_append, mem_append, ← hlast] at he'
  rcases he' with hold | hnew
  · exact hlater e' hold
  simp only [mem_singleton, FlashOp.erase.injEq] at hnew
  subst hnew
  apply hfree addr bytes _ a hlo hhi
  simp [hinit]

theorem ErasedOnce.write (h : ErasedOnce sector ops)
    (herased : ∀ a, addr ≤ a → a < addr + bytes.length →
      ∃ e, .erase e ∈ ops ∧ a / sector = e / sector) :
    ErasedOnce sector (ops ++ [.write addr bytes]) := by
  intro before addr' bytes' after hops a hlo hhi
  rcases eq_nil_or_concat after with rfl | ⟨after, last, rfl⟩
  · obtain ⟨rfl, hlast⟩ := append_inj' hops rfl
    obtain ⟨rfl, rfl⟩ := hlast
    refine ⟨herased a hlo hhi, fun e he => ?_⟩
    simp at he
  rw [concat_eq_append, ← cons_append, ← append_assoc] at hops
  obtain ⟨hinit, hlast⟩ := append_inj' hops rfl
  obtain ⟨hbefore, hlater⟩ := h before addr' bytes' after hinit a hlo hhi
  refine ⟨hbefore, fun e he => hlater e ?_⟩
  rw [concat_eq_append, ← hlast] at he
  simpa using he

end Replay

end AmebaRtos.Lib
