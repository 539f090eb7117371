import Mathlib.Data.List.Nodup
import AmebaRtos.Lib.Memory
import AmebaRtos.Lib.Run

/-!
# Sending frames to the voice chip

`vb6824_send` builds a frame in one static buffer, sleeps for 8 ms, hands the buffer to
`serial_send_stream_dma` and waits for a binary semaphore that the DMA interrupt gives. Nothing
keeps its callers apart: a frame can be overwritten while its task sleeps, a second transfer is
refused while the first one runs, and the semaphore does not say whose transfer has ended. The
firmware update of the chip sends packets of its own through the same DMA, and waits for the same
semaphore.

A run is any interleaving of the tasks of a type `T`; the buffer is written byte by byte.
-/

namespace AmebaRtos.Vb6824

open Lib Function List

def VB6824_CMD_PLAY : UInt16 := 0x2081
def VB6824_CMD_STOP_RECORD : UInt16 := 0x0201

def PACKET_SIZE : Nat := 384

/-- A call of `vb6824_send`; `id` tells the calls of a run apart. -/
structure Call where
  id : Nat
  cmd : UInt16
  data : List UInt8
deriving DecidableEq, Repr

/-- The sum of bytes in an `uint8_t`. -/
def checksum (bytes : List UInt8) : UInt8 := bytes.foldl (· + ·) 0

def frameHeader (c : Call) : List UInt8 :=
  [0x55, 0xAA, UInt8.ofNat (c.data.length / 256), UInt8.ofNat c.data.length,
    (c.cmd >>> 8).toUInt8, c.cmd.toUInt8]

/-- The frame of a call: header, data and checksum. -/
def frame (c : Call) : List UInt8 :=
  frameHeader c ++ c.data ++ [checksum (frameHeader c ++ c.data)]

/-! ### The tasks -/

/-- Where a task is: in `vb6824_send`, with `k` bytes of the frame in the buffer or waiting for the
    semaphore, or waiting for it in the firmware update. -/
inductive Phase where
  | idle
  | building (c : Call) (k : Nat)
  | waiting (c : Call)
  | jlWaiting
deriving DecidableEq, Repr

/-- What the DMA sends: the buffer of `vb6824_send`, or a packet of the firmware update. -/
inductive DmaTransfer where
  | packet (c : Call)
  | jl
deriving DecidableEq, Repr

/-- The buffer, the tasks, the running transfer and the semaphore; as trace the bytes handed to the
    DMA, the transfers that ended and the calls that returned. -/
structure Link (T : Type) where
  packet : Memory
  phase : T → Phase
  calls : Nat
  dma : Option DmaTransfer
  txDone : Bool
  handed : List (Call × List UInt8)
  completed : List Call
  returned : List Call

def Link.init (T : Type) (packet : Memory) : Link T :=
  ⟨packet, fun _ => .idle, 0, none, false, [], [], []⟩

inductive SendEvent (T : Type) where
  | call (t : T) (cmd : UInt16) (data : List UInt8)
  | write (t : T)
  -- the delay is over, and the buffer is handed to the DMA
  | send (t : T)
  -- `jl_uart_send_packet`, or the answer to `JL_OTA_UPDATE_READ`: a buffer of its own, no delay
  | jlSend (t : T)
  | dmaDone
  | take (t : T)
deriving DecidableEq

section Steps

variable {T : Type} [DecidableEq T]

/-- One step of a task, or the interrupt `vb6824_on_send_comp`. -/
def linkStep (s : Link T) : SendEvent T → Link T
  | .call t cmd data =>
    if s.phase t = .idle ∧ data.length ≤ PACKET_SIZE - 7 then
      { s with
        phase := update s.phase t (.building ⟨s.calls, cmd, data⟩ 0)
        calls := s.calls + 1 }
    else s
  | .write t =>
    match s.phase t with
    | .building c k =>
      if k < (frame c).length then
        { s with
          packet := update s.packet k ((frame c).getD k 0)
          phase := update s.phase t (.building c (k + 1)) }
      else s
    | _ => s
  | .send t =>
    match s.phase t with
    | .building c k =>
      if k = (frame c).length then
        { s with
          handed := s.handed ++ [(c, s.packet.window 0 (frame c).length)]
          -- a transfer that is running makes the call return `HAL_BUSY`, unnoticed
          dma := s.dma.or (some (.packet c))
          phase := update s.phase t (.waiting c) }
      else s
    | _ => s
  | .jlSend t =>
    if s.phase t = .idle then
      { s with dma := s.dma.or (some .jl), phase := update s.phase t .jlWaiting }
    else s
  | .dmaDone =>
    match s.dma with
    | some (.packet c) => { s with dma := none, txDone := true, completed := s.completed ++ [c] }
    | some .jl => { s with dma := none, txDone := true }
    | none => s
  | .take t =>
    match s.phase t with
    | .waiting c =>
      if s.txDone then
        { s with
          txDone := false
          phase := update s.phase t .idle
          returned := s.returned ++ [c] }
      else s
    | .jlWaiting =>
      if s.txDone then { s with txDone := false, phase := update s.phase t .idle } else s
    | _ => s

/-- Whole frames were handed over, one for a call, with the call's own content; and a call that has
    returned was handed over and its transfer has ended. -/
structure SendSafe (s : Link T) : Prop where
  frames : ∀ h ∈ s.handed, h.2 = frame h.1
  once : (s.handed.map Prod.fst).Nodup
  returned : ∀ c ∈ s.returned, c ∈ s.handed.map Prod.fst ∧ c ∈ s.completed

/-- Neither a call nor a transfer of the update starts while a task is in one of them. -/
def NoOverlap (s : Link T) : SendEvent T → Prop
  | .call _ _ data => data.length ≤ PACKET_SIZE - 7 → s.phase = fun _ => .idle
  | .jlSend _ => s.phase = fun _ => .idle
  | _ => True

/-! ### The invariant -/

inductive Progress (s : Link T) : Prop where
  | rest (phase : s.phase = fun _ => .idle) (dma : s.dma = none) (txDone : s.txDone = false)
  | building (t : T) (c : Call) (k : Nat)
      (phase : s.phase = update (fun _ => .idle) t (.building c k))
      (fresh : c ∉ s.handed.map Prod.fst) (id : c.id < s.calls)
      (bytes : ∀ i < k, s.packet i = (frame c).getD i 0)
      (dma : s.dma = none) (txDone : s.txDone = false)
  | sending (t : T) (c : Call) (phase : s.phase = update (fun _ => .idle) t (.waiting c))
      (handed : c ∈ s.handed.map Prod.fst) (dma : s.dma = some (.packet c))
      (txDone : s.txDone = false)
  | sent (t : T) (c : Call) (phase : s.phase = update (fun _ => .idle) t (.waiting c))
      (handed : c ∈ s.handed.map Prod.fst) (completed : c ∈ s.completed) (dma : s.dma = none)
  | jlSending (t : T) (phase : s.phase = update (fun _ => .idle) t .jlWaiting)
      (dma : s.dma = some .jl) (txDone : s.txDone = false)
  | jlSent (t : T) (phase : s.phase = update (fun _ => .idle) t .jlWaiting) (dma : s.dma = none)

structure Exclusive (s : Link T) : Prop where
  safe : SendSafe s
  ids : ∀ c ∈ s.handed.map Prod.fst, c.id < s.calls
  progress : Progress s

theorem exclusive_init : Exclusive (Link.init T packet) where
  safe := ⟨fun _ h => absurd h not_mem_nil, nodup_nil,
    fun _ h => absurd h not_mem_nil⟩
  ids := fun _ h => absurd h not_mem_nil
  progress := .rest rfl rfl rfl

theorem phase_only {s : Link T} (hphase : s.phase = update (fun _ => .idle) t ph)
    (hget : s.phase t' = ph') (hne : ph' ≠ .idle) : t' = t ∧ ph' = ph := by
  rw [hphase] at hget
  by_cases heq : t' = t
  · subst heq
    rw [update_self] at hget
    exact ⟨rfl, hget.symm⟩
  · rw [update_of_ne heq] at hget
    exact absurd hget.symm hne

theorem phase_busy {s : Link T} (hphase : s.phase = update (fun _ => .idle) t ph)
    (hne : ph ≠ .idle) : s.phase ≠ fun _ => .idle := by
  intro hidle
  have hat := congrFun (hphase.symm.trans hidle) t
  rw [update_self] at hat
  exact hne hat

variable {s : Link T}

section

variable (h : Exclusive s)
include h

/-- When no task is in a call or a transfer, the DMA is free and no token is left. -/
theorem Exclusive.free (hidle : s.phase = fun _ => .idle) : s.dma = none ∧ s.txDone = false := by
  cases h.progress with
  | rest _ hdma hdone => exact ⟨hdma, hdone⟩
  | building _ _ _ _ _ _ _ hdma hdone => exact ⟨hdma, hdone⟩
  | sending _ _ hphase _ _ _ => exact absurd hidle (phase_busy hphase nofun)
  | sent _ _ hphase _ _ _ => exact absurd hidle (phase_busy hphase nofun)
  | jlSending _ hphase _ _ => exact absurd hidle (phase_busy hphase nofun)
  | jlSent _ hphase _ => exact absurd hidle (phase_busy hphase nofun)

theorem Exclusive.call (t : T) (cmd : UInt16) (data : List UInt8)
    (hcond : NoOverlap s (.call t cmd data)) : Exclusive (linkStep s (.call t cmd data)) := by
  simp only [linkStep]
  split
  · rename_i hcall
    have hidle : s.phase = fun _ => .idle := hcond hcall.2
    obtain ⟨hdma, hdone⟩ := h.free hidle
    refine ⟨{ h.safe with }, fun c hc => Nat.lt_succ_of_lt (h.ids c hc), ?_⟩
    refine .building t ⟨s.calls, cmd, data⟩ 0 ?_ ?_ (Nat.lt_succ_self _) ?_ hdma hdone
    · rw [hidle]
    · intro hmem
      exact absurd (h.ids _ hmem) (Nat.lt_irrefl _)
    · intro i hi
      exact absurd hi (Nat.not_lt_zero i)
  · exact h

theorem Exclusive.jlSend (t : T) (hcond : NoOverlap s (.jlSend t)) :
    Exclusive (linkStep s (.jlSend t)) := by
  simp only [linkStep]
  split
  · obtain ⟨hdma, hdone⟩ := h.free hcond
    refine ⟨{ h.safe with }, h.ids, .jlSending t ?_ ?_ hdone⟩
    · rw [hcond]
    · rw [hdma]
      rfl
  · exact h

theorem Exclusive.of_building {t : T} (hget : s.phase t = .building c k) :
    s.phase = update (fun _ => .idle) t (.building c k) ∧ c ∉ s.handed.map Prod.fst ∧
      c.id < s.calls ∧ (∀ i < k, s.packet i = (frame c).getD i 0) ∧ s.dma = none ∧
      s.txDone = false := by
  have hbusy : Phase.building c k ≠ .idle := nofun
  cases h.progress with
  | rest hphase _ _ =>
    rw [hphase] at hget
    cases hget
  | building t' c' k' hphase hfresh hid hbytes hdma hdone =>
    obtain ⟨rfl, hsame⟩ := phase_only hphase hget hbusy
    cases hsame
    exact ⟨hphase, hfresh, hid, hbytes, hdma, hdone⟩
  | sending t' c' hphase _ _ _ => cases (phase_only hphase hget hbusy).2
  | sent t' c' hphase _ _ _ => cases (phase_only hphase hget hbusy).2
  | jlSending t' hphase _ _ => cases (phase_only hphase hget hbusy).2
  | jlSent t' hphase _ => cases (phase_only hphase hget hbusy).2

theorem Exclusive.write (t : T) : Exclusive (linkStep s (.write t)) := by
  simp only [linkStep]
  split
  · rename_i c k hget
    obtain ⟨hphase, hfresh, hid, hbytes, hdma, hdone⟩ := h.of_building hget
    split
    · refine ⟨{ h.safe with }, h.ids, .building t c (k + 1) ?_ hfresh hid ?_ hdma hdone⟩
      · rw [hphase, update_idem]
      · intro i hi
        by_cases hik : i = k
        · subst hik
          exact update_self ..
        · exact (update_of_ne hik _ _).trans (hbytes i (by omega))
    · exact h
  · exact h

theorem Exclusive.send (t : T) : Exclusive (linkStep s (.send t)) := by
  simp only [linkStep]
  split
  · rename_i c k hget
    obtain ⟨hphase, hfresh, hid, hbytes, hdma, hdone⟩ := h.of_building hget
    split
    · rename_i hbuilt
      have hwindow : s.packet.window 0 (frame c).length = frame c := by
        rw [Memory.window_eq_iff]
        intro i hi
        rw [Nat.zero_add]
        exact hbytes i (hbuilt ▸ hi)
      have hmapped : (s.handed ++ [(c, s.packet.window 0 (frame c).length)]).map Prod.fst =
          s.handed.map Prod.fst ++ [c] := map_append
      have hmem : c ∈ s.handed.map Prod.fst ++ [c] :=
        mem_append_right _ (.head _)
      constructor
      case safe =>
        constructor
        case frames =>
          intro p hp
          rcases mem_append.mp hp with hold | hlast
          · exact h.safe.frames p hold
          · rw [mem_singleton.mp hlast]
            exact hwindow
        case once =>
          rw [hmapped]
          exact h.safe.once.append (nodup_singleton c) (disjoint_singleton.mpr hfresh)
        case returned =>
          intro c' hc'
          obtain ⟨hhanded, hcompleted⟩ := h.safe.returned c' hc'
          rw [hmapped]
          exact ⟨mem_append_left _ hhanded, hcompleted⟩
      case ids =>
        intro c' hc'
        rw [hmapped] at hc'
        rcases mem_append.mp hc' with hold | hlast
        · exact h.ids c' hold
        · rw [mem_singleton.mp hlast]
          exact hid
      case progress =>
        refine .sending t c ?_ (hmapped ▸ hmem) ?_ hdone
        · rw [hphase, update_idem]
        · rw [hdma]
          rfl
    · exact h
  · exact h

theorem Exclusive.dmaDone : Exclusive (linkStep s .dmaDone) := by
  simp only [linkStep]
  split
  · rename_i c hdma
    refine ⟨⟨h.safe.frames, h.safe.once, fun c' hc' => ?_⟩, h.ids, ?_⟩
    · obtain ⟨hhanded, hcompleted⟩ := h.safe.returned c' hc'
      exact ⟨hhanded, mem_append_left _ hcompleted⟩
    · cases h.progress with
      | rest _ hnone _ => cases hnone.symm.trans hdma
      | building _ _ _ _ _ _ _ hnone _ => cases hnone.symm.trans hdma
      | sending t c' hphase hhanded hsome _ =>
        cases hsome.symm.trans hdma
        exact .sent t c hphase hhanded (mem_append_right _ (.head _)) rfl
      | sent _ _ _ _ _ hnone => cases hnone.symm.trans hdma
      | jlSending _ _ hjl _ => cases hjl.symm.trans hdma
      | jlSent _ _ hnone => cases hnone.symm.trans hdma
  · rename_i hdma
    refine ⟨{ h.safe with }, h.ids, ?_⟩
    cases h.progress with
    | rest _ hnone _ => cases hnone.symm.trans hdma
    | building _ _ _ _ _ _ _ hnone _ => cases hnone.symm.trans hdma
    | sending _ _ _ _ hsome _ => cases hsome.symm.trans hdma
    | sent _ _ _ _ _ hnone => cases hnone.symm.trans hdma
    | jlSending t hphase _ _ => exact .jlSent t hphase rfl
    | jlSent _ _ hnone => cases hnone.symm.trans hdma
  · exact h

theorem Exclusive.token (hdone : s.txDone = true) :
    (∃ t c, s.phase = update (fun _ => .idle) t (.waiting c) ∧ c ∈ s.handed.map Prod.fst ∧
      c ∈ s.completed ∧ s.dma = none) ∨
    ∃ t, s.phase = update (fun _ => .idle) t .jlWaiting ∧ s.dma = none := by
  cases h.progress with
  | rest _ _ hnot => cases hnot.symm.trans hdone
  | building _ _ _ _ _ _ _ _ hnot => cases hnot.symm.trans hdone
  | sending _ _ _ _ _ hnot => cases hnot.symm.trans hdone
  | sent t c hphase hhanded hcompleted hdma =>
    exact .inl ⟨t, c, hphase, hhanded, hcompleted, hdma⟩
  | jlSending _ _ _ hnot => cases hnot.symm.trans hdone
  | jlSent t hphase hdma => exact .inr ⟨t, hphase, hdma⟩

theorem Exclusive.take (t : T) : Exclusive (linkStep s (.take t)) := by
  have hrest : ∀ ph, s.phase = update (fun _ => .idle) t ph →
      update s.phase t .idle = fun _ => .idle := by
    intro ph hphase
    rw [hphase, update_idem]
    exact update_eq_self t _
  simp only [linkStep]
  split
  · rename_i c hget
    split
    · rename_i hdone
      rcases h.token hdone with ⟨t', c', hphase, hhanded, hcompleted, hdma⟩ | ⟨t', hphase, _⟩
      · obtain ⟨rfl, hsame⟩ := phase_only hphase hget nofun
        cases hsame
        refine ⟨⟨h.safe.frames, h.safe.once, fun c' hc' => ?_⟩, h.ids,
          .rest (hrest _ hphase) hdma rfl⟩
        rcases mem_append.mp hc' with hold | hlast
        · exact h.safe.returned c' hold
        · rw [mem_singleton.mp hlast]
          exact ⟨hhanded, hcompleted⟩
      · cases (phase_only hphase hget nofun).2
    · exact h
  · rename_i hget
    split
    · rename_i hdone
      rcases h.token hdone with ⟨t', c', hphase, _⟩ | ⟨t', hphase, hdma⟩
      · cases (phase_only hphase hget nofun).2
      · obtain ⟨rfl, -⟩ := phase_only hphase hget nofun
        exact ⟨{ h.safe with }, h.ids, .rest (hrest _ hphase) hdma rfl⟩
    · exact h
  · exact h

end

/-- Without overlap the buffer has one task at a time. -/
theorem exclusive_step (s : Link T) (ev : SendEvent T) (h : Exclusive s)
    (hcond : NoOverlap s ev) : Exclusive (linkStep s ev) := by
  cases ev with
  | call t cmd data => exact h.call t cmd data hcond
  | write t => exact h.write t
  | send t => exact h.send t
  | jlSend t => exact h.jlSend t hcond
  | dmaDone => exact h.dmaDone
  | take t => exact h.take t

/-- **Calls that do not overlap.** If no call and no transfer of the update starts while a task is
    in one of them, whole frames are handed over, and every call waits for its own transfer. -/
theorem send_safe (packet : Memory) (events : List (SendEvent T))
    (hcond : Along linkStep NoOverlap (Link.init T packet) events) :
    Throughout linkStep SendSafe (Link.init T packet) events := by
  have hinv := hcond.throughout exclusive_step (exclusive_init)
  exact hinv.mono fun _ h => h.safe

end Steps

/-- A task sends a frame, and nothing else happens until the call returns. -/
def wholeCall (t : Bool) (cmd : UInt16) (data : List UInt8) : List (SendEvent Bool) :=
  .call t cmd data :: List.replicate (data.length + 7) (.write t) ++ [.send t, .dmaDone, .take t]

theorem wholeCall_noOverlap (h : s.phase = fun _ => .idle) :
    Along linkStep NoOverlap s (wholeCall t cmd data) := by
  refine ⟨fun _ => h, along_of_forall fun ev hev s => ?_⟩
  rcases mem_append.mp hev with hwrite | hlast
  · rw [eq_of_mem_replicate hwrite]
    trivial
  · simp only [mem_cons, not_mem_nil, or_false] at hlast
    rcases hlast with rfl | rfl | rfl <;> trivial

/-- Two tasks send one frame after the other, and between them the update a packet. -/
theorem wholeCalls_safe : Throughout linkStep SendSafe (Link.init Bool fun _ => 0)
      (wholeCall true VB6824_CMD_PLAY [1] ++
        ([.jlSend true, .dmaDone, .take true] ++ wholeCall false VB6824_CMD_STOP_RECORD [])) := by
  apply send_safe
  apply along_append (wholeCall_noOverlap rfl)
  apply along_append
  · refine ⟨?_, trivial, trivial, trivial⟩
    funext t
    cases t <;> decide
  · apply wholeCall_noOverlap
    funext t
    cases t <;> decide

/-- The player sleeps with its frame in the buffer while the event callback builds another
    one. -/
def overwritten : List (SendEvent Bool) :=
  .call true VB6824_CMD_PLAY [1] :: List.replicate 8 (.write true) ++
    .call false VB6824_CMD_STOP_RECORD [] :: List.replicate 7 (.write false) ++ [.send true]

/-- The event callback sends while the transfer of the player is running. -/
def refused : List (SendEvent Bool) :=
  .call true VB6824_CMD_PLAY [1] :: List.replicate 8 (.write true) ++ .send true ::
    .call false VB6824_CMD_STOP_RECORD [] :: List.replicate 7 (.write false) ++
      [.send false, .dmaDone, .take false]

/-- The player hands over the other task's frame with its own length; and a call returns whose frame
    was never sent. -/
theorem calls_overlap : ¬ SendSafe (overwritten.foldl linkStep (Link.init Bool fun _ => 0)) ∧
    ¬ SendSafe (refused.foldl linkStep (Link.init Bool fun _ => 0)) := by
  constructor
  · intro hsafe
    have hframe := hsafe.frames _ (.head _)
    exact absurd hframe (by decide +kernel)
  · intro hsafe
    have hcompleted := (hsafe.returned _ (.head _)).2
    exact absurd hcompleted (by decide +kernel)

end AmebaRtos.Vb6824
