import Mathlib.Data.Vector.Defs
import Mathlib.Data.List.Induction
import AmebaRtos.Lib.Memory
import AmebaRtos.Lib.Run

/-!
# The UART driver of the WHC device

The host sends frames of `UART_BUFSZ` bytes. `whc_uart_dev_irq` puts the bytes that it can read in
the receive buffer and wakes the receive task at the end of a frame; it is disabled until the task
has handed the frame up. An interrupt that reads beyond the end of the frame counts the bytes that
it drops towards the next one.

With hardware flow control, `line` are the bytes that the driver has not read, `handed` the frames
handed up, and `failed` the number of frames for which no buffer was found.
-/

namespace AmebaRtos.Whc

open Lib
open List hiding Vector

def MAXIMUM_ETHERNET_PACKET_SIZE : Nat := 1514

/-- `sizeof(struct whc_msg_info)`. -/
def MSG_INFO_SIZE : Nat := 16

def uartDmaAlign (x : Nat) : Nat := ((x - 1) >>> 5 + 1) <<< 5

def UART_BUFSZ : Nat := uartDmaAlign (MAXIMUM_ETHERNET_PACKET_SIZE + MSG_INFO_SIZE)

def WHC_WIFI_EVT_XIMT_PKTS : Nat := 0xa5a5a500

/-- The data of a `sk_buff` of this driver. -/
abbrev Skb := Vector UInt8 UART_BUFSZ

variable (skb : Skb)

def eventOf : Nat := fromLE (skb.toList.take 4)

inductive RxState where
  | rxDone
  | rxHeader
  | rxPayload
  | rxEnd
deriving DecidableEq

/-- Where the receive task is: it waits, has read the event, has handed the frame up, or has set the
    state and not yet enabled the interrupt. -/
inductive RxTask where
  | waiting
  | received (event : Nat)
  | handled
  | ready
deriving DecidableEq

/-- The receiving side of `uart_priv`. -/
structure UartPriv where
  rxState : RxState
  rxSizeDone : Nat
  rxSizeTotal : Nat
  rxSkb : Skb
  rxIrq : Bool
  rxirqSema : Nat
  task : RxTask
  line : List UInt8
  handed : List Skb
  failed : Nat

variable (frames : List Skb)

def hostStream : List UInt8 := frames.flatMap Vector.toList

/-- `whc_uart_dev_device_init`; the buffer holds what the memory held. -/
def UartPriv.init : UartPriv :=
  ⟨.rxDone, 0, 0, skb, true, 0, .waiting, hostStream frames, [], 0⟩

variable (p : UartPriv)

/-- One pass of the loop of `whc_uart_dev_irq`. -/
def receiveByte (dataRead : UInt8) : UartPriv :=
  let p := { p with rxSizeDone := p.rxSizeDone + 1 }
  match p.rxState with
  | .rxDone =>
    { p with
      rxState := .rxPayload
      rxSizeTotal := UART_BUFSZ
      rxSkb := p.rxSkb.setIfInBounds (p.rxSizeDone - 1) dataRead }
  | .rxPayload =>
    let p := { p with rxSkb := p.rxSkb.setIfInBounds (p.rxSizeDone - 1) dataRead }
    if p.rxSizeDone = p.rxSizeTotal then
      { p with rxState := .rxEnd, rxSizeDone := 0, rxIrq := false, rxirqSema := p.rxirqSema + 1 }
    else p
  | .rxEnd => { p with rxIrq := false }
  | .rxHeader => p

/-- `whc_uart_dev_irq`, which finds `n` bytes readable before it returns. -/
def devIrq (n : Nat) (p : UartPriv) : UartPriv :=
  (p.line.take n).foldl receiveByte { p with line := p.line.drop n }

/-- `whc_uart_dev_dma_rx_done_cb` up to the hand over; `buf` is the memory found. Without a
    `sk_buff` it tries again later, without a buffer the frame is lost. -/
def rxDoneCb (event : Nat) (buf : Option Skb) (p : UartPriv) : UartPriv :=
  if event = WHC_WIFI_EVT_XIMT_PKTS then
    match buf with
    | none => p
    | some newSkb => { p with rxSkb := newSkb, handed := p.handed ++ [p.rxSkb], task := .handled }
  else
    match buf with
    | none => { p with failed := p.failed + 1, task := .handled }
    | some _ => { p with handed := p.handed ++ [p.rxSkb], task := .handled }

/-- An interrupt with the bytes that it reads, or the next step of the receive task with the
    result of an allocation. -/
inductive UartAction where
  | irq (n : Nat)
  | task (buf : Option Skb)

/-- The next step of `whc_uart_dev_rxdma_irq_task`. -/
def taskStep (buf : Option Skb) (p : UartPriv) : UartPriv :=
  match p.task with
  | .waiting =>
    if p.rxirqSema = 0 then p
    else { p with rxirqSema := p.rxirqSema - 1, task := .received (eventOf p.rxSkb) }
  | .received event => rxDoneCb event buf p
  | .handled => { p with rxState := .rxDone, task := .ready }
  | .ready => { p with rxIrq := true, task := .waiting }

def uartStep : UartAction → UartPriv
  | .irq n => if p.rxIrq then devIrq n p else p
  | .task buf => taskStep buf p

/-! ### Filling the buffer -/

theorem one_lt_bufsz : 1 < UART_BUFSZ := by decide

theorem take_set_append {l got : List UInt8} (hlen : got.length < l.length)
    (hstored : l.take got.length = got) :
    (l.set got.length b).take (got.length + 1) = got ++ [b] := by
  rw [take_add_one, take_set_of_le (Nat.le_refl _), hstored, getElem?_set_self hlen]
  rfl

/-- The frames of `done` were taken by the task; what it handed up of them is in order. -/
structure Handed (done : List Skb) (line : List UInt8) (p : UartPriv) : Prop where
  sublist : p.handed.Sublist done
  counted : p.handed.length + p.failed = done.length
  line : p.line = line

/-- The driver is receiving, and the buffer starts with `got`. -/
structure Filling (done : List Skb) (got line : List UInt8) (p : UartPriv) : Prop
    extends Handed done line p where
  count : p.rxSizeDone = got.length
  stored : p.rxSkb.toList.take got.length = got
  state : p.rxState = .rxDone ∧ got.length + 1 < UART_BUFSZ ∨
    p.rxState = .rxPayload ∧ p.rxSizeTotal = UART_BUFSZ ∧ got.length < UART_BUFSZ
  enabled : p.rxIrq = true
  sema : p.rxirqSema = 0
  task : p.task = .waiting

/-- The buffer holds a frame that the task has still to hand up, and the interrupt has dropped
    `k` bytes behind it. -/
structure Full (done : List Skb) (frame : Skb) (k : Nat) (line : List UInt8) (p : UartPriv) : Prop
    extends Handed done line p where
  holds : p.rxSkb = frame
  state : p.rxState = .rxEnd
  count : p.rxSizeDone = k
  off : p.rxIrq = false
  task : p.rxirqSema = 1 ∧ p.task = .waiting ∨ p.rxirqSema = 0 ∧ p.task = .received (eventOf frame)

structure Leaving (done : List Skb) (skb : Skb) (k : Nat) (line : List UInt8) (p : UartPriv) : Prop
    extends Handed done line p where
  holds : p.rxSkb = skb
  count : p.rxSizeDone = k
  off : p.rxIrq = false
  sema : p.rxirqSema = 0
  task : p.task = .handled ∨ p.rxState = .rxDone ∧ p.task = .ready

section Filling

variable {p : UartPriv}

variable (h : Filling done got line p)
include h

theorem Filling.short : got.length < UART_BUFSZ := by
  rcases h.state with ⟨-, hlt⟩ | ⟨-, -, hlt⟩
  · exact Nat.lt_of_succ_lt hlt
  · exact hlt

theorem Filling.stored_byte (b : UInt8) :
    (p.rxSkb.setIfInBounds (p.rxSizeDone + 1 - 1) b).toList.take (got.length + 1) = got ++ [b] := by
  rw [h.count, Vector.toList_setIfInBounds]
  apply take_set_append
  · rw [Vector.length_toList]
    exact h.short
  · exact h.stored

theorem Filling.byte (b : UInt8) (hshort : got.length + 1 < UART_BUFSZ) :
    Filling done (got ++ [b]) line (receiveByte p b) := by
  have hstored := h.stored_byte b
  have hlen : (got ++ [b]).length = got.length + 1 := length_append
  rw [← hlen] at hstored hshort
  have hcount : p.rxSizeDone + 1 = (got ++ [b]).length := by rw [h.count, hlen]
  rcases h.state with ⟨hdone, -⟩ | ⟨hpayload, htotal, -⟩
  · simp only [receiveByte, hdone]
    exact { h with count := hcount, stored := hstored, state := .inr ⟨rfl, rfl, hshort⟩ }
  have hmore : ¬ p.rxSizeDone + 1 = p.rxSizeTotal := by
    rw [hcount, htotal]
    exact Nat.ne_of_lt hshort
  simp only [receiveByte, hpayload, if_neg hmore]
  exact { h with count := hcount, stored := hstored, state := .inr ⟨rfl, htotal, hshort⟩ }

theorem Filling.last (hframe : got ++ [b] = frame.toList) :
    Full done frame 0 line (receiveByte p b) := by
  have hlen : got.length + 1 = UART_BUFSZ := by
    have hlength := congrArg List.length hframe
    rwa [length_append, Vector.length_toList] at hlength
  rcases h.state with ⟨-, hlt⟩ | ⟨hpayload, htotal, -⟩
  · exact absurd hlen (Nat.ne_of_lt hlt)
  have hend : p.rxSizeDone + 1 = p.rxSizeTotal := by rw [h.count, hlen, htotal]
  have hskb : p.rxSkb.setIfInBounds (p.rxSizeDone + 1 - 1) b = frame := by
    have hstored := h.stored_byte b
    rw [hlen, hframe, take_of_length_le (Nat.le_of_eq Vector.length_toList)] at hstored
    exact Vector.toList_inj.mp hstored
  simp only [receiveByte, hpayload, if_pos hend]
  exact { h with
    holds := hskb, state := rfl, count := rfl, off := rfl
    task := .inl ⟨by rw [h.sema], h.task⟩ }

theorem Filling.bytes (bs : List UInt8) (hshort : got.length + bs.length < UART_BUFSZ) :
    Filling done (got ++ bs) line (bs.foldl receiveByte p) := by
  induction bs generalizing got p with
  | nil => rwa [append_nil]
  | cons b bs ih =>
    rw [length_cons] at hshort
    have hbyte := h.byte b (by omega)
    have hrest := ih hbyte (by rw [length_append, length_singleton]; omega)
    rwa [append_assoc] at hrest

theorem Filling.whole (hframe : got ++ bs = frame.toList) :
    Full done frame 0 line (bs.foldl receiveByte p) := by
  have hlen : got.length + bs.length = UART_BUFSZ := by
    rw [← length_append, hframe, Vector.length_toList]
  rcases eq_nil_or_concat bs with rfl | ⟨first, b, rfl⟩
  · exact absurd hlen (Nat.ne_of_lt h.short)
  rw [concat_eq_append] at hframe hlen ⊢
  rw [length_append, length_singleton] at hlen
  rw [foldl_append]
  refine (h.bytes first (by omega)).last ?_
  rw [append_assoc, hframe]

end Filling

/-! ### The receive task -/

section

variable {p : UartPriv} {frame skb : Skb}

theorem Full.byte (h : Full done frame k line p) (b : UInt8) :
    Full done frame (k + 1) line (receiveByte p b) := by
  simp only [receiveByte, h.state]
  exact { h with count := congrArg (· + 1) h.count, off := rfl, state := rfl }

theorem Full.task_step (h : Full done frame k line p) (buf : Option Skb) :
    Full done frame k line (taskStep buf p) ∨
      ∃ skb, Leaving (done ++ [frame]) skb k line (taskStep buf p) := by
  rcases h.task with ⟨hsema, htask⟩ | ⟨hsema, htask⟩
  · left
    have hone : ¬ p.rxirqSema = 0 := by simp [hsema]
    simp only [taskStep, htask, if_neg hone]
    exact { h with task := .inr ⟨by rw [hsema], by rw [h.holds]⟩ }
  simp only [taskStep, htask, rxDoneCb]
  have hsublist : (p.handed ++ [p.rxSkb]).Sublist (done ++ [frame]) := by
    rw [h.holds]
    exact h.sublist.append_right [frame]
  have hcounted : (p.handed ++ [p.rxSkb]).length + p.failed = (done ++ [frame]).length := by
    have := h.counted
    simp only [length_append, length_singleton]
    omega
  by_cases hevent : eventOf frame = WHC_WIFI_EVT_XIMT_PKTS
  · rw [if_pos hevent]
    cases buf with
    | none => exact .inl h
    | some newSkb =>
      exact .inr ⟨newSkb, ⟨hsublist, hcounted, h.line⟩, rfl, h.count, h.off, hsema, .inl rfl⟩
  rw [if_neg hevent]
  right
  refine ⟨frame, ?_⟩
  cases buf with
  | none =>
    refine ⟨⟨h.sublist.trans (sublist_append_left done [frame]), ?_, h.line⟩,
      h.holds, h.count, h.off, hsema, .inl rfl⟩
    have := h.counted
    simp only [length_append, length_singleton]
    omega
  | some _ =>
    exact ⟨⟨hsublist, hcounted, h.line⟩, h.holds, h.count, h.off, hsema, .inl rfl⟩

theorem Leaving.task_step (h : Leaving done skb k line p) (hk : k + 1 < UART_BUFSZ)
    (buf : Option Skb) :
    Leaving done skb k line (taskStep buf p) ∨
      Filling done (skb.toList.take k) line (taskStep buf p) := by
  rcases h.task with htask | ⟨hstate, htask⟩
  · left
    simp only [taskStep, htask]
    exact { h with task := .inr ⟨rfl, rfl⟩ }
  right
  simp only [taskStep, htask]
  have hlen : (skb.toList.take k).length = k := by
    rw [length_take, Vector.length_toList]
    omega
  refine ⟨⟨h.sublist, h.counted, h.line⟩, ?_, ?_, .inl ⟨hstate, ?_⟩, rfl, h.sema, rfl⟩
  · rw [hlen]
    exact h.count
  · rw [hlen, h.holds]
  · rwa [hlen]

end

/-! ### Runs -/

def UartCond : UartAction → Prop
  | .irq n => p.rxIrq = true → p.rxSizeDone + min n p.line.length ≤ UART_BUFSZ
  | .task _ => True

/-- Frames of the host were handed up in order, but for those without a buffer. The frame that is
    received starts at the front of the buffer. -/
def InOrder : Prop :=
  ∃ done rest, frames = done ++ rest ∧ p.handed.Sublist done ∧
    p.handed.length + p.failed = done.length ∧
    (p.rxIrq = true → p.rxSkb.toList.take p.rxSizeDone ++ p.line = hostStream rest)

/-- The frames of `rest` are still to come. -/
def Ahead (done rest : List Skb) (p : UartPriv) : Prop :=
  (∃ got line, Filling done got line p ∧ got ++ line = hostStream rest) ∨
    (∃ frame rest', rest = frame :: rest' ∧ Full done frame 0 (hostStream rest') p) ∨
    ∃ skb, Leaving done skb 0 (hostStream rest) p

theorem Ahead.inOrder {done rest : List Skb} {p : UartPriv} (h : Ahead done rest p) :
    InOrder (done ++ rest) p := by
  rcases h with ⟨got, line, h, hline⟩ | ⟨frame, rest', rfl, h⟩ | ⟨skb, h⟩
  · refine ⟨done, rest, rfl, h.sublist, h.counted, fun _ => ?_⟩
    rw [h.count, h.stored, h.line, hline]
  · exact ⟨done, frame :: rest', rfl, h.sublist, h.counted, fun hon => by simp [h.off] at hon⟩
  · exact ⟨done, rest, rfl, h.sublist, h.counted, fun hon => by simp [h.off] at hon⟩

theorem Filling.irq {p : UartPriv} (h : Filling done got line p)
    (hline : got ++ line = hostStream rest) {n : Nat}
    (hwithin : got.length + (line.take n).length ≤ UART_BUFSZ) : Ahead done rest (devIrq n p) := by
  have hread : Filling done got (line.drop n) { p with line := p.line.drop n } :=
    { h with line := by rw [h.line] }
  rw [devIrq, h.line]
  rw [h.line] at hread
  have hall : (got ++ line.take n) ++ line.drop n = hostStream rest := by
    rw [append_assoc, take_append_drop, hline]
  rcases Nat.lt_or_eq_of_le hwithin with hlt | heq
  · exact .inl ⟨_, _, hread.bytes (line.take n) hlt, hall⟩
  cases rest with
  | nil =>
    have hnil : got ++ line.take n = [] := (append_eq_nil_iff.mp hall).1
    rw [← length_append, hnil] at heq
    exact absurd heq (by decide)
  | cons frame rest =>
    obtain ⟨hframe, hdrop⟩ := append_inj hall
      (by rw [length_append, heq, Vector.length_toList])
    rw [hdrop] at hread ⊢
    exact .inr (.inl ⟨frame, rest, rfl, hread.whole hframe⟩)

/-- No step loses the place in the stream. -/
theorem Ahead.step {p : UartPriv} (h : Ahead done rest p) {a : UartAction} (hcond : UartCond p a) :
    ∃ done' rest', done ++ rest = done' ++ rest' ∧ Ahead done' rest' (uartStep p a) := by
  cases a with
  | irq n =>
    refine ⟨done, rest, rfl, ?_⟩
    rcases h with ⟨got, line, h, hline⟩ | ⟨frame, rest', rfl, h⟩ | ⟨skb, h⟩
    · have hwithin : got.length + (line.take n).length ≤ UART_BUFSZ := by
        have hle := hcond h.enabled
        rwa [h.count, h.line, ← length_take] at hle
      rw [uartStep, if_pos h.enabled]
      exact h.irq hline hwithin
    · rw [uartStep, h.off]
      exact .inr (.inl ⟨frame, rest', rfl, h⟩)
    · rw [uartStep, h.off]
      exact .inr (.inr ⟨skb, h⟩)
  | task buf =>
    rw [uartStep]
    rcases h with ⟨got, line, h, hline⟩ | ⟨frame, rest', rfl, h⟩ | ⟨skb, h⟩
    · have hsame : taskStep buf p = p := by simp [taskStep, h.task, h.sema]
      rw [hsame]
      exact ⟨done, rest, rfl, .inl ⟨got, line, h, hline⟩⟩
    · rcases h.task_step buf with h' | ⟨skb, h'⟩
      · exact ⟨done, frame :: rest', rfl, .inr (.inl ⟨frame, rest', rfl, h'⟩)⟩
      · exact ⟨done ++ [frame], rest', by simp, .inr (.inr ⟨skb, h'⟩)⟩
    · refine ⟨done, rest, rfl, ?_⟩
      rcases h.task_step one_lt_bufsz buf with h' | h'
      · exact .inr (.inr ⟨skb, h'⟩)
      · exact .inl ⟨_, _, h', rfl⟩

theorem filling_init : Filling [] [] (hostStream frames) (.init skb frames) :=
  ⟨⟨List.Sublist.refl [], rfl, rfl⟩, rfl, rfl, .inl ⟨rfl, one_lt_bufsz⟩, rfl, rfl, rfl⟩

/-- In every run whose interrupts stop at the end of a frame, the frames are handed up as the
    host sent them. -/
theorem frames_in_order {acts : List UartAction}
    (hcond : Along uartStep UartCond (.init skb frames) acts) :
    Throughout uartStep (InOrder frames) (.init skb frames) acts := by
  have hrun : Throughout uartStep (fun p => ∃ done rest, frames = done ++ rest ∧ Ahead done rest p)
      (.init skb frames) acts := by
    refine Along.throughout ?_ ⟨[], frames, rfl, .inl ⟨[], _, filling_init skb frames, rfl⟩⟩ hcond
    rintro p a ⟨done, rest, rfl, h⟩ ha
    obtain ⟨done', rest', hsplit, h'⟩ := h.step ha
    exact ⟨done', rest', hsplit, h'⟩
  refine hrun.mono ?_
  rintro p ⟨done, rest, rfl, h⟩
  exact h.inOrder

/-- Two frames of a host. -/
def zeros : Skb := Vector.replicate UART_BUFSZ 0
def ones : Skb := Vector.replicate UART_BUFSZ 1

/-- An interrupt reads `n` bytes, and the task hands up the frame. -/
def frameRead (n : Nat) : List UartAction :=
  .irq n :: List.replicate 4 (.task (some zeros))

theorem frames_in_order_frameRead :
    Throughout uartStep (InOrder [zeros, ones]) (.init zeros [zeros, ones])
      (frameRead UART_BUFSZ) := by
  apply frames_in_order
  refine ⟨?_, trivial, trivial, trivial, trivial, trivial⟩
  intro _
  rw [UartPriv.init, zero_add]
  exact Nat.min_le_left _ _

/-! ### An interrupt that reads too much -/

section

variable {line : List UInt8} {p : UartPriv}

theorem receiveByte_kept (p : UartPriv) (b : UInt8) :
    (receiveByte p b).failed = p.failed ∧ (receiveByte p b).task = p.task := by
  simp only [receiveByte]
  split
  · exact ⟨rfl, rfl⟩
  · split <;> exact ⟨rfl, rfl⟩
  · exact ⟨rfl, rfl⟩
  · exact ⟨rfl, rfl⟩

theorem devIrq_kept (n : Nat) (p : UartPriv) :
    (devIrq n p).failed = p.failed ∧ (devIrq n p).task = p.task := by
  have hbytes : ∀ (bs : List UInt8) (q : UartPriv),
      (bs.foldl receiveByte q).failed = q.failed ∧ (bs.foldl receiveByte q).task = q.task := by
    intro bs
    induction bs with
    | nil => exact fun q => ⟨rfl, rfl⟩
    | cons b bs ih =>
      intro q
      have hone := receiveByte_kept q b
      have hrest := ih (receiveByte q b)
      exact ⟨hrest.1.trans hone.1, hrest.2.trans hone.2⟩
  exact hbytes _ _

theorem Handed.handed_eq (h : Handed done line p) (hfailed : p.failed = 0) : p.handed = done :=
  h.sublist.eq_of_length (by rw [← h.counted, hfailed, add_zero])

theorem Full.hand_up (h : Full done frame k line p) (hwaiting : p.task = .waiting)
    (hevent : eventOf frame ≠ WHC_WIFI_EVT_XIMT_PKTS) (buf : Skb) :
    (List.replicate 4 (UartAction.task (some buf))).foldl uartStep p =
      { p with
        rxState := .rxDone, rxIrq := true, rxirqSema := 0, task := .waiting
        handed := p.handed ++ [frame] } := by
  have hsema : p.rxirqSema = 1 := by
    rcases h.task with ⟨hsema, -⟩ | ⟨-, htask⟩
    · exact hsema
    · rw [hwaiting] at htask
      exact RxTask.noConfusion htask
  simp [uartStep, taskStep, rxDoneCb, hwaiting, hsema, h.holds, hevent]

theorem Filling.overrun (h : Filling done [] (frame.toList ++ b :: line) p) :
    Full done frame 1 line (devIrq (UART_BUFSZ + 1) p) := by
  have hlen : (frame.toList ++ [b]).length = UART_BUFSZ + 1 := by simp
  have hline : p.line = (frame.toList ++ [b]) ++ line := by simp [h.line]
  have htake : p.line.take (UART_BUFSZ + 1) = frame.toList ++ [b] := by
    rw [hline, take_left' hlen]
  have hdrop : p.line.drop (UART_BUFSZ + 1) = line := by
    rw [hline, drop_left' hlen]
  have hread : Filling done [] line { p with line := line } := { h with line := rfl }
  rw [devIrq, htake, hdrop, foldl_append]
  exact (hread.whole rfl).byte b

theorem Filling.drain (h : Filling done got line p) (hframe : got ++ line = frame.toList) :
    Full done frame 0 [] (devIrq line.length p) := by
  have hread : Filling done got [] { p with line := [] } := { h with line := rfl }
  rw [devIrq, h.line, take_length, drop_length]
  exact hread.whole hframe

theorem Full.filling (h : Full done frame k line p) (hk : k + 1 < UART_BUFSZ)
    (hwaiting : p.task = .waiting)
    (hevent : eventOf frame ≠ WHC_WIFI_EVT_XIMT_PKTS) (buf : Skb) :
    Filling (done ++ [frame]) (frame.toList.take k) line
      ((List.replicate 4 (UartAction.task (some buf))).foldl uartStep p) := by
  have hlen : (frame.toList.take k).length = k := by
    rw [length_take, Vector.length_toList]
    omega
  rw [h.hand_up hwaiting hevent buf]
  refine ⟨⟨h.sublist.append_right [frame], ?_, h.line⟩, ?_, ?_, .inl ⟨rfl, by rwa [hlen]⟩,
    rfl, rfl, rfl⟩
  · have := h.counted
    simp only [length_append]
    omega
  · rw [hlen]
    exact h.count
  · rw [hlen, h.holds]

end

/-- The ones behind a byte of the other frame. -/
def mixed : Skb := ones.setIfInBounds 0 0

theorem mixed_toList : [0] ++ List.replicate (UART_BUFSZ - 1) 1 = mixed.toList := by
  have hones : ones.toList = 1 :: List.replicate (UART_BUFSZ - 1) 1 := Vector.toList_replicate
  rw [mixed, Vector.toList_setIfInBounds, hones]
  rfl

/-- The second frame of the host is handed up with a byte of the first one. -/
theorem second_frame_mixed :
    ((frameRead (UART_BUFSZ + 1) ++ frameRead (UART_BUFSZ - 1)).foldl uartStep
      (.init zeros [zeros, ones])).handed = [zeros, mixed] ∧ mixed ∉ [zeros, ones] := by
  constructor
  · have hstream : hostStream [zeros, ones] =
        zeros.toList ++ 1 :: List.replicate (UART_BUFSZ - 1) 1 := by
      have hones : ones.toList = 1 :: List.replicate (UART_BUFSZ - 1) 1 := Vector.toList_replicate
      simp [hostStream, hones]
    have hfirst := filling_init zeros [zeros, ones]
    rw [hstream] at hfirst
    have hfull := hfirst.overrun
    have hkept := devIrq_kept (UART_BUFSZ + 1) (.init zeros [zeros, ones])
    rw [frameRead, frameRead, cons_append, foldl_cons, foldl_append, foldl_cons]
    change ((List.replicate 4 _).foldl uartStep (uartStep ((List.replicate 4 _).foldl uartStep
      (devIrq (UART_BUFSZ + 1) (.init zeros [zeros, ones]))) _)).handed = _
    generalize devIrq (UART_BUFSZ + 1) (.init zeros [zeros, ones]) = p at hfull hkept ⊢
    have hnext := hfull.filling (by decide) hkept.2 (by decide +kernel) zeros
    have hstep := hfull.hand_up hkept.2 (by decide +kernel) zeros
    generalize (List.replicate 4 (UartAction.task (some zeros))).foldl uartStep p = q
      at hnext hstep ⊢
    have hdrain := hnext.drain mixed_toList
    rw [length_replicate] at hdrain
    have hkept' := devIrq_kept (UART_BUFSZ - 1) q
    rw [uartStep, if_pos hnext.enabled, hdrain.hand_up (hkept'.2.trans hnext.task)
      (by decide +kernel)]
    have hfailed : (devIrq (UART_BUFSZ - 1) q).failed = 0 := by
      rw [hkept'.1, hstep]
      exact hkept.1
    rw [hdrain.handed_eq hfailed]
    rfl
  · have hzeros : mixed ≠ zeros := fun h =>
      absurd (congrArg (fun skb : Skb => skb.toList[1]?) h) (by decide +kernel)
    have hones : mixed ≠ ones := fun h =>
      absurd (congrArg (fun skb : Skb => skb.toList[0]?) h) (by decide +kernel)
    simp [hzeros, hones]

end AmebaRtos.Whc
