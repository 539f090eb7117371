import Mathlib.Data.List.Induction
import AmebaRtos.Lib.Run

/-!
# The transparent transmission mode of the AT commands

The packets of the host go to a ring buffer from which `atcmd_tt_mode_get` reads. Three packets
that hold a single `<` each, followed by silence, end the mode. The UART handler and the SPI task
count these packets in the same way, but the one puts every packet in the ring buffer and the
other none that holds a single `<`. The ring buffer is modelled by its contents, at most its size
less one.
-/

namespace AmebaRtos.AtCmd

open Lib List

def UART_TT_BUF_LEN : Nat := 1024
def ATCMD_SPI_DMA_SIZE : Nat := 2048 * 8
def MAX_TT_BUF_LEN : Nat := 1024 * 10
def MAX_TT_HEAP_SIZE : Nat := 1024 * 80

/-- The packet with a single `<`. -/
def STOP_CHAR : List UInt8 := [0x3c]

inductive Transport where
  | uart
  | spi
deriving DecidableEq, Repr

/-- The state of the mode. `wanted` is what a call of `atcmd_tt_mode_get` still asks for; `host` are
    the packets received in the mode and `returned` the bytes returned since it was entered. -/
structure TtMode where
  ttMode : Bool
  stopFlag : Bool
  stopCharCnt : UInt8
  timerActive : Bool
  ringSize : Nat
  ring : List UInt8
  wanted : Option Nat
  host : List (List UInt8)
  returned : List UInt8

variable (t : Transport) (host : List (List UInt8)) (data : List UInt8) (s : TtMode)

namespace TtMode

/-- `RingBuffer_Space`. -/
def space : Nat := s.ringSize - 1 - s.ring.length

/-- What the calls of `atcmd_tt_mode_get` returned, and what they will return next. -/
def output : List UInt8 := s.returned ++ s.ring

end TtMode

/-- `atcmd_tt_mode_start`. The number of stop characters and the timer are left as they
    are. -/
def atcmdTtModeStart (len : Nat) (s : TtMode) : TtMode :=
  { s with
    ttMode := true
    ringSize := if MAX_TT_HEAP_SIZE ≤ len then MAX_TT_HEAP_SIZE else len + 1
    ring := []
    wanted := none
    host := []
    returned := [] }

/-- The loop of `atcmd_tt_mode_get`, one pass. It waits while the ring buffer is empty. -/
def atcmdTtModeGetPass : TtMode :=
  match s.wanted with
  | none => s
  | some getLen =>
    if getLen = 0 ∨ (s.stopFlag ∧ s.ring = []) then { s with wanted := none }
    else
      let actualLen := min s.ring.length getLen
      { s with
        ring := s.ring.drop actualLen
        returned := s.returned ++ s.ring.take actualLen
        wanted := some (getLen - actualLen) }

/-- The start of `atcmd_tt_mode_get`. -/
def atcmdTtModeGet (len : Nat) (s : TtMode) : TtMode :=
  { s with wanted := some (if MAX_TT_BUF_LEN < len then MAX_TT_BUF_LEN else len) }

def atcmdTtModeEnd : TtMode := { s with ttMode := false, stopFlag := false }

/-- `tt_mode_timeout_handler`. The timer runs once. -/
def ttModeTimeoutHandler : TtMode :=
  { s with stopFlag := true, stopCharCnt := 0, timerActive := false }

def ttTimer : TtMode :=
  let s := if s.stopFlag = false ∧ s.timerActive then
      { s with timerActive := false, stopCharCnt := 0 } else s
  if 3 ≤ s.stopCharCnt ∧ s.timerActive = false then { s with timerActive := true } else s

/-- The transparent mode of `atio_uart_handler`, for what one pass of its loop collected. -/
def uartPacket : TtMode :=
  if data = [] then s
  else
    let s := if data.length ≤ s.space then { s with ring := s.ring ++ data } else s
    ttTimer { s with stopCharCnt := if data = STOP_CHAR then s.stopCharCnt + 1 else 0 }

/-- The transparent mode of `atcmd_spi_task`. A packet without room waits. -/
def spiPacket : TtMode :=
  if ATCMD_SPI_DMA_SIZE - 8 < data.length then s
  else if s.ringSize < data.length then { s with stopFlag := true, stopCharCnt := 0 }
  else
    ttTimer <|
      if data = STOP_CHAR then { s with stopCharCnt := s.stopCharCnt + 1 }
      else if data.length ≤ s.space then { s with stopCharCnt := 0, ring := s.ring ++ data }
      else { s with stopCharCnt := 0 }

def ttPacket : TtMode :=
  match t with
  | .uart => uartPacket data s
  | .spi => spiPacket data s

inductive Event where
  | start (len : Nat)
  | packet (data : List UInt8)
  | timeout
  | get (len : Nat)
  | pass
  | finish
deriving DecidableEq, Repr

/-- A step of the mode. Packets outside of the mode are AT commands. -/
def ttStep : Event → TtMode
  | .start len => if s.ttMode then s else atcmdTtModeStart len s
  | .packet data =>
    if s.ttMode then
      { ttPacket t data s with host := if s.stopFlag then s.host else s.host ++ [data] }
    else s
  | .timeout => if s.timerActive then ttModeTimeoutHandler s else s
  | .get len => if s.ttMode ∧ s.wanted = none then atcmdTtModeGet len s else s
  | .pass => atcmdTtModeGetPass s
  | .finish => if s.ttMode ∧ s.wanted = none then atcmdTtModeEnd s else s

/-- The state after the start of the device. -/
def TtMode.init : TtMode where
  ttMode := false
  stopFlag := false
  stopCharCnt := 0
  timerActive := false
  ringSize := 0
  ring := []
  wanted := none
  host := []
  returned := []

/-! ### The terminator -/

/-- The packets at the end that can still become a terminator. A fourth packet breaks the silence.
-/
def pendingStep (pending : Nat) (data : List UInt8) : Nat :=
  if data = STOP_CHAR ∧ pending < 3 then pending + 1 else 0

def pending : Nat := host.foldl pendingStep 0

/-- In the mode, the output is the bytes of the host in order, but for what can still become a
    terminator; once it is stopped, without the three packets of the terminator. -/
def Faithful : Prop :=
  s.ttMode = true → (s.stopFlag = true →
      pending s.host = 3 ∧ s.output = (s.host.take (s.host.length - 3)).flatten)
    ∧ (s.stopFlag = false →
      (∃ k, k ≤ pending s.host ∧ s.output = (s.host.take (s.host.length - k)).flatten)
        ∧ (pending s.host = 3 → s.timerActive = true))

/-- The packet is one that the transport can receive, and the ring buffer has room for it. -/
def HasRoom : Event → Prop
  | .packet data => s.ttMode = true → data.length ≤ s.space
      ∧ match t with
        | .uart => data ≠ [] ∧ data.length ≤ UART_TT_BUF_LEN
        | .spi => data.length ≤ ATCMD_SPI_DMA_SIZE - 8
  | _ => True

/-- The mode is entered without a stop flag, stop characters or a running timer. -/
def CleanStart : Event → Prop
  | .start _ => s.ttMode = false →
      s.stopFlag = false ∧ s.stopCharCnt = 0 ∧ s.timerActive = false
  | _ => True

/-- What the transports need: over UART, no stop timer expires. Over SPI, no packet with a single
    `<` turns out to be data. Nothing arrives between the stop and the end of the mode. -/
def Deliverable : Event → Prop
  | .packet data => s.ttMode = true →
      (s.stopFlag = true → t = .spi ∧ (data = STOP_CHAR ∨ data = []))
      ∧ (s.stopFlag = false → t = .spi →
        pending s.host = 0 ∨ (data = STOP_CHAR ∧ pending s.host < 3))
  | .timeout => s.ttMode = true → s.timerActive = true → s.stopFlag = false → t = .spi
  | _ => True

theorem pending_append : pending (host ++ [data]) = pendingStep (pending host) data := by
  simp [pending]

theorem pendingStep_le (data : List UInt8) : pendingStep n data ≤ 3 := by
  unfold pendingStep
  split_ifs with h
  · exact h.2
  · exact Nat.zero_le 3

theorem pending_le : pending host ≤ 3 := by
  induction host using List.reverseRecOn with
  | nil => exact Nat.zero_le 3
  | append_singleton host data _ =>
    rw [pending_append]
    exact pendingStep_le _

theorem pendingStep_stop (h : n < 3) : pendingStep n STOP_CHAR = n + 1 :=
  if_pos ⟨rfl, h⟩

variable {data : List UInt8}

theorem pendingStep_other (h : ¬(data = STOP_CHAR ∧ n < 3)) : pendingStep n data = 0 :=
  if_neg h

theorem host_eq_pending :
    host = host.take (host.length - pending host) ++ List.replicate (pending host) STOP_CHAR := by
  induction host using List.reverseRecOn with
  | nil => rfl
  | append_singleton host data ih =>
    rw [pending_append]
    by_cases hstep : data = STOP_CHAR ∧ pending host < 3
    · obtain ⟨rfl, hlt⟩ := hstep
      rw [pendingStep_stop hlt, length_append, length_singleton, Nat.add_sub_add_right,
        take_append_of_le_length (Nat.sub_le _ _), replicate_succ', ← append_assoc,
        ← ih]
    · rw [pendingStep_other hstep, Nat.sub_zero, take_length, replicate_zero, append_nil]

theorem length_flatten_pending : host.flatten.length
      = (host.take (host.length - pending host)).flatten.length + pending host := by
  conv_lhs => rw [host_eq_pending host]
  simp [STOP_CHAR]

/-! ### A packet -/

def written (data : List UInt8) : List UInt8 :=
  match t with
  | .uart => data
  | .spi => if data = STOP_CHAR then [] else data

def withheld : Nat :=
  match t with
  | .uart => 0
  | .spi => pending host

structure Counts (s : TtMode) (n : Nat) : Prop where
  cnt : s.stopCharCnt.toNat = n
  timer : s.timerActive = true ↔ n = 3

theorem ttTimer_frame :
    ∃ active cnt, ttTimer s = { s with timerActive := active, stopCharCnt := cnt } := by
  simp only [ttTimer]
  split_ifs
  all_goals exact ⟨_, _, rfl⟩

variable {s : TtMode}

theorem ttTimer_counts (hstop : s.stopFlag = false) (hn : n ≤ 3)
    (hcnt : s.stopCharCnt.toNat = if data = STOP_CHAR then n + 1 else 0)
    (htimer : s.timerActive = true ↔ n = 3) : Counts (ttTimer s) (pendingStep n data) := by
  by_cases h3 : n = 3
  · -- the timer runs, so the packet cancels it
    have hactive : s.timerActive = true := htimer.mpr h3
    have hzero : pendingStep n data = 0 := pendingStep_other fun h => by omega
    rw [hzero]
    simp only [ttTimer, hstop, hactive]
    constructor <;> simp
  have hactive : s.timerActive = false := Bool.eq_false_iff.mpr fun h => h3 (htimer.mp h)
  have hcount : pendingStep n data = s.stopCharCnt.toNat := by
    rw [hcnt]
    unfold pendingStep
    by_cases hd : data = STOP_CHAR
    · rw [if_pos hd, if_pos ⟨hd, by omega⟩]
    · rw [if_neg hd, if_neg fun h => hd h.1]
  have hle : s.stopCharCnt.toNat ≤ 3 := hcount ▸ pendingStep_le data
  have hthree : 3 ≤ s.stopCharCnt ↔ s.stopCharCnt.toNat = 3 := by
    rw [UInt8.le_iff_toNat_le]
    show 3 ≤ _ ↔ _
    omega
  rw [hcount]
  simp only [ttTimer, hactive, hthree, Bool.false_eq_true, and_false, if_false, and_true]
  split_ifs with hfull
  · exact ⟨rfl, fun _ => hfull, fun _ => rfl⟩
  · exact ⟨rfl, fun h => absurd h (by simp [hactive]), fun h => absurd h hfull⟩

variable {t : Transport}

theorem ttPacket_eq (hmode : s.ttMode = true) (hroom : HasRoom t s (.packet data)) :
    ttPacket t data s = ttTimer { s with
      ring := s.ring ++ written t data
      stopCharCnt := if data = STOP_CHAR then s.stopCharCnt + 1 else 0 } := by
  obtain ⟨hspace, hshape⟩ := hroom hmode
  cases t with
  | uart => simp only [ttPacket, uartPacket, written, if_neg hshape.1, if_pos hspace]
  | spi =>
    have hdma : ¬ATCMD_SPI_DMA_SIZE - 8 < data.length := Nat.not_lt.mpr hshape
    have hsize : ¬s.ringSize < data.length := by
      unfold TtMode.space at hspace
      omega
    simp only [ttPacket, spiPacket, written, if_neg hdma, if_neg hsize, if_pos hspace]
    by_cases hd : data = STOP_CHAR
    · simp only [if_pos hd, append_nil]
    · simp only [if_neg hd]

theorem ttPacket_frame (hmode : s.ttMode = true) (hroom : HasRoom t s (.packet data)) :
    ∃ active cnt, ttPacket t data s
      = { s with timerActive := active, stopCharCnt := cnt, ring := s.ring ++ written t data } := by
  rw [ttPacket_eq hmode hroom]
  exact ttTimer_frame _

theorem ttPacket_counts (hmode : s.ttMode = true) (hroom : HasRoom t s (.packet data))
    (hstop : s.stopFlag = false) (hn : n ≤ 3) (h : Counts s n) :
    Counts (ttPacket t data s) (pendingStep n data) := by
  rw [ttPacket_eq hmode hroom]
  refine ttTimer_counts hstop hn ?_ h.timer
  by_cases hd : data = STOP_CHAR
  · simp only [if_pos hd]
    rw [UInt8.toNat_add, h.cnt]
    show (n + 1) % 256 = n + 1
    omega
  · simp only [if_neg hd]
    rfl

/-! ### Runs -/

/-- Counter and timer follow the packets, and the output is what the transport does not keep back.
-/
def Tracked (t : Transport) (s : TtMode) : Prop :=
  s.ttMode = true → (s.stopFlag = true →
      pending s.host = 3 ∧ s.output = (s.host.take (s.host.length - 3)).flatten)
    ∧ (s.stopFlag = false → Counts s (pending s.host)
        ∧ s.output = (s.host.take (s.host.length - withheld t s.host)).flatten)

theorem withheld_le (host : List (List UInt8)) : withheld t host ≤ pending host := by
  cases t with
  | uart => exact Nat.zero_le _
  | spi => exact Nat.le_refl _

theorem Tracked.faithful (h : Tracked t s) : Faithful s := by
  intro hmode
  obtain ⟨hstopped, hrunning⟩ := h hmode
  refine ⟨hstopped, fun hstop => ?_⟩
  obtain ⟨hcounts, hout⟩ := hrunning hstop
  exact ⟨⟨_, withheld_le s.host, hout⟩, hcounts.timer.mpr⟩

theorem flatten_whole (data : List UInt8) :
    ((host ++ [data]).take ((host ++ [data]).length - 0)).flatten
      = (host.take (host.length - 0)).flatten ++ data := by
  rw [Nat.sub_zero, Nat.sub_zero, take_length, take_length, flatten_append, flatten_singleton]

theorem flatten_packet {host : List (List UInt8)}
    (h : t = .spi → pending host = 0 ∨ (data = STOP_CHAR ∧ pending host < 3)) :
    ((host ++ [data]).take ((host ++ [data]).length - withheld t (host ++ [data]))).flatten
      = (host.take (host.length - withheld t host)).flatten ++ written t data := by
  cases t with
  | uart => exact flatten_whole host data
  | spi =>
    simp only [withheld, written, pending_append]
    by_cases hd : data = STOP_CHAR
    · have hlt : pending host < 3 := by
        rcases h rfl with h0 | ⟨_, hlt⟩
        · omega
        · exact hlt
      rw [if_pos hd, hd, pendingStep_stop hlt, append_nil, length_append,
        length_singleton, Nat.add_sub_add_right,
        take_append_of_le_length (Nat.sub_le _ _)]
    · have h0 : pending host = 0 := (h rfl).resolve_right fun hs => hd hs.1
      rw [if_neg hd, pendingStep_other fun hs => hd hs.1, h0]
      exact flatten_whole host data

section Steps

theorem Tracked.packet (h : Tracked t s) (hroom : HasRoom t s (.packet data))
    (hcond : Deliverable t s (.packet data)) : Tracked t (ttStep t s (.packet data)) := by
  unfold ttStep
  by_cases hmode : s.ttMode = true
  · simp only [if_pos hmode]
    obtain ⟨hstopped, hrunning⟩ := h hmode
    obtain ⟨active, cnt, heq⟩ := ttPacket_frame hmode hroom
    intro _
    constructor
    · intro hstop
      have hflag : s.stopFlag = true := by
        rw [heq] at hstop
        exact hstop
      obtain ⟨rfl, hdata⟩ := (hcond hmode).1 hflag
      have hnone : written .spi data = [] := by
        rcases hdata with rfl | rfl <;> decide
      obtain ⟨hpending, hout⟩ := hstopped hflag
      simp only [heq, if_pos hflag, hnone, append_nil]
      exact ⟨hpending, hout⟩
    · intro hstop
      have hflag : s.stopFlag = false := by
        rw [heq] at hstop
        exact hstop
      have hne : ¬s.stopFlag = true := Bool.eq_false_iff.mp hflag
      obtain ⟨hcounts, hout⟩ := hrunning hflag
      have hcounts' := ttPacket_counts hmode hroom hflag (pending_le s.host) hcounts
      simp only [if_neg hne]
      refine ⟨?_, ?_⟩
      · rw [pending_append]
        exact ⟨hcounts'.cnt, hcounts'.timer⟩
      · rw [flatten_packet ((hcond hmode).2 hflag), ← hout]
        simp only [heq, TtMode.output, append_assoc]
  · simp only [if_neg hmode]
    exact h

theorem output_getPass (s : TtMode) : (atcmdTtModeGetPass s).output = s.output := by
  unfold atcmdTtModeGetPass
  cases s.wanted with
  | none => rfl
  | some getLen =>
    simp only
    split_ifs
    · rfl
    · simp only [TtMode.output, append_assoc, take_append_drop]

theorem getPass_frame (s : TtMode) : ∃ ring wanted returned, atcmdTtModeGetPass s
    = { s with ring := ring, wanted := wanted, returned := returned } := by
  unfold atcmdTtModeGetPass
  cases hwanted : s.wanted with
  | none => exact ⟨s.ring, s.wanted, s.returned, rfl⟩
  | some getLen =>
    simp only
    split_ifs
    all_goals exact ⟨_, _, _, rfl⟩

theorem Tracked.pass (h : Tracked t s) : Tracked t (ttStep t s .pass) := by
  have hout := output_getPass s
  obtain ⟨ring, wanted, returned, heq⟩ := getPass_frame s
  show Tracked t (atcmdTtModeGetPass s)
  rw [heq] at hout ⊢
  intro hmode
  obtain ⟨hstopped, hrunning⟩ := h hmode
  rw [hout]
  refine ⟨hstopped, fun hstop => ?_⟩
  obtain ⟨hcounts, hall⟩ := hrunning hstop
  exact ⟨⟨hcounts.cnt, hcounts.timer⟩, hall⟩

/-- Over SPI the three packets of the terminator are not part of the output. -/
theorem Tracked.timeout (h : Tracked t s) (hcond : Deliverable t s .timeout) :
    Tracked t (ttStep t s .timeout) := by
  unfold ttStep
  by_cases hactive : s.timerActive = true
  · simp only [if_pos hactive]
    intro hmode
    refine ⟨fun _ => ?_, nofun⟩
    obtain ⟨hstopped, hrunning⟩ := h hmode
    cases hflag : s.stopFlag with
    | true => exact hstopped hflag
    | false =>
      obtain ⟨hcounts, hout⟩ := hrunning hflag
      have hpending := hcounts.timer.mp hactive
      obtain rfl := hcond hmode hactive hflag
      rw [withheld, hpending] at hout
      exact ⟨hpending, hout⟩
  · simp only [if_neg hactive]
    exact h

theorem Tracked.start (h : Tracked t s) (hclean : CleanStart s (.start len)) :
    Tracked t (ttStep t s (.start len)) := by
  unfold ttStep
  by_cases hmode : s.ttMode = true
  · simp only [if_pos hmode]
    exact h
  simp only [if_neg hmode]
  obtain ⟨hflag, hcnt, htimer⟩ := hclean (Bool.eq_false_iff.mpr hmode)
  intro _
  refine ⟨fun hstop => absurd (hflag.symm.trans hstop) Bool.false_ne_true,
    fun _ => ⟨⟨?_, ?_⟩, ?_⟩⟩
  · exact congrArg UInt8.toNat hcnt
  · show s.timerActive = true ↔ 0 = 3
    simp [htimer]
  · simp [atcmdTtModeStart, TtMode.output]

theorem Tracked.step (e : Event) (h : Tracked t s) (hroom : HasRoom t s e)
    (hclean : CleanStart s e) (hcond : Deliverable t s e) : Tracked t (ttStep t s e) := by
  cases e with
  | start len => exact h.start hclean
  | packet data => exact h.packet hroom hcond
  | timeout => exact h.timeout hcond
  | get len =>
    simp only [ttStep]
    split_ifs
    · intro hmode
      obtain ⟨hstopped, hrunning⟩ := h hmode
      exact ⟨hstopped, fun hstop => ⟨{ (hrunning hstop).1 with }, (hrunning hstop).2⟩⟩
    · exact h
  | pass => exact h.pass
  | finish =>
    simp only [ttStep]
    split_ifs
    · exact nofun
    · exact h

/-! ### The conditions are needed -/

theorem deliverable_of_packet (h : Tracked t s) (hroom : HasRoom t s (.packet data))
    (hafter : Faithful (ttStep t s (.packet data))) : Deliverable t s (.packet data) := by
  intro hmode
  obtain ⟨hstopped, hrunning⟩ := h hmode
  obtain ⟨active, cnt, heq⟩ := ttPacket_frame hmode hroom
  simp only [ttStep, if_pos hmode, heq] at hafter
  obtain ⟨hstopped', hrunning'⟩ := hafter hmode
  constructor
  · -- the packet does not count for the host any more, so nothing may be written
    intro hstop
    simp only [if_pos hstop] at hstopped'
    have hsame := (hstopped' hstop).2.trans (hstopped hstop).2.symm
    have hnone : written t data = [] := by
      simpa [TtMode.output] using hsame
    cases t with
    | uart => exact absurd hnone (hroom hmode).2.1
    | spi =>
      refine ⟨rfl, ?_⟩
      by_cases hd : data = STOP_CHAR
      · exact .inl hd
      · exact .inr (by simpa [written, hd] using hnone)
  · rintro hstop rfl
    by_cases hstep : data = STOP_CHAR ∧ pending s.host < 3
    · exact .inr hstep
    -- nothing is pending any more, so everything has to be there
    have hne : ¬s.stopFlag = true := Bool.eq_false_iff.mp hstop
    simp only [if_neg hne] at hrunning'
    obtain ⟨⟨k, hk, hall⟩, _⟩ := hrunning' hstop
    rw [pending_append, pendingStep_other hstep] at hk
    rw [Nat.eq_zero_of_le_zero hk, flatten_whole, Nat.sub_zero, take_length] at hall
    obtain ⟨_, hout⟩ := hrunning hstop
    have hlen := length_flatten_pending s.host
    have hwritten : (written .spi data).length ≤ data.length := by
      unfold written
      split_ifs
      · exact Nat.zero_le _
      · exact Nat.le_refl _
    have houtlen := congrArg List.length hout
    have halllen := congrArg List.length hall
    simp only [TtMode.output, withheld, length_append] at houtlen halllen
    omega

theorem deliverable_of_timeout (h : Tracked t s) (hafter : Faithful (ttStep t s .timeout)) :
    Deliverable t s .timeout := by
  intro hmode hactive hstop
  cases t with
  | spi => rfl
  | uart =>
    obtain ⟨hcounts, hout⟩ := (h hmode).2 hstop
    simp only [ttStep, if_pos hactive] at hafter
    obtain ⟨hpending, hall⟩ := (hafter hmode).1 rfl
    have hlen := length_flatten_pending s.host
    have hsame : s.output = (s.host.take (s.host.length - 3)).flatten := hall
    have hpending' : pending s.host = 3 := hpending
    rw [hpending'] at hlen
    rw [withheld, Nat.sub_zero, take_length] at hout
    have hcontra := congrArg List.length (hout.symm.trans hsame)
    omega

theorem Tracked.deliverable (h : Tracked t s) (hroom : HasRoom t s e)
    (hafter : Faithful (ttStep t s e)) : Deliverable t s e := by
  cases e with
  | packet data => exact deliverable_of_packet h hroom hafter
  | timeout => exact deliverable_of_timeout h hafter
  | start len => trivial
  | get len => trivial
  | pass => trivial
  | finish => trivial

end Steps

/-- If the mode is always entered in a clean state and the ring buffer has room, the output is the
    host's bytes without the terminator exactly in the deliverable runs. -/
theorem transparent_iff (t : Transport) (events : List Event)
    (hroom : Along (ttStep t) (HasRoom t) TtMode.init events)
    (hclean : Along (ttStep t) CleanStart TtMode.init events) :
    Throughout (ttStep t) Faithful TtMode.init events
      ↔ Along (ttStep t) (Deliverable t) TtMode.init events := by
  exact throughout_iff_along_under (fun s h => h.faithful)
    (fun s e h hpremise hcond => h.step e hpremise.1 hpremise.2 hcond)
    (fun s e h hpremise hafter => h.deliverable hpremise.1 hafter)
    (show Tracked t TtMode.init from nofun) (hroom.and hclean)

/-- Over UART without a terminator: `a<` in two packets, read by one call. -/
def uartData : List Event :=
  [.start 8, .packet [0x61], .packet STOP_CHAR, .get 2, .pass, .pass, .finish]

theorem uartData_faithful : Throughout (ttStep .uart) Faithful TtMode.init uartData :=
  (transparent_iff .uart uartData
    ⟨trivial, fun _ => by decide, fun _ => by decide, trivial, trivial, trivial, trivial, trivial⟩
    ⟨fun _ => by decide, trivial, trivial, trivial, trivial, trivial, trivial, trivial⟩).mpr
    ⟨trivial, fun _ => by decide, fun _ => by decide, trivial, trivial, trivial, trivial, trivial⟩

/-- A packet with data and a terminator, and a single `<` in front of data. -/
def terminated : List Event :=
  [.start 8, .packet [0x61], .packet STOP_CHAR, .packet STOP_CHAR, .packet STOP_CHAR, .timeout]

def strayStopChar : List Event := [.start 8, .packet STOP_CHAR, .packet [0x61]]

/-- Over UART the terminator is delivered as data, and over SPI a packet with a single `<` is
    lost. -/
theorem terminator_delivered_or_data_lost :
    (Along (ttStep .uart) (HasRoom .uart) TtMode.init terminated
      ∧ Along (ttStep .uart) CleanStart TtMode.init terminated
      ∧ ¬Throughout (ttStep .uart) Faithful TtMode.init terminated)
    ∧ Along (ttStep .spi) (HasRoom .spi) TtMode.init strayStopChar
      ∧ Along (ttStep .spi) CleanStart TtMode.init strayStopChar
      ∧ ¬Throughout (ttStep .spi) Faithful TtMode.init strayStopChar := by
  refine ⟨⟨?_, ?_, ?_⟩, ?_, ?_, ?_⟩
  · exact ⟨trivial, fun _ => by decide, fun _ => by decide, fun _ => by decide, fun _ => by decide,
      trivial, trivial⟩
  · exact ⟨fun _ => by decide, trivial, trivial, trivial, trivial, trivial, trivial⟩
  · intro h
    have hstop := ((h.last rfl).1 rfl).2
    exact absurd hstop (by decide)
  · exact ⟨trivial, fun _ => by decide, fun _ => by decide, trivial⟩
  · exact ⟨fun _ => by decide, trivial, trivial, trivial⟩
  · intro h
    obtain ⟨⟨k, hk, hall⟩, _⟩ := (h.last rfl).2 rfl
    have hzero : k = 0 := Nat.eq_zero_of_le_zero hk
    rw [hzero] at hall
    exact absurd hall (by decide)

/-! ### The space-wait loop over SPI -/

section

variable (data : List UInt8) (s : TtMode)

/-- The packets that `atcmd_spi_task` writes to the ring buffer, if need be after a wait. -/
def SpiAccepts : Prop :=
  data.length ≤ ATCMD_SPI_DMA_SIZE - 8 ∧ data.length ≤ s.ringSize ∧ data ≠ STOP_CHAR

/-- The space-wait loop, with the states in which it looks at the space. -/
def spiWait (seen : List TtMode) : Option TtMode :=
  seen.find? fun s => decide (data.length ≤ s.space)

/-- **An accepted packet finds space** in a drained ring buffer exactly if it is not as long as the
    buffer, which is never free as a whole. -/
theorem spi_wait_left_iff (len : Nat) (haccepts : SpiAccepts data (atcmdTtModeStart len s)) :
    (∀ seen : List TtMode,
      (∃ drained ∈ seen, drained.ringSize = (atcmdTtModeStart len s).ringSize ∧ drained.ring = []) →
        (spiWait data seen).isSome) ↔ data.length ≠ (atcmdTtModeStart len s).ringSize := by
  obtain ⟨-, hsize, -⟩ := haccepts
  constructor
  · intro hleft heq
    obtain ⟨s', hs'⟩ := Option.isSome_iff_exists.mp
      (hleft [atcmdTtModeStart len s] ⟨_, .head _, rfl, rfl⟩)
    have hmem := mem_singleton.mp (mem_of_find?_eq_some hs')
    have hspace : data.length ≤ s'.space := by simpa using find?_some hs'
    have hpos : 0 < (atcmdTtModeStart len s).ringSize := by
      rw [atcmdTtModeStart]
      dsimp only
      split <;> simp [MAX_TT_HEAP_SIZE]
    rw [hmem, TtMode.space] at hspace
    omega
  · rintro hne seen ⟨drained, hmem, hring, hempty⟩
    rw [spiWait, find?_isSome]
    refine ⟨drained, hmem, decide_eq_true ?_⟩
    rw [TtMode.space, hempty, hring, length_nil]
    omega

/-- With a byte in the ring buffer the loop waits, until it has been drained. -/
theorem short_packet_leaves :
    SpiAccepts [1, 2] (atcmdTtModeStart 2 .init) ∧
      spiWait [1, 2] [{ atcmdTtModeStart 2 .init with ring := [9] }] = none ∧
      (spiWait [1, 2] [{ atcmdTtModeStart 2 .init with ring := [9] },
        atcmdTtModeStart 2 .init]).isSome := by
  have haccepts : SpiAccepts [1, 2] (atcmdTtModeStart 2 .init) := by
    refine ⟨?_, ?_, ?_⟩ <;> decide
  exact ⟨haccepts, by decide, (spi_wait_left_iff _ _ 2 haccepts).mpr (by decide) _
    ⟨_, .tail _ (.head _), rfl, rfl⟩⟩

/-- A packet of three bytes is accepted for a ring buffer of three bytes, of which two are ever
    free. -/
theorem full_packet_waits : SpiAccepts [1, 2, 3] (atcmdTtModeStart 2 .init) ∧
    spiWait [1, 2, 3] [atcmdTtModeStart 2 .init] = none := by
  refine ⟨⟨?_, ?_, ?_⟩, ?_⟩ <;> decide

end

end AmebaRtos.AtCmd
