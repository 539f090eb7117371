import AmebaRtos.Vb6824.Uart

/-!
# The upgrade of the voice chip

`jl_ota_routine` asks a server whether the chip needs an upgrade, and if so lets
`jl_do_ota_update` feed the chip's bootloader until one attempt has been completed. Then it gives
the semaphore that `qwen_sdk_init_routine` waits for before it uses the voice link. As soon as an
attempt has connected, `jl_ota_init` sets the OTA mode and the low baud rate of the bootloader.
Nothing ever takes them back. The events of a run are the answers of the servers, the outcomes of
`select`, the packets of the chip and the frames that the other tasks send.
-/

namespace AmebaRtos.Vb6824

open Lib

def VB6824_UART_BAUDRATE : Nat := 2000000
def JL_OTA_INIT_BAUDRATE : Nat := 9600
def VB6824_CMD_SET_VOL : UInt16 := 0x0203
def VB6824_CMD_REQUEST_UPGRADE : UInt16 := 0x0205
def VB6824_CMD_REQUEST_VERSION : UInt16 := 0x0207
def JL_OTA_UPDATE_START : UInt8 := 0x01
def JL_OTA_UPDATE_READ : UInt8 := 0x02
def JL_OTA_UPDATE_STOP : UInt8 := 0x03
def JL_OTA_UPDATE_LEN : UInt8 := 0x04
def JL_OTA_UPDATE_KEEPALIVE : UInt8 := 0x05

/-! ### The loop of an attempt -/

inductive ReadOutcome where
  | noMemory
  | failed
  | content (bytes : List UInt8)
deriving DecidableEq

/-- The local variables of the loop in `jl_do_ota_update`. -/
structure LoopVars where
  lastOpcode : UInt8
  otaModeEntered : Bool
  retryCount : Nat
deriving DecidableEq

def startPacket : List UInt8 := jlPacket (JL_OTA_UPDATE_START :: toLE 4 JL_OTA_INIT_BAUDRATE)

/-- A packet of the chip: the variables, the answer, and the result of `jl_do_ota_update` if the
    loop ends. An empty message is a failed `recvfrom`. -/
def handleOpcode (l : LoopVars) (msg : List UInt8) (read : ReadOutcome) :
    LoopVars × List (List UInt8) × Option Bool :=
  match msg with
  | [] => (l, [], none)
  | opcode :: data =>
    let l := { l with lastOpcode := opcode }
    let entered := { l with otaModeEntered := true }
    if opcode = JL_OTA_UPDATE_START then ({ entered with retryCount := 0 }, [startPacket], none)
    else if opcode = JL_OTA_UPDATE_READ then
      if data.length = 8 then
        match read with
        | .noMemory => (entered, [], none)
        | .failed => (entered, [], some false)
        | .content bytes =>
          -- `jl_ota_http_read` returns the length as an `int`, negative on failure
          if bytes.length = fromLE (data.drop 4) ∧ bytes.length < 2 ^ 31 then
            (entered, [jlPacket (JL_OTA_UPDATE_READ :: data ++ bytes)], none)
          else (entered, [], some false)
      else (l, [], none)
    else if opcode = JL_OTA_UPDATE_STOP then
      if data.length = 1 then (entered, [jlPacket [JL_OTA_UPDATE_STOP]], some true)
      else (l, [], none)
    else if opcode = JL_OTA_UPDATE_LEN then
      if data.length = 4 then (entered, [jlPacket [JL_OTA_UPDATE_LEN]], none)
      else (l, [], none)
    else if opcode = JL_OTA_UPDATE_KEEPALIVE then
      (entered, [jlPacket [JL_OTA_UPDATE_KEEPALIVE]], none)
    else (l, [], none)

def beginRound (l : LoopVars) : LoopVars × List (List UInt8) :=
  let (l, packets) :=
    if l.otaModeEntered then (l, [])
    else if l.retryCount + 1 = 3 then ({ l with retryCount := 0 }, [jlPacket [0x06]])
    else ({ l with retryCount := l.retryCount + 1 }, [])
  (l, packets ++ if l.lastOpcode = JL_OTA_UPDATE_START then [startPacket] else [])

/-- The outcome of `select` on the two sockets: an error of the HTTP connection, whether a response
    header could be read, an error of the local socket, a packet of the chip. -/
inductive Select where
  | error
  | ready (httpExcept : Bool) (httpHeader : Option Bool) (rpcExcept : Bool)
      (rpc : Option (List UInt8 × ReadOutcome))
deriving DecidableEq

def loopRound (l : LoopVars) (outcome : Select) : LoopVars × List (List UInt8) × Option Bool :=
  let (l, packets) := beginRound l
  match outcome with
  | .error => (l, packets, some false)
  | .ready httpExcept httpHeader rpcExcept rpc =>
    if httpExcept = true ∨ httpHeader = some false ∨ rpcExcept = true then
      (l, packets, some false)
    else
      match rpc with
      | none => (l, packets, none)
      | some (msg, read) =>
        let (l, answers, ends) := handleOpcode l msg read
        (l, packets ++ answers, ends)

/-! ### The tasks -/

/-- Where `jl_ota_routine` is. -/
inductive OtaPhase where
  | start
  | version (i : Nat)
  | request
  | connecting
  | offset
  | loop (l : LoopVars)
  | exited
deriving DecidableEq

/-- Where `qwen_sdk_init_routine` is: it sends two frames, waits for the semaphore, and lets
    the other tasks use the link. -/
inductive InitPhase where
  | stopRecord
  | setVolume
  | waiting
  | running
deriving DecidableEq

inductive Transfer where
  | voice (cmd : UInt16) (baud : Nat)
  | packet (bytes : List UInt8) (baud : Nat)
deriving DecidableEq

structure Device where
  baud : Nat
  isOtaMode : Bool
  phase : OtaPhase
  otaCompleted : Bool
  initPhase : InitPhase
  sent : List Transfer
deriving DecidableEq

/-- The device after `vb6824_init`. -/
def Device.init : Device := ⟨VB6824_UART_BAUDRATE, false, .start, true, .stopRecord, []⟩

inductive UpgradeEvent where
  -- the settings and the local socket are there; the version came; an upgrade is offered
  | setup (ok : Bool)
  | version (answered : Bool)
  | updateInfo (upgrade : Bool)
  | connect (ok : Bool)
  | offset (ok : Bool)
  | select (outcome : Select)
  | initStep
  | voice (cmd : UInt16)
deriving DecidableEq

variable (events : List UpgradeEvent) (d : Device)

def Device.vb6824Send (cmd : UInt16) : Device :=
  { d with sent := d.sent ++ [.voice cmd d.baud] }

def Device.endRound : Device :=
  { d with phase := if d.otaCompleted then .exited else .request }

/-- `jl_do_ota_update` returns. -/
def Device.attemptEnds (completed : Bool) : Device :=
  { d with otaCompleted := completed }.endRound

def Device.jlOtaInit : Device :=
  { { d with isOtaMode := true }.vb6824Send VB6824_CMD_REQUEST_UPGRADE with
    baud := JL_OTA_INIT_BAUDRATE }

/-- A step of `jl_ota_routine`, `qwen_sdk_init_routine` or another task; one that does not apply
    does nothing. -/
def upgradeStep : UpgradeEvent → Device
  | .setup ok =>
    if d.phase = .start then
      if ok then { d with baud := VB6824_UART_BAUDRATE, phase := .version 0 }
      else { d with phase := .exited }
    else d
  | .version answered =>
    match d.phase with
    | .version i =>
      { d.vb6824Send VB6824_CMD_REQUEST_VERSION with
        phase := if answered = true ∨ 5 ≤ i + 1 then .request else .version (i + 1) }
    | _ => d
  | .updateInfo upgrade =>
    if d.phase = .request then
      if upgrade then { d with phase := .connecting } else d.endRound
    else d
  | .connect ok =>
    if d.phase = .connecting then
      if ok then { d.jlOtaInit with phase := .offset } else d.attemptEnds false
    else d
  | .offset ok =>
    if d.phase = .offset then
      if ok then { d with phase := .loop ⟨0, false, 0⟩ } else d.attemptEnds false
    else d
  | .select outcome =>
    match d.phase with
    | .loop l =>
      let (l, packets, ends) := loopRound l outcome
      let d := { d with sent := d.sent ++ packets.map (Transfer.packet · d.baud) }
      match ends with
      | none => { d with phase := .loop l }
      | some completed => d.attemptEnds completed
    | _ => d
  | .initStep =>
    match d.initPhase with
    | .stopRecord => { d.vb6824Send VB6824_CMD_STOP_RECORD with initPhase := .setVolume }
    | .setVolume => { d.vb6824Send VB6824_CMD_SET_VOL with initPhase := .waiting }
    | .waiting => if d.phase = .exited then { d with initPhase := .running } else d
    | .running => d
  | .voice cmd => if d.initPhase = .running then d.vb6824Send cmd else d

/-- Voice frames go out at the rate of the voice link, which is in normal mode when the semaphore
    has been given. -/
structure LinkSafe (d : Device) : Prop where
  voice : ∀ cmd baud, .voice cmd baud ∈ d.sent → baud = VB6824_UART_BAUDRATE
  exited : d.phase = .exited → d.isOtaMode = false ∧ d.baud = VB6824_UART_BAUDRATE

/-- No attempt gets a connection to the download server. -/
def NoConnect : UpgradeEvent → Prop
  | .connect ok => d.phase = .connecting → ok = false
  | _ => True

/-! ### Without a connection -/

structure Untouched (d : Device) : Prop where
  baud : d.baud = VB6824_UART_BAUDRATE
  normal : d.isOtaMode = false
  voice : ∀ cmd baud, .voice cmd baud ∈ d.sent → baud = VB6824_UART_BAUDRATE
  phase : d.phase ≠ .offset ∧ ∀ l, d.phase ≠ .loop l

theorem untouched_init : Untouched .init where
  baud := rfl
  normal := rfl
  voice := fun _ _ h => absurd h List.not_mem_nil
  phase := ⟨nofun, nofun⟩

section Steps

variable {d : Device}

theorem Untouched.safe (h : Untouched d) : LinkSafe d := ⟨h.voice, fun _ => ⟨h.normal, h.baud⟩⟩

theorem Untouched.vb6824Send (h : Untouched d) (cmd : UInt16) : Untouched (d.vb6824Send cmd) := by
  refine { h with voice := ?_ }
  intro cmd' baud hmem
  rcases List.mem_append.mp hmem with hold | hlast
  · exact h.voice cmd' baud hold
  · cases List.mem_singleton.mp hlast
    exact h.baud

theorem Untouched.endRound (h : Untouched d) : Untouched d.endRound := by
  refine { h with phase := ?_ }
  unfold Device.endRound
  cases d.otaCompleted with
  | true => exact ⟨nofun, nofun⟩
  | false => exact ⟨nofun, nofun⟩

theorem Untouched.attemptEnds (h : Untouched d) (completed : Bool) :
    Untouched (d.attemptEnds completed) := by
  apply Untouched.endRound
  exact { h with }

theorem untouched_step (d : Device) (ev : UpgradeEvent) (h : Untouched d)
    (hcond : NoConnect d ev) : Untouched (upgradeStep d ev) := by
  cases ev with
  | setup ok =>
    simp only [upgradeStep]
    split
    · split
      · exact { h with baud := rfl, phase := ⟨nofun, nofun⟩ }
      · exact { h with phase := ⟨nofun, nofun⟩ }
    · exact h
  | version answered =>
    simp only [upgradeStep]
    split
    · refine { h.vb6824Send VB6824_CMD_REQUEST_VERSION with phase := ?_ }
      split
      · exact ⟨nofun, nofun⟩
      · exact ⟨nofun, nofun⟩
    · exact h
  | updateInfo upgrade =>
    simp only [upgradeStep]
    split
    · split
      · exact { h with phase := ⟨nofun, nofun⟩ }
      · exact h.endRound
    · exact h
  | connect ok =>
    simp only [upgradeStep]
    split
    · rename_i hphase
      rw [hcond hphase]
      exact h.attemptEnds false
    · exact h
  | offset ok =>
    have hphase := h.phase.1
    simp only [upgradeStep, if_neg hphase]
    exact h
  | select outcome =>
    simp only [upgradeStep]
    split
    · rename_i l hphase
      exact absurd hphase (h.phase.2 l)
    · exact h
  | initStep =>
    simp only [upgradeStep]
    split
    · exact { h.vb6824Send VB6824_CMD_STOP_RECORD with }
    · exact { h.vb6824Send VB6824_CMD_SET_VOL with }
    · split
      · exact { h with }
      · exact h
    · exact h
  | voice cmd =>
    simp only [upgradeStep]
    split
    · exact h.vb6824Send cmd
    · exact h

/-! ### After a connection -/

theorem otaMode_step (h : d.isOtaMode = true) : (upgradeStep d ev).isOtaMode = true := by
  cases ev with
  | setup ok =>
    simp only [upgradeStep]
    split_ifs <;> exact h
  | version answered =>
    simp only [upgradeStep]
    split
    · exact h
    · exact h
  | updateInfo upgrade =>
    simp only [upgradeStep]
    split_ifs <;> exact h
  | connect ok =>
    simp only [upgradeStep]
    split_ifs
    · rfl
    · exact h
    · exact h
  | offset ok =>
    simp only [upgradeStep]
    split_ifs <;> exact h
  | select outcome =>
    simp only [upgradeStep]
    split
    · split
      · exact h
      · exact h
    · exact h
  | initStep =>
    simp only [upgradeStep]
    split
    · exact h
    · exact h
    · split_ifs <;> exact h
    · exact h
  | voice cmd =>
    simp only [upgradeStep]
    split_ifs <;> exact h

theorem otaMode_run (h : d.isOtaMode = true) : (events.foldl upgradeStep d).isOtaMode = true := by
  induction events generalizing d with
  | nil => exact h
  | cons ev rest ih => exact ih (otaMode_step h)

theorem noConnect_or_otaMode (d : Device) :
    Along upgradeStep NoConnect d events ∨ (events.foldl upgradeStep d).isOtaMode = true := by
  induction events generalizing d with
  | nil => exact .inl trivial
  | cons ev rest ih =>
    by_cases hcond : NoConnect d ev
    · exact (ih (upgradeStep d ev)).imp_left fun hrest => ⟨hcond, hrest⟩
    right
    refine otaMode_run rest ?_
    cases ev with
    | connect ok =>
      have hphase : d.phase = .connecting := by
        by_contra hother
        exact hcond fun hphase => absurd hphase hother
      have hok : ok = true := eq_true_of_ne_false fun hfalse => hcond fun _ => hfalse
      simp only [upgradeStep, if_pos hphase, if_pos hok]
      rfl
    | _ => exact absurd trivial hcond

end Steps

/-- **The link after an upgrade** is used as it should be as long as no attempt connects; and a run
    that has given the semaphore has used it so only if none did. -/
theorem link_safe :
    (Along upgradeStep NoConnect .init events → Throughout upgradeStep LinkSafe .init events) ∧
    ((events.foldl upgradeStep .init).phase = .exited →
      Throughout upgradeStep LinkSafe .init events → Along upgradeStep NoConnect .init events) := by
  constructor
  · intro hcond
    have hinv := hcond.throughout untouched_step untouched_init
    exact hinv.mono fun _ h => h.safe
  · intro hexited hsafe
    refine (noConnect_or_otaMode events .init).resolve_right fun hmode => ?_
    rw [(hsafe.last.exited hexited).1] at hmode
    cases hmode

/-- An upgrade that the chip completes with a stop packet. -/
def completedUpgrade : List UpgradeEvent :=
  [.setup true, .version true, .updateInfo true, .connect true, .offset true,
    .select (.ready false none false (some ([JL_OTA_UPDATE_STOP, 0], .noMemory)))]

/-- A first attempt finds no firmware, and a second one connects again. -/
def secondAttempt : List UpgradeEvent :=
  [.setup true, .version true, .updateInfo true, .connect true, .offset false,
    .updateInfo true, .connect true]

/-- The semaphore is given in OTA mode at 9600 baud; and the request of a second attempt is
    sent at 9600 baud. -/
theorem link_left_in_ota_mode : ¬ LinkSafe (completedUpgrade.foldl upgradeStep .init) ∧
    ¬ LinkSafe (secondAttempt.foldl upgradeStep .init) := by
  constructor
  · intro hsafe
    have hmode := (hsafe.exited (by decide +kernel)).1
    exact absurd hmode (by decide +kernel)
  · intro hsafe
    have hbaud := hsafe.voice VB6824_CMD_REQUEST_UPGRADE JL_OTA_INIT_BAUDRATE (by decide +kernel)
    exact absurd hbaud (by decide)

end AmebaRtos.Vb6824
