import AmebaRtos.Vb6824.Upgrade

/-!
# The requests for update information

`jl_ota_routine` asks the server in a loop whether the voice chip needs other firmware, while
`ota_completed` is 0. This flag starts as 1 and is assigned in one place only, from the result of
`jl_do_ota_update`: an answer that offers no update leaves it as it was.
-/

namespace AmebaRtos.Vb6824

/-! ### The answers -/

/-- The names that the routine looks up, without regard to case. -/
inductive Key where
  | success
  | data
  | name
  | host
  | port
  | path
  | tlsEnabled
  | other
deriving DecidableEq

inductive Json where
  | null
  | bool (value : Bool)
  | number (valueint : Int)
  | string (valuestring : List UInt8)
  | array
  | object (items : List (Key × Json))

def Json.isObject : Json → Bool
  | .object _ => true
  | _ => false

def Json.isTrue : Json → Bool
  | .bool value => value
  | _ => false

/-- `valueint`, which is 1 for `true` and 0 for anything else but a number. -/
def Json.valueint : Json → Int
  | .number valueint => valueint
  | .bool true => 1
  | _ => 0

/-- `valuestring`; none is a null pointer. -/
def Json.valuestring : Json → Option (List UInt8)
  | .string valuestring => some valuestring
  | _ => none

/-- `cJSON_GetObjectItem`: the first item of that name. -/
def Json.getObjectItem (key : Key) : Json → Option Json
  | .object items => (items.find? (fun item => item.1 = key)).map Prod.snd
  | _ => none

structure Firmware where
  name : Option (List UInt8)
  host : Option (List UInt8)
  port : UInt16
  path : Option (List UInt8)
  tlsEnabled : Int
deriving DecidableEq

/-- What `jl_ota_routine` makes of an answer: the firmware with which it calls `jl_do_ota_update`,
    if it does. No answer is a null pointer. -/
def offeredFirmware (result : Option Json) : Option Firmware := do
  let result ← result
  guard result.isObject
  let success ← result.getObjectItem .success
  guard success.isTrue
  let data ← result.getObjectItem .data
  guard data.isObject
  let name ← data.getObjectItem .name
  let host ← data.getObjectItem .host
  let port ← data.getObjectItem .port
  let path ← data.getObjectItem .path
  let tlsEnabled ← data.getObjectItem .tlsEnabled
  return ⟨name.valuestring, host.valuestring, UInt16.ofInt port.valueint, path.valuestring,
    tlsEnabled.valueint⟩

/-! ### The loop -/

structure Round where
  result : Option Json
  update : Firmware → Bool

/-- The flag `ota_completed` after a round. -/
def Round.otaCompleted (r : Round) (otaCompleted : Bool) : Bool :=
  match offeredFirmware r.result with
  | some firmware => r.update firmware
  | none => otaCompleted

def Round.Failed (r : Round) : Prop := ∃ firmware, offeredFirmware r.result = some firmware ∧
  r.update firmware = false

/-- Before round `n`: whether the loop is still running, and the flag. -/
def jlOtaRoutine (rounds : Nat → Round) : Nat → Bool × Bool
  | 0 => (true, true)
  | n + 1 =>
    match jlOtaRoutine rounds n with
    | (true, otaCompleted) =>
      (!(rounds n).otaCompleted otaCompleted, (rounds n).otaCompleted otaCompleted)
    | (false, otaCompleted) => (false, otaCompleted)

variable (rounds : Nat → Round)

/-- The server is asked for update information in round `n`. -/
def Requests (n : Nat) : Prop := (jlOtaRoutine rounds n).1 = true

/-- A further request comes only directly after a failed update. -/
def RetriesFailedOnly : Prop :=
  ∀ n, Requests rounds (n + 1) → (rounds n).Failed

/-- As long as every update has failed, the server goes on to offer one. -/
def OffersKeepComing : Prop :=
  ∀ n, 0 < n → (∀ i < n, (rounds i).Failed) → offeredFirmware (rounds n).result ≠ none

section Rounds

variable {rounds : Nat → Round}

/-- **One round.** The loop goes on after a failed update; and without an offer, if the flag
    had not been set before. -/
theorem requests_succ : Requests rounds (n + 1) ↔ Requests rounds n ∧ ((rounds n).Failed ∨
      offeredFirmware (rounds n).result = none ∧ (jlOtaRoutine rounds n).2 = false) := by
  simp only [Requests, jlOtaRoutine, Round.Failed]
  obtain ⟨running, otaCompleted⟩ := jlOtaRoutine rounds n
  cases running with
  | false => simp
  | true =>
    cases hoffer : offeredFirmware (rounds n).result with
    | none => simp [Round.otaCompleted, hoffer]
    | some firmware => simp [Round.otaCompleted, hoffer]

theorem flag_of_requests (h : Requests rounds (n + 1)) :
    (jlOtaRoutine rounds (n + 1)).2 = false := by
  revert h
  simp only [Requests, jlOtaRoutine]
  obtain ⟨running, otaCompleted⟩ := jlOtaRoutine rounds n
  cases running with
  | false => simp
  | true => simp

theorem requests_of_failed (h : ∀ i < n, (rounds i).Failed) : Requests rounds n := by
  induction n with
  | zero => rfl
  | succ n ih =>
    apply requests_succ.mpr
    exact ⟨ih (fun i hi => h i (Nat.lt_succ_of_lt hi)), .inl (h n (Nat.lt_succ_self n))⟩

/-- **A whole run.** If the offers keep coming, every round before a request has failed. -/
theorem failed_of_requests (hoffers : OffersKeepComing rounds) (h : Requests rounds n) :
    ∀ i < n, (rounds i).Failed := by
  induction n with
  | zero => exact fun i hi => absurd hi (Nat.not_lt_zero i)
  | succ n ih =>
    obtain ⟨hrunning, hround⟩ := requests_succ.mp h
    have hbefore := ih hrunning
    intro i hi
    rcases Nat.lt_succ_iff_lt_or_eq.mp hi with hlt | rfl
    · exact hbefore i hlt
    rcases hround with hfailed | ⟨hnone, hflag⟩
    · exact hfailed
    · cases i with
      | zero => cases hflag
      | succ i => exact absurd hnone (hoffers (i + 1) (Nat.succ_pos i) hbefore)

end Rounds

/-- **Further requests** follow only failed updates exactly if the server goes on to offer one while
    all have failed. -/
theorem retries_failed_only_iff : RetriesFailedOnly rounds ↔ OffersKeepComing rounds := by
  constructor
  · intro hretries n hpos hfailed hnone
    have hrunning := requests_of_failed hfailed
    -- the flag is still 0 from the round before, so the loop asks once more
    have hflag : (jlOtaRoutine rounds n).2 = false := by
      obtain ⟨m, rfl⟩ := Nat.exists_eq_succ_of_ne_zero (Nat.ne_of_gt hpos)
      exact flag_of_requests hrunning
    obtain ⟨firmware, hoffer, -⟩ := hretries n (requests_succ.mpr ⟨hrunning, .inr ⟨hnone, hflag⟩⟩)
    rw [hnone] at hoffer
    cases hoffer
  · intro hoffers n hrequest
    exact failed_of_requests hoffers hrequest n (Nat.lt_succ_self n)

/-- An answer that offers firmware. -/
def offer : Json :=
  .object [(.success, .bool true), (.data, .object [(.name, .string [0x61]),
    (.host, .string [0x62]), (.port, .number 80), (.path, .string [0x2F]),
    (.tlsEnabled, .number 0)])]

/-- The update fails once, and from then on the server says that none is needed. -/
def staleOffer (n : Nat) : Round :=
  ⟨some (if n = 0 then offer else .object [(.success, .bool true), (.data, .null)]),
    fun _ => false⟩

/-- The server is asked again after it has said that no update is needed. -/
theorem asked_after_no_update :
    offeredFirmware (staleOffer 1).result = none ∧ Requests staleOffer 2 ∧
      ¬ RetriesFailedOnly staleOffer := by
  have hnone : offeredFirmware (staleOffer 1).result = none := by decide
  have hrequests : Requests staleOffer 2 := by
    unfold Requests
    decide
  refine ⟨hnone, hrequests, ?_⟩
  intro hretries
  obtain ⟨firmware, hoffer, -⟩ := hretries 1 hrequests
  cases hoffer

/-! ### The routine among the tasks -/

/-- The end of a round in the model of the device. -/
def Device.round (d : Device) (r : Round) : Device :=
  match offeredFirmware r.result with
  | some firmware => d.attemptEnds (r.update firmware)
  | none => upgradeStep d (.updateInfo false)

theorem device_round {d : Device} (hphase : d.phase = .request) :
    (d.round r).otaCompleted = r.otaCompleted d.otaCompleted ∧
      (d.round r).phase = if r.otaCompleted d.otaCompleted then .exited else .request := by
  unfold Device.round Round.otaCompleted
  cases offeredFirmware r.result with
  | none => simp [upgradeStep, hphase, Device.endRound]
  | some firmware => simp [Device.attemptEnds, Device.endRound]

end AmebaRtos.Vb6824
