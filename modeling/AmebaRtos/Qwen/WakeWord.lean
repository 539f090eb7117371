import AmebaRtos.Lib.CString
import AmebaRtos.Qwen.Player

/-!
# The wake word

When the voice chip reports the wake word, `vb6824_on_report_asr` queues a sound, waits for a
binary semaphore and starts to listen. `player_routine` gives this semaphore behind every local
sound, and `mmi_event_callback` queues such sounds too, for which nobody waits. The token of one
of those can be the one that the wake word finds.

A run is any interleaving of the callbacks, the receiving task and the player. The queue has room
for one sound; a callback that finds it full is blocked. A call of `vb6824_send` that meets one of
another task can return with its frame unsent, so the parts of a sound are sent in two steps, and
a part that another task has met can be lost.
-/

namespace AmebaRtos.Qwen

open Lib Vb6824 List

/-! ### The tasks -/

inductive Sound where
  | connected
  | disconnected
  | startRecording (call : Nat)
  | stopRecording
deriving DecidableEq

def pcmDataSize : Sound → Nat
  | .connected => 16000
  | .disconnected => 16000
  | .startRecording _ => 12800
  | .stopRecording => 19200

inductive MmiEvent where
  | userConfig
  | dataInit
  | dataDeinit
  | speechReady
  | speechStart
  | asrStart
  | asrIncomplete
  | asrComplete
  | asrEnd
  | llmIncomplete
  | llmComplete
  | ttsStart
  | ttsEnd
  | other
deriving DecidableEq

inductive Member where
  | localSound
  | player
deriving DecidableEq

/-- Where `player_routine` is: at the queue set, at an offset of a local sound, in `vb6824_send`
    with the part there, or in a playback with some bytes in its buffer. A call is shared when
    another task has been in one of its own meanwhile. -/
inductive Player where
  | select
  | sound (s : Sound) (i : Nat)
  | sending (s : Sound) (i : Nat) (shared : Bool)
  | tts (data : List UInt8)
deriving DecidableEq

namespace Player

def playing : Player → Option Sound
  | .sound s _ | .sending s _ _ => some s
  | _ => none

def offset : Player → Nat
  | .sound _ i | .sending _ i _ => i
  | _ => 0

def isShared : Player → Bool
  | .sending _ _ shared => shared
  | _ => false

/-- Another task enters `vb6824_send`. -/
def join : Player → Player
  | .sending s i _ => .sending s i true
  | p => p

end Player

/-- Where the receiving task is: its call has to queue the sound, or waits for the
    semaphore. -/
inductive Receiver where
  | idle
  | posting (call : Nat)
  | waiting (call : Nat)
deriving DecidableEq

/-- What happens, in order: a part of a local sound has been sent to the chip, `vb6824_send` has
    returned for speech or a command, or the SDK is called. -/
inductive Entry where
  | play (s : Sound) (i : Nat)
  | tts (frame : List UInt8)
  | stopRecord
  | speechStart (call : Nat)
  | speechEnd
deriving DecidableEq

structure Chat where
  wssReadySem : Bool
  playerSem : Bool
  localSoundPlayDoneSem : Bool
  localSoundQ : Option Sound
  qset : List Member
  -- the sounds of the callbacks that are in `xQueueSend`
  blocked : List Sound
  -- the callbacks in `vb6824_send`, and the other tasks there or in a transfer of the update
  stopping : Nat
  others : Nat
  player : Player
  receiver : Receiver
  calls : Nat
  log : List Entry
deriving DecidableEq

def Chat.init : Chat := ⟨false, false, false, none, [], [], 0, 0, .select, .idle, 0, []⟩

variable (s : Chat)

/-- `mmi_event_callback`, up to its `xQueueSend`, or to its `vb6824_send`. -/
def Chat.mmiEventCallback : MmiEvent → Chat
  | .dataInit => { s with wssReadySem := true }
  | .dataDeinit => { s with blocked := s.blocked ++ [.disconnected] }
  | .speechReady => { s with blocked := s.blocked ++ [.connected] }
  | .asrEnd => { s with stopping := s.stopping + 1, player := s.player.join }
  | .ttsStart =>
    -- a semaphore that has been given already tells the set nothing
    if s.playerSem then s else { s with playerSem := true, qset := s.qset ++ [.player] }
  | _ => s

/-- The `vb6824_send` of a callback returns. -/
def Chat.callbackStop : Chat :=
  if 0 < s.stopping then
    { s with
      stopping := s.stopping - 1
      blocked := s.blocked ++ [.stopRecording]
      log := s.log ++ [.stopRecord] }
  else s

/-- A blocked callback finds room in the queue. -/
def Chat.callbackSend (i : Nat) : Chat :=
  match s.blocked[i]?, s.localSoundQ with
  | some sound, none =>
    { s with
      localSoundQ := some sound
      qset := s.qset ++ [.localSound]
      blocked := s.blocked.eraseIdx i }
  | _, _ => s

/-- The start-up or the firmware update sends to the chip. -/
def Chat.otherCall : Chat := { s with others := s.others + 1, player := s.player.join }

def Chat.otherReturn : Chat := { s with others := s.others - 1 }

/-- The words that the chip can report. -/
def WAKE_WORD : List UInt8 :=
  [0xE4, 0xBD, 0xA0, 0xE5, 0xA5, 0xBD, 0xE5, 0xB0, 0x8F, 0xE5, 0xAE, 0x89]
def GOODBYE : List UInt8 := [0xE5, 0x86, 0x8D, 0xE8, 0xA7, 0x81]
def NO_MORE_CHAT : List UInt8 := [0xE4, 0xB8, 0x8D, 0xE8, 0x81, 0x8A, 0xE4, 0xBA, 0x86]

/-- `vb6824_on_report_asr`, up to its `xQueueSend`. -/
def Chat.vb6824OnReportAsr (data : List UInt8) : Chat :=
  if s.receiver = .idle then
    if strncmp data WAKE_WORD data.length = 0 then
      { s with receiver := .posting s.calls, calls := s.calls + 1 }
    else if strncmp data GOODBYE data.length = 0 ∨ strncmp data NO_MORE_CHAT data.length = 0 then
      { s with log := s.log ++ [.speechEnd] }
    else s
  else s

/-- The call of the wake word finds room in the queue. -/
def Chat.wakeSend : Chat :=
  match s.receiver, s.localSoundQ with
  | .posting call, none =>
    { s with
      localSoundQ := some (.startRecording call)
      qset := s.qset ++ [.localSound]
      receiver := .waiting call }
  | _, _ => s

/-- It takes the semaphore, and calls `c_mmi_speech_start`. -/
def Chat.wakeTake : Chat :=
  match s.receiver with
  | .waiting call =>
    if s.localSoundPlayDoneSem then
      { s with
        localSoundPlayDoneSem := false
        receiver := .idle
        log := s.log ++ [.speechStart call] }
    else s
  | _ => s

/-- `xQueueSelectFromSet`, and the attempt to take what it found. -/
def Chat.playerSelect : Chat :=
  match s.qset with
  | [] => s
  | .localSound :: rest =>
    match s.localSoundQ with
    | some sound => { s with qset := rest, localSoundQ := none, player := .sound sound 0 }
    | none => { s with qset := rest }
  | .player :: rest =>
    if s.playerSem then { s with qset := rest, playerSem := false, player := .tts [] }
    else { s with qset := rest }

def Chat.playerSound (sound : Sound) (i : Nat) : Chat :=
  if i < pcmDataSize sound then
    { s with player := .sending sound i (decide (0 < s.stopping + s.others)) }
  else { s with player := .select, localSoundPlayDoneSem := true }

/-- The `vb6824_send` of a part returns; the part can be `lost` if the call was shared. -/
def Chat.partReturn (lost : Bool) : Chat :=
  match s.player with
  | .sending sound i shared =>
    { s with
      player := .sound sound (i + PLAY_SIZE)
      log := if shared && lost then s.log else s.log ++ [.play sound i] }
  | _ => s

def Chat.playerTts (data : List UInt8) (t : Turn) : Chat :=
  match ttsTurn data { t with localSound := s.localSoundQ.isSome } with
  | (none, frames) => { s with player := .select, log := s.log ++ frames.map .tts }
  | (some data, frames) => { s with player := .tts data, log := s.log ++ frames.map .tts }

/-- A step of `player_routine`. -/
def Chat.playerRoutine (t : Turn) : Chat :=
  match s.player with
  | .select => s.playerSelect
  | .sound sound i => s.playerSound sound i
  | .sending _ _ _ => s
  | .tts data => s.playerTts data t

inductive ChatEvent where
  | mmi (event : MmiEvent)
  | callbackStop
  | callbackSend (i : Nat)
  | otherCall
  | otherReturn
  | report (data : List UInt8)
  | wakeSend
  | wakeTake
  | player (t : Turn)
  | partReturn (lost : Bool)
deriving DecidableEq

def chatStep : ChatEvent → Chat
  | .mmi event => s.mmiEventCallback event
  | .callbackStop => s.callbackStop
  | .callbackSend i => s.callbackSend i
  | .otherCall => s.otherCall
  | .otherReturn => s.otherReturn
  | .report data => s.vb6824OnReportAsr data
  | .wakeSend => s.wakeSend
  | .wakeTake => s.wakeTake
  | .player t => s.playerRoutine t
  | .partReturn lost => s.partReturn lost

/-! ### The order of the sound and the speech -/

def SentAll (log : List Entry) (sound : Sound) : Prop :=
  ∀ i < pcmDataSize sound, i % PLAY_SIZE = 0 → .play sound i ∈ log

/-- A call of the wake word starts the speech only behind its own sound. -/
def StartsAfterSound (log : List Entry) (call : Nat) : Prop :=
  ∀ n, log[n]? = some (.speechStart call) → SentAll (log.take n) (.startRecording call)

/-- No token has been left by another sound, and no other sound is playing. -/
def Chat.Quiet : Prop :=
  s.localSoundPlayDoneSem = false ∧ s.player.playing = none

/-- The sound of a wake word is queued in a quiet moment only, and no other task is in
    `vb6824_send` while a part of it is sent. -/
def WakeCond : ChatEvent → Prop
  | .wakeSend => ∀ call, s.receiver = .posting call → s.localSoundQ = none → s.Quiet
  | .player _ => ∀ call i, s.player = .sound (.startRecording call) i →
      i < pcmDataSize (.startRecording call) → s.stopping + s.others = 0
  | .mmi .asrEnd | .otherCall =>
    ∀ call i shared, s.player ≠ .sending (.startRecording call) i shared
  | _ => True

section Log

theorem SentAll.mono (hsub : log ⊆ log') (h : SentAll log sound) : SentAll log' sound :=
  fun i hi hmod => hsub (h i hi hmod)

theorem startsAfterSound_append :
    StartsAfterSound (log ++ entries) call ↔ StartsAfterSound log call ∧
      ∀ n, entries[n]? = some (.speechStart call) →
        SentAll (log ++ entries.take n) (.startRecording call) := by
  constructor
  · intro h
    refine ⟨fun n hn => ?_, fun n hn => ?_⟩
    · have hlt : n < log.length := (List.getElem?_eq_some_iff.mp hn).1
      have hfirst := h n (by rw [List.getElem?_append_left hlt, hn])
      rwa [take_append_of_le_length (le_of_lt hlt)] at hfirst
    · have hlast := h (log.length + n)
        (by rw [List.getElem?_append_right (Nat.le_add_right _ _), Nat.add_sub_cancel_left, hn])
      rwa [take_length_add_append] at hlast
  · rintro ⟨h, hnew⟩ n hn
    rcases lt_or_ge n log.length with hlt | hge
    · rw [List.getElem?_append_left hlt] at hn
      rw [take_append_of_le_length (le_of_lt hlt)]
      exact h n hn
    obtain ⟨k, rfl⟩ := Nat.exists_eq_add_of_le hge
    rw [List.getElem?_append_right hge, Nat.add_sub_cancel_left] at hn
    rw [take_length_add_append]
    exact hnew k hn

theorem StartsAfterSound.append (h : StartsAfterSound log call)
    (hnone : .speechStart call ∉ entries) : StartsAfterSound (log ++ entries) call :=
  startsAfterSound_append.mpr ⟨h, fun _ hn => absurd (mem_of_getElem? hn) hnone⟩

theorem startsAfterSound_concat : StartsAfterSound (log ++ [.speechStart call]) call ↔
      StartsAfterSound log call ∧ SentAll log (.startRecording call) := by
  rw [startsAfterSound_append]
  refine and_congr_right fun _ => ⟨fun h => ?_, fun h n hn => ?_⟩
  · simpa using h 0 rfl
  · obtain rfl : n = 0 := by simpa using (List.getElem?_eq_some_iff.mp hn).1
    simpa using h

end Log

/-! ### What a step can do -/

def Entry.Aside : Entry → Prop
  | .speechStart _ | .play _ _ => False
  | _ => True

/-- A step apart from the sound of a wake word: no part of a local sound and no token, and at most
    the sound of a callback moves into the empty queue. Only another task that enters
    `vb6824_send` makes a call shared. -/
structure Background (s : Chat) (ev : ChatEvent) (s' : Chat) : Prop where
  player : s'.player = s.player ∨ s'.player = s.player.join ∧
    (ev = .mmi .asrEnd ∨ ev = .otherCall) ∨
    s.player.playing = none ∧ s'.player.playing = none
  token : s'.localSoundPlayDoneSem = s.localSoundPlayDoneSem
  queue : s'.localSoundQ = s.localSoundQ ∨
    s.localSoundQ = none ∧ ∃ sound ∈ s.blocked, s'.localSoundQ = some sound
  blocked : ∀ call, .startRecording call ∈ s'.blocked → .startRecording call ∈ s.blocked
  receiver : s'.receiver = s.receiver
  calls : s'.calls = s.calls
  log : ∃ entries, s'.log = s.log ++ entries ∧ ∀ e ∈ entries, e.Aside

inductive Effect (s : Chat) (ev : ChatEvent) : Chat → Prop where
  | background (s' : Chat) (h : Background s ev s') : Effect s ev s'
  | report (idle : s.receiver = .idle) :
      Effect s ev { s with receiver := .posting s.calls, calls := s.calls + 1 }
  | wakeSend (event : ev = .wakeSend) (call : Nat) (posting : s.receiver = .posting call)
      (room : s.localSoundQ = none) :
      Effect s ev { s with
        localSoundQ := some (.startRecording call)
        qset := s.qset ++ [.localSound]
        receiver := .waiting call }
  | wakeTake (call : Nat) (waiting : s.receiver = .waiting call)
      (token : s.localSoundPlayDoneSem = true) :
      Effect s ev { s with
        localSoundPlayDoneSem := false
        receiver := .idle
        log := s.log ++ [.speechStart call] }
  | receive (sound : Sound) (rest : List Member) (select : s.player = .select)
      (queue : s.localSoundQ = some sound) :
      Effect s ev { s with qset := rest, localSoundQ := none, player := .sound sound 0 }
  | send (t : Turn) (event : ev = .player t) (sound : Sound) (i : Nat)
      (playing : s.player = .sound sound i) (more : i < pcmDataSize sound) :
      Effect s ev { s with player := .sending sound i (decide (0 < s.stopping + s.others)) }
  | partReturn (sound : Sound) (i : Nat) (shared : Bool) (log : List Entry)
      (sending : s.player = .sending sound i shared)
      (sent : log = s.log ++ [.play sound i] ∨ shared = true ∧ log = s.log) :
      Effect s ev { s with player := .sound sound (i + PLAY_SIZE), log := log }
  | played (sound : Sound) (i : Nat) (playing : s.player = .sound sound i)
      (done : pcmDataSize sound ≤ i) :
      Effect s ev { s with player := .select, localSoundPlayDoneSem := true }

section Effects

variable {s s' : Chat}

theorem Background.refl (s : Chat) (ev : ChatEvent) : Background s ev s where
  player := .inl rfl
  token := rfl
  queue := .inl rfl
  blocked := fun _ h => h
  receiver := rfl
  calls := rfl
  log := ⟨[], by simp⟩

theorem Background.block (s : Chat) (ev : ChatEvent) (sound : Sound) (stopping : Nat)
    (hsound : ∀ call, sound ≠ .startRecording call) (hentries : ∀ e ∈ entries, e.Aside) :
    Background s ev { s with
      blocked := s.blocked ++ [sound]
      stopping := stopping
      log := s.log ++ entries } where
  player := .inl rfl
  token := rfl
  queue := .inl rfl
  blocked := by
    intro call hmem
    rcases mem_append.mp hmem with hold | hnew
    · exact hold
    · exact absurd (mem_singleton.mp hnew).symm (hsound call)
  receiver := rfl
  calls := rfl
  log := ⟨entries, rfl, hentries⟩

theorem background_mmi : Background s (.mmi event) (s.mmiEventCallback event) := by
  have hquiet : ∀ e ∈ ([] : List Entry), e.Aside := fun _ h => absurd h not_mem_nil
  have hrefl := Background.refl s (.mmi event)
  cases event with
  | dataInit => exact { hrefl with }
  | dataDeinit =>
    have hblock := Background.block s (.mmi .dataDeinit) .disconnected s.stopping nofun hquiet
    rwa [append_nil] at hblock
  | speechReady =>
    have hblock := Background.block s (.mmi .speechReady) .connected s.stopping nofun hquiet
    rwa [append_nil] at hblock
  | asrEnd => exact { hrefl with player := .inr (.inl ⟨rfl, .inl rfl⟩) }
  | ttsStart =>
    simp only [Chat.mmiEventCallback]
    split
    · exact hrefl
    · exact { hrefl with }
  | userConfig | speechStart | asrStart | asrIncomplete | asrComplete => exact hrefl
  | llmIncomplete | llmComplete | ttsEnd | other => exact hrefl

theorem background_callbackStop : Background s ev s.callbackStop := by
  unfold Chat.callbackStop
  split
  · exact Background.block s ev .stopRecording _ nofun (by simp [Entry.Aside])
  · exact Background.refl s ev

theorem background_callbackSend : Background s ev (s.callbackSend i) := by
  unfold Chat.callbackSend
  split
  · rename_i sound hsound hqueue
    exact { Background.refl s ev with
      queue := .inr ⟨hqueue, sound, mem_of_getElem? hsound, rfl⟩
      blocked := fun _ hmem => mem_of_mem_eraseIdx hmem }
  · exact Background.refl s ev

theorem background_tts (hplayer : s.player = .tts data) :
    Background s ev (s.playerTts data t) := by
  have hframes : ∀ frames : List (List UInt8), ∀ e ∈ frames.map Entry.tts, e.Aside := by
    intro frames e he
    obtain ⟨frame, -, rfl⟩ := mem_map.mp he
    trivial
  unfold Chat.playerTts
  split <;> rename_i frames _
  all_goals exact { Background.refl s ev with
    player := .inr (.inr ⟨by rw [hplayer]; rfl, rfl⟩)
    log := ⟨frames.map .tts, rfl, hframes frames⟩ }

theorem effect_select (hplayer : s.player = .select) : Effect s ev s.playerSelect := by
  unfold Chat.playerSelect
  split
  · exact .background s (.refl s ev)
  · split
    · rename_i rest hset _ sound hqueue
      exact .receive sound rest hplayer hqueue
    · exact .background _ { Background.refl s ev with }
  · split
    · exact .background _ { Background.refl s ev with
        player := .inr (.inr ⟨by rw [hplayer]; rfl, rfl⟩) }
    · exact .background _ { Background.refl s ev with }

theorem effect_player : Effect s (.player t) (s.playerRoutine t) := by
  unfold Chat.playerRoutine
  split
  · rename_i hplayer
    exact effect_select hplayer
  · rename_i sound i hplayer
    unfold Chat.playerSound
    split
    · rename_i hmore
      exact .send t rfl sound i hplayer hmore
    · rename_i hdone
      exact .played sound i hplayer (not_lt.mp hdone)
  · exact .background s (.refl s _)
  · rename_i data hplayer
    exact .background _ (background_tts hplayer)

theorem effect_partReturn : Effect s ev (s.partReturn lost) := by
  unfold Chat.partReturn
  split
  · rename_i sound i shared hplayer
    apply Effect.partReturn sound i shared _ hplayer
    cases shared <;> cases lost <;> simp
  · exact .background s (.refl s ev)

/-- **Every step** has one of these effects. -/
theorem chatStep_effect (s : Chat) (ev : ChatEvent) : Effect s ev (chatStep s ev) := by
  cases ev with
  | mmi event => exact .background _ background_mmi
  | callbackStop => exact .background _ background_callbackStop
  | callbackSend i => exact .background _ background_callbackSend
  | otherCall =>
    exact .background _ { Background.refl s .otherCall with
      player := .inr (.inl ⟨rfl, .inr rfl⟩) }
  | otherReturn => exact .background _ { Background.refl s .otherReturn with }
  | report data =>
    simp only [chatStep, Chat.vb6824OnReportAsr]
    split
    · rename_i hidle
      split
      · exact .report hidle
      · split
        · exact .background _ { Background.refl s _ with
            log := ⟨[.speechEnd], rfl, by simp [Entry.Aside]⟩ }
        · exact .background s (.refl s _)
    · exact .background s (.refl s _)
  | wakeSend =>
    simp only [chatStep, Chat.wakeSend]
    split
    · rename_i call hposting hroom
      exact .wakeSend rfl call hposting hroom
    · exact .background s (.refl s _)
  | wakeTake =>
    simp only [chatStep, Chat.wakeTake]
    split
    · rename_i call hwaiting
      split
      · rename_i htoken
        exact .wakeTake call hwaiting htoken
      · exact .background s (.refl s _)
    · exact .background s (.refl s _)
  | player t => exact effect_player
  | partReturn lost => exact effect_partReturn

theorem Player.join_playing (p : Player) : p.join.playing = p.playing := by
  cases p <;> rfl

theorem Player.join_offset (p : Player) : p.join.offset = p.offset := by
  cases p <;> rfl

theorem Background.playing (h : Background s ev s') : s'.player.playing = s.player.playing := by
  rcases h.player with hsame | ⟨hjoin, -⟩ | ⟨hnone, hnone'⟩
  · rw [hsame]
  · rw [hjoin, Player.join_playing]
  · rw [hnone, hnone']

theorem Background.offset (h : Background s ev s') (hplaying : s.player.playing = some sound) :
    s'.player.offset = s.player.offset := by
  rcases h.player with hsame | ⟨hjoin, -⟩ | ⟨hnone, -⟩
  · rw [hsame]
  · rw [hjoin, Player.join_offset]
  · cases hnone.symm.trans hplaying

/-- Under the condition no part of the sound of a wake word becomes shared. -/
theorem Background.isShared (h : Background s ev s') (hcond : WakeCond s ev)
    (hplaying : s.player.playing = some (.startRecording call)) :
    s'.player.isShared = s.player.isShared := by
  rcases h.player with hsame | ⟨hjoin, hev⟩ | ⟨hnone, -⟩
  · rw [hsame]
  · rw [hjoin]
    have hapart : ∀ i shared, s.player ≠ .sending (.startRecording call) i shared := by
      rcases hev with rfl | rfl
      · exact hcond call
      · exact hcond call
    cases hp : s.player with
    | select => rfl
    | sound sound i => rfl
    | sending sound i shared =>
      rw [hp] at hplaying
      cases hplaying
      exact absurd hp (hapart i shared)
    | tts data => rfl
  · cases hnone.symm.trans hplaying

theorem Background.sending (h : Background s ev s')
    (hsending : s'.player = .sending sound i shared) :
    ∃ shared, s.player = .sending sound i shared := by
  rcases h.player with hsame | ⟨hjoin, -⟩ | ⟨-, hnone⟩
  · exact ⟨shared, hsame.symm.trans hsending⟩
  · rw [hjoin] at hsending
    cases hp : s.player with
    | sending sound' i' shared' =>
      rw [hp] at hsending
      cases hsending
      exact ⟨shared', rfl⟩
    | select => rw [hp] at hsending; cases hsending
    | sound sound' i' => rw [hp] at hsending; cases hsending
    | tts data => rw [hp] at hsending; cases hsending
  · rw [hsending] at hnone
    cases hnone

end Effects

/-! ### Wake words under the condition -/

/-- A call that waits for the semaphore: its sound is queued, a part of it is next, or all of it
    has been sent. -/
inductive Awaited (s : Chat) (call : Nat) : Prop where
  | queued (queue : s.localSoundQ = some (.startRecording call))
  | playing (playing : s.player.playing = some (.startRecording call))
      (unshared : s.player.isShared = false)
      (sent : ∀ j < s.player.offset, j % PLAY_SIZE = 0 → .play (.startRecording call) j ∈ s.log)
  | sent (sent : SentAll s.log (.startRecording call))

structure WakeSafe (s : Chat) : Prop where
  starts : ∀ call, StartsAfterSound s.log call
  waiting : ∀ call, s.receiver = .waiting call → Awaited s call
  queued : ∀ call, s.localSoundQ = some (.startRecording call) →
    s.receiver = .waiting call ∧ s.Quiet ∧ ∀ j, .play (.startRecording call) j ∉ s.log
  playing : ∀ call, s.player.playing = some (.startRecording call) →
    s.receiver = .waiting call ∧ s.localSoundPlayDoneSem = false ∧
      ∀ j ≥ s.player.offset, .play (.startRecording call) j ∉ s.log
  aligned : s.player.offset % PLAY_SIZE = 0
  part : ∀ sound i shared, s.player = .sending sound i shared → i < pcmDataSize sound
  blocked : ∀ call, .startRecording call ∉ s.blocked
  number : ∀ call, s.receiver = .posting call ∨ s.receiver = .waiting call → call < s.calls
  logged : ∀ call j, .play (.startRecording call) j ∈ s.log →
    call < s.calls ∧ s.receiver ≠ .posting call

theorem wakeSafe_init : WakeSafe .init where
  starts := fun _ _ h => by cases h
  waiting := nofun
  queued := nofun
  playing := nofun
  aligned := rfl
  part := nofun
  blocked := fun _ => not_mem_nil
  number := by simp [Chat.init]
  logged := fun _ _ h => by cases h

section Safe

variable {s s' : Chat}

theorem Awaited.background (h : Awaited s call) (hb : Background s ev s') (hcond : WakeCond s ev) :
    Awaited s' call := by
  obtain ⟨entries, hlog, -⟩ := hb.log
  have hsub : s.log ⊆ s'.log := by
    rw [hlog]
    exact subset_append_left _ _
  cases h with
  | queued queue =>
    rcases hb.queue with hsame | ⟨hnone, _⟩
    · exact .queued (hsame.trans queue)
    · cases hnone.symm.trans queue
  | playing playing unshared sent =>
    refine .playing (hb.playing.trans playing) ((hb.isShared hcond playing).trans unshared) ?_
    rw [hb.offset playing]
    exact fun j hj hmod => hsub (sent j hj hmod)
  | sent sent => exact .sent (sent.mono hsub)

theorem WakeSafe.background (h : WakeSafe s) (hb : Background s ev s') (hcond : WakeCond s ev) :
    WakeSafe s' := by
  obtain ⟨entries, hlog, hentries⟩ := hb.log
  have hplay : ∀ sound j, .play sound j ∈ s'.log → .play sound j ∈ s.log := by
    intro sound j hmem
    rw [hlog] at hmem
    rcases mem_append.mp hmem with hold | hnew
    · exact hold
    · exact (hentries _ hnew).elim
  constructor
  case starts =>
    intro call
    rw [hlog]
    exact (h.starts call).append fun hmem => hentries _ hmem
  case waiting =>
    intro call hwaiting
    rw [hb.receiver] at hwaiting
    exact (h.waiting call hwaiting).background hb hcond
  case queued =>
    intro call hqueue
    rcases hb.queue with hsame | ⟨-, sound, hmem, hsome⟩
    · obtain ⟨hreceiver, hquiet, hunsent⟩ := h.queued call (hsame.symm.trans hqueue)
      exact ⟨hb.receiver.trans hreceiver, ⟨hb.token.trans hquiet.1, hb.playing.trans hquiet.2⟩,
        fun j hj => hunsent j (hplay _ j hj)⟩
    · -- a callback queues other sounds only
      cases hsome.symm.trans hqueue
      exact absurd hmem (h.blocked call)
  case playing =>
    intro call hplaying
    rw [hb.playing] at hplaying
    obtain ⟨hreceiver, htoken, hunsent⟩ := h.playing call hplaying
    rw [hb.offset hplaying, hb.receiver, hb.token]
    exact ⟨hreceiver, htoken, fun j hj hmem => hunsent j hj (hplay _ j hmem)⟩
  case aligned =>
    cases hplaying : s'.player.playing with
    | none =>
      cases hp : s'.player <;> rw [hp] at hplaying <;> first | rfl | cases hplaying
    | some sound =>
      rw [hb.offset (hb.playing.symm.trans hplaying)]
      exact h.aligned
  case part =>
    intro sound i shared hsending
    obtain ⟨shared', hbefore⟩ := hb.sending hsending
    exact h.part sound i shared' hbefore
  case blocked => exact fun call hmem => h.blocked call (hb.blocked call hmem)
  case number =>
    rw [hb.receiver, hb.calls]
    exact h.number
  case logged =>
    rw [hb.receiver, hb.calls]
    exact fun call j hmem => h.logged call j (hplay _ j hmem)

theorem WakeSafe.report (h : WakeSafe s) (hidle : s.receiver = .idle) :
    WakeSafe { s with receiver := .posting s.calls, calls := s.calls + 1 } := by
  refine { h with
    waiting := nofun
    queued := fun call hqueue => ?_
    playing := fun call hplaying => ?_
    number := ?_
    logged := fun call j hmem => ?_ }
  · cases hidle.symm.trans (h.queued call hqueue).1
  · cases hidle.symm.trans (h.playing call hplaying).1
  · rintro _ (⟨⟨⟩⟩ | ⟨⟨⟩⟩)
    exact Nat.lt_succ_self _
  · have hlt := (h.logged call j hmem).1
    refine ⟨Nat.lt_succ_of_lt hlt, ?_⟩
    rintro ⟨⟩
    exact lt_irrefl _ hlt

theorem WakeSafe.wakeSend (h : WakeSafe s) (hposting : s.receiver = .posting call)
    (hquiet : s.Quiet) :
    WakeSafe { s with
      localSoundQ := some (.startRecording call)
      qset := s.qset ++ [.localSound]
      receiver := .waiting call } := by
  refine { h with
    waiting := ?_
    queued := ?_
    playing := fun _ hplaying => by cases hquiet.2.symm.trans hplaying
    number := ?_
    logged := fun call' j hmem => ⟨(h.logged call' j hmem).1, nofun⟩ }
  · rintro _ ⟨⟩
    exact .queued rfl
  · rintro _ ⟨⟩
    exact ⟨rfl, hquiet, fun j hmem => (h.logged call j hmem).2 hposting⟩
  · rintro _ (⟨⟨⟩⟩ | ⟨⟨⟩⟩)
    exact h.number call (.inl hposting)

/-- The token that a call finds is given behind its own sound. -/
theorem WakeSafe.wakeTake (h : WakeSafe s) (hwaiting : s.receiver = .waiting call)
    (htoken : s.localSoundPlayDoneSem = true) :
    WakeSafe { s with
      localSoundPlayDoneSem := false
      receiver := .idle
      log := s.log ++ [.speechStart call] } := by
  have hsent : SentAll s.log (.startRecording call) := by
    cases h.waiting call hwaiting with
    | queued queue => cases (h.queued call queue).2.1.1.symm.trans htoken
    | playing playing _ _ => cases (h.playing call playing).2.1.symm.trans htoken
    | sent sent => exact sent
  refine { h with
    starts := fun call' => ?_
    waiting := nofun
    queued := fun call' hqueue => ?_
    playing := fun call' hplaying => ?_
    number := fun _ hreceiver => by simp at hreceiver
    logged := fun call' j hmem => ⟨(h.logged call' j (by simpa using hmem)).1, nofun⟩ }
  · by_cases heq : call' = call
    · subst heq
      exact startsAfterSound_concat.mpr ⟨h.starts call', hsent⟩
    · apply (h.starts call').append
      simpa using heq
  · cases (h.queued call' hqueue).2.1.1.symm.trans htoken
  · cases (h.playing call' hplaying).2.1.symm.trans htoken

theorem WakeSafe.receive (h : WakeSafe s) (hplayer : s.player = .select)
    (hqueue : s.localSoundQ = some sound) :
    WakeSafe { s with qset := rest, localSoundQ := none, player := .sound sound 0 } := by
  refine { h with
    waiting := fun call hwaiting => ?_
    queued := nofun
    playing := ?_
    aligned := rfl
    part := nofun }
  · cases h.waiting call hwaiting with
    | queued queue =>
      cases queue.symm.trans hqueue
      exact .playing rfl rfl (fun j hj => absurd hj (Nat.not_lt_zero j))
    | playing playing _ _ =>
      rw [hplayer] at playing
      cases playing
    | sent sent => exact .sent sent
  · rintro call ⟨⟩
    obtain ⟨hreceiver, hquiet, hunsent⟩ := h.queued call hqueue
    exact ⟨hreceiver, hquiet.1, fun j _ => hunsent j⟩

theorem playing_sound (h : s.player = .sound sound i) :
    s.player.playing = some sound ∧ s.player.offset = i := by
  simp [h, Player.playing, Player.offset]

theorem WakeSafe.send (h : WakeSafe s) (hplayer : s.player = .sound sound i)
    (hmore : i < pcmDataSize sound)
    (hcond : ∀ call, sound = .startRecording call → shared = false) :
    WakeSafe { s with player := .sending sound i shared } := by
  have hplaying := playing_sound hplayer
  refine { h with
    waiting := fun call hwaiting => ?_
    queued := fun call hqueue => by cases (h.queued call hqueue).2.1.2.symm.trans hplaying.1
    playing := ?_
    aligned := (congrArg (· % PLAY_SIZE) hplaying.2).symm.trans h.aligned
    part := ?_ }
  · cases h.waiting call hwaiting with
    | queued queue => exact .queued queue
    | playing playing _ sent =>
      cases playing.symm.trans hplaying.1
      exact .playing rfl (hcond call rfl) (hplaying.2 ▸ sent)
    | sent sent => exact .sent sent
  · rintro call ⟨⟩
    have hunsent := h.playing call hplaying.1
    rwa [hplaying.2] at hunsent
  · rintro _ _ _ ⟨⟩
    exact hmore

theorem WakeSafe.partReturn (h : WakeSafe s) (hplayer : s.player = .sending sound i shared)
    (hsent : log = s.log ++ [.play sound i] ∨ shared = true ∧ log = s.log) :
    WakeSafe { s with player := .sound sound (i + PLAY_SIZE), log := log } := by
  have hplaying : s.player.playing = some sound ∧ s.player.offset = i ∧
      s.player.isShared = shared := by
    simp [hplayer, Player.playing, Player.offset, Player.isShared]
  have haligned : i % PLAY_SIZE = 0 := hplaying.2.1 ▸ h.aligned
  have hsub : s.log ⊆ log := by
    rcases hsent with rfl | ⟨-, rfl⟩ <;> simp
  have hplay : ∀ call j, .play (.startRecording call) j ∈ log →
      .play (.startRecording call) j ∈ s.log ∨ sound = .startRecording call ∧ j = i := by
    intro call j hmem
    rcases hsent with rfl | ⟨-, rfl⟩
    · rcases mem_append.mp hmem with hold | hlast
      · exact .inl hold
      · cases mem_singleton.mp hlast
        exact .inr ⟨rfl, rfl⟩
    · exact .inl hmem
  refine { h with
    starts := fun call => ?_
    waiting := fun call hwaiting => ?_
    queued := fun call hqueue => by cases (h.queued call hqueue).2.1.2.symm.trans hplaying.1
    playing := ?_
    aligned := (Nat.add_mod_right i PLAY_SIZE).trans haligned
    part := nofun
    logged := fun call j hmem => ?_ }
  · rcases hsent with rfl | ⟨-, rfl⟩
    · exact (h.starts call).append (by simp)
    · exact h.starts call
  · cases h.waiting call hwaiting with
    | queued queue => exact .queued queue
    | playing playing unshared sent =>
      cases playing.symm.trans hplaying.1
      rw [hplaying.2.1] at sent
      refine .playing rfl rfl fun k hk hmod => ?_
      rcases lt_or_ge k i with hlt | hge
      · exact hsub (sent k hlt hmod)
      -- the only part between the two offsets is the one that has just been sent
      have heq : k = i := by
        simp only [Player.offset, PLAY_SIZE] at hk hmod haligned
        omega
      rcases hsent with rfl | ⟨hshared, -⟩
      · rw [heq]
        exact mem_append_right _ (mem_singleton.mpr rfl)
      · cases (hplaying.2.2.trans hshared).symm.trans unshared
    | sent sent => exact .sent (sent.mono hsub)
  · rintro call ⟨⟩
    obtain ⟨hreceiver, htoken, hunsent⟩ := h.playing call hplaying.1
    refine ⟨hreceiver, htoken, fun j hj hmem => ?_⟩
    simp only [Player.offset, PLAY_SIZE] at hj
    rcases hplay call j hmem with hold | ⟨-, rfl⟩
    · exact hunsent j (by omega) hold
    · omega
  · rcases hplay call j hmem with hold | ⟨rfl, -⟩
    · exact h.logged call j hold
    · have hwaiting := (h.playing call hplaying.1).1
      exact ⟨h.number call (.inr hwaiting), hwaiting.trans_ne nofun⟩

theorem WakeSafe.played (h : WakeSafe s) (hplayer : s.player = .sound sound i)
    (hdone : pcmDataSize sound ≤ i) :
    WakeSafe { s with player := .select, localSoundPlayDoneSem := true } := by
  have hplaying := playing_sound hplayer
  refine { h with
    waiting := fun call hwaiting => ?_
    queued := fun call hqueue => by cases (h.queued call hqueue).2.1.2.symm.trans hplaying.1
    playing := nofun
    aligned := rfl
    part := nofun }
  cases h.waiting call hwaiting with
  | queued queue => exact .queued queue
  | playing playing _ sent =>
    cases playing.symm.trans hplaying.1
    rw [hplaying.2] at sent
    exact .sent (fun k hk hmod => sent k (lt_of_lt_of_le hk hdone) hmod)
  | sent sent => exact .sent sent

/-- Under the condition no step lets a wake word start before its sound. -/
theorem wakeSafe_step (s : Chat) (ev : ChatEvent) (h : WakeSafe s) (hcond : WakeCond s ev) :
    WakeSafe (chatStep s ev) := by
  have heffect := chatStep_effect s ev
  generalize chatStep s ev = s' at heffect
  cases heffect with
  | background _ hb => exact h.background hb hcond
  | report idle => exact h.report idle
  | wakeSend event call posting room =>
    subst event
    exact h.wakeSend posting (hcond call posting room)
  | wakeTake call waiting token => exact h.wakeTake waiting token
  | receive sound rest select queue => exact h.receive select queue
  | send t event sound i playing more =>
    subst event
    refine h.send playing more ?_
    rintro call rfl
    simp [hcond call i playing more]
  | partReturn sound i shared log sending sent => exact h.partReturn sending sent
  | played sound i playing done => exact h.played playing done

end Safe

/-! ### Wake words against it -/

/-- A turn in which nothing but the player itself does anything. -/
def idleTurn : Turn := ⟨false, false, false, []⟩

section Stale

variable {s : Chat}

/-- From here on the local sound comes to its end, with no other sound sent. -/
def Ends (s : Chat) (sound : Sound) : Prop :=
  ∃ later : List ChatEvent, (later.foldl chatStep s).localSoundPlayDoneSem = true ∧
    (later.foldl chatStep s).receiver = s.receiver ∧
    ∀ e ∈ (later.foldl chatStep s).log, e ∈ s.log ∨ ∃ j ≥ s.player.offset, e = .play sound j

theorem Ends.of_partReturn (hplayer : s.player = .sending sound i shared)
    (h : Ends { s with
      player := .sound sound (i + PLAY_SIZE), log := s.log ++ [.play sound i] } sound) :
    Ends s sound := by
  have hreturn : chatStep s (.partReturn false) = { s with
      player := .sound sound (i + PLAY_SIZE), log := s.log ++ [.play sound i] } := by
    simp [chatStep, Chat.partReturn, hplayer]
  obtain ⟨later, htoken, hreceiver, hlog⟩ := h
  refine ⟨.partReturn false :: later, ?_⟩
  rw [foldl_cons, hreturn]
  refine ⟨htoken, hreceiver, fun e he => ?_⟩
  rw [hplayer]
  rcases hlog e he with hold | ⟨j, hj, hplay⟩
  · rcases mem_append.mp hold with hmem | hlast
    · exact .inl hmem
    · exact .inr ⟨i, le_refl i, mem_singleton.mp hlast⟩
  · exact .inr ⟨j, le_trans (Nat.le_add_right i _) hj, hplay⟩

theorem ends_of_sound (hplayer : s.player = .sound sound i) : Ends s sound := by
  -- the induction is on what is left of the sound
  induction hleft : pcmDataSize sound - i using Nat.strongRecOn generalizing s i with
  | ind left ih =>
    have hstep : chatStep s (.player idleTurn) = s.playerSound sound i := by
      simp [chatStep, Chat.playerRoutine, hplayer]
    by_cases hmore : i < pcmDataSize sound
    · obtain ⟨later, hends⟩ : Ends (s.playerSound sound i) sound := by
        rw [Chat.playerSound, if_pos hmore]
        exact .of_partReturn rfl (ih _ (by simp only [PLAY_SIZE]; omega) rfl rfl)
      refine ⟨.player idleTurn :: later, ?_⟩
      rw [foldl_cons, hstep]
      rw [Chat.playerSound, if_pos hmore] at hends ⊢
      rwa [hplayer]
    · refine ⟨[.player idleTurn], ?_⟩
      rw [foldl_cons, hstep, Chat.playerSound, if_neg hmore]
      exact ⟨rfl, rfl, fun e he => .inl he⟩

theorem ends_of_playing (hplaying : s.player.playing = some sound) : Ends s sound := by
  cases hp : s.player with
  | select => rw [hp] at hplaying; cases hplaying
  | sound sound' i =>
    rw [hp] at hplaying
    cases hplaying
    exact ends_of_sound hp
  | sending sound' i shared =>
    rw [hp] at hplaying
    cases hplaying
    exact .of_partReturn hp (ends_of_sound rfl)
  | tts data => rw [hp] at hplaying; cases hplaying

theorem starts_early (hwaiting : s.receiver = .waiting call)
    (htoken : s.localSoundPlayDoneSem = true) (hlt : i < pcmDataSize (.startRecording call))
    (hmod : i % PLAY_SIZE = 0) (hunsent : .play (.startRecording call) i ∉ s.log) :
    ¬ StartsAfterSound (chatStep s .wakeTake).log call := by
  have hlog : (chatStep s .wakeTake).log = s.log ++ [.speechStart call] := by
    simp [chatStep, Chat.wakeTake, hwaiting, htoken]
  rw [hlog, startsAfterSound_concat]
  rintro ⟨-, hsent⟩
  exact hunsent (hsent i hlt hmod)

/-- A call that waits while a sound is playing can start behind that sound. -/
theorem starts_behind (hplaying : s.player.playing = some sound)
    (hwaiting : s.receiver = .waiting call) (hlt : i < pcmDataSize (.startRecording call))
    (hmod : i % PLAY_SIZE = 0) (hunsent : .play (.startRecording call) i ∉ s.log)
    (hother : sound = .startRecording call → i < s.player.offset) :
    ∃ later : List ChatEvent, ¬ StartsAfterSound (later.foldl chatStep s).log call := by
  obtain ⟨later, hdone, hreceiver, hlog⟩ := ends_of_playing hplaying
  refine ⟨later ++ [.wakeTake], ?_⟩
  rw [foldl_append]
  apply starts_early (hreceiver.trans hwaiting) hdone hlt hmod
  intro hplay
  rcases hlog _ hplay with hold | ⟨j, hj, heq⟩
  · exact hunsent hold
  · cases heq
    exact absurd (hother rfl) (not_lt.mpr hj)

/-- **A wake word that is not quiet** can start the speech before its sound. -/
theorem early_start_of_noise (h : WakeSafe s) (hposting : s.receiver = .posting call)
    (hroom : s.localSoundQ = none) (hnoise : ¬ s.Quiet) :
    ∃ later : List ChatEvent,
      ¬ StartsAfterSound ((.wakeSend :: later).foldl chatStep s).log call := by
  have hunsent : .play (.startRecording call) 0 ∉ s.log :=
    fun hmem => (h.logged call 0 hmem).2 hposting
  have hlt : 0 < pcmDataSize (.startRecording call) := by simp [pcmDataSize]
  have hsend : chatStep s .wakeSend = { s with
      localSoundQ := some (.startRecording call)
      qset := s.qset ++ [.localSound]
      receiver := .waiting call } := by
    simp [chatStep, Chat.wakeSend, hposting, hroom]
  simp only [foldl_cons, hsend]
  by_cases htoken : s.localSoundPlayDoneSem = true
  · refine ⟨[.wakeTake], ?_⟩
    rw [foldl_cons, foldl_nil]
    exact starts_early rfl htoken hlt rfl hunsent
  obtain ⟨sound, hplaying⟩ : ∃ sound, s.player.playing = some sound := by
    apply Option.ne_none_iff_exists'.mp
    exact fun hnone => hnoise ⟨by simpa using htoken, hnone⟩
  refine starts_behind hplaying rfl hlt rfl hunsent ?_
  rintro rfl
  cases hposting.symm.trans (h.playing call hplaying).1

/-- **A part that another task meets** can be lost, and the speech starts without it. -/
theorem early_start_of_shared (h : WakeSafe s) (stopping others : Nat)
    (hplaying : s.player.playing = some (.startRecording call))
    (hlt : s.player.offset < pcmDataSize (.startRecording call))
    (hshared : chatStep s ev = { s with
      player := .sending (.startRecording call) s.player.offset true, stopping, others }) :
    ∃ later : List ChatEvent, ¬ StartsAfterSound ((ev :: later).foldl chatStep s).log call := by
  obtain ⟨hwaiting, -, hunsent⟩ := h.playing call hplaying
  obtain ⟨later, hearly⟩ := starts_behind (s := { s with
      player := .sound (.startRecording call) (s.player.offset + PLAY_SIZE), stopping, others })
    rfl hwaiting hlt h.aligned (hunsent _ (le_refl _))
      (fun _ => Nat.lt_add_of_pos_right (by decide))
  refine ⟨.partReturn true :: later, ?_⟩
  rw [foldl_cons, foldl_cons, hshared]
  exact hearly

theorem early_start_of_not_cond (h : WakeSafe s) (hcond : ¬ WakeCond s ev) :
    ∃ (call : Nat) (later : List ChatEvent),
      ¬ StartsAfterSound ((ev :: later).foldl chatStep s).log call := by
  have hjoined : ∀ stopping others,
      chatStep s ev = { s with stopping, others, player := s.player.join } →
      (¬ ∀ call i shared, s.player ≠ .sending (.startRecording call) i shared) →
      ∃ (call : Nat) (later : List ChatEvent),
        ¬ StartsAfterSound ((ev :: later).foldl chatStep s).log call := by
    intro stopping others hstep hmeets
    simp only [ne_eq, not_forall, not_not] at hmeets
    obtain ⟨call, i, shared, hp⟩ := hmeets
    refine ⟨call, early_start_of_shared h stopping others (by rw [hp]; rfl) ?_ ?_⟩
    · rw [hp]
      exact h.part _ _ _ hp
    · rw [hstep, hp]
      rfl
  cases ev with
  | wakeSend =>
    simp only [WakeCond, not_forall] at hcond
    obtain ⟨call, hposting, hroom, hnoise⟩ := hcond
    exact ⟨call, early_start_of_noise h hposting hroom hnoise⟩
  | player t =>
    simp only [WakeCond, not_forall] at hcond
    obtain ⟨call, i, hp, hmore, hbusy⟩ := hcond
    refine ⟨call, early_start_of_shared h s.stopping s.others (by rw [hp]; rfl)
      (by rw [hp]; exact hmore) ?_⟩
    simp [chatStep, Chat.playerRoutine, hp, Chat.playerSound, hmore, Player.offset,
      Nat.pos_of_ne_zero hbusy]
  | mmi event =>
    cases event with
    | asrEnd => exact hjoined (s.stopping + 1) s.others rfl hcond
    | _ => exact absurd trivial hcond
  | otherCall => exact hjoined s.stopping (s.others + 1) rfl hcond
  | _ => exact absurd trivial hcond

end Stale

/-- **Wake words.** If their sounds are queued in quiet moments and their parts meet no other task,
    every speech starts behind the sound of its own call. And whenever an event is the first one
    against this, the run can go on so that a speech starts before its sound has been sent. -/
theorem speech_starts_after_sound (events : List ChatEvent)
    (hcond : Along chatStep WakeCond .init events) :
    Throughout chatStep (fun s => ∀ call, StartsAfterSound s.log call) .init events ∧
      ∀ ev, ¬ WakeCond (events.foldl chatStep .init) ev → ∃ (call : Nat) (later : List ChatEvent),
        ¬ StartsAfterSound ((events ++ ev :: later).foldl chatStep .init).log call := by
  have hsafe := hcond.throughout wakeSafe_step wakeSafe_init
  refine ⟨hsafe.mono fun _ h => h.starts, fun ev hev => ?_⟩
  obtain ⟨call, later, hearly⟩ := early_start_of_not_cond hsafe.last hev
  refine ⟨call, later, ?_⟩
  rw [foldl_append]
  exact hearly

/-- The player sends a part, and nothing else happens until the call returns. -/
def partSent : List ChatEvent := [.player idleTurn, .partReturn false]

/-- The wake word is reported to a device that has played nothing. -/
def firstWakeWord : List ChatEvent :=
  [.report WAKE_WORD, .wakeSend, .player idleTurn] ++ (List.replicate 40 partSent).flatten ++
    [.player idleTurn, .wakeTake]

theorem firstWakeWord_cond : Along chatStep WakeCond .init firstWakeWord := by
  have halone : Along chatStep (fun s ev =>
      (ev = .wakeSend → s = chatStep .init (.report WAKE_WORD)) ∧
      s.stopping + s.others = 0 ∧ ev ≠ .mmi .asrEnd ∧ ev ≠ .otherCall) .init firstWakeWord := by
    decide +kernel
  refine halone.mono fun s ev h => ?_
  unfold WakeCond
  split
  · rw [h.1 rfl]
    exact fun _ _ _ => ⟨rfl, rfl⟩
  · exact fun _ _ _ _ => h.2.1
  · exact absurd rfl h.2.2.1
  · exact absurd rfl h.2.2.2
  · trivial

theorem speech_starts_first :
    (firstWakeWord.foldl chatStep .init).log.getLast? = some (.speechStart 0) ∧
      Throughout chatStep (fun s => ∀ call, StartsAfterSound s.log call) .init firstWakeWord :=
  ⟨by decide +kernel, (speech_starts_after_sound firstWakeWord firstWakeWord_cond).1⟩

/-- The wake word is reported when the connection has been announced. -/
def connectedWakeWord : List ChatEvent :=
  [.mmi .speechReady, .callbackSend 0, .player idleTurn] ++ (List.replicate 50 partSent).flatten ++
    [.player idleTurn, .report WAKE_WORD, .wakeSend, .wakeTake]

/-- The speech starts with no part of its sound sent. -/
theorem speech_starts_early :
    (connectedWakeWord.foldl chatStep .init).log.getLast? = some (.speechStart 0) ∧
      .play (.startRecording 0) 0 ∉ (connectedWakeWord.foldl chatStep .init).log ∧
      ¬ StartsAfterSound (connectedWakeWord.foldl chatStep .init).log 0 := by
  have hunplayed : .play (.startRecording 0) 0 ∉ (connectedWakeWord.foldl chatStep .init).log := by
    decide +kernel
  have hstart : (connectedWakeWord.foldl chatStep .init).log[50]? = some (.speechStart 0) := by
    decide +kernel
  refine ⟨by decide +kernel, hunplayed, ?_⟩
  intro hstarts
  exact hunplayed (mem_of_mem_take (hstarts 50 hstart 0 (by decide) rfl))


end AmebaRtos.Qwen
