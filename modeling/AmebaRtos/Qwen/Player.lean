import AmebaRtos.Vb6824.Send

/-!
# Playing speech

`player_routine` takes speech from the SDK in pieces of any length, collects it in a buffer
of 320 bytes and sends a full buffer to the voice chip. The loop ends when a local sound is
queued, when the SDK listens, or when the SDK says that all audio has been received. What
the buffer holds at that moment is not sent.
-/

namespace AmebaRtos.Qwen

open Vb6824 List

/-- `sizeof data`. -/
def PLAY_SIZE : Nat := 320

/-- What `vb6824_send` puts on the line. -/
def vb6824Send (cmd : UInt16) (data : List UInt8) : List (List UInt8) :=
  if data.length ≤ PACKET_SIZE - 7 then [frame ⟨0, cmd, data⟩] else []

/-- Whether a local sound is queued, the state of the SDK, and what `c_mmi_get_player_data` writes
    if it is called. -/
structure Turn where
  localSound : Bool
  listening : Bool
  audioRecvAll : Bool
  chunk : List UInt8
deriving DecidableEq

/-- A turn of the loop: the bytes in the buffer afterwards, or none when the loop ends, and the
    frames that are sent. -/
def ttsTurn (data : List UInt8) (t : Turn) : Option (List UInt8) × List (List UInt8) :=
  let remainder := PLAY_SIZE - data.length
  if t.localSound = true ∨ t.listening = true ∨ t.audioRecvAll = true ∨ remainder = 0 then
    (none, [])
  else if remainder - t.chunk.length = 0 then
    (some [], vb6824Send VB6824_CMD_PLAY (data ++ t.chunk))
  else (some (data ++ t.chunk), [])

def playTts (data : List UInt8) : List Turn → List (List UInt8)
  | [] => []
  | t :: rest =>
    match ttsTurn data t with
    | (none, frames) => frames
    | (some data, frames) => frames ++ playTts data rest

/-- The data of a frame, between its header and its checksum. -/
def payload (f : List UInt8) : List UInt8 := (f.drop 6).dropLast

/-- The turns that yield these pieces and then have received everything, with no local sound and
    without listening. -/
def playback (chunks : List (List UInt8)) : List Turn :=
  chunks.map (fun chunk => ⟨false, false, false, chunk⟩) ++ [⟨false, false, true, []⟩]

/-- No piece is longer than what was asked for, with so much left in the buffer. -/
def ChunksFit : Nat → List (List UInt8) → Prop
  | _, [] => True
  | remainder, chunk :: rest =>
    chunk.length ≤ remainder ∧
      ChunksFit (if remainder - chunk.length = 0 then PLAY_SIZE else remainder - chunk.length) rest

instance decidableChunksFit : ∀ remainder chunks, Decidable (ChunksFit remainder chunks)
  | _, [] => isTrue trivial
  | remainder, chunk :: rest =>
    have := decidableChunksFit
      (if remainder - chunk.length = 0 then PLAY_SIZE else remainder - chunk.length) rest
    inferInstanceAs (Decidable (_ ∧ _))

theorem payload_frame : payload (frame c) = c.data := by
  simp [payload, frame, frameHeader]

theorem payloads_of_full (hfull : data.length = PLAY_SIZE) :
    ((vb6824Send VB6824_CMD_PLAY data).map payload).flatten = data := by
  have hroom : data.length ≤ PACKET_SIZE - 7 := by
    rw [hfull]
    decide
  simp [vb6824Send, if_pos hroom, payload_frame]

/-- **The loop.** What has been sent and what is left in the buffer are what it held before and what
    came in, in order. -/
theorem playTts_collects (hdata : data.length < PLAY_SIZE)
    (hfit : ChunksFit (PLAY_SIZE - data.length) chunks) :
    ∃ left, left.length = (data.length + chunks.flatten.length) % PLAY_SIZE ∧
      ((playTts data (playback chunks)).map payload).flatten ++ left = data ++ chunks.flatten := by
  induction chunks generalizing data with
  | nil =>
    refine ⟨data, ?_, ?_⟩
    · simp [Nat.mod_eq_of_lt hdata]
    · simp [playback, playTts, ttsTurn]
  | cons chunk rest ih =>
    obtain ⟨hchunk, hrest⟩ := hfit
    have hroom : PLAY_SIZE - data.length ≠ 0 := by omega
    have hlength : (data ++ chunk).length = data.length + chunk.length := length_append
    by_cases hfull : PLAY_SIZE - data.length - chunk.length = 0
    · -- the piece fills the buffer, which is sent and starts empty again
      have hsize : (data ++ chunk).length = PLAY_SIZE := by omega
      have hempty : ([] : List UInt8).length < PLAY_SIZE := by decide
      rw [if_pos hfull] at hrest
      obtain ⟨left, hleft, hsent⟩ := ih hempty hrest
      refine ⟨left, ?_, ?_⟩
      · rw [hleft, flatten_cons, length_append, ← add_assoc, ← hlength, hsize,
          Nat.add_mod_left, length_nil, zero_add]
      · have hturn : ttsTurn data ⟨false, false, false, chunk⟩ =
            (some [], vb6824Send VB6824_CMD_PLAY (data ++ chunk)) := by
          simp [ttsTurn, hroom, hfull]
        have hframes := payloads_of_full hsize
        have hplay : playTts data (playback (chunk :: rest)) =
            vb6824Send VB6824_CMD_PLAY (data ++ chunk) ++ playTts [] (playback rest) := by
          simp [playback, playTts, hturn]
        rw [hplay, map_append, flatten_append, hframes, append_assoc, hsent]
        simp
    · have hshort : (data ++ chunk).length < PLAY_SIZE := by omega
      have hleftover : PLAY_SIZE - data.length - chunk.length =
        PLAY_SIZE - (data ++ chunk).length := by
        omega
      rw [if_neg hfull, hleftover] at hrest
      obtain ⟨left, hleft, hsent⟩ := ih hshort hrest
      refine ⟨left, ?_, ?_⟩
      · rw [hleft, flatten_cons, length_append, length_append, add_assoc]
      · have hturn : ttsTurn data ⟨false, false, false, chunk⟩ = (some (data ++ chunk), []) := by
          simp [ttsTurn, hroom, hfull]
        have hplay : playTts data (playback (chunk :: rest)) =
            playTts (data ++ chunk) (playback rest) := by
          simp [playback, playTts, hturn]
        rw [hplay, hsent]
        simp

/-- **Speech.** In a playback that ends because everything has been received, the chip gets
    all that the SDK has handed out exactly if that fills whole frames. -/
theorem speech_played_iff {chunks : List (List UInt8)} (hfit : ChunksFit PLAY_SIZE chunks) :
    ((playTts [] (playback chunks)).map payload).flatten = chunks.flatten ↔
      chunks.flatten.length % PLAY_SIZE = 0 := by
  have hempty : ([] : List UInt8).length < PLAY_SIZE := by decide
  obtain ⟨left, hleft, hsent⟩ := playTts_collects hempty hfit
  simp only [length_nil, zero_add, nil_append] at hleft hsent
  rw [← hleft, length_eq_zero_iff, ← hsent]
  exact ⟨fun h => by simpa using h, fun h => by simp [h]⟩

theorem speech_played_frame :
    ((playTts [] (playback [List.replicate 100 1, [], List.replicate 220 2])).map payload).flatten =
      [List.replicate 100 1, [], List.replicate 220 2].flatten :=
  (speech_played_iff (by decide +kernel)).mpr (by decide +kernel)

/-- The end of the speech is lost. -/
theorem speech_cut_off : ChunksFit PLAY_SIZE [List.replicate 320 1, [2]] ∧
      ((playTts [] (playback [List.replicate 320 1, [2]])).map payload).flatten =
        List.replicate 320 1 ∧
      ((playTts [] (playback [List.replicate 320 1, [2]])).map payload).flatten ≠
        [List.replicate 320 1, [2]].flatten := by
  decide +kernel

end AmebaRtos.Qwen
