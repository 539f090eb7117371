import AmebaRtos.Ota.Progress

/-!
# The rule for the update loop

Two facts about `processLoop` that every later result rests on: it never runs out
of fuel before the answers of the transport are used up, and what every round
preserves holds of its outcome.
-/

namespace AmebaRtos.Ota

open Lib List

/-! ### Every read takes something from the transport -/

theorem pendingSize_cons_data :
    pendingSize (.data bytes :: script) = bytes.length + 1 + pendingSize script := by
  simp [pendingSize]

theorem pendingSize_read (len : Nat) (script : List ReadResult) :
    pendingSize (otaTransportRead len script).2 ≤ pendingSize script := by
  cases script with
  | nil => exact Nat.le_refl _
  | cons answer rest =>
    cases answer with
    | error => simp [otaTransportRead, pendingSize]
    | data bytes =>
      rw [otaTransportRead]
      split
      · simp only [pendingSize_cons_data]
        omega
      · simp only [pendingSize_cons_data, length_drop]
        omega

theorem pendingSize_read_lt (hread : otaTransportRead len script = (some bytes, rest))
    (hne : bytes ≠ []) : pendingSize rest < pendingSize script ∧ bytes.length ≤ len := by
  have hpos : 0 < bytes.length := length_pos_iff.mpr hne
  cases script with
  | nil =>
    cases hread
    exact absurd rfl hne
  | cons answer tail =>
    cases answer with
    | error => cases hread
    | data packet =>
      rw [otaTransportRead] at hread
      split at hread
      · cases hread
        rw [pendingSize_cons_data]
        exact ⟨by omega, by assumption⟩
      cases hread
      rw [length_take] at hpos
      simp only [pendingSize_cons_data, length_drop, length_take]
      omega

theorem pendingSize_receiveUntil (target fuel : Nat) (buf : List UInt8) (script : List ReadResult) :
    pendingSize (receiveUntil target fuel buf script).2 ≤ pendingSize script := by
  induction fuel generalizing buf script with
  | zero => exact Nat.le_refl _
  | succ fuel ih =>
    rw [receiveUntil]
    split
    · exact Nat.le_refl _
    have hread := pendingSize_read (target - buf.length) script
    split
    · rename_i heq
      rwa [heq] at hread
    · rename_i heq
      rwa [heq] at hread
    · rename_i heq
      rw [heq] at hread
      exact Nat.le_trans (ih _ _) hread

theorem pendingSize_recvHeader (buf : List UInt8) (script : List ReadResult) :
    pendingSize (otaCoreRecvHeader buf script).2 ≤ pendingSize script := by
  unfold otaCoreRecvHeader
  have hfirst := pendingSize_receiveUntil OTA_HEADER_LEN (OTA_HEADER_LEN - buf.length) buf script
  split
  · rename_i heq
    rwa [heq] at hfirst
  rename_i buf' rest heq
  rw [heq] at hfirst
  dsimp only
  split
  · exact hfirst
  have hsecond := pendingSize_receiveUntil (headerLen (wordAt buf' 4))
    (headerLen (wordAt buf' 4) - buf'.length) buf' rest
  split
  · rename_i heq'
    rw [heq'] at hsecond
    exact Nat.le_trans hsecond hfirst
  · rename_i heq'
    rw [heq'] at hsecond
    exact Nat.le_trans hsecond hfirst

variable (board : Board)

theorem pendingSize_parseHeader (s : OtaState) (bytes : List UInt8) (script : List ReadResult) :
    pendingSize (otaCoreParseHeader board s bytes script).2.2 ≤ pendingSize script := by
  have hrecv := pendingSize_recvHeader (pendingBytes s ++ bytes) script
  unfold otaCoreParseHeader
  dsimp only
  split
  · rename_i heq
    rwa [heq] at hrecv
  rename_i heq
  rw [heq] at hrecv
  split
  · exact hrecv
  · split
    · exact hrecv
    · split <;> exact hrecv

variable (flash : Memory)

theorem pendingSize_fwProgram (s : OtaState) (bytes : List UInt8) (script : List ReadResult) :
    pendingSize (otaFwProgram board flash s bytes script).2 ≤ pendingSize script := by
  have hparse := pendingSize_parseHeader board s bytes script
  unfold otaFwProgram
  split
  · exact Nat.le_refl _
  · split <;> rename_i heq <;> rwa [heq] at hparse

/-- **The loop is total.** With more fuel than the transport has answers, the loop ends by itself.
-/
theorem processLoop_fuel (s : OtaState) (script : List ReadResult)
    (hfuel : pendingSize script < fuel) :
    processLoop board flash (fuel + 1) s script = processLoop board flash fuel s script := by
  induction fuel generalizing s script with
  | zero => omega
  | succ fuel ih =>
    rw [processLoop, processLoop]
    split
    · rfl
    · rfl
    rename_i byte bytes rest hread
    have hlt := (pendingSize_read_lt hread (cons_ne_nil _ _)).1
    have hprog := pendingSize_fwProgram board flash s (byte :: bytes) rest
    split
    · rfl
    · rfl
    · rfl
    rename_i hstep
    rw [hstep] at hprog
    dsimp only at hprog
    exact ih _ _ (by omega)

/-! ### Invariants of the loop -/

/-- One round of the loop keeps an invariant: `post` holds however the loop is left, and the
    invariant when it goes on. -/
def RoundOk (inv : OtaState → Prop) (post : Exit → OtaState → Prop) :
    Except OtaState (OtaState × Ret) → Prop
  | .error s => post .fault s
  | .ok (s, .finish) => post .finished s
  | .ok (s, .err) => post .failed s
  | .ok (s, .ok) => inv s

theorem processLoop_rule {board : Board} {flash : Memory} {inv : OtaState → Prop}
    {post : Exit → OtaState → Prop}
    (heof : ∀ s, inv s → post .eof s)
    (herror : ∀ s, inv s → post .readError s)
    (hround : ∀ s bytes script, inv s → bytes ≠ [] → bytes.length ≤ OTA_BUF_SIZE →
      RoundOk inv post (otaFwProgram board flash s bytes script).1)
    (fuel : Nat) (s : OtaState) (script : List ReadResult) (hinv : inv s) :
    post (processLoop board flash fuel s script).exit
      (processLoop board flash fuel s script).state := by
  induction fuel generalizing s script with
  | zero => exact heof s hinv
  | succ fuel ih =>
    rw [processLoop]
    split
    · exact herror s hinv
    · exact heof s hinv
    rename_i byte bytes rest hread
    have hlen := (pendingSize_read_lt hread (cons_ne_nil _ _)).2
    have hstep := hround s (byte :: bytes) rest hinv (cons_ne_nil _ _) hlen
    split <;> rename_i heq <;> rw [heq] at hstep
    · exact hstep
    · exact hstep
    · exact hstep
    · exact ih _ _ hstep

/-! ### The header round -/

structure Parsed (board : Board) (s s' : OtaState) (bytes : List UInt8) (r : ParseResult) :
    Prop where
  hdrs : ∃ buf hdrNum, otaCoreGetTargetHeader buf hdrNum = some s'.fileImgHdr
  layout : board.otaStorageCheckLayout s'.fileImgHdr = true
  index : s'.index = s.index
  isDnldInit : s'.isDnldInit = s.isDnldInit
  isGetOTAHdr : s'.isGetOTAHdr = true
  manifest : s'.manifest = s.manifest
  trace : s'.trace = s.trace
  rest : r = .ok ∨ ∃ rest, r = .remain rest ∧ rest ≠ [] ∧ rest.length ≤ bytes.length

theorem stripHeader_rest (hne : bytes ≠ []) (hlen : recvHdrLen < (pendingBytes s ++ bytes).length) :
    (stripHeader s bytes recvHdrLen).2 ≠ [] ∧
      (stripHeader s bytes recvHdrLen).2.length ≤ bytes.length := by
  unfold stripHeader
  unfold pendingBytes at hlen
  rw [length_append] at hlen
  split
  · rename_i next hnext
    rw [hnext] at hlen
    dsimp only at hlen
    split
    · exact ⟨hne, Nat.le_refl _⟩
    · dsimp only
      rw [length_drop, Ne, drop_eq_nil_iff]
      omega
  · rename_i hnext
    rw [hnext, length_nil] at hlen
    rw [length_drop, Ne, drop_eq_nil_iff]
    omega

theorem stripHeader_state (s : OtaState) (bytes : List UInt8) (recvHdrLen : Nat) :
    ∃ next, (stripHeader s bytes recvHdrLen).1 = { s with nextImg := next } := by
  unfold stripHeader
  split
  · split
    · exact ⟨_, rfl⟩
    · exact ⟨_, rfl⟩
  · exact ⟨s.nextImg, rfl⟩

theorem otaCoreParseHeader_cases {board : Board} {r : ParseResult} (hne : bytes ≠ [])
    (h : otaCoreParseHeader board s bytes script = (s', r, script')) :
    (r = .err ∧ s'.trace = s.trace) ∨ Parsed board s s' bytes r := by
  unfold otaCoreParseHeader at h
  dsimp only at h
  split at h
  · cases h
    exact .inl ⟨rfl, rfl⟩
  split at h
  · cases h
    exact .inl ⟨rfl, rfl⟩
  rename_i hhdrs
  split at h
  · cases h
    exact .inl ⟨rfl, rfl⟩
  rename_i hlayout
  have hlayout := eq_true_of_ne_false hlayout
  right
  split at h
  · cases h
    exact ⟨⟨_, _, hhdrs⟩, hlayout, rfl, rfl, rfl, rfl, rfl, .inl rfl⟩
  rename_i hlong
  cases h
  obtain ⟨next, hstate⟩ := stripHeader_state
    { s with fileImgHdr := _, isGetOTAHdr := true } bytes _
  rw [hstate]
  refine ⟨⟨_, _, hhdrs⟩, hlayout, rfl, rfl, rfl, rfl, rfl, .inr ⟨_, rfl, ?_⟩⟩
  exact stripHeader_rest hne (Nat.lt_of_not_le hlong)

theorem otaFwProgram_cases (s : OtaState) (script : List ReadResult) (hne : bytes ≠ []) :
    (s.isGetOTAHdr = true ∧
      (otaFwProgram board flash s bytes script).1 = programPacket board flash s bytes) ∨
    (s.isGetOTAHdr = false ∧ ∃ s',
      ((otaFwProgram board flash s bytes script).1 = .ok (s', .err) ∧ s'.trace = s.trace) ∨
      ((otaFwProgram board flash s bytes script).1 = .ok (s', .ok) ∧ Parsed board s s' bytes .ok) ∨
      (∃ rest, rest ≠ [] ∧ rest.length ≤ bytes.length ∧ Parsed board s s' bytes (.remain rest) ∧
        (otaFwProgram board flash s bytes script).1 = programPacket board flash s' rest)) := by
  unfold otaFwProgram
  cases hgot : s.isGetOTAHdr with
  | true => exact .inl ⟨rfl, rfl⟩
  | false =>
    right
    refine ⟨rfl, ?_⟩
    rcases hparse : otaCoreParseHeader board s bytes script with ⟨s', r, script'⟩
    refine ⟨s', ?_⟩
    rcases otaCoreParseHeader_cases hne hparse with ⟨rfl, htrace⟩ | hparsed
    · exact .inl ⟨rfl, htrace⟩
    · rcases hparsed.rest with rfl | ⟨rest, rfl, hrest, hlen⟩
      · exact .inr (.inl ⟨rfl, hparsed⟩)
      · exact .inr (.inr ⟨rest, hrest, hlen, hparsed, rfl⟩)

/-! ### The rule for a whole run -/

def PacketOk (inv : OtaState → Prop) (post : Exit → OtaState → Prop) :
    Except OtaState OtaState → Prop
  | .error s => post .fault s
  | .ok s => inv s ∧ s.isGetOTAHdr = true ∧ s.isDnldInit = true

/-- The steps that keep an invariant: the header, a packet, the bytes of `NextImgBuf` being used up,
    the end of an image. -/
structure StepsKeep (board : Board) (flash : Memory) (inv : OtaState → Prop)
    (post : Exit → OtaState → Prop) : Prop where
  eof : ∀ s, inv s → post .eof s
  readError : ∀ s, inv s → post .readError s
  headerError : ∀ s s', inv s → s.isGetOTAHdr = false → s'.trace = s.trace → post .failed s'
  header : ∀ s s' bytes r, inv s → s.isGetOTAHdr = false → Parsed board s s' bytes r → inv s'
  packet : ∀ s bytes, inv s → s.isGetOTAHdr = true → bytes ≠ [] →
    bytes.length ≤ OTA_BUF_SIZE → PacketOk inv post (downloadPacketProcess board s bytes)
  dropNextImg : ∀ s, inv s → inv { s with nextImg := none }
  finish : ∀ s, inv s → s.isGetOTAHdr = true → s.isDnldInit = true → s.remainBytes ≤ 0 →
    RoundOk inv post (.ok (downloadFinish board flash s (s.size + MANIFEST_SIZE)))

namespace StepsKeep

variable {board : Board} {flash : Memory}

variable (h : StepsKeep board flash inv post)
include h

theorem feedNextImg (hinv : inv s) (hgot : s.isGetOTAHdr = true) :
    (∃ s', feedNextImg board s = .error s' ∧ post .fault s') ∨
    (∃ s', feedNextImg board s = .ok s' ∧ inv s' ∧ s'.isGetOTAHdr = true) := by
  unfold AmebaRtos.Ota.feedNextImg
  split
  · rename_i next _
    have hpacket := h.packet s next.val hinv hgot next.property.1 next.property.2
    split <;> rename_i s' heq <;> rw [heq] at hpacket
    · exact .inl ⟨s', rfl, hpacket⟩
    · exact .inr ⟨_, rfl, h.dropNextImg s' hpacket.1, hpacket.2.1⟩
  · exact .inr ⟨s, rfl, hinv, hgot⟩

theorem programPacket (hinv : inv s) (hgot : s.isGetOTAHdr = true) (hne : bytes ≠ [])
    (hlen : bytes.length ≤ OTA_BUF_SIZE) :
    RoundOk inv post (programPacket board flash s bytes) := by
  unfold AmebaRtos.Ota.programPacket
  rcases h.feedNextImg hinv hgot with ⟨s', heq, hpost⟩ | ⟨s', heq, hinv', hgot'⟩
  · rw [heq]
    exact hpost
  rw [heq]
  have hpacket := h.packet s' bytes hinv' hgot' hne hlen
  dsimp only [feedPacket]
  split <;> rename_i s'' heq' <;> rw [heq'] at hpacket
  · exact hpacket
  · split
    · rename_i hremain
      exact h.finish s'' hpacket.1 hpacket.2.1 hpacket.2.2 hremain
    · exact hpacket.1

theorem otaFwProgram (hinv : inv s) (hne : bytes ≠ []) (hlen : bytes.length ≤ OTA_BUF_SIZE)
    (script : List ReadResult) : RoundOk inv post (otaFwProgram board flash s bytes script).1 := by
  rcases otaFwProgram_cases board flash s script hne with ⟨hgot, hround⟩ | ⟨hgot, s', hcases⟩
  · rw [hround]
    exact h.programPacket hinv hgot hne hlen
  rcases hcases with ⟨hround, htrace⟩ | ⟨hround, hparsed⟩ | ⟨rest, hrest, hle, hparsed, hround⟩
  · rw [hround]
    exact h.headerError s s' hinv hgot htrace
  · rw [hround]
    exact h.header s s' bytes _ hinv hgot hparsed
  · rw [hround]
    exact h.programPacket (h.header s s' bytes _ hinv hgot hparsed) hparsed.isGetOTAHdr hrest
      (Nat.le_trans hle hlen)

/-- **The rule for `ota_core_process`.** What every step keeps holds of the outcome. -/
theorem otaCoreProcess (hinit : inv (initialState nextImg)) (script : List ReadResult) :
    post (otaCoreProcess board flash (initialState nextImg) script).exit
      (otaCoreProcess board flash (initialState nextImg) script).state := by
  refine @processLoop_rule _ _ inv _ h.eof h.readError ?_ _ _ _ hinit
  intro s bytes script' hinv hne hlen
  exact h.otaFwProgram hinv hne hlen script'

end StepsKeep

end AmebaRtos.Ota
