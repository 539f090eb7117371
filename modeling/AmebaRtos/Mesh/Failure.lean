import Mathlib.Data.List.Induction
import AmebaRtos.Mesh.Node

/-!
# How a failed update of a node ends

An update that fails ends with `rmesh_ota_firmware_download_end(0)`: the node overwrites the
signature of the new image and restarts. The address is that of `g_rmesh_ota_status`, which is
there only when the father has announced an image since the update was started; otherwise it is
read through a null pointer.

The events alone tell how far an update has come, and the node of a run agrees with them: it is the
*progress* that decides which address a failed update overwrites.
-/

namespace AmebaRtos.Mesh

open Lib Ota

inductive FailurePath (board : Board) (n : Node) : Event → Node → Prop
  | httpFailed {nextImg : Option NextImg} {script : List ReadResult} {o : Outcome} {ret : Ret}
      (task : n.httpTask = .downloading)
      (outcome : otaCoreProcess board n.flash (initialState nextImg) script = o)
      (failed : o.ret = some ret ∧ ret ≠ .ok) :
      FailurePath board n (.httpDone nextImg script)
        { n with
          httpTask := .ended
          resetTimer := false
          flash := flashAfter n.flash o.state.trace
          download := some o }
  -- the download takes too long, or the father has left
  | httpTimeout (timer : n.resetTimer = true)
      (method : n.otaMethod = .http ∧ n.httpOtaFailReset = true) :
      FailurePath board n .resetTimerFires { n with resetTimer := false }
  | interTimeout (timer : n.resetTimer = true)
      (method : n.otaMethod = .inter ∧ n.waitInterOta = true) :
      FailurePath board n .resetTimerFires { n with resetTimer := false }
  | noRequest (timer : n.updateTimer = true) :
      FailurePath board n .updateTimerFires { n with updateTimer := false, waitInterOta := false }
  | reset {r : StatusReq} {doneSent progressSent : Bool} (st : UpgradeStatus)
      (request : r.status = RMESH_OTA_STS_RESET) (status : n.status.getD n.rom.status = st)
      (incomplete : st.writtenSize < st.totalSize ∨
        n.slaveNum = 0 ∧ st.writtenSize ≠ st.totalSize) :
      FailurePath board n (.statusReq r doneSent progressSent) { n with resetTimer := false }

/-- The `FLASH_WriteStream` of `rmesh_ota_firmware_download_end(0)`. -/
def signatureWrite (n : Node) : FlashOp :=
  .write (n.status.getD n.rom.status).imageAddr (List.replicate 8 0)

def signatureCleared (n : Node) : NodeState :=
  .restarted { n with flash := (signatureWrite n).apply SECTOR n.flash } false

/-- What is overwritten are the first 8 bytes of the inactive application slot. -/
def ClearsInactive (board : Board) (n : Node) : Prop :=
  ∀ a, (signatureWrite n).Touches SECTOR a ↔
    board.newOffset .app ≤ a ∧ a < board.newOffset .app + 8

/-- How far an update has come. While the node waits for its father it may have allocated a status
    for a request that announced nothing; a reset may end the waiting. -/
inductive Progress where
  | idle
  | http
  | waiting (allocated : Bool)
  | closed
  | announced (imageId : Nat)
deriving DecidableEq, Repr

def progressStep (rom : NullReads) : Progress → Event → Progress
  | .idle, .cmdRecv inter => if inter then .waiting false else .http
  | .waiting allocated, .statusReq r _ _ =>
    if r.status = RMESH_OTA_STS_RESET then
      if allocated = true ∨ rom.status.writtenSize = rom.status.totalSize then .closed
      else .waiting allocated
    else if r.totalSize = 0 ∧ r.checksum = 0 then .waiting true
    else .announced r.imageId
  | p, _ => p

section Paths

theorem FailurePath.signatureWrite_eq (h : FailurePath board n ev n') :
    signatureWrite n' = signatureWrite n := by
  cases h <;> rfl

theorem FailurePath.handle_eq (h : FailurePath board n ev n') :
    handle board n ev = signatureCleared n' := by
  change _ = rmeshOtaFirmwareDownloadEnd board n' false
  cases h with
  | httpFailed task outcome failed =>
    rw [handle, if_pos task, httpOtaDone]
    subst outcome
    simp only [failed.1]
    split
    · contradiction
    · rename_i heq
      exact absurd (Option.some.inj heq) failed.2
    · rfl
  | httpTimeout timer method =>
    rw [handle, if_pos timer, rmeshOtaResetWaitTimer, if_neg (fun h => h.2.1 method.1)]
    simp only [method.1, method.2, Bool.not_true]
  | interTimeout timer method =>
    rw [handle, if_pos timer, rmeshOtaResetWaitTimer,
      if_neg (fun h => Bool.noConfusion (method.2.symm.trans h.2.2))]
    simp only [method.1, method.2, Bool.not_true]
  | noRequest timer =>
    rw [handle, if_pos timer, rmeshOtaUpdateWaitTimer]
  | reset st request status incomplete =>
    have hne : st.writtenSize ≠ st.totalSize := by omega
    rw [handle, rmeshOtaStatusRequestCb, if_pos request, statusReset, status]
    simp only [hne, ne_eq, not_false_eq_true, decide_true, Bool.and_true, decide_false]
    split
    · rfl
    · rw [if_pos (by omega)]

theorem clearsInactive_iff : ClearsInactive board n ↔
    (n.status.getD n.rom.status).imageAddr = board.newOffset .app := by
  unfold ClearsInactive signatureWrite
  constructor
  · intro htouch
    -- each of the two ranges holds the first byte of the other
    have hfirst := (htouch (board.newOffset .app)).mpr ⟨le_refl _, by omega⟩
    have haddr := (htouch _).mp ⟨le_refl _, by simp⟩
    exact le_antisymm hfirst.1 haddr.1
  · intro haddr a
    simp [FlashOp.Touches, haddr]

end Paths

/-! ### The node and the progress of its update -/

/-- Where the image with this ID is put. -/
def announcedAddr (board : Board) (imageId : Nat) : Nat :=
  chipOffset (board.imgAddr imageId (board.targetSlot imageId))

def StatusAt (board : Board) (rom : NullReads) (n : Node) : Progress → Prop
  | .idle | .http | .waiting false => n.status = none
  | .waiting true => ∃ capacity, n.status = some (.zero capacity)
  | .closed => (n.status = none ∧ rom.status.writtenSize = rom.status.totalSize) ∨
      ∃ capacity, n.status = some (.zero capacity)
  | .announced imageId =>
    ∃ st, n.status = some st ∧ st.status ≠ .idle ∧ st.imageAddr = announcedAddr board imageId

def Progress.Waits (p : Progress) : Prop := ∃ allocated, p = .waiting allocated

def Progress.Announced (p : Progress) : Prop := ∃ imageId, p = .announced imageId

/-- The node of a run agrees with the progress of its update. -/
structure Follows (board : Board) (rom : NullReads) (p : Progress) (n : Node) : Prop where
  rom_eq : n.rom = rom
  status : StatusAt board rom n p
  ongoing : n.ongoing = false ↔ p = .idle
  inter : n.otaMethod = .inter ↔ p ≠ .idle ∧ p ≠ .http
  http : n.httpTask ≠ .absent ∨ n.otaMethod = .http → p = .http
  waits : p.Waits → n.waitInterOta = true
  waited : n.waitInterOta = true → p.Waits ∨ p.Announced
  updateTimer : n.updateTimer = true → p = .closed ∨ p.Waits
  resetTimer : n.resetTimer = true → p = .http ∨ p.Announced

section Steps

variable {board : Board} {p : Progress}

theorem follows_boot (flash : Memory) (heapBits : Nat → Bool) :
    Follows board rom .idle (Node.boot flash heapBits rom) where
  rom_eq := rfl
  status := rfl
  ongoing := by simp [Node.boot]
  inter := by simp [Node.boot]
  http := by simp [Node.boot]
  waits := nofun
  waited := nofun
  updateTimer := nofun
  resetTimer := nofun

/-- Only a command and a request move the progress of an update. -/
theorem progressStep_other (hcmd : ¬ ∃ interOta, ev = .cmdRecv interOta)
    (hreq : ¬ ∃ r doneSent progressSent, ev = .statusReq r doneSent progressSent) :
    progressStep rom p ev = p := by
  unfold progressStep
  split
  · exact absurd ⟨_, rfl⟩ hcmd
  · exact absurd ⟨_, _, _, rfl⟩ hreq
  · rfl

theorem Follows.cmdRecv (h : Follows board rom p n) (interOta : Bool) :
    Follows board rom (progressStep rom p (.cmdRecv interOta)) (rmeshOtaCmdRecv n interOta) := by
  unfold rmeshOtaCmdRecv
  cases hongoing : n.ongoing with
  | true =>
    have hp : p ≠ .idle := fun hp => by simp [h.ongoing.mpr hp] at hongoing
    have hstep : progressStep rom p (.cmdRecv interOta) = p := by
      cases p <;> first | rfl | exact absurd rfl hp
    rw [hstep]
    exact h
  | false =>
    obtain rfl := h.ongoing.mp hongoing
    have hmethod : n.otaMethod ≠ .inter := fun hm => (h.inter.mp hm).1 rfl
    cases interOta with
    | true =>
      exact
        { rom_eq := h.rom_eq
          status := rfl
          ongoing := by simp [progressStep]
          inter := by simp [progressStep]
          http := fun hhttp => by
            rcases hhttp with hhttp | hhttp
            · cases h.http (.inl hhttp)
            · cases hhttp
          waits := fun _ => rfl
          waited := fun _ => .inl ⟨false, rfl⟩
          updateTimer := fun _ => .inr ⟨false, rfl⟩
          resetTimer := fun ht => by rcases h.resetTimer ht with hp | ⟨_, hp⟩ <;> cases hp }
    | false =>
      exact
        { rom_eq := h.rom_eq
          status := h.status
          ongoing := by simp [progressStep]
          inter := by simpa [progressStep] using hmethod
          http := fun _ => rfl
          waits := nofun
          waited := nofun
          updateTimer := fun ht => by rcases h.updateTimer ht with hp | ⟨_, hp⟩ <;> cases hp
          resetTimer := fun _ => .inl rfl }

theorem statusResponse_running (k : Nat) (doneSent progressSent : Bool) :
    ∃ sts timer wait, statusResponse n st k doneSent progressSent = .running
        { n with status := some { st with status := sts }, resetTimer := timer,
                 waitInterOta := wait } ∧
      (sts = st.status ∨ sts = .finished) ∧ (wait = true → n.waitInterOta = true) := by
  unfold statusResponse
  dsimp only
  split
  · exact ⟨_, _, _, rfl, .inl rfl, id⟩
  split
  · exact ⟨_, _, _, rfl, .inl rfl, id⟩
  split
  · exact ⟨_, _, _, rfl, .inr rfl, nofun⟩
  · exact ⟨_, _, _, rfl, .inl rfl, id⟩

theorem statusResponse_zero (k : Nat) (doneSent progressSent : Bool) :
    statusResponse n (.zero capacity) k doneSent progressSent =
      .running { n with status := some (.zero capacity) } := by
  cases doneSent <;> simp [statusResponse, UpgradeStatus.zero]

/-- An answer to a request keeps the announcement. -/
theorem Follows.response (h : Follows board rom p n)
    (hst : st.status ≠ .idle) (haddr : st.imageAddr = announcedAddr board imageId)
    (hp : p = .announced imageId)
    (hs : statusResponse n st k doneSent progressSent = .running n') :
    Follows board rom p n' := by
  subst hp
  obtain ⟨sts, timer, wait, heq, hsts, hkeep⟩ :=
    @statusResponse_running n st k doneSent progressSent
  cases heq.symm.trans hs
  have hnot : sts ≠ .idle := by
    rcases hsts with rfl | rfl
    · exact hst
    · nofun
  exact
    { h with
      status := ⟨_, rfl, hnot, haddr⟩
      waits := nofun
      waited := fun _ => .inr ⟨imageId, rfl⟩
      resetTimer := fun _ => .inr ⟨imageId, rfl⟩ }

/-- A node that waits stays with the inter-node method. -/
theorem Follows.advance (h : Follows board rom (.waiting allocated) n)
    (hp : p ≠ .idle ∧ p ≠ .http) :
    (n.ongoing = false ↔ p = .idle) ∧ (n.otaMethod = .inter ↔ p ≠ .idle ∧ p ≠ .http) ∧
      (n.httpTask ≠ .absent ∨ n.otaMethod = .http → p = .http) := by
  refine ⟨⟨fun hn => ?_, fun hidle => absurd hidle hp.1⟩, ⟨fun _ => hp, fun _ => ?_⟩, fun hn => ?_⟩
  · cases h.ongoing.mp hn
  · exact h.inter.mpr ⟨nofun, nofun⟩
  · cases h.http hn

theorem Follows.announce (h : Follows board rom (.waiting allocated) n) (r : StatusReq)
    (capacity : Nat) :
    Follows board rom (.announced r.imageId) (startUpdate board n r capacity) := by
  obtain ⟨hongoing, hinter, hhttp⟩ := h.advance (p := .announced r.imageId) ⟨nofun, nofun⟩
  exact
    { rom_eq := h.rom_eq
      status := ⟨_, rfl, nofun, rfl⟩
      ongoing := hongoing
      inter := hinter
      http := hhttp
      waits := nofun
      waited := fun _ => .inr ⟨_, rfl⟩
      updateTimer := nofun
      resetTimer := fun _ => .inr ⟨_, rfl⟩ }

theorem downloadEnd_restarts :
    ∃ n' cleared, rmeshOtaFirmwareDownloadEnd board n needClear = .restarted n' cleared := by
  unfold rmeshOtaFirmwareDownloadEnd
  split
  · split <;> exact ⟨_, _, rfl⟩
  · exact ⟨_, _, rfl⟩

theorem downloadEnd_ne_running : rmeshOtaFirmwareDownloadEnd board n needClear ≠ .running n' := by
  intro hs
  obtain ⟨_, _, heq⟩ := @downloadEnd_restarts board n needClear
  cases heq.symm.trans hs

theorem statusReset_running (hs : statusReset board n = .running n') :
    n' = { n with
      otaResetRecvd := true
      resetTimer := false
      waitInterOta := n.waitInterOta &&
        decide ((n.status.getD n.rom.status).writtenSize ≠
          (n.status.getD n.rom.status).totalSize) } := by
  unfold statusReset at hs
  dsimp only at hs
  split at hs
  · exact absurd hs downloadEnd_ne_running
  split at hs
  · exact absurd hs downloadEnd_ne_running
  · cases hs
    rfl

theorem progressStep_of_not_waits (hp : ¬ p.Waits) :
    progressStep rom p (.statusReq r doneSent progressSent) = p := by
  cases p <;> first | rfl | exact absurd ⟨_, rfl⟩ hp

/-- A reset on which the node goes on ends the waiting when the sizes read are equal. -/
theorem Follows.statusReset (h : Follows board rom p n) (hr : r.status = RMESH_OTA_STS_RESET)
    (hs : statusReset board n = .running n') :
    Follows board rom (progressStep rom p (.statusReq r doneSent progressSent)) n' := by
  cases statusReset_running hs
  by_cases hp : p.Waits
  · obtain ⟨allocated, rfl⟩ := hp
    have hwait := h.waits ⟨allocated, rfl⟩
    rw [progressStep, if_pos hr]
    split
    · rename_i hclosed
      have hstatus : StatusAt board rom n .closed ∧
          (n.status.getD n.rom.status).writtenSize = (n.status.getD n.rom.status).totalSize := by
        cases allocated with
        | true =>
          obtain ⟨capacity, hzero⟩ := h.status
          exact ⟨.inr ⟨capacity, hzero⟩, by rw [hzero]; rfl⟩
        | false =>
          have hnone : n.status = none := h.status
          have heq := hclosed.resolve_left nofun
          exact ⟨.inl ⟨hnone, heq⟩, by rw [hnone, h.rom_eq]; exact heq⟩
      obtain ⟨hongoing, hinter, hhttp⟩ := h.advance (p := .closed) ⟨nofun, nofun⟩
      exact
        { rom_eq := h.rom_eq
          status := hstatus.1
          ongoing := hongoing
          inter := hinter
          http := hhttp
          waits := nofun
          waited := fun hw => by simp [hstatus.2] at hw
          updateTimer := fun _ => .inl rfl
          resetTimer := nofun }
    · rename_i hopen
      rw [not_or, Bool.not_eq_true] at hopen
      obtain ⟨rfl, hne⟩ := hopen
      have hnone : n.status = none := h.status
      refine { h with waits := fun _ => ?_, waited := fun _ => .inl ⟨_, rfl⟩, resetTimer := nofun }
      simpa [hwait, hnone, h.rom_eq] using hne
  · rw [progressStep_of_not_waits hp]
    refine { h with
      waits := fun hw => absurd hw hp
      waited := fun hw => h.waited (Bool.and_eq_true_iff.mp hw).1
      resetTimer := nofun }

theorem Follows.currentStatus (h : Follows board rom (.waiting allocated) n) (r : StatusReq) :
    ∃ capacity, n.currentStatus r = .zero capacity := by
  cases allocated with
  | true =>
    obtain ⟨capacity, hzero⟩ := h.status
    exact ⟨capacity, by rw [Node.currentStatus, hzero]; rfl⟩
  | false =>
    have hnone : n.status = none := h.status
    exact ⟨_, by rw [Node.currentStatus, hnone]; rfl⟩

theorem Follows.statusReq (h : Follows board rom p n)
    (hs : rmeshOtaStatusRequestCb board n r doneSent progressSent = .running n') :
    Follows board rom (progressStep rom p (.statusReq r doneSent progressSent)) n' := by
  unfold rmeshOtaStatusRequestCb at hs
  split at hs
  · rename_i hreset
    exact h.statusReset hreset hs
  rename_i hreset
  split at hs
  · -- a node that does not wait answers nothing
    rename_i hwait
    cases hs
    rwa [progressStep_of_not_waits fun hp => by simp [h.waits hp] at hwait]
  rename_i hwait
  rcases h.waited (eq_true_of_ne_false hwait) with ⟨allocated, rfl⟩ | ⟨imageId, rfl⟩
  · obtain ⟨capacity, hcurrent⟩ := h.currentStatus r
    rw [hcurrent] at hs
    rw [progressStep, if_neg hreset]
    have hknown : isKnown (.zero capacity) r ↔ r.totalSize = 0 ∧ r.checksum = 0 := by
      simp [isKnown, UpgradeStatus.zero, eq_comm]
    dsimp only at hs
    rw [if_neg (by simp [UpgradeStatus.zero])] at hs
    split at hs
    · rename_i hempty
      rw [if_pos (hknown.mp hempty)]
      rw [statusResponse_zero] at hs
      cases hs
      obtain ⟨hongoing, hinter, hhttp⟩ := h.advance (p := .waiting true) ⟨nofun, nofun⟩
      exact
        { rom_eq := h.rom_eq
          status := ⟨capacity, rfl⟩
          ongoing := hongoing
          inter := hinter
          http := hhttp
          waits := fun _ => h.waits ⟨_, rfl⟩
          waited := fun _ => .inl ⟨_, rfl⟩
          updateTimer := fun _ => .inr ⟨_, rfl⟩
          resetTimer := fun ht => by rcases h.resetTimer ht with hp | ⟨_, hp⟩ <;> cases hp }
    · rename_i hnew
      rw [if_neg (mt hknown.mpr hnew)]
      split at hs
      · cases hs
      · exact (h.announce r _).response OtaSts.noConfusion rfl rfl hs
  · obtain ⟨st, hst, hidle, haddr⟩ := h.status
    have hcurrent : n.currentStatus r = st := by rw [Node.currentStatus, hst]; rfl
    rw [hcurrent] at hs
    dsimp only at hs
    split at hs
    · cases hs
      exact { h with status := ⟨st, rfl, hidle, haddr⟩ }
    · rename_i hfinished
      have hknown : isKnown st r := by
        refine .inl ?_
        cases hsts : st.status
        · exact absurd hsts hidle
        · rfl
        · exact absurd hsts hfinished
      rw [if_pos hknown] at hs
      exact h.response hidle haddr rfl hs

theorem Follows.data (h : Follows board rom p n) (hs : rmeshOtaDataCb n seq payload = .running n') :
    Follows board rom p n' := by
  unfold rmeshOtaDataCb at hs
  split at hs
  · cases hs
    exact h
  rename_i st hst
  split at hs
  · split at hs <;> cases hs
    exact h
  rename_i bits hbits
  split at hs <;> cases hs
  · exact h
  -- a status with a bitmap was announced
  cases p with
  | announced imageId =>
    obtain ⟨st', hst', hidle, haddr⟩ := h.status
    cases hst.symm.trans hst'
    exact { h with status := ⟨_, rfl, hidle, haddr⟩ }
  | idle | http => cases hst.symm.trans h.status
  | waiting allocated =>
    cases allocated with
    | false => cases hst.symm.trans h.status
    | true =>
      obtain ⟨capacity, hzero⟩ := h.status
      cases hst.symm.trans hzero
      cases hbits
  | closed =>
    rcases h.status with ⟨hnone, _⟩ | ⟨capacity, hzero⟩
    · cases hst.symm.trans hnone
    · cases hst.symm.trans hzero
      cases hbits

theorem Follows.httpDone (h : Follows board rom p n) (htask : n.httpTask = .downloading)
    (hs : httpOtaDone board n nextImg script = .running n') : Follows board rom p n' := by
  have hp : p = .http := h.http (.inl (by simp [htask]))
  unfold httpOtaDone at hs
  dsimp only at hs
  split at hs
  · cases hs
  · split at hs
    · cases hs
      exact { h with http := fun _ => hp, resetTimer := nofun }
    · exact absurd hs downloadEnd_ne_running
  · exact absurd hs downloadEnd_ne_running

/-- Every event that leaves the node running is followed. -/
theorem Follows.step (h : Follows board rom p n) (hs : handle board n ev = .running n') :
    Follows board rom (progressStep rom p ev) n' := by
  by_cases hcmd : ∃ interOta, ev = .cmdRecv interOta
  · obtain ⟨interOta, rfl⟩ := hcmd
    cases hs
    exact h.cmdRecv interOta
  by_cases hreq : ∃ r doneSent progressSent, ev = .statusReq r doneSent progressSent
  · obtain ⟨r, doneSent, progressSent, rfl⟩ := hreq
    exact h.statusReq hs
  rw [progressStep_other hcmd hreq]
  cases ev with
  | cmdRecv interOta => exact absurd ⟨_, rfl⟩ hcmd
  | statusReq r doneSent progressSent => exact absurd ⟨_, _, _, rfl⟩ hreq
  | httpEnter =>
    cases hs
    split
    · rename_i htask
      have hp : p = .http := h.http (.inl (by simp [htask]))
      exact { h with inter := by simp [hp], http := fun _ => hp }
    · exact h
  | httpStart =>
    cases hs
    split
    · rename_i htask
      have hp : p = .http := h.http (.inl (by simp [htask]))
      exact { h with http := fun _ => hp, resetTimer := fun _ => .inl hp }
    · exact h
  | httpDone nextImg script =>
    rw [handle] at hs
    split at hs
    · exact h.httpDone ‹_› hs
    · cases hs
      exact h
  | deauth =>
    cases hs
    split
    · exact { h with resetTimer := fun _ => .inl (h.http (.inr ‹_›)) }
    · exact h
  | data seq payload => exact h.data hs
  | slaveAdd | waitAdd =>
    cases hs
    exact { h with }
  | resetTimerFires =>
    rw [handle] at hs
    split at hs
    · unfold rmeshOtaResetWaitTimer at hs
      split at hs
      · cases hs
        exact { h with resetTimer := nofun }
      · exact absurd hs downloadEnd_ne_running
    · cases hs
      exact h
  | updateTimerFires =>
    rw [handle] at hs
    split at hs
    · exact absurd hs downloadEnd_ne_running
    · cases hs
      exact h
  | sendEnd =>
    rw [handle, rmeshOtaFirmwareSendEnd] at hs
    split at hs
    · exact absurd hs downloadEnd_ne_running
    · cases hs
      exact { h with }

/-- The node of a run agrees with what the events of the run tell. -/
theorem Follows.run (h : Follows board rom p n) (events : List Event)
    (hs : events.foldl (nodeStep board) (.running n) = .running n') :
    Follows board rom (events.foldl (progressStep rom) p) n' := by
  induction events using List.reverseRecOn generalizing n' with
  | nil =>
    cases hs
    exact h
  | append_singleton events ev ih =>
    rw [List.foldl_concat] at hs ⊢
    -- a node that runs after the event ran before it
    cases hbefore : events.foldl (nodeStep board) (.running n) with
    | running m =>
      rw [hbefore] at hs
      exact (ih hbefore).step hs
    | restarted | fault | overrun =>
      rw [hbefore] at hs
      cases hs

theorem newOffset_inj (h : board.newOffset kind = board.newOffset kind') : kind = kind' := by
  by_contra hne
  have hbase := board.layout.base_le kind (board.newSlot kind)
  have hbase' := board.layout.base_le kind' (board.newSlot kind')
  have hlt := board.layout.start_lt_stop kind (board.newSlot kind)
  have hlt' := board.layout.start_lt_stop kind' (board.newSlot kind')
  have hapart := board.layout.separate kind (board.newSlot kind) kind' (board.newSlot kind')
    fun heq => hne (Prod.mk.inj heq).1
  unfold Board.newOffset FlashLayout.offset at h
  omega

theorem announcedAddr_imgIDOf (kind : ImgKind) :
    announcedAddr board (imgIDOf kind) = board.newOffset kind := by
  rw [announcedAddr, Board.imgAddr_imgIDOf, chipOffset_start]
  rfl

/-- The address is that of the inactive application only if the application was announced. -/
theorem Follows.imageAddr_iff (h : Follows board rom p n)
    (hrom : rom.status.imageAddr ≠ board.newOffset .app) (hzero : board.newOffset .app ≠ 0)
    (hkind : ∀ imageId, p = .announced imageId → ∃ kind, imageId = imgIDOf kind) :
    (n.status.getD n.rom.status).imageAddr = board.newOffset .app ↔
      p = .announced OTA_IMGID_APP := by
  have hnone (hn : n.status = none) :
      (n.status.getD n.rom.status).imageAddr ≠ board.newOffset .app := by
    rw [hn, h.rom_eq]
    exact hrom
  have hempty (hn : ∃ capacity, n.status = some (.zero capacity)) :
      (n.status.getD n.rom.status).imageAddr ≠ board.newOffset .app := by
    obtain ⟨capacity, hn⟩ := hn
    rw [hn]
    exact hzero.symm
  cases p with
  | idle | http => exact iff_of_false (hnone h.status) nofun
  | waiting allocated =>
    cases allocated with
    | false => exact iff_of_false (hnone h.status) nofun
    | true => exact iff_of_false (hempty h.status) nofun
  | closed =>
    rcases h.status with ⟨hn, _⟩ | hn
    · exact iff_of_false (hnone hn) nofun
    · exact iff_of_false (hempty hn) nofun
  | announced imageId =>
    obtain ⟨kind, rfl⟩ := hkind imageId rfl
    obtain ⟨st, hst, _, haddr⟩ := h.status
    rw [hst, Option.getD_some, haddr, announcedAddr_imgIDOf]
    constructor
    · intro heq
      rw [newOffset_inj heq]
      rfl
    · intro heq
      rw [@imgIDOf_inj kind .app (Progress.announced.inj heq)]

end Steps

/-- A failed update of a run overwrites the first 8 bytes of the inactive slot, and nothing else,
    exactly when the father has announced an application while the node waited for it; so never
    when the download by HTTP fails, nor when no announcement comes in time. -/
theorem failure_clears_inactive_iff (board : Board) (flash : Memory) (heapBits : Nat → Bool)
    (rom : NullReads) (events : List Event) (n n' : Node) (ev : Event)
    (hrom : rom.status.imageAddr ≠ board.newOffset .app) (hzero : board.newOffset .app ≠ 0)
    (hkind : ∀ imageId, events.foldl (progressStep rom) .idle = .announced imageId →
      ∃ kind, imageId = imgIDOf kind)
    (hrun : events.foldl (nodeStep board) (.running (Node.boot flash heapBits rom)) = .running n)
    (hpath : FailurePath board n ev n') :
    handle board n ev = signatureCleared n' ∧
      (ClearsInactive board n' ↔
        events.foldl (progressStep rom) .idle = .announced OTA_IMGID_APP) ∧
      (n.otaMethod = .http ∨ ev = .updateTimerFires → ¬ ClearsInactive board n') := by
  have hfollows := (@follows_boot board rom flash heapBits).run events hrun
  have hiff : ClearsInactive board n' ↔
      events.foldl (progressStep rom) .idle = .announced OTA_IMGID_APP := by
    rw [ClearsInactive, hpath.signatureWrite_eq]
    exact clearsInactive_iff.trans (hfollows.imageAddr_iff hrom hzero hkind)
  refine ⟨hpath.handle_eq, hiff, fun hnever hclears => ?_⟩
  have hannounced := hiff.mp hclears
  rcases hnever with hhttp | rfl
  · cases hannounced.symm.trans (hfollows.http (.inr hhttp))
  · cases hpath with
    | noRequest timer =>
      rcases hfollows.updateTimer timer with hp | ⟨_, hp⟩ <;> cases hannounced.symm.trans hp

/-- A node that waits for its father, and one to which the father has announced an application. -/
def waitingNode : Node :=
  rmeshOtaCmdRecv (Node.boot (fun _ => 0xFF) (fun _ => false) vectorTable) true

def announcement : StatusReq := ⟨0, 0, 2, OTA_IMGID_APP, 0, 1032, 0⟩

def announcedNode : Node :=
  startUpdate runningFromOta1 waitingNode announcement announcement.bitmapSize

theorem reset_clears_inactive :
    ClearsInactive runningFromOta1 { announcedNode with resetTimer := false } := by
  refine (failure_clears_inactive_iff runningFromOta1 (fun _ => 0xFF) (fun _ => false) vectorTable
    [.cmdRecv true, .statusReq announcement true true] announcedNode _
    (.statusReq ⟨0, RMESH_OTA_STS_RESET, 0, 0, 0, 0, 0⟩ true true) (by decide) (by decide)
    ?_ rfl (.reset _ rfl rfl (.inl (by decide)))).2.1.mpr rfl
  rintro imageId ⟨⟩
  exact ⟨.app, rfl⟩

/-- When no request comes, the address is read through a null pointer: it is in the vector of the
    HardFault handler. -/
theorem no_request_follows_null :
    ∃ n', FailurePath runningFromOta1 waitingNode .updateTimerFires n' ∧
      signatureWrite n' = .write 0x901500 (List.replicate 8 0) ∧
      ¬ ClearsInactive runningFromOta1 n' := by
  refine ⟨_, .noRequest rfl, rfl, ?_⟩
  rw [clearsInactive_iff]
  decide

end AmebaRtos.Mesh
