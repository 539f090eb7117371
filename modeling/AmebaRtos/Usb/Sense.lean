import AmebaRtos.Usb.Msc

/-!
# The sense data of the mass storage device

A command that fails records a sense key and an additional sense code in a ring of four entries,
and REQUEST SENSE takes the oldest one. The code is shifted out of its byte, and byte 12 of the
answer is the qualifier, which is never set.
-/

namespace AmebaRtos.Usb

open Lib List

/-- What commands do to the ring: they fail or query it. The host can also configure the device. -/
inductive SenseOp where
  | record (key asc : UInt8)
  | query
  | setConfig

def senseStep (s : MscDev) : SenseOp → MscDev
  | .record key asc => s.senseCode key asc
  | .query =>
    match s.requestSense with
    | .error s => s
    | .ok s => s
  | .setConfig => s.setConfig

/-- A REQUEST SENSE with an allocation length of at least 18, behind a command that has recorded
    `key` and `asc`, returns them. -/
def SenseReturned (s : MscDev) (key asc : UInt8) : Prop :=
  ∀ cbw : Cbw, 18 ≤ (cbw.CBWCB 4).toNat →
    let t := senseStep { s.senseCode key asc with cbw := cbw } .query
    t.data 2 = key ∧ t.data 12 = asc

structure SenseRing (s : MscDev) : Prop where
  ascq : ∀ (i : Nat) (d : SenseData), s.senseData[i]? = some d → d.ascq = 0
  length : s.senseData.length = USBD_MSC_SENSE_LIST_DEPTH
  tail : s.senseTail < USBD_MSC_SENSE_LIST_DEPTH

theorem SenseRing.senseCode (h : SenseRing s) (key asc : UInt8) :
    SenseRing (s.senseCode key asc) where
  ascq i d hd := by
    rw [MscDev.senseCode, getElem?_modify] at hd
    obtain ⟨old, hold, rfl⟩ := Option.map_eq_some_iff.mp hd
    have hzero := h.ascq i old hold
    split <;> exact hzero
  length := (length_modify ..).trans h.length
  tail := by
    have htail := h.tail
    simp only [MscDev.senseCode]
    split <;> omega

theorem senseStep_query : (senseStep s .query).senseData = s.senseData ∧
    (senseStep s .query).senseTail = s.senseTail ∧
    (senseStep s .query).data = s.data.store 0
      (requestSenseData
        (if s.senseHead ≠ s.senseTail then s.senseData[s.senseHead]? else none)) := by
  unfold senseStep MscDev.requestSense
  by_cases hmore : s.senseHead ≠ s.senseTail
  · simp only [if_pos hmore]
    exact ⟨rfl, rfl, rfl⟩
  · simp only [if_neg hmore]
    exact ⟨rfl, rfl, rfl⟩

theorem SenseRing.step (h : SenseRing s) (op : SenseOp) : SenseRing (senseStep s op) := by
  cases op with
  | record key asc => exact h.senseCode key asc
  | query =>
    obtain ⟨hdata, htail, -⟩ := senseStep_query (s := s)
    exact ⟨hdata ▸ h.ascq, hdata ▸ h.length, htail ▸ h.tail⟩
  | setConfig => exact ⟨h.ascq, h.length, Nat.zero_lt_succ _⟩

theorem senseRing_run (h : SenseRing s) (ops : List SenseOp) :
    SenseRing (ops.foldl senseStep s) := by
  induction ops generalizing s with
  | nil => exact h
  | cons op ops ih => exact ih (h.step op)

/-- What REQUEST SENSE finds behind the recording of a key. -/
def foundKey (s : MscDev) (key : UInt8) : UInt8 :=
  if s.senseHead = s.senseTail then key
  else if s.senseHead = (s.senseTail + 1) % USBD_MSC_SENSE_LIST_DEPTH then 0
  else (s.senseData[s.senseHead]?.getD ⟨0, 0, 0⟩).key

theorem SenseRing.found (h : SenseRing s) (key asc : UInt8) :
    let t := s.senseCode key asc
    let data := (if s.senseHead ≠ t.senseTail then t.senseData[s.senseHead]? else none).getD
      ⟨0, 0, 0⟩
    data.key = foundKey s key ∧ data.ascq = 0 := by
  have hlt : s.senseTail < 4 := h.tail
  have htail : (s.senseCode key asc).senseTail = (s.senseTail + 1) % 4 := by
    show (if s.senseTail + 1 = 4 then 0 else s.senseTail + 1) = _
    split <;> omega
  have hring := h.senseCode key asc
  dsimp only
  rw [htail]
  show _ = (if _ then key else if s.senseHead = (s.senseTail + 1) % 4 then 0 else _) ∧ _
  by_cases hfull : s.senseHead = (s.senseTail + 1) % 4
  · rw [if_neg (not_not_intro hfull), if_neg (by omega), if_pos hfull]
    exact ⟨rfl, rfl⟩
  · rw [if_pos hfull, if_neg hfull]
    constructor
    · simp only [MscDev.senseCode, getElem?_modify]
      split
      next hempty =>
        obtain ⟨d, hd⟩ : ∃ d, s.senseData[s.senseTail]? = some d :=
          ⟨_, getElem?_eq_getElem (h.length.symm ▸ h.tail)⟩
        rw [← hempty, hd, if_pos rfl]
        rfl
      next hmore => simp [Ne.symm hmore]
    · cases hentry : (s.senseCode key asc).senseData[s.senseHead]? with
      | none => rfl
      | some d => exact hring.ascq _ _ hentry

theorem SenseRing.returned_iff (h : SenseRing s) :
    SenseReturned s key asc ↔ asc = 0 ∧ foundKey s key = key := by
  obtain ⟨hkey, hascq⟩ := h.found key asc
  have hquery (cbw : Cbw) := (senseStep_query (s := { s.senseCode key asc with cbw := cbw })).2.2
  simp only [SenseReturned, hquery]
  constructor
  · intro hreturned
    obtain ⟨htwo, htwelve⟩ := hreturned (fun _ => 18) (by decide)
    exact ⟨htwelve.symm.trans hascq, hkey.symm.trans htwo⟩
  · rintro ⟨rfl, hsame⟩ cbw -
    exact ⟨hkey.trans hsame, hascq⟩

/-- **Sense data are returned** exactly if the code is 0, and the oldest failure that was not
    queried, if there is one, has the same key. -/
theorem sense_returned_iff (cbw : Cbw) (data disk : Memory) (ops : List SenseOp) (key asc : UInt8) :
    SenseReturned (ops.foldl senseStep (MscDev.init cbw data disk)) key asc ↔
      asc = 0 ∧ foundKey (ops.foldl senseStep (MscDev.init cbw data disk)) key = key := by
  apply SenseRing.returned_iff
  apply senseRing_run
  exact ⟨fun i d hd => by rw [eq_of_mem_replicate (mem_of_getElem? hd)], rfl, Nat.zero_lt_succ _⟩

/-- A command with an unknown operation code: the answer has 0 for the code 0x20. -/
theorem sense_code_lost : ¬ SenseReturned
    ([SenseOp.setConfig].foldl senseStep (MscDev.init (fun _ => 0) (fun _ => 0) fun _ => 0))
      0x05 0x20 :=
  fun h => absurd (h (fun _ => 18) (by decide)).2 (by decide)

end AmebaRtos.Usb
