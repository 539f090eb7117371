import AmebaRtos.Mesh.Node

/-!
# The sender of the mesh OTA

`rmesh_ota_firmware_send` works in rounds. In each one `rmesh_ota_status_process` asks the
unfinished slaves for their status and takes responses from a queue, until it has taken as many as
there are such slaves or the interval is over. A response says that the slave is complete, or
which packets of a window it is missing; these are collected in a bitmap and sent again.

The responses that are in time are given as a list. `rmesh_ota_slave_node_add` enters no address
twice, so the flags of the slave list are the set of the unfinished addresses.
-/

namespace AmebaRtos.Mesh

open Ota List

def RMESH_OTA_PROGRESS_MAX : Nat := 200

abbrev Mac := BitVec 48

/-- A status response, with the bits of its window. -/
structure StatusRsp where
  mac : Mac
  writtenSize : Nat
  progressIndex : Nat
  progressArray : Nat → Bool

/-- The fields of the sender's status that the rounds use. -/
structure SendStatus where
  totalSize : Nat
  packetNum : Nat

/-- The slave list, `rmesh_inter_ota_result` and the bitmap. -/
structure Sending where
  pending : Finset Mac
  unfinishedNum : Nat
  successedNum : Nat
  progressArray : Nat → Bool

section Rounds

variable (status : SendStatus)

/-- One response in `rmesh_ota_status_process`. -/
def processRsp (s : Sending) (rsp : StatusRsp) : Sending :=
  if rsp.writtenSize = status.totalSize then
    if rsp.mac ∈ s.pending then
      { s with
        pending := s.pending.erase rsp.mac
        unfinishedNum := s.unfinishedNum - 1
        successedNum := s.successedNum + 1 }
    else s
  else if rsp.writtenSize = 0 then
    { s with progressArray := fun seq =>
        if seq < 8 * (status.packetNum / 8 + 1) then false else s.progressArray seq }
  else
    { s with progressArray := fun seq =>
        if seq / (8 * RMESH_OTA_PROGRESS_MAX) = rsp.progressIndex ∧
            seq / 8 * 8 < status.packetNum then
          s.progressArray seq && rsp.progressArray (seq % (8 * RMESH_OTA_PROGRESS_MAX))
        else s.progressArray seq }

def receiveLoop : Nat → Sending → List StatusRsp → Sending × List StatusRsp
  | _, s, [] => (s, [])
  | recvCnt, s, rsp :: queue =>
    if recvCnt < s.unfinishedNum then receiveLoop (recvCnt + 1) (processRsp status s rsp) queue
    else (s, rsp :: queue)

/-- `rmesh_ota_status_process`, with the bitmap set before. -/
def rmeshOtaStatusProcess (s : Sending) (queue : List StatusRsp) : Sending × List StatusRsp :=
  receiveLoop status 0 { s with progressArray := fun _ => true } queue

/-- The packets that a round of `rmesh_ota_firmware_send` sends. -/
def sentPackets (round : Nat) (s : Sending) : List Nat :=
  if round < RMESH_OTA_ROUND_MAX then
    (List.range status.packetNum).filter fun seq => 0 < s.unfinishedNum && !s.progressArray seq
  else []

/-! ### What a round is to do -/

def StatusRsp.Missing (rsp : StatusRsp) (seq : Nat) : Prop :=
  seq < status.packetNum ∧ seq / (8 * RMESH_OTA_PROGRESS_MAX) = rsp.progressIndex ∧
    rsp.progressArray (seq % (8 * RMESH_OTA_PROGRESS_MAX)) = false

/-- Response number `k` is taken; a complete slave is marked, and the packets that an incomplete one
    misses are sent. -/
structure HandledInRound (round : Nat) (s : Sending) (queue : List StatusRsp) (k : Nat)
    (rsp : StatusRsp) : Prop where
  taken : k < queue.length - (rmeshOtaStatusProcess status s queue).2.length
  finished : rsp.writtenSize = status.totalSize →
    rsp.mac ∉ (rmeshOtaStatusProcess status s queue).1.pending
  resent : rsp.writtenSize ≠ status.totalSize → ∀ seq, rsp.Missing status seq →
    seq ∈ sentPackets status round (rmeshOtaStatusProcess status s queue).1

def completed (queue : List StatusRsp) : Finset Mac :=
  ((queue.filter (·.writtenSize = status.totalSize)).map StatusRsp.mac).toFinset

/-- The responses in front, and the slaves that they finish, are fewer than the unfinished slaves;
    and a round that asks for packets sends them. -/
def InTime (round : Nat) (s : Sending) (queue : List StatusRsp) (k : Nat) (rsp : StatusRsp) :
    Prop :=
  k + (s.pending ∩ completed status (queue.take k)).card < s.unfinishedNum ∧
    (rsp.writtenSize ≠ status.totalSize → (∃ seq, rsp.Missing status seq) →
      round < RMESH_OTA_ROUND_MAX)

end Rounds

section Loop

variable {status : SendStatus} {s : Sending} {rsp : StatusRsp} {queue : List StatusRsp}

theorem completed_concat :
    completed status (queue ++ [rsp]) = if rsp.writtenSize = status.totalSize then
      insert rsp.mac (completed status queue) else completed status queue := by
  unfold completed
  split <;> rename_i hsize <;> ext mac <;> simp [hsize]

theorem processAll_counts (s : Sending) (queue : List StatusRsp) :
    (queue.foldl (processRsp status) s).pending = s.pending \ completed status queue ∧
      (queue.foldl (processRsp status) s).unfinishedNum =
        s.unfinishedNum - (s.pending ∩ completed status queue).card ∧
      (queue.foldl (processRsp status) s).successedNum =
        s.successedNum + (s.pending ∩ completed status queue).card := by
  induction queue using List.reverseRecOn with
  | nil => simp [completed]
  | append_singleton queue rsp ih =>
    obtain ⟨hpending, hunfinished, hsuccessed⟩ := ih
    rw [foldl_concat, completed_concat, processRsp, hpending]
    by_cases hsize : rsp.writtenSize = status.totalSize
    · rw [if_pos hsize, if_pos hsize]
      by_cases hmem : rsp.mac ∈ s.pending \ completed status queue
      · obtain ⟨hin, hnew⟩ := Finset.mem_sdiff.mp hmem
        have hcard : (s.pending ∩ insert rsp.mac (completed status queue)).card =
            (s.pending ∩ completed status queue).card + 1 := by
          rw [Finset.inter_insert_of_mem hin, Finset.card_insert_of_notMem]
          exact fun h => hnew (Finset.mem_inter.mp h).2
        rw [if_pos hmem, hcard, Finset.sdiff_insert]
        exact ⟨rfl, by rw [hunfinished, Nat.sub_sub], by rw [hsuccessed, add_assoc]⟩
      · have hsame : s.pending ∩ insert rsp.mac (completed status queue) =
            s.pending ∩ completed status queue ∧
            s.pending \ insert rsp.mac (completed status queue) =
              s.pending \ completed status queue := by
          constructor <;> ext mac <;> by_cases hmac : mac = rsp.mac <;> grind
        rw [if_neg hmem, hsame.1, hsame.2]
        exact ⟨hpending, hunfinished, hsuccessed⟩
    · rw [if_neg hsize]
      split <;> exact ⟨rfl, hunfinished, hsuccessed⟩

theorem processAll_missing (hmem : rsp ∈ queue) (hsize : rsp.writtenSize ≠ status.totalSize)
    (hmissing : rsp.Missing status seq) :
    (queue.foldl (processRsp status) s).progressArray seq = false := by
  have hstays : ∀ (s : Sending) rsp, s.progressArray seq = false →
      (processRsp status s rsp).progressArray seq = false := by
    intro s rsp hclear
    unfold processRsp
    split_ifs <;> simp [hclear]
  induction queue using List.reverseRecOn with
  | nil => cases hmem
  | append_singleton queue last ih =>
    rw [foldl_concat]
    rcases mem_append.mp hmem with hold | hlast
    · exact hstays _ last (ih hold)
    obtain ⟨hseq, hindex, hbit⟩ := hmissing
    cases mem_singleton.mp hlast
    rw [processRsp, if_neg hsize]
    split_ifs
    · exact if_pos (by omega)
    · simp [hindex, hbit, show seq / 8 * 8 < status.packetNum by omega]

theorem receiveLoop_spec (recvCnt : Nat) (s : Sending) (queue : List StatusRsp) :
    ∃ n ≤ queue.length, receiveLoop status recvCnt s queue =
        ((queue.take n).foldl (processRsp status) s, queue.drop n) ∧
      (∀ k < n, recvCnt + k < ((queue.take k).foldl (processRsp status) s).unfinishedNum) ∧
      (n < queue.length →
        ((queue.take n).foldl (processRsp status) s).unfinishedNum ≤ recvCnt + n) := by
  induction queue generalizing recvCnt s with
  | nil => exact ⟨0, le_refl 0, rfl, nofun, nofun⟩
  | cons rsp queue ih =>
    rw [receiveLoop]
    by_cases hmore : recvCnt < s.unfinishedNum
    · obtain ⟨n, hn, hloop, htaken, hstop⟩ := ih (recvCnt + 1) (processRsp status s rsp)
      refine ⟨n + 1, Nat.succ_le_succ hn, by rw [if_pos hmore, hloop]; rfl, fun k hk => ?_,
        fun hlt => ?_⟩
      · cases k with
        | zero => exact hmore
        | succ k =>
          have := htaken k (Nat.lt_of_succ_lt_succ hk)
          rw [take_succ_cons, foldl_cons]
          omega
      · have := hstop (Nat.lt_of_succ_lt_succ hlt)
        rw [take_succ_cons, foldl_cons]
        omega
    · exact ⟨0, Nat.zero_le _, if_neg hmore, nofun, fun _ => not_lt.mp hmore⟩

theorem card_finished_concat (queue : List StatusRsp) (rsp : StatusRsp) :
    (s.pending ∩ completed status queue).card ≤
        (s.pending ∩ completed status (queue ++ [rsp])).card ∧
      (s.pending ∩ completed status (queue ++ [rsp])).card ≤
        (s.pending ∩ completed status queue).card +
          if rsp.writtenSize = status.totalSize then 1 else 0 := by
  rw [completed_concat]
  split_ifs
  · refine ⟨Finset.card_le_card (Finset.inter_subset_inter_left (Finset.subset_insert ..)), ?_⟩
    refine le_trans (Finset.card_le_card ?_) (Finset.card_insert_le rsp.mac _)
    intro mac hmac
    grind
  · exact ⟨le_refl _, le_refl _⟩

theorem finished_take_mono (h : k ≤ n) : (s.pending ∩ completed status (queue.take k)).card ≤
      (s.pending ∩ completed status (queue.take n)).card := by
  induction n, h using Nat.le_induction with
  | base => exact le_refl _
  | succ n _ ih =>
    refine le_trans ih ?_
    rw [take_add_one]
    cases queue[n]? with
    | none => simp
    | some rsp => exact (card_finished_concat _ rsp).1

/-- The responses taken leave a slave unfinished if one is incomplete: only the first can find a
    single unfinished slave. -/
theorem finished_lt
    (htaken : ∀ k < n, k + (s.pending ∩ completed status (queue.take k)).card < s.unfinishedNum)
    (hk : queue[k]? = some rsp) (hkn : k < n) (hsize : rsp.writtenSize ≠ status.totalSize) :
    (s.pending ∩ completed status (queue.take n)).card < s.unfinishedNum := by
  obtain ⟨m, rfl⟩ := Nat.exists_eq_succ_of_ne_zero (Nat.ne_zero_of_lt hkn)
  have hlast := htaken m (Nat.lt_succ_self m)
  rw [take_add_one]
  cases hget : queue[m]? with
  | none =>
    rw [Option.toList_none, append_nil]
    omega
  | some last =>
    have hmore := (@card_finished_concat status s (queue.take m) last).2
    rw [Option.toList_some]
    split_ifs at hmore with hdone
    · have hne : k ≠ m := by
        rintro rfl
        cases hk.symm.trans hget
        exact hsize hdone
      omega
    · omega

/-- A round takes the responses in front of which, with the slaves that they finish, there are
    fewer than the unfinished slaves. -/
theorem statusProcess_spec (status : SendStatus) (s : Sending) (queue : List StatusRsp) :
    ∃ n ≤ queue.length, rmeshOtaStatusProcess status s queue =
        ((queue.take n).foldl (processRsp status) { s with progressArray := fun _ => true },
          queue.drop n) ∧
      ∀ k < queue.length, k < n ↔
        k + (s.pending ∩ completed status (queue.take k)).card < s.unfinishedNum := by
  obtain ⟨n, hn, hloop, htaken, hstop⟩ :=
    @receiveLoop_spec status 0 { s with progressArray := fun _ => true } queue
  simp only [(processAll_counts _ _).2.1] at htaken hstop
  refine ⟨n, hn, hloop, fun k hk => ⟨fun hkn => ?_, fun h => ?_⟩⟩
  · have := htaken k hkn
    omega
  · by_contra hge
    have := @finished_take_mono status s queue n k (not_lt.mp hge)
    omega

theorem handled_iff {round : Nat} (hget : queue[k]? = some rsp) :
    HandledInRound status round s queue k rsp ↔ InTime status round s queue k rsp := by
  obtain ⟨hlen, heq⟩ := List.getElem?_eq_some_iff.mp hget
  obtain ⟨n, hn, hloop, hiff⟩ := statusProcess_spec status s queue
  have hcounts := @processAll_counts status { s with progressArray := fun _ => true }
    (queue.take n)
  have hrest : queue.length - (rmeshOtaStatusProcess status s queue).2.length = n := by
    rw [hloop, length_drop]
    omega
  have hin := hiff k hlen
  constructor
  · rintro ⟨htake, _, hresent⟩
    refine ⟨hin.mp (hrest ▸ htake), fun hsize ⟨seq, hmissing⟩ => ?_⟩
    by_contra hlast
    have hsent := hresent hsize seq hmissing
    rw [sentPackets, if_neg hlast] at hsent
    cases hsent
  · rintro ⟨htime, hround⟩
    have hk := hin.mpr htime
    have hmem : rsp ∈ queue.take n := mem_take_iff_getElem.mpr ⟨k, by omega, heq⟩
    constructor
    case taken => rwa [hrest]
    case finished =>
      intro hsize
      rw [hloop, hcounts.1, Finset.mem_sdiff]
      refine fun h => h.2 (mem_toFinset.mpr (mem_map.mpr ⟨_, ?_, rfl⟩))
      exact mem_filter.mpr ⟨hmem, decide_eq_true hsize⟩
    case resent =>
      intro hsize seq hmissing
      have hclear := @processAll_missing status { s with progressArray := fun _ => true } _ _ seq
        hmem hsize hmissing
      have hleft := finished_lt (fun k hk => (hiff k (by omega)).mp hk) hget hk hsize
      rw [sentPackets, if_pos (hround hsize ⟨seq, hmissing⟩), mem_filter, mem_range, hloop, hclear,
        hcounts.2.1]
      exact ⟨hmissing.1, by simpa using Nat.sub_pos_of_lt hleft⟩

end Loop

/-- **When a round handles its responses.** Those of unfinished slaves are all taken and acted upon
    exactly when each is in time; finished slaves are counted in any case. -/
theorem responses_handled_iff (status : SendStatus) (round : Nat) (s : Sending)
    (queue : List StatusRsp) :
    ((∀ k rsp, queue[k]? = some rsp → rsp.mac ∈ s.pending →
        HandledInRound status round s queue k rsp) ↔
      ∀ k rsp, queue[k]? = some rsp → rsp.mac ∈ s.pending → InTime status round s queue k rsp) ∧
    (rmeshOtaStatusProcess status s queue).1.successedNum = s.successedNum +
      (s.pending \ (rmeshOtaStatusProcess status s queue).1.pending).card := by
  constructor
  · exact forall₄_congr fun k rsp hk _ => handled_iff hk
  · obtain ⟨n, _, hloop, _⟩ := statusProcess_spec status s queue
    obtain ⟨hpending, _, hsuccessed⟩ := @processAll_counts status
      { s with progressArray := fun _ => true } (queue.take n)
    rw [hloop, hpending, hsuccessed, sdiff_sdiff_right_self]
    rfl

/-- Two slaves are left and both respond that they are complete. -/
theorem second_response_left :
    ¬ ∀ k rsp, [⟨1, 4096, 0, fun _ => true⟩, ⟨2, 4096, 0, fun _ => true⟩][k]? = some rsp →
      rsp.mac ∈ ({1, 2} : Finset Mac) →
      HandledInRound ⟨4096, 4⟩ 0 ⟨{1, 2}, 2, 0, fun _ => true⟩
        [⟨1, 4096, 0, fun _ => true⟩, ⟨2, 4096, 0, fun _ => true⟩] k rsp := by
  intro h
  exact absurd (h 1 _ rfl (by decide)).taken (by decide)

/-! ### Lost requests and responses -/

/-- The responses that `rmesh_ota_status_request_cb` of a slave gives to the radio. -/
def statusAnswers (board : Board) (mac : Mac) (n : Node) (r : StatusReq)
    (doneSent progressSent : Bool) : List StatusRsp :=
  let st := n.currentStatus r
  if r.status = RMESH_OTA_STS_RESET ∨ n.waitInterOta = false ∨ st.status = .finished ∨
      ¬ isKnown st r ∧ st.capacity < r.bitmapSize then []
  else
    let st := if isKnown st r then st
      else UpgradeStatus.announced board r n.heapBits st.capacity
    let bits := st.progressArray.getD n.rom.bits
    let done := decide (st.writtenSize = st.totalSize)
    if done && !doneSent then []
    else
      (if done then [⟨mac, st.writtenSize, 0, fun _ => false⟩] else []) ++
        match (List.range st.packetNum).find? fun seq => !bits seq with
        | none => []
        | some seq =>
          let index := seq / (8 * RMESH_OTA_PROGRESS_MAX)
          if progressSent then
            [⟨mac, st.writtenSize, index, fun i => bits (index * (8 * RMESH_OTA_PROGRESS_MAX) + i)⟩]
          else []

/-- What comes into the queue of the sender: the slave's answer to the request of this round, or the
    response of another slave. A response that finds the queue full is lost. -/
inductive Arrival where
  | answer
  | other (rsp : StatusRsp)

/-- What happens in a round: to the request and the answer of the slave, and in the queue, in the
    interval and after it. -/
structure Attempt where
  req : StatusReq
  requestArrives : Bool
  doneSent : Bool
  inTime : List Arrival
  late : List Arrival

/-- Nothing is lost between the sender and the slave. -/
def Attempt.Through (a : Attempt) : Prop :=
  a.requestArrives = true ∧ a.doneSent = true ∧ .answer ∈ a.inTime

/-- A slave, the sender with its queue, and what the slave has sent. -/
structure Exchange where
  slave : NodeState
  sending : Sending
  queue : List StatusRsp
  sent : List StatusRsp

section

variable (board : Board) (status : SendStatus) (mac : Mac)

def arrivals (answers : List StatusRsp) (arrived : List Arrival) : List StatusRsp :=
  arrived.flatMap fun
    | .answer => answers
    | .other rsp => [rsp]

/-- The slave gets the request of a round, which is no reset, and answers. -/
def askSlave (x : Exchange) (a : Attempt) : NodeState × List StatusRsp :=
  match x.slave with
  | .running n =>
    if mac ∈ x.sending.pending ∧ a.requestArrives = true then
      let r := { a.req with status := 0 }
      (rmeshOtaStatusRequestCb board n r a.doneSent true,
        statusAnswers board mac n r a.doneSent true)
    else (.running n, [])
  | stopped => (stopped, [])

/-- The queue of a round, with what is in it from the rounds before. -/
def roundQueue (x : Exchange) (a : Attempt) : List StatusRsp :=
  x.queue ++ arrivals (askSlave board mac x a).2 a.inTime

/-- A round of `rmesh_ota_firmware_send`, seen by the sender and one slave. -/
def exchange (x : Exchange) (a : Attempt) : Exchange :=
  if x.sending.unfinishedNum = 0 then x
  else
    let (slave, answers) := askSlave board mac x a
    let (sending, left) := rmeshOtaStatusProcess status x.sending (roundQueue board mac x a)
    ⟨slave, sending, left ++ arrivals answers a.late, x.sent ++ answers⟩

/-- Some response that the slave is complete has fewer in front of it, with the slaves that they
    finish, than there are unfinished slaves. -/
def InTurn (x : Exchange) (a : Attempt) : Prop :=
  let queue := roundQueue board mac x a
  ∃ k rsp, queue[k]? = some rsp ∧ rsp.mac = mac ∧ rsp.writtenSize = status.totalSize ∧
    k + (x.sending.pending ∩ completed status (queue.take k)).card < x.sending.unfinishedNum

end

/-- A slave that holds the whole image and has not answered yet. -/
structure CompleteSlave (n : Node) (totalSize : Nat) : Prop where
  waiting : n.waitInterOta = true
  status : ∃ st bits, n.status = some st ∧ st.status = .ongoing ∧ st.writtenSize = st.totalSize ∧
    st.totalSize = totalSize ∧ st.progressArray = some bits ∧ ∀ seq < st.packetNum, bits seq = true

/-- The slave has sent nothing, or one response and is silent. -/
def AnswersOnce (totalSize : Nat) (x : Exchange) : Prop :=
  ∃ n, x.slave = .running n ∧ (CompleteSlave n totalSize ∧ x.sent = [] ∨
    n.waitInterOta = false ∧ x.sent.length = 1)

section Rounds

variable {board : Board} {status : SendStatus} {mac : Mac} {x : Exchange}

theorem CompleteSlave.answer (h : CompleteSlave n status.totalSize) (r : StatusReq)
    (hr : r.status ≠ RMESH_OTA_STS_RESET) (doneSent : Bool) :
    if doneSent then
      statusAnswers board mac n r doneSent true = [⟨mac, status.totalSize, 0, fun _ => false⟩] ∧
        ∃ n', n'.waitInterOta = false ∧
          rmeshOtaStatusRequestCb board n r doneSent true = .running n'
    else statusAnswers board mac n r doneSent true = [] ∧
      rmeshOtaStatusRequestCb board n r doneSent true = .running n := by
  obtain ⟨hwaiting, st, bits, hst, hongoing, hwritten, htotal, hbits, hall⟩ := h
  have hcurrent : n.currentStatus r = st := by rw [Node.currentStatus, hst]; rfl
  have hnone : (List.range st.packetNum).find? (fun seq => !bits seq) = none := by
    rw [List.find?_eq_none]
    intro seq hseq
    simp [hall seq (mem_range.mp hseq)]
  have hsame : { n with status := some st, waitInterOta := true } = n := by rw [← hst, ← hwaiting]
  cases doneSent with
  | false =>
    simp [statusAnswers, rmeshOtaStatusRequestCb, statusResponse, hr, hwaiting, hcurrent, hongoing,
      isKnown, hwritten, hsame]
  | true =>
    simp [statusAnswers, rmeshOtaStatusRequestCb, statusResponse, hr, hwaiting, hcurrent, hongoing,
      isKnown, hwritten, htotal, hbits, hnone]

/-- The answer to the first request that comes through is the last one. -/
theorem AnswersOnce.exchange (h : AnswersOnce status.totalSize x) (a : Attempt) :
    AnswersOnce status.totalSize (exchange board status mac x a) := by
  unfold Mesh.exchange
  split
  · exact h
  obtain ⟨n, hslave, hcase⟩ := h
  unfold AnswersOnce askSlave
  rw [hslave]
  dsimp only
  split
  · rcases hcase with ⟨hcomplete, hnew⟩ | ⟨hsilent, hone⟩
    · have hanswer := @CompleteSlave.answer board status mac n hcomplete
        { a.req with status := 0 } (Nat.zero_ne_add_one 2) a.doneSent
      rw [hnew]
      split at hanswer
      · obtain ⟨hsent, n', hdone, hstep⟩ := hanswer
        exact ⟨n', hstep, .inr ⟨hdone, by rw [hsent]; rfl⟩⟩
      · exact ⟨n, hanswer.2, .inl ⟨hcomplete, by rw [hanswer.1]; rfl⟩⟩
    · refine ⟨n, ?_, .inr ⟨hsilent, ?_⟩⟩
      · simp [rmeshOtaStatusRequestCb, RMESH_OTA_STS_RESET, hsilent]
      · simp [statusAnswers, hsilent, hone]
  · exact ⟨n, rfl, by rwa [append_nil]⟩

/-- A round marks the slave exactly when a response of it is in turn. -/
theorem exchange_marks_iff (hmem : mac ∈ x.sending.pending) (a : Attempt) :
    mac ∉ (exchange board status mac x a).sending.pending ↔ InTurn board status mac x a := by
  unfold exchange InTurn
  generalize roundQueue board mac x a = queue
  by_cases hzero : x.sending.unfinishedNum = 0
  · simp [hzero, hmem]
  rw [if_neg hzero]
  obtain ⟨n, hn, hprocess, hiff⟩ := statusProcess_spec status x.sending queue
  dsimp only
  rw [hprocess, (processAll_counts _ _).1, Finset.mem_sdiff, not_and_not_right]
  constructor
  · intro hdone
    obtain ⟨rsp, hrsp, hmac⟩ := mem_map.mp (mem_toFinset.mp (hdone hmem))
    obtain ⟨htake, hsize⟩ := mem_filter.mp hrsp
    obtain ⟨k, hk, hget⟩ := mem_take_iff_getElem.mp htake
    exact ⟨k, rsp, List.getElem?_eq_some_iff.mpr ⟨by omega, hget⟩, hmac, of_decide_eq_true hsize,
      (hiff k (by omega)).mp (by omega)⟩
  · rintro ⟨k, rsp, hget, hmac, hsize, hturn⟩ -
    obtain ⟨hlen, hget⟩ := List.getElem?_eq_some_iff.mp hget
    have hk := (hiff k hlen).mpr hturn
    refine mem_toFinset.mpr (mem_map.mpr ⟨rsp, ?_, hmac⟩)
    exact mem_filter.mpr ⟨mem_take_iff_getElem.mpr ⟨k, by omega, hget⟩, decide_eq_true hsize⟩

theorem exchange_pending_subset (a : Attempt) :
    (exchange board status mac x a).sending.pending ⊆ x.sending.pending := by
  unfold exchange
  split
  · exact Finset.Subset.refl _
  obtain ⟨n, _, hprocess, _⟩ :=
    statusProcess_spec status x.sending (roundQueue board mac x a)
  dsimp only
  rw [hprocess, (processAll_counts _ _).1]
  exact Finset.sdiff_subset

theorem rounds_pending_subset (attempts : List Attempt) :
    (attempts.foldl (exchange board status mac) x).sending.pending ⊆ x.sending.pending := by
  induction attempts generalizing x with
  | nil => exact Finset.Subset.refl _
  | cons a rest ih => exact ih.trans (exchange_pending_subset a)

theorem marked_iff (hmem : mac ∈ x.sending.pending) (attempts : List Attempt) :
    mac ∉ (attempts.foldl (exchange board status mac) x).sending.pending ↔
      ∃ pre a post, attempts = pre ++ a :: post ∧
        InTurn board status mac (pre.foldl (exchange board status mac) x) a := by
  induction attempts using List.reverseRecOn with
  | nil => simp [hmem]
  | append_singleton attempts last ih =>
    constructor
    · intro hgone
      rw [foldl_concat] at hgone
      by_cases hbefore : mac ∈ (attempts.foldl (exchange board status mac) x).sending.pending
      · exact ⟨attempts, last, [], rfl, (exchange_marks_iff hbefore last).mp hgone⟩
      · obtain ⟨pre, a, post, rfl, hturn⟩ := ih.mp hbefore
        exact ⟨pre, a, post ++ [last], by simp, hturn⟩
    · rintro ⟨pre, a, post, hsplit, hturn⟩
      rw [hsplit, foldl_append, foldl_cons]
      refine fun hstill => ?_
      have hearlier := rounds_pending_subset post hstill
      exact (exchange_marks_iff (exchange_pending_subset a hearlier) a).mpr hturn hearlier

end Rounds

def completeNode : Node :=
  { Node.boot (fun _ => 0xFF) (fun _ => false) vectorTable with
    status := some ⟨.ongoing, 1, 1, 0, 0, 1024, 1024, some fun _ => true, 1⟩
    waitInterOta := true }

/-- The request of the round arrives, and the radio of the slave takes the answer. -/
def answered (inTime : List Arrival) : Attempt := ⟨⟨0, 0, 1, 1, 0, 1024, 0⟩, true, true, inTime, []⟩

def doneRsp (mac : Mac) : StatusRsp := ⟨mac, 1024, 0, fun _ => false⟩

theorem completeNode_complete : CompleteSlave completeNode 1024 :=
  ⟨rfl, _, _, rfl, rfl, rfl, rfl, rfl, fun _ _ => rfl⟩

def lostAnswer : List Attempt := [answered [], answered [.answer], answered []]

/-- Seven slaves answer in the last round but one. -/
def crowded : List Attempt :=
  [answered (([1, 2, 3, 4, 5, 6].map fun mac => .other (doneRsp mac)) ++ [.answer]), answered []]

end AmebaRtos.Mesh
