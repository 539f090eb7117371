import AmebaRtos.Lib.Tagged
import AmebaRtos.Websocket.Client

/-!
# What the client sends

Queued frames are resumed where the socket has stopped taking them; a PONG and a CLOSE go to the
socket at once, whatever is half sent, and what it does not take of them is never sent.
-/

namespace AmebaRtos.Websocket

open Lib Lib.WebSocket List

/-! ### Frames that the client makes -/

theorem firstByte_or (op : Opcode) :
    (if fin then 0x80 else 0) ||| UInt8.ofNat (rsv.val * 16) ||| op.code =
      Frame.firstByte fin rsv op.code := by
  revert fin rsv
  cases op <;> decide

theorem secondByte_or (masked : Bool) {n : Nat} (hn : n < 128) :
    UInt8.ofNat n ||| (if masked then 0x80 else 0) = Frame.secondByte masked n := by
  have hall : ∀ masked : Bool, ∀ n : Fin 128,
      UInt8.ofNat n.val ||| (if masked then 0x80 else 0) = Frame.secondByte masked n.val := by
    decide +kernel
  exact hall masked ⟨n, hn⟩

theorem toBE_eight (hn : n < 2 ^ 32) :
    toBE 8 n = [0, 0, 0, 0, UInt8.ofNat (n / 2 ^ 24), UInt8.ofNat (n / 2 ^ 16),
      UInt8.ofNat (n / 2 ^ 8),
      UInt8.ofNat n] := by
  have hzero : ∀ k, 2 ^ 32 ≤ k → n / k = 0 := fun k hk =>
    Nat.div_eq_of_lt (Nat.lt_of_lt_of_le hn hk)
  simp only [toBE, toLE, Nat.div_div_eq_div_mul]
  rw [hzero 4294967296 (by decide), hzero 1099511627776 (by decide),
    hzero 281474976710656 (by decide),
    hzero 72057594037927936 (by decide)]
  rfl

theorem txFrame_eq (hlen : message.length < 2 ^ 32) :
    txFrame type message key finFlag rsv = Frame.bytes ⟨finFlag, rsv, type, key, message⟩ := by
  have hheader : txHeader type message.length key finFlag rsv =
      Frame.header ⟨finFlag, rsv, type, key, message⟩ := by
    simp only [txHeader, Frame.header, firstByte_or, Frame.lengthCode, Frame.extendedLength]
    by_cases hshort : message.length < 126
    · simp [hshort, secondByte_or _ (show message.length < 128 by omega)]
    by_cases hmiddle : message.length < 65536
    · have hsecond := @secondByte_or key.isSome 126 (by decide)
      simp only [hshort, hmiddle, if_true, if_false, ← hsecond]
      rfl
    · have hsecond := @secondByte_or key.isSome 127 (by decide)
      simp only [hshort, hmiddle, if_false, toBE_eight hlen, ← hsecond]
      rfl
  cases key <;> simp only [txFrame, hheader, Frame.bytes, Frame.body]

/-- The frame of `ws_close`: masked with zeros, without a reason. -/
def closing : Frame := ⟨true, Frame.noRsv, .close, some noKey, []⟩

theorem applied_payload_length (ws : WsHeader) : (ws.payload data).length ≤ data.length := by
  have hle : ((data.drop ws.headerSize).take ws.N).length ≤ data.length := by
    rw [length_take, length_drop]
    omega
  rw [WsHeader.payload]
  split
  · rw [length_applyMask]
    exact hle
  · exact hle

/-! ### The property and the condition -/

variable (c : WsClient)

/-- What the socket has taken is the beginning of a sequence of frames of the protocol. -/
def FramesWhole : Prop :=
  (∀ b ∈ c.frames, ∃ f : Frame, f.bytes = b) ∧ SentWhole c.frames c.written

def WsClient.halfSent : Prop := ∃ b ∈ c.readySendBuf.head?, 0 < b.sendOffset

/-- The next frame of the dispatch loop is answered with a frame. -/
def WsClient.answers : Bool :=
  match c.phase, wsHeader c.rxbuf with
  | .dispatching _, some ws =>
    decide (c.readyState = .opened ∧ (ws.opcode = PING ∨ ws.opcode = CLOSE) ∧
      ¬ c.rxbuf.length < ws.total ∧ ¬ (c.rxbuf.length = ws.total ∧ ws.N > c.maxRxLen))
  | _, _ => false

inductive Write where
  | direct (n : Nat)
  | queued (n : Nat)

def taken : SockResult → Option Nat
  | .bytes (n + 1) => some (n + 1)
  | _ => none

def writes : Action → Option Write
  | .sendData type _ _ _ ret =>
    if c.readyState = .opened ∧ type = .pong then (taken ret).map .direct else none
  | .close ret => if c.readyState = .opened then (taken ret).map .direct else none
  | .dispatch ret _ => if c.answers then (taken ret).map .direct else none
  | .send ret =>
    if c.phase = .sending ∧ c.readySendBuf ≠ [] then (taken ret).map .queued else none
  | _ => none

/-- A PONG or CLOSE is written only when no queued frame is half sent, and nothing behind one cut
    short. -/
def SendCond (a : Action) : Prop :=
  match writes c a with
  | none => True
  | some (.direct _) => ¬ c.halfSent ∧ c.cutShort = false
  | some (.queued _) => c.cutShort = false

instance (c : WsClient) : Decidable c.halfSent :=
  match hqueue : c.readySendBuf with
  | [] => isFalse (by simp [WsClient.halfSent, hqueue])
  | b :: _ => decidable_of_iff (0 < b.sendOffset) (by simp [WsClient.halfSent, hqueue])

instance (c : WsClient) (a : Action) : Decidable (SendCond c a) :=
  match hw : writes c a with
  | none => isTrue (by simp [SendCond, hw])
  | some (.direct _) =>
      decidable_of_iff (¬ c.halfSent ∧ c.cutShort = false) (by simp [SendCond, hw])
  | some (.queued _) => decidable_of_iff (c.cutShort = false) (by simp [SendCond, hw])

/-- The lengths of messages are numbers of 32 bits. -/
def Action.Typed : Action → Prop
  | .sendData _ message _ _ _ => message.length < 2 ^ 32
  | _ => True

/-! ### What a step does to the sending side -/

structure TxEq (c c' : WsClient) : Prop where
  frames : c'.frames = c.frames
  written : c'.written = c.written
  cutShort : c'.cutShort = c.cutShort
  readySendBuf : c'.readySendBuf = c.readySendBuf

theorem TxEq.refl : TxEq c c := ⟨rfl, rfl, rfl, rfl⟩

def WsClient.push (frame : List UInt8) : WsClient :=
  { c with
    readySendBuf := c.readySendBuf ++ [⟨frame, 0, c.frames.length⟩]
    frames := c.frames ++ [frame] }

inductive TxEffect (c : WsClient) (a : Action) (c' : WsClient) : Prop where
  | same (hw : writes c a = none) (h : TxEq c c')
      (hstate : c.readyState = .closed → c'.readyState = .closed)
  | pushed (hw : writes c a = none) (f : Frame) (hopened : c.readyState = .opened)
      (h : TxEq (c.push f.bytes) c')
  | direct (f : Frame) (n : Nat) (hw : writes c a = if n = 0 then none else some (.direct n))
      (hopened : c.readyState = .opened) (h : TxEq (c.directSend f.bytes n) c')
  | closed (hw : writes c a = none) (more : List Frame) (hstate : c'.readyState = .closed)
      (hqueue : c'.readySendBuf = []) (hwritten : c'.written = c.written)
      (hframes : c'.frames = c.frames ++ more.map Frame.bytes)
  | sent (n : Nat) (hw : writes c a = some (.queued n)) (hn : 0 < n) (hphase : c.phase = .sending)
      (hqueue : c.readySendBuf ≠ []) (h : c' = c.sendRound (.bytes n))

section Effects

variable {c : WsClient}

theorem taken_bytes :
    (taken (.bytes n)).map Write.direct = if n = 0 then none else some (.direct n) := by
  cases n <;> rfl

theorem sendData_pong (hopened : c.readyState = .opened) (hlen : message.length < 2 ^ 32)
    (hw : writes c a = (taken ret).map .direct) :
    TxEffect c a (c.wsSendData .pong message key finFlag ret).1 := by
  have hclosed : ¬ c.readyState ≠ .opened := fun hne => hne hopened
  cases ret with
  | bytes n =>
    refine .direct ⟨finFlag, c.txRsvBits, .pong, key, message⟩ n (hw.trans taken_bytes) hopened ?_
    simp only [WsClient.wsSendData, if_neg hclosed, txFrame_eq hlen]
    exact .refl _
  | failed =>
    refine .closed hw [⟨finFlag, c.txRsvBits, .pong, key, message⟩] ?_ ?_ ?_ ?_ <;>
      simp [WsClient.wsSendData, hopened, Opcode.isControl, txFrame_eq hlen,
        WsClient.directSend, WsClient.clientClose]

theorem sendData_effect (hlen : message.length < 2 ^ 32) :
    TxEffect c (.sendData type message key finFlag ret)
      (clientStep c (.sendData type message key finFlag ret)) := by
  by_cases hopened : c.readyState = .opened
  · by_cases htype : type = .pong
    · subst htype
      exact sendData_pong hopened hlen (by simp [writes, hopened])
    have hw : writes c (.sendData type message key finFlag ret) = none := by simp [writes, htype]
    simp only [clientStep, WsClient.wsSendData,
      if_neg (fun hne => hne hopened : ¬ c.readyState ≠ .opened)]
    split
    · exact .same hw (.refl c) id
    split
    · exact .same hw (.refl c) id
    · refine .pushed hw ⟨finFlag, c.txRsvBits, type, key, message⟩ hopened ?_
      rw [← txFrame_eq hlen]
      exact ⟨rfl, rfl, rfl, rfl⟩
  · refine .same (by simp [writes, hopened]) ?_ ?_ <;>
      simp only [clientStep, WsClient.wsSendData, if_pos (show c.readyState ≠ .opened from hopened)]
    · exact .refl c
    · exact id

theorem wsClose_effect
    (hw : writes c a = if c.readyState = .opened then (taken ret).map .direct else none) :
    TxEffect c a (c.wsClose ret) := by
  by_cases hopened : c.readyState = .opened
  · rw [if_pos hopened] at hw
    have hnot : ¬ c.readyState ≠ .opened := fun hne => hne hopened
    cases ret with
    | bytes n =>
      refine .direct closing n (hw.trans taken_bytes) hopened ?_
      simp only [WsClient.wsClose, if_neg hnot]
      exact ⟨rfl, rfl, rfl, rfl⟩
    | failed =>
      refine .direct closing 0 hw hopened ?_
      simp only [WsClient.wsClose, if_neg hnot]
      exact ⟨rfl, rfl, rfl, rfl⟩
  · rw [if_neg hopened] at hw
    have hsame : c.wsClose ret = c := by
      simp only [WsClient.wsClose, if_pos (show c.readyState ≠ .opened from hopened)]
    rw [hsame]
    exact .same hw (.refl c) id

theorem TxEffect.congr (h : TxEffect c a c') (heq : TxEq c' c'')
    (hstate : c''.readyState = c'.readyState) (hsend : ∀ n, writes c a ≠ some (.queued n)) :
    TxEffect c a c'' := by
  have htrans : ∀ c₀, TxEq c₀ c' → TxEq c₀ c'' := fun c₀ h₀ =>
    ⟨heq.frames.trans h₀.frames, heq.written.trans h₀.written, heq.cutShort.trans h₀.cutShort,
      heq.readySendBuf.trans h₀.readySendBuf⟩
  cases h with
  | same hw h hclosed => exact .same hw (htrans _ h) fun hc => hstate.trans (hclosed hc)
  | pushed hw f hopened h => exact .pushed hw f hopened (htrans _ h)
  | direct f n hw hopened h => exact .direct f n hw hopened (htrans _ h)
  | closed hw more hclosed hqueue hwritten hframes =>
    exact .closed hw more (hstate.trans hclosed) (heq.readySendBuf.trans hqueue)
      (heq.written.trans hwritten) (heq.frames.trans hframes)
  | sent n hw => exact absurd hw (hsend n)

theorem clientClose_effect (hw : writes c a = none) (heq : TxEq c.clientClose c')
    (hstate : c'.readyState = .closed) : TxEffect c a c' :=
  .closed hw [] hstate heq.readySendBuf heq.written (heq.frames.trans (append_nil _).symm)

theorem poll_effect : TxEffect c (.poll sel) (clientStep c (.poll sel)) := by
  have hw : writes c (.poll sel) = none := rfl
  simp only [clientStep, WsClient.pollEnter]
  split
  · split
    · exact .same hw (.refl c) id
    · exact clientClose_effect hw (.refl _) rfl
    · exact .same hw (.refl c) id
    cases sel with
    | timeout => exact .same hw (.refl c) id
    | failed => exact clientClose_effect hw (.refl _) rfl
    | ready readable writable =>
      cases readable <;> exact .same hw ⟨rfl, rfl, rfl, rfl⟩ id
  · exact .same hw (.refl c) id

theorem read_effect : TxEffect c (.read ret) (clientStep c (.read ret)) := by
  have hw : writes c (.read ret) = none := rfl
  simp only [clientStep]
  split
  · cases ret with
    | failed => exact clientClose_effect hw ⟨rfl, rfl, rfl, rfl⟩ rfl
    | bytes n =>
      simp only [WsClient.readRound]
      split
      · split <;> exact .same hw ⟨rfl, rfl, rfl, rfl⟩ id
      · split
        · exact .same hw ⟨rfl, rfl, rfl, rfl⟩ id
        · split <;> exact .same hw ⟨rfl, rfl, rfl, rfl⟩ id
  · exact .same hw (.refl c) id

theorem writes_ne_queued (n : Nat) : writes c (.dispatch ret key) ≠ some (.queued n) := by
  simp only [writes]
  split
  · cases taken ret <;> simp
  · simp

theorem handleFrame_effect (hrx : c.rxbuf.length < 2 ^ 32)
    (hphase : c.phase = .dispatching writable) (hws : wsHeader c.rxbuf = some ws)
    (hwhole : ¬ c.rxbuf.length < ws.total)
    (hshort : ¬ (c.rxbuf.length = ws.total ∧ ws.N > c.maxRxLen))
    (hhandle : c.handleFrame ws ret key = some c') : TxEffect c (.dispatch ret key) c' := by
  have hlen : (ws.payload c.rxbuf).length < 2 ^ 32 :=
    Nat.lt_of_le_of_lt (applied_payload_length ws) hrx
  have hanswers : c.answers =
    decide (c.readyState = .opened ∧ (ws.opcode = PING ∨ ws.opcode = CLOSE)) := by
    simp [WsClient.answers, hphase, hws, hwhole, hshort]
  have hnone : ws.opcode ≠ PING → ws.opcode ≠ CLOSE → writes c (.dispatch ret key) = none := by
    intro hping hclose
    simp [writes, hanswers, hping, hclose]
  simp only [WsClient.handleFrame] at hhandle
  split at hhandle
  · rename_i hdata
    cases hhandle
    have hw : writes c (.dispatch ret key) = none := by
      rcases hdata with hdata | hdata | hdata <;> rw [hdata] at hnone <;>
        exact hnone (by decide) (by decide)
    simp only [WsClient.receiveData]
    split <;> exact .same hw ⟨rfl, rfl, rfl, rfl⟩ id
  split at hhandle
  · rename_i hping
    cases hhandle
    by_cases hopened : c.readyState = .opened
    · exact sendData_pong hopened hlen (by simp [writes, hanswers, hopened, hping])
    refine .same (by simp [writes, hanswers, hopened]) ?_ ?_ <;>
      simp only [WsClient.wsSendData, if_pos (show c.readyState ≠ .opened from hopened)]
    · exact .refl c
    · exact id
  rename_i hping
  split at hhandle
  · rename_i hpong
    cases hhandle
    exact .same (hnone hping (by rw [hpong]; decide)) (.refl c) id
  split at hhandle
  · rename_i hclose
    cases hhandle
    refine wsClose_effect ?_
    by_cases hopened : c.readyState = .opened <;> simp [writes, hanswers, hclose]
  · cases hhandle

theorem dispatch_effect (hrx : c.rxbuf.length < 2 ^ 32) :
    TxEffect c (.dispatch ret key) (clientStep c (.dispatch ret key)) := by
  simp only [clientStep]
  split
  · rename_i writable hphase
    have hquiet : ∀ c' : WsClient, c.answers = false → TxEq c c' → c'.readyState = c.readyState →
        TxEffect c (.dispatch ret key) c' := fun c' hno heq hstate =>
      .same (by simp [writes, hno]) heq fun hclosed => hstate.trans hclosed
    simp only [WsClient.dispatchRound]
    split
    · rename_i hws
      exact hquiet _ (by simp [WsClient.answers, hws]) ⟨rfl, rfl, rfl, rfl⟩ rfl
    rename_i ws hws
    split
    · rename_i hpart
      have hno : c.answers = false := by simp [WsClient.answers, hphase, hws, hpart]
      split <;> exact hquiet _ hno ⟨rfl, rfl, rfl, rfl⟩ rfl
    rename_i hwhole
    split
    · rename_i hlong
      exact hquiet _ (by simp [WsClient.answers, hphase, hws, hlong]) ⟨rfl, rfl, rfl, rfl⟩ rfl
    rename_i hshort
    split
    · rename_i hnone
      refine clientClose_effect ?_ ⟨rfl, rfl, rfl, rfl⟩ rfl
      have hping : ws.opcode ≠ PING ∧ ws.opcode ≠ CLOSE := by
        simp only [WsClient.handleFrame] at hnone
        refine ⟨fun hping => ?_, fun hclose => ?_⟩
        · rw [hping] at hnone
          exact absurd hnone (by simp [PING, TEXT_FRAME, BINARY_FRAME, CONTINUATION])
        · rw [hclose] at hnone
          exact absurd hnone (by simp [PING, TEXT_FRAME, BINARY_FRAME, CONTINUATION, CLOSE, PONG])
      simp [writes, WsClient.answers, hphase, hws, hping]
    · rename_i c' hhandle
      exact (handleFrame_effect hrx hphase hws hwhole hshort hhandle).congr ⟨rfl, rfl, rfl, rfl⟩ rfl
        writes_ne_queued
  · rename_i hphase
    refine .same ?_ (.refl c) id
    have hno : c.answers = false := by
      rw [WsClient.answers]
      split
      · rename_i writable ws hdispatching _
        exact absurd hdispatching (hphase writable)
      · rfl
    simp [writes, hno]

theorem send_effect : TxEffect c (.send ret) (clientStep c (.send ret)) := by
  simp only [clientStep]
  split
  · rename_i hphase
    cases hqueue : c.readySendBuf with
    | nil =>
      refine .same (by simp [writes, hqueue]) ?_ ?_ <;> simp only [WsClient.sendRound, hqueue]
      · exact ⟨rfl, rfl, rfl, hqueue.symm⟩
      · exact id
    | cons b bs =>
      cases ret with
      | failed =>
        have hround : c.sendRound .failed = { c.clientClose with phase := .idle } := by
          simp only [WsClient.sendRound, hqueue]
        rw [hround]
        exact clientClose_effect (by simp [writes, taken]) ⟨rfl, rfl, rfl, rfl⟩ rfl
      | bytes n =>
        cases n with
        | zero =>
          have hround : c.sendRound (.bytes 0) = { c with phase := .idle } := by
            simp [WsClient.sendRound, hqueue]
          rw [hround]
          exact .same (by simp [writes, taken]) ⟨rfl, rfl, rfl, rfl⟩ id
        | succ n =>
          exact .sent (n + 1) (by simp [writes, taken, hphase, hqueue]) (Nat.succ_pos n) hphase
            (by simp [hqueue]) rfl
  · rename_i hphase
    have hne : c.phase ≠ .sending := hphase
    exact .same (by simp [writes, hne]) (.refl c) id

theorem clientStep_effect (hrx : c.rxbuf.length < 2 ^ 32) (htyped : a.Typed) :
    TxEffect c a (clientStep c a) := by
  cases a with
  | sendData type message key finFlag ret => exact sendData_effect htyped
  | close ret => exact wsClose_effect rfl
  | poll sel => exact poll_effect
  | read ret => exact read_effect
  | dispatch ret key => exact dispatch_effect hrx
  | send ret => exact send_effect

end Effects

/-! ### Runs -/

def WsClient.headPart : List (Nat × UInt8) :=
  match c.readySendBuf with
  | [] => []
  | b :: _ => (b.txbuf.take b.sendOffset).map (b.no, ·)

structure Queued (c : WsClient) : Prop where
  numbered : ∀ b ∈ c.readySendBuf, c.frames[b.no]? = some b.txbuf
  distinct : (c.readySendBuf.map SendBuf.no).Nodup
  unfinished : ∀ b ∈ c.readySendBuf, b.sendOffset < b.txbuf.length
  later : ∀ b ∈ c.readySendBuf.tail, b.sendOffset = 0

/-- The frames `ids` have been sent, and `part` of another one: the front of the queue, or one cut
    short. -/
structure Sent (c : WsClient) (ids : List Nat) (part : List (Nat × UInt8)) : Prop where
  queue : Queued c
  written : c.written = ids.flatMap (tagged c.frames) ++ part
  nodup : ids.Nodup
  range : ∀ i ∈ ids, i < c.frames.length
  unsent : ∀ b ∈ c.readySendBuf, b.no ∉ ids
  part_eq : (c.cutShort = false ∧ part = c.headPart) ∨
    (c.cutShort = true ∧ ¬ c.halfSent ∧ ∃ i < c.frames.length, i ∉ ids ∧
      (∀ b ∈ c.readySendBuf, b.no ≠ i) ∧ part <+: tagged c.frames i ∧ part ≠ [] ∧
      part ≠ tagged c.frames i)

/-- The connection is closed behind whole frames, or the frames are sent one after the other. -/
structure Sending (c : WsClient) : Prop where
  encoded : ∀ b ∈ c.frames, ∃ f : Frame, f.bytes = b
  bounded : c.rxbuf.length ≤ c.maxRxLen + 16
  limit : c.maxRxLen + 16 < 2 ^ 31
  sent : (c.readyState = .closed ∧ c.readySendBuf = [] ∧ SentWhole c.frames c.written) ∨
    ∃ ids part, Sent c ids part

section Runs

variable {c c' : WsClient}

theorem Queued.range (h : Queued c) (hb : b ∈ c.readySendBuf) : b.no < c.frames.length :=
  (List.getElem?_eq_some_iff.mp (h.numbered b hb)).1

theorem Queued.tagged (h : Queued c) (hb : b ∈ c.readySendBuf) :
    tagged c.frames b.no = b.txbuf.map (b.no, ·) := by
  rw [Lib.tagged, getD_eq_getElem?_getD, h.numbered b hb]
  rfl

theorem headPart_take (h : Queued c) (hb : b ∈ c.readySendBuf.head?) :
    c.headPart = (tagged c.frames b.no).take b.sendOffset := by
  cases hqueue : c.readySendBuf with
  | nil => simp [hqueue] at hb
  | cons b' bs =>
    obtain rfl : b' = b := by simpa [hqueue] using hb
    have hmem : b' ∈ c.readySendBuf := by simp [hqueue]
    simp only [WsClient.headPart, hqueue, h.tagged hmem, map_take]

theorem Sent.whole (h : Sent c ids part) : SentWhole c.frames c.written := by
  rw [h.written]
  rcases h.part_eq with ⟨-, rfl⟩ | ⟨-, -, i, hi, hnew, -, hpart, -, -⟩
  · cases hqueue : c.readySendBuf with
    | nil =>
      simp only [WsClient.headPart, hqueue, append_nil]
      exact ⟨_, h.nodup, h.range, prefix_refl _⟩
    | cons b bs =>
      have hb : b ∈ c.readySendBuf := by simp [hqueue]
      rw [headPart_take h.queue (show b ∈ c.readySendBuf.head? by simp [hqueue])]
      exact sentWhole_part h.nodup h.range (h.unsent b hb) (h.queue.range hb) <|
        take_prefix _ _
  · exact sentWhole_part h.nodup h.range hnew hi hpart

theorem Sending.whole (h : Sending c) : FramesWhole c := by
  refine ⟨h.encoded, ?_⟩
  rcases h.sent with ⟨-, -, hwhole⟩ | ⟨ids, part, hsent⟩
  · exact hwhole
  · exact hsent.whole

theorem Sent.unfinished (h : Sent c ids part) (hopen : c.halfSent ∨ c.cutShort = true) :
    ∃ i < c.frames.length, part <+: tagged c.frames i ∧ part ≠ [] ∧ part ≠ tagged c.frames i ∧
      (c.cutShort = true → ∀ b ∈ c.readySendBuf, b.no ≠ i) := by
  rcases h.part_eq with ⟨hcut, rfl⟩ | ⟨-, -, i, hi, -, hother, hpart, hsome, hrest⟩
  · have hhalf : c.halfSent := hopen.resolve_right (by simp [hcut])
    obtain ⟨b, hb, hpos⟩ := hhalf
    have hmem : b ∈ c.readySendBuf := mem_of_mem_head? hb
    have hlt := h.queue.unfinished b hmem
    have hlen : (tagged c.frames b.no).length = b.txbuf.length := by simp [h.queue.tagged hmem]
    have htake : ((tagged c.frames b.no).take b.sendOffset).length = b.sendOffset := by
      rw [length_take]
      omega
    rw [headPart_take h.queue hb]
    refine ⟨b.no, h.queue.range hmem, take_prefix _ _, ?_, ?_, by simp [hcut]⟩
    · intro hnil
      rw [hnil] at htake
      exact absurd htake (Nat.ne_of_lt hpos)
    · intro hall
      rw [hall] at htake
      omega
  · exact ⟨i, hi, hpart, hsome, hrest, fun _ => hother⟩

theorem nonempty_of_encoded (henc : ∀ b ∈ c.frames, ∃ f : Frame, f.bytes = b) :
    ∀ b ∈ c.frames, b ≠ [] := by
  intro b hb
  obtain ⟨f, rfl⟩ := henc b hb
  exact f.bytes_ne_nil

theorem Sent.not_whole_direct (h : Sent c ids part)
    (henc : ∀ b ∈ c.frames, ∃ f : Frame, f.bytes = b) (f : Frame) (hn : 0 < n)
    (hopen : c.halfSent ∨ c.cutShort = true) :
    ¬ SentWhole (c.directSend f.bytes n).frames (c.directSend f.bytes n).written := by
  obtain ⟨i, hi, hpart, hsome, hrest, -⟩ := h.unfinished hopen
  obtain ⟨byte, rest, hbytes⟩ := exists_cons_of_ne_nil f.bytes_ne_nil
  obtain ⟨k, rfl⟩ := Nat.exists_eq_succ_of_ne_zero (Nat.ne_of_gt hn)
  simp only [WsClient.directSend, h.written, append_assoc, hbytes]
  rw [← flatMap_tagged_append h.range]
  have htag := tagged_append hi [byte :: rest]
  refine not_sentWhole_mixed ?_ ?_ (htag ▸ hpart) hsome (htag ▸ hrest) (Nat.ne_of_gt hi) _
  · exact forall_mem_append.mpr
      ⟨nonempty_of_encoded henc, forall_mem_singleton.mpr (cons_ne_nil _ _)⟩
  · intro j hj
    rw [length_append]
    exact Nat.lt_add_right _ (h.range j hj)

theorem Queued.congr (h : Queued c) (heq : TxEq c c') : Queued c' := by
  refine ⟨?_, ?_, ?_, ?_⟩
  · rw [heq.readySendBuf, heq.frames]
    exact h.numbered
  · rw [heq.readySendBuf]
    exact h.distinct
  · rw [heq.readySendBuf]
    exact h.unfinished
  · rw [heq.readySendBuf]
    exact h.later

theorem Sent.congr (h : Sent c ids part) (heq : TxEq c c') : Sent c' ids part := by
  have hhead : c'.headPart = c.headPart := by
    rw [WsClient.headPart, WsClient.headPart, heq.readySendBuf]
  have hhalf : c'.halfSent = c.halfSent := by
    rw [WsClient.halfSent, WsClient.halfSent, heq.readySendBuf]
  refine ⟨h.queue.congr heq, ?_, h.nodup, ?_, ?_, ?_⟩
  · rw [heq.written, heq.frames, h.written]
  · rw [heq.frames]
    exact h.range
  · rw [heq.readySendBuf]
    exact h.unsent
  · rw [hhead, hhalf, heq.cutShort, heq.frames, heq.readySendBuf]
    exact h.part_eq

theorem Sent.newFrame (h : Sent c ids part) (frame : List UInt8) :
    Sent { c with frames := c.frames ++ [frame] } ids part := by
  have hnumber : ∀ b ∈ c.readySendBuf, (c.frames ++ [frame])[b.no]? = some b.txbuf := fun b hb => by
    rw [List.getElem?_append_left (h.queue.range hb), h.queue.numbered b hb]
  refine ⟨{ h.queue with numbered := hnumber }, ?_, h.nodup, ?_, h.unsent, ?_⟩
  · rw [flatMap_tagged_append h.range]
    exact h.written
  · intro i hi
    rw [length_append]
    exact Nat.lt_add_right _ (h.range i hi)
  · rcases h.part_eq with hhead | ⟨hcut, hhalf, i, hi, hnew, hother, hpart, hsome, hrest⟩
    · exact .inl hhead
    have htag := tagged_append hi [frame]
    refine .inr ⟨hcut, hhalf, i, ?_, hnew, hother, htag ▸ hpart, hsome, htag ▸ hrest⟩
    rw [length_append]
    exact Nat.lt_add_right _ hi

theorem Sent.push (h : Sent c ids part) (hne : frame ≠ []) : Sent (c.push frame) ids part := by
  have h' := h.newFrame frame
  have hfresh : ∀ b ∈ c.readySendBuf, b.no ≠ c.frames.length := fun b hb =>
    Nat.ne_of_lt (h.queue.range hb)
  have hnew : (c.frames ++ [frame])[c.frames.length]? = some frame := by simp
  have hheadPart : (c.push frame).headPart = c.headPart := by
    cases hqueue : c.readySendBuf <;> simp [WsClient.headPart, WsClient.push, hqueue]
  have hhalf : (c.push frame).halfSent ↔ c.halfSent := by
    cases hqueue : c.readySendBuf <;> simp [WsClient.halfSent, WsClient.push, hqueue]
  refine ⟨⟨?_, ?_, ?_, ?_⟩, h'.written, h.nodup, h'.range, ?_, ?_⟩
  · exact forall_mem_append.mpr ⟨h'.queue.numbered, forall_mem_singleton.mpr hnew⟩
  · simp only [WsClient.push, map_append]
    refine nodup_snoc h.queue.distinct fun hold => ?_
    obtain ⟨b, hb, hno⟩ := mem_map.mp hold
    exact hfresh b hb hno
  · exact forall_mem_append.mpr
      ⟨h.queue.unfinished, forall_mem_singleton.mpr (length_pos_iff.mpr hne)⟩
  · intro b hb
    cases hqueue : c.readySendBuf with
    | nil => simp [WsClient.push, hqueue] at hb
    | cons b' bs =>
      have hcases : b ∈ bs ∨ b = ⟨frame, 0, c.frames.length⟩ := by
        simpa [WsClient.push, hqueue] using hb
      rcases hcases with hold | rfl
      · exact h.queue.later b (by simpa [hqueue] using hold)
      · rfl
  · exact forall_mem_append.mpr
      ⟨h.unsent, forall_mem_singleton.mpr fun hid => Nat.lt_irrefl _ (h.range _ hid)⟩
  · rcases h.part_eq with ⟨hcut, hpart⟩ | ⟨hcut, hno, i, hi, hid, hother, hpart, hsome, hrest⟩
    · exact .inl ⟨hcut, hpart.trans hheadPart.symm⟩
    have htag := tagged_append hi [frame]
    have hi' : i < (c.push frame).frames.length := by
      simp only [WsClient.push, length_append]
      exact Nat.lt_add_right _ hi
    refine .inr ⟨hcut, fun hh => hno (hhalf.mp hh), i, hi', hid, ?_, htag ▸ hpart, hsome,
      htag ▸ hrest⟩
    exact forall_mem_append.mpr ⟨hother, forall_mem_singleton.mpr (Nat.ne_of_gt hi)⟩

theorem Sent.headPart_nil (hhalf : ¬ c.halfSent) : c.headPart = [] := by
  cases hqueue : c.readySendBuf with
  | nil => simp [WsClient.headPart, hqueue]
  | cons b bs =>
    have hzero : b.sendOffset = 0 := by
      by_contra hne
      exact hhalf ⟨b, by simp [hqueue], Nat.pos_of_ne_zero hne⟩
    simp [WsClient.headPart, hqueue, hzero]

theorem Sent.direct (h : Sent c ids part) (f : Frame)
    (hcond : 0 < n → ¬ c.halfSent ∧ c.cutShort = false) :
    ∃ ids' part', Sent (c.directSend f.bytes n) ids' part' := by
  have h' := h.newFrame f.bytes
  by_cases hn : n = 0
  · subst hn
    exact ⟨ids, part, h'.congr
      ⟨rfl, by simp [WsClient.directSend], by simp [WsClient.directSend], rfl⟩⟩
  obtain ⟨hhalf, hcut⟩ := hcond (Nat.pos_of_ne_zero hn)
  have hpart : part = [] := by
    rcases h.part_eq with ⟨-, rfl⟩ | ⟨hcut', -⟩
    · exact Sent.headPart_nil hhalf
    · rw [hcut] at hcut'
      cases hcut'
  have hlast : tagged (c.frames ++ [f.bytes]) c.frames.length = f.bytes.map (c.frames.length, ·) :=
    tagged_last
  have hnew : c.frames.length ∉ ids := fun hid => Nat.lt_irrefl _ (h.range _ hid)
  have hfresh : ∀ b ∈ c.readySendBuf, b.no ≠ c.frames.length := fun b hb =>
    Nat.ne_of_lt (h.queue.range hb)
  have hin : c.frames.length < (c.frames ++ [f.bytes]).length := by simp
  have hwritten := h'.written
  rw [hpart, append_nil] at hwritten
  by_cases hall : n < f.bytes.length
  · -- the frame is cut short
    have hlen : (f.bytes.take n).length = n := by
      rw [length_take]
      omega
    refine ⟨ids, (f.bytes.take n).map (c.frames.length, ·),
      { h'.queue with }, ?_, h.nodup, h'.range,
      h.unsent, .inr ⟨?_, hhalf, c.frames.length, hin, hnew, hfresh, ?_, ?_, ?_⟩⟩
    · exact congrArg (· ++ _) hwritten
    · simp [WsClient.directSend, hall, Nat.pos_of_ne_zero hn]
    · change _ <+: tagged (c.frames ++ [f.bytes]) c.frames.length
      rw [hlast, map_take]
      exact take_prefix _ _
    · intro hnil
      rw [map_eq_nil_iff] at hnil
      rw [hnil] at hlen
      exact hn hlen.symm
    · change _ ≠ tagged (c.frames ++ [f.bytes]) c.frames.length
      rw [hlast]
      intro heq
      have hlen' := congrArg List.length heq
      rw [length_map, length_map, hlen] at hlen'
      exact Nat.ne_of_lt hall hlen'
  have htake : f.bytes.take n = f.bytes := take_of_length_le (Nat.le_of_not_lt hall)
  refine ⟨ids ++ [c.frames.length], [], { h'.queue with }, ?_, ?_, ?_, ?_, .inl ⟨?_, ?_⟩⟩
  · change c.written ++ _ = _
    rw [flatMap_append, flatMap_singleton, append_nil, htake]
    change _ = ids.flatMap (tagged (c.frames ++ [f.bytes])) ++
      tagged (c.frames ++ [f.bytes]) c.frames.length
    rw [hlast]
    exact congrArg (· ++ _) hwritten
  · exact nodup_snoc h.nodup hnew
  · exact forall_mem_append.mpr ⟨h'.range, forall_mem_singleton.mpr hin⟩
  · intro b hb hid
    rcases mem_append.mp hid with hid | hid
    · exact h.unsent b hb hid
    · exact hfresh b hb (mem_singleton.mp hid)
  · simp [WsClient.directSend, hall, hcut]
  · exact (Sent.headPart_nil hhalf).symm

theorem sendRound_cases (hqueue : c.readySendBuf = b :: bs) (hlt : b.sendOffset < b.txbuf.length)
    (hn : 0 < n) :
    ∃ data, data ≠ [] ∧
      b.txbuf.take (b.sendOffset + data.length) = b.txbuf.take b.sendOffset ++ data ∧
      (c.sendRound (.bytes n)).written = c.written ++ data.map (b.no, ·) ∧
      (c.sendRound (.bytes n)).frames = c.frames ∧
      (c.sendRound (.bytes n)).cutShort = c.cutShort ∧
      (c.sendRound (.bytes n)).readySendBuf = (if b.sendOffset + data.length < b.txbuf.length then
          { b with sendOffset := b.sendOffset + data.length } :: bs else bs) := by
  have hdata : (b.txbuf.drop b.sendOffset).take (min n (10 * 1024)) ≠ [] := by
    rw [← length_pos_iff, length_take, length_drop]
    omega
  refine ⟨(b.txbuf.drop b.sendOffset).take (min n (10 * 1024)), hdata, ?_, ?_⟩
  · rw [take_add, ← prefix_iff_eq_take.mp <| take_prefix _ _]
  · simp only [WsClient.sendRound, hqueue, if_neg hdata]
    split
    · exact ⟨rfl, rfl, rfl, rfl⟩
    · simp only [WsClient.recycle]
      split <;> exact ⟨rfl, rfl, rfl, rfl⟩

theorem Sent.sendRound (h : Sent c ids part) (hqueue : c.readySendBuf ≠ [])
    (hcut : c.cutShort = false)
    (hn : 0 < n) : ∃ ids' part', Sent (c.sendRound (.bytes n)) ids' part' := by
  obtain ⟨b, bs, hcons⟩ := exists_cons_of_ne_nil hqueue
  have hmem : b ∈ c.readySendBuf := by simp [hcons]
  have hlt := h.queue.unfinished b hmem
  obtain ⟨data, hdata, htake, hwritten, hframes, hcut', hready⟩ := sendRound_cases hcons hlt hn
  have htag := h.queue.tagged hmem
  have hpart : part = (b.txbuf.take b.sendOffset).map (b.no, ·) := by
    rcases h.part_eq with ⟨-, rfl⟩ | ⟨hcut', -⟩
    · simp [WsClient.headPart, hcons]
    · rw [hcut] at hcut'
      cases hcut'
  have hall : c.written ++ data.map (b.no, ·) = ids.flatMap (tagged c.frames) ++
      (b.txbuf.take (b.sendOffset + data.length)).map (b.no, ·) := by
    rw [h.written, hpart, htake, map_append, append_assoc]
  have hold : ∀ b' ∈ bs, b' ∈ c.readySendBuf := fun b' hb' => by simp [hcons, hb']
  have hdistinct := h.queue.distinct
  rw [hcons, map_cons, nodup_cons] at hdistinct
  have hlater : ∀ b' ∈ bs, b'.sendOffset = 0 := fun b' hb' =>
    h.queue.later b' (by simpa [hcons] using hb')
  by_cases hmore : b.sendOffset + data.length < b.txbuf.length
  · rw [if_pos hmore] at hready
    refine ⟨ids, _, ⟨?_, ?_, ?_, ?_⟩, ?_, h.nodup, ?_, ?_, .inl ⟨hcut'.trans hcut, rfl⟩⟩
    · rw [hready, hframes]
      exact forall_mem_cons.mpr
        ⟨h.queue.numbered b hmem, fun b' hb' => h.queue.numbered b' (hold b' hb')⟩
    · rw [hready]
      exact nodup_cons.mpr hdistinct
    · rw [hready]
      exact forall_mem_cons.mpr ⟨hmore, fun b' hb' => h.queue.unfinished b' (hold b' hb')⟩
    · rw [hready]
      exact hlater
    · simp only [WsClient.headPart, hready, hframes, hwritten]
      exact hall
    · rw [hframes]
      exact h.range
    · rw [hready]
      exact forall_mem_cons.mpr ⟨h.unsent b hmem, fun b' hb' => h.unsent b' (hold b' hb')⟩
  rw [if_neg hmore] at hready
  rw [take_of_length_le (Nat.le_of_not_lt hmore), ← htag] at hall
  have hhalf : ¬ (c.sendRound (.bytes n)).halfSent := by
    rintro ⟨b', hb', hpos⟩
    rw [hready] at hb'
    exact absurd (hlater b' (mem_of_mem_head? hb')) (Nat.ne_of_gt hpos)
  refine ⟨ids ++ [b.no], [], ⟨?_, ?_, ?_, ?_⟩, ?_, ?_, ?_, ?_,
    .inl ⟨hcut'.trans hcut, (Sent.headPart_nil hhalf).symm⟩⟩
  · rw [hready, hframes]
    exact fun b' hb' => h.queue.numbered b' (hold b' hb')
  · rw [hready]
    exact hdistinct.2
  · rw [hready]
    exact fun b' hb' => h.queue.unfinished b' (hold b' hb')
  · rw [hready]
    exact fun b' hb' => hlater b' (mem_of_mem_tail hb')
  · rw [hframes, hwritten, flatMap_append, flatMap_singleton, append_nil]
    exact hall
  · exact nodup_snoc h.nodup (h.unsent b hmem)
  · rw [hframes]
    exact forall_mem_append.mpr ⟨h.range, forall_mem_singleton.mpr (h.queue.range hmem)⟩
  · rw [hready]
    intro b' hb' hid
    rcases mem_append.mp hid with hid | hid
    · exact h.unsent b' (hold b' hb') hid
    · rw [mem_singleton] at hid
      exact hdistinct.1 (hid ▸ mem_map_of_mem hb')

def Shrinks (c c' : WsClient) : Prop := c'.maxRxLen = c.maxRxLen ∧ c'.rxbuf.length ≤ c.rxbuf.length

theorem shrinks_sendData : Shrinks c (c.wsSendData type message key finFlag ret).1 := by
  have hsame : Shrinks c c := ⟨rfl, Nat.le_refl _⟩
  simp only [WsClient.wsSendData]
  split
  · exact hsame
  split
  · exact hsame
  split
  · split
    · exact hsame
    · exact ⟨rfl, Nat.zero_le _⟩
  · split <;> exact hsame

theorem shrinks_close : Shrinks c (c.wsClose ret) := by
  have hsame : Shrinks c c := ⟨rfl, Nat.le_refl _⟩
  simp only [WsClient.wsClose]
  split
  · exact hsame
  · split <;> exact hsame

theorem shrinks_dispatch : Shrinks c (c.dispatchRound writable ret key) := by
  have hsame : Shrinks c c := ⟨rfl, Nat.le_refl _⟩
  have hempty : c.maxRxLen = c.maxRxLen ∧ ([] : List UInt8).length ≤ c.rxbuf.length :=
    ⟨rfl, Nat.zero_le _⟩
  have hhandle : ∀ ws c', c.handleFrame ws ret key = some c' → Shrinks c c' := by
    intro ws c' hsome
    simp only [WsClient.handleFrame] at hsome
    split at hsome
    · cases hsome
      simp only [WsClient.receiveData]
      split <;> exact hsame
    split at hsome
    · cases hsome
      exact shrinks_sendData ..
    split at hsome
    · cases hsome
      exact hsame
    split at hsome
    · cases hsome
      exact shrinks_close ..
    · cases hsome
  simp only [WsClient.dispatchRound]
  split
  · exact hsame
  rename_i ws _
  split
  · split
    · exact hempty
    · exact hsame
  split
  · exact hempty
  split
  · exact hempty
  rename_i c' hsome
  obtain ⟨hmax, hlen⟩ := hhandle ws c' hsome
  refine ⟨hmax, Nat.le_trans ?_ hlen⟩
  simp only [length_drop]
  omega

theorem shrinks_send : Shrinks c (c.sendRound ret) := by
  have hsame : Shrinks c c := ⟨rfl, Nat.le_refl _⟩
  simp only [WsClient.sendRound]
  split
  · exact hsame
  split
  · exact ⟨rfl, Nat.zero_le _⟩
  split
  · exact hsame
  split
  · exact hsame
  · simp only [WsClient.recycle]
    split <;> exact hsame

theorem bounded_read (c : WsClient) (hbound : c.rxbuf.length ≤ c.maxRxLen + 16) :
    (c.readRound writable ret).maxRxLen = c.maxRxLen ∧
      (c.readRound writable ret).rxbuf.length ≤ c.maxRxLen + 16 := by
  have hempty : c.maxRxLen = c.maxRxLen ∧ ([] : List UInt8).length ≤ c.maxRxLen + 16 :=
    ⟨rfl, Nat.zero_le _⟩
  simp only [WsClient.readRound]
  split
  · exact hempty
  split
  · split <;> exact ⟨rfl, hbound⟩
  split
  · refine ⟨rfl, ?_⟩
    simp only [length_append, length_take]
    omega
  · split <;> exact hempty

theorem bounded_step (hbound : c.rxbuf.length ≤ c.maxRxLen + 16) :
    (clientStep c a).maxRxLen = c.maxRxLen ∧ (clientStep c a).rxbuf.length ≤ c.maxRxLen + 16 := by
  have hshrinks : ∀ c', Shrinks c c' →
      c'.maxRxLen = c.maxRxLen ∧ c'.rxbuf.length ≤ c.maxRxLen + 16 :=
    fun c' h => ⟨h.1, Nat.le_trans h.2 hbound⟩
  have hsame : Shrinks c c := ⟨rfl, Nat.le_refl _⟩
  cases a with
  | sendData type message key finFlag ret => exact hshrinks _ (shrinks_sendData ..)
  | close ret => exact hshrinks _ (shrinks_close ..)
  | poll sel =>
    refine hshrinks _ ?_
    simp only [clientStep, WsClient.pollEnter]
    split
    · split
      · exact hsame
      · exact ⟨rfl, Nat.zero_le _⟩
      · exact hsame
      split
      · exact hsame
      · exact ⟨rfl, Nat.zero_le _⟩
      · split <;> exact hsame
    · exact hsame
  | read ret =>
    simp only [clientStep]
    split
    · exact bounded_read c hbound
    · exact ⟨rfl, hbound⟩
  | dispatch ret key =>
    simp only [clientStep]
    split
    · exact hshrinks _ (shrinks_dispatch ..)
    · exact hshrinks _ hsame
  | send ret =>
    simp only [clientStep]
    split
    · exact hshrinks _ (shrinks_send ..)
    · exact hshrinks _ hsame

theorem encoded_append (henc : ∀ b ∈ c.frames, ∃ f : Frame, f.bytes = b) (more : List Frame) :
    ∀ b ∈ c.frames ++ more.map Frame.bytes, ∃ f : Frame, f.bytes = b := by
  intro b hb
  rcases mem_append.mp hb with hb | hb
  · exact henc b hb
  · obtain ⟨f, -, rfl⟩ := mem_map.mp hb
    exact ⟨f, rfl⟩

variable (h : Sending c)
include h

theorem Sending.rxbuf_lt : c.rxbuf.length < 2 ^ 32 := by
  have hbounded := h.bounded
  have hlimit := h.limit
  omega

theorem Sending.opened (hopened : c.readyState = .opened) : ∃ ids part, Sent c ids part := by
  refine h.sent.resolve_left fun hclosed => ?_
  rw [hopened] at hclosed
  cases hclosed.1

theorem Sending.queued (hqueue : c.readySendBuf ≠ []) : ∃ ids part, Sent c ids part :=
  h.sent.resolve_left fun hclosed => hqueue hclosed.2.1

/-- Under the condition the frames go on one after the other. -/
theorem Sending.step (htyped : a.Typed) (hcond : SendCond c a) : Sending (clientStep c a) := by
  obtain ⟨hmax, hlen⟩ := bounded_step h.bounded
  have hbounded : (clientStep c a).rxbuf.length ≤ (clientStep c a).maxRxLen + 16 := by rwa [hmax]
  have hlimit : (clientStep c a).maxRxLen + 16 < 2 ^ 31 := by
    rw [hmax]
    exact h.limit
  generalize hc' : clientStep c a = c' at hbounded hlimit
  have heffect := clientStep_effect h.rxbuf_lt htyped
  rw [hc'] at heffect
  cases heffect with
  | same hw heq hstate =>
    refine ⟨by rw [heq.frames]; exact h.encoded, hbounded, hlimit, ?_⟩
    rcases h.sent with ⟨hclosed, hqueue, hwhole⟩ | ⟨ids, part, hsent⟩
    · refine .inl ⟨hstate hclosed, heq.readySendBuf.trans hqueue, ?_⟩
      rw [heq.frames, heq.written]
      exact hwhole
    · exact .inr ⟨ids, part, hsent.congr heq⟩
  | pushed hw f hopened heq =>
    obtain ⟨ids, part, hsent⟩ := h.opened hopened
    refine ⟨?_, hbounded, hlimit, .inr ⟨ids, part, (hsent.push f.bytes_ne_nil).congr heq⟩⟩
    rw [heq.frames]
    exact encoded_append h.encoded [f]
  | direct f n hw hopened heq =>
    obtain ⟨ids, part, hsent⟩ := h.opened hopened
    obtain ⟨ids', part', hsent'⟩ := hsent.direct f (n := n) fun hn => by
      rw [if_neg (Nat.ne_of_gt hn)] at hw
      rw [SendCond, hw] at hcond
      exact hcond
    refine ⟨?_, hbounded, hlimit, .inr ⟨ids', part', hsent'.congr heq⟩⟩
    rw [heq.frames]
    exact encoded_append h.encoded [f]
  | closed hw more hstate hqueue hwritten hframes =>
    refine ⟨?_, hbounded, hlimit, .inl ⟨hstate, hqueue, ?_⟩⟩
    · rw [hframes]
      exact encoded_append h.encoded more
    · rw [hframes, hwritten]
      exact h.whole.2.append _
  | sent n hw hn hphase hqueue heq =>
    obtain ⟨ids, part, hsent⟩ := h.queued hqueue
    have hcut : c.cutShort = false := by
      rw [SendCond, hw] at hcond
      exact hcond
    obtain ⟨ids', part', hsent'⟩ := hsent.sendRound hqueue hcut hn
    obtain ⟨b, bs, hcons⟩ := exists_cons_of_ne_nil hqueue
    obtain ⟨data, -, -, -, hframes, -⟩ :=
      sendRound_cases hcons (hsent.queue.unfinished b (by simp [hcons])) hn
    subst heq
    exact ⟨by rw [hframes]; exact h.encoded, hbounded, hlimit, .inr ⟨ids', part', hsent'⟩⟩

theorem Sending.sendCond (htyped : a.Typed) (hwhole : FramesWhole (clientStep c a)) :
    SendCond c a := by
  cases clientStep_effect h.rxbuf_lt htyped with
  | same hw => simp [SendCond, hw]
  | pushed hw => simp [SendCond, hw]
  | closed hw => simp [SendCond, hw]
  | direct f n hw hopened heq =>
    by_cases hn : n = 0
    · simp [SendCond, hw, hn]
    rw [if_neg hn] at hw
    rw [SendCond, hw]
    obtain ⟨ids, part, hsent⟩ := h.opened hopened
    by_contra hnot
    have hopen : c.halfSent ∨ c.cutShort = true := by
      by_cases hhalf : c.halfSent
      · exact .inl hhalf
      · exact .inr (by simpa [hhalf] using hnot)
    refine hsent.not_whole_direct h.encoded f (Nat.pos_of_ne_zero hn) hopen ?_
    rw [← heq.frames, ← heq.written]
    exact hwhole.2
  | sent n hw hn hphase hqueue heq =>
    rw [SendCond, hw]
    obtain ⟨ids, part, hsent⟩ := h.queued hqueue
    by_contra hcut
    obtain ⟨b, bs, hcons⟩ := exists_cons_of_ne_nil hqueue
    have hmem : b ∈ c.readySendBuf := by simp [hcons]
    have hcut' : c.cutShort = true := by simpa using hcut
    obtain ⟨i, hi, hpart, hsome, hrest, hother⟩ := hsent.unfinished (.inr hcut')
    obtain ⟨data, hdata, -, hwritten, hframes, -⟩ :=
      sendRound_cases hcons (hsent.queue.unfinished b hmem) hn
    obtain ⟨byte, rest, rfl⟩ := exists_cons_of_ne_nil hdata
    have hsentWhole := hwhole.2
    rw [heq, hframes, hwritten, hsent.written, append_assoc] at hsentWhole
    exact not_sentWhole_mixed (nonempty_of_encoded h.encoded) hsent.range hpart hsome hrest
      (hother hcut' b hmem) _ hsentWhole

end Runs

/-- For every interleaving: the socket has taken the beginning of whole frames at all times exactly
    if a PONG or CLOSE is written only while no queued frame is half sent, and nothing behind one
    cut short. -/
theorem frames_whole_iff (set : Settings) (hlimit : set.maxRxLen + 16 < 2 ^ 31)
    (pending : List UInt8) {acts : List Action} (htyped : ∀ a ∈ acts, a.Typed) :
    Throughout clientStep FramesWhole (.connected set pending) acts ↔
      Along clientStep SendCond (.connected set pending) acts := by
  have hinit : Sending (.connected set pending) := by
    refine ⟨by simp [WsClient.connected], Nat.zero_le _, hlimit, .inr ⟨[], [], ?_⟩⟩
    refine ⟨⟨?_, ?_, ?_, ?_⟩, rfl, nodup_nil, ?_, ?_, .inl ⟨rfl, rfl⟩⟩ <;> simp [WsClient.connected]
  exact throughout_iff_along_under (fun _ h => h.whole)
    (fun _ _ h hop hcond => h.step hop hcond) (fun _ _ h hop hwhole => h.sendCond hop hwhole) hinit
    (along_of_forall fun a ha _ => htyped a ha)

/-- A ping of the server. -/
def serverPing : Frame := ⟨true, Frame.noRsv, .ping, none, [1, 2]⟩

/-- A text is queued; a poll sends all of it and another one answers a ping. -/
def sendThenPong (n : Nat) : List Action :=
  [.sendData .text [104, 105] (some #v[1, 2, 3, 4]) true (.bytes 0),
    .poll (.ready false true), .send (.bytes n), .send (.bytes 0),
    .poll (.ready true true), .read (.bytes 100), .read (.bytes 0),
      .dispatch (.bytes 100) #v[5, 6, 7, 8]]

theorem pong_behind_text :
    Throughout clientStep FramesWhole (.connected ⟨1000, 1000, 4, 2, 0⟩ serverPing.bytes)
      (sendThenPong 100) := by
  refine (frames_whole_iff ⟨1000, 1000, 4, 2, 0⟩ (by decide) _ ?_).mpr ?_
  · simp [sendThenPong, Action.Typed]
  · decide +kernel

/-- The socket has taken three bytes of the text when the ping is answered: the PONG lands
    inside of the text. -/
theorem pong_inside_text :
    ¬ FramesWhole ((sendThenPong 3).foldl clientStep
      (.connected ⟨1000, 1000, 4, 2, 0⟩ serverPing.bytes)) := by
  have hframes : ((sendThenPong 3).foldl clientStep
      (.connected ⟨1000, 1000, 4, 2, 0⟩ serverPing.bytes)).frames =
      [[129, 130, 1, 2, 3, 4, 105, 107], [138, 130, 5, 6, 7, 8, 4, 4]] := by decide +kernel
  have hwritten : ((sendThenPong 3).foldl clientStep
      (.connected ⟨1000, 1000, 4, 2, 0⟩ serverPing.bytes)).written =
      [(0, 129), (0, 130), (0, 1)] ++ (1, 138) ::
        [(1, 130), (1, 5), (1, 6), (1, 7), (1, 8), (1, 4), (1, 4)] := by decide +kernel
  rintro ⟨-, hwhole⟩
  rw [hframes, hwritten] at hwhole
  refine @not_sentWhole_mixed UInt8
    [[129, 130, 1, 2, 3, 4, 105, 107], [138, 130, 5, 6, 7, 8, 4, 4]] [] ?_ ?_ 0
    [(0, 129), (0, 130), (0, 1)] ?_ ?_ ?_ (1, 138) ?_ _ hwhole
  · decide
  · simp
  · decide
  · decide
  · decide
  · decide

end AmebaRtos.Websocket
