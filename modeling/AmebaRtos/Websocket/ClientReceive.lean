import AmebaRtos.Websocket.Client

/-!
# What the client receives

However the stream of the server is split over reads and over calls of `ws_poll`, the receive
callback is given the payload of every message. The opcode that it is given is the one of the
last frame of the message, which is the opcode of the message exactly if the message is not
fragmented.
-/

namespace AmebaRtos.Websocket

open Lib Lib.WebSocket List

/-! ### Frames, one after the other -/

/-- The call that a message should make. -/
def Call.ofMessage (m : Message) : Call := ⟨m.payload, m.payload.length, m.opcode.code⟩

def takeFrame (r : List Call × List UInt8) (f : Frame) : List Call × List UInt8 :=
  if f.opcode.isControl then r
  else if f.fin then
    (r.1 ++ [⟨r.2 ++ f.payload, (r.2 ++ f.payload).length, f.opcode.code⟩], [])
  else (r.1, r.2 ++ f.payload)

def deliver : List UInt8 → List Frame → List Call
  | _, [] => []
  | data, f :: fs =>
    if f.opcode.isControl then deliver data fs
    else if f.fin then
      ⟨data ++ f.payload, (data ++ f.payload).length, f.opcode.code⟩ :: deliver [] fs
    else deliver (data ++ f.payload) fs

theorem foldl_takeFrame (fs : List Frame) (calls : List Call) (data : List UInt8) :
    (fs.foldl takeFrame (calls, data)).1 = calls ++ deliver data fs := by
  induction fs generalizing calls data with
  | nil => simp [deliver]
  | cons f fs ih =>
    rw [foldl_cons, takeFrame, deliver]
    by_cases hcontrol : f.opcode.isControl
    · simp only [hcontrol]
      exact ih calls data
    by_cases hfin : f.fin
    · simp only [hcontrol, hfin, if_true, if_false, Bool.false_eq_true, ih, append_assoc,
        cons_append, nil_append]
    · simp only [hcontrol, hfin, if_false, Bool.false_eq_true, ih]

/-- No message ends with a continuation frame. -/
def Unfragmented (fs : List Frame) : Prop :=
  ∀ f ∈ fs, f.opcode = .continuation → f.fin = false
deriving Decidable

theorem unfragmented_cons :
    Unfragmented (f :: fs) ↔ (f.opcode = .continuation → f.fin = false) ∧ Unfragmented fs := by
  simp [Unfragmented]

def dataOf (current : Option Message) : List UInt8 := (current.map Message.payload).getD []

theorem extend_payload : (Message.extend current f).payload = dataOf current ++ f.payload := by
  cases current <;> rfl

theorem deliver_eq_iff (hwell : WellFormed current fs)
    (hstart : ∀ m ∈ current, m.opcode ≠ .continuation) :
    deliver (dataOf current) fs = (reassemble current fs).map Call.ofMessage ↔ Unfragmented fs := by
  induction fs generalizing current with
  | nil => simp [deliver, reassemble, Unfragmented]
  | cons f fs ih =>
    rw [WellFormed] at hwell
    rw [deliver, reassemble, unfragmented_cons]
    by_cases hcontrol : f.opcode.isControl
    · rw [if_pos hcontrol] at hwell
      have hne : f.opcode ≠ .continuation := by
        intro heq
        rw [heq] at hcontrol
        cases hcontrol
      simp only [hcontrol, if_true, ih hwell.2.2 hstart, hne, false_implies, true_and]
    rw [if_neg hcontrol] at hwell
    obtain ⟨hcontinues, hrest⟩ := hwell
    have hopcode : (Message.extend current f).opcode ≠ .continuation := by
      cases current with
      | none =>
        intro heq
        exact absurd (hcontinues.mp heq) Bool.false_ne_true
      | some m => exact hstart m rfl
    by_cases hfin : f.fin
    · rw [if_pos hfin] at hrest
      have hdeliver := @ih none hrest (by simp)
      -- the call has the opcode of the last frame
      have hcall : (⟨dataOf current ++ f.payload, (dataOf current ++ f.payload).length,
          f.opcode.code⟩ : Call) = Call.ofMessage (.extend current f) ↔
          f.opcode ≠ .continuation := by
        rw [Call.ofMessage, extend_payload, Call.mk.injEq]
        simp only [true_and]
        constructor
        · intro heq hcont
          exact hopcode ((Opcode.code_injective heq).symm.trans hcont)
        · intro hne
          cases current with
          | none => rfl
          | some m => exact absurd (hcontinues.mpr rfl) hne
      simp only [hcontrol, hfin, if_true, if_false, Bool.false_eq_true, map_cons,
        List.cons.injEq, hcall, Bool.true_eq_false]
      rw [← hdeliver]
      rfl
    · rw [if_neg hfin] at hrest
      have hdeliver := @ih (some (.extend current f)) hrest (by simpa using hopcode)
      have hdata : dataOf (some (Message.extend current f)) = dataOf current ++ f.payload :=
        extend_payload
      rw [hdata] at hdeliver
      simp only [hcontrol, hfin, if_false, Bool.false_eq_true, hdeliver]
      simp

/-! ### One step -/

def Action.Up : Action → Prop
  | .sendData _ _ _ _ ret => ret ≠ .failed
  | .close _ => False
  | .poll sel => sel ≠ .failed
  | .read ret => ret ≠ .failed
  | .dispatch ret _ => ret ≠ .failed
  | .send ret => ret ≠ .failed

structure SameRx (c c' : WsClient) : Prop where
  rxbuf : c'.rxbuf = c.rxbuf
  pending : c'.pending = c.pending
  calls : c'.calls = c.calls
  receivedData : c'.receivedData = c.receivedData
  maxRxLen : c'.maxRxLen = c.maxRxLen
  discarded : c'.enableWsMsgDiscarded = c.enableWsMsgDiscarded

section Steps

variable {c : WsClient}

theorem SameRx.refl (c : WsClient) : SameRx c c := ⟨rfl, rfl, rfl, rfl, rfl, rfl⟩

theorem sameRx_sendData (hret : ret ≠ .failed) (type : Opcode) (message : List UInt8)
    (key : Option Key) (finFlag : Bool) :
    SameRx c (c.wsSendData type message key finFlag ret).1 ∧
      (c.wsSendData type message key finFlag ret).1.phase = c.phase := by
  cases ret with
  | failed => exact absurd rfl hret
  | bytes n =>
    simp only [WsClient.wsSendData]
    split
    · exact ⟨.refl c, rfl⟩
    split
    · exact ⟨.refl c, rfl⟩
    split
    · exact ⟨⟨rfl, rfl, rfl, rfl, rfl, rfl⟩, rfl⟩
    · split
      · exact ⟨.refl c, rfl⟩
      · exact ⟨⟨rfl, rfl, rfl, rfl, rfl, rfl⟩, rfl⟩

theorem sameRx_close : SameRx c (c.wsClose ret) ∧ (c.wsClose ret).phase = c.phase := by
  simp only [WsClient.wsClose]
  split
  · exact ⟨.refl c, rfl⟩
  · cases ret <;> exact ⟨⟨rfl, rfl, rfl, rfl, rfl, rfl⟩, rfl⟩

theorem sameRx_send (hret : ret ≠ .failed) : SameRx c (c.sendRound ret) ∧
      ((c.sendRound ret).phase = c.phase ∨ (c.sendRound ret).phase = .idle) := by
  cases ret with
  | failed => exact absurd rfl hret
  | bytes n =>
    simp only [WsClient.sendRound]
    split
    · exact ⟨⟨rfl, rfl, rfl, rfl, rfl, rfl⟩, .inr rfl⟩
    split
    · exact ⟨⟨rfl, rfl, rfl, rfl, rfl, rfl⟩, .inr rfl⟩
    split
    · exact ⟨⟨rfl, rfl, rfl, rfl, rfl, rfl⟩, .inl rfl⟩
    · simp only [WsClient.recycle]
      split <;> exact ⟨⟨rfl, rfl, rfl, rfl, rfl, rfl⟩, .inl rfl⟩

/-- `c'` is `c` with the frame taken, and nothing else of its receiving side changed. -/
structure Takes (c : WsClient) (f : Frame) (c' : WsClient) : Prop where
  taken : (c'.calls, c'.receivedData) = takeFrame (c.calls, c.receivedData) f
  rxbuf : c'.rxbuf = c.rxbuf
  pending : c'.pending = c.pending
  maxRxLen : c'.maxRxLen = c.maxRxLen
  discarded : c'.enableWsMsgDiscarded = c.enableWsMsgDiscarded
  phase : c'.phase = c.phase

theorem takes_receiveData {f : Frame} (hdata : f.opcode.isControl = false) :
    Takes c f (c.receiveData f.fin f.opcode.code f.payload) := by
  refine ⟨?_, ?_, ?_, ?_, ?_, ?_⟩
  · rw [takeFrame, if_neg (by simp [hdata])]
    cases f.fin <;> rfl
  all_goals cases f.fin <;> rfl

theorem takes_control (h : SameRx c c' ∧ c'.phase = c.phase)
    (hcontrol : f.opcode.isControl = true) :
    Takes c f c' := by
  obtain ⟨h, hphase⟩ := h
  refine ⟨?_, h.rxbuf, h.pending, h.maxRxLen, h.discarded, hphase⟩
  rw [takeFrame, if_pos hcontrol, h.calls, h.receivedData]

theorem handleFrame_frame (hret : ret ≠ .failed) (key : Key) (hrx : c.rxbuf = f.bytes ++ more) :
    ∃ c', c.handleFrame (headerOf f) ret key = some c' ∧ Takes c f c' := by
  have hpayload : (headerOf f).payload c.rxbuf = f.payload := by rw [hrx, headerOf_payload]
  have hopcode : (headerOf f).opcode = f.opcode.code := rfl
  rw [WsClient.handleFrame, hpayload, hopcode]
  cases hop : f.opcode with
  | continuation | text | binary =>
    refine ⟨_, rfl, ?_⟩
    have htakes := @takes_receiveData c f (by rw [hop]; rfl)
    rw [hop] at htakes
    exact htakes
  | close => exact ⟨_, rfl, takes_control sameRx_close (by rw [hop]; rfl)⟩
  | ping => exact ⟨_, rfl, takes_control (sameRx_sendData hret ..) (by rw [hop]; rfl)⟩
  | pong => exact ⟨_, rfl, takes_control ⟨.refl c, rfl⟩ (by rw [hop]; rfl)⟩

end Steps

/-! ### Whole runs -/

/-- The frames `done` have been dispatched, and `rest` follows; outside of its loops `ws_poll`
    leaves no whole frame. -/
structure Receiving (limit : Nat) (tail : List UInt8) (c : WsClient) (done rest : List Frame) :
    Prop where
  bytes : c.rxbuf ++ c.pending = stream rest ++ tail
  taken : (c.calls, c.receivedData) = done.foldl takeFrame ([], [])
  room : c.rxbuf.length ≤ limit + 16
  maxRxLen : c.maxRxLen = limit
  kept : c.enableWsMsgDiscarded = false
  waiting : c.phase = .idle ∨ c.phase = .sending → ∀ f ∈ rest.head?, c.rxbuf.length < f.bytes.length

structure Finished (c : WsClient) (done rest : List Frame) : Prop where
  closed : c.readyState = .closed
  idle : c.phase = .idle
  calls : c.calls = (done.foldl takeFrame ([], [])).1
  empty : c.rxbuf = []
  complete : c.pending = [] → rest = []

def Received (limit : Nat) (tail : List UInt8) (fs : List Frame) (c : WsClient) : Prop :=
  ∃ done rest, fs = done ++ rest ∧ (Receiving limit tail c done rest ∨ Finished c done rest)

section Runs

variable {tail : List UInt8} {fs done rest : List Frame}

section

variable (h : Receiving limit tail c done rest)
include h

theorem Receiving.congr (hsame : SameRx c c')
    (hphase : c'.phase = .idle ∨ c'.phase = .sending → c.phase = .idle ∨ c.phase = .sending) :
    Receiving limit tail c' done rest := by
  refine ⟨?_, ?_, ?_, ?_, ?_, ?_⟩
  · rw [hsame.rxbuf, hsame.pending, h.bytes]
  · rw [hsame.calls, hsame.receivedData, h.taken]
  · rw [hsame.rxbuf]
    exact h.room
  · rw [hsame.maxRxLen, h.maxRxLen]
  · rw [hsame.discarded, h.kept]
  · rw [hsame.rxbuf]
    exact fun hwaiting => h.waiting (hphase hwaiting)

theorem Receiving.close (hidle : c.phase = .idle) : Finished c.clientClose done rest := by
  refine ⟨rfl, hidle, congrArg Prod.fst h.taken, rfl, ?_⟩
  intro hpending
  cases rest with
  | nil => rfl
  | cons f rest =>
    have hlt := h.waiting (.inl hidle) f rfl
    have hbytes := congrArg List.length h.bytes
    have hnil : c.pending = [] := hpending
    rw [hnil] at hbytes
    simp only [stream_cons, length_append, length_nil] at hbytes
    omega

theorem Receiving.front {next : Frame} (htail : tail <+: next.bytes)
    (hshort : tail.length < next.bytes.length) :
    (∃ f rest' more, rest = f :: rest' ∧ c.rxbuf = f.bytes ++ more) ∨
    ∃ f, (f ∈ rest ∨ f = next) ∧ (∀ g ∈ rest.head?, g = f) ∧ c.rxbuf <+: f.bytes ∧
      c.rxbuf.length < f.bytes.length := by
  have hinitial : c.rxbuf <+: stream rest ++ tail := ⟨c.pending, h.bytes⟩
  cases rest with
  | nil =>
    have hpart : c.rxbuf <+: tail := hinitial
    exact .inr ⟨next, .inr rfl, by simp, hpart.trans htail,
      Nat.lt_of_le_of_lt hpart.length_le hshort⟩
  | cons f rest =>
    rw [stream_cons, append_assoc] at hinitial
    by_cases hlt : c.rxbuf.length < f.bytes.length
    · exact .inr ⟨f, .inl (.head _), by simp,
        prefix_of_prefix_length_le hinitial (prefix_append _ _) (Nat.le_of_lt hlt), hlt⟩
    · obtain ⟨more, hmore⟩ := prefix_of_prefix_length_le (prefix_append f.bytes _) hinitial
        (Nat.le_of_not_lt hlt)
      exact .inl ⟨f, rest, more, rfl, hmore.symm⟩

theorem Receiving.read (hret : ret ≠ .failed) (hphase : c.phase = .reading writable) :
    Receiving limit tail (c.readRound writable ret) done rest := by
  cases ret with
  | failed => exact absurd rfl hret
  | bytes n =>
    simp only [WsClient.readRound, h.kept, if_true]
    split
    · exact { h with kept := rfl, waiting := by simp }
    have hroom := h.room
    have hlimit := h.maxRxLen
    refine { h with bytes := ?_, room := ?_, kept := rfl, waiting := by simp [hphase] }
    · have hdrop : c.pending.drop
          (c.pending.take (min n (min 1500 (c.maxRxLen + 16 - c.rxbuf.length)))).length =
          c.pending.drop (min n (min 1500 (c.maxRxLen + 16 - c.rxbuf.length))) := by
        rw [length_take]
        by_cases hle : min n (min 1500 (c.maxRxLen + 16 - c.rxbuf.length)) ≤ c.pending.length
        · rw [Nat.min_eq_left hle]
        · rw [Nat.min_eq_right (Nat.le_of_not_le hle), drop_length,
            drop_eq_nil_of_le (Nat.le_of_not_le hle)]
      simp only [hdrop, append_assoc, take_append_drop]
      exact h.bytes
    · simp only [length_append, length_take]
      omega

theorem Receiving.dispatch (hret : ret ≠ .failed) (key : Key) (hlimit : limit + 16 < 2 ^ 31)
    (hfits : ∀ f ∈ rest, f.payload.length ≤ limit) {next : Frame} (htail : tail <+: next.bytes)
    (hshort : tail.length < next.bytes.length) (hnext : next.payload.length ≤ limit)
    (hphase : c.phase = .dispatching writable) :
    ∃ done' rest', done ++ rest = done' ++ rest' ∧
      Receiving limit tail (c.dispatchRound writable ret key) done' rest' := by
  have hsize : ∀ f : Frame, f.payload.length ≤ limit →
      f.payload.length < 2 ^ 64 ∧ f.bytes.length < 2 ^ 64 := by
    intro f hf
    have hheader := f.length_header_le
    rw [f.length_bytes]
    omega
  rcases h.front htail hshort with ⟨f, rest', more, rfl, hrx⟩ | ⟨f, hmem, hhead, hinitial, hlt⟩
  · obtain ⟨hlen, htotal⟩ := hsize f (hfits f (.head _))
    have hws : wsHeader c.rxbuf = some (headerOf f) := by
      rw [hrx, Frame.bytes, append_assoc, wsHeader_header f hlen]
    have hN : ¬ (headerOf f).N > c.maxRxLen := by
      rw [h.maxRxLen]
      exact Nat.not_lt.mpr (hfits f (.head _))
    obtain ⟨c', hhandle, htakes⟩ := handleFrame_frame hret key hrx
    have hround : c.dispatchRound writable ret key =
        { c' with rxbuf := c'.rxbuf.drop (headerOf f).total } := by
      have hge : ¬ c.rxbuf.length < (headerOf f).total := by
        rw [headerOf_total f htotal, hrx, length_append]
        omega
      simp only [WsClient.dispatchRound, hws, hhandle, if_neg hge, hN, and_false, if_false]
    have hdrop : c'.rxbuf.drop (headerOf f).total = more := by
      rw [htakes.rxbuf, hrx, headerOf_total f htotal, drop_left]
    rw [hround]
    refine ⟨done ++ [f], rest', by simp, ?_, ?_, ?_, htakes.maxRxLen.trans h.maxRxLen,
      htakes.discarded.trans h.kept, ?_⟩
    · have hbytes := h.bytes
      rw [hrx, stream_cons, append_assoc, append_assoc] at hbytes
      simp only [hdrop, htakes.pending]
      exact append_cancel_left hbytes
    · rw [foldl_append, ← h.taken]
      exact htakes.taken
    · have hroom := h.room
      rw [hrx, length_append] at hroom
      simp only [hdrop]
      omega
    · simp [htakes.phase, hphase]
  · have hf : f.payload.length ≤ limit := by
      rcases hmem with hmem | rfl
      · exact hfits f hmem
      · exact hnext
    obtain ⟨hlen, htotal⟩ := hsize f hf
    have hround : c.dispatchRound writable ret key = c.afterDispatch writable := by
      rcases wsHeader_part f hlen hinitial hlt with hws | hws
      · simp only [WsClient.dispatchRound, hws]
      have hN : ¬ (headerOf f).N > c.maxRxLen := by
        rw [h.maxRxLen]
        exact Nat.not_lt.mpr hf
      rw [← headerOf_total f htotal] at hlt
      simp only [WsClient.dispatchRound, hws, if_pos hlt, if_neg hN]
    rw [hround]
    refine ⟨done, rest, rfl, { h with waiting := ?_ }⟩
    intro _ g hg
    rw [hhead g hg]
    exact hlt

theorem Receiving.poll (hidle : c.phase = .idle) (hsel : sel ≠ .failed) :
    Receiving limit tail (c.pollEnter sel) done rest ∨ Finished (c.pollEnter sel) done rest := by
  have hwaiting := h.waiting (.inl hidle)
  simp only [WsClient.pollEnter]
  split
  · exact .inl h
  · exact .inr (h.close hidle)
  · exact .inl h
  cases sel with
  | timeout => exact .inl h
  | failed => exact absurd rfl hsel
  | ready readable writable =>
    cases readable with
    | true => exact .inl { h with waiting := by simp }
    | false => exact .inl { h with waiting := fun _ => hwaiting }

end

theorem Finished.step (h : Finished c done rest) (ha : a.Up) :
    Finished (clientStep c a) done rest := by
  have hnot : c.readyState ≠ .opened := by
    rw [h.closed]
    exact ReadyState.noConfusion
  cases a with
  | sendData type message key finFlag ret =>
    have hsame : (clientStep c (.sendData type message key finFlag ret)) = c := by
      simp only [clientStep, WsClient.wsSendData, if_pos hnot]
    rw [hsame]
    exact h
  | close ret => exact absurd ha id
  | poll sel =>
    have hsame : (clientStep c (.poll sel)) = c := by
      simp only [clientStep, WsClient.pollEnter, h.closed, ite_self]
    rw [hsame]
    exact h
  | read ret =>
    simp only [clientStep, h.idle]
    exact h
  | dispatch ret key =>
    simp only [clientStep, h.idle]
    exact h
  | send ret =>
    simp only [clientStep, h.idle]
    exact h

section Stream

variable (hlimit : limit + 16 < 2 ^ 31) (hfits : ∀ f ∈ fs, f.payload.length ≤ limit) {next : Frame}
  (htail : tail <+: next.bytes) (hshort : tail.length < next.bytes.length)
  (hnext : next.payload.length ≤ limit)
include hlimit hfits htail hshort hnext

/-- After each action a frame is dispatched or still to come. -/
theorem Received.step (h : Received limit tail fs c) (ha : a.Up) :
    Received limit tail fs (clientStep c a) := by
  obtain ⟨done, rest, rfl, h | h⟩ := h
  · have hkeep : Receiving limit tail c done rest → Received limit tail (done ++ rest) c :=
      fun h => ⟨done, rest, rfl, .inl h⟩
    cases a with
    | sendData type message key finFlag ret =>
      obtain ⟨hsame, hphase⟩ := @sameRx_sendData c ret ha type message key finFlag
      refine ⟨done, rest, rfl, .inl (h.congr hsame ?_)⟩
      exact fun hwaiting => hphase ▸ hwaiting
    | close ret => exact absurd ha id
    | poll sel =>
      simp only [clientStep]
      split
      · rename_i hidle
        rcases h.poll hidle ha with h | h
        · exact ⟨done, rest, rfl, .inl h⟩
        · exact ⟨done, rest, rfl, .inr h⟩
      · exact hkeep h
    | read ret =>
      simp only [clientStep]
      split
      · rename_i hphase
        exact ⟨done, rest, rfl, .inl (h.read ha hphase)⟩
      · exact hkeep h
    | dispatch ret key =>
      simp only [clientStep]
      split
      · rename_i hphase
        have hrest : ∀ f ∈ rest, f.payload.length ≤ limit := fun f hf =>
          hfits f (mem_append_right done hf)
        obtain ⟨done', rest', hsplit, h'⟩ :=
          h.dispatch ha key hlimit hrest htail hshort hnext hphase
        exact ⟨done', rest', hsplit, .inl h'⟩
      · exact hkeep h
    | send ret =>
      simp only [clientStep]
      split
      · rename_i hphase
        exact ⟨done, rest, rfl, .inl (h.congr (sameRx_send ha).1 fun _ => .inr hphase)⟩
      · exact hkeep h
  · exact ⟨done, rest, rfl, .inr (h.step ha)⟩

theorem Received.run (set : Settings) (hset : set.maxRxLen = limit) {acts : List Action}
    (hacts : ∀ a ∈ acts, a.Up) :
    Received limit tail fs (acts.foldl clientStep (.connected set (stream fs ++ tail))) := by
  have hinit : Received limit tail fs (.connected set (stream fs ++ tail)) := by
    refine ⟨[], fs, rfl, .inl ⟨rfl, rfl, Nat.zero_le _, hset, rfl, ?_⟩⟩
    intro _ f _
    exact length_pos_iff.mpr f.bytes_ne_nil
  generalize WsClient.connected set (stream fs ++ tail) = c at hinit
  induction acts generalizing c with
  | nil => exact hinit
  | cons a acts ih =>
    exact ih (fun b hb => hacts b (.tail a hb)) _
      (hinit.step hlimit hfits htail hshort hnext (hacts a (.head _)))

end Stream

end Runs

/-! ### The main result -/

/-- For a stream of frames that fit: there is room to read on between polls, and once all is read
    the calls of the callback are the messages, in order, exactly if none is fragmented. -/
theorem callbacks_iff (set : Settings) (hlimit : set.maxRxLen + 16 < 2 ^ 31) {fs : List Frame}
    (hwell : WellFormed none fs) (hfits : ∀ f ∈ fs, f.payload.length ≤ set.maxRxLen)
    {tail : List UInt8} {next : Frame} (htail : tail <+: next.bytes)
    (hshort : tail.length < next.bytes.length) (hnext : next.payload.length ≤ set.maxRxLen)
    {acts : List Action} (hacts : ∀ a ∈ acts, a.Up)
    (hidle : (acts.foldl clientStep (.connected set (stream fs ++ tail))).phase = .idle) :
    (acts.foldl clientStep (.connected set (stream fs ++ tail))).rxbuf.length < set.maxRxLen + 16 ∧
    ((acts.foldl clientStep (.connected set (stream fs ++ tail))).pending = [] →
      ((acts.foldl clientStep (.connected set (stream fs ++ tail))).calls =
          (reassemble none fs).map Call.ofMessage ↔
        Unfragmented fs)) := by
  have hrun := Received.run hlimit hfits htail hshort hnext set rfl hacts
  generalize acts.foldl clientStep (.connected set (stream fs ++ tail)) = c at hidle hrun ⊢
  have hend : ∀ done rest, WellFormed none (done ++ rest) → rest = [] →
      c.calls = deliver (dataOf none) done →
      (c.calls = (reassemble none (done ++ rest)).map Call.ofMessage ↔
        Unfragmented (done ++ rest)) := by
    rintro done _ hwell rfl hcalls
    rw [append_nil] at hwell ⊢
    rw [hcalls]
    exact deliver_eq_iff hwell (by simp)
  obtain ⟨done, rest, rfl, h | h⟩ := hrun
  · have hwaiting := h.waiting (.inl hidle)
    rcases h.front htail hshort with ⟨f, rest', more, rfl, hrx⟩ | ⟨f, hmem, -, -, hlt⟩
    · have hlt := hwaiting f rfl
      rw [hrx, length_append] at hlt
      exact absurd hlt (by omega)
    have hf : f.payload.length ≤ set.maxRxLen := by
      rcases hmem with hmem | rfl
      · exact hfits f (mem_append_right done hmem)
      · exact hnext
    have hheader := f.length_header_le
    rw [f.length_bytes] at hlt
    refine ⟨by omega, fun hpending => hend _ _ hwell ((h.close hidle).complete hpending) ?_⟩
    have htaken := congrArg Prod.fst h.taken
    rw [foldl_takeFrame] at htaken
    exact htaken
  · rw [h.empty]
    refine ⟨by simp, fun hpending => hend _ _ hwell (h.complete hpending) ?_⟩
    rw [h.calls, foldl_takeFrame]
    rfl

/-- A text and a ping. -/
def greeting : List Frame :=
  [⟨true, Frame.noRsv, .text, none, [104, 105]⟩, ⟨true, Frame.noRsv, .ping, none, []⟩]

/-- A text in two fragments. -/
def twoFragments : List Frame :=
  [⟨false, Frame.noRsv, .text, none, [104]⟩, ⟨true, Frame.noRsv, .continuation, none, [105]⟩]

/-- One call of `ws_poll` that reads what there is and dispatches two frames. -/
def onePoll : List Action :=
  [.poll (.ready true true), .read (.bytes 100), .read (.bytes 0)] ++
    List.replicate 3 (.dispatch (.bytes 100) #v[2, 2, 2, 2]) ++ [.send (.bytes 0)]

theorem greeting_received :
    (onePoll.foldl clientStep (.connected ⟨1000, 1000, 4, 2, 0⟩ (stream greeting ++ []))).calls =
      (reassemble none greeting).map Call.ofMessage := by
  have hacts : ∀ a ∈ onePoll, a.Up := by simp [onePoll, Action.Up]
  have hresult := @callbacks_iff ⟨1000, 1000, 4, 2, 0⟩ (by decide) greeting (by decide) (by decide)
    [] ⟨true, Frame.noRsv, .ping, none, []⟩ nil_prefix (by decide) (by decide) onePoll hacts
    (by decide +kernel)
  exact (hresult.2 (by decide +kernel)).mpr (by decide)

/-- A message in two fragments is given to the callback as a continuation. -/
theorem fragments_lose_opcode :
    (onePoll.foldl clientStep (.connected ⟨1000, 1000, 4, 2, 0⟩ (stream twoFragments))).calls =
      [⟨[104, 105], 2, CONTINUATION⟩] ∧
    (reassemble none twoFragments).map Call.ofMessage = [⟨[104, 105], 2, TEXT_FRAME⟩] ∧
    (onePoll.foldl clientStep (.connected ⟨1000, 1000, 4, 2, 0⟩ (stream twoFragments))).pending =
      [] ∧
    (onePoll.foldl clientStep (.connected ⟨1000, 1000, 4, 2, 0⟩ (stream twoFragments))).phase =
      .idle := by
  decide +kernel

end AmebaRtos.Websocket
