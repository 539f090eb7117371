import AmebaRtos.Websocket.ClientReceive

/-!
# The WebSocket server

`ws_server_poll` reads once and `ws_server_dispatchBinary` takes the frames of the buffer. The
first frame empties the buffer, so that a part of a frame behind it is lost; a message in
fragments is not joined; and the payload of a PING is looked for at the front of the buffer.
Messages are delivered and PINGs answered in all runs in which none of this matters.

`pending` is what the client has sent and the server has not read; `pongs` are the payloads of the
PONG frames sent. The answer to a PING is written until the socket has taken all of it.
-/

namespace AmebaRtos.Websocket

open Lib Lib.WebSocket List

inductive ConnState where
  | closed
  | connecting
  | connected1
  | connected2
  | closing
deriving DecidableEq

/-- The receiving side of `ws_conn`, and the size of its buffer. -/
structure WsConn where
  rxSize : Nat
  state : ConnState
  rxbuf : List UInt8
  pending : List UInt8
  calls : List Call
  pongs : List (List UInt8)

/-- A connection behind the handshake. -/
def WsConn.accepted (rxSize : Nat) (pending : List UInt8) : WsConn :=
  ⟨rxSize, .connected1, [], pending, [], []⟩

def unmaskAt (buf : List UInt8) (start n : Nat) (key : Key) : List UInt8 :=
  buf.take start ++ applyMask key ((buf.drop start).take n) ++ buf.drop (start + n)

/-- `ws_server_dispatchBinary` from `dataStart` on; `pong` is the answer of the socket to a PONG.
    When a PONG with payload fails, the code closes the connection and goes on in the buffer that
    it has freed; the model stops there. -/
def dispatchBinary (pong : SockResult) : Nat → WsConn → List UInt8 → Nat → WsConn
  | 0, conn, _, _ => conn
  | fuel + 1, conn, buf, dataStart =>
    match wsHeader (buf.drop dataStart) with
    | none => conn
    | some ws =>
      if (buf.drop dataStart).length < ws.total then conn
      else
        let next := dataStart + ws.headerSize + ws.N
        if ws.opcode = TEXT_FRAME ∨ ws.opcode = BINARY_FRAME ∨ ws.opcode = CONTINUATION then
          let buf' :=
            if ws.mask then unmaskAt buf (dataStart + ws.headerSize) ws.N ws.maskingKey else buf
          let receivedData := (buf'.drop (dataStart + ws.headerSize)).take ws.N
          let calls :=
            if ws.fin then conn.calls ++ [⟨receivedData, ws.N, ws.opcode⟩] else conn.calls
          dispatchBinary pong fuel { conn with calls := calls, rxbuf := [] } buf' next
        else if ws.opcode = PING then
          -- the index does not count from `dataStart`
          let buf' := if ws.mask then unmaskAt buf ws.headerSize ws.N ws.maskingKey else buf
          if pong = .failed then { conn with state := .closed }
          else if ws.N > 0 then
            let pongs :=
              if conn.state = .closing ∨ conn.state = .closed then conn.pongs
              else conn.pongs ++ [(buf'.drop ws.headerSize).take ws.N]
            dispatchBinary pong fuel { conn with pongs := pongs, rxbuf := [] } buf' next
          else
            let pongs :=
              match pong with
              | .bytes n => if 2 ≤ n then conn.pongs ++ [[]] else conn.pongs
              | .failed => conn.pongs
            dispatchBinary pong fuel { conn with pongs := pongs, rxbuf := [] } buf' next
        else if ws.opcode = PONG then
          dispatchBinary pong fuel { conn with state := .connected1, rxbuf := [] } buf next
        else if ws.opcode = CLOSE then { conn with state := .closed }
        else dispatchBinary pong fuel { conn with rxbuf := [] } buf next

variable (conn : WsConn)

/-- What `ws_server_read` returns. -/
def WsConn.readData : SockResult → List UInt8
  | .failed => []
  | .bytes n => conn.pending.take (min n (min 1500 (conn.rxSize - conn.rxbuf.length)))

/-- The receiving part of `ws_server_poll`. -/
def serverPoll (ret pong : SockResult) : WsConn :=
  if ret = .failed then { conn with state := .closed }
  else if conn.readData ret = [] then conn
  else
    let buf := conn.rxbuf ++ conn.readData ret
    let conn' := dispatchBinary pong buf.length
      { conn with rxbuf := buf, pending := conn.pending.drop (conn.readData ret).length } buf 0
    if conn'.state = .closing then { conn' with state := .closed } else conn'

/-- The loop of `ws_server_conn_thread`: polls until the connection is closed. -/
def serverStep (rets : SockResult × SockResult) : WsConn :=
  if conn.state = .closed then conn else serverPoll conn rets.1 rets.2

variable (fs : List Frame)

/-! ### Whole frames in the buffer -/

def pings : List (List UInt8) :=
  (fs.filter fun f => decide (f.opcode = .ping)).map Frame.payload

def dataCalls : List Call :=
  (fs.filter fun f => !f.opcode.isControl).map fun f => ⟨f.payload, f.payload.length, f.opcode.code⟩

@[simp] theorem pings_append : pings (fs ++ gs) = pings fs ++ pings gs := by
  simp [pings]

@[simp] theorem dataCalls_append : dataCalls (fs ++ gs) = dataCalls fs ++ dataCalls gs := by
  simp [dataCalls]

def Single (f : Frame) : Prop :=
  f.opcode.isControl = false → f.fin = true ∧ f.opcode ≠ .continuation

theorem reassemble_single {fs : List Frame} (hsingle : ∀ f ∈ fs, Single f) :
    (reassemble none fs).map Call.ofMessage = dataCalls fs := by
  induction fs with
  | nil => rfl
  | cons f fs ih =>
    have hrest := ih fun g hg => hsingle g (.tail f hg)
    rw [reassemble]
    by_cases hcontrol : f.opcode.isControl
    · simpa [dataCalls, hcontrol] using hrest
    · have hfin := (hsingle f (.head _) (by simpa using hcontrol)).1
      simp only [hcontrol, hfin, if_true, if_false, Bool.false_eq_true, map_cons, hrest]
      simp [dataCalls, hcontrol, Call.ofMessage, Message.extend]

theorem drop_unmaskAt (hlen : start + n ≤ buf.length) :
    (unmaskAt buf start n key).drop (start + n) = buf.drop (start + n) := by
  have htake : (buf.take start ++ applyMask key ((buf.drop start).take n)).length = start + n := by
    simp only [length_append, length_take, length_applyMask, length_drop]
    omega
  rw [unmaskAt, drop_left' htake]

theorem window_unmaskAt (hlen : start + n ≤ buf.length) :
    ((unmaskAt buf start n key).drop start).take n = applyMask key ((buf.drop start).take n) := by
  have htake : (buf.take start).length = start := by
    rw [length_take]
    omega
  have hmid : (applyMask key ((buf.drop start).take n)).length = n := by
    simp only [length_applyMask, length_take, length_drop]
    omega
  rw [unmaskAt, append_assoc, drop_left' htake, take_left' hmid]

section Dispatch

variable {buf more : List UInt8} {g : Frame}

def unmasked (buf : List UInt8) (start : Nat) (g : Frame) : List UInt8 :=
  if g.key.isSome then
    unmaskAt buf (start + g.header.length) g.payload.length (g.key.getD noKey)
  else buf

theorem unmasked_frame (hbuf : buf.drop start = g.bytes ++ more) :
    ((unmasked buf start g).drop (start + g.header.length)).take g.payload.length = g.payload ∧
      (unmasked buf start g).drop (start + g.header.length + g.payload.length) = more := by
  have hbody : buf.drop (start + g.header.length) = g.body ++ more := by
    rw [← drop_drop, hbuf, Frame.bytes, append_assoc, drop_left]
  have hwindow : (buf.drop (start + g.header.length)).take g.payload.length = g.body := by
    rw [hbody, take_left' g.length_body]
  have hmore : buf.drop (start + g.header.length + g.payload.length) = more := by
    rw [← drop_drop, hbody, drop_left' g.length_body]
  have hlen : start + g.header.length + g.payload.length ≤ buf.length ∨ g.payload.length = 0 := by
    have hlength := congrArg List.length hbody
    simp only [length_drop, length_append, Frame.length_body] at hlength
    omega
  rw [unmasked]
  rcases Option.eq_none_or_eq_some g.key with hkey | ⟨key, hkey⟩
  · rw [hkey]
    refine ⟨?_, hmore⟩
    rw [Option.isSome_none, if_neg Bool.false_ne_true, hwindow, Frame.body, hkey]
  rw [hkey, Option.isSome_some, if_pos rfl, Option.getD_some]
  rcases hlen with hlen | hzero
  · refine ⟨?_, by rw [drop_unmaskAt hlen, hmore]⟩
    rw [window_unmaskAt hlen, hwindow, Frame.body, hkey]
    exact applyMask_applyMask
  rw [hzero] at hmore ⊢
  have hsame : unmaskAt buf (start + g.header.length) 0 key = buf := by
    simp [unmaskAt, applyMask]
  rw [hsame]
  exact ⟨by rw [length_eq_zero_iff.mp hzero]; rfl, hmore⟩

variable {conn : WsConn}

theorem wsHeader_frame (hsmall : g.bytes.length < 2 ^ 64)
    (hbuf : buf.drop start = g.bytes ++ more) :
    wsHeader (buf.drop start) = some (headerOf g) ∧
      ¬ (buf.drop start).length < (headerOf g).total := by
  constructor
  · rw [hbuf, Frame.bytes, append_assoc,
      wsHeader_header g (Nat.lt_of_le_of_lt g.length_payload_le hsmall)]
  · rw [headerOf_total g hsmall, hbuf, length_append]
    omega

section Kinds

variable (hsmall : g.bytes.length < 2 ^ 64) (hbuf : buf.drop start = g.bytes ++ more)
include hsmall hbuf

theorem dispatch_data (hdata : g.opcode.isControl = false) :
    dispatchBinary pong (fuel + 1) conn buf start = dispatchBinary pong fuel
        { conn with
          calls :=
            if g.fin then conn.calls ++ [⟨g.payload, g.payload.length, g.opcode.code⟩]
            else conn.calls
          rxbuf := [] }
        (unmasked buf start g) (start + g.header.length + g.payload.length) := by
  obtain ⟨hws, hge⟩ := wsHeader_frame hsmall hbuf
  have hopcode : (headerOf g).opcode = TEXT_FRAME ∨ (headerOf g).opcode = BINARY_FRAME ∨
      (headerOf g).opcode = CONTINUATION := by
    have hcode : (headerOf g).opcode = g.opcode.code := rfl
    rw [hcode]
    revert hdata
    cases g.opcode <;> decide
  have hpayload := (unmasked_frame hbuf).1
  simp only [dispatchBinary, hws, if_neg hge, if_pos hopcode]
  change dispatchBinary pong fuel { conn with
    calls := if g.fin then conn.calls ++
      [⟨((unmasked buf start g).drop (start + g.header.length)).take
      g.payload.length, g.payload.length, g.opcode.code⟩] else conn.calls
    rxbuf := [] } (unmasked buf start g) _ = _
  rw [hpayload]
  rfl

theorem dispatch_pong (hop : g.opcode = .pong) : dispatchBinary pong (fuel + 1) conn buf start =
      dispatchBinary pong fuel { conn with state := .connected1, rxbuf := [] } buf
        (start + g.header.length + g.payload.length) := by
  obtain ⟨hws, hge⟩ := wsHeader_frame hsmall hbuf
  have hcode : (headerOf g).opcode = PONG := congrArg Opcode.code hop
  simp only [dispatchBinary, hws, if_neg hge, hcode]
  rfl

theorem dispatch_close (hop : g.opcode = .close) :
    dispatchBinary pong (fuel + 1) conn buf start = { conn with state := .closed } := by
  obtain ⟨hws, hge⟩ := wsHeader_frame hsmall hbuf
  have hcode : (headerOf g).opcode = CLOSE := congrArg Opcode.code hop
  simp only [dispatchBinary, hws, if_neg hge, hcode]
  rfl

theorem dispatch_ping_empty (hop : g.opcode = .ping) (hempty : g.payload = []) (hn : 2 ≤ n) :
    dispatchBinary (.bytes n) (fuel + 1) conn buf start =
      dispatchBinary (.bytes n) fuel
        { conn with pongs := conn.pongs ++ [g.payload], rxbuf := [] } buf
        (start + g.header.length + g.payload.length) := by
  obtain ⟨hws, hge⟩ := wsHeader_frame hsmall hbuf
  have hcode : (headerOf g).opcode = PING := congrArg Opcode.code hop
  have hN : (headerOf g).N = 0 := by simp [headerOf, hempty]
  have hsame : ∀ key : Key, unmaskAt buf (headerOf g).headerSize 0 key = buf := fun key => by
    simp [unmaskAt, applyMask]
  simp only [dispatchBinary, hws, if_neg hge, hcode, hN, hsame, ite_self, if_pos hn, hempty]
  rfl

end Kinds

theorem dispatch_ping_first (hsmall : g.bytes.length < 2 ^ 64) (hbuf : buf.drop 0 = g.bytes ++ more)
    (hop : g.opcode = .ping) (hsome : g.payload ≠ []) (hpong : pong ≠ .failed)
    (hstate : ¬ (conn.state = .closing ∨ conn.state = .closed)) :
    dispatchBinary pong (fuel + 1) conn buf 0 =
      dispatchBinary pong fuel { conn with pongs := conn.pongs ++ [g.payload], rxbuf := [] }
        (unmasked buf 0 g) (0 + g.header.length + g.payload.length) := by
  obtain ⟨hws, hge⟩ := wsHeader_frame hsmall hbuf
  have hcode : (headerOf g).opcode = PING := congrArg Opcode.code hop
  have hN : (headerOf g).N > 0 := length_pos_iff.mpr hsome
  have hpayload := (unmasked_frame hbuf).1
  have hbuf' : (if (headerOf g).mask then
      unmaskAt buf (headerOf g).headerSize (headerOf g).N (headerOf g).maskingKey else buf) =
      unmasked buf 0 g := by
    rw [unmasked, zero_add]
    rfl
  have hwindow : ((unmasked buf 0 g).drop (headerOf g).headerSize).take (headerOf g).N =
    g.payload := by
    rw [zero_add] at hpayload
    exact hpayload
  simp only [dispatchBinary, hws, if_neg hge, hcode, if_neg hpong, if_pos hN, if_neg hstate, hbuf',
    hwindow]
  rfl

end Dispatch

structure Served (pong : SockResult) (first : Bool) (g : Frame) : Prop where
  single : Single g
  answered : g.opcode = .ping → pong ≠ .failed
  short : g.opcode = .ping → g.payload = [] → ∃ n, 2 ≤ n ∧ pong = .bytes n
  front : g.opcode = .ping → g.payload ≠ [] → first = true

def Plain (pong : SockResult) : Bool → List Frame → Prop
  | _, [] => True
  | first, g :: gs => Served pong first g ∧ (g.opcode = .close → gs = []) ∧ Plain pong false gs

theorem Plain.single {gs : List Frame} (h : Plain pong first gs) : ∀ g ∈ gs, Single g := by
  induction gs generalizing first with
  | nil => exact forall_mem_nil _
  | cons g gs ih => exact forall_mem_cons.mpr ⟨h.1.single, ih h.2.2⟩

structure Dispatched (conn : WsConn) (gs : List Frame) (conn' : WsConn) : Prop where
  size : conn'.rxSize = conn.rxSize
  pending : conn'.pending = conn.pending
  calls : conn'.calls = conn.calls ++ dataCalls gs
  pongs : conn'.pongs = conn.pongs ++ pings gs
  state : conn'.state = .closed ∨
    conn'.state = .connected1 ∧ conn'.rxbuf = if gs = [] then conn.rxbuf else []

theorem Dispatched.cons {conn conn₁ conn₂ : WsConn} {g : Frame} {gs : List Frame}
    (h : Dispatched conn [g] conn₁) (hempty : conn₁.rxbuf = [])
      (hrest : Dispatched conn₁ gs conn₂) :
    Dispatched conn (g :: gs) conn₂ where
  size := hrest.size.trans h.size
  pending := hrest.pending.trans h.pending
  calls := by
    rw [hrest.calls, h.calls, append_assoc, ← dataCalls_append, singleton_append]
  pongs := by
    rw [hrest.pongs, h.pongs, append_assoc, ← pings_append, singleton_append]
  state := by
    rcases hrest.state with hclosed | ⟨hstate, hrx⟩
    · exact .inl hclosed
    · refine .inr ⟨hstate, ?_⟩
      rw [hrx, hempty, ite_self, if_neg (cons_ne_nil g gs)]

theorem dispatch_plain {pong : SockResult} {first : Bool} {gs : List Frame}
    (hsmall : ∀ g ∈ gs, g.bytes.length < 2 ^ 64) (hplain : Plain pong first gs) {fuel : Nat}
    (hfuel : gs.length ≤ fuel) {conn : WsConn} (hstate : conn.state = .connected1)
      {buf : List UInt8}
    {start : Nat} (hstart : first = true → start = 0) (hbuf : buf.drop start = stream gs) :
    Dispatched conn gs (dispatchBinary pong fuel conn buf start) := by
  -- the induction is on the frames; the mask of each is taken off behind its own start
  induction gs generalizing first fuel conn buf start with
  | nil =>
    have hsame : dispatchBinary pong fuel conn buf start = conn := by
      cases fuel with
      | zero => rfl
      | succ fuel => simp [dispatchBinary, hbuf, wsHeader]
    rw [hsame]
    exact ⟨rfl, rfl, by simp [dataCalls], by simp [pings], .inr ⟨hstate, by rw [if_pos rfl]⟩⟩
  | cons g gs ih =>
    obtain ⟨hserved, hclose, hrest⟩ := hplain
    obtain ⟨hg, hgs⟩ := forall_mem_cons.mp hsmall
    rw [stream_cons] at hbuf
    have hkept : buf.drop (start + g.header.length + g.payload.length) = stream gs := by
      rw [add_assoc, ← g.length_bytes, ← drop_drop, hbuf, drop_left]
    have hunmasked := (unmasked_frame hbuf).2
    obtain ⟨fuel, rfl⟩ : ∃ n, fuel = n + 1 := ⟨fuel - 1, by simp at hfuel; omega⟩
    have hfuel' : gs.length ≤ fuel := by simpa using hfuel
    have hnext : ∀ conn₁ buf₁, Dispatched conn [g] conn₁ → conn₁.rxbuf = [] →
        conn₁.state = .connected1 →
        buf₁.drop (start + g.header.length + g.payload.length) = stream gs →
        Dispatched conn (g :: gs)
          (dispatchBinary pong fuel conn₁ buf₁ (start + g.header.length + g.payload.length)) :=
      fun conn₁ buf₁ hone hempty hstate₁ hbuf₁ =>
        hone.cons hempty (ih hgs hrest hfuel' hstate₁ (absurd · Bool.false_ne_true) hbuf₁)
    by_cases hdata : g.opcode.isControl = false
    · rw [dispatch_data hg hbuf hdata]
      have hping : g.opcode ≠ .ping := fun h => by simp [h, Opcode.isControl] at hdata
      have hcalls : dataCalls [g] = [⟨g.payload, g.payload.length, g.opcode.code⟩] := by
        simp [dataCalls, hdata]
      refine hnext _ _ ⟨rfl, rfl, ?_, ?_, .inr ⟨hstate, rfl⟩⟩ rfl hstate hunmasked
      · rw [hcalls, if_pos (hserved.single hdata).1]
      · simp [pings, hping]
    have hcalls : dataCalls [g] = [] := by simpa [dataCalls] using hdata
    have hnone : conn.calls = conn.calls ++ dataCalls [g] := by rw [hcalls, append_nil]
    by_cases hping : g.opcode = .ping
    · have hpings : pings [g] = [g.payload] := by simp [pings, hping]
      by_cases hempty : g.payload = []
      · obtain ⟨n, hn, rfl⟩ := hserved.short hping hempty
        rw [dispatch_ping_empty hg hbuf hping hempty hn]
        exact hnext _ _ ⟨rfl, rfl, hnone, by rw [hpings], .inr ⟨hstate, rfl⟩⟩ rfl hstate hkept
      · obtain rfl := hstart (hserved.front hping hempty)
        rw [dispatch_ping_first hg hbuf hping hempty (hserved.answered hping) (by simp [hstate])]
        exact hnext _ _ ⟨rfl, rfl, hnone, by rw [hpings], .inr ⟨hstate, rfl⟩⟩ rfl hstate hunmasked
    have hpings : pings [g] = [] := by simp [pings, hping]
    by_cases hpong : g.opcode = .pong
    · rw [dispatch_pong hg hbuf hpong]
      exact hnext _ _ ⟨rfl, rfl, hnone, by simp [hpings], .inr ⟨rfl, rfl⟩⟩ rfl rfl hkept
    have hclosed : g.opcode = .close := by
      revert hdata hping hpong
      cases g.opcode <;> simp [Opcode.isControl]
    obtain rfl := hclose hclosed
    rw [dispatch_close hg hbuf hclosed]
    exact ⟨rfl, rfl, hnone, by simp [hpings], .inl rfl⟩

theorem dispatch_part {conn : WsConn} {buf more : List UInt8} {g : Frame}
    (hsmall : g.bytes.length < 2 ^ 64) (hbuf : buf ++ more = g.bytes) (hmore : more ≠ []) :
    dispatchBinary pong fuel conn buf 0 = conn := by
  have hpart : buf <+: g.bytes := ⟨more, hbuf⟩
  have hlt : buf.length < g.bytes.length := by
    rw [← hbuf, length_append]
    exact Nat.lt_add_of_pos_right (length_pos_iff.mpr hmore)
  have hlen := Nat.lt_of_le_of_lt g.length_payload_le hsmall
  cases fuel with
  | zero => rfl
  | succ fuel =>
    rcases wsHeader_part g hlen hpart hlt with hws | hws
    · simp [dispatchBinary, hws]
    · simp [dispatchBinary, hws, headerOf_total g hsmall, hlt]

/-! ### The frames that have been read -/

theorem stream_split (hgs : ∀ g ∈ gs, g.payload.length < 2 ^ 64)
    (hrest : ∀ f ∈ rest, f.payload.length < 2 ^ 64) (h : stream gs ++ more = stream rest) :
    ∃ rest', rest = gs ++ rest' ∧ more = stream rest' := by
  induction gs generalizing rest with
  | nil => exact ⟨rest, rfl, h⟩
  | cons g gs ih =>
    rw [stream_cons, append_assoc] at h
    cases rest with
    | nil => exact absurd (append_eq_nil_iff.mp h).1 g.bytes_ne_nil
    | cons f rest =>
      rw [forall_mem_cons] at hgs hrest
      obtain ⟨rfl, hbehind⟩ := frame_unique hgs.1 hrest.1 h
      obtain ⟨rest', rfl, hmore⟩ := ih hgs.2 hrest.2 hbehind
      exact ⟨rest', rfl, hmore⟩

theorem part_lt {f g : Frame} {buf more pending : List UInt8} (hf : f.payload.length < 2 ^ 64)
    (hg : g.payload.length < 2 ^ 64) (hbuf : buf ++ more = g.bytes) (hmore : more ≠ [])
    (h : buf ++ pending = stream (f :: rest)) : buf.length < f.bytes.length := by
  by_contra hge
  obtain ⟨x, rfl⟩ := prefix_of_prefix_length_le ⟨_, rfl⟩ ⟨pending, h⟩ (Nat.le_of_not_lt hge)
  have hframe : f.bytes ++ (x ++ more) = g.bytes ++ [] := by
    rw [← append_assoc, hbuf, append_nil]
  obtain ⟨-, hnil⟩ := frame_unique hf hg hframe
  exact hmore (append_eq_nil_iff.mp hnil).2

theorem length_le_stream : gs.length ≤ (stream gs).length := by
  induction gs with
  | nil => exact Nat.le_refl _
  | cons g gs ih =>
    have hpos := length_pos_iff.mpr g.bytes_ne_nil
    simp only [stream_cons, length_cons, length_append]
    omega

theorem length_bytes_le_stream (hg : g ∈ gs) : g.bytes.length ≤ (stream gs).length := by
  obtain ⟨before, after, rfl⟩ := append_of_mem hg
  simp only [stream_append, stream_cons, length_append]
  omega

/-- The buffer holds a part of a frame, or whole frames that the server takes as the protocol
    wants. -/
def Settled (buf : List UInt8) (pong : SockResult) : Prop :=
  (∃ (g : Frame) (more : List UInt8), g.bytes.length < 2 ^ 64 ∧ more ≠ [] ∧ buf ++ more = g.bytes) ∨
    ∃ gs, buf = stream gs ∧ Plain pong true gs

def ServerCond (rets : SockResult × SockResult) : Prop :=
  conn.state = .closed ∨ rets.1 = .failed ∨ Settled (conn.rxbuf ++ conn.readData rets.1) rets.2

/-- The frames before `rest` have been taken, and the first frame of `rest` is not yet read. -/
structure Serving (rxSize : Nat) (done rest : List Frame) (c : WsConn) : Prop where
  single : ∀ f ∈ done, Single f
  calls : c.calls = dataCalls done
  pongs : c.pongs = pings done
  size : c.rxSize = rxSize
  short : ∀ f ∈ rest.head?, (stream rest).length < c.pending.length + f.bytes.length
  state : c.state = .closed ∨ c.state = .connected1 ∧ c.rxbuf ++ c.pending = stream rest

theorem Serving.accepted (rxSize : Nat) (fs : List Frame) :
    Serving rxSize [] fs (.accepted rxSize (stream fs)) where
  single := by simp
  calls := rfl
  pongs := rfl
  size := rfl
  short := by
    intro f _
    have hpos := length_pos_iff.mpr f.bytes_ne_nil
    simp only [WsConn.accepted]
    omega
  state := .inr ⟨rfl, rfl⟩

section Serving

variable (h : Serving rxSize done rest c)
include h

theorem Serving.closed : Serving rxSize done rest { c with state := .closed } :=
  { h with state := .inl rfl }

theorem Serving.room (hfits : ∀ f ∈ rest, f.bytes.length ≤ rxSize)
    (hopen : c.rxbuf ++ c.pending = stream rest) (hpending : c.pending ≠ []) :
    c.rxbuf.length < rxSize := by
  cases rest with
  | nil => exact absurd (append_eq_nil_iff.mp hopen).2 hpending
  | cons f rest =>
    have hshort := h.short f rfl
    rw [← hopen, length_append] at hshort
    have hf := hfits f (.head _)
    omega

variable (hsize : rxSize < 2 ^ 32) (hfits : ∀ f ∈ rest, f.bytes.length ≤ rxSize)
include hsize hfits

/-- One poll dispatches the whole frames that it has read. -/
theorem Serving.poll (hstate : c.state = .connected1) (hopen : c.rxbuf ++ c.pending = stream rest)
    {ret pong : SockResult} (hread : c.readData ret ≠ [])
    (hsettled : Settled (c.rxbuf ++ c.readData ret) pong) :
    ∃ gs rest', rest = gs ++ rest' ∧ Serving rxSize (done ++ gs) rest'
      (dispatchBinary pong (c.rxbuf ++ c.readData ret).length
        { c with
          rxbuf := c.rxbuf ++ c.readData ret
          pending := c.pending.drop (c.readData ret).length }
        (c.rxbuf ++ c.readData ret) 0) := by
  obtain ⟨n, hn⟩ : ∃ n, c.readData ret = c.pending.take (min n (rxSize - c.rxbuf.length)) := by
    cases ret with
    | failed => exact absurd rfl hread
    | bytes n => exact ⟨min n 1500, by rw [WsConn.readData, h.size, Nat.min_assoc]⟩
  have hpending : c.pending ≠ [] := fun hnil => hread (by rw [hn, hnil, take_nil])
  have hroom := h.room hfits hopen hpending
  have hall : c.readData ret ++ c.pending.drop (c.readData ret).length = c.pending := by
    rw [hn]
    exact prefix_iff_eq_append.mp <| take_prefix _ _
  have hlen : (c.rxbuf ++ c.readData ret).length ≤ rxSize := by
    rw [length_append, hn, length_take]
    omega
  have hbuf : (c.rxbuf ++ c.readData ret) ++ c.pending.drop (c.readData ret).length =
    stream rest := by
    rw [append_assoc, hall, hopen]
  have hpayload : ∀ f ∈ rest, f.payload.length < 2 ^ 64 := by
    intro f hf
    have hle := Nat.le_trans f.length_payload_le (hfits f hf)
    omega
  have hne : c.rxbuf ++ c.readData ret ≠ [] := by simp [hread]
  generalize c.rxbuf ++ c.readData ret = buf at hsettled hlen hbuf hne ⊢
  generalize c.pending.drop (c.readData ret).length = pending at hbuf ⊢
  rcases hsettled with ⟨g, more, hsmall, hmore, hpart⟩ | ⟨gs, rfl, hplain⟩
  · refine ⟨[], rest, rfl, ?_⟩
    rw [dispatch_part hsmall hpart hmore, append_nil]
    refine { h with short := ?_, state := .inr ⟨hstate, hbuf⟩ }
    intro f hf
    obtain ⟨rest', rfl⟩ := List.head?_eq_some_iff.mp hf
    have hlt := part_lt (hpayload f (.head _))
      (Nat.lt_of_le_of_lt g.length_payload_le hsmall) hpart hmore hbuf
    rw [← hbuf, length_append, add_comm]
    exact Nat.add_lt_add_left hlt pending.length
  have hsmall : ∀ g ∈ gs, g.bytes.length < 2 ^ 64 := by
    intro g hg
    have hle := length_bytes_le_stream hg
    omega
  have hgs : ∀ g ∈ gs, g.payload.length < 2 ^ 64 := fun g hg =>
    Nat.lt_of_le_of_lt g.length_payload_le (hsmall g hg)
  obtain ⟨rest', rfl, hpend⟩ := stream_split hgs hpayload hbuf
  have htaken := @dispatch_plain pong true gs hsmall hplain _ length_le_stream
    { c with rxbuf := stream gs, pending := pending } hstate (stream gs) 0 (fun _ => rfl) rfl
  refine ⟨gs, rest', rfl, forall_mem_append.mpr ⟨h.single, hplain.single⟩, ?_, ?_,
    htaken.size.trans h.size, ?_, ?_⟩
  · rw [htaken.calls, dataCalls_append, h.calls]
  · rw [htaken.pongs, pings_append, h.pongs]
  · intro f _
    have hpos := length_pos_iff.mpr f.bytes_ne_nil
    rw [htaken.pending, ← hpend]
    exact Nat.lt_add_of_pos_right hpos
  · rcases htaken.state with hclosed | ⟨hconnected, hrx⟩
    · exact .inl hclosed
    · have hsome : gs ≠ [] := fun hnil => hne (by rw [hnil]; rfl)
      refine .inr ⟨hconnected, ?_⟩
      rw [hrx, if_neg hsome, htaken.pending, nil_append, hpend]

theorem Serving.step {rets : SockResult × SockResult} (hcond : ServerCond c rets) :
    ∃ gs rest', rest = gs ++ rest' ∧ Serving rxSize (done ++ gs) rest' (serverStep c rets) := by
  have hsame : ∀ {c'}, Serving rxSize done rest c' →
      ∃ gs rest', rest = gs ++ rest' ∧ Serving rxSize (done ++ gs) rest' c' :=
    fun h' => ⟨[], rest, rfl, by rwa [append_nil]⟩
  rw [serverStep]
  by_cases hclosed : c.state = .closed
  · rw [if_pos hclosed]
    exact hsame h
  rw [if_neg hclosed, serverPoll]
  by_cases hfailed : rets.1 = .failed
  · rw [if_pos hfailed]
    exact hsame h.closed
  rw [if_neg hfailed]
  by_cases hread : c.readData rets.1 = []
  · rw [if_pos hread]
    exact hsame h
  rw [if_neg hread]
  obtain ⟨hstate, hopen⟩ := h.state.resolve_left hclosed
  have hsettled := (hcond.resolve_left hclosed).resolve_left hfailed
  obtain ⟨gs, rest', hsplit, hserving⟩ := h.poll hsize hfits hstate hopen hread hsettled
  refine ⟨gs, rest', hsplit, ?_⟩
  -- the state behind the dispatch is connected or closed
  rw [if_neg]
  · exact hserving
  · rcases hserving.state with hstate' | ⟨hstate', -⟩ <;> rw [hstate'] <;>
      exact ConnState.noConfusion

end Serving

/-- The messages of the frames read are delivered, their PINGs answered, and what is behind them can
    be read. -/
def Delivered (c : WsConn) : Prop :=
  ∃ done rest, fs = done ++ rest ∧ c.calls = (reassemble none done).map Call.ofMessage ∧
    c.pongs = pings done ∧
    (∀ f ∈ rest.head?, (stream rest).length < c.pending.length + f.bytes.length) ∧
    (c.pending ≠ [] → c.state = .closed ∨ c.rxbuf.length < c.rxSize)

/-- Every run of the server whose reads are settled delivers the messages and answers the PINGs
    of the frames that it has read. -/
theorem server_delivers {rxSize : Nat} (hsize : rxSize < 2 ^ 32) {fs : List Frame}
    (hfits : ∀ f ∈ fs, f.bytes.length ≤ rxSize) {polls : List (SockResult × SockResult)}
    (hcond : Along serverStep ServerCond (.accepted rxSize (stream fs)) polls) :
    Throughout serverStep (Delivered fs) (.accepted rxSize (stream fs)) polls := by
  have hrun : Throughout serverStep
      (fun c => ∃ done rest, fs = done ++ rest ∧ Serving rxSize done rest c)
      (.accepted rxSize (stream fs)) polls := by
    refine Along.throughout ?_ ⟨[], fs, rfl, .accepted rxSize fs⟩ hcond
    rintro c rets ⟨done, rest, rfl, h⟩ hc
    obtain ⟨gs, rest', rfl, h'⟩ :=
      h.step hsize (fun f hf => hfits f (mem_append_right done hf)) hc
    exact ⟨done ++ gs, rest', by rw [append_assoc], h'⟩
  refine hrun.mono ?_
  rintro c ⟨done, rest, rfl, h⟩
  refine ⟨done, rest, rfl, ?_, h.pongs, h.short, fun hpending => ?_⟩
  · rw [reassemble_single h.single, h.calls]
  · rcases h.state with hclosed | ⟨-, hopen⟩
    · exact .inl hclosed
    · rw [h.size]
      exact .inr (h.room (fun f hf => hfits f (mem_append_right done hf)) hopen hpending)

/-- A text of one byte as a client sends it. -/
def maskedText (b : UInt8) : Frame := ⟨true, Frame.noRsv, .text, some #v[1, 1, 1, 1], [b]⟩

/-- A ping of one byte as a client sends it. -/
def maskedPing (b : UInt8) : Frame := ⟨true, Frame.noRsv, .ping, some #v[5, 1, 1, 1], [b]⟩

/-- A text in one read and a ping in two. -/
def threeReads : List (SockResult × SockResult) :=
  [(.bytes 7, .bytes 2), (.bytes 3, .bytes 2), (.bytes 4, .bytes 2)]

theorem server_delivers_threeReads :
    Throughout serverStep (Delivered [maskedText 104, maskedPing 105])
      (.accepted 100 (stream [maskedText 104, maskedPing 105])) threeReads := by
  refine server_delivers (by decide) (by decide) ⟨?_, ?_, ?_, trivial⟩
  · refine .inr (.inr (.inr ⟨[maskedText 104], by decide +kernel,
      ⟨?_, ?_, ?_, ?_⟩, ?_, trivial⟩)) <;>
      simp [maskedText, Single]
  · exact .inr (.inr (.inl ⟨maskedPing 105, (maskedPing 105).bytes.drop 3, by decide +kernel⟩))
  · refine .inr (.inr (.inr ⟨[maskedPing 105], by decide +kernel,
      ⟨?_, ?_, ?_, ?_⟩, ?_, trivial⟩)) <;>
      simp [maskedPing, Single]

/-- The second text is lost if the first read ends inside it; a ping read with a text is answered
    with bytes of it. -/
theorem second_text_lost :
    (∀ f ∈ [maskedText 104, maskedText 105, maskedPing 106], f.key.isSome ∧ f.bytes.length ≤ 100) ∧
    ([(SockResult.bytes 10, SockResult.bytes 2), (.bytes 4, .bytes 2)].foldl serverStep
      (.accepted 100 (stream [maskedText 104, maskedText 105]))).pending = [] ∧
    ([(SockResult.bytes 10, SockResult.bytes 2), (.bytes 4, .bytes 2)].foldl serverStep
      (.accepted 100 (stream [maskedText 104, maskedText 105]))).calls = [⟨[104], 1, TEXT_FRAME⟩] ∧
    (reassemble none [maskedText 104, maskedText 105]).map Call.ofMessage =
      [⟨[104], 1, TEXT_FRAME⟩, ⟨[105], 1, TEXT_FRAME⟩] ∧
    (serverStep (.accepted 100 (stream [maskedText 104, maskedPing 106]))
      (.bytes 14, .bytes 2)).pongs =
      [[109]] := by
  decide +kernel

end AmebaRtos.Websocket
