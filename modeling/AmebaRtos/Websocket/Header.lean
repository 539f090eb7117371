import AmebaRtos.Lib.WebSocket

/-!
# The frame header

`ws_dispatchBinary` of the client and `ws_server_dispatchBinary` of the server take the header
of a frame apart in the same way. The length is a 64-bit number, the size of the header and
the length are added in 64 bits.
-/

namespace AmebaRtos.Websocket

open Lib Lib.WebSocket List

def CONTINUATION : UInt8 := 0x0
def TEXT_FRAME : UInt8 := 0x1
def BINARY_FRAME : UInt8 := 0x2
def CLOSE : UInt8 := 0x8
def PING : UInt8 := 0x9
def PONG : UInt8 := 0xA

/-- `struct wsheader_type`; the masking key is read only if there is a mask. -/
structure WsHeader where
  headerSize : Nat
  fin : Bool
  mask : Bool
  opcode : UInt8
  N : Nat
  maskingKey : Key
deriving DecidableEq

/-- The four bytes from `i` on. -/
def keyAt (data : List UInt8) (i : Nat) : Key := Vector.ofFn fun j => data.getD (i + j.val) 0

def wsHeader (data : List UInt8) : Option WsHeader :=
  if data.length < 2 then none
  else
    let mask := data.getD 1 0 &&& 0x80 == 0x80
    let n0 := (data.getD 1 0 &&& 0x7f).toNat
    let headerSize :=
      2 + (if n0 = 126 then 2 else 0) + (if n0 = 127 then 8 else 0) + (if mask then 4 else 0)
    if data.length < headerSize then none
    else
      let i := if n0 < 126 then 2 else if n0 = 126 then 4 else 10
      some
        { headerSize := headerSize
          fin := data.getD 0 0 &&& 0x80 == 0x80
          mask := mask
          opcode := data.getD 0 0 &&& 0x0f
          N := if n0 < 126 then n0 else fromBE ((data.drop 2).take (i - 2))
          maskingKey := if mask then keyAt data i else #v[0, 0, 0, 0] }

def noKey : Key := #v[0, 0, 0, 0]

/-- `ws.header_size + ws.N`. -/
def WsHeader.total (ws : WsHeader) : Nat := (ws.headerSize + ws.N) % 2 ^ 64

/-- The payload behind the header, without its mask. -/
def WsHeader.payload (ws : WsHeader) (data : List UInt8) : List UInt8 :=
  if ws.mask then applyMask ws.maskingKey ((data.drop ws.headerSize).take ws.N)
  else (data.drop ws.headerSize).take ws.N

/-! ### Headers of frames -/

theorem firstByte_fin (op : Opcode) : (Frame.firstByte fin rsv op.code &&& 0x80 == 0x80) = fin := by
  revert fin rsv
  cases op <;> decide

theorem firstByte_opcode (op : Opcode) : Frame.firstByte fin rsv op.code &&& 0x0f = op.code := by
  revert fin rsv
  cases op <;> decide

theorem secondByte_mask (hn : n < 128) : (Frame.secondByte masked n &&& 0x80 == 0x80) = masked := by
  have hall : ∀ masked : Bool, ∀ n : Fin 128,
      (Frame.secondByte masked n.val &&& 0x80 == 0x80) = masked := by decide +kernel
  exact hall masked ⟨n, hn⟩

theorem secondByte_length (hn : n < 128) : (Frame.secondByte masked n &&& 0x7f).toNat = n := by
  have hall : ∀ masked : Bool, ∀ n : Fin 128,
      (Frame.secondByte masked n.val &&& 0x7f).toNat = n.val := by decide +kernel
  exact hall masked ⟨n, hn⟩

def headerOf (f : Frame) : WsHeader :=
  { headerSize := f.header.length
    fin := f.fin
    mask := f.key.isSome
    opcode := f.opcode.code
    N := f.payload.length
    maskingKey := f.key.getD #v[0, 0, 0, 0] }

section

variable (f : Frame)

theorem headerSize_eq : (2 + (if Frame.lengthCode f.payload.length = 126 then 2 else 0) +
      (if Frame.lengthCode f.payload.length = 127 then 8 else 0) +
        (if f.key.isSome then 4 else 0)) =
      f.header.length := by
  rw [Frame.length_header, Frame.lengthCode]
  by_cases hshort : f.payload.length < 126
  · have hne : f.payload.length ≠ 126 ∧ f.payload.length ≠ 127 := by omega
    simp [hshort, hne.1, hne.2]
  · by_cases hmiddle : f.payload.length < 65536 <;> simp [hshort, hmiddle]

theorem header_bytes (htwo : ¬ data.length < 2) (hinitial : data <+: f.header) :
    data.getD 1 0 = Frame.secondByte f.key.isSome (Frame.lengthCode f.payload.length) := by
  obtain ⟨rest, hrest⟩ := hinitial
  have hget : (data ++ rest).getD 1 0 = data.getD 1 0 := by
    rw [getD_eq_getElem?_getD, getD_eq_getElem?_getD,
      List.getElem?_append_left (Nat.le_of_not_lt htwo)]
  rw [← hget, hrest]
  rfl

theorem wsHeader_short (hinitial : data <+: f.header) (hlt : data.length < f.header.length) :
    wsHeader data = none := by
  rw [wsHeader]
  by_cases htwo : data.length < 2
  · rw [if_pos htwo]
  have hcode := Frame.lengthCode_lt f.payload.length
  rw [if_neg htwo]
  simp only [header_bytes f htwo hinitial, secondByte_mask hcode, secondByte_length hcode,
    headerSize_eq, if_pos hlt]

theorem keyStart_eq :
    (if Frame.lengthCode n < 126 then 2 else if Frame.lengthCode n = 126 then 4 else 10) =
      2 + (Frame.extendedLength n).length := by
  rw [Frame.lengthCode, Frame.extendedLength]
  by_cases hshort : n < 126
  · simp [hshort]
  · by_cases hmiddle : n < 65536 <;> simp [hshort, hmiddle]

theorem length_eq (hlen : n < 2 ^ 64) :
    (if Frame.lengthCode n < 126 then Frame.lengthCode n
      else fromBE (Frame.extendedLength n)) = n := by
  rw [Frame.lengthCode, Frame.extendedLength]
  by_cases hshort : n < 126
  · simp [hshort]
  · by_cases hmiddle : n < 65536
    · simp [hshort, hmiddle, fromBE_toBE (show n < 256 ^ 2 by omega)]
    · simp [hshort, hmiddle, fromBE_toBE (show n < 256 ^ 8 by omega)]

theorem wsHeader_header (hlen : f.payload.length < 2 ^ 64) (rest : List UInt8) :
    wsHeader (f.header ++ rest) = some (headerOf f) := by
  have hcode := Frame.lengthCode_lt f.payload.length
  have htwo : ¬ (f.header ++ rest).length < 2 := by
    have := f.two_le_length_header
    rw [length_append]
    omega
  have hzero : (f.header ++ rest).getD 0 0 = Frame.firstByte f.fin f.rsv f.opcode.code := rfl
  have hone : (f.header ++ rest).getD 1 0 =
      Frame.secondByte f.key.isSome (Frame.lengthCode f.payload.length) := rfl
  have hext : ((f.header ++ rest).drop 2).take (Frame.extendedLength f.payload.length).length =
      Frame.extendedLength f.payload.length := by
    simp [Frame.header]
  have hkey : ∀ key ∈ f.key,
      keyAt (f.header ++ rest) (2 + (Frame.extendedLength f.payload.length).length) = key := by
    intro key hkey
    have hsome : f.key = some key := hkey
    apply Vector.ext
    intro j hj
    rw [keyAt, Vector.getElem_ofFn, add_assoc, add_comm 2]
    simp [Frame.header, hsome,
      List.getElem?_append_right (Nat.le_add_right _ j), List.getElem?_append_left, hj]
  rw [wsHeader, if_neg htwo]
  simp only [hzero, hone, secondByte_mask hcode, secondByte_length hcode, firstByte_fin,
    firstByte_opcode, headerSize_eq, keyStart_eq, Nat.add_sub_cancel_left, hext,
    length_eq hlen]
  rcases Option.eq_none_or_eq_some f.key with hf | ⟨key, hf⟩
  · simp [headerOf, hf]
  · simp [headerOf, hf, hkey key hf]

theorem wsHeader_part (hlen : f.payload.length < 2 ^ 64) (hinitial : data <+: f.bytes)
    (hlt : data.length < f.bytes.length) :
    wsHeader data = none ∨ wsHeader data = some (headerOf f) := by
  by_cases hheader : data.length < f.header.length
  · left
    refine wsHeader_short f ?_ hheader
    exact prefix_of_prefix_length_le hinitial (prefix_append _ _) (Nat.le_of_lt hheader)
  right
  obtain ⟨rest, rfl⟩ := prefix_of_prefix_length_le (prefix_append f.header f.body) hinitial
    (Nat.le_of_not_lt hheader)
  exact wsHeader_header f hlen rest

theorem headerOf_total (hlen : f.bytes.length < 2 ^ 64) : (headerOf f).total = f.bytes.length := by
  rw [WsHeader.total, headerOf, ← Frame.length_bytes, Nat.mod_eq_of_lt hlen]

theorem headerOf_payload (rest : List UInt8) :
    (headerOf f).payload (f.bytes ++ rest) = f.payload := by
  have hbody : ((f.bytes ++ rest).drop f.header.length).take f.payload.length = f.body := by
    rw [Frame.bytes, append_assoc, drop_left, take_left' f.length_body]
  rw [WsHeader.payload, headerOf]
  simp only [hbody]
  rcases Option.eq_none_or_eq_some f.key with hf | ⟨key, hf⟩
  · simp [Frame.body, hf]
  · simp [Frame.body, hf]

end

/-! ### Frames are told apart -/

theorem firstByte_rsv {op : Opcode}
    (h : Frame.firstByte fin rsv op.code = Frame.firstByte fin rsv' op.code) : rsv = rsv' := by
  revert h fin rsv rsv'
  cases op <;> decide

theorem frame_unique {f g : Frame} (hf : f.payload.length < 2 ^ 64) (hg : g.payload.length < 2 ^ 64)
    (h : f.bytes ++ rest = g.bytes ++ rest') : f = g ∧ rest = rest' := by
  have hheader : headerOf f = headerOf g := by
    have hwf := wsHeader_header f hf (f.body ++ rest)
    have hwg := wsHeader_header g hg (g.body ++ rest')
    rw [← append_assoc] at hwf hwg
    exact Option.some.inj (hwf.symm.trans ((congrArg wsHeader h).trans hwg))
  have hpayload : f.payload = g.payload := by
    rw [← headerOf_payload f rest, h, hheader, headerOf_payload]
  have hfin : f.fin = g.fin := congrArg WsHeader.fin hheader
  have hopcode : f.opcode = g.opcode := Opcode.code_injective (congrArg WsHeader.opcode hheader)
  have hkey : f.key = g.key := by
    have hsome : f.key.isSome = g.key.isSome := congrArg WsHeader.mask hheader
    have hvalue : f.key.getD #v[0, 0, 0, 0] = g.key.getD #v[0, 0, 0, 0] :=
      congrArg WsHeader.maskingKey hheader
    rcases Option.eq_none_or_eq_some f.key with hf' | ⟨key, hf'⟩ <;>
      rcases Option.eq_none_or_eq_some g.key with hg' | ⟨key', hg'⟩ <;>
      rw [hf', hg'] at hsome hvalue ⊢
    · cases hsome
    · cases hsome
    · exact congrArg some hvalue
  have hrsv : f.rsv = g.rsv := by
    have hfirst : Frame.firstByte f.fin f.rsv f.opcode.code =
      Frame.firstByte g.fin g.rsv g.opcode.code :=
      head_eq_of_cons_eq h
    rw [hfin, hopcode] at hfirst
    exact firstByte_rsv hfirst
  have hsame : f = g := by
    cases f
    simp only at hfin hrsv hopcode hkey hpayload
    rw [hfin, hrsv, hopcode, hkey, hpayload]
  refine ⟨hsame, ?_⟩
  rw [hsame] at h
  exact append_cancel_left h

end AmebaRtos.Websocket
