import AmebaRtos.Lib.Memory

/-!
# Frames and messages of the WebSocket protocol

A frame has a header of two bytes, an extended length in network order, a masking key if the
frame is masked, and the payload, under the mask if there is one. A data message is a frame,
or a frame that is not final and the continuation frames up to the first final one; control
frames may stand between them.
-/

namespace AmebaRtos.Lib.WebSocket

open Lib

/-! ### Numbers in network order -/

def fromBE (bytes : List UInt8) : Nat := fromLE bytes.reverse

def toBE (width value : Nat) : List UInt8 := (toLE width value).reverse

@[simp] theorem length_toBE : (toBE width value).length = width := by
  simp [toBE]

theorem fromBE_toBE (hfits : value < 256 ^ width) : fromBE (toBE width value) = value := by
  rw [fromBE, toBE, List.reverse_reverse, fromLE_toLE hfits]

/-! ### Masks -/

abbrev Key := Vector UInt8 4

/-- Byte `i` is combined with byte `i % 4` of the key. -/
def applyMask (key : Key) (bytes : List UInt8) : List UInt8 :=
  bytes.mapIdx fun i byte => byte ^^^ key.get ⟨i % 4, Nat.mod_lt i (by decide)⟩

@[simp] theorem length_applyMask : (applyMask key bytes).length = bytes.length := by
  simp [applyMask]

@[simp] theorem applyMask_applyMask : applyMask key (applyMask key bytes) = bytes := by
  apply List.ext_getElem (by simp)
  intro i _ _
  simp only [applyMask, List.getElem_mapIdx, UInt8.xor_assoc, UInt8.xor_self, UInt8.xor_zero]

/-! ### Frames -/

inductive Opcode where
  | continuation
  | text
  | binary
  | close
  | ping
  | pong
deriving DecidableEq, Repr

namespace Opcode

def code : Opcode → UInt8
  | continuation => 0x0
  | text => 0x1
  | binary => 0x2
  | close => 0x8
  | ping => 0x9
  | pong => 0xA

def isControl : Opcode → Bool
  | close | ping | pong => true
  | _ => false

theorem code_injective {op op' : Opcode} (h : op.code = op'.code) : op = op' := by
  revert h
  cases op <;> cases op' <;> decide

end Opcode

structure Frame where
  fin : Bool
  rsv : Fin 8
  opcode : Opcode
  key : Option Key
  payload : List UInt8
deriving DecidableEq

namespace Frame

def noRsv : Fin 8 := 0

def lengthCode (n : Nat) : Nat := if n < 126 then n else if n < 65536 then 126 else 127

def extendedLength (n : Nat) : List UInt8 :=
  if n < 126 then [] else if n < 65536 then toBE 2 n else toBE 8 n

def firstByte (fin : Bool) (rsv : Fin 8) (code : UInt8) : UInt8 :=
  UInt8.ofNat ((if fin then 128 else 0) + rsv.val * 16 + code.toNat)

def secondByte (masked : Bool) (lengthCode : Nat) : UInt8 :=
  UInt8.ofNat ((if masked then 128 else 0) + lengthCode)

variable (f : Frame)

def header : List UInt8 :=
  firstByte f.fin f.rsv f.opcode.code :: secondByte f.key.isSome (lengthCode f.payload.length) ::
    (extendedLength f.payload.length ++ (f.key.map Vector.toList).getD [])

def body : List UInt8 :=
  match f.key with
  | none => f.payload
  | some key => applyMask key f.payload

def bytes : List UInt8 := f.header ++ f.body

@[simp] theorem length_body : f.body.length = f.payload.length := by
  rw [body]
  split <;> simp

theorem length_bytes : f.bytes.length = f.header.length + f.payload.length := by
  simp [bytes]

theorem length_payload_le : f.payload.length ≤ f.bytes.length := by
  rw [length_bytes]
  exact Nat.le_add_left _ _

theorem lengthCode_lt (n : Nat) : lengthCode n < 128 := by
  rw [lengthCode]
  split
  · omega
  · split <;> decide

theorem length_header : f.header.length =
    2 + (if f.payload.length < 126 then 0 else if f.payload.length < 65536 then 2 else 8) +
      (if f.key.isSome then 4 else 0) := by
  have hext : (extendedLength f.payload.length).length =
      if f.payload.length < 126 then 0 else if f.payload.length < 65536 then 2 else 8 := by
    rw [extendedLength]
    split
    · rfl
    · split <;> simp
  cases hkey : f.key with
  | none =>
    simp [header, hkey]
    omega
  | some key =>
    simp [header, hkey]
    omega

theorem two_le_length_header : 2 ≤ f.header.length := by
  rw [length_header]
  omega

theorem length_header_le : f.header.length ≤ 14 := by
  rw [length_header]
  split
  · split <;> omega
  · split <;> split <;> omega

theorem bytes_ne_nil : f.bytes ≠ [] := by
  simp [bytes, header]

end Frame

/-- The bytes of frames sent one after the other. -/
def stream (fs : List Frame) : List UInt8 := fs.flatMap Frame.bytes

@[simp] theorem stream_nil : stream [] = [] := rfl

@[simp] theorem stream_cons : stream (f :: fs) = f.bytes ++ stream fs := by
  simp [stream]

theorem stream_append : stream (fs ++ fs') = stream fs ++ stream fs' := by
  simp [stream]

/-! ### Messages -/

structure Message where
  opcode : Opcode
  payload : List UInt8
deriving DecidableEq

def Message.extend (current : Option Message) (f : Frame) : Message :=
  match current with
  | none => ⟨f.opcode, f.payload⟩
  | some m => ⟨m.opcode, m.payload ++ f.payload⟩

/-- The messages that end in these frames; the first frames may continue a message. -/
def reassemble : Option Message → List Frame → List Message
  | _, [] => []
  | current, f :: fs =>
    if f.opcode.isControl then reassemble current fs
    else if f.fin then .extend current f :: reassemble none fs
    else reassemble (some (.extend current f)) fs

/-- Control frames are short and final, a message starts with its opcode and goes on with
    continuation frames. -/
def WellFormed : Option Message → List Frame → Prop
  | _, [] => True
  | current, f :: fs =>
    if f.opcode.isControl then f.fin = true ∧ f.payload.length ≤ 125 ∧ WellFormed current fs
    else
      (f.opcode = .continuation ↔ current.isSome = true) ∧
        WellFormed (if f.fin then none else some (.extend current f)) fs

instance decidableWellFormed : ∀ current fs, Decidable (WellFormed current fs)
  | _, [] => isTrue trivial
  | current, f :: fs =>
    have := decidableWellFormed current fs
    have := decidableWellFormed (if f.fin then none else some (.extend current f)) fs
    inferInstanceAs (Decidable (ite _ (_ ∧ _ ∧ _) (_ ∧ _)))

end AmebaRtos.Lib.WebSocket
