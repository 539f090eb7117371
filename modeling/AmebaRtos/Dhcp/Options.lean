import Mathlib.Algebra.Group.Int.Defs
import Mathlib.Algebra.GroupWithZero.Nat
import AmebaRtos.Dhcp.Server

/-!
# The options of a message

RFC 2132 has two options of a single byte, PAD and END; all others have a code, a length and
a value. `dhcps_handle_msg_options` takes every byte that it comes to for the code of an option
with a length, goes on behind END, and compares only the start of an option with the end of the
packet.
-/

namespace AmebaRtos.Dhcp

open List

def DHCP_OPTION_CODE_PAD : UInt8 := 0

def optionsOffset : Nat := 240

structure Pbuf where
  bytes : Nat → UInt8
  len : UInt16

variable (p : Pbuf)

namespace Pbuf

def MagicOk : Prop :=
  p.bytes 236 = 0x63 ∧ p.bytes 237 = 0x82 ∧ p.bytes 238 = 0x53 ∧ p.bytes 239 = 0x63
deriving Decidable

def options (i : Nat) : UInt8 := p.bytes (optionsOffset + i)

/-- The bytes of the packet behind the cookie. -/
@[irreducible] def rest : Nat := p.len.toNat - optionsOffset

/-- `total_option_length`, an `int16_t`; a negative one is as good as 0. -/
def optionsLength : Nat := if p.rest < 2 ^ 15 then p.rest else 0

def parsed : UInt8 × Option Ip4 :=
  parseOptions p.options p.optionsLength p.optionsLength 0 (0, none)

end Pbuf

/-- The bytes behind the code that are read of an option. -/
def bytesRead (code : UInt8) : Nat :=
  if code = DHCP_OPTION_CODE_MSG_TYPE then 2
  else if code = DHCP_OPTION_CODE_REQUEST_IP_ADDRESS then 5 else 1

section Options

variable (options : Nat → UInt8) (length : Nat)

/-- Where the option behind the one at `start` is looked for. -/
def nextOption (start : Nat) : Nat := start + ((options (start + 1)).toNat + 2)

/-- The places that `parseOptions` reads. -/
def optionReads : Nat → Nat → List Nat
  | 0, _ => []
  | fuel + 1, start =>
    if start < length then
      List.range' start (bytesRead (options start) + 1) ++
        optionReads fuel (nextOption options start)
    else []

/-- The type and the address in well-formed options. -/
def rfcParse : Nat → Nat → UInt8 × Option Ip4 → Option (UInt8 × Option Ip4)
  | 0, _, _ => none
  | fuel + 1, start, found =>
    if length ≤ start then none
    else if options start = DHCP_OPTION_CODE_PAD then rfcParse fuel (start + 1) found
    else if options start = DHCP_OPTION_CODE_END then some found
    else if length < nextOption options start then none
    else if options start = DHCP_OPTION_CODE_MSG_TYPE then
      if options (start + 1) = 1 then
        rfcParse fuel (nextOption options start) (options (start + 2), found.2)
      else none
    else if options start = DHCP_OPTION_CODE_REQUEST_IP_ADDRESS then
      if options (start + 1) = 4 then
        rfcParse fuel (nextOption options start) (found.1, some ⟨options (start + 2),
          options (start + 3), options (start + 4), options (start + 5)⟩)
      else none
    else rfcParse fuel (nextOption options start) found

/-- Every option, PAD and END taken for ones with a length, has the bytes that are read. -/
def Chained : Nat → Nat → Prop
  | 0, _ => True
  | fuel + 1, start => start < length →
    start + bytesRead (options start) < length ∧ Chained fuel (nextOption options start)

/-- No option that the server looks at. -/
def Quiet : Nat → Nat → Prop
  | 0, _ => True
  | fuel + 1, start => start < length →
    options start ≠ DHCP_OPTION_CODE_MSG_TYPE ∧
      options start ≠ DHCP_OPTION_CODE_REQUEST_IP_ADDRESS ∧ Quiet fuel (nextOption options start)

/-- No PAD in front of END, and nothing to be found from END on. -/
def Plain : Nat → Nat → Prop
  | 0, _ => True
  | fuel + 1, start =>
    if options start = DHCP_OPTION_CODE_END then Quiet options length (fuel + 1) start
    else options start ≠ DHCP_OPTION_CODE_PAD ∧ Plain fuel (nextOption options start)

variable {options length}

theorem reads_inside_iff :
    (∀ i ∈ optionReads options length fuel start, i < length) ↔
      Chained options length fuel start := by
  induction fuel generalizing start with
  | zero => simp [optionReads, Chained]
  | succ fuel ih =>
    rw [optionReads, Chained]
    by_cases hstart : start < length
    · rw [if_pos hstart, forall_mem_append, ih, forall_prop_of_true hstart]
      refine and_congr_left fun _ => ?_
      simp only [mem_range'_1]
      exact ⟨fun h => h _ (by omega), fun h i hi => by omega⟩
    · simp [hstart]

theorem parseOptions_quiet (h : Quiet options length fuel start) :
    parseOptions options length fuel start found = found := by
  induction fuel generalizing start with
  | zero => rfl
  | succ fuel ih =>
    rw [parseOptions]
    by_cases hstart : start < length
    · obtain ⟨htype, hip, hquiet⟩ := h hstart
      rw [if_pos hstart, if_neg htype, if_neg hip]
      exact ih hquiet
    · rw [if_neg hstart]

theorem parseOptions_rfc (hrfc : rfcParse options length fuel start found = some r)
    (hplain : Plain options length fuel start) :
    parseOptions options length fuel start found = r := by
  induction fuel generalizing start found with
  | zero => cases hrfc
  | succ fuel ih =>
    rw [rfcParse] at hrfc
    rw [Plain] at hplain
    split_ifs at hrfc hplain with hstart hpad hend hend hpast htype hone hip hfour
    · exact absurd hpad (by rw [hend]; decide)
    · exact absurd hpad hplain.1
    · rw [parseOptions_quiet hplain]
      exact Option.some.inj hrfc
    all_goals rw [parseOptions, if_pos (Nat.lt_of_not_le hstart)]
    · rw [if_pos htype]
      exact ih hrfc hplain.2
    · rw [if_neg htype, if_pos hip]
      exact ih hrfc hplain.2
    · rw [if_neg htype, if_neg hip]
      exact ih hrfc hplain.2

end Options

/-! ### Packets -/

namespace Pbuf

/-- The places of a packet that are read: the address of the client, the cookie and the
    options. -/
def reads : List Nat :=
  List.range' 28 6 ++ (List.range' 236 4 ++ if p.MagicOk then
    (optionReads p.options p.optionsLength p.optionsLength 0).map (optionsOffset + ·) else [])

def rfcParsed : Option (UInt8 × Option Ip4) := rfcParse p.options p.rest p.rest 0 (0, none)

/-- No byte behind the packet is read, and what is found in well-formed options is what RFC 2132
    says. -/
structure ReadRight (p : Pbuf) : Prop where
  inside : ∀ i ∈ p.reads, i < p.len.toNat
  agrees : p.MagicOk → ∀ r, p.rfcParsed = some r → p.parsed = r

/-- The condition for `inside`. -/
def Reachable : Prop :=
  optionsOffset ≤ p.len.toNat ∧ (p.MagicOk → Chained p.options p.optionsLength p.optionsLength 0)

theorem inside_iff : (∀ i ∈ p.reads, i < p.len.toNat) ↔ p.Reachable := by
  have hoptions : (∀ i ∈ optionReads p.options p.optionsLength p.optionsLength 0,
      optionsOffset + i < p.len.toNat) ↔ Chained p.options p.optionsLength p.optionsLength 0 := by
    rw [← reads_inside_iff]
    unfold optionsLength rest
    split_ifs
    · simp only [Nat.lt_sub_iff_add_lt']
    · simp [optionReads]
  have hheader : (∀ i ∈ List.range' 28 6, i < p.len.toNat) ∧
      (∀ i ∈ List.range' 236 4, i < p.len.toNat) ↔ optionsOffset ≤ p.len.toNat := by
    simp only [mem_range'_1, optionsOffset]
    exact ⟨fun h => h.2 239 (by decide), fun h => ⟨fun i hi => by omega, fun i hi => by omega⟩⟩
  rw [reads, forall_mem_append, forall_mem_append, ← and_assoc, hheader, Reachable]
  by_cases hmagic : p.MagicOk
  · simp [hmagic, hoptions]
  · simp [hmagic]

/-- **A packet is read right** if it reaches to the options, every option has the bytes that are
    read, and well-formed options fit an `int16_t`, have no PAD in front of END and nothing to be
    found behind it. -/
theorem options_read_right : ((∀ i ∈ p.reads, i < p.len.toNat) ↔ p.Reachable) ∧
    (p.Reachable → (p.MagicOk → ∀ r, p.rfcParsed = some r →
        p.rest < 2 ^ 15 ∧ Plain p.options p.rest p.rest 0) → p.ReadRight) := by
  refine ⟨p.inside_iff, fun hreach hplain => ⟨p.inside_iff.mpr hreach, fun hmagic r hrfc => ?_⟩⟩
  obtain ⟨hshort, hplain⟩ := hplain hmagic r hrfc
  have hlength : p.optionsLength = p.rest := if_pos hshort
  rw [parsed, hlength]
  exact parseOptions_rfc hrfc hplain

/-- A packet with these options, and zeros around them. -/
def ofOptions (options : List UInt8) : Pbuf where
  bytes i := ([0x63, 0x82, 0x53, 0x63] ++ options).getD (i - 236) 0
  len := UInt16.ofNat (optionsOffset + options.length)

/-- A discovery: END is the last byte of the packet; or a PAD stands first. -/
theorem discovery_misread :
    (∃ i ∈ (ofOptions [53, 1, 1, 255]).reads, ¬ i < (ofOptions [53, 1, 1, 255]).len.toNat) ∧
    (ofOptions [0, 53, 1, 1, 255, 0]).MagicOk ∧
    (ofOptions [0, 53, 1, 1, 255, 0]).rfcParsed = some (1, none) ∧
    (ofOptions [0, 53, 1, 1, 255, 0]).parsed = (0, none) := by
  decide +kernel

end Pbuf

end AmebaRtos.Dhcp
