import AmebaRtos.IpNat.Checksum
import AmebaRtos.IpNat.Packet

/-!
# The bytes of a packet

The two functions on a packet in memory, with every byte they write. Fragments behind the first
one have payload where a TCP, UDP or ICMP header would be; for TCP the functions do not look at the
offset of the fragment.
-/

namespace AmebaRtos.IpNat

/-- The memory from the IP header on. -/
abbrev Bytes := Nat → UInt8

variable (b : Bytes) (i : Nat)

namespace Bytes

/-- Two bytes as a number of the machine, and in network order. -/
def half : UInt16 := (b i).toUInt16 ||| (b (i + 1)).toUInt16 <<< 8

def word : UInt16 := ntohs (b.half i)

def addr : UInt32 := (b.half i).toUInt32 ||| (b.half (i + 2)).toUInt32 <<< 16

/-- `IPH_HL(iphdr) * 4`. -/
def headerLength : Nat := (b 0 &&& 0xF).toNat * 4

def packet : IpPacket where
  proto := b 9
  src := b.addr 12
  dest := b.addr 16
  fragOffset := b.word 6 &&& 0x1FFF
  moreFragments := b.word 6 &&& 0x2000 ≠ 0
  sport := b.half b.headerLength
  dport := b.half (b.headerLength + 2)
  flags :=
    let flags := b (b.headerLength + 13)
    ⟨flags &&& 2 ≠ 0, flags &&& 16 ≠ 0, flags &&& 1 ≠ 0, flags &&& 4 ≠ 0⟩
  icmpType := b b.headerLength
  icmpId := b.half (b.headerLength + 4)

def putHalf (v : UInt16) : Bytes :=
  Function.update (Function.update b i v.toUInt8) (i + 1) (v >>> 8).toUInt8

def putAddr (v : UInt32) : Bytes :=
  (b.putHalf i v.toUInt16).putHalf (i + 2) (v >>> 16).toUInt16

/-- The checksum at `chksum` follows a new address. -/
def update (manipulate : UInt16 → UInt32 → UInt32 → UInt16) (chksum field : Nat)
    (newval : UInt32) : Bytes :=
  b.putHalf chksum (ntohs (manipulate (b.word chksum) (b.addr field) newval))

/-- `ip_nat_manipulate_address_tcp`, `ip_nat_manipulate_address_udp` and
    `ip_nat_manipulate_address` on the bytes. -/
def manipulateAddressTcp (field : Nat) (newval : UInt32) : Bytes :=
  b.update ipNatManipulateAddressTcp (b.headerLength + 16) field newval

def manipulateAddressUdp (field : Nat) (newval : UInt32) : Bytes :=
  b.update ipNatManipulateAddressUdp (b.headerLength + 6) field newval

def manipulateAddress (field : Nat) (newval : UInt32) : Bytes :=
  (b.update (fun c f n => (ipNatManipulateAddress c f n).1) 10 field newval).putAddr field newval

end Bytes

/-! ### The two functions on bytes -/

variable (s : State) (now : UInt32) (b : Bytes)

def toClientBytes (q : Query) (update : Rule → Rule) (rewrite : UInt32 → Bytes) :
    Option (State × Bytes) := do
  let (s, entry) ← ipNatEntrySearch s now q
  match entry with
  | none => some (s, b)
  | some i => some (s.modify i update, rewrite (s.rule i).src)

/-- `ip_nat_rx_packet`, with what it writes. -/
def rxBytes : Option (State × Bytes) :=
  let p := b.packet
  if p.proto = IP_PROTO_ICMP then
    if p.fragOffset = 0 ∧ p.icmpType = ICMP_ER then
      toClientBytes s now b (.incoming IP_PROTO_ICMP p.src p.icmpId p.icmpId) id
        (b.manipulateAddress 16)
    else if p.Fragment then
      toClientBytes s now b ⟨IP_PROTO_ICMP, p.src, 0, 0, true, true, 0, 0⟩ id
        (b.manipulateAddress 16)
    else some (s, b)
  else if p.proto = IP_PROTO_TCP then
    toClientBytes s now b (.incoming IP_PROTO_TCP p.src p.sport p.dport) (Rule.received p.flags)
      fun addr => (b.manipulateAddressTcp 16 addr).manipulateAddress 16 addr
  else if p.proto = IP_PROTO_UDP then
    if p.fragOffset = 0 then
      toClientBytes s now b (.incoming IP_PROTO_UDP p.src p.sport p.dport) id
        fun addr => (b.manipulateAddressUdp 16 addr).manipulateAddress 16 addr
    else if p.Fragment then
      toClientBytes s now b ⟨IP_PROTO_UDP, p.src, 0, 0, true, true, 0, 0⟩ id
        (b.manipulateAddress 16)
    else some (s, b)
  else some (s, b)

variable (outAddr : UInt32)

def fragmentBytes : Option (State × Err × Bytes) := do
  let (s, entry) ← ipNatEntrySearch s now
    ⟨b.packet.proto, b.packet.src, 0, 0, false, true, b.packet.dest, 0⟩
  match entry with
  | some _ => some (s, .ok, b.manipulateAddress 12 outAddr)
  | none => some (s, .ok, b)

def icmpBytes : Option (State × Err × Bytes) :=
  let p := b.packet
  if p.fragOffset = 0 ∧ p.icmpType = ICMP_ECHO then do
    let (s, _) ← ipNatAddEntry s now IP_PROTO_ICMP p.src p.icmpId p.dest p.icmpId 0
    some (s, .ok, b.manipulateAddress 12 outAddr)
  else if p.Fragment then fragmentBytes s now b outAddr
  else some (s, .ok, b)

def tcpBytes : Option (State × Err × Bytes) :=
  let p := b.packet
  if p.Opening then do
    let (s, _) ← ipNatAddEntry s now IP_PROTO_TCP p.src p.sport p.dest p.dport 0
    some (s, .ok, (b.manipulateAddressTcp 12 outAddr).manipulateAddress 12 outAddr)
  else do
    let (s, entry) ← ipNatEntrySearch s now (.outgoing IP_PROTO_TCP p.src p.sport)
    match entry with
    -- the packet of an unknown session is left as it is
    | none => (forwardUnknownTcp s now p).map fun (s, err, _) => (s, err, b)
    | some i =>
      if (s.rule i).dest ≠ p.dest ∨ (s.rule i).dport ≠ p.dport then some (s, .rte, b)
      else some (s.modify i (Rule.sent p.flags), .ok,
        (b.manipulateAddressTcp 12 outAddr).manipulateAddress 12 outAddr)

def udpBytes : Option (State × Err × Bytes) :=
  let p := b.packet
  let b' := (b.manipulateAddressUdp 12 outAddr).manipulateAddress 12 outAddr
  if p.fragOffset = 0 then do
    let (s, entry) ← ipNatEntrySearch s now (.outgoing IP_PROTO_UDP p.src p.sport)
    match entry with
    | none =>
      let (s, entry) ← ipNatEntrySearch s now (.incoming IP_PROTO_UDP p.src p.sport p.dport)
      match entry with
      | some _ => some (s, .ok, b)
      | none =>
        let (s, _) ← ipNatAddEntry s now IP_PROTO_UDP p.src p.sport p.dest p.dport 0
        some (s, .ok, b')
    | some i =>
      if (s.rule i).dest ≠ p.dest ∨ (s.rule i).dport ≠ p.dport then
        if (s.rule i).src = p.src ∧ (s.rule i).sport = p.sport then
          some (s.renewEntry i (Rule.reassign now p), .ok, b')
        else some (s, .rte, b)
      else some (s, .ok, b')
  else if p.Fragment then fragmentBytes s now b outAddr
  else some (s, .ok, b)

/-- `ip_nat_forward_packet`, with what it writes. -/
def forwardBytes : Option (State × Err × Bytes) :=
  if b.packet.proto = IP_PROTO_ICMP then icmpBytes s now b outAddr
  else if b.packet.proto = IP_PROTO_TCP then tcpBytes s now b outAddr
  else if b.packet.proto = IP_PROTO_UDP then udpBytes s now b outAddr
  else some (s, .ok, b)

/-! ### The property -/

/-- The checksum and the addresses of the IP header, and the checksum of a TCP or UDP header that
    is there. -/
def Bytes.Field (j : Nat) : Prop :=
  (10 ≤ j ∧ j < 20) ∨ (b.packet.fragOffset = 0 ∧
    ((b.packet.proto = IP_PROTO_TCP ∧ (j = b.headerLength + 16 ∨ j = b.headerLength + 17)) ∨
      (b.packet.proto = IP_PROTO_UDP ∧ (j = b.headerLength + 6 ∨ j = b.headerLength + 7))))

def Bytes.FieldsOnly (b b' : Bytes) : Prop := ∀ j, b' j ≠ b j → b.Field j

/-- In every table: only these fields are changed; and what is done with a later fragment does not
    depend on the bytes behind its IP header. -/
structure Bytes.HeadersOnly (b : Bytes) : Prop where
  received : ∀ s now, ∀ r ∈ rxBytes s now b, b.FieldsOnly r.2
  forwarded : ∀ s now outAddr, ∀ r ∈ forwardBytes s now b outAddr, b.FieldsOnly r.2.2
  unread : b.packet.fragOffset ≠ 0 → ∀ b' : Bytes, (∀ j < b.headerLength, b' j = b j) →
    (∀ s now, (rxBytes s now b').map Prod.fst = (rxBytes s now b).map Prod.fst) ∧
    ∀ s now outAddr, (forwardBytes s now b' outAddr).map (fun r => (r.1, r.2.1)) =
      (forwardBytes s now b outAddr).map fun r => (r.1, r.2.1)

section Frame

variable {s : State} {now : UInt32} {b b' : Bytes} {outAddr : UInt32} {i j field : Nat}

theorem putHalf_changed (h : b.putHalf i v j ≠ b j) : j = i ∨ j = i + 1 := by
  by_contra hother
  rw [not_or] at hother
  apply h
  rw [Bytes.putHalf, Function.update_of_ne hother.2, Function.update_of_ne hother.1]

theorem fieldsOnly_self : b.FieldsOnly b := fun _ hchanged => absurd rfl hchanged

theorem Bytes.FieldsOnly.manipulateAddress (h : b.FieldsOnly b')
    (hfield : field = 12 ∨ field = 16) :
    b.FieldsOnly (b'.manipulateAddress field newval) := by
  intro j hchanged
  by_contra hother
  -- the checksum and the two halves of the address are in the IP header
  have hkept : ∀ (b : Bytes) (i : Nat) (v : UInt16), 10 ≤ i → i < 19 → b.putHalf i v j = b j := by
    intro b i v hlo hhi
    by_contra hput
    have hplace := putHalf_changed hput
    exact hother (.inl (by omega))
  rw [Bytes.manipulateAddress, Bytes.putAddr, Bytes.update, hkept _ _ _ (by omega) (by omega),
    hkept _ _ _ (by omega) (by omega), hkept _ _ _ (by omega) (by omega)] at hchanged
  exact hother (h j hchanged)

section

variable (hfield : field = 12 ∨ field = 16) (hfirst : b.packet.fragOffset = 0)
include hfield hfirst

theorem fieldsOnly_tcp (htcp : b.packet.proto = IP_PROTO_TCP) :
    b.FieldsOnly ((b.manipulateAddressTcp field newval).manipulateAddress field newval) := by
  apply Bytes.FieldsOnly.manipulateAddress _ hfield
  intro j hchanged
  exact .inr ⟨hfirst, .inl ⟨htcp, putHalf_changed hchanged⟩⟩

theorem fieldsOnly_udp (hudp : b.packet.proto = IP_PROTO_UDP) :
    b.FieldsOnly ((b.manipulateAddressUdp field newval).manipulateAddress field newval) := by
  apply Bytes.FieldsOnly.manipulateAddress _ hfield
  intro j hchanged
  exact .inr ⟨hfirst, .inr ⟨hudp, putHalf_changed hchanged⟩⟩

end

theorem fieldsOnly_ip (hfield : field = 12 ∨ field = 16) :
    b.FieldsOnly (b.manipulateAddress field newval) :=
  fieldsOnly_self.manipulateAddress hfield

theorem toClientBytes_fieldsOnly (hrewrite : ∀ addr, b.FieldsOnly (rewrite addr)) :
    ∀ r ∈ toClientBytes s now b q update rewrite, b.FieldsOnly r.2 := by
  intro r hrun
  obtain ⟨⟨s', entry⟩, _, hrun⟩ := Option.bind_eq_some_iff.mp hrun
  cases entry with
  | none =>
    cases hrun
    exact fieldsOnly_self
  | some i =>
    cases hrun
    exact hrewrite _

/-- **Receiving** changes only the fields, unless the packet is a later fragment of TCP. -/
theorem rxBytes_fieldsOnly (hfirst : b.packet.proto = IP_PROTO_TCP → b.packet.fragOffset = 0) :
    ∀ r ∈ rxBytes s now b, b.FieldsOnly r.2 := by
  have hsame : ∀ r ∈ some (s, b), b.FieldsOnly r.2 := by
    rintro _ ⟨⟩
    exact fieldsOnly_self
  have hip : ∀ addr, b.FieldsOnly (b.manipulateAddress 16 addr) := fun _ => fieldsOnly_ip (.inr rfl)
  unfold rxBytes
  dsimp only
  split_ifs with hicmp hecho hfrag htcp hudp hwhole
  · exact toClientBytes_fieldsOnly hip
  · exact toClientBytes_fieldsOnly hip
  · exact hsame
  · exact toClientBytes_fieldsOnly fun _ => fieldsOnly_tcp (.inr rfl) (hfirst htcp) htcp
  · exact toClientBytes_fieldsOnly fun _ => fieldsOnly_udp (.inr rfl) hwhole hudp
  · exact toClientBytes_fieldsOnly hip
  · exact hsame
  · exact hsame

/-- What is sent on is the packet with other fields. -/
def Within (b : Bytes) (out : Option (State × Err × Bytes)) : Prop := ∀ r ∈ out, b.FieldsOnly r.2.2

theorem within_bind {α : Type} {x : Option α} {f : α → Option (State × Err × Bytes)}
    (h : ∀ a, Within b (f a)) : Within b (x.bind f) := by
  intro r hr
  obtain ⟨a, _, hr⟩ := Option.bind_eq_some_iff.mp hr
  exact h a r hr

theorem within_some {err : Err} (h : b.FieldsOnly b') : Within b (some (s, err, b')) := by
  rintro _ ⟨⟩
  exact h

theorem within_self {err : Err} : Within b (some (s, err, b)) := within_some fieldsOnly_self

theorem within_ip {err : Err} : Within b (some (s, err, b.manipulateAddress 12 outAddr)) :=
  within_some (fieldsOnly_ip (.inl rfl))

theorem fragmentBytes_within : Within b (fragmentBytes s now b outAddr) := by
  refine within_bind ?_
  rintro ⟨s', _ | i⟩
  · exact within_self
  · exact within_ip

theorem icmpBytes_within : Within b (icmpBytes s now b outAddr) := by
  unfold icmpBytes
  dsimp only
  split_ifs
  · exact within_bind fun _ => within_ip
  · exact fragmentBytes_within
  · exact within_self

theorem tcpBytes_within (htcp : b.packet.proto = IP_PROTO_TCP) (hfirst : b.packet.fragOffset = 0) :
    Within b (tcpBytes s now b outAddr) := by
  have hwritten : b.FieldsOnly
      ((b.manipulateAddressTcp 12 outAddr).manipulateAddress 12 outAddr) :=
    fieldsOnly_tcp (.inl rfl) hfirst htcp
  unfold tcpBytes
  dsimp only
  split
  · exact within_bind fun _ => within_some hwritten
  refine within_bind ?_
  rintro ⟨s', _ | i⟩
  · intro r hr
    obtain ⟨_, _, rfl⟩ := Option.map_eq_some_iff.mp hr
    exact fieldsOnly_self
  · dsimp only
    split
    · exact within_self
    · exact within_some hwritten

theorem udpBytes_within (hudp : b.packet.proto = IP_PROTO_UDP) :
    Within b (udpBytes s now b outAddr) := by
  unfold udpBytes
  dsimp only
  split_ifs with hfirst hfrag
  · have hwritten : b.FieldsOnly
        ((b.manipulateAddressUdp 12 outAddr).manipulateAddress 12 outAddr) :=
      fieldsOnly_udp (.inl rfl) hfirst hudp
    refine within_bind ?_
    rintro ⟨s', _ | i⟩
    · refine within_bind ?_
      rintro ⟨s', _ | i⟩
      · exact within_bind fun _ => within_some hwritten
      · exact within_self
    · dsimp only
      split_ifs
      · exact within_some hwritten
      · exact within_self
      · exact within_some hwritten
  · exact fragmentBytes_within
  · exact within_self

/-- **Forwarding** changes only the fields, unless the packet is a later fragment of TCP. -/
theorem forwardBytes_within (hfirst : b.packet.proto = IP_PROTO_TCP → b.packet.fragOffset = 0) :
    Within b (forwardBytes s now b outAddr) := by
  unfold forwardBytes
  split_ifs with hicmp htcp hudp
  · exact icmpBytes_within
  · exact tcpBytes_within htcp (hfirst htcp)
  · exact udpBytes_within hudp
  · exact within_self

end Frame

/-! ### Later fragments -/

section Later

variable {s : State} {now : UInt32} {b b' : Bytes} {outAddr : UInt32}

theorem toClientBytes_fst :
    (toClientBytes s now b' q update rewrite').map Prod.fst =
      (toClientBytes s now b q update rewrite).map Prod.fst := by
  unfold toClientBytes
  rcases ipNatEntrySearch s now q with _ | ⟨s', _ | i⟩
  · rfl
  · rfl
  · rfl

/-- What is read of the IP header. -/
structure SameHeader (p p' : IpPacket) : Prop where
  proto : p'.proto = p.proto
  src : p'.src = p.src
  dest : p'.dest = p.dest
  fragOffset : p'.fragOffset = p.fragOffset
  moreFragments : p'.moreFragments = p.moreFragments

theorem sameHeader_of_bytes (hlen : 20 ≤ b.headerLength)
    (hsame : ∀ j < b.headerLength, b' j = b j) : SameHeader b.packet b'.packet := by
  have hhalf : ∀ i < 19, b'.half i = b.half i := by
    intro i hi
    rw [Bytes.half, Bytes.half, hsame i (by omega), hsame (i + 1) (by omega)]
  have haddr : ∀ i < 17, b'.addr i = b.addr i := by
    intro i hi
    rw [Bytes.addr, Bytes.addr, hhalf i (by omega), hhalf (i + 2) (by omega)]
  have hword : b'.word 6 = b.word 6 := congrArg ntohs (hhalf 6 (by omega))
  refine ⟨hsame 9 (by omega), haddr 12 (by omega), haddr 16 (by omega), ?_, ?_⟩
  · exact congrArg (· &&& 0x1FFF) hword
  · simp only [Bytes.packet, hword]

variable (h : SameHeader b.packet b'.packet) (hlater : b.packet.fragOffset ≠ 0)
  (htcp : b.packet.proto ≠ IP_PROTO_TCP)
include h hlater htcp

theorem rxBytes_later : (rxBytes s now b').map Prod.fst = (rxBytes s now b).map Prod.fst := by
  have hfrag : b.packet.Fragment := .inl hlater
  have hfrag' : b'.packet.Fragment := .inl (h.fragOffset ▸ hlater)
  simp only [rxBytes, h.proto, h.src, h.fragOffset, hlater, htcp, false_and, if_false, if_pos hfrag,
    if_pos hfrag']
  split_ifs
  · exact toClientBytes_fst
  · exact toClientBytes_fst
  · rfl

theorem forwardBytes_later : (forwardBytes s now b' outAddr).map (fun r => (r.1, r.2.1)) =
    (forwardBytes s now b outAddr).map fun r => (r.1, r.2.1) := by
  have hfrag : b.packet.Fragment := .inl hlater
  have hfrag' : b'.packet.Fragment := .inl (h.fragOffset ▸ hlater)
  have hfragment : (fragmentBytes s now b' outAddr).map (fun r => (r.1, r.2.1)) =
      (fragmentBytes s now b outAddr).map fun r => (r.1, r.2.1) := by
    simp only [fragmentBytes, h.proto, h.src, h.dest]
    rcases ipNatEntrySearch s now
      ⟨b.packet.proto, b.packet.src, 0, 0, false, true, b.packet.dest, 0⟩ with _ | ⟨s', _ | i⟩
    all_goals simp only [Option.bind_eq_bind, Option.bind_none, Option.bind_some, Option.map_none,
      Option.map_some]
  simp only [forwardBytes, icmpBytes, udpBytes, h.proto, h.fragOffset, hlater, htcp, false_and,
    if_false, if_pos hfrag, if_pos hfrag']
  split_ifs
  · exact hfragment
  · exact hfragment
  · rfl

end Later

/-- In an empty table, the flags decide what becomes of a TCP packet. -/
theorem tcpBytes_empty : (tcpBytes ipNatInitialize now b outAddr).map (·.2.1) =
    some (if b.packet.Opening then .ok else .rte) := by
  unfold tcpBytes
  dsimp only
  split
  · rfl
  · rfl

/-- A fragment of a TCP segment from 192.168.43.100 to 8.8.8.8, with the offset 8. -/
def laterFragment : Bytes := fun i =>
  [0x45, 0, 0, 60, 0, 1, 0, 1, 64, 6, 0, 0, 192, 168, 43, 100, 8, 8, 8, 8, 19, 136, 0, 80].getD i 0

/-- The same bytes as a fragment of a UDP datagram. -/
def laterUdp : Bytes := Function.update laterFragment 9 IP_PROTO_UDP

def clientSyn : IpPacket :=
  { laterFragment.packet with fragOffset := 0, flags := ⟨true, false, false, false⟩ }

end AmebaRtos.IpNat
