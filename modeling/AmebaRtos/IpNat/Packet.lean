import AmebaRtos.IpNat.Lists
import AmebaRtos.Lib.Run

/-!
# Packets

`ip_nat_forward_packet` translates what a client sends, `ip_nat_rx_packet` what comes back.
Outside, a session keeps the port of the client, so only addresses are written. Both work on
the table through searches; the walks of these end because the lists are in order.
-/

namespace AmebaRtos.IpNat

open Lib

def ICMP_ER : UInt8 := 0
def ICMP_ECHO : UInt8 := 8

structure TcpFlags where
  syn : Bool
  ack : Bool
  fin : Bool
  rst : Bool
deriving DecidableEq, Repr

/-- What is read of a packet. The fields of a header stand for what is found where the payload
    starts, also in a fragment that has no such header. -/
structure IpPacket where
  proto : UInt8
  src : UInt32
  dest : UInt32
  fragOffset : UInt16
  moreFragments : Bool
  sport : UInt16
  dport : UInt16
  flags : TcpFlags
  icmpType : UInt8
  icmpId : UInt16
deriving DecidableEq, Repr

variable (p : IpPacket)

def IpPacket.Fragment : Prop := p.fragOffset ≠ 0 ∨ p.moreFragments = true
deriving Decidable

def IpPacket.Opening : Prop := p.flags.syn = true ∧ ¬ p.flags.ack = true
deriving Decidable

inductive Err where
  | ok
  | rte
deriving DecidableEq, Repr

variable (s : State) (now : UInt32) (p : IpPacket)

/-! ### Receiving -/

def toClient (q : Query) (update : Rule → Rule) (p : IpPacket) : Option (State × IpPacket) := do
  let (s, entry) ← ipNatEntrySearch s now q
  match entry with
  | none => some (s, p)
  | some i => some (s.modify i update, { p with dest := (s.rule i).src })

/-- The state of a connection after a packet of the server. -/
def Rule.received (flags : TcpFlags) (e : Rule) : Rule :=
  { e with
    synAcked := e.synAcked || (flags.syn && flags.ack)
    finWait1 := e.finWait1 || flags.fin
    finAck2 := e.finAck2 || (e.finWait2 && flags.ack)
    rst := flags.rst }

def ipNatRxPacket : Option (State × IpPacket) :=
  if p.proto = IP_PROTO_ICMP then
    if p.fragOffset = 0 ∧ p.icmpType = ICMP_ER then
      toClient s now (.incoming IP_PROTO_ICMP p.src p.icmpId p.icmpId) id p
    else if p.Fragment then toClient s now ⟨IP_PROTO_ICMP, p.src, 0, 0, true, true, 0, 0⟩ id p
    else some (s, p)
  else if p.proto = IP_PROTO_TCP then
    toClient s now (.incoming IP_PROTO_TCP p.src p.sport p.dport) (Rule.received p.flags) p
  else if p.proto = IP_PROTO_UDP then
    if p.fragOffset = 0 then toClient s now (.incoming IP_PROTO_UDP p.src p.sport p.dport) id p
    else if p.Fragment then toClient s now ⟨IP_PROTO_UDP, p.src, 0, 0, true, true, 0, 0⟩ id p
    else some (s, p)
  else some (s, p)

/-! ### Forwarding -/

/-- The state of a connection after a packet of the client. -/
def Rule.sent (flags : TcpFlags) (e : Rule) : Rule :=
  { e with
    finWait2 := e.finWait2 || flags.fin
    finAck1 := e.finAck1 || (e.finWait1 && flags.ack)
    rst := flags.rst }

def Rule.reassign (e : Rule) : Rule :=
  { e with
    src := p.src
    sport := p.sport
    portmap := p.sport
    ts := now
    dest := p.dest
    dport := p.dport
    appUse := 0 }

/-- The packet as it is sent by the interface with this address. -/
def IpPacket.from (outAddr : UInt32) : IpPacket := { p with src := outAddr }

variable (outAddr : UInt32) (p : IpPacket)

def forwardFragment : Option (State × Err × IpPacket) := do
  let (s, entry) ← ipNatEntrySearch s now ⟨p.proto, p.src, 0, 0, false, true, p.dest, 0⟩
  match entry with
  | some _ => some (s, .ok, p.from outAddr)
  | none => some (s, .ok, p)

def forwardIcmp : Option (State × Err × IpPacket) :=
  if p.fragOffset = 0 ∧ p.icmpType = ICMP_ECHO then do
    let (s, _) ← ipNatAddEntry s now IP_PROTO_ICMP p.src p.icmpId p.dest p.icmpId 0
    some (s, .ok, p.from outAddr)
  else if p.Fragment then forwardFragment s now outAddr p
  else some (s, .ok, p)

def forwardUnknownTcp : Option (State × Err × IpPacket) := do
  let (s, entry) ← ipNatEntrySearch s now (.incoming IP_PROTO_TCP p.src p.sport p.dport)
  match entry with
  | some _ => some (s, .ok, p)
  | none =>
    let (s, entry) ← ipNatEntrySearch s now
      ⟨IP_PROTO_TCP, p.src, p.sport, 0, false, false, p.dest, p.dport⟩
    match entry with
    | some i => some (s.renewEntry i (Rule.reassign now p), .ok, p)
    | none => some (s, .rte, p)

def forwardTcp : Option (State × Err × IpPacket) :=
  if p.Opening then do
    let (s, _) ← ipNatAddEntry s now IP_PROTO_TCP p.src p.sport p.dest p.dport 0
    some (s, .ok, p.from outAddr)
  else do
    let (s, entry) ← ipNatEntrySearch s now (.outgoing IP_PROTO_TCP p.src p.sport)
    match entry with
    | none => forwardUnknownTcp s now p
    | some i =>
      if (s.rule i).dest ≠ p.dest ∨ (s.rule i).dport ≠ p.dport then some (s, .rte, p)
      else some (s.modify i (Rule.sent p.flags), .ok, p.from outAddr)

def forwardUdp : Option (State × Err × IpPacket) :=
  if p.fragOffset = 0 then do
    let (s, entry) ← ipNatEntrySearch s now (.outgoing IP_PROTO_UDP p.src p.sport)
    match entry with
    | none =>
      let (s, entry) ← ipNatEntrySearch s now (.incoming IP_PROTO_UDP p.src p.sport p.dport)
      match entry with
      | some _ => some (s, .ok, p)
      | none =>
        let (s, _) ← ipNatAddEntry s now IP_PROTO_UDP p.src p.sport p.dest p.dport 0
        some (s, .ok, p.from outAddr)
    | some i =>
      if (s.rule i).dest ≠ p.dest ∨ (s.rule i).dport ≠ p.dport then
        if (s.rule i).src = p.src ∧ (s.rule i).sport = p.sport then
          some (s.renewEntry i (Rule.reassign now p), .ok, p.from outAddr)
        else some (s, .rte, p)
      else some (s, .ok, p.from outAddr)
  else if p.Fragment then forwardFragment s now outAddr p
  else some (s, .ok, p)

/-- `ip_nat_forward_packet`; `outAddr` is the address of `output_iface`. -/
def ipNatForwardPacket : Option (State × Err × IpPacket) :=
  if p.proto = IP_PROTO_ICMP then forwardIcmp s now outAddr p
  else if p.proto = IP_PROTO_TCP then forwardTcp s now outAddr p
  else if p.proto = IP_PROTO_UDP then forwardUdp s now outAddr p
  else some (s, .ok, p)

/-! ### The lists over whole runs -/

inductive Op where
  | search (now : UInt32) (q : Query)
  | add (now : UInt32) (proto : UInt8) (src : UInt32) (sport : UInt16) (dest : UInt32)
      (dport : UInt16) (appUse : UInt32)
  | filter (now thresholdValue : UInt32)
  | reinit
  | forward (now outAddr : UInt32) (p : IpPacket)
  | receive (now : UInt32) (p : IpPacket)
  -- `ip_nat_set_tcp_timeout` and `ip_napt_set_udp_timeout`
  | setTcpTimeout (secs : UInt32)
  | setUdpTimeout (secs : UInt32)

def Op.run : Op → Option State
  | .search now q => (ipNatEntrySearch s now q).map Prod.fst
  | .add now proto src sport dest dport appUse =>
    (ipNatAddEntry s now proto src sport dest dport appUse).map Prod.fst
  | .filter now thresholdValue => filterOldNatEntry s now thresholdValue
  | .reinit => some ( ipNatReinitialize s)
  | .forward now outAddr p => (ipNatForwardPacket s now outAddr p).map Prod.fst
  | .receive now p => (ipNatRxPacket s now p).map Prod.fst
  | .setTcpTimeout secs => some { s with ipNatTcpMaxTimeout := secs * 1000 }
  | .setUdpTimeout secs => some { s with ipNatUdpMaxTimeout := secs * 1000 }

def natStep (s : Option State) (op : Op) : Option State := s.bind (Op.run · op)

section Packets

variable {s : State}

variable (h : ListsOk s)
include h

theorem ListsOk.toClient (now : UInt32) (q : Query) (p : IpPacket)
    (hproto : ∀ e, (update e).proto = e.proto) :
    Ends (toClient s now q update p) fun r => ListsOk r.1 := by
  refine (h.search now q).bind ?_
  rintro ⟨s, entry⟩ hfound
  cases entry with
  | none => exact ends_some hfound.lists
  | some i => exact ends_some (hfound.modify hproto).lists

theorem ListsOk.rxPacket (now : UInt32) (p : IpPacket) :
    Ends (ipNatRxPacket s now p) fun r => ListsOk r.1 := by
  have hsearch : ∀ (q : Query) (update : Rule → Rule), (∀ e, (update e).proto = e.proto) →
      Ends (IpNat.toClient s now q update p) fun r => ListsOk r.1 :=
    fun q _ hproto => h.toClient now q p hproto
  unfold ipNatRxPacket
  split_ifs
  · exact hsearch _ _ fun _ => rfl
  · exact hsearch _ _ fun _ => rfl
  · exact ends_some h
  · exact hsearch _ _ fun _ => rfl
  · exact hsearch _ _ fun _ => rfl
  · exact hsearch _ _ fun _ => rfl
  · exact ends_some h
  · exact ends_some h

theorem ListsOk.forwardFragment (now outAddr : UInt32) (p : IpPacket) :
    Ends (forwardFragment s now outAddr p) fun r => ListsOk r.1 := by
  refine (h.search now _).bind ?_
  rintro ⟨s, entry⟩ hfound
  cases entry with
  | none => exact ends_some hfound.lists
  | some i => exact ends_some hfound.lists

theorem ListsOk.forwardIcmp (now outAddr : UInt32) (p : IpPacket) :
    Ends (forwardIcmp s now outAddr p) fun r => ListsOk r.1 := by
  unfold IpNat.forwardIcmp
  split_ifs
  · exact (h.addEntry now _ _ _ _ _ _).bind fun r hr => ends_some hr
  · exact h.forwardFragment now outAddr p
  · exact ends_some h

theorem ListsOk.forwardUnknownTcp (now : UInt32) (p : IpPacket) :
    Ends (forwardUnknownTcp s now p) fun r => ListsOk r.1 := by
  refine (h.search now _).bind ?_
  rintro ⟨s, entry⟩ hfound
  cases entry with
  | some i => exact ends_some hfound.lists
  | none =>
    refine (hfound.lists.search now _).bind ?_
    rintro ⟨s, entry⟩ hfound
    cases entry with
    | some i => exact ends_some hfound.renew
    | none => exact ends_some hfound.lists

theorem ListsOk.forwardTcp (now outAddr : UInt32) (p : IpPacket) :
    Ends (forwardTcp s now outAddr p) fun r => ListsOk r.1 := by
  unfold IpNat.forwardTcp
  split_ifs
  · exact (h.addEntry now _ _ _ _ _ _).bind fun r hr => ends_some hr
  · refine (h.search now _).bind ?_
    rintro ⟨s, entry⟩ hfound
    cases entry with
    | none => exact hfound.lists.forwardUnknownTcp now p
    | some i =>
      dsimp only
      split_ifs
      · exact ends_some hfound.lists
      · have hsent := @FoundOk.modify s i (Rule.sent p.flags) hfound fun _ => rfl
        exact ends_some hsent.lists

theorem ListsOk.forwardUdp (now outAddr : UInt32) (p : IpPacket) :
    Ends (forwardUdp s now outAddr p) fun r => ListsOk r.1 := by
  unfold IpNat.forwardUdp
  split_ifs
  · refine (h.search now _).bind ?_
    rintro ⟨s, entry⟩ hfound
    cases entry with
    | none =>
      refine (hfound.lists.search now _).bind ?_
      rintro ⟨s, entry⟩ hfound
      cases entry with
      | some i => exact ends_some hfound.lists
      | none => exact (hfound.lists.addEntry now _ _ _ _ _ _).bind fun r hr => ends_some hr
    | some i =>
      dsimp only
      split_ifs
      · exact ends_some hfound.renew
      · exact ends_some hfound.lists
      · exact ends_some hfound.lists
  · exact h.forwardFragment now outAddr p
  · exact ends_some h

theorem ListsOk.forwardPacket (now outAddr : UInt32) (p : IpPacket) :
    Ends (ipNatForwardPacket s now outAddr p) fun r => ListsOk r.1 := by
  unfold ipNatForwardPacket
  split_ifs
  · exact h.forwardIcmp now outAddr p
  · exact h.forwardTcp now outAddr p
  · exact h.forwardUdp now outAddr p
  · exact ends_some h

theorem ListsOk.run (op : Op) : Ends (op.run s) ListsOk := by
  cases op with
  | search now q => exact ((h.search now q).mono fun r hr => FoundOk.lists hr).map
  | add now proto src sport dest dport appUse =>
    exact (h.addEntry now proto src sport dest dport appUse).map
  | filter now thresholdValue => exact h.filter now thresholdValue
  | reinit => exact ends_some ⟨[], indices, lists_cleared s⟩
  | forward now outAddr p => exact (h.forwardPacket now outAddr p).map
  | receive now p => exact (h.rxPacket now p).map
  | setTcpTimeout secs =>
    obtain ⟨active, idle, h⟩ := h
    exact ends_some ⟨active, idle, h.linked, h.unused, h.all, h.counted.tcp, h.counted.udp,
      h.counted.icmp⟩
  | setUdpTimeout secs =>
    obtain ⟨active, idle, h⟩ := h
    exact ends_some ⟨active, idle, h.linked, h.unused, h.all, h.counted.tcp, h.counted.udp,
      h.counted.icmp⟩

end Packets

/-- **The lists stay in order** in every run: every operation ends, every entry is on exactly one
    list, links and ends agree in both directions, and the counters are right. -/
theorem lists_in_order (ops : List Op) :
    Throughout natStep (fun s => Ends s ListsOk) (some ipNatInitialize) ops := by
  have hrun : Along natStep (fun _ _ => True) (some ipNatInitialize) ops :=
    along_of_forall fun _ _ _ => trivial
  have hinit : Ends (some ipNatInitialize) ListsOk :=
    ends_some ⟨[], indices, lists_cleared ipNatInitialize⟩
  refine hrun.throughout (fun s op hs _ => ?_) hinit
  obtain ⟨t, rfl, ht⟩ := hs
  exact ht.run op

end AmebaRtos.IpNat
