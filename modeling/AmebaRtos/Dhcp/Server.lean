import Mathlib.Data.List.Pairwise
import Mathlib.Tactic.Common

/-!
# The DHCP server

`dhcps.c`: the server keeps the addresses in use in a bitmap, those it has offered in a second
one, and a table of `ap_sta_num` pairs of a station and the last byte of its address. What it
knows of the exchange that is going on is one set of variables for all clients: the state, the
address requested, the address allocated and the station.
-/

namespace AmebaRtos.Dhcp

def DHCP_POOL_START : UInt8 := 100
def DHCP_POOL_END : UInt8 := 200
def DHCP_MESSAGE_TYPE_DISCOVER : UInt8 := 1
def DHCP_MESSAGE_TYPE_REQUEST : UInt8 := 3
def DHCP_MESSAGE_TYPE_DECLINE : UInt8 := 4
def DHCP_MESSAGE_TYPE_RELEASE : UInt8 := 7
def DHCP_OPTION_CODE_REQUEST_IP_ADDRESS : UInt8 := 50
def DHCP_OPTION_CODE_MSG_TYPE : UInt8 := 53
def DHCP_OPTION_CODE_END : UInt8 := 255

abbrev Mac := BitVec 48

structure Ip4 where
  addr1 : UInt8
  addr2 : UInt8
  addr3 : UInt8
  addr4 : UInt8
deriving DecidableEq, Repr

def Ip4.zero : Ip4 := ⟨0, 0, 0, 0⟩

def Ip4.SameNet (a b : Ip4) : Prop := a.addr1 = b.addr1 ∧ a.addr2 = b.addr2 ∧ a.addr3 = b.addr3
deriving Decidable

/-! ### Configuration -/

structure Netif where
  ipAddr : Ip4
  netmask : Ip4
  gw : Ip4

/-- `dhcps_addr_pool_set`, `dhcps_addr_pool_start` and `dhcps_addr_pool_end`. -/
structure AddrPool where
  isSet : Bool
  start : Ip4
  stop : Ip4

def dhcpsSetAddrPool (pool : AddrPool) (addrPoolSet : Bool) (start stop : Ip4) : AddrPool :=
  if addrPoolSet then ⟨true, start, stop⟩ else { pool with isSet := false }

structure Config where
  netif : Netif
  -- as it was set before the start of the server
  pool : AddrPool
  apStaNum : Nat

variable (c : Config)

namespace Config

/-- `dhcps_network_id`. -/
def networkId : Ip4 where
  addr1 := c.netif.ipAddr.addr1 &&& c.netif.netmask.addr1
  addr2 := c.netif.ipAddr.addr2 &&& c.netif.netmask.addr2
  addr3 := c.netif.ipAddr.addr3 &&& c.netif.netmask.addr3
  addr4 := c.netif.ipAddr.addr4 &&& c.netif.netmask.addr4

/-- The pool after `dhcps_init`, which sets the default one if there is none. -/
def addrPool : AddrPool :=
  if c.pool.start = .zero ∧ c.pool.stop = .zero then
    dhcpsSetAddrPool c.pool true { c.netif.ipAddr with addr4 := DHCP_POOL_START }
      { c.netif.ipAddr with addr4 := DHCP_POOL_END }
  else c.pool

/-- The address with this last byte in the network of the server. -/
def address (addr4 : UInt8) : Ip4 := { c.networkId with addr4 := addr4 }

end Config

/-! ### The table -/

structure Entry where
  ipAddr4 : UInt8
  clientMac : Mac
deriving DecidableEq, Repr

/-- `struct table`; bit `i` of a range is for the address with the last byte `i + 1`. -/
structure Table where
  ipRangeOffer : UInt8 → Bool
  ipRange : UInt8 → Bool
  entries : List Entry

def replaceFirst {α : Type*} (p : α → Bool) (x : α) : List α → Option (α × List α)
  | [] => none
  | a :: rest =>
    if p a then some (a, x :: rest)
    else (replaceFirst p x rest).map fun r => (r.1, a :: r.2)

variable (t : Table) (d : UInt8) (connected : List Mac)

namespace Table

def markIpInTable : Table :=
  if 0 < d then { t with ipRange := Function.update t.ipRange (d - 1) true } else t

@[simp] theorem markIpInTable_entries : (t.markIpInTable d).entries = t.entries := by
  unfold markIpInTable
  split <;> rfl

@[simp] theorem markIpInTable_ipRangeOffer : (t.markIpInTable d).ipRangeOffer = t.ipRangeOffer := by
  unfold markIpInTable
  split <;> rfl

theorem markIpInTable_ipRange :
    (t.markIpInTable d).ipRange index = (t.ipRange index || decide (0 < d ∧ index = d - 1)) := by
  unfold markIpInTable
  by_cases hd : 0 < d
  · rw [if_pos hd]
    by_cases hsame : index = d - 1
    · simp [hsame, hd]
    · simp [hsame]
  · simp [hd]

/-- An entry whose client is no longer connected: its address is taken out of both ranges, and the
    entry used for another one. -/
def replaceInvalid (candidate : Entry) : Table :=
  match replaceFirst (fun e => decide (e.clientMac ∉ connected)) candidate t.entries with
  | none => t
  | some (invalid, entries) =>
    { ipRangeOffer := Function.update t.ipRangeOffer (invalid.ipAddr4 - 1) false
      ipRange := Function.update t.ipRange (invalid.ipAddr4 - 1) false
      entries := entries }

/-- `save_client_addr`; `connected` is the answer of `wifi_ap_get_connected_clients`. -/
def saveClientAddr (candidateIp : UInt8) (hwaddr : Mac) : Table :=
  match replaceFirst (fun e => decide (e.ipAddr4 = 0 ∨ e.ipAddr4 = candidateIp))
      ⟨candidateIp, hwaddr⟩ t.entries with
  | some (_, entries) => { t with entries := entries }
  | none => t.replaceInvalid connected ⟨candidateIp, hwaddr⟩

def UsedByOther (addr4 : UInt8) (hwaddr : Mac) : Prop :=
  ∃ e ∈ t.entries, e.ipAddr4 = addr4 ∧ e.clientMac ≠ hwaddr ∧ t.ipRange (addr4 - 1) = true
deriving Decidable

/-- `dhcps_search_client_ip`; 0 if the client has no address. -/
def dhcpsSearchClientIp (srcMac : Mac) : UInt8 :=
  match t.entries.find? fun e => e.clientMac = srcMac ∧ t.ipRange (e.ipAddr4 - 1) = true with
  | some e => e.ipAddr4
  | none => 0

/-- `check_client_direct_request_ip`; 0 if the address is refused. -/
def checkClientDirectRequestIp (clientReqIp : Ip4) (hwaddr : Mac) : UInt8 :=
  if ¬ c.networkId.SameNet clientReqIp then 0
  else if clientReqIp.addr4 < DHCP_POOL_START ∨ clientReqIp.addr4 > DHCP_POOL_END then 0
  else if t.UsedByOther clientReqIp.addr4 hwaddr then 0
  else clientReqIp.addr4

def ipIndices : List UInt8 := (List.range 256).map UInt8.ofNat

def Free (index : UInt8) : Prop :=
  t.ipRangeOffer index = false ∧ t.ipRange index = false ∧ (c.addrPool.isSet = true →
      c.addrPool.start.addr4 ≤ index + 1 ∧ index + 1 ≤ c.addrPool.stop.addr4)
deriving Decidable

/-- `search_next_ip`; 0 if there is none. -/
def searchNextIp (hwaddr : Mac) : UInt8 × Table :=
  match t.entries.find? fun e => e.clientMac = hwaddr ∧ t.ipRangeOffer (e.ipAddr4 - 1) = true with
  | some e => (e.ipAddr4, t)
  | none =>
    match ipIndices.find? fun index => Free c t index with
    | some index =>
      (index + 1,
        { t with ipRangeOffer := Function.update t.ipRangeOffer index true }.saveClientAddr
          connected (index + 1) hwaddr)
    | none => (0, t)

end Table

/-! ### Messages -/

/-- What the server reads of a message. The options lie in memory behind the magic cookie; the
    lengths inside are followed without a check. `allocOk`: there is a buffer for the answer. -/
structure Msg where
  ciaddr : Ip4
  chaddr : Mac
  magicOk : Bool
  options : Nat → UInt8
  optionsLength : Nat
  allocOk : Bool

/-- The loop of `dhcps_handle_msg_options`: the type of the message and the address that is
    requested in option 50. -/
def parseOptions (options : Nat → UInt8) (length : Nat) :
    Nat → Nat → UInt8 × Option Ip4 → UInt8 × Option Ip4
  | 0, _, found => found
  | fuel + 1, start, found =>
    if start < length then
      let found :=
        if options start = DHCP_OPTION_CODE_MSG_TYPE then (options (start + 2), found.2)
        else if options start = DHCP_OPTION_CODE_REQUEST_IP_ADDRESS then
          (found.1, some ⟨options (start + 2), options (start + 3), options (start + 4),
            options (start + 5)⟩)
        else found
      parseOptions options length fuel (start + ((options (start + 1)).toNat + 2)) found
    else found

def Msg.parsed (m : Msg) : UInt8 × Option Ip4 :=
  parseOptions m.options m.optionsLength m.optionsLength 0 (0, none)

/-- **The loop ends by itself**: it moves on with every option. -/
theorem parseOptions_fuel (length fuel start : Nat) (found : UInt8 × Option Ip4)
    (hfuel : length ≤ start + fuel) :
    parseOptions options length (fuel + 1) start found =
      parseOptions options length fuel start found := by
  induction fuel generalizing start found with
  | zero =>
    have hdone : ¬ start < length := Nat.not_lt.mpr hfuel
    simp only [parseOptions, if_neg hdone]
  | succ fuel ih =>
    conv_lhs => rw [parseOptions]
    conv_rhs => rw [parseOptions]
    split
    · refine ih _ _ ?_
      omega
    · rfl

/-! ### The server -/

inductive ServerState where
  | offer
  | ack
  | nak
  | idle
deriving DecidableEq, Repr

structure Server where
  table : Table
  stateMachine : ServerState
  clientRequestIp : Ip4
  allocatedClientAddress : Ip4
  clientAddr : Mac

def dhcpsInit : Server where
  table :=
    (Table.markIpInTable ⟨fun _ => false, fun _ => false, List.replicate c.apStaNum ⟨0, 0⟩⟩
      c.netif.ipAddr.addr4).markIpInTable c.netif.gw.addr4
  stateMachine := .idle
  clientRequestIp := .zero
  allocatedClientAddress := .zero
  clientAddr := 0

inductive ReplyType where
  | offer
  | ack
  | nak
deriving DecidableEq, Repr

structure Reply where
  type : ReplyType
  yiaddr : Ip4
deriving DecidableEq, Repr

/-- The part of `dhcps_handle_state_machine_change` that answers a request. -/
def handleRequest (s : Server) : Server :=
  let ipAddr4 := s.table.checkClientDirectRequestIp c s.clientRequestIp s.clientAddr
  let accepted :=
    { s with allocatedClientAddress := c.address ipAddr4, stateMachine := .ack }
  match s.stateMachine with
  | .offer =>
    if ipAddr4 > 0 then accepted
    else if s.allocatedClientAddress.addr4 ≠ 0 ∧
        s.allocatedClientAddress = s.clientRequestIp then { s with stateMachine := .ack }
    else { s with stateMachine := .nak }
  | .idle => if ipAddr4 > 0 then accepted else { s with stateMachine := .nak }
  | _ => { s with stateMachine := .nak }

def renew (s : Server) (ciaddr : Ip4) : Server :=
  if ciaddr ≠ .zero ∧ s.clientRequestIp = .zero then { s with clientRequestIp := ciaddr } else s

def dhcpsHandleStateMachineChange (s : Server) (ciaddr : Ip4) (type : UInt8) : Server :=
  if type = DHCP_MESSAGE_TYPE_DECLINE then { s with stateMachine := .idle }
  else if type = DHCP_MESSAGE_TYPE_DISCOVER then
    if s.stateMachine = .idle then { s with stateMachine := .offer } else s
  else if type = DHCP_MESSAGE_TYPE_REQUEST then handleRequest c (renew s ciaddr)
  else if type = DHCP_MESSAGE_TYPE_RELEASE then { s with stateMachine := .idle }
  else s

/-- The address that `dhcps_send_offer` allocates: the one that the client has, the one that
    it requests, or the next one. -/
def offerIp (s : Server) : UInt8 × Table :=
  let leased := s.table.dhcpsSearchClientIp s.clientAddr
  let requested := s.table.checkClientDirectRequestIp c s.clientRequestIp s.clientAddr
  if leased ≠ 0 then (leased, s.table)
  else if requested ≠ 0 then (requested, s.table)
  else s.table.searchNextIp c connected s.clientAddr

def dhcpsSendOffer (s : Server) : Server × Reply :=
  let (tempIp, table) := offerIp c connected s
  ({ s with table := table, allocatedClientAddress := c.address tempIp },
    ⟨.offer, c.address tempIp⟩)

def finishAck (s : Server) : Server where
  table := (s.table.markIpInTable s.allocatedClientAddress.addr4).saveClientAddr connected
    s.allocatedClientAddress.addr4 s.clientAddr
  stateMachine := .idle
  clientRequestIp := .zero
  allocatedClientAddress := .zero
  clientAddr := 0

/-- `dhcps_check_msg_and_handle_options`, up to the change of the state. -/
def readMessage (s : Server) (m : Msg) : Server :=
  let s := { s with
    clientAddr := m.chaddr
    clientRequestIp := m.parsed.2.getD s.clientRequestIp }
  dhcpsHandleStateMachineChange c s m.ciaddr m.parsed.1

/-- `dhcps_receive_udp_packet_handler`. -/
def dhcpsReceive (s : Server) (m : Msg) : Server × Option Reply :=
  if m.magicOk then
    let s := readMessage c s m
    match s.stateMachine with
    | .offer =>
      if m.allocOk then
        let (s, reply) := dhcpsSendOffer c connected s
        (s, some reply)
      else (s, none)
    | .ack =>
      (finishAck connected s, if m.allocOk then some ⟨.ack, s.allocatedClientAddress⟩ else none)
    | .nak => ({ s with stateMachine := .idle }, some ⟨.nak, s.allocatedClientAddress⟩)
    | .idle => (s, none)
  else ({ s with clientAddr := m.chaddr }, none)

/-! ### What a message can do -/

/-- The address that a request asks for: its option 50, what an earlier message has left, or the
    client's own. -/
def requestedIp (s : Server) (m : Msg) : Ip4 :=
  (renew { s with clientRequestIp := m.parsed.2.getD s.clientRequestIp } m.ciaddr).clientRequestIp

/-- A message that is answered with an offer: a discovery, or after an offer any message that is
    none of the known ones. -/
def Offering (s : Server) (m : Msg) : Prop :=
  m.parsed.1 = DHCP_MESSAGE_TYPE_DISCOVER ∨
  (s.stateMachine = .offer ∧ m.parsed.1 ≠ DHCP_MESSAGE_TYPE_DECLINE ∧
    m.parsed.1 ≠ DHCP_MESSAGE_TYPE_REQUEST ∧ m.parsed.1 ≠ DHCP_MESSAGE_TYPE_RELEASE)
deriving Decidable

def Server.Waiting (s : Server) : Prop := s.stateMachine = .idle ∨ s.stateMachine = .offer

def Acceptable (s : Server) (m : Msg) (ip : Ip4) : Prop :=
  (s.table.checkClientDirectRequestIp c (requestedIp s m) m.chaddr = ip.addr4 ∧
    ip = c.address ip.addr4) ∨
  (s.stateMachine = .offer ∧ s.allocatedClientAddress = ip ∧ requestedIp s m = ip)

inductive Outcome (c : Config) (connected : List Mac) (s : Server) (m : Msg) :
    Server → Option Reply → Prop where
  | quiet {s' : Server} (htable : s'.table = s.table)
      (hallocated : s'.allocatedClientAddress = s.allocatedClientAddress)
      (hwaiting : s'.Waiting) : Outcome c connected s m s' none
  | offered {s' s₁ : Server} (hmagic : m.magicOk = true) (hoffering : Offering s m)
      (hclient : s₁.clientAddr = m.chaddr)
      (hrequest : s₁.clientRequestIp = m.parsed.2.getD s.clientRequestIp)
      (hbefore : s₁.table = s.table)
      (htable : s'.table = (offerIp c connected s₁).2)
      (hallocated : s'.allocatedClientAddress = c.address (offerIp c connected s₁).1)
      (hwaiting : s'.Waiting) :
      Outcome c connected s m s' (some ⟨.offer, c.address (offerIp c connected s₁).1⟩)
  | acked {s' : Server} {ip : Ip4} {reply : Option Reply} (hmagic : m.magicOk = true)
      (htype : m.parsed.1 = DHCP_MESSAGE_TYPE_REQUEST) (hip : ip.addr4 ≠ 0)
      (hacceptable : Acceptable c s m ip)
      (htable : s'.table =
        (s.table.markIpInTable ip.addr4).saveClientAddr connected ip.addr4 m.chaddr)
      (hallocated : s'.allocatedClientAddress = .zero) (hwaiting : s'.Waiting)
      (hreply : reply = some ⟨.ack, ip⟩ ∨ reply = none) : Outcome c connected s m s' reply
  | refused {s' : Server} {ip : Ip4} (htable : s'.table = s.table)
      (hallocated : s'.allocatedClientAddress = s.allocatedClientAddress)
      (hwaiting : s'.Waiting) : Outcome c connected s m s' (some ⟨.nak, ip⟩)

section Outcomes

variable {c : Config} {connected : List Mac}

theorem handleRequest_cases (hwaiting : s.Waiting) :
    (∃ ip, handleRequest c s = { s with allocatedClientAddress := ip, stateMachine := .ack } ∧
      ip.addr4 ≠ 0 ∧
      ((s.table.checkClientDirectRequestIp c s.clientRequestIp s.clientAddr = ip.addr4 ∧
        ip = c.address ip.addr4) ∨
      (s.stateMachine = .offer ∧ s.allocatedClientAddress = ip ∧ s.clientRequestIp = ip))) ∨
    handleRequest c s = { s with stateMachine := .nak } := by
  unfold handleRequest
  generalize hcheck : s.table.checkClientDirectRequestIp c s.clientRequestIp s.clientAddr = ipAddr4
  by_cases hip : ipAddr4 > 0
  · refine .inl ⟨c.address ipAddr4, ?_, (fun h : ipAddr4 = 0 => ?_), .inl ⟨rfl, rfl⟩⟩
    · rcases hwaiting with hstate | hstate <;> simp only [hstate, if_pos hip]
    · rw [h] at hip
      exact absurd hip (by decide)
  rcases hwaiting with hstate | hstate
  · right
    simp only [hstate, if_neg hip]
  by_cases hsame : s.allocatedClientAddress.addr4 ≠ 0 ∧ s.allocatedClientAddress = s.clientRequestIp
  · left
    refine ⟨s.allocatedClientAddress, ?_, hsame.1, .inr ⟨hstate, rfl, hsame.2.symm⟩⟩
    simp only [hstate, if_neg hip, if_pos hsame]
  · right
    simp only [hstate, if_neg hip, if_neg hsame]

theorem readMessage_request (htype : m.parsed.1 = DHCP_MESSAGE_TYPE_REQUEST) :
    ∃ s₁ : Server, readMessage c s m = handleRequest c s₁ ∧ s₁.table = s.table ∧
      s₁.stateMachine = s.stateMachine ∧ s₁.allocatedClientAddress = s.allocatedClientAddress ∧
      s₁.clientAddr = m.chaddr ∧ s₁.clientRequestIp = requestedIp s m := by
  refine ⟨renew
    { s with clientAddr := m.chaddr, clientRequestIp := m.parsed.2.getD s.clientRequestIp }
    m.ciaddr, ?_, ?_⟩
  · rw [readMessage, htype]
    rfl
  · unfold requestedIp renew
    split
    · exact ⟨rfl, rfl, rfl, rfl, rfl⟩
    · exact ⟨rfl, rfl, rfl, rfl, rfl⟩

theorem readMessage_other (hwaiting : s.Waiting) (htype : m.parsed.1 ≠ DHCP_MESSAGE_TYPE_REQUEST) :
    ∃ state, ((state = .idle ∧ m.parsed.1 ≠ DHCP_MESSAGE_TYPE_DISCOVER) ∨
        (state = .offer ∧ Offering s m)) ∧
      readMessage c s m =
        { s with
          clientAddr := m.chaddr
          clientRequestIp := m.parsed.2.getD s.clientRequestIp
          stateMachine := state } := by
  unfold readMessage dhcpsHandleStateMachineChange
  dsimp only
  split_ifs with hdecline hdiscover hidle hrelease
  · exact ⟨.idle, .inl ⟨rfl, by rw [hdecline]; decide⟩, rfl⟩
  · exact ⟨.offer, .inr ⟨rfl, .inl hdiscover⟩, rfl⟩
  · exact ⟨s.stateMachine, .inr ⟨hwaiting.resolve_left hidle, .inl hdiscover⟩, rfl⟩
  · exact ⟨.idle, .inl ⟨rfl, hdiscover⟩, rfl⟩
  · refine ⟨s.stateMachine, hwaiting.imp (fun hidle => ⟨hidle, hdiscover⟩)
      fun hoffer => ⟨hoffer, .inr ?_⟩, rfl⟩
    exact ⟨hoffer, hdecline, htype, hrelease⟩

theorem outcome_of_request (hwaiting : s.Waiting) (hmagic : m.magicOk = true)
    (htype : m.parsed.1 = DHCP_MESSAGE_TYPE_REQUEST) :
    Outcome c connected s m (dhcpsReceive c connected s m).1 (dhcpsReceive c connected s m).2 := by
  obtain ⟨s₁, hread, htable, hstate, hallocated, hclient, hrequest⟩ :=
    @readMessage_request c s m htype
  have hwaiting₁ : s₁.Waiting := by
    unfold Server.Waiting
    rw [hstate]
    exact hwaiting
  rw [dhcpsReceive, if_pos hmagic, hread]
  rcases @handleRequest_cases c s₁ hwaiting₁ with ⟨ip, hack, hip, hwhy⟩ | hnak
  · rw [hack]
    rw [htable, hclient, hrequest, hstate, hallocated] at hwhy
    refine .acked hmagic htype hip hwhy ?_ rfl (.inl rfl) ?_
    · change (s₁.table.markIpInTable ip.addr4).saveClientAddr connected ip.addr4 s₁.clientAddr = _
      rw [htable, hclient]
    · dsimp only
      split
      · exact .inl rfl
      · exact .inr rfl
  · rw [hnak]
    exact .refused htable hallocated (.inl rfl)

theorem outcome_of_other (hwaiting : s.Waiting) (hmagic : m.magicOk = true)
    (htype : m.parsed.1 ≠ DHCP_MESSAGE_TYPE_REQUEST) :
    Outcome c connected s m (dhcpsReceive c connected s m).1 (dhcpsReceive c connected s m).2 := by
  obtain ⟨state, hstate, hread⟩ := @readMessage_other c s m hwaiting htype
  rw [dhcpsReceive, if_pos hmagic, hread]
  rcases hstate with ⟨rfl, _⟩ | ⟨rfl, hoffering⟩
  · exact .quiet rfl rfl (.inl rfl)
  split
  · exact .offered hmagic hoffering rfl rfl rfl rfl rfl (.inr rfl)
  · exact .quiet rfl rfl (.inr rfl)

/-- **Every message has one of the outcomes.** -/
theorem dhcpsReceive_outcome (hwaiting : s.Waiting) :
    Outcome c connected s m (dhcpsReceive c connected s m).1 (dhcpsReceive c connected s m).2 := by
  by_cases hmagic : m.magicOk = true
  · by_cases htype : m.parsed.1 = DHCP_MESSAGE_TYPE_REQUEST
    · exact outcome_of_request hwaiting hmagic htype
    · exact outcome_of_other hwaiting hmagic htype
  · rw [dhcpsReceive, if_neg hmagic]
    exact .quiet rfl rfl hwaiting

end Outcomes

end AmebaRtos.Dhcp
