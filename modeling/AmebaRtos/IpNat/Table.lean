import AmebaRtos.Lib.LinkedList

/-!
# The table of the address translation

`lwip_ip4nat.c`: stations of the access point reach other networks through the address of the
station interface. Each session has an entry of `ip_nat_table`. The entries in use are on a doubly
linked list, the newest first, the others on a singly linked list. Entries are taken off when a
search or a filter passes one that is too old.
-/

namespace AmebaRtos.IpNat

open Lib

def IP_NAT_MAX : Nat := 256
def NON_INDEX : UInt16 := 0xFFFF
def IP_PROTO_ICMP : UInt8 := 1
def IP_PROTO_TCP : UInt8 := 6
def IP_PROTO_UDP : UInt8 := 17
def IP_NAT_MAX_TIMEOUT_MS_TCP : UInt32 := 8 * 60 * 1000
def IP_NAT_MAX_TIMEOUT_MS_TCP_FIN_WAIT : UInt32 := 5 * 60 * 1000
def IP_NAT_MAX_TIMEOUT_MS_FILTER_DROP : UInt32 := 60 * 1000
def IP_NAT_MAX_TIMEOUT_MS_TCP_DISCON : UInt32 := 12 * 1000
def IP_NAT_MAX_TIMEOUT_MS_TCP_RST_DISCON : UInt32 := 6 * 1000
def IP_NAT_MAX_TIMEOUT_MS_UDP : UInt32 := 8 * 1000
def IP_NAT_MAX_TIMEOUT_MS_UDP_ALG : UInt32 := 20 * 1000
def IP_NAT_MAX_TIMEOUT_MS_ICMP : UInt32 := 2 * 1000

/-- `filter_drop_threshold`, as `ip_nat_initialize` sets it. -/
def filterDropThreshold : UInt32 := UInt32.ofNat (IP_NAT_MAX * 80 / 100)

/-- `struct nat_table` without its links. -/
structure Rule where
  src : UInt32
  dest : UInt32
  ts : UInt32
  sport : UInt16
  dport : UInt16
  portmap : UInt16
  proto : UInt8
  finWait1 : Bool
  finWait2 : Bool
  finAck1 : Bool
  finAck2 : Bool
  synAcked : Bool
  rst : Bool
  appUse : UInt32
  pktCount : UInt32
deriving DecidableEq, Repr

def Rule.zero : Rule :=
  ⟨0, 0, 0, 0, 0, 0, 0, false, false, false, false, false, false, 0, 0⟩

structure State where
  rule : UInt16 → Rule
  -- `next` and `prev` of the entries, `nat_entry_list` and `nat_entry_list_last`
  list : DList UInt16
  natEntryIdle : UInt16
  tcpEntryCount : UInt32
  udpEntryCount : UInt32
  icmpEntryCount : UInt32
  ipNatTcpMaxTimeout : UInt32
  ipNatUdpMaxTimeout : UInt32

def clearedLinks : DList UInt16 where
  next i := if i.toNat < IP_NAT_MAX - 1 then i + 1 else NON_INDEX
  prev _ := 0
  head := NON_INDEX
  last := NON_INDEX

/-- `ip_nat_initialize`, with the timeouts as they are set at the start. -/
def ipNatInitialize : State where
  rule _ := .zero
  list := clearedLinks
  natEntryIdle := 0
  tcpEntryCount := 0
  udpEntryCount := 0
  icmpEntryCount := 0
  ipNatTcpMaxTimeout := IP_NAT_MAX_TIMEOUT_MS_TCP
  ipNatUdpMaxTimeout := IP_NAT_MAX_TIMEOUT_MS_UDP

variable (s : State)

def ipNatReinitialize : State :=
  { s with
    rule := fun _ => .zero
    list := clearedLinks
    natEntryIdle := 0
    tcpEntryCount := 0
    udpEntryCount := 0
    icmpEntryCount := 0 }

def State.modify (s : State) (i : UInt16) (f : Rule → Rule) : State :=
  { s with rule := Function.update s.rule i (f (s.rule i)) }

def getNatEntryTimeElapsed (nowTs eTs : UInt32) : UInt32 :=
  if nowTs ≥ eTs then nowTs - eTs else nowTs + (eTs ^^^ 0xFFFFFFFF) + 1

/-! ### The lists -/

def changeCount (change : UInt32 → UInt32) (proto ofProto : UInt8) (count : UInt32) : UInt32 :=
  if proto = ofProto then change count else count

def State.changeCounts (change : UInt32 → UInt32) (proto : UInt8) : State :=
  { s with
    tcpEntryCount := changeCount change proto IP_PROTO_TCP s.tcpEntryCount
    udpEntryCount := changeCount change proto IP_PROTO_UDP s.udpEntryCount
    icmpEntryCount := changeCount change proto IP_PROTO_ICMP s.icmpEntryCount }

def ipNatInsertNewRule (ti : UInt16) : State :=
  { s with
    natEntryIdle := s.list.next ti
    list := s.list.pushFront NON_INDEX ti }.changeCounts (· + 1) (s.rule ti).proto

def ipNatSetEntryIdle (ti : UInt16) : State :=
  let list := s.list.unlink NON_INDEX ti
  { s with
    list := { list with
      prev := Function.update list.prev ti NON_INDEX
      next := Function.update list.next ti s.natEntryIdle }
    natEntryIdle := ti }.changeCounts (· - 1) (s.rule ti).proto

/-! ### Searching -/

inductive Visit where
  | expire
  | skip
  | found
deriving DecidableEq, Repr

/-- A walk along the list; the next index is read before the entry is taken off. A list that does
    not end has no result. -/
def walk (visit : Rule → Visit) : Nat → UInt16 → State → Option (State × Option UInt16)
  | 0, _, _ => none
  | fuel + 1, i, s =>
    if i = NON_INDEX then some (s, none)
    else
      let next := s.list.next i
      match visit (s.rule i) with
      | .expire => walk visit fuel next (ipNatSetEntryIdle s i)
      | .skip => walk visit fuel next s
      | .found => some (s, some i)

/-- The parameters of `ip_nat_entry_search`. -/
structure Query where
  proto : UInt8
  addr : UInt32
  port : UInt16
  portmap : UInt16
  dest : Bool
  frag : Bool
  daddr : UInt32
  dportmap : UInt16

def checkAge (tcpMaxTimeout udpMaxTimeout now : UInt32) (e : Rule) : Option Visit :=
  let elapsed := getNatEntryTimeElapsed now e.ts
  if e.proto = IP_PROTO_TCP ∧
      ((((e.finAck1 ∧ e.finAck2) ∨ ¬ e.synAcked) ∧ elapsed > IP_NAT_MAX_TIMEOUT_MS_TCP_DISCON) ∨
        elapsed > tcpMaxTimeout) ∧
      ((¬ e.synAcked ∧ elapsed > IP_NAT_MAX_TIMEOUT_MS_TCP_DISCON) ∨
        (e.finAck1 ∧ e.finAck2 ∧ elapsed > IP_NAT_MAX_TIMEOUT_MS_TCP_FIN_WAIT) ∨
        elapsed > tcpMaxTimeout) then some .expire
  else if e.proto = IP_PROTO_TCP ∧ e.rst ∧ elapsed > IP_NAT_MAX_TIMEOUT_MS_TCP_RST_DISCON then
    some .expire
  else if e.proto = IP_PROTO_UDP ∧ elapsed > udpMaxTimeout then
    if e.appUse = 0 then some .expire
    else if e.appUse = 1 ∧ elapsed > IP_NAT_MAX_TIMEOUT_MS_UDP_ALG then some .expire
    -- it stays on the list, but no search finds it
    else some .skip
  else if e.proto = IP_PROTO_ICMP ∧ elapsed > IP_NAT_MAX_TIMEOUT_MS_ICMP then some .expire
  else none

def Query.found (q : Query) (e : Rule) : Bool :=
  e.proto = q.proto &&
    match q.frag, q.dest with
    | false, false =>
      e.src = q.addr && (e.sport = q.port ||
          (q.daddr ≠ 0 && e.dest = q.daddr && q.dportmap ≠ 0 && e.dport = q.dportmap))
    | false, true =>
      e.dest = q.addr && ((q.daddr ≠ 0 && e.dest = q.daddr && q.dportmap ≠ 0 && e.dport = q.port) ||
          (e.dport = q.port && (e.portmap = q.portmap || q.portmap = 0)))
    | true, false => e.src = q.addr && e.dest = q.daddr
    | true, true => e.dest = q.addr

def searchVisit (tcpMaxTimeout udpMaxTimeout now : UInt32) (q : Query) (e : Rule) : Visit :=
  match checkAge tcpMaxTimeout udpMaxTimeout now e with
  | some visit => visit
  | none => if q.found e then .found else .skip

variable (now : UInt32)

def Rule.touch (e : Rule) : Rule := { e with ts := now, pktCount := e.pktCount + 1 }

def State.touchFound : Option UInt16 → State
  | some i => s.modify i (Rule.touch now)
  | none => s

def ipNatEntrySearch (q : Query) : Option (State × Option UInt16) :=
  (walk (searchVisit s.ipNatTcpMaxTimeout s.ipNatUdpMaxTimeout now q) (IP_NAT_MAX + 1)
    s.list.head s).map fun r => (r.1.touchFound now r.2, r.2)

def filterVisit (now thresholdValue : UInt32) (e : Rule) : Visit :=
  if getNatEntryTimeElapsed now e.ts > thresholdValue then
    if e.proto = IP_PROTO_TCP then
      if (e.finAck1 ∧ e.finAck2) ∨ e.rst then .expire else .skip
    else .expire
  else .skip

def filterOldNatEntry (now thresholdValue : UInt32) : Option State :=
  (walk (filterVisit now thresholdValue) (IP_NAT_MAX + 1) s.list.head s).map Prod.fst

/-! ### Adding an entry -/

def Query.outgoing (proto : UInt8) (src : UInt32) (sport : UInt16) : Query :=
  ⟨proto, src, sport, 0, false, false, 0, 0⟩

def Query.incoming (proto : UInt8) (src : UInt32) (sport dport : UInt16) : Query :=
  ⟨proto, src, sport, dport, true, false, 0, 0⟩

def State.renewEntry (i : UInt16) (f : Rule → Rule) : State :=
  ipNatInsertNewRule ((ipNatSetEntryIdle s i).modify i f) i

def Rule.fresh (now : UInt32) (proto : UInt8) (src : UInt32) (sport : UInt16) (dest : UInt32)
    (dport : UInt16) (appUse : UInt32) (e : Rule) : Rule :=
  { e with
    ts := now
    src := src
    dest := dest
    sport := sport
    dport := dport
    portmap := sport
    proto := proto
    finWait1 := false
    finWait2 := false
    finAck1 := false
    finAck2 := false
    synAcked := false
    rst := false
    appUse := appUse }

def Rule.retarget (now dest : UInt32) (dport : UInt16) (appUse : UInt32) (e : Rule) : Rule :=
  { e with ts := now, dest := dest, dport := dport, appUse := appUse }

def State.dropOld : Option State :=
  if s.tcpEntryCount + s.udpEntryCount + s.icmpEntryCount > filterDropThreshold then
    filterOldNatEntry s now IP_NAT_MAX_TIMEOUT_MS_FILTER_DROP
  else some s

/-- `ip_nat_add_entry`; the result is the port outside, or 0. -/
def ipNatAddEntry (proto : UInt8) (src : UInt32) (sport : UInt16)
    (dest : UInt32) (dport : UInt16) (appUse : UInt32) : Option (State × UInt16) := do
  let s ← s.dropOld now
  let (s, entry) ← ipNatEntrySearch s now (.outgoing proto src sport)
  match entry with
  | some i =>
    let s := (s.modify i (Rule.retarget now dest dport appUse)).renewEntry i id
    some (s, (s.rule i).portmap)
  | none =>
    let i := s.natEntryIdle
    if i ≠ NON_INDEX then
      let s := s.modify i (Rule.fresh now proto src sport dest dport appUse)
      some (ipNatInsertNewRule s i, sport)
    else do
      let s ← filterOldNatEntry s now (IP_NAT_MAX_TIMEOUT_MS_FILTER_DROP - 20000)
      some (s, 0)

end AmebaRtos.IpNat
