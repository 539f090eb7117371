import AmebaRtos.IpNat.Flows

/-!
# Replies

Outside, two clients with the same port and the same server cannot be told apart, and inside, a
client's port is one entry, whatever the server: a packet of the one flow then takes the entry of
the other. As long as no packet is of such a flow, and there is an entry for a new one, replies
reach their client.
-/

namespace AmebaRtos.IpNat

open Lib Function List

variable (p : IpPacket)

/-! ### Records of the flows -/

def flowOf : Flow := ⟨p.proto, p.src, p.sport, p.dest, p.dport⟩

def IpPacket.OfFlow : Prop :=
  (p.proto = IP_PROTO_TCP ∨ p.proto = IP_PROTO_UDP) ∧ p.fragOffset = 0
deriving Decidable

variable (s : State) (flows : Flow → Option Conn) (now : Nat) (p : IpPacket)

def liveConn (f : Flow) : Option Conn :=
  (flows f).filter fun c => ¬ TimedOut s f c now

def Conn.used (c : Conn) : Conn :=
  { (if p.proto = IP_PROTO_TCP ∧ ¬ p.Opening then c.sent p.flags else c) with lastUse := now }

def Conn.answered (c : Conn) : Conn :=
  { (if p.proto = IP_PROTO_TCP then c.received p.flags else c) with lastUse := now }

def outward : Flow → Option Conn :=
  update flows (flowOf p)
    (some (((liveConn s flows now (flowOf p)).map (Conn.used now p)).getD (Conn.new now)))

def Flow.AnsweredBy (f : Flow) (p : IpPacket) : Prop :=
  f.proto = p.proto ∧ f.server = p.src ∧ f.serverPort = p.sport ∧ f.clientPort = p.dport
deriving Decidable

def inward : Flow → Option Conn :=
  fun f =>
    if p.OfFlow ∧ f.AnsweredBy p then (liveConn s flows now f).map (Conn.answered now p)
    else flows f

/-! ### The system -/

structure System where
  table : State
  -- real time in milliseconds; `sys_now` counts modulo 2^32
  clock : Nat
  flows : Flow → Option Conn

/-- A packet some time after the one before. -/
inductive Event where
  | forward (after : Nat) (outAddr : UInt32) (p : IpPacket)
  | receive (after : Nat) (p : IpPacket)

variable (n : System) (now : Nat) (p : IpPacket)

def System.flowsAfter (err : Err) (p' : IpPacket) : Flow → Option Conn :=
  if p.OfFlow ∧ err = .ok ∧ p' ≠ p then outward n.table n.flows now p else n.flows

def flowStep : Event → System
  | .forward after outAddr p =>
    let now := n.clock + after
    match ipNatForwardPacket n.table (UInt32.ofNat now) outAddr p with
    | some (table, err, p') => ⟨table, now, n.flowsAfter now p err p'⟩
    | none => n
  | .receive after p =>
    let now := n.clock + after
    match ipNatRxPacket n.table (UInt32.ofNat now) p with
    | some (table, _) => ⟨table, now, inward n.table n.flows now p⟩
    | none => n

/-- A start with any timeouts. -/
def System.init (tcpMaxTimeout udpMaxTimeout : UInt32) (clock : Nat) : System where
  table :=
    { ipNatInitialize with
      ipNatTcpMaxTimeout := tcpMaxTimeout
      ipNatUdpMaxTimeout := udpMaxTimeout }
  clock := clock
  flows _ := none

/-- Every reply of a flow that was translated outward and has not timed out is sent to the
    client of the flow. -/
def RepliesReach : Prop :=
  ∀ f c now, n.clock ≤ now → n.flows f = some c → ¬ TimedOut n.table f c now →
    ∀ p : IpPacket, p.fragOffset = 0 → f.AnsweredBy p →
      Ends (ipNatRxPacket n.table (UInt32.ofNat now) p) fun r => r.2 = { p with dest := f.client }

/-! ### Conditions -/

def Clash (g f : Flow) : Prop :=
  g.proto = f.proto ∧ ((f.client = g.client ∧ f.clientPort = g.clientPort) ∨
      (f.server = g.server ∧ f.serverPort = g.serverPort ∧ f.clientPort = g.clientPort))

structure OutwardCond (n : System) (now : Nat) (outAddr : UInt32) (p : IpPacket) : Prop where
  addr : outAddr ≠ p.src
  port : p.sport ≠ 0
  clash : ∀ g c, n.flows g = some c → ¬ TimedOut n.table g c now → g ≠ flowOf p →
    ¬ Clash g (flowOf p)
  -- an entry of a flow that has timed out may still look young, after 2^32 ms
  stale : liveConn n.table n.flows now (flowOf p) = none → ∀ i ∈ n.table.active,
    checkAge n.table.ipNatTcpMaxTimeout n.table.ipNatUdpMaxTimeout (UInt32.ofNat now)
      (n.table.rule i) = none →
    ¬ ((n.table.rule i).proto = p.proto ∧ (n.table.rule i).src = p.src ∧
      (n.table.rule i).sport = p.sport)
  -- a packet of an unknown connection takes the entry of another one to the same server
  other : p.proto = IP_PROTO_TCP → ¬ p.Opening → liveConn n.table n.flows now (flowOf p) = none →
    ∀ g c, n.flows g = some c → ¬ TimedOut n.table g c now → g.proto = IP_PROTO_TCP →
      g.client = p.src → g.server = p.dest → g.serverPort ≠ p.dport

def Spared (f : Flow) (c : Conn) (now : Nat) : Prop :=
  ¬ IP_NAT_MAX_TIMEOUT_MS_FILTER_DROP.toNat < now - c.lastUse ∨
    (f.proto = IP_PROTO_TCP ∧ ¬ (c.finAck1 = true ∧ c.finAck2 = true) ∧ c.rst = false)

/-- There is an entry for a new session, and if there are many, none is dropped that is still
    needed. -/
structure AddCond (n : System) (now : Nat) (p : IpPacket) : Prop where
  room : liveConn n.table n.flows now (flowOf p) = none → (n.table.active.filter fun i =>
      checkAge n.table.ipNatTcpMaxTimeout n.table.ipNatUdpMaxTimeout (UInt32.ofNat now)
        (n.table.rule i) ≠ some .expire).length < IP_NAT_MAX
  spare : filterDropThreshold.toNat < n.table.active.length → ∀ f c, n.flows f = some c →
    ¬ TimedOut n.table f c now → Spared f c now

def Adds : Prop :=
  (p.proto = IP_PROTO_TCP ∧ p.Opening) ∨
  (p.proto = IP_PROTO_UDP ∧ p.fragOffset = 0 ∧ liveConn n.table n.flows now (flowOf p) = none) ∨
  (p.proto = IP_PROTO_ICMP ∧ p.fragOffset = 0 ∧ p.icmpType = ICMP_ECHO)

def FlowCond : Event → Prop
  | .forward after outAddr p =>
    (p.proto = IP_PROTO_TCP → p.fragOffset = 0) ∧
    (p.OfFlow → OutwardCond n (n.clock + after) outAddr p) ∧
    (Adds n (n.clock + after) p → AddCond n (n.clock + after) p)
  | .receive _ p => p.proto = IP_PROTO_TCP → p.fragOffset = 0 ∧ p.dport ≠ 0

/-! ### Adding entries -/

section

variable {flows : Flow → Option Conn} {s s' : State} {active : List UInt16} {now : Nat}

theorem outgoing_found :
    (Query.outgoing proto src sport).found e = true ↔
      e.proto = proto ∧ e.src = src ∧ e.sport = sport := by
  change (decide (e.proto = proto) && (decide (e.src = src) &&
    (decide (e.sport = sport) || (decide ((0 : UInt32) ≠ 0) && _ && _ && _)))) = true ↔ _
  simp

theorem incoming_found :
    (Query.incoming proto src sport dport).found e = true ↔
      e.proto = proto ∧ e.dest = src ∧ e.dport = sport ∧ (e.portmap = dport ∨ dport = 0) := by
  change (decide (e.proto = proto) && (decide (e.dest = src) &&
    ((decide ((0 : UInt32) ≠ 0) && _ && _ && _) ||
      (decide (e.dport = sport) && (decide (e.portmap = dport) || decide (dport = 0)))))) = true ↔ _
  simp

theorem known_found
    (h : (⟨IP_PROTO_TCP, src, sport, 0, false, false, dest, dport⟩ : Query).found e = true) :
    e.proto = IP_PROTO_TCP ∧ e.src = src ∧
      (e.sport = sport ∨ (e.dest = dest ∧ e.dport = dport)) := by
  change (decide (e.proto = IP_PROTO_TCP) && (decide (e.src = src) && (decide (e.sport = sport) ||
    (decide (dest ≠ 0) && decide (e.dest = dest) && decide (dport ≠ 0) &&
      decide (e.dport = dport))))) = true at h
  simp only [Bool.and_eq_true, Bool.or_eq_true, decide_eq_true_eq] at h
  obtain ⟨hproto, hsrc, hsport | ⟨⟨⟨_, hdest⟩, _⟩, hdport⟩⟩ := h
  · exact ⟨hproto, hsrc, .inl hsport⟩
  · exact ⟨hproto, hsrc, .inr ⟨hdest, hdport⟩⟩

theorem Follows.filterVisit_ne (h : Follows f c now e) (hspared : Spared f c now) :
    filterVisit (UInt32.ofNat now) IP_NAT_MAX_TIMEOUT_MS_FILTER_DROP e ≠ .expire := by
  unfold filterVisit
  rcases hspared with hyoung | ⟨htcp, hfin, hrst⟩
  · rw [if_neg (h.elapsed_le hyoung)]
    simp
  have hkeep : ¬ ((e.finAck1 = true ∧ e.finAck2 = true) ∨ e.rst = true) := by
    rw [h.finAck1, h.finAck2, h.rst, hrst]
    simpa using hfin
  rw [if_pos (h.proto.trans htcp)]
  split <;> simp

theorem protoCount_le (rule : UInt16 → Rule) (l : List UInt16) :
    protoCount rule IP_PROTO_TCP l + protoCount rule IP_PROTO_UDP l +
      protoCount rule IP_PROTO_ICMP l ≤ l.length := by
  induction l with
  | nil => exact le_refl 0
  | cons i l ih =>
    rw [protoCount_cons, protoCount_cons, protoCount_cons, length_cons]
    have hone : (if (rule i).proto = IP_PROTO_TCP then 1 else 0) +
        (if (rule i).proto = IP_PROTO_UDP then 1 else 0) +
        (if (rule i).proto = IP_PROTO_ICMP then 1 else 0) ≤ 1 := by
      by_cases htcp : (rule i).proto = IP_PROTO_TCP
      · rw [htcp]
        decide
      rw [if_neg htcp]
      by_cases hudp : (rule i).proto = IP_PROTO_UDP
      · rw [hudp]
        decide
      · rw [if_neg hudp]
        split <;> omega
    omega

theorem Lists.many (h : Lists s active idle)
    (hmany : s.tcpEntryCount + s.udpEntryCount + s.icmpEntryCount > filterDropThreshold) :
    filterDropThreshold.toNat < active.length := by
  have hsum := protoCount_le s.rule active
  rw [← h.counted.tcp, ← h.counted.udp, ← h.counted.icmp] at hsum
  rw [gt_iff_lt, UInt32.lt_iff_toNat_lt, UInt32.toNat_add, UInt32.toNat_add] at hmany
  omega

def Sparing (flows : Flow → Option Conn) (s : State) (active : List UInt16) (now : Nat) : Prop :=
  filterDropThreshold.toNat < active.length → ∀ f c, flows f = some c → ¬ TimedOut s f c now →
    Spared f c now

def Roomy (s : State) (active : List UInt16) (now : Nat) : Prop :=
  (active.filter fun i => checkAge s.ipNatTcpMaxTimeout s.ipNatUdpMaxTimeout (UInt32.ofNat now)
    (s.rule i) ≠ some .expire).length < IP_NAT_MAX

def Unclashed (flows : Flow → Option Conn) (s : State) (now : Nat) (f : Flow) : Prop :=
  ∀ g c, flows g = some c → ¬ TimedOut s g c now → g ≠ f → ¬ Clash g f

theorem Roomy.shrink (h : Roomy s active now) (hsub : active'.Sublist active)
    (hsame : SameRules s s') : Roomy s' active' now := by
  unfold Roomy
  rw [hsame.rule, hsame.tcp, hsame.udp]
  exact lt_of_le_of_lt (hsub.filter _).length_le h

theorem Unclashed.congr (h : Unclashed flows s now f)
    (htcp : s'.ipNatTcpMaxTimeout = s.ipNatTcpMaxTimeout)
    (hudp : s'.ipNatUdpMaxTimeout = s.ipNatUdpMaxTimeout) : Unclashed flows s' now f := by
  intro g c hflow hlive
  rw [timedOut_congr htcp hudp] at hlive
  exact h g c hflow hlive

theorem Good.dropOld (h : Good flows s active now) (hspare : Sparing flows s active now) :
    Ends (s.dropOld (UInt32.ofNat now)) fun s' =>
      ∃ active', active'.Sublist active ∧ SameRules s s' ∧ Good flows s' active' now := by
  obtain ⟨idle, hlists⟩ := h.lists
  unfold State.dropOld
  split
  · rename_i hmany
    have hspared := hspare (hlists.many hmany)
    obtain ⟨s', visited, rest, idle', hwalk, hsplit, hlists', hwalked⟩ :=
      walk_head (filterVisit (UInt32.ofNat now) IP_NAT_MAX_TIMEOUT_MS_FILTER_DROP) hlists
    refine ⟨s', ?_, _, ?_, hwalked.same, ⟨idle', hlists'⟩, fun f c hflow hlive => ?_⟩
    · unfold filterOldNatEntry
      rw [hwalk]
      rfl
    · rw [hsplit]
      exact filter_sublist.append_right rest
    · rw [timedOut_congr hwalked.same.tcp hwalked.same.udp] at hlive
      obtain ⟨hok, i, htracked⟩ := h.tracked f c hflow hlive
      have hfind := htracked.find
      rw [hsplit] at hfind
      refine ⟨hok, i, ?_, ?_⟩
      · rw [hwalked.same.rule]
        refine find?_kept hfind fun _ => decide_eq_true ?_
        exact htracked.follows.filterVisit_ne (hspared f c hflow hlive)
      · rw [hwalked.same.rule]
        exact htracked.follows
  · exact ends_some ⟨active, List.Sublist.refl _, ⟨rfl, rfl, rfl⟩, h⟩

/-- An entry is put in front: other flows are tracked as before if it is no rival, and its own flow
    is tracked by it. -/
structure Pushed (s : State) (active : List UInt16) (now : Nat) (s' : State) (i : UInt16) (e : Rule)
    (active' : List UInt16) : Prop where
  lists : ∃ idle, Lists s' active' idle
  tcp : s'.ipNatTcpMaxTimeout = s.ipNatTcpMaxTimeout
  udp : s'.ipNatUdpMaxTimeout = s.ipNatUdpMaxTimeout
  others : ∀ f c k, TrackedAt s active f c now k → k ≠ i → ¬ Rival f e → Tracked s' active' f c now
  own : ∀ f c, Follows f c now e → Tracked s' active' f c now

theorem pushed_fresh {idle : List UInt16} (h : Lists s active idle)
    (hidle : s.natEntryIdle ≠ NON_INDEX) (g : Rule → Rule) :
    (∃ active', Pushed s active now
      (ipNatInsertNewRule (s.modify s.natEntryIdle g) s.natEntryIdle) s.natEntryIdle
      (g (s.rule s.natEntryIdle)) active') ∧
    ∀ f c, ¬ TrackedAt s active f c now s.natEntryIdle := by
  obtain ⟨rest, hrest, hlists⟩ := @Lists.fresh s active idle g h hidle
  have hnew : ∀ j ∈ active, j ≠ s.natEntryIdle := by
    rintro j hj rfl
    refine h.not_mem_idle hj ?_
    rw [hrest]
    exact .head _
  have hrule : (ipNatInsertNewRule (s.modify s.natEntryIdle g) s.natEntryIdle).rule s.natEntryIdle =
      g (s.rule s.natEntryIdle) := modify_rule_self
  refine ⟨⟨_, ⟨rest, hlists⟩, rfl, rfl, fun f c k htracked _ hnot => ?_, fun f c hfollows => ?_⟩,
    fun f c htracked => hnew _ (mem_of_find?_eq_some htracked.find) rfl⟩
  · refine tracked_cons_other htracked (fun j hj => modify_rule_of_ne (hnew j hj)) ?_
    rw [hrule]
    exact hnot
  · refine tracked_cons_own ?_
    rw [hrule]
    exact hfollows

theorem pushed_renew {idle : List UInt16} (h : Lists s active idle) (hi : i ∈ active)
    (g : Rule → Rule) : ∃ active', Pushed s active now (s.renewEntry i g) i
      (g (s.rule i)) active' := by
  obtain ⟨l₁, l₂, rfl⟩ := append_of_mem hi
  have hnodup := nodup_middle.mp h.linked.nodup
  have hother : ∀ j ∈ l₁ ++ l₂, j ≠ i := by
    rintro j hj rfl
    exact (nodup_cons.mp hnodup).1 hj
  have hrule : (s.renewEntry i g).rule i = g (s.rule i) := modify_rule_self
  refine ⟨_, ⟨idle, h.renewEntry⟩, rfl, rfl, fun f c k htracked hne hnot => ?_,
    fun f c hfollows => ?_⟩
  · refine tracked_cons_other ⟨find?_remove htracked.find hne, htracked.follows⟩
      (fun j hj => modify_rule_of_ne (hother j hj)) ?_
    rw [hrule]
    exact hnot
  · refine tracked_cons_own ?_
    rw [hrule]
    exact hfollows

structure Ready (flows : Flow → Option Conn) (s : State) (active : List UInt16) (now : Nat)
    (f : Flow) : Prop where
  quiet : ∀ j ∈ active, checkAge s.ipNatTcpMaxTimeout s.ipNatUdpMaxTimeout (UInt32.ofNat now)
    (s.rule j) = none → ¬ ((s.rule j).proto = f.proto ∧ (s.rule j).src = f.client ∧
      (s.rule j).sport = f.clientPort)
  room : (active.filter fun j => checkAge s.ipNatTcpMaxTimeout s.ipNatUdpMaxTimeout
    (UInt32.ofNat now) (s.rule j) ≠ some .expire).length < IP_NAT_MAX
  spare : filterDropThreshold.toNat < active.length → ∀ g c, flows g = some c →
    ¬ TimedOut s g c now → Spared g c now

theorem Ready.shrink (h : Ready flows s active now f) (hsub : active'.Sublist active)
    (hsame : SameRules s s') : Ready flows s' active' now f := by
  refine ⟨?_, Roomy.shrink h.room hsub hsame, ?_⟩
  · intro j hj
    rw [hsame.rule, hsame.tcp, hsame.udp]
    exact h.quiet j (hsub.subset hj)
  · intro hmany g c hflow hlive
    rw [timedOut_congr hsame.tcp hsame.udp] at hlive
    exact h.spare (lt_of_lt_of_le hmany hsub.length_le) g c hflow hlive

end

/-! ### Searches that find nothing -/

section

variable {s s' : State} {now : Nat}

theorem searchVisit_eq_expire :
    searchVisit tcpMax udpMax time q e = .expire ↔
      checkAge tcpMax udpMax time e = some .expire := by
  unfold searchVisit
  split
  · rename_i hage
    rw [hage, Option.some_inj]
  · rename_i hage
    rw [hage]
    split <;> simp

section

variable (h : Searched s (UInt32.ofNat now) q active s' none visited rest idle')
include h

theorem Searched.shrinks :
    (kept (searchVisit s.ipNatTcpMaxTimeout s.ipNatUdpMaxTimeout (UInt32.ofNat now) q) s visited ++
      rest).Sublist active ∧ SameRules s s' := by
  refine ⟨?_, h.rule, h.tcp, h.udp⟩
  rw [h.split]
  exact filter_sublist.append_right rest

theorem Searched.idle_ne (hroom : Roomy s active now) : s'.natEntryIdle ≠ NON_INDEX := by
  have hrest : rest = [] := List.head?_eq_none_iff.mp h.entry_eq.symm
  have hlists := h.lists
  have hvisited : active = visited := by rw [h.split, hrest, append_nil]
  subst hvisited
  have hkept : kept (searchVisit s.ipNatTcpMaxTimeout s.ipNatUdpMaxTimeout (UInt32.ofNat now) q) s
      active = active.filter fun j => checkAge s.ipNatTcpMaxTimeout s.ipNatUdpMaxTimeout
        (UInt32.ofNat now) (s.rule j) ≠ some .expire := by
    refine filter_congr fun j _ => ?_
    exact decide_eq_decide.mpr (not_congr searchVisit_eq_expire)
  unfold Roomy at hroom
  rw [hrest, append_nil, hkept] at hlists
  have hlength := hlists.all.length_eq
  rw [length_append, indices, length_map, length_range] at hlength
  cases idle' with
  | nil =>
    rw [length_nil] at hlength
    omega
  | cons t idle' =>
    rw [hlists.unused.1]
    exact hlists.unused.2.1

end

theorem Ready.not_found (h : Ready flows s active now f) :
    ∀ j ∈ active, searchVisit s.ipNatTcpMaxTimeout s.ipNatUdpMaxTimeout (UInt32.ofNat now)
      (.outgoing f.proto f.client f.clientPort) (s.rule j) ≠ .found := by
  intro j hj hfound
  obtain ⟨hage, hmatch⟩ := found_of_searchVisit hfound
  exact h.quiet j hj hage (outgoing_found.mp hmatch)

end

/-! ### Adding an entry for a flow -/

section

variable {flows : Flow → Option Conn} {s : State} {now : Nat}

theorem Follows.clash {g : Flow} (h : Follows f c now e) (hrival : Rival g e) : Clash g f := by
  obtain ⟨hproto, hkeys⟩ := hrival
  refine ⟨hproto.symm.trans h.proto, hkeys.imp ?_ ?_⟩
  · rintro ⟨hsrc, hsport⟩
    exact ⟨h.src.symm.trans hsrc, h.sport.symm.trans hsport⟩
  · rintro ⟨hdest, hdport, hportmap⟩
    exact ⟨h.dest.symm.trans hdest, h.dport.symm.trans hdport, h.portmap.symm.trans hportmap⟩

theorem Pushed.good (hpushed : Pushed s active now s' i e active') (h : Good flows s active now)
    (hflow : FlowOk f) (hfollows : Follows f c' now e) (hclash : Unclashed flows s now f)
    (hown : ∀ g c, TrackedAt s active g c now i → g = f) :
    Good (update flows f (some c')) s' active' now := by
  refine good_update hpushed.lists (fun g c hg hgflow hlive => ?_)
    ⟨hflow, hpushed.own f c' hfollows⟩
  rw [timedOut_congr hpushed.tcp hpushed.udp] at hlive
  obtain ⟨hok, k, htracked⟩ := h.tracked g c hgflow hlive
  refine ⟨hok, hpushed.others g c k htracked ?_ fun hrival => ?_⟩
  · rintro rfl
    exact hg (hown g c htracked)
  · exact hclash g c hgflow hlive hg (hfollows.clash hrival)

theorem follows_fresh : Follows f (.new now) now
      (Rule.fresh (UInt32.ofNat now) f.proto f.client f.clientPort f.server f.serverPort 0 e) :=
  ⟨rfl, rfl, rfl, rfl, rfl, rfl, rfl, rfl, rfl, rfl, rfl, rfl, rfl,
    now, le_refl now, le_refl now, rfl⟩

theorem Good.searching (h : Good flows s active now) :
    Ends (ipNatEntrySearch s (UInt32.ofNat now) q) fun r => ∃ visited rest idle',
      Searched s (UInt32.ofNat now) q active r.1 r.2 visited rest idle' ∧ Good flows r.1
        (kept (searchVisit s.ipNatTcpMaxTimeout s.ipNatUdpMaxTimeout (UInt32.ofNat now) q) s
          visited ++ rest) now := by
  obtain ⟨idle, hlists⟩ := h.lists
  refine (ipNatEntrySearch_spec hlists).mono ?_
  rintro r ⟨visited, rest, idle', hsearched⟩
  exact ⟨visited, rest, idle', hsearched, h.search hsearched⟩

theorem Good.addNew (h : Good flows s active now) (hflow : FlowOk f)
    (hready : Ready flows s active now f)
    (hclash : Unclashed flows s now f) :
    Ends (ipNatAddEntry s (UInt32.ofNat now) f.proto f.client f.clientPort f.server f.serverPort 0)
      fun r => ∃ active', Good (update flows f (some (.new now))) r.1 active' now := by
  refine (h.dropOld hready.spare).bind ?_
  rintro s₁ ⟨active₁, hsub, hsame, hgood⟩
  have hready₁ := hready.shrink hsub hsame
  refine hgood.searching.bind ?_
  rintro ⟨s₂, entry⟩ ⟨visited, rest, idle', hsearched, hgood₂⟩
  obtain ⟨rfl, _⟩ := hsearched.entry_none hready₁.not_found
  have hidle := hsearched.idle_ne hready₁.room
  obtain ⟨⟨active', hpushed⟩, hfree⟩ := @pushed_fresh s₂ _ now idle' hsearched.lists hidle
    (Rule.fresh (UInt32.ofNat now) f.proto f.client f.clientPort f.server f.serverPort 0)
  dsimp only
  rw [if_pos hidle]
  exact ends_some ⟨active', hpushed.good hgood₂ hflow follows_fresh
    ((hclash.congr hsame.tcp hsame.udp).congr hsearched.tcp hsearched.udp)
    fun g c htracked => absurd htracked (hfree g c)⟩

theorem renewEntry_modify {i : UInt16} {g : Rule → Rule} (hproto : ∀ e, (g e).proto = e.proto) :
    (s.modify i g).renewEntry i id = s.renewEntry i g := by
  simp [State.renewEntry, State.modify, ipNatSetEntryIdle, State.changeCounts,
    hproto]

theorem Searched.ts_eq (h : Searched s (UInt32.ofNat now) q active s' (some i) visited rest idle') :
    (s'.rule i).ts = UInt32.ofNat now := by
  rw [h.rule]
  exact congrArg Rule.ts modify_rule_self

theorem Searched.found_entry {q : Query}
    (h : Searched s (UInt32.ofNat now) q active s' (some i) visited rest idle') :
    q.found (s'.rule i) = true := by
  rw [h.rule]
  change q.found (update s.rule i _ i) = true
  rw [update_self]
  exact (found_of_searchVisit (h.found i rfl)).2

section

variable (h : Good flows s active now) (hrecord : flows f = some c) (hlive : ¬ TimedOut s f c now)
include h hrecord hlive

theorem Good.searchLive :
    Ends (ipNatEntrySearch s (UInt32.ofNat now) (.outgoing f.proto f.client f.clientPort)) fun r =>
      ∃ i active', r.2 = some i ∧ Good flows r.1 active' now ∧ FlowOk f ∧
        TrackedAt r.1 active' f { c with lastUse := now } now i ∧
        r.1.ipNatTcpMaxTimeout = s.ipNatTcpMaxTimeout ∧
        r.1.ipNatUdpMaxTimeout = s.ipNatUdpMaxTimeout := by
  obtain ⟨hok, i, htracked⟩ := h.tracked f c hrecord hlive
  refine h.searching.mono ?_
  rintro ⟨s', entry⟩ ⟨visited, rest, idle', hsearched, hgood⟩
  have hentry := hsearched.entry_of_tracked htracked hok hlive
    (outgoing_found.mpr ⟨htracked.follows.proto, htracked.follows.src, htracked.follows.sport⟩)
    fun e he => ⟨(outgoing_found.mp he).1, .inl (outgoing_found.mp he).2⟩
  subst hentry
  have htracked' := htracked.search hok hlive hsearched
  exact ⟨i, _, rfl, hgood, hok, ⟨htracked'.find, htracked'.follows.used hsearched.ts_eq⟩,
    hsearched.tcp, hsearched.udp⟩

theorem Good.addLive (hspare : Sparing flows s active now) (hclash : Unclashed flows s now f) :
    Ends (ipNatAddEntry s (UInt32.ofNat now) f.proto f.client f.clientPort f.server f.serverPort 0)
      fun r => ∃ active', Good (update flows f (some { c with lastUse := now })) r.1 active'
        now := by
  refine (h.dropOld hspare).bind ?_
  rintro s₁ ⟨active₁, hsub, hsame, hgood⟩
  rw [← timedOut_congr hsame.tcp hsame.udp] at hlive
  refine (hgood.searchLive hrecord hlive).bind ?_
  rintro ⟨s₂, entry⟩ ⟨i, active₂, rfl, hgood₂, hok, htracked, htcp, hudp⟩
  obtain ⟨idle₂, hlists₂⟩ := hgood₂.lists
  dsimp only
  rw [@renewEntry_modify s₂ i (Rule.retarget (UInt32.ofNat now) f.server f.serverPort 0)
    fun _ => rfl]
  obtain ⟨active', hpushed⟩ := @pushed_renew s₂ _ now i idle₂ hlists₂
    (mem_of_find?_eq_some htracked.find) (Rule.retarget (UInt32.ofNat now) f.server f.serverPort 0)
  refine ends_some ⟨active', hpushed.good hgood₂ hok ?_
    ((hclash.congr hsame.tcp hsame.udp).congr htcp hudp)
    fun g c' hother => hother.follows.unique htracked.follows⟩
  exact { htracked.follows with
    dest := rfl
    dport := rfl
    appUse := rfl
    ts := ⟨now, le_refl now, le_refl now, rfl⟩ }

end

theorem not_rival_icmp (hflow : FlowOk f) (hproto : e.proto = IP_PROTO_ICMP) : ¬ Rival f e := by
  rintro ⟨hsame, _⟩
  rw [hproto] at hsame
  rcases hflow.proto with htcp | hudp
  · exact absurd (hsame.trans htcp) (by decide)
  · exact absurd (hsame.trans hudp) (by decide)

theorem Pushed.goodIcmp (hpushed : Pushed s active now s' i e active') (h : Good flows s active now)
    (hproto : e.proto = IP_PROTO_ICMP) (hown : ∀ g c, FlowOk g → ¬ TrackedAt s active g c now i) :
    Good flows s' active' now := by
  refine ⟨hpushed.lists, fun g c hgflow hlive => ?_⟩
  rw [timedOut_congr hpushed.tcp hpushed.udp] at hlive
  obtain ⟨hok, k, htracked⟩ := h.tracked g c hgflow hlive
  refine ⟨hok, hpushed.others g c k htracked ?_ (not_rival_icmp hok hproto)⟩
  rintro rfl
  exact hown g c hok htracked

theorem Good.addIcmp (h : Good flows s active now) (hroom : Roomy s active now)
    (hspare : Sparing flows s active now) :
    Ends (ipNatAddEntry s (UInt32.ofNat now) IP_PROTO_ICMP src sport dest dport 0) fun r =>
      ∃ active', Good flows r.1 active' now := by
  refine (h.dropOld hspare).bind ?_
  rintro s₁ ⟨active₁, hsub, hsame, hgood⟩
  refine hgood.searching.bind ?_
  rintro ⟨s₂, entry⟩ ⟨visited, rest, idle', hsearched, hgood₂⟩
  cases entry with
  | some i =>
    have hproto : (s₂.rule i).proto = IP_PROTO_ICMP :=
      (outgoing_found.mp hsearched.found_entry).1
    dsimp only
    rw [@renewEntry_modify s₂ i (Rule.retarget (UInt32.ofNat now) dest dport 0) fun _ => rfl]
    obtain ⟨active', hpushed⟩ := @pushed_renew s₂ _ now i idle' hsearched.lists
      (mem_append_right _ (hsearched.mem rfl)) (Rule.retarget (UInt32.ofNat now) dest dport 0)
    refine ends_some ⟨active', hpushed.goodIcmp hgood₂ hproto fun g c hok htracked => ?_⟩
    exact not_rival_icmp hok hproto htracked.follows.rival
  | none =>
    have hidle := hsearched.idle_ne (hroom.shrink hsub hsame)
    obtain ⟨⟨active', hpushed⟩, hfree⟩ := @pushed_fresh s₂ _ now idle' hsearched.lists hidle
      (Rule.fresh (UInt32.ofNat now) IP_PROTO_ICMP src sport dest dport 0)
    dsimp only
    rw [if_pos hidle]
    exact ends_some ⟨active', hpushed.goodIcmp hgood₂ rfl fun g c _ => hfree g c⟩

end

/-! ### Packets of clients -/

section

variable {flows : Flow → Option Conn} {s : State} {now : Nat} {p : IpPacket}

theorem Good.searchAny (h : Good flows s active now) :
    Ends (ipNatEntrySearch s (UInt32.ofNat now) q) fun r => ∃ active', Good flows r.1 active' now :=
  h.searching.mono fun _ ⟨_, _, _, _, hgood⟩ => ⟨_, hgood⟩

theorem outward_of_opening (h : ¬ (p.proto = IP_PROTO_TCP ∧ ¬ p.Opening)) :
    outward s flows now p = update flows (flowOf p) (some
      (((liveConn s flows now (flowOf p)).map fun c => { c with lastUse := now }).getD
        (.new now))) := by
  have hused : Conn.used now p = fun c => { c with lastUse := now } := by
    funext c
    simp [Conn.used, h]
  rw [outward, hused]

theorem liveConn_eq_some :
    liveConn s flows now f = some c ↔ flows f = some c ∧ ¬ TimedOut s f c now := by
  simp [liveConn]

theorem liveConn_eq_none (h : liveConn s flows now f = none) (hrecord : flows f = some c) :
    TimedOut s f c now := by
  by_contra hlive
  have hsome := liveConn_eq_some.mpr ⟨hrecord, hlive⟩
  rw [h] at hsome
  cases hsome

variable (h : Good flows s active now)
include h

theorem Good.use (hok : FlowOk f) (htracked : TrackedAt s active f c now i) :
    Good (update flows f (some c)) s active now :=
  good_update h.lists (fun g c' _ hflow hlive => h.tracked g c' hflow hlive) ⟨hok, i, htracked⟩

theorem Good.modifyOwn (hok : FlowOk f) (htracked : TrackedAt s active f c now i)
    (hproto : ∀ e, (g e).proto = e.proto) (hkeys : ∀ f e, Rival f (g e) ↔ Rival f e)
    (hfollows : Follows f c' now (g (s.rule i))) :
    Good (update flows f (some c')) (s.modify i g) active now := by
  obtain ⟨idle, hlists⟩ := h.lists
  refine good_update ⟨idle, hlists.modify fun _ => hproto _⟩ (fun f' c₁ hne hflow hlive => ?_)
    ⟨hok, ?_⟩
  · obtain ⟨hok', k, htracked'⟩ := h.tracked f' c₁ hflow hlive
    have hki : k ≠ i := by
      rintro rfl
      exact hne (htracked'.follows.unique htracked.follows)
    refine ⟨hok', tracked_modify htracked'.find (hkeys f') ?_⟩
    rw [modify_rule_of_ne hki]
    exact htracked'.follows
  · refine tracked_modify htracked.find (hkeys f) ?_
    rw [modify_rule_self]
    exact hfollows

theorem Good.fragment : Ends (forwardFragment s (UInt32.ofNat now) outAddr p) fun r =>
      ∃ active', Good flows r.1 active' now := by
  refine h.searchAny.bind ?_
  rintro ⟨s', entry⟩ hgood
  cases entry with
  | none => exact ends_some hgood
  | some i => exact ends_some hgood

end

section Clients

variable {n : System} {now : Nat} {p : IpPacket}

theorem from_ne (h : outAddr ≠ p.src) : p.from outAddr ≠ p :=
  fun heq => h (congrArg IpPacket.src heq)

theorem not_ofFlow_icmp (hicmp : p.proto = IP_PROTO_ICMP) : ¬ p.OfFlow := by
  rintro ⟨hproto, _⟩
  rw [hicmp] at hproto
  exact absurd hproto (by decide)

theorem flowsAfter_from (hflow : p.OfFlow) (h : outAddr ≠ p.src) :
    n.flowsAfter now p .ok (p.from outAddr) = outward n.table n.flows now p :=
  if_pos ⟨hflow, rfl, from_ne h⟩

theorem flowsAfter_same : n.flowsAfter now p err p = n.flows :=
  if_neg fun h => h.2.2 rfl

theorem flowsAfter_other (hflow : ¬ p.OfFlow) :
    n.flowsAfter now p err p' = n.flows := if_neg fun h => hflow h.1

theorem OutwardCond.ready (h : Good n.flows n.table active now)
    (hcond : OutwardCond n now outAddr p)
    (hadd : AddCond n now p) (hnone : liveConn n.table n.flows now (flowOf p) = none) :
    Ready n.flows n.table active now (flowOf p) := by
  obtain ⟨idle, hlists⟩ := h.lists
  have hactive := hlists.active_eq
  refine ⟨?_, ?_, ?_⟩
  · have hstale := hcond.stale hnone
    rw [hactive] at hstale
    exact hstale
  · have hroom := hadd.room hnone
    rw [hactive] at hroom
    exact hroom
  · have hspare := hadd.spare
    rw [hactive] at hspare
    exact hspare

theorem OutwardCond.not_found (hcond : OutwardCond n now outAddr p)
    (h : Good n.flows n.table active now) (hnone : liveConn n.table n.flows now (flowOf p) = none) :
    ∀ j ∈ active, searchVisit n.table.ipNatTcpMaxTimeout n.table.ipNatUdpMaxTimeout
      (UInt32.ofNat now) (.outgoing p.proto p.src p.sport) (n.table.rule j) ≠ .found := by
  intro j hj hfound
  obtain ⟨idle, hlists⟩ := h.lists
  obtain ⟨hage, hmatch⟩ := found_of_searchVisit hfound
  exact hcond.stale hnone j (hlists.active_eq.symm ▸ hj) hage (outgoing_found.mp hmatch)

theorem Good.unchanged {s : State} (h : Good n.flows s active now) :
    ∃ active', Good (n.flowsAfter now p err p) s active' now := by
  rw [flowsAfter_same]
  exact ⟨active, h⟩

theorem Good.addPacket (h : Good n.flows n.table active now) (hflow : p.OfFlow)
    (hcond : OutwardCond n now outAddr p) (hadd : AddCond n now p) :
    Ends (ipNatAddEntry n.table (UInt32.ofNat now) p.proto p.src p.sport p.dest p.dport 0) fun r =>
      ∃ active', Good (update n.flows (flowOf p) (some
        (((liveConn n.table n.flows now (flowOf p)).map fun c => { c with lastUse := now }).getD
          (.new now)))) r.1 active' now := by
  have hok : FlowOk (flowOf p) := ⟨hflow.1, hcond.port⟩
  cases hlive : liveConn n.table n.flows now (flowOf p) with
  | none =>
    have hnew := h.addNew hok (hcond.ready h hadd hlive) hcond.clash
    exact hnew
  | some c =>
    obtain ⟨hrecord, hlive⟩ := liveConn_eq_some.mp hlive
    have hspare := hadd.spare
    obtain ⟨idle, hlists⟩ := h.lists
    rw [hlists.active_eq] at hspare
    have hlive := h.addLive hrecord hlive hspare hcond.clash
    exact hlive

theorem Follows.sent (h : Follows f c now e) (flags : TcpFlags) :
    Follows f (c.sent flags) now (Rule.sent flags e) :=
  { h with
    finWait2 := by simp [Rule.sent, Conn.sent, h.finWait2]
    finAck1 := by simp [Rule.sent, Conn.sent, h.finAck1, h.finWait1]
    rst := rfl }

theorem Good.forwardUnknownTcp {s : State} (hgood : Good n.flows s active now)
    (htcpMax : s.ipNatTcpMaxTimeout = n.table.ipNatTcpMaxTimeout)
    (hudpMax : s.ipNatUdpMaxTimeout = n.table.ipNatUdpMaxTimeout) (htcp : p.proto = IP_PROTO_TCP)
    (hopening : ¬ p.Opening) (hcond : OutwardCond n now outAddr p)
    (hnone : liveConn n.table n.flows now (flowOf p) = none) :
    Ends (forwardUnknownTcp s (UInt32.ofNat now) p) fun r =>
      ∃ active', Good (n.flowsAfter now p r.2.1 r.2.2) r.1 active' now := by
  refine hgood.searching.bind ?_
  rintro ⟨s₁, entry⟩ ⟨visited, rest, idle', hsearched, hgood₁⟩
  cases entry with
  | some i => exact ends_some hgood₁.unchanged
  | none =>
    refine hgood₁.searching.bind ?_
    rintro ⟨s₂, entry⟩ ⟨visited₂, rest₂, idle₂, hsearched₂, hgood₂⟩
    cases entry with
    | none => exact ends_some hgood₂.unchanged
    | some i =>
      have hmatch := known_found hsearched₂.found_entry
      obtain ⟨active', hpushed⟩ := @pushed_renew s₂ _ now i idle₂ hsearched₂.lists
        (mem_append_right _ (hsearched₂.mem rfl)) (Rule.reassign (UInt32.ofNat now) p)
      refine ends_some ?_
      rw [flowsAfter_same]
      refine ⟨active', hpushed.lists, fun g c hflow hlive => ?_⟩
      rw [timedOut_congr hpushed.tcp hpushed.udp] at hlive
      obtain ⟨hok, k, htracked⟩ := hgood₂.tracked g c hflow hlive
      rw [timedOut_congr hsearched₂.tcp hsearched₂.udp, timedOut_congr hsearched.tcp hsearched.udp,
        timedOut_congr htcpMax hudpMax] at hlive
      have hother : g ≠ flowOf p := by
        rintro rfl
        exact hlive (liveConn_eq_none hnone hflow)
      have hclash := hcond.clash g c hflow hlive hother
      refine ⟨hok, hpushed.others g c k htracked ?_ fun hrival => hclash ?_⟩
      · -- the entry that is taken is of no live flow
        rintro rfl
        have hfollows := htracked.follows
        rcases hmatch.2.2 with hsport | ⟨hdest, hdport⟩
        · refine hclash ⟨?_, .inl ⟨?_, ?_⟩⟩
          · exact hfollows.proto.symm.trans (hmatch.1.trans htcp.symm)
          · exact hmatch.2.1.symm.trans hfollows.src
          · exact hsport.symm.trans hfollows.sport
        refine hcond.other htcp hopening hnone g c hflow hlive ?_ ?_ ?_ ?_
        · exact hfollows.proto.symm.trans hmatch.1
        · exact hfollows.src.symm.trans hmatch.2.1
        · exact hfollows.dest.symm.trans hdest
        · exact hfollows.dport.symm.trans hdport
      · obtain ⟨hproto, hkeys⟩ := hrival
        exact ⟨hproto.symm.trans (hmatch.1.trans htcp.symm), hkeys⟩

section

variable (h : Good n.flows n.table active now)
include h

theorem Good.forwardTcp (htcp : p.proto = IP_PROTO_TCP)
    (hfrag : p.fragOffset = 0) (hcond : OutwardCond n now outAddr p)
    (hadd : p.Opening → AddCond n now p) :
    Ends (forwardTcp n.table (UInt32.ofNat now) outAddr p) fun r =>
      ∃ active', Good (n.flowsAfter now p r.2.1 r.2.2) r.1 active' now := by
  have hflow : p.OfFlow := ⟨.inl htcp, hfrag⟩
  have hok : FlowOk (flowOf p) := ⟨hflow.1, hcond.port⟩
  unfold IpNat.forwardTcp
  by_cases hopening : p.Opening
  · rw [if_pos hopening]
    have hadded := h.addPacket hflow hcond (hadd hopening)
    rw [htcp] at hadded
    refine hadded.bind fun r hr => ends_some ?_
    rw [flowsAfter_from hflow hcond.addr, outward_of_opening (fun htcp => htcp.2 hopening)]
    exact hr
  rw [if_neg hopening]
  cases hlive : liveConn n.table n.flows now (flowOf p) with
  | some c =>
    obtain ⟨hrecord, hlive'⟩ := liveConn_eq_some.mp hlive
    have hsearch := h.searchLive hrecord hlive'
    rw [show (flowOf p).proto = IP_PROTO_TCP from htcp] at hsearch
    refine hsearch.bind ?_
    rintro ⟨s, entry⟩ ⟨i, active', rfl, hgood, _, htracked, _, _⟩
    have hdest : (s.rule i).dest = p.dest := htracked.follows.dest
    have hdport : (s.rule i).dport = p.dport := htracked.follows.dport
    dsimp only
    rw [if_neg (by simp [hdest, hdport])]
    refine ends_some ⟨active', ?_⟩
    rw [flowsAfter_from hflow hcond.addr, outward, hlive, Option.map_some, Option.getD_some]
    refine hgood.modifyOwn hok htracked (fun _ => rfl) (fun _ _ => Iff.rfl) ?_
    unfold Conn.used
    rw [if_pos ⟨htcp, hopening⟩]
    exact htracked.follows.sent p.flags
  | none =>
    refine h.searching.bind ?_
    rintro ⟨s, entry⟩ ⟨visited, rest, idle', hsearched, hgood⟩
    have hquiet := hcond.not_found h hlive
    rw [htcp] at hquiet
    obtain ⟨rfl, _⟩ := hsearched.entry_none hquiet
    exact hgood.forwardUnknownTcp hsearched.tcp hsearched.udp htcp hopening hcond hlive

theorem Good.forwardUdp (hudp : p.proto = IP_PROTO_UDP)
    (hcond : p.OfFlow → OutwardCond n now outAddr p)
    (hadd : p.fragOffset = 0 → liveConn n.table n.flows now (flowOf p) = none → AddCond n now p) :
    Ends (forwardUdp n.table (UInt32.ofNat now) outAddr p) fun r =>
      ∃ active', Good (n.flowsAfter now p r.2.1 r.2.2) r.1 active' now := by
  have hnotTcp : ¬ (p.proto = IP_PROTO_TCP ∧ ¬ p.Opening) := by
    rw [hudp]
    rintro ⟨h, _⟩
    exact absurd h (by decide)
  unfold IpNat.forwardUdp
  by_cases hfrag : p.fragOffset = 0
  · rw [if_pos hfrag]
    have hflow : p.OfFlow := ⟨.inr hudp, hfrag⟩
    have hcond := hcond hflow
    have hok : FlowOk (flowOf p) := ⟨hflow.1, hcond.port⟩
    cases hlive : liveConn n.table n.flows now (flowOf p) with
    | some c =>
      obtain ⟨hrecord, hlive'⟩ := liveConn_eq_some.mp hlive
      have hsearch := h.searchLive hrecord hlive'
      rw [show (flowOf p).proto = IP_PROTO_UDP from hudp] at hsearch
      refine hsearch.bind ?_
      rintro ⟨s, entry⟩ ⟨i, active', rfl, hgood, _, htracked, _, _⟩
      have hdest : (s.rule i).dest = p.dest := htracked.follows.dest
      have hdport : (s.rule i).dport = p.dport := htracked.follows.dport
      dsimp only
      rw [if_neg (by simp [hdest, hdport])]
      refine ends_some ⟨active', ?_⟩
      rw [flowsAfter_from hflow hcond.addr, outward_of_opening hnotTcp, hlive]
      exact hgood.use hok htracked
    | none =>
      refine h.searching.bind ?_
      rintro ⟨s, entry⟩ ⟨visited, rest, idle', hsearched, hgood⟩
      have hquiet := hcond.not_found h hlive
      rw [hudp] at hquiet
      obtain ⟨rfl, _⟩ := hsearched.entry_none hquiet
      refine hgood.searching.bind ?_
      rintro ⟨s₁, entry⟩ ⟨visited₁, rest₁, idle₁, hsearched₁, hgood₁⟩
      cases entry with
      | some i => exact ends_some hgood₁.unchanged
      | none =>
        -- both searches have only taken entries off the list
        have hready := hcond.ready h (hadd hfrag hlive) hlive
        have hready₁ := (hready.shrink hsearched.shrinks.1 hsearched.shrinks.2).shrink
          hsearched₁.shrinks.1 hsearched₁.shrinks.2
        have hclash : Unclashed n.flows n.table now (flowOf p) := hcond.clash
        have hnew := hgood₁.addNew hok hready₁
          ((hclash.congr hsearched.tcp hsearched.udp).congr hsearched₁.tcp hsearched₁.udp)
        rw [show (flowOf p).proto = IP_PROTO_UDP from hudp] at hnew
        refine hnew.bind fun r hr => ends_some ?_
        rw [flowsAfter_from hflow hcond.addr, outward, hlive]
        exact hr
  · rw [if_neg hfrag]
    have hother : ¬ p.OfFlow := fun hflow => hfrag hflow.2
    split_ifs
    · refine h.fragment.mono fun r hr => ?_
      rw [flowsAfter_other hother]
      exact hr
    · exact ends_some h.unchanged

theorem Good.forwardIcmp (hicmp : p.proto = IP_PROTO_ICMP)
    (hadd : p.fragOffset = 0 ∧ p.icmpType = ICMP_ECHO → AddCond n now p) :
    Ends (forwardIcmp n.table (UInt32.ofNat now) outAddr p) fun r =>
      ∃ active', Good (n.flowsAfter now p r.2.1 r.2.2) r.1 active' now := by
  have hother := not_ofFlow_icmp hicmp
  unfold IpNat.forwardIcmp
  split_ifs with hecho
  · obtain ⟨idle, hlists⟩ := h.lists
    have hnone : liveConn n.table n.flows now (flowOf p) = none := by
      cases hlive : liveConn n.table n.flows now (flowOf p) with
      | none => rfl
      | some c =>
        obtain ⟨hrecord, hlive⟩ := liveConn_eq_some.mp hlive
        have hproto := (h.tracked _ c hrecord hlive).1.proto
        rw [show (flowOf p).proto = IP_PROTO_ICMP from hicmp] at hproto
        exact absurd hproto (by decide)
    have hroom := (hadd hecho).room hnone
    have hspare := (hadd hecho).spare
    rw [hlists.active_eq] at hroom hspare
    refine (h.addIcmp hroom hspare).bind fun r hr => ends_some ?_
    rw [flowsAfter_other hother]
    exact hr
  · refine h.fragment.mono fun r hr => ?_
    rw [flowsAfter_other hother]
    exact hr
  · exact ends_some h.unchanged

end

theorem Good.forwardPacket {after : Nat} (h : Good n.flows n.table active (n.clock + after))
    (hcond : FlowCond n (.forward after outAddr p)) :
    Ends (ipNatForwardPacket n.table (UInt32.ofNat (n.clock + after)) outAddr p) fun r =>
      ∃ active', Good (n.flowsAfter (n.clock + after) p r.2.1 r.2.2) r.1 active'
        (n.clock + after) := by
  obtain ⟨hfrag, houtward, hadd⟩ := hcond
  unfold ipNatForwardPacket
  split_ifs with hicmp htcp hudp
  · exact h.forwardIcmp hicmp fun hecho => hadd (.inr (.inr ⟨hicmp, hecho⟩))
  · exact h.forwardTcp htcp (hfrag htcp) (houtward ⟨.inl htcp, hfrag htcp⟩)
      fun hopening => hadd (.inl ⟨htcp, hopening⟩)
  · exact h.forwardUdp hudp houtward fun hoffset hnone => hadd (.inr (.inl ⟨hudp, hoffset, hnone⟩))
  · exact ends_some h.unchanged

end Clients

/-! ### Packets of servers -/

section

variable {flows : Flow → Option Conn} {s : State} {now : Nat} {p : IpPacket}

theorem modify_id : s.modify i id = s := by
  simp [State.modify]

theorem Follows.received (h : Follows f c now e) (flags : TcpFlags) :
    Follows f (c.received flags) now (Rule.received flags e) :=
  { h with
    synAcked := by simp [Rule.received, Conn.received, h.synAcked]
    finWait1 := by simp [Rule.received, Conn.received, h.finWait1]
    finAck2 := by simp [Rule.received, Conn.received, h.finAck2, h.finWait2]
    rst := rfl }

theorem Good.toClient (h : Good flows s active now) (q : Query) {p : IpPacket} :
    Ends (toClient s (UInt32.ofNat now) q id p) fun r => ∃ active', Good flows r.1 active' now := by
  refine h.searchAny.bind ?_
  rintro ⟨s', entry⟩ hgood
  cases entry with
  | none => exact ends_some hgood
  | some i =>
    refine ends_some ?_
    rw [modify_id]
    exact hgood

structure ReplyUpdate (p : IpPacket) (now : Nat) (update : Rule → Rule) : Prop where
  proto : ∀ e, (update e).proto = e.proto
  keys : ∀ f e, Rival f (update e) ↔ Rival f e
  follows : ∀ f (c : Conn) e, Follows f { c with lastUse := now } now e →
    Follows f (c.answered now p) now (update e)
  -- a packet to port 0 is taken for any flow of its server
  only : p.dport = 0 → update = id

theorem incoming_answered (hfollows : Follows f c now e)
    (hfound : (Query.incoming p.proto p.src p.sport p.dport).found e = true) (hport : p.dport ≠ 0) :
    f.AnsweredBy p := by
  obtain ⟨hproto, hdest, hdport, hportmap⟩ := incoming_found.mp hfound
  exact ⟨hfollows.proto.symm.trans hproto, hfollows.dest.symm.trans hdest,
    hfollows.dport.symm.trans hdport, hfollows.portmap.symm.trans (hportmap.resolve_right hport)⟩

theorem Searched.answered (h : Good flows s active now)
    (hsearched : Searched s (UInt32.ofNat now) (.incoming p.proto p.src p.sport p.dport) active s'
      entry visited rest idle') (hrecord : flows f = some c) (hlive : ¬ TimedOut s f c now)
    (hanswered : f.AnsweredBy p) :
    ∃ i, entry = some i ∧ FlowOk f ∧ TrackedAt s'
      (kept (searchVisit s.ipNatTcpMaxTimeout s.ipNatUdpMaxTimeout (UInt32.ofNat now)
        (.incoming p.proto p.src p.sport p.dport)) s visited ++ rest) f c now i := by
  obtain ⟨hproto, hserver, hserverPort, hclientPort⟩ := hanswered
  obtain ⟨hok, i, htracked⟩ := h.tracked f c hrecord hlive
  have hfollows := htracked.follows
  have hport : p.dport ≠ 0 := hclientPort ▸ hok.port
  refine ⟨i, ?_, hok, htracked.search hok hlive hsearched⟩
  refine hsearched.entry_of_tracked htracked hok hlive (incoming_found.mpr ?_) fun e he => ?_
  · exact ⟨hfollows.proto.trans hproto, hfollows.dest.trans hserver,
      hfollows.dport.trans hserverPort, .inl (hfollows.portmap.trans hclientPort)⟩
  · obtain ⟨heproto, hdest, hdport, hportmap⟩ := incoming_found.mp he
    exact ⟨heproto.trans hproto.symm, .inr ⟨hdest.trans hserver.symm, hdport.trans hserverPort.symm,
      (hportmap.resolve_right hport).trans hclientPort.symm⟩⟩

def Received (flows : Flow → Option Conn) (s : State) (now : Nat) (p : IpPacket)
    (r : State × IpPacket) : Prop :=
  (∃ active', Good (inward s flows now p) r.1 active' now) ∧
    (p.OfFlow → ∀ f c, flows f = some c → ¬ TimedOut s f c now → f.AnsweredBy p →
      r.2 = { p with dest := f.client })

theorem Good.reply (h : Good flows s active now) (hflow : p.OfFlow) {update : Rule → Rule}
    (hupdate : ReplyUpdate p now update) :
    Ends (IpNat.toClient s (UInt32.ofNat now) (.incoming p.proto p.src p.sport p.dport) update p)
      (Received flows s now p) := by
  refine h.searching.bind ?_
  rintro ⟨s', entry⟩ ⟨visited, rest, idle', hsearched, hgood⟩
  -- the record of a flow that the packet is for
  have hrecord_of : ∀ {f c'}, inward s flows now p f = some c' → f.AnsweredBy p →
      ∃ c, flows f = some c ∧ ¬ TimedOut s f c now ∧ c.answered now p = c' := by
    intro f c' hrecord hanswered
    obtain ⟨c, hc, hanswer⟩ :=
      Option.map_eq_some_iff.mp ((if_pos ⟨hflow, hanswered⟩).symm.trans hrecord)
    obtain ⟨hold, hlive⟩ := liveConn_eq_some.mp hc
    exact ⟨c, hold, hlive, hanswer⟩
  have hother_of : ∀ {f c'}, inward s flows now p f = some c' → ¬ f.AnsweredBy p →
      flows f = some c' :=
    fun hrecord hanswered => (if_neg fun h => hanswered h.2).symm.trans hrecord
  cases entry with
  | none =>
    refine ends_some ⟨⟨_, ⟨idle', hsearched.lists⟩, fun f c' hrecord hlive => ?_⟩, ?_⟩
    · by_cases hanswered : f.AnsweredBy p
      · obtain ⟨c, hold, hlive, _⟩ := hrecord_of hrecord hanswered
        obtain ⟨i, hnone, _⟩ := hsearched.answered h hold hlive hanswered
        cases hnone
      · exact hgood.tracked f c' (hother_of hrecord hanswered) hlive
    · intro _ f c hrecord hlive hanswered
      obtain ⟨i, hnone, _⟩ := hsearched.answered h hrecord hlive hanswered
      cases hnone
  | some i =>
    refine ends_some ⟨⟨_, ⟨idle', hsearched.lists.modify fun _ => hupdate.proto _⟩,
      fun f c' hrecord hlive => ?_⟩, ?_⟩
    · by_cases hanswered : f.AnsweredBy p
      · obtain ⟨c, hold, hlive, hanswer⟩ := hrecord_of hrecord hanswered
        obtain ⟨k, hk, hok, htracked⟩ := hsearched.answered h hold hlive hanswered
        cases hk
        refine ⟨hok, tracked_modify htracked.find (hupdate.keys f) ?_⟩
        rw [modify_rule_self, ← hanswer]
        exact hupdate.follows f c _ (htracked.follows.used hsearched.ts_eq)
      obtain ⟨hok, k, htracked⟩ := hgood.tracked f c' (hother_of hrecord hanswered) hlive
      refine ⟨hok, tracked_modify htracked.find (hupdate.keys f) ?_⟩
      by_cases hport : p.dport = 0
      · rw [hupdate.only hport, modify_id]
        exact htracked.follows
      have hki : k ≠ i := by
        rintro rfl
        exact hanswered (incoming_answered htracked.follows hsearched.found_entry hport)
      rw [modify_rule_of_ne hki]
      exact htracked.follows
    · intro _ f c hrecord hlive hanswered
      obtain ⟨k, hk, _, htracked⟩ := hsearched.answered h hrecord hlive hanswered
      cases hk
      rw [htracked.follows.src]

theorem replyUpdate_received (htcp : p.proto = IP_PROTO_TCP) (hport : p.dport ≠ 0) :
    ReplyUpdate p now (Rule.received p.flags) where
  proto _ := rfl
  keys _ _ := Iff.rfl
  follows f c e h := by
    unfold Conn.answered
    rw [if_pos htcp]
    exact h.received p.flags
  only hzero := absurd hzero hport

theorem replyUpdate_id (hnot : p.proto ≠ IP_PROTO_TCP) : ReplyUpdate p now id where
  proto _ := rfl
  keys _ _ := Iff.rfl
  follows f c e h := by
    unfold Conn.answered
    rw [if_neg hnot]
    exact h
  only _ := rfl

theorem received_other (hnot : ¬ p.OfFlow) (h : ∃ active', Good flows r.1 active' now) :
    Received flows s now p r := by
  have hsame : inward s flows now p = flows := by
    funext f
    exact if_neg fun h => hnot h.1
  refine ⟨?_, fun hflow => absurd hflow hnot⟩
  rw [hsame]
  exact h

theorem Good.rxPacket (h : Good flows s active now)
    (hcond : p.proto = IP_PROTO_TCP → p.fragOffset = 0 ∧ p.dport ≠ 0) :
    Ends (ipNatRxPacket s (UInt32.ofNat now) p) (Received flows s now p) := by
  have hsearch : ¬ p.OfFlow → ∀ q, Ends (IpNat.toClient s (UInt32.ofNat now) q id p)
      (Received flows s now p) :=
    fun hnot q => (h.toClient q).mono fun _ hr => received_other hnot hr
  have hignore : ¬ p.OfFlow → Ends (some (s, p)) (Received flows s now p) :=
    fun hnot => ends_some (received_other hnot ⟨active, h⟩)
  unfold ipNatRxPacket
  split_ifs with hicmp hreply hfragment htcp hudp hfirst hrest
  · exact hsearch (not_ofFlow_icmp hicmp) _
  · exact hsearch (not_ofFlow_icmp hicmp) _
  · exact hignore (not_ofFlow_icmp hicmp)
  · obtain ⟨hfrag, hport⟩ := hcond htcp
    have htcpReply := h.reply ⟨.inl htcp, hfrag⟩ (replyUpdate_received htcp hport)
    rw [htcp] at htcpReply
    exact htcpReply
  · have hudpReply := h.reply ⟨.inr hudp, hfirst⟩ (replyUpdate_id htcp)
    rw [hudp] at hudpReply
    exact hudpReply
  · exact hsearch (fun hflow => hfirst hflow.2) _
  · exact hignore fun hflow => hfirst hflow.2
  · exact hignore fun hflow => hflow.1.elim htcp hudp

end

/-! ### Whole runs -/

def FlowInv : Prop := ∃ active, Good n.flows n.table active n.clock

theorem flowInv_init : FlowInv (.init tcpMaxTimeout udpMaxTimeout clock) := by
  have hcleared := lists_cleared (System.init tcpMaxTimeout udpMaxTimeout clock).table
  exact ⟨[], ⟨indices, hcleared⟩, fun _ _ hrecord => by cases hrecord⟩

/-- Under the condition live flows stay tracked. -/
theorem flowInv_step (ev : Event) (h : FlowInv n) (hcond : FlowCond n ev) :
    FlowInv (flowStep n ev) := by
  obtain ⟨active, h⟩ := h
  cases ev with
  | forward after outAddr p =>
    obtain ⟨⟨table, err, p'⟩, hforward, hgood⟩ :=
      (h.later (Nat.le_add_right n.clock after)).forwardPacket hcond
    simp only [flowStep, hforward]
    exact hgood
  | receive after p =>
    obtain ⟨⟨table, p'⟩, hreceive, hgood, _⟩ :=
      (h.later (Nat.le_add_right n.clock after)).rxPacket hcond
    simp only [flowStep, hreceive]
    exact hgood

theorem FlowInv.repliesReach {n : System} (h : FlowInv n) : RepliesReach n := by
  obtain ⟨active, h⟩ := h
  intro f c now hle hrecord hlive p hfrag hanswered
  have hgood := h.later hle
  have hok := (hgood.tracked f c hrecord hlive).1
  have hflow : p.OfFlow := ⟨hanswered.1 ▸ hok.proto, hfrag⟩
  have hport : p.dport ≠ 0 := hanswered.2.2.2 ▸ hok.port
  exact (hgood.rxPacket fun _ => ⟨hfrag, hport⟩).mono fun r hr =>
    hr.2 hflow f c hrecord hlive hanswered

/-- **Replies reach their clients.** In every run of packets that meet the condition, the replies of
    every translated flow that has not timed out are sent to its client. -/
theorem replies_reach (tcpMaxTimeout udpMaxTimeout : UInt32) (clock : Nat) (events : List Event)
    (hcond : Along flowStep FlowCond (.init tcpMaxTimeout udpMaxTimeout clock) events) :
    Throughout flowStep RepliesReach (.init tcpMaxTimeout udpMaxTimeout clock) events :=
  (hcond.throughout flowInv_step (flowInv_init)).mono
    fun _ h => h.repliesReach

/-! ### Flows that clash -/

/-- The address of the interface outside. -/
def outside : UInt32 := 0xC0A80101

def tcpPacket (f : Flow) (syn : Bool) : IpPacket :=
  ⟨IP_PROTO_TCP, f.client, f.server, 0, false, f.clientPort, f.serverPort,
    ⟨syn, !syn, false, false⟩, 0, 0⟩

def openFlow (f : Flow) : Event := .forward 0 outside (tcpPacket f true)

def replyPacket (f : Flow) : IpPacket :=
  ⟨f.proto, f.server, outside, 0, false, f.serverPort, f.clientPort,
    ⟨true, true, false, false⟩, 0, 0⟩

def replyAfter (events : List Event) (f : Flow) : Bool × Option UInt32 :=
  let n := events.foldl flowStep (.init IP_NAT_MAX_TIMEOUT_MS_TCP IP_NAT_MAX_TIMEOUT_MS_UDP 0)
  ((liveConn n.table n.flows n.clock f).isSome,
    (ipNatRxPacket n.table (UInt32.ofNat n.clock) (replyPacket f)).map fun r => r.2.dest)

def flowA : Flow := ⟨IP_PROTO_TCP, 0x0A000002, 5000, 0x08080808, 80⟩

theorem forward_flows_of_ne (hne : g ≠ flowOf p) :
    (flowStep n (.forward delay outAddr p)).flows g = n.flows g := by
  unfold flowStep
  dsimp only
  split
  · unfold System.flowsAfter
    dsimp only
    split
    · exact update_of_ne hne _ _
    · rfl
  · rfl

/-- Another client with another port, and the same server. -/
def flowE : Flow := { flowA with client := 0x0A000003, clientPort := 6000 }

/-- Two clients open a flow each, and the replies reach them. -/
theorem two_flows_reach : Throughout flowStep RepliesReach
      (.init IP_NAT_MAX_TIMEOUT_MS_TCP IP_NAT_MAX_TIMEOUT_MS_UDP 0)
      [openFlow flowA, openFlow flowE] := by
  refine replies_reach _ _ _ _ ⟨⟨fun _ => rfl, fun _ => ?_, fun _ => ?_⟩,
    ⟨fun _ => rfl, fun _ => ?_, fun _ => ?_⟩, trivial⟩
  · exact ⟨by decide, by decide, nofun, fun _ _ => nofun, nofun⟩
  · exact ⟨fun _ => by decide, fun _ => nofun⟩
  · refine ⟨by decide, by decide, fun g c hg _ _ => ?_, fun _ i hi => ?_, ?_⟩
    · -- only flow A has been translated so far
      by_cases hA : g = flowA
      · subst hA
        unfold Clash
        decide
      · rw [openFlow, forward_flows_of_ne _ _ hA] at hg
        cases hg
    · obtain rfl := mem_singleton.mp (show i ∈ [0] from hi)
      decide +kernel
    · exact fun _ hopening => absurd (by decide) hopening
  · exact ⟨fun _ => by decide +kernel, fun hmany => absurd hmany (by decide +kernel)⟩

/-- Another client with the same port and server. -/
def flowB : Flow := { flowA with client := 0x0A000003 }

/-- The same client and port with another server. -/
def flowC : Flow := { flowA with server := 0x08080404 }

/-- The same client and server with another port. -/
def flowD : Flow := { flowA with clientPort := 6000 }

/-- The reply of flow A goes to the client of flow B; after flow C or a packet of the unknown flow D
    it is not translated at all. -/
theorem reply_misdirected : replyAfter [openFlow flowA] flowA = (true, some flowA.client) ∧
    replyAfter [openFlow flowA, openFlow flowB] flowA = (true, some flowB.client) ∧
    replyAfter [openFlow flowA, openFlow flowC] flowA = (true, some outside) ∧
    replyAfter [openFlow flowA, .forward 0 outside (tcpPacket flowD false)] flowA =
      (true, some outside) := by
  refine ⟨?_, ?_, ?_, ?_⟩
  · decide +kernel
  · decide +kernel
  · decide +kernel
  · decide +kernel

end AmebaRtos.IpNat
