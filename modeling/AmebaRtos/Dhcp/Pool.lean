import AmebaRtos.Dhcp.Lease

/-!
# The address pool

A free address is taken from the pool that is configured. But an address that a client asks for is
checked against the compile-time pool only, and not against the server's own address, which has no
entry in the table. When no address is left, the offer is sent all the same, with 0 for the last
byte.
-/

namespace AmebaRtos.Dhcp

open Lib Function List

def Ip4.toNat (ip : Ip4) : Nat :=
  ((ip.addr1.toNat * 256 + ip.addr2.toNat) * 256 + ip.addr3.toNat) * 256 + ip.addr4.toNat

variable (c : Config)

def InPool (ip : Ip4) : Prop :=
  c.addrPool.start.toNat ≤ ip.toNat ∧ ip.toNat ≤ c.addrPool.stop.toNat

def FreeFor (t : Table) (client : Mac) (addr4 : UInt8) : Prop :=
  (t.ipRangeOffer (addr4 - 1) = false ∧ t.ipRange (addr4 - 1) = false) ∨ ⟨addr4, client⟩ ∈ t.entries

structure ReplyOk (c : Config) (x : Sent) : Prop where
  assigned : x.reply.type ≠ .nak →
    InPool c x.reply.yiaddr ∧ x.reply.yiaddr ≠ c.netif.ipAddr ∧ x.reply.yiaddr ≠ c.networkId
  offered : x.reply.type = .offer →
    ∃ addr4, InPool c (c.address addr4) ∧ FreeFor x.table x.client addr4

def PoolSafe (n : Network) : Prop := ∀ x ∈ n.sent, ReplyOk c x

def HostInPool (addr4 : UInt8) : Prop :=
  c.addrPool.start.addr4 ≤ addr4 ∧ addr4 ≤ c.addrPool.stop.addr4

/-- A pool is set, inside the server's network, and with neither the network address nor the last
    byte 0. -/
structure PoolCond (c : Config) : Prop where
  isSet : c.addrPool.isSet = true
  start : c.networkId.SameNet c.addrPool.start
  stop : c.networkId.SameNet c.addrPool.stop
  network : ¬ HostInPool c c.networkId.addr4
  zero : ¬ HostInPool c 0

/-- An address that passes the check against the compile-time pool is of the configured pool, and
    not the server's own. -/
def RequestInPool (request : Ip4) : Prop :=
  c.networkId.SameNet request → DHCP_POOL_START ≤ request.addr4 → request.addr4 ≤ DHCP_POOL_END →
    HostInPool c request.addr4 ∧ c.address request.addr4 ≠ c.netif.ipAddr

def PoolStep (n : Network) : Event → Prop
  | .message m =>
    m.magicOk = true →
      (m.parsed.1 = DHCP_MESSAGE_TYPE_REQUEST → RequestInPool c (requestedIp n.server m)) ∧
      (Offering n.server m → RequestInPool c (m.parsed.2.getD n.server.clientRequestIp) ∧
        ∃ addr4, HostInPool c addr4 ∧ FreeFor n.server.table m.chaddr addr4)
  | _ => True

/-! ### Addresses -/

structure Assignable (c : Config) (addr4 : UInt8) : Prop where
  pool : HostInPool c addr4
  notServer : c.address addr4 ≠ c.netif.ipAddr

section Addresses

variable {c : Config}

theorem inPool_address (hpool : PoolCond c) (h : HostInPool c addr4) :
    InPool c (c.address addr4) := by
  obtain ⟨hstart₁, hstart₂, hstart₃⟩ := hpool.start
  obtain ⟨hstop₁, hstop₂, hstop₃⟩ := hpool.stop
  have hle := UInt8.le_iff_toNat_le.mp h.1
  have hge := UInt8.le_iff_toNat_le.mp h.2
  unfold InPool Ip4.toNat Config.address
  rw [← hstart₁, ← hstart₂, ← hstart₃, ← hstop₁, ← hstop₂, ← hstop₃]
  dsimp only
  omega

theorem HostInPool.ne_zero (hpool : PoolCond c) (h : HostInPool c addr4) : addr4 ≠ 0 :=
  fun hzero => hpool.zero (hzero ▸ h)

theorem Assignable.replyOk (hpool : PoolCond c) (h : Assignable c addr4) :
    InPool c (c.address addr4) ∧ c.address addr4 ≠ c.netif.ipAddr ∧
      c.address addr4 ≠ c.networkId := by
  refine ⟨inPool_address hpool h.pool, h.notServer, fun hnetwork => ?_⟩
  have hsame : addr4 = c.networkId.addr4 := congrArg Ip4.addr4 hnetwork
  exact hpool.network (hsame ▸ h.pool)

theorem assignable_of_check {t : Table} (hstep : RequestInPool c request)
    (hcheck : t.checkClientDirectRequestIp c request mac = addr4) (hne : addr4 ≠ 0) :
    Assignable c addr4 := by
  obtain ⟨hnet, hlow, hhigh, _, hsame⟩ := checkClientDirectRequestIp_eq hcheck hne
  obtain ⟨hpool, hserver⟩ := hstep hnet hlow hhigh
  rw [hsame] at hpool hserver
  exact ⟨hpool, hserver⟩

end Addresses

/-! ### The invariant -/

/-- The table holds assignable addresses, each with one of its bits, and the server's own
    address is marked. -/
structure TableOk (c : Config) (t : Table) : Prop where
  ordered : OrderedEntries t.entries
  entries : ∀ e ∈ t.entries, e.ipAddr4 ≠ 0 → Assignable c e.ipAddr4 ∧
      (t.ipRange (e.ipAddr4 - 1) = true ∨ t.ipRangeOffer (e.ipAddr4 - 1) = true)
  -- with a short netmask the server may lie outside of the network of its clients
  server : c.address c.netif.ipAddr.addr4 = c.netif.ipAddr → c.netif.ipAddr.addr4 ≠ 0 →
    t.ipRange (c.netif.ipAddr.addr4 - 1) = true
  lastBits : t.ipRange 255 = false ∧ t.ipRangeOffer 255 = false

structure PoolInv (c : Config) (n : Network) : Prop where
  waiting : n.server.Waiting
  table : TableOk c n.server.table
  allocated : n.server.allocatedClientAddress.addr4 ≠ 0 →
    Assignable c n.server.allocatedClientAddress.addr4 ∧
      n.server.allocatedClientAddress = c.address n.server.allocatedClientAddress.addr4
  safe : PoolSafe c n

section Tables

variable {c : Config} {addr4 : UInt8}

theorem ne_last_bit (hne : addr4 ≠ 0) : addr4 - 1 ≠ 255 :=
  fun hlast => hne ((UInt8.sub_left_inj 1).mp (hlast.trans (by decide : (255 : UInt8) = 0 - 1)))

theorem TableOk.save (h : TableOk c t) (hassignable : Assignable c addr4) (hne : addr4 ≠ 0)
    (hbit : t.ipRange (addr4 - 1) = true ∨ t.ipRangeOffer (addr4 - 1) = true) :
    TableOk c (t.saveClientAddr connected addr4 mac) := by
  have hsaved := @saveClientAddr_saved t connected addr4 mac h.ordered hne
  have hkept : ∀ a, (∀ e ∈ t.entries, e.ipAddr4 = a → a = 0) →
      SameBits t (t.saveClientAddr connected addr4 mac) a := by
    intro a hnone
    refine (hsaved.bits a).resolve_right ?_
    rintro ⟨_, ⟨e, he, heq, hzero⟩, _⟩
    exact hzero (hnone e he heq)
  refine ⟨hsaved.ordered, ?_, ?_, ?_⟩
  · intro e he hzero
    obtain ⟨hrange, hoffer⟩ := hsaved.bits_of_mem he
    rw [hrange, hoffer]
    rcases hsaved.origin e he with rfl | hold
    · exact ⟨hassignable, hbit⟩
    · exact h.entries e hold hzero
  · intro hnet hserver
    have hsame := hkept c.netif.ipAddr.addr4 fun e he heq => ?_
    · exact hsame.1.trans (h.server hnet hserver)
    · -- no entry is for the server's own address
      by_contra hzero
      exact (h.entries e he (heq ▸ hzero)).1.notServer (heq ▸ hnet)
  · have hsame := hkept 0 fun e he heq => rfl
    exact ⟨hsame.1.trans h.lastBits.1, hsame.2.trans h.lastBits.2⟩

theorem TableOk.mark (h : TableOk c t) (hne : addr4 ≠ 0) : TableOk c (t.markIpInTable addr4) := by
  refine ⟨?_, ?_, ?_, ?_⟩
  · rw [Table.markIpInTable_entries]
    exact h.ordered
  · intro e he hzero
    rw [Table.markIpInTable_entries] at he
    obtain ⟨hassignable, hbit⟩ := h.entries e he hzero
    refine ⟨hassignable, ?_⟩
    rw [Table.markIpInTable_ipRange, Table.markIpInTable_ipRangeOffer]
    exact hbit.imp_left fun hbit => by rw [hbit, Bool.true_or]
  · intro hnet hserver
    rw [Table.markIpInTable_ipRange, h.server hnet hserver, Bool.true_or]
  · rw [Table.markIpInTable_ipRange, h.lastBits.1]
    simp [(ne_last_bit hne).symm, h.lastBits.2]

theorem TableOk.ack (h : TableOk c t) (hassignable : Assignable c addr4) (hne : addr4 ≠ 0) :
    TableOk c ((t.markIpInTable addr4).saveClientAddr connected addr4 mac) := by
  refine (h.mark hne).save hassignable hne (.inl ?_)
  rw [Table.markIpInTable_ipRange]
  simp [UInt8.pos_iff_ne_zero.mpr hne]

theorem TableOk.offer (hpool : PoolCond c) (h : TableOk c t) (hfree : Table.Free c t index) :
    Assignable c (index + 1) ∧
      TableOk c ({ t with ipRangeOffer := update t.ipRangeOffer index true }.saveClientAddr
        connected (index + 1) mac) := by
  obtain ⟨_, hunused, hrange⟩ := hfree
  have hhost : HostInPool c (index + 1) := hrange hpool.isSet
  have hne := hhost.ne_zero hpool
  have hassignable : Assignable c (index + 1) := by
    refine ⟨hhost, fun hserver => ?_⟩
    -- the server's own address is in use
    have hsame : index + 1 = c.netif.ipAddr.addr4 := congrArg Ip4.addr4 hserver
    rw [hsame] at hserver hne
    have hbit := h.server hserver hne
    rw [← hsame, UInt8.add_sub_cancel, hunused] at hbit
    cases hbit
  have hset : ∀ i, t.ipRangeOffer i = true →
      update t.ipRangeOffer index true i = true := by
    intro i hbit
    by_cases hsame : i = index
    · rw [hsame, update_self]
    · rw [update_of_ne hsame, hbit]
  have hlast : (255 : UInt8) ≠ index := by
    intro hlast
    rw [← hlast] at hne
    exact hne (by decide)
  refine ⟨hassignable, TableOk.save ⟨h.ordered, ?_, h.server, ?_⟩ hassignable hne (.inr ?_)⟩
  · intro e he hzero
    obtain ⟨hold, hbit⟩ := h.entries e he hzero
    exact ⟨hold, hbit.imp_right (hset _)⟩
  · exact ⟨h.lastBits.1, (update_of_ne hlast _ _).trans h.lastBits.2⟩
  · rw [UInt8.add_sub_cancel]
    exact update_self _ _ _

theorem tableOk_init : TableOk c (dhcpsInit c).table := by
  have hentries : (dhcpsInit c).table.entries = List.replicate c.apStaNum ⟨0, 0⟩ := by
    simp [dhcpsInit]
  have hlast : ∀ d : UInt8, ¬ (0 < d ∧ 255 = d - 1) := fun d hd =>
    ne_last_bit (UInt8.pos_iff_ne_zero.mp hd.1) hd.2.symm
  refine ⟨?_, ?_, ?_, ?_⟩
  · rw [hentries]
    exact pairwise_replicate.mpr (.inr ⟨id, fun _ => rfl⟩)
  · intro e he hzero
    rw [hentries] at he
    rw [eq_of_mem_replicate he] at hzero
    exact absurd rfl hzero
  · intro _ hserver
    simp only [dhcpsInit, Table.markIpInTable_ipRange]
    simp [UInt8.pos_iff_ne_zero.mpr hserver]
  · simp only [dhcpsInit, Table.markIpInTable_ipRange]
    simp [hlast]

theorem ne_zero_of_bit {range : UInt8 → Bool} (hlast : range 255 = false)
    (hbit : range (addr4 - 1) = true) : addr4 ≠ 0 := by
  rintro rfl
  exact Bool.noConfusion (hlast.symm.trans hbit)

theorem TableOk.searchClient (h : TableOk c t) :
    Assignable c (t.dhcpsSearchClientIp mac) ∨ (t.dhcpsSearchClientIp mac = 0 ∧
        ∀ e ∈ t.entries, e.clientMac = mac → t.ipRange (e.ipAddr4 - 1) = false) := by
  unfold Table.dhcpsSearchClientIp
  split
  · rename_i e hfound
    have hbit : e.clientMac = mac ∧ t.ipRange (e.ipAddr4 - 1) = true := by
      simpa using List.find?_some hfound
    have hne := ne_zero_of_bit h.lastBits.1 hbit.2
    exact .inl (h.entries e (mem_of_find?_eq_some hfound) hne).1
  · rename_i hnone
    refine .inr ⟨rfl, fun e he hmac => ?_⟩
    have hfalse := List.find?_eq_none.mp hnone e he
    simpa [hmac] using hfalse

theorem mem_ipIndices : index ∈ Table.ipIndices := by
  refine mem_map.mpr ⟨index.toNat, mem_range.mpr index.toNat_lt, ?_⟩
  exact UInt8.ofNat_toNat

theorem TableOk.searchNext (hpool : PoolCond c) (h : TableOk c t)
    (hunused : ∀ e ∈ t.entries, e.clientMac = mac → t.ipRange (e.ipAddr4 - 1) = false)
    (hfree : ∃ addr4, HostInPool c addr4 ∧ FreeFor t mac addr4) :
    Assignable c (t.searchNextIp c connected mac).1 ∧
      TableOk c (t.searchNextIp c connected mac).2 := by
  unfold Table.searchNextIp
  split
  · rename_i e hfound
    have hbit : e.clientMac = mac ∧ t.ipRangeOffer (e.ipAddr4 - 1) = true := by
      simpa using List.find?_some hfound
    have hne := ne_zero_of_bit h.lastBits.2 hbit.2
    exact ⟨(h.entries e (mem_of_find?_eq_some hfound) hne).1, h⟩
  rename_i hnone
  split
  · rename_i index hfound
    have hindex := List.find?_some hfound
    exact h.offer hpool (of_decide_eq_true hindex)
  -- an address for the client would have been found
  rename_i hnoIndex
  exfalso
  obtain ⟨addr4, hhost, ⟨hoffer, hrange⟩ | hown⟩ := hfree
  · refine List.find?_eq_none.mp hnoIndex (addr4 - 1) mem_ipIndices (decide_eq_true ?_)
    refine ⟨hoffer, hrange, fun _ => ?_⟩
    rw [UInt8.sub_add_cancel]
    exact hhost
  · rcases (h.entries _ hown (hhost.ne_zero hpool)).2 with hbit | hbit
    · exact Bool.noConfusion ((hunused _ hown rfl).symm.trans hbit)
    · refine List.find?_eq_none.mp hnone _ hown ?_
      simpa using hbit

theorem offerIp_ok (hpool : PoolCond c) {s : Server} (h : TableOk c s.table)
    (hrequest : RequestInPool c s.clientRequestIp)
    (hfree : ∃ addr4, HostInPool c addr4 ∧ FreeFor s.table s.clientAddr addr4) :
    Assignable c (offerIp c connected s).1 ∧ TableOk c (offerIp c connected s).2 := by
  unfold offerIp
  rcases h.searchClient with hleased | ⟨hzero, hunused⟩
  · rw [if_pos (hleased.pool.ne_zero hpool)]
    exact ⟨hleased, h⟩
  rw [if_neg (not_not.mpr hzero)]
  split_ifs with hrequested
  · exact ⟨assignable_of_check hrequest rfl hrequested, h⟩
  · exact h.searchNext hpool hunused hfree

end Tables

/-! ### Steps -/

section

variable {c : Config} {n : Network}

theorem poolInv_init (c : Config) : PoolInv c (.init c) where
  waiting := .inl rfl
  table := tableOk_init
  allocated h := absurd rfl h
  safe _ h := absurd h not_mem_nil

theorem PoolInv.send (h : PoolInv c { n with server := s' })
    (hreply : ReplyOk c ⟨reply, client, n.lastAck reply.yiaddr, n.server.table⟩) :
    PoolInv c (n.send s' client reply) := by
  refine { h with safe := fun x hx => ?_ }
  rcases mem_append.mp hx with hbefore | hnew
  · exact h.safe x hbefore
  · rw [mem_singleton.mp hnew]
    exact hreply

theorem PoolInv.acceptable (h : PoolInv c n) (hrequest : RequestInPool c (requestedIp n.server m))
    (hip : ip.addr4 ≠ 0) (hwhy : Acceptable c n.server m ip) :
    Assignable c ip.addr4 ∧ ip = c.address ip.addr4 := by
  rcases hwhy with ⟨hcheck, haddress⟩ | ⟨_, rfl, _⟩
  · exact ⟨assignable_of_check hrequest hcheck hip, haddress⟩
  · exact h.allocated hip

theorem PoolInv.offered (hpool : PoolCond c) (h : PoolInv c n) (hbefore : s₁.table = n.server.table)
    (hrequest : RequestInPool c s₁.clientRequestIp)
    (hfree : ∃ addr4, HostInPool c addr4 ∧ FreeFor n.server.table s₁.clientAddr addr4)
    (htable : s'.table = (offerIp c n.connected s₁).2)
    (hallocated : s'.allocatedClientAddress = c.address (offerIp c n.connected s₁).1)
    (hwaiting : s'.Waiting) :
    PoolInv c (n.send s' s₁.clientAddr ⟨.offer, c.address (offerIp c n.connected s₁).1⟩) := by
  rw [← hbefore] at hfree
  have hoffer := @offerIp_ok c n.connected hpool s₁ (hbefore ▸ h.table) hrequest hfree
  have hafter : PoolInv c { n with server := s' } := by
    refine ⟨hwaiting, htable ▸ hoffer.2, fun _ => ?_, h.safe⟩
    rw [hallocated]
    exact ⟨hoffer.1, rfl⟩
  refine hafter.send ⟨fun _ => hoffer.1.replyOk hpool, fun _ => ?_⟩
  obtain ⟨addr4, hhost, hfor⟩ := hfree
  exact ⟨addr4, inPool_address hpool hhost, hbefore ▸ hfor⟩

theorem PoolInv.message (hpool : PoolCond c) (h : PoolInv c n) (hcond : PoolStep c n (.message m)) :
    PoolInv c (netStep c n (.message m)) := by
  have houtcome := @dhcpsReceive_outcome c n.connected n.server m h.waiting
  revert houtcome
  simp only [netStep]
  generalize dhcpsReceive c n.connected n.server m = result
  obtain ⟨s', reply⟩ := result
  intro houtcome
  cases houtcome with
  | quiet htable hallocated hwaiting =>
    exact ⟨hwaiting, htable ▸ h.table, hallocated ▸ h.allocated, h.safe⟩
  | offered hmagic hoffering hclient hrequest hbefore htable hallocated hwaiting =>
    obtain ⟨hinPool, hfree⟩ := (hcond hmagic).2 hoffering
    rw [← hrequest] at hinPool
    rw [← hclient] at hfree ⊢
    exact h.offered hpool hbefore hinPool hfree htable hallocated hwaiting
  | acked hmagic htype hip hwhy htable hallocated hwaiting hreply =>
    obtain ⟨hassignable, haddress⟩ := h.acceptable ((hcond hmagic).1 htype) hip hwhy
    have hafter : PoolInv c { n with server := s' } := by
      refine ⟨hwaiting, htable ▸ h.table.ack hassignable hip, fun hne => ?_, h.safe⟩
      rw [hallocated] at hne
      exact absurd rfl hne
    rcases hreply with rfl | rfl
    · refine hafter.send ⟨fun _ => ?_, fun h => by cases h⟩
      rw [haddress]
      exact hassignable.replyOk hpool
    · exact hafter
  | refused htable hallocated hwaiting =>
    have hafter : PoolInv c { n with server := s' } :=
      ⟨hwaiting, htable ▸ h.table, hallocated ▸ h.allocated, h.safe⟩
    exact hafter.send ⟨fun hnak => absurd rfl hnak, fun h => by cases h⟩

/-- Under the condition every reply stays in the pool. -/
theorem poolInv_step (hpool : PoolCond c) (n : Network) (ev : Event) (h : PoolInv c n)
    (hcond : PoolStep c n ev) : PoolInv c (netStep c n ev) := by
  cases ev with
  | connect mac => exact { h with }
  | disconnect mac => exact { h with }
  | message m => exact h.message hpool hcond

end

/-- **The pool is kept.** Under the conditions an OFFER or an ACK is for an address of the pool
    other than the server's, and an OFFER is only sent while one is free. -/
theorem pool_safe (hpool : PoolCond c) (events : List Event)
    (hcond : Along (netStep c) (PoolStep c) (.init c) events) :
    Throughout (netStep c) (PoolSafe c) (.init c) events :=
  (hcond.throughout (poolInv_step hpool) (poolInv_init c)).mono fun _ h => h.safe

/-! ### Requests and offers outside of the pool -/

theorem smallNet_requestInPool (request : Ip4) : RequestInPool smallNet request := by
  intro _ hlow hhigh
  refine ⟨⟨hlow, hhigh⟩, fun heq => ?_⟩
  have hhost : request.addr4 = 1 := congrArg Ip4.addr4 heq
  rw [hhost] at hlow
  exact absurd hlow (by decide)

theorem smallNet_poolStep (m : Msg) (hfree : FreeFor n.server.table m.chaddr 102) :
    PoolStep smallNet n (.message m) := by
  refine fun _ => ⟨fun _ => smallNet_requestInPool _, fun _ =>
    ⟨smallNet_requestInPool _, 102, ?_, hfree⟩⟩
  unfold HostInPool
  decide

/-- Two clients discover and request an address each. -/
theorem two_clients_pool_safe :
    Throughout (netStep smallNet) (PoolSafe smallNet) (.init smallNet)
      [.connect 1, .connect 2, .message (discoverMsg 1),
        .message (requestMsg 1 (smallNet.address 100)), .message (discoverMsg 2),
        .message (requestMsg 2 (smallNet.address 101))] := by
  apply pool_safe smallNet
  · refine ⟨by decide, by decide, by decide, ?_, ?_⟩ <;> unfold HostInPool <;> decide
  · refine ⟨trivial, trivial, smallNet_poolStep _ ?_, smallNet_poolStep _ ?_,
      smallNet_poolStep _ ?_,
      smallNet_poolStep _ ?_, trivial⟩ <;> exact .inl (by decide +kernel)

/-- The pool from .10 to .20. -/
def lowPool : Config :=
  { smallNet with pool := ⟨true, ⟨192, 168, 43, 10⟩, ⟨192, 168, 43, 20⟩⟩ }

/-- The server has an address of the default pool. -/
def serverInPool : Config :=
  { smallNet with netif := ⟨⟨192, 168, 43, 150⟩, ⟨255, 255, 255, 0⟩, ⟨192, 168, 43, 150⟩⟩ }

def singlePool : Config :=
  { smallNet with pool := ⟨true, ⟨192, 168, 43, 100⟩, ⟨192, 168, 43, 100⟩⟩ }

def repliesOf (events : List Event) : List Reply :=
  (events.foldl (netStep c) (.init c)).sent.map (·.reply)

/-- Requests for .150 are acknowledged outside of the pool or for the server's own address, and with
    the pool used up the network address is offered. -/
theorem assigned_outside_pool : repliesOf lowPool [.message (requestMsg 1 ⟨192, 168, 43, 150⟩)] =
      [⟨.ack, ⟨192, 168, 43, 150⟩⟩] ∧ ¬ InPool lowPool ⟨192, 168, 43, 150⟩ ∧
    repliesOf serverInPool [.message (requestMsg 1 ⟨192, 168, 43, 150⟩)] =
      [⟨.ack, serverInPool.netif.ipAddr⟩] ∧
    repliesOf singlePool [.connect 1, .connect 2, .message (discoverMsg 1),
      .message (discoverMsg 2)] =
      [⟨.offer, ⟨192, 168, 43, 100⟩⟩, ⟨.offer, singlePool.networkId⟩] := by
  refine ⟨?_, ?_, ?_, ?_⟩
  · decide +kernel
  · unfold InPool
    decide
  · decide +kernel
  · decide +kernel

end AmebaRtos.Dhcp
