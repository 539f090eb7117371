import AmebaRtos.Dhcp.Server
import AmebaRtos.Lib.Run

/-!
# Leases

An address is held by the client that the last ACK for it went to, until that client disconnects.
The check of a request looks for the address in the table, so a lease is only protected while it
has an entry: an ACK that finds no entry to use is not recorded. And a request for the address
that was offered last is acknowledged without the check, whoever it was offered to.
-/

namespace AmebaRtos.Dhcp

open Lib Function List

/-- A reply, with the client, the holder of the address and the table as they were before it. -/
structure Sent where
  reply : Reply
  client : Mac
  holder : Option Mac
  table : Table

structure Network where
  server : Server
  connected : List Mac
  -- where the last ACK for an address went, if that client has been connected since
  lastAck : Ip4 → Option Mac
  sent : List Sent

inductive Event where
  | connect (mac : Mac)
  | disconnect (mac : Mac)
  | message (m : Msg)

variable (c : Config)

def Network.init : Network := ⟨dhcpsInit c, [], fun _ => none, []⟩

local instance lawfulMac : LawfulBEq Mac := inferInstance

variable (n : Network)

def Network.send (server : Server) (client : Mac) (reply : Reply) : Network where
  server := server
  connected := n.connected
  lastAck :=
    if reply.type = .ack then
      update n.lastAck reply.yiaddr (if client ∈ n.connected then some client else none)
    else n.lastAck
  sent := n.sent ++ [⟨reply, client, n.lastAck reply.yiaddr, n.server.table⟩]

def netStep : Event → Network
  | .connect mac => { n with connected := mac :: n.connected }
  | .disconnect mac =>
    { n with
      connected := n.connected.filter (· ≠ mac)
      lastAck := fun ip => if n.lastAck ip = some mac then none else n.lastAck ip }
  | .message m =>
    match dhcpsReceive c n.connected n.server m with
    | (server, none) => { n with server := server }
    | (server, some reply) => n.send server m.chaddr reply

/-- No ACK assigns an address while another client holds it. -/
def LeaseSafe : Prop :=
  ∀ x ∈ n.sent, x.reply.type = .ack → ∀ mac, x.holder = some mac → mac = x.client

/-- An entry of the table can be used for the address, and if it was offered last, no other client
    uses it. -/
structure RequestCond (n : Network) (m : Msg) : Prop where
  recordable : ∃ e ∈ n.server.table.entries,
    e.ipAddr4 = 0 ∨ e.ipAddr4 = (requestedIp n.server m).addr4 ∨ e.clientMac ∉ n.connected
  fresh : n.server.stateMachine = .offer →
    n.server.allocatedClientAddress = requestedIp n.server m →
    ¬ n.server.table.UsedByOther (requestedIp n.server m).addr4 m.chaddr

/-- The last bit of the ranges belongs to no address, so it must not be taken for a free one in an
    offer. -/
def LeaseCond : Event → Prop
  | .message m =>
    m.magicOk = true → (m.parsed.1 = DHCP_MESSAGE_TYPE_REQUEST → RequestCond n m) ∧
      (Offering n.server m → ¬ Table.Free c n.server.table 255)
  | _ => True

/-! ### The table -/

section

theorem replaceFirst_eq_some {α : Type*} {p : α → Bool} {x old : α} {l l' : List α}
    (h : replaceFirst p x l = some (old, l')) :
    ∃ before after, l = before ++ old :: after ∧ l' = before ++ x :: after ∧ p old = true ∧
      ∀ a ∈ before, p a = false := by
  induction l generalizing l' with
  | nil => cases h
  | cons a rest ih =>
    rw [replaceFirst] at h
    by_cases ha : p a = true
    · rw [if_pos ha] at h
      cases h
      exact ⟨[], rest, rfl, rfl, ha, fun _ hmem => absurd hmem not_mem_nil⟩
    rw [if_neg ha, Option.map_eq_some_iff] at h
    obtain ⟨⟨old', l''⟩, hrest, heq⟩ := h
    cases heq
    obtain ⟨before, after, rfl, rfl, hold, hbefore⟩ := ih hrest
    refine ⟨a :: before, after, rfl, rfl, hold, ?_⟩
    intro b hb
    rcases mem_cons.mp hb with rfl | hmem
    · exact eq_false_of_ne_true ha
    · exact hbefore b hmem

theorem replaceFirst_eq_none {α : Type*} {p : α → Bool} {x : α} {l : List α} :
    replaceFirst p x l = none ↔ ∀ a ∈ l, p a = false := by
  induction l with
  | nil => simp [replaceFirst]
  | cons a rest ih =>
    by_cases ha : p a = true
    · simp [replaceFirst, ha]
    · simp [replaceFirst, ha, ih]

def OrderedEntries (entries : List Entry) : Prop :=
  entries.Pairwise fun a b => (a.ipAddr4 = 0 → b.ipAddr4 = 0) ∧
    (a.ipAddr4 = b.ipAddr4 → a.ipAddr4 = 0)

variable {t : Table} {connected : List Mac} {ip : UInt8} {before after : List Entry}

theorem OrderedEntries.apart (h : OrderedEntries (before ++ old :: after))
    (hmem : e ∈ before ∨ e ∈ after) (hne : old.ipAddr4 ≠ 0) : e.ipAddr4 ≠ old.ipAddr4 := by
  obtain ⟨_, hafter, hbefore⟩ := pairwise_append.mp h
  intro hsame
  rcases hmem with hfirst | hlast
  · exact hne (hsame ▸ (hbefore e hfirst old (.head _)).2 hsame)
  · exact hne (((pairwise_cons.mp hafter).1 e hlast).2 hsame.symm)

theorem OrderedEntries.replace (h : OrderedEntries (before ++ old :: after)) (hne : new.ipAddr4 ≠ 0)
    (hbefore : ∀ a ∈ before, a.ipAddr4 ≠ 0 ∧ a.ipAddr4 ≠ new.ipAddr4)
    (hold : old.ipAddr4 = 0 ∨ old.ipAddr4 = new.ipAddr4 ∨
      ∀ a ∈ after, a.ipAddr4 ≠ new.ipAddr4) : OrderedEntries (before ++ new :: after) := by
  obtain ⟨hfirst, hlater, hacross⟩ := pairwise_append.mp h
  obtain ⟨holdAfter, hafter⟩ := pairwise_cons.mp hlater
  refine pairwise_append.mpr ⟨hfirst, pairwise_cons.mpr ⟨?_, hafter⟩, ?_⟩
  · intro b hb
    refine ⟨fun hzero => absurd hzero hne, fun hsame => ?_⟩
    rcases hold with hzero | hsameOld | hapart
    · exact hsame.trans ((holdAfter b hb).1 hzero)
    · exact hsameOld ▸ (holdAfter b hb).2 (hsameOld.trans hsame)
    · exact absurd hsame.symm (hapart b hb)
  · intro a ha b hb
    rcases mem_cons.mp hb with rfl | hlast
    · exact ⟨fun hzero => absurd hzero (hbefore a ha).1, fun hsame => absurd hsame (hbefore a ha).2⟩
    · exact hacross a ha b (.tail _ hlast)

def SameBits (t t' : Table) (addr4 : UInt8) : Prop :=
  t'.ipRange (addr4 - 1) = t.ipRange (addr4 - 1) ∧
    t'.ipRangeOffer (addr4 - 1) = t.ipRangeOffer (addr4 - 1)

/-- What saving an address leaves: the entries of other connected clients, and a new one if there
    was one to use. An address keeps its bits, unless it has lost its entry. -/
structure Saved (t : Table) (connected : List Mac) (ip : UInt8) (mac : Mac) (t' : Table) :
    Prop where
  ordered : OrderedEntries t'.entries
  kept : ∀ e ∈ t.entries, e.ipAddr4 ≠ 0 → e.ipAddr4 ≠ ip → e.clientMac ∈ connected → e ∈ t'.entries
  recorded : (∃ e ∈ t.entries, e.ipAddr4 = 0 ∨ e.ipAddr4 = ip ∨ e.clientMac ∉ connected) →
    ⟨ip, mac⟩ ∈ t'.entries
  origin : ∀ e ∈ t'.entries, e = ⟨ip, mac⟩ ∨ e ∈ t.entries
  bits : ∀ addr4, SameBits t t' addr4 ∨
    (addr4 ≠ ip ∧ (∃ e ∈ t.entries, e.ipAddr4 = addr4 ∧ addr4 ≠ 0) ∧
      ∀ e ∈ t'.entries, e.ipAddr4 ≠ addr4)

theorem Saved.bits_of_mem (h : Saved t connected ip mac t') (hmem : e ∈ t'.entries) :
    SameBits t t' e.ipAddr4 :=
  (h.bits e.ipAddr4).resolve_right fun hgone => hgone.2.2 e hmem rfl

theorem mem_replaced (h : e ∈ before ++ old :: after) : e = old ∨ e ∈ before ++ new :: after := by
  simp only [mem_append, mem_cons] at h ⊢
  rcases h with hfirst | rfl | hlast
  · exact .inr (.inl hfirst)
  · exact .inl rfl
  · exact .inr (.inr (.inr hlast))

theorem replaceInvalid_saved (hordered : OrderedEntries t.entries) (hip : ip ≠ 0)
    (hnone : ∀ e ∈ t.entries, e.ipAddr4 ≠ 0 ∧ e.ipAddr4 ≠ ip) :
    Saved t connected ip mac (t.replaceInvalid connected ⟨ip, mac⟩) := by
  unfold Table.replaceInvalid
  split
  · rename_i hall
    refine ⟨hordered, fun e he _ _ _ => he, ?_, fun e he => .inr he, fun _ => .inl ⟨rfl, rfl⟩⟩
    rintro ⟨e, he, hwhy⟩
    have hconnected := replaceFirst_eq_none.mp hall e he
    rcases hwhy with hzero | hsame | hgone
    · exact absurd hzero (hnone e he).1
    · exact absurd hsame (hnone e he).2
    · simp [hgone] at hconnected
  rename_i invalid entries hfound
  obtain ⟨before, after, hentries, rfl, hgone, _⟩ := replaceFirst_eq_some hfound
  have hgone : invalid.clientMac ∉ connected := of_decide_eq_true hgone
  rw [hentries] at hordered hnone
  have hinvalid := hnone invalid (mem_append_right _ (.head _))
  have hothers : ∀ e, e ∈ before ∨ e ∈ after → e ∈ before ++ invalid :: after := by
    intro e he
    simp only [mem_append, mem_cons]
    exact he.imp_right .inr
  refine ⟨?_, ?_, fun _ => mem_append_right _ (.head _), ?_, ?_⟩
  · refine hordered.replace hip (fun a ha => hnone a (hothers a (.inl ha)))
      (.inr (.inr fun a ha => ?_))
    exact (hnone a (hothers a (.inr ha))).2
  · intro e he _ _ hconnected
    rw [hentries] at he
    refine (mem_replaced he).resolve_left fun heq => hgone ?_
    rw [← heq]
    exact hconnected
  · intro e he
    rw [hentries]
    exact mem_replaced he
  · intro addr4
    by_cases hcleared : addr4 = invalid.ipAddr4
    · subst hcleared
      refine .inr ⟨hinvalid.2, ⟨invalid, ?_, rfl, hinvalid.1⟩, fun e he => ?_⟩
      · rw [hentries]
        exact mem_append_right _ (.head _)
      · simp only [mem_append, mem_cons] at he
        rcases he with hfirst | rfl | hlast
        · exact hordered.apart (.inl hfirst) hinvalid.1
        · exact hinvalid.2.symm
        · exact hordered.apart (.inr hlast) hinvalid.1
    · have hbit : addr4 - 1 ≠ invalid.ipAddr4 - 1 := fun hbits =>
        hcleared ((UInt8.sub_left_inj 1).mp hbits)
      exact .inl ⟨update_of_ne hbit _ _, update_of_ne hbit _ _⟩

theorem saveClientAddr_saved (hordered : OrderedEntries t.entries) (hip : ip ≠ 0) :
    Saved t connected ip mac (t.saveClientAddr connected ip mac) := by
  unfold Table.saveClientAddr
  split
  · rename_i old entries hfound
    obtain ⟨before, after, hentries, rfl, hold, hbefore⟩ := replaceFirst_eq_some hfound
    have hold : old.ipAddr4 = 0 ∨ old.ipAddr4 = ip := of_decide_eq_true hold
    rw [hentries] at hordered
    refine ⟨?_, ?_, fun _ => mem_append_right _ (.head _), ?_,
      fun _ => .inl ⟨rfl, rfl⟩⟩
    · refine hordered.replace hip (fun a ha => ?_) (hold.imp_right .inl)
      have hnot := of_decide_eq_false (hbefore a ha)
      exact ⟨fun hzero => hnot (.inl hzero), fun hsame => hnot (.inr hsame)⟩
    · intro e he hne hother _
      rw [hentries] at he
      refine (mem_replaced he).resolve_left ?_
      rintro rfl
      exact hold.elim hne hother
    · intro e he
      rw [hentries]
      exact mem_replaced he
  · rename_i hnone
    refine replaceInvalid_saved hordered hip fun e he => ?_
    have hnot := of_decide_eq_false (replaceFirst_eq_none.mp hnone e he)
    exact ⟨fun hzero => hnot (.inl hzero), fun hsame => hnot (.inr hsame)⟩

theorem offerIp_cases (connected : List Mac) (s : Server) : (offerIp c connected s).2 = s.table ∨
    ∃ index, Table.Free c s.table index ∧ offerIp c connected s = (index + 1,
        { s.table with ipRangeOffer := update s.table.ipRangeOffer index true }.saveClientAddr
          connected (index + 1) s.clientAddr) := by
  unfold offerIp
  dsimp only
  split_ifs
  · exact .inl rfl
  · exact .inl rfl
  · unfold Table.searchNextIp
    split
    · exact .inl rfl
    split
    · rename_i index hfound
      have hfree := List.find?_some hfound
      exact .inr ⟨index, of_decide_eq_true hfree, rfl⟩
    · exact .inl rfl

theorem checkClientDirectRequestIp_eq {c : Config}
    (h : t.checkClientDirectRequestIp c request mac = ip) (hip : ip ≠ 0) :
    c.networkId.SameNet request ∧ DHCP_POOL_START ≤ request.addr4 ∧ request.addr4 ≤ DHCP_POOL_END ∧
      ¬ t.UsedByOther request.addr4 mac ∧ request.addr4 = ip := by
  unfold Table.checkClientDirectRequestIp at h
  by_cases hnet : c.networkId.SameNet request
  · rw [if_neg (not_not.mpr hnet)] at h
    split_ifs at h with hrange hused
    · exact absurd h.symm hip
    · exact absurd h.symm hip
    · rw [not_or, UInt8.not_lt, UInt8.not_lt] at hrange
      exact ⟨hnet, hrange.1, hrange.2, hused, h⟩
  · rw [if_pos hnet] at h
    exact absurd h.symm hip

end

/-! ### The invariant -/

structure LeaseInv (c : Config) (n : Network) : Prop where
  waiting : n.server.Waiting
  ordered : OrderedEntries n.server.table.entries
  allocated : n.server.allocatedClientAddress.addr4 ≠ 0 →
    n.server.allocatedClientAddress = c.address n.server.allocatedClientAddress.addr4
  held : ∀ ip mac, n.lastAck ip = some mac →
    mac ∈ n.connected ∧ ip.addr4 ≠ 0 ∧ ip = c.address ip.addr4 ∧
      ⟨ip.addr4, mac⟩ ∈ n.server.table.entries ∧ n.server.table.ipRange (ip.addr4 - 1) = true
  safe : LeaseSafe n

section Steps

variable {c : Config} {n : Network} {s' : Server}

theorem leaseInv_init : LeaseInv c (.init c) where
  waiting := .inl rfl
  ordered := by
    have hentries : (Network.init c).server.table.entries = List.replicate c.apStaNum ⟨0, 0⟩ := by
      simp [Network.init, dhcpsInit]
    rw [hentries]
    exact pairwise_replicate.mpr (.inr ⟨id, fun _ => rfl⟩)
  allocated h := absurd rfl h
  held _ _ h := by cases h
  safe _ h := absurd h not_mem_nil

theorem LeaseInv.withServer (h : LeaseInv c n) (hwaiting : s'.Waiting)
    (hordered : OrderedEntries s'.table.entries)
    (hallocated : s'.allocatedClientAddress.addr4 ≠ 0 →
      s'.allocatedClientAddress = c.address s'.allocatedClientAddress.addr4)
    (hkept : ∀ ip mac, n.lastAck ip = some mac →
      ⟨ip.addr4, mac⟩ ∈ s'.table.entries ∧ s'.table.ipRange (ip.addr4 - 1) = true) :
    LeaseInv c { n with server := s' } where
  waiting := hwaiting
  ordered := hordered
  allocated := hallocated
  held ip mac hheld := by
    obtain ⟨hconnected, hip, hnet, _, _⟩ := h.held ip mac hheld
    exact ⟨hconnected, hip, hnet, hkept ip mac hheld⟩
  safe := h.safe

theorem LeaseInv.sameTable (h : LeaseInv c n) (hwaiting : s'.Waiting)
    (htable : s'.table = n.server.table)
    (hallocated : s'.allocatedClientAddress = n.server.allocatedClientAddress) :
    LeaseInv c { n with server := s' } := by
  refine h.withServer hwaiting (htable ▸ h.ordered) (hallocated ▸ h.allocated) ?_
  intro ip mac hheld
  rw [htable]
  exact (h.held ip mac hheld).2.2.2

theorem LeaseInv.sendOther (h : LeaseInv c { n with server := s' }) (hreply : reply.type ≠ .ack) :
    LeaseInv c (n.send s' client reply) := by
  have hlast : (n.send s' client reply).lastAck = n.lastAck := if_neg hreply
  refine ⟨h.waiting, h.ordered, h.allocated, ?_, ?_⟩
  · rw [hlast]
    exact h.held
  · intro x hx hack mac hholder
    rcases mem_append.mp hx with hbefore | hnew
    · exact h.safe x hbefore hack mac hholder
    · rw [mem_singleton.mp hnew] at hack
      exact absurd hack hreply

section

variable (h : LeaseInv c n)
include h

theorem LeaseInv.offered (hbefore : s₁.table = n.server.table)
    (hfree : ¬ Table.Free c n.server.table 255) (htable : s'.table = (offerIp c n.connected s₁).2)
    (hallocated : s'.allocatedClientAddress = c.address (offerIp c n.connected s₁).1)
    (hwaiting : s'.Waiting) : LeaseInv c { n with server := s' } := by
  have haddress : s'.allocatedClientAddress = c.address s'.allocatedClientAddress.addr4 := by
    rw [hallocated]
    rfl
  rcases offerIp_cases c n.connected s₁ with hsame | ⟨index, hindex, hoffer⟩
  · rw [hsame, hbefore] at htable
    refine h.withServer hwaiting (htable ▸ h.ordered) (fun _ => haddress) ?_
    intro ip mac hheld
    rw [htable]
    exact (h.held ip mac hheld).2.2.2
  rw [hbefore] at hindex
  rw [hoffer, hbefore] at htable
  have hip : index + 1 ≠ 0 := by
    intro hzero
    have hlast : index = 255 := by
      have hsub := congrArg (· - 1) hzero
      rwa [UInt8.add_sub_cancel] at hsub
    exact hfree (hlast ▸ hindex)
  have hsaved := @saveClientAddr_saved { n.server.table with
    ipRangeOffer := update n.server.table.ipRangeOffer index true }
    n.connected (index + 1) s₁.clientAddr h.ordered hip
  refine h.withServer hwaiting (htable ▸ hsaved.ordered) (fun _ => haddress) ?_
  intro ip mac hheld
  obtain ⟨hconnected, hne, _, hentry, hbit⟩ := h.held ip mac hheld
  have hother : ip.addr4 ≠ index + 1 := by
    intro hsame
    have hunused := hindex.2.1
    rw [hsame, UInt8.add_sub_cancel, hunused] at hbit
    cases hbit
  have hkept := hsaved.kept ⟨ip.addr4, mac⟩ hentry hne hother hconnected
  rw [htable]
  exact ⟨hkept, (hsaved.bits_of_mem hkept).1.trans hbit⟩

theorem LeaseInv.holder_eq (hunused : ¬ n.server.table.UsedByOther ip.addr4 client)
    (hheld : n.lastAck ip = some mac) : mac = client := by
  by_contra hother
  obtain ⟨_, _, _, hentry, hbit⟩ := h.held ip mac hheld
  exact hunused ⟨_, hentry, rfl, hother, hbit⟩

section Acked

variable (hcond : RequestCond n m) (hip : ip.addr4 ≠ 0) (hwhy : Acceptable c n.server m ip)
include hcond hip hwhy

theorem acceptable_unused : (requestedIp n.server m).addr4 = ip.addr4 ∧ ip = c.address ip.addr4 ∧
      ¬ n.server.table.UsedByOther ip.addr4 m.chaddr := by
  rcases hwhy with ⟨hcheck, haddress⟩ | ⟨hstate, hallocated, hrequest⟩
  · obtain ⟨_, _, _, hunused, hsame⟩ := checkClientDirectRequestIp_eq hcheck hip
    exact ⟨hsame, haddress, hsame ▸ hunused⟩
  have hunused := hcond.fresh hstate (hallocated.trans hrequest.symm)
  rw [hrequest] at hunused
  have haddress := h.allocated (hallocated.symm ▸ hip)
  rw [hallocated] at haddress
  exact ⟨congrArg Ip4.addr4 hrequest, haddress, hunused⟩

variable (htable : s'.table =
    (n.server.table.markIpInTable ip.addr4).saveClientAddr n.connected ip.addr4 m.chaddr)
  (hallocated : s'.allocatedClientAddress = .zero) (hwaiting : s'.Waiting)
include htable hallocated hwaiting

theorem LeaseInv.acked : LeaseInv c { n with server := s' } ∧
      ⟨ip.addr4, m.chaddr⟩ ∈ s'.table.entries ∧ s'.table.ipRange (ip.addr4 - 1) = true := by
  obtain ⟨hrequest, haddress, hunused⟩ := acceptable_unused h hcond hip hwhy
  have hordered : OrderedEntries (n.server.table.markIpInTable ip.addr4).entries := by
    rw [Table.markIpInTable_entries]
    exact h.ordered
  have hsaved := @saveClientAddr_saved _ n.connected ip.addr4 m.chaddr hordered hip
  rw [← htable] at hsaved
  have hentry : ⟨ip.addr4, m.chaddr⟩ ∈ s'.table.entries := by
    refine hsaved.recorded ?_
    rw [Table.markIpInTable_entries, ← hrequest]
    exact hcond.recordable
  have hbit : s'.table.ipRange (ip.addr4 - 1) = true := by
    rw [(hsaved.bits_of_mem hentry).1, Table.markIpInTable_ipRange]
    simp [UInt8.pos_iff_ne_zero.mpr hip]
  refine ⟨h.withServer hwaiting hsaved.ordered ?_ ?_, hentry, hbit⟩
  · intro hne
    rw [hallocated] at hne
    exact absurd rfl hne
  · intro ip' mac hheld
    obtain ⟨hconnected, hne, haddress', hentry', hbit'⟩ := h.held ip' mac hheld
    by_cases hsame : ip'.addr4 = ip.addr4
    · have heq : ip' = ip := by rw [haddress', hsame, ← haddress]
      rw [heq] at hheld ⊢
      rw [h.holder_eq hunused hheld]
      exact ⟨hentry, hbit⟩
    have hmem : ⟨ip'.addr4, mac⟩ ∈ (n.server.table.markIpInTable ip.addr4).entries := by
      rw [Table.markIpInTable_entries]
      exact hentry'
    have hkept := hsaved.kept _ hmem hne hsame hconnected
    refine ⟨hkept, (hsaved.bits_of_mem hkept).1.trans ?_⟩
    rw [Table.markIpInTable_ipRange, hbit', Bool.true_or]

theorem LeaseInv.sendAck : LeaseInv c (n.send s' m.chaddr ⟨.ack, ip⟩) := by
  obtain ⟨_, haddress, hunused⟩ := acceptable_unused h hcond hip hwhy
  obtain ⟨hafter, hentry, hbit⟩ := h.acked hcond hip hwhy htable hallocated hwaiting
  refine ⟨hafter.waiting, hafter.ordered, hafter.allocated, ?_, ?_⟩
  · intro ip' mac hheld
    change update n.lastAck ip _ ip' = some mac at hheld
    by_cases hsame : ip' = ip
    · subst hsame
      rw [update_self] at hheld
      split_ifs at hheld with hconnected
      cases hheld
      exact ⟨hconnected, hip, haddress, hentry, hbit⟩
    · rw [update_of_ne hsame] at hheld
      exact hafter.held ip' mac hheld
  · intro x hx hack mac hholder
    rcases mem_append.mp hx with hbefore | hnew
    · exact h.safe x hbefore hack mac hholder
    · rw [mem_singleton.mp hnew] at hholder ⊢
      exact h.holder_eq hunused hholder

end Acked

theorem LeaseInv.message (hcond : LeaseCond c n (.message m)) :
    LeaseInv c (netStep c n (.message m)) := by
  have houtcome := @dhcpsReceive_outcome c n.connected n.server m h.waiting
  revert houtcome
  simp only [netStep]
  generalize dhcpsReceive c n.connected n.server m = result
  obtain ⟨s', reply⟩ := result
  intro houtcome
  cases houtcome with
  | quiet htable hallocated hwaiting => exact h.sameTable hwaiting htable hallocated
  | offered hmagic hoffering _ _ hbefore htable hallocated hwaiting =>
    have hfree := (hcond hmagic).2 hoffering
    exact (h.offered hbefore hfree htable hallocated hwaiting).sendOther nofun
  | acked hmagic htype hip hwhy htable hallocated hwaiting hreply =>
    have hrequest := (hcond hmagic).1 htype
    rcases hreply with rfl | rfl
    · exact h.sendAck hrequest hip hwhy htable hallocated hwaiting
    · exact (h.acked hrequest hip hwhy htable hallocated hwaiting).1
  | refused htable hallocated hwaiting =>
    exact (h.sameTable hwaiting htable hallocated).sendOther nofun

end

/-- Under the condition the leases stay apart. -/
theorem leaseInv_step (n : Network) (ev : Event) (h : LeaseInv c n) (hcond : LeaseCond c n ev) :
    LeaseInv c (netStep c n ev) := by
  cases ev with
  | connect mac =>
    refine { h with held := fun ip mac' hheld => ?_ }
    obtain ⟨hconnected, hrest⟩ := h.held ip mac' hheld
    exact ⟨.tail _ hconnected, hrest⟩
  | disconnect mac =>
    refine { h with held := fun ip mac' hheld => ?_ }
    simp only [netStep] at hheld
    split_ifs at hheld with hgone
    obtain ⟨hconnected, hrest⟩ := h.held ip mac' hheld
    refine ⟨mem_filter.mpr ⟨hconnected, decide_eq_true fun heq => hgone ?_⟩, hrest⟩
    rw [hheld, heq]
  | message m => exact h.message hcond

end Steps

/-- **No double assignment.** Under the condition no ACK assigns an address that another connected
    client holds. -/
theorem lease_safe (events : List Event)
    (hcond : Along (netStep c) (LeaseCond c) (.init c) events) :
    Throughout (netStep c) LeaseSafe (.init c) events :=
  (hcond.throughout leaseInv_step (leaseInv_init)).mono fun _ h => h.safe

/-! ### Two clients -/

/-- The access point with its default pool and two stations. -/
def smallNet : Config where
  netif := ⟨⟨192, 168, 43, 1⟩, ⟨255, 255, 255, 0⟩, ⟨192, 168, 43, 1⟩⟩
  pool := ⟨false, .zero, .zero⟩
  apStaNum := 2

def msgOf (mac : Mac) (options : List UInt8) : Msg :=
  ⟨.zero, mac, true, fun i => options.getD i 0, options.length, true⟩

def discoverMsg (mac : Mac) : Msg :=
  msgOf mac [DHCP_OPTION_CODE_MSG_TYPE, 1, DHCP_MESSAGE_TYPE_DISCOVER, DHCP_OPTION_CODE_END]

def requestMsg (mac : Mac) (ip : Ip4) : Msg :=
  msgOf mac [DHCP_OPTION_CODE_MSG_TYPE, 1, DHCP_MESSAGE_TYPE_REQUEST,
    DHCP_OPTION_CODE_REQUEST_IP_ADDRESS, 4, ip.addr1, ip.addr2, ip.addr3, ip.addr4,
    DHCP_OPTION_CODE_END]

/-- Two clients get an address each; the first one is refused that of the second, and asks for its
    own once more. -/
def twoClients : List Event :=
  [.connect 1, .connect 2, .message (requestMsg 1 (smallNet.address 100)),
    .message (requestMsg 2 (smallNet.address 101)), .message (requestMsg 1 (smallNet.address 101)),
    .message (requestMsg 1 (smallNet.address 100))]

theorem twoClients_cond :
    Along (netStep smallNet) (LeaseCond smallNet) (.init smallNet) twoClients := by
  refine ⟨trivial, trivial, fun _ => ⟨fun _ => ⟨⟨⟨0, 0⟩, ?_, .inl rfl⟩, ?_⟩, ?_⟩,
    fun _ => ⟨fun _ => ⟨⟨⟨0, 0⟩, ?_, .inl rfl⟩, ?_⟩, ?_⟩,
    fun _ => ⟨fun _ => ⟨⟨⟨101, 2⟩, ?_, .inr (.inl rfl)⟩, ?_⟩, ?_⟩,
    fun _ => ⟨fun _ => ⟨⟨⟨100, 1⟩, ?_, .inr (.inl rfl)⟩, ?_⟩, ?_⟩, trivial⟩
  all_goals decide +kernel

theorem twoClients_safe :
    (twoClients.foldl (netStep smallNet) (.init smallNet)).sent.map
        (fun x => (x.reply.type, x.client, x.holder)) =
      [(.ack, 1, none), (.ack, 2, none), (.nak, 1, none), (.ack, 1, some 1)] ∧
    Throughout (netStep smallNet) LeaseSafe (.init smallNet) twoClients :=
  ⟨by decide +kernel, lease_safe smallNet _ twoClients_cond⟩

/-- The second client requests the address that was offered to the first one again. -/
def requestAfterOffer : List Event :=
  [.connect 1, .connect 2, .message (requestMsg 1 (smallNet.address 100)),
    .message (discoverMsg 1), .message (requestMsg 2 (smallNet.address 100))]

/-- The first client has two entries, so there is none for the lease of the second one. -/
def requestUnrecorded : List Event :=
  [.connect 1, .connect 2, .message (requestMsg 1 (smallNet.address 100)),
    .message (requestMsg 1 (smallNet.address 101)), .message (requestMsg 2 (smallNet.address 102)),
    .message (requestMsg 1 (smallNet.address 102))]

/-- The last ACK of each run, with the client and the holder. -/
def lastSent (events : List Event) : Option (Reply × Mac × Option Mac) :=
  (events.foldl (netStep smallNet) (.init smallNet)).sent.getLast?.map fun x =>
    (x.reply, x.client, x.holder)

theorem address_assigned_twice :
    lastSent requestAfterOffer = some (⟨.ack, smallNet.address 100⟩, 2, some 1) ∧
    lastSent requestUnrecorded = some (⟨.ack, smallNet.address 102⟩, 1, some 2) := by
  decide +kernel

end AmebaRtos.Dhcp
