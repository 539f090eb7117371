import AmebaRtos.Dhcp.Lease

/-!
# Exchanges of several clients

The server has one set of variables for the exchange that is going on. An ACK clears them; a NAK,
a DECLINE, a RELEASE and an offer that is not taken up do not, so the next message meets what was
left. The measure is a server that answers each message from the table alone.
-/

namespace AmebaRtos.Dhcp

open Lib

/-- The address that a message itself requests: its option 50, or the address of the client. -/
def Msg.wanted (m : Msg) : Ip4 := m.parsed.2.getD m.ciaddr

def Reply.assigned (r : Reply) : ReplyType × Option Ip4 :=
  (r.type, if r.type = .nak then none else some r.yiaddr)

variable (c : Config)

def Network.answer (n : Network) (m : Msg) : Option (ReplyType × Option Ip4) :=
  (dhcpsReceive c n.connected n.server m).2.map Reply.assigned

def afterHistory (events : List Event) : Network :=
  events.foldl (netStep c) (.init c)

variable (t : Table)

def Grantable (request : Ip4) (mac : Mac) : Prop :=
  c.networkId.SameNet request ∧ DHCP_POOL_START ≤ request.addr4 ∧ request.addr4 ≤ DHCP_POOL_END ∧
    ¬ t.UsedByOther request.addr4 mac
deriving Decidable

/-- A message does not use what an earlier exchange has left: it names its own address, does not
    rely on the state OFFER, and a request for the offered address is one that the table allows
    anyway. -/
structure Settled (c : Config) (s : Server) (m : Msg) : Prop where
  request : m.parsed.2 = none → s.clientRequestIp = .zero
  -- an option 50 of 0.0.0.0 counts as none in a request
  zero : m.parsed.2 = some .zero → m.ciaddr = .zero
  offering : Offering s m → m.parsed.1 = DHCP_MESSAGE_TYPE_DISCOVER
  offer : s.stateMachine = .offer → m.parsed.1 = DHCP_MESSAGE_TYPE_REQUEST →
    s.allocatedClientAddress = m.wanted → Grantable c s.table m.wanted m.chaddr

/-! ### The server without memory -/

def offeredAddr4 (m : Msg) : UInt8 :=
  let leased := t.dhcpsSearchClientIp m.chaddr
  let requested := t.checkClientDirectRequestIp c (m.parsed.2.getD .zero) m.chaddr
  if leased ≠ 0 then leased
  else if requested ≠ 0 then requested
  else (t.searchNextIp c [] m.chaddr).1

def answerFromTable (m : Msg) : Option (ReplyType × Option Ip4) :=
  if m.magicOk = true then
    if m.parsed.1 = DHCP_MESSAGE_TYPE_REQUEST then
      if Grantable c t m.wanted m.chaddr then
        if m.allocOk then some (.ack, some m.wanted) else none
      else some (.nak, none)
    else if m.parsed.1 = DHCP_MESSAGE_TYPE_DISCOVER then
      if m.allocOk then some (.offer, some (c.address (offeredAddr4 c t m))) else none
    else none
  else none

/-! ### Requests -/

section

variable {c : Config}

theorem requestedIp_of_settled (h : Settled c s m) : requestedIp s m = m.wanted := by
  unfold requestedIp Msg.wanted renew
  rcases hoption : m.parsed.2 with _ | ip
  · -- no address is left from an earlier message
    have hzero := h.request hoption
    by_cases hciaddr : m.ciaddr = .zero
    · simp [hzero, hciaddr]
    · simp [hzero, hciaddr]
  · by_cases hip : ip = .zero
    · have hciaddr := h.zero (hip ▸ hoption)
      simp [hciaddr]
    · simp [hip]

theorem address_of_sameNet {request : Ip4} (h : c.networkId.SameNet request) :
    c.address request.addr4 = request := by
  obtain ⟨h₁, h₂, h₃⟩ := h
  simp [Config.address, h₁, h₂, h₃]

theorem checkClientDirectRequestIp_of_grantable {t : Table} (h : Grantable c t request mac) :
    t.checkClientDirectRequestIp c request mac = request.addr4 := by
  obtain ⟨hnet, hlow, hhigh, hunused⟩ := h
  unfold Table.checkClientDirectRequestIp
  rw [if_neg (not_not.mpr hnet), if_neg, if_neg hunused]
  rw [not_or, UInt8.not_lt, UInt8.not_lt]
  exact ⟨hlow, hhigh⟩

theorem handleRequest_of_grantable (hwaiting : s.Waiting)
    (h : Grantable c s.table s.clientRequestIp s.clientAddr) :
    handleRequest c s =
      { s with allocatedClientAddress := s.clientRequestIp, stateMachine := .ack } := by
  have hpos : s.clientRequestIp.addr4 > 0 :=
    UInt8.lt_of_lt_of_le (by decide : (0 : UInt8) < DHCP_POOL_START) h.2.1
  unfold handleRequest
  dsimp only
  rw [checkClientDirectRequestIp_of_grantable h, address_of_sameNet h.1]
  rcases hwaiting with hstate | hstate
  · simp only [hstate, if_pos hpos]
  · simp only [hstate, if_pos hpos]

theorem handleRequest_of_not_grantable (hwaiting : s.Waiting)
    (h : ¬ Grantable c s.table s.clientRequestIp s.clientAddr)
    (hoffer : s.stateMachine = .offer → s.allocatedClientAddress ≠ s.clientRequestIp) :
    handleRequest c s = { s with stateMachine := .nak } := by
  rcases @handleRequest_cases c s hwaiting with ⟨ip, _, hip, hwhy⟩ | hnak
  · exfalso
    rcases hwhy with ⟨hcheck, _⟩ | ⟨hstate, hallocated, hrequest⟩
    · obtain ⟨hnet, hlow, hhigh, hunused, _⟩ := checkClientDirectRequestIp_eq hcheck hip
      exact h ⟨hnet, hlow, hhigh, hunused⟩
    · exact hoffer hstate (hallocated.trans hrequest.symm)
  · exact hnak

end

/-! ### Answers -/

section

variable {c : Config} {n : Network}

theorem searchNextIp_fst : (t.searchNextIp c connected mac).1 = (t.searchNextIp c [] mac).1 := by
  unfold Table.searchNextIp
  split
  · rfl
  · split
    · rfl
    · rfl

theorem offerIp_fst (hrequest : s.clientRequestIp = m.parsed.2.getD .zero)
    (hclient : s.clientAddr = m.chaddr) : (offerIp c connected s).1 = offeredAddr4 c s.table m := by
  unfold offerIp offeredAddr4
  rw [hrequest, hclient]
  dsimp only
  split_ifs
  · rfl
  · rfl
  · exact searchNextIp_fst _

variable (hwaiting : n.server.Waiting) (h : Settled c n.server m)
include hwaiting h

theorem answer_request (hmagic : m.magicOk = true) (htype : m.parsed.1 = DHCP_MESSAGE_TYPE_REQUEST)
    : n.answer c m = answerFromTable c n.server.table m := by
  obtain ⟨s₁, hread, htable, hstate, hallocated, hclient, hrequest⟩ :=
    @readMessage_request c n.server m htype
  rw [requestedIp_of_settled h] at hrequest
  have hwaiting₁ : s₁.Waiting := by
    unfold Server.Waiting
    rw [hstate]
    exact hwaiting
  unfold Network.answer answerFromTable
  rw [dhcpsReceive, if_pos hmagic, hread, if_pos hmagic, if_pos htype]
  by_cases hgrant : Grantable c n.server.table m.wanted m.chaddr
  · have hgrant₁ : Grantable c s₁.table s₁.clientRequestIp s₁.clientAddr := by
      rw [htable, hrequest, hclient]
      exact hgrant
    rw [handleRequest_of_grantable hwaiting₁ hgrant₁, if_pos hgrant, hrequest]
    by_cases halloc : m.allocOk = true
    · simp [Reply.assigned]
    · simp [halloc]
  have hrefuse := @handleRequest_of_not_grantable c s₁ hwaiting₁ (by
      rw [htable, hrequest, hclient]
      exact hgrant) (by
      rw [hstate, hallocated, hrequest]
      exact fun hoffer hsame => hgrant (h.offer hoffer htype hsame))
  rw [hrefuse, if_neg hgrant]
  rfl

theorem answer_other (hmagic : m.magicOk = true) (htype : m.parsed.1 ≠ DHCP_MESSAGE_TYPE_REQUEST) :
    n.answer c m = answerFromTable c n.server.table m := by
  obtain ⟨state, hstate, hread⟩ := @readMessage_other c n.server m hwaiting htype
  unfold Network.answer answerFromTable
  rw [dhcpsReceive, if_pos hmagic, hread, if_pos hmagic, if_neg htype]
  rcases hstate with ⟨rfl, hdiscover⟩ | ⟨rfl, hoffering⟩
  · rw [if_neg hdiscover]
    rfl
  rw [if_pos (h.offering hoffering)]
  by_cases halloc : m.allocOk = true
  · have hrequest : m.parsed.2.getD n.server.clientRequestIp = m.parsed.2.getD .zero := by
      rcases hoption : m.parsed.2 with _ | ip
      · exact h.request hoption
      · rfl
    simp only [halloc, dhcpsSendOffer]
    rw [offerIp_fst hrequest rfl]
    rfl
  · simp [halloc]

/-- **The server answers from the table**, as long as a message does not use what earlier ones
    have left. -/
theorem answer_eq : n.answer c m = answerFromTable c n.server.table m := by
  by_cases hmagic : m.magicOk = true
  · by_cases htype : m.parsed.1 = DHCP_MESSAGE_TYPE_REQUEST
    · exact answer_request hwaiting h hmagic htype
    · exact answer_other hwaiting h hmagic htype
  · simp [Network.answer, answerFromTable, dhcpsReceive, hmagic]

end

/-! ### Histories -/

theorem waiting_step (n : Network) (ev : Event) (h : n.server.Waiting) :
    (netStep c n ev).server.Waiting := by
  cases ev with
  | connect mac => exact h
  | disconnect mac => exact h
  | message m =>
    have houtcome := @dhcpsReceive_outcome c n.connected n.server m h
    revert houtcome
    simp only [netStep]
    generalize dhcpsReceive c n.connected n.server m = result
    obtain ⟨s', reply⟩ := result
    intro houtcome
    have hwaiting : s'.Waiting := by
      cases houtcome <;> assumption
    cases reply with
    | none => exact hwaiting
    | some reply => exact hwaiting

theorem waiting_afterHistory (events : List Event) : (afterHistory c events).server.Waiting := by
  have hrun : Along (netStep c) (fun _ _ => True) (.init c) events :=
    along_of_forall fun _ _ _ => trivial
  have hinit : (Network.init c).server.Waiting := .inl rfl
  exact Throughout.last (hrun.throughout (fun n ev h _ => waiting_step c n ev h) hinit)

/-- **Exchanges do not mix.** After two histories with the same table, a settled message gets the
    same answer, and an ACK is for the address that it requests. -/
theorem exchange_isolated (history history' : List Event) (m : Msg)
    (htable : (afterHistory c history).server.table = (afterHistory c history').server.table)
    (h : Settled c (afterHistory c history).server m)
    (h' : Settled c (afterHistory c history').server m) :
    (afterHistory c history).answer c m = (afterHistory c history').answer c m ∧
      ∀ ip, (afterHistory c history).answer c m = some (.ack, ip) → ip = some m.wanted := by
  have hanswer := answer_eq (waiting_afterHistory c history) h
  have hanswer' := answer_eq (waiting_afterHistory c history') h'
  refine ⟨by rw [hanswer, hanswer', htable], fun ip hack => ?_⟩
  rw [hanswer] at hack
  unfold answerFromTable at hack
  split_ifs at hack
  · cases hack
    rfl
  · cases hack
  · cases hack

/-- A refused request leaves its address, but a client that has an option 50 is not affected. -/
theorem request_after_refusal :
    (afterHistory smallNet [.message (requestMsg 1 ⟨10, 0, 0, 1⟩)]).answer smallNet
        (requestMsg 2 (smallNet.address 100)) =
      (afterHistory smallNet []).answer smallNet (requestMsg 2 (smallNet.address 100)) ∧
    ∀ ip, (afterHistory smallNet [.message (requestMsg 1 ⟨10, 0, 0, 1⟩)]).answer smallNet
        (requestMsg 2 (smallNet.address 100)) = some (.ack, ip) →
      ip = some (requestMsg 2 (smallNet.address 100)).wanted := by
  have htype : (requestMsg 2 (smallNet.address 100)).parsed.1 = DHCP_MESSAGE_TYPE_REQUEST := by
    decide
  have hoption : (requestMsg 2 (smallNet.address 100)).parsed.2 = some (smallNet.address 100) := by
    decide
  refine exchange_isolated smallNet _ _ _ rfl ?_ ?_
  · refine ⟨fun h => ?_, fun h => ?_, fun h => ?_, nofun⟩
    · exact absurd (hoption.symm.trans h) (by decide)
    · exact absurd (hoption.symm.trans h) (by decide)
    · rcases h with h | h
      · exact h
      · exact absurd htype h.2.2.1
  · refine ⟨fun _ => rfl, fun h => ?_, fun h => ?_, nofun⟩
    · exact absurd (hoption.symm.trans h) (by decide)
    · rcases h with h | h
      · exact h
      · exact absurd htype h.2.2.1

/-! ### What is answered with what -/

/-- The type of message that is answered with such a reply. -/
def ReplyType.answers : ReplyType → UInt8
  | .offer => DHCP_MESSAGE_TYPE_DISCOVER
  | .ack | .nak => DHCP_MESSAGE_TYPE_REQUEST

/-- The types that `dhcps_handle_state_machine_change` has a case for. -/
def Handled (type : UInt8) : Prop :=
  type = DHCP_MESSAGE_TYPE_DECLINE ∨ type = DHCP_MESSAGE_TYPE_DISCOVER ∨
    type = DHCP_MESSAGE_TYPE_REQUEST ∨ type = DHCP_MESSAGE_TYPE_RELEASE

section Kinds

variable {c : Config} {n : Network}

theorem kind_of_request (hwaiting : n.server.Waiting)
    (htype : m.parsed.1 = DHCP_MESSAGE_TYPE_REQUEST)
    (hanswer : n.answer c m = some (kind, ip)) : kind ≠ .offer := by
  obtain ⟨s₁, hread, _, hstate, _⟩ := @readMessage_request c n.server m htype
  have hwaiting₁ : s₁.Waiting := by
    unfold Server.Waiting
    rw [hstate]
    exact hwaiting
  rintro rfl
  rw [Network.answer, dhcpsReceive, hread] at hanswer
  rcases @handleRequest_cases c s₁ hwaiting₁ with ⟨_, hack, _⟩ | hnak
  · rw [hack] at hanswer
    revert hanswer
    cases m.magicOk <;> cases m.allocOk <;> simp [Reply.assigned]
  · rw [hnak] at hanswer
    revert hanswer
    cases m.magicOk <;> simp [Reply.assigned]

theorem kind_of_other (hwaiting : n.server.Waiting) (htype : m.parsed.1 ≠ DHCP_MESSAGE_TYPE_REQUEST)
    (hanswer : n.answer c m = some (kind, ip)) :
    kind = .offer ∧ m.magicOk = true ∧ m.allocOk = true ∧ Offering n.server m := by
  obtain ⟨state, hstate, hread⟩ := @readMessage_other c n.server m hwaiting htype
  rw [Network.answer, dhcpsReceive, hread] at hanswer
  rcases hstate with ⟨rfl, _⟩ | ⟨rfl, hoffering⟩
  · revert hanswer
    cases m.magicOk <;> simp
  · cases hmagic : m.magicOk <;> cases halloc : m.allocOk <;>
      simp [hmagic, halloc, Reply.assigned] at hanswer
    exact ⟨hanswer.1.symm, rfl, rfl, hoffering⟩

theorem offer_of_unhandled (hmagic : m.magicOk = true) (halloc : m.allocOk = true)
    (hoffer : n.server.stateMachine = .offer) (htype : ¬ Handled m.parsed.1) :
    ∃ ip, n.answer c m = some (.offer, ip) := by
  simp only [Handled, not_or] at htype
  obtain ⟨hdecline, hdiscover, hrequest, hrelease⟩ := htype
  simp [Network.answer, dhcpsReceive, hmagic, halloc, readMessage, dhcpsHandleStateMachineChange,
    hdecline, hrequest, hrelease, hoffer, Reply.assigned, dhcpsSendOffer]

end Kinds

/-- **A reply answers a message of its own type**, after every history, exactly if no message of
    another type finds the server in the state OFFER. -/
theorem replies_answer_iff (history : List Event) (m : Msg) :
    (∀ kind ip, (afterHistory c history).answer c m = some (kind, ip) → m.parsed.1 = kind.answers) ↔
      (m.magicOk = true → m.allocOk = true →
        (afterHistory c history).server.stateMachine = .offer → Handled m.parsed.1) := by
  have hwaiting := waiting_afterHistory c history
  constructor
  · intro hproper hmagic halloc hoffer
    by_contra htype
    obtain ⟨ip, hreply⟩ := @offer_of_unhandled c _ m hmagic halloc hoffer htype
    exact htype (.inr (.inl (hproper _ _ hreply)))
  · intro hcond kind ip hreply
    by_cases htype : m.parsed.1 = DHCP_MESSAGE_TYPE_REQUEST
    · have hkind := kind_of_request hwaiting htype hreply
      cases kind with
      | offer => exact absurd rfl hkind
      | ack | nak => exact htype
    · obtain ⟨rfl, hmagic, halloc, hdiscover | ⟨hoffer, hdecline, _, hrelease⟩⟩ :=
        kind_of_other hwaiting htype hreply
      · exact hdiscover
      · exact ((hcond hmagic halloc hoffer).resolve_left hdecline).resolve_right
          (not_or.mpr ⟨htype, hrelease⟩)

/-- A client informs the server that it has an address already. -/
def informMsg (mac : Mac) : Msg := msgOf mac [DHCP_OPTION_CODE_MSG_TYPE, 1, 8, DHCP_OPTION_CODE_END]

theorem inform_answered_with_offer :
    (afterHistory smallNet []).answer smallNet (informMsg 2) = none ∧
    (afterHistory smallNet [.message (discoverMsg 1)]).answer smallNet (informMsg 2) =
      some (.offer, some (smallNet.address 101)) ∧
    (informMsg 2).parsed.1 ≠ ReplyType.offer.answers := by
  decide +kernel

/-! ### What a history leaves -/

/-- A client renews the lease of its address. -/
def renewMsg (mac : Mac) (ip : Ip4) : Msg :=
  { msgOf mac [DHCP_OPTION_CODE_MSG_TYPE, 1, DHCP_MESSAGE_TYPE_REQUEST, DHCP_OPTION_CODE_END] with
    ciaddr := ip }

def releaseMsg (mac : Mac) (ip : Ip4) : Msg :=
  msgOf mac [DHCP_OPTION_CODE_MSG_TYPE, 1, DHCP_MESSAGE_TYPE_RELEASE,
    DHCP_OPTION_CODE_REQUEST_IP_ADDRESS, 4, ip.addr1, ip.addr2, ip.addr3, ip.addr4,
    DHCP_OPTION_CODE_END]

/-- Client 2 renews .100: it is refused after a refused request of client 1, and given the address
    of client 1 after a release. -/
theorem renewal_of_other_client :
    (afterHistory smallNet [.message (requestMsg 1 ⟨10, 0, 0, 1⟩)]).server.table =
      (afterHistory smallNet []).server.table ∧
    (afterHistory smallNet []).answer smallNet (renewMsg 2 (smallNet.address 100)) =
      some (.ack, some (smallNet.address 100)) ∧
    (afterHistory smallNet [.message (requestMsg 1 ⟨10, 0, 0, 1⟩)]).answer smallNet
      (renewMsg 2 (smallNet.address 100)) = some (.nak, none) ∧
    (afterHistory smallNet [.message (releaseMsg 1 (smallNet.address 120))]).answer smallNet
      (renewMsg 2 (smallNet.address 100)) = some (.ack, some (smallNet.address 120)) ∧
    (renewMsg 2 (smallNet.address 100)).wanted = smallNet.address 100 := by
  refine ⟨rfl, ?_, ?_, ?_, ?_⟩
  · decide +kernel
  · decide +kernel
  · decide +kernel
  · decide +kernel

end AmebaRtos.Dhcp
