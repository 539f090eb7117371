import Mathlib.Data.List.GetD
import AmebaRtos.Hci.H4

/-!
# The packets that the H4 receiver hands to the stack

The bytes arrive in the UART FIFO in pieces of any length, the interrupt handler runs whenever
there is something to read, and the stack gives its buffers back at any time. `Tracks` relates the
receiver to the position in the stream, in every run. That the last packet is not left behind
needs a condition on the buffers given back while it waits. `dualMode` is the configuration of the
buffer lengths.
-/

namespace AmebaRtos.Hci

open Lib List

/-! ### Reading from the FIFO -/

theorem read_split {fifo line u tail : List UInt8} (h : fifo ++ line = u ++ tail)
    (hlen : len ≤ u.length) :
    ∃ u', u = fifo.take len ++ u' ∧ fifo.drop len ++ line = u' ++ tail := by
  have hsplit : fifo.take len ++ (fifo.drop len ++ line) = u ++ tail := by
    rw [← append_assoc, take_append_drop]
    exact h
  have hle : (fifo.take len).length ≤ u.length := Nat.le_trans (length_take_le len fifo) hlen
  obtain ⟨u', hu'⟩ : fifo.take len <+: u :=
    prefix_of_prefix_length_le ⟨_, hsplit⟩ (prefix_append u tail) hle
  refine ⟨u', hu'.symm, ?_⟩
  rw [← hu', append_assoc] at hsplit
  exact append_cancel_left hsplit

theorem byteAt_append (h : i < bytes.length) : byteAt (bytes ++ rest) i = byteAt bytes i := by
  unfold byteAt
  rw [getD_append _ _ _ _ h]

theorem hciGetBodyLen_append (h : hciGetHdrLen type ≤ hdr.length) :
    hciGetBodyLen (hdr ++ rest) type = hciGetBodyLen hdr type := by
  unfold hciGetHdrLen at h
  unfold hciGetBodyLen
  split_ifs at h ⊢ with hcmd hevt hacl hiso hsco
  all_goals simp (disch := omega) only [byteAt_append]

theorem byteAt_lt : byteAt bytes i < 256 :=
  UInt8.toNat_lt _

namespace HciPacket

variable {p : HciPacket}

theorem hlen_of_meta (h : p.IsLeMeta) : p.hlen = 3 := if_pos h

theorem hlen_of_not_meta (h : ¬p.IsLeMeta) : p.hlen = hciGetHdrLen p.type := if_neg h

theorem IsLeMeta.hdrLen (h : p.IsLeMeta) : hciGetHdrLen p.type = 2 := by
  rw [h.1]
  rfl

theorem hdrLen_le_hlen (p : HciPacket) : hciGetHdrLen p.type ≤ p.hlen := by
  by_cases h : p.IsLeMeta
  · rw [hlen_of_meta h, h.hdrLen]
    omega
  · exact Nat.le_of_eq (hlen_of_not_meta h).symm

theorem WellFormed.hlen_le (h : p.WellFormed) : p.hlen ≤ p.bytes.length := by
  by_cases hmeta : p.IsLeMeta
  · have := h.subevent hmeta
    rw [hlen_of_meta hmeta, h.length, hmeta.hdrLen]
    omega
  · rw [hlen_of_not_meta hmeta, h.length]
    omega

end HciPacket

/-! ### The states of the receiver -/

structure InHdr (h4 : H4) (p : HciPacket) (u : List UInt8) : Prop where
  state : h4.state = .hdr
  type : h4.type = p.type
  discardable : h4.discardable = false
  remain_le : h4.remain ≤ h4.hlen
  read : (h4.hdr.take (h4.hlen - h4.remain)).length = h4.hlen - h4.remain
  bytes : p.bytes = h4.hdr.take (h4.hlen - h4.remain) ++ u
  start : h4.remain = h4.hlen → h4.hlen = hciGetHdrLen p.type ∧ h4.isLeMetaEvt = false
  later : h4.remain < h4.hlen → h4.hlen = p.hlen ∧ h4.isLeMetaEvt = decide p.IsLeMeta

structure HdrRead (h4 : H4) (p : HciPacket) (u : List UInt8) : Prop where
  state : h4.state = .hdr
  type : h4.type = p.type
  discardable : h4.discardable = false
  hlen : h4.hlen = p.hlen
  isLeMetaEvt : h4.isLeMetaEvt = decide p.IsLeMeta
  read : h4.hdr.length + h4.remain = h4.hlen
  nonempty : h4.hdr ≠ []
  bytes : p.bytes = h4.hdr ++ u

structure InPayload (h4 : H4) (p : HciPacket) (u : List UInt8) : Prop where
  state : h4.state = .payload
  type : h4.pkt.type = p.type
  len : h4.pkt.len = p.bytes.length
  total : h4.hlen + h4.bodyLen = p.bytes.length
  remain : h4.remain = u.length
  unread : u ≠ []
  bytes : p.bytes = h4.pkt.buf.take (h4.hlen + h4.bodyLen - h4.remain) ++ u

inductive Phase (h4 : H4) : Option HciPacket → List UInt8 → Prop
  | idle : h4.state = .idle → Phase h4 none []
  | hdr {p : HciPacket} {u : List UInt8} : InHdr h4 p u → Phase h4 (some p) u
  | payload {p : HciPacket} {u : List UInt8} : InPayload h4 p u → Phase h4 (some p) u
  | discard {u : List UInt8} : h4.state = .discard → h4.remain = u.length → Phase h4 none u

section Steps

variable {h4 : H4} {p : HciPacket} {bytes u fifo line tail : List UInt8}

theorem InHdr.remain_le_unread (h : InHdr h4 p u) (hp : p.WellFormed) : h4.remain ≤ u.length := by
  have hlen : h4.hlen ≤ p.bytes.length := by
    rcases Nat.lt_or_eq_of_le h.remain_le with hlt | heq
    · rw [(h.later hlt).1]
      exact hp.hlen_le
    · rw [(h.start heq).1]
      exact Nat.le_trans p.hdrLen_le_hlen hp.hlen_le
  have htotal := congrArg List.length h.bytes
  rw [length_append, h.read] at htotal
  have hremain := h.remain_le
  omega

theorem HdrRead.inHdr (h : HdrRead h4 p u) : InHdr h4 p u := by
  have hread : h4.hlen - h4.remain = h4.hdr.length := by rw [← h.read, Nat.add_sub_cancel]
  have hpos : 0 < h4.hdr.length := length_pos_iff.mpr h.nonempty
  have hlt : h4.remain < h4.hlen := by
    omega
  constructor
  case state => exact h.state
  case type => exact h.type
  case discardable => exact h.discardable
  case remain_le => exact Nat.le_of_lt hlt
  case read => rw [hread, take_length]
  case bytes => rw [hread, take_length, h.bytes]
  case start => exact fun heq => absurd heq (Nat.ne_of_lt hlt)
  case later => exact fun _ => ⟨h.hlen, h.isLeMetaEvt⟩

theorem rxSubevent_spec (hstate : h4.state = .hdr) (htype : h4.type = p.type)
    (hdisc : h4.discardable = false) (hbytes : p.bytes = h4.hdr ++ u) (hne : h4.hdr ≠ [])
    (hread : h4.hdr.length + h4.remain = h4.hlen)
    (hlens : h4.hlen = hciGetHdrLen p.type ∧ h4.isLeMetaEvt = false
      ∨ h4.hlen = p.hlen ∧ h4.isLeMetaEvt = decide p.IsLeMeta) : HdrRead (rxSubevent h4) p u := by
  have hpos : 0 < h4.hdr.length := length_pos_iff.mpr hne
  have hfirst : h4.hdr.getD 0 0 = p.bytes.getD 0 0 := by
    rw [hbytes, getD_append _ _ _ _ hpos]
  unfold rxSubevent
  by_cases hmeta : p.IsLeMeta
  · by_cases hlen : h4.hlen = 2
    · have hcond : h4.type = HCI_EVT ∧ h4.hlen = hciGetHdrLen HCI_EVT ∧ h4.remain < h4.hlen
          ∧ h4.hdr.getD 0 0 = BT_HCI_EVT_LE_META_EVENT :=
        ⟨htype.trans hmeta.1, hlen, by omega, hfirst.trans hmeta.2⟩
      rw [if_pos hcond]
      constructor
      case hlen => exact (congrArg (· + 1) hlen).trans (HciPacket.hlen_of_meta hmeta).symm
      case isLeMetaEvt => exact (decide_eq_true hmeta).symm
      case read => exact congrArg (· + 1) hread
      all_goals assumption
    · have hlens' : h4.hlen = p.hlen ∧ h4.isLeMetaEvt = decide p.IsLeMeta :=
        hlens.resolve_left fun h => hlen (h.1.trans hmeta.hdrLen)
      rw [if_neg fun h => hlen h.2.1]
      exact ⟨hstate, htype, hdisc, hlens'.1, hlens'.2, hread, hne, hbytes⟩
  · rw [if_neg fun h => hmeta ⟨htype.symm.trans h.1, hfirst.symm.trans h.2.2.2⟩]
    rw [HciPacket.hlen_of_not_meta hmeta, decide_eq_false hmeta, or_self] at hlens
    refine ⟨hstate, htype, hdisc, ?_, ?_, hread, hne, hbytes⟩
    · rw [hlens.1, HciPacket.hlen_of_not_meta hmeta]
    · rw [hlens.2, decide_eq_false hmeta]

theorem HdrRead.bodyLen_eq (h : HdrRead h4 p u) (hremain : h4.remain = 0) :
    hciGetBodyLen h4.hdr h4.type = hciGetBodyLen p.bytes p.type := by
  have hlen : hciGetHdrLen p.type ≤ h4.hdr.length := by
    have hread := h.read
    rw [hremain, h.hlen, Nat.add_zero] at hread
    rw [hread]
    exact p.hdrLen_le_hlen
  rw [h.type, h.bytes, hciGetBodyLen_append hlen]

theorem HdrRead.unread_length (h : HdrRead h4 p u) (hremain : h4.remain = 0) :
    p.bytes.length = p.hlen + u.length := by
  have hread := h.read
  rw [hremain, h.hlen, Nat.add_zero] at hread
  rw [h.bytes, length_append, hread]

theorem hciGetBodyLen_evt_lt (bytes : List UInt8) : hciGetBodyLen bytes HCI_EVT < 256 :=
  byteAt_lt

theorem HdrRead.fits (h : HdrRead h4 p u) (hp : p.WellFormed) (hfits : p.Fits dualMode)
    (hremain : h4.remain = 0) :
    ¬hciRxBufSize dualMode h4.type < hciGetBodyLen h4.hdr h4.type + h4.hlen := by
  rw [h.bodyLen_eq hremain, h.type, h.hlen]
  by_cases hmeta : p.IsLeMeta
  · have hlt := hciGetBodyLen_evt_lt p.bytes
    rw [HciPacket.hlen_of_meta hmeta, hmeta.1]
    show ¬260 < _
    omega
  have hle : p.bytes.length ≤ hciRxBufSize dualMode p.type := hfits
  rw [hp.length] at hle
  rw [HciPacket.hlen_of_not_meta hmeta]
  omega

theorem HdrRead.subevent (h : HdrRead h4 p u) (hmeta : p.IsLeMeta) (hremain : h4.remain = 0) :
    h4.hdr.getD (h4.hlen - 1) 0 = p.bytes.getD 2 0 := by
  have hlen : h4.hlen = 3 := h.hlen.trans (HciPacket.hlen_of_meta hmeta)
  have hread : 2 < h4.hdr.length := by
    have := h.read
    omega
  rw [hlen, h.bytes, getD_append _ _ _ _ hread]

theorem rxLengths_eq (h : HdrRead h4 p u) (hp : p.WellFormed) (hremain : h4.remain = 0) :
    rxLengths h4 = { h4 with bodyLen := u.length, discardable := decide p.IsAdvReport } := by
  have hbody := h.bodyLen_eq hremain
  have htotal := h.unread_length hremain
  rw [hp.length] at htotal
  unfold rxLengths
  by_cases hmeta : p.IsLeMeta
  · have hflag : h4.isLeMetaEvt = true := h.isLeMetaEvt.trans (decide_eq_true hmeta)
    have hsub := h.subevent hmeta hremain
    have hlt := hciGetBodyLen_evt_lt p.bytes
    rw [HciPacket.hlen_of_meta hmeta, hmeta.hdrLen, hmeta.1] at htotal
    have hlen : (hciGetBodyLen h4.hdr h4.type + 65535) % 65536 = u.length := by
      rw [hbody, hmeta.1]
      omega
    have hadv : decide p.IsAdvReport = (h4.discardable ||
        (h4.hdr.getD (h4.hlen - 1) 0 == BT_HCI_EVT_LE_ADVERTISING_REPORT
          || h4.hdr.getD (h4.hlen - 1) 0 == BT_HCI_EVT_LE_EXT_ADVERTISING_REPORT)) := by
      rw [h.discardable, hsub, Bool.eq_iff_iff]
      simp [HciPacket.IsAdvReport, hmeta]
    rw [if_pos hflag, hadv]
    simp only [hlen]
  · have hflag : ¬h4.isLeMetaEvt = true := by
      rw [h.isLeMetaEvt, decide_eq_true_eq]
      exact hmeta
    rw [HciPacket.hlen_of_not_meta hmeta] at htotal
    have hadv : decide p.IsAdvReport = h4.discardable := by
      rw [h.discardable]
      exact decide_eq_false fun hadv => hmeta hadv.1
    rw [if_neg hflag, hadv, hbody, Nat.add_left_cancel htotal]

def handed (h4 : H4) : List HciPacket := h4.busy.map RxPacket.contents

/-- What becomes of a packet whose header is complete, when the packets `out` were handed
    over before it. -/
inductive HdrOutcome (out : List HciPacket) (h4 : H4) (p : HciPacket) (u : List UInt8) : Prop
  | delivered : u = [] → h4.state = .idle → handed h4 = out ++ [p] → HdrOutcome out h4 p u
  | body : InPayload h4 p u → handed h4 = out → HdrOutcome out h4 p u
  | dropped : p.IsAdvReport → h4.state = .discard → h4.remain = u.length → handed h4 = out →
      HdrOutcome out h4 p u
  | header : InHdr h4 p u → handed h4 = out → HdrOutcome out h4 p u

theorem handed_rxSend {after : H4} (hbusy : after.busy = h4.busy)
    (hpkt : after.pkt.contents = p) : handed (rxSend after) = handed h4 ++ [p] := by
  unfold handed rxSend
  rw [map_append, hbusy, ← hpkt]
  rfl

theorem rxAlloc_spec (htype : h4.type = p.type) (hbody : h4.bodyLen = u.length)
    (htotal : h4.hlen + h4.bodyLen = p.bytes.length) (hbytes : p.bytes = h4.hdr.take h4.hlen ++ u)
    (hadv : h4.discardable = decide p.IsAdvReport)
    (hread : h4.discardable = false → HdrRead h4 p u) :
    HdrOutcome (handed h4) (rxAlloc h4) p u := by
  unfold rxAlloc
  by_cases hfree : 0 < h4.free (poolOf h4.type)
  · rw [if_pos hfree]
    by_cases hzero : h4.bodyLen = 0
    · have hu : u = [] := eq_nil_of_length_eq_zero (hbody.symm.trans hzero)
      have hpkt : (rxPktInit h4).pkt.contents = p := by
        rw [hu, append_nil] at hbytes
        show HciPacket.mk h4.type ((h4.hdr.take h4.hlen).take (h4.hlen + h4.bodyLen)) = p
        rw [← hbytes, htotal, take_length, htype]
      rw [if_pos hzero]
      exact .delivered hu rfl (handed_rxSend rfl hpkt)
    rw [if_neg hzero]
    refine .body ?_ rfl
    constructor
    case state => rfl
    case type => exact htype
    case len => exact htotal
    case total => exact htotal
    case remain => exact hbody
    case unread =>
      intro hu
      rw [hu] at hbody
      exact hzero hbody
    case bytes =>
      show p.bytes = List.take (h4.hlen + h4.bodyLen - h4.bodyLen) (h4.hdr.take h4.hlen) ++ u
      rw [Nat.add_sub_cancel, take_take, Nat.min_self]
      exact hbytes
  · rw [if_neg hfree]
    by_cases hdisc : h4.discardable = true
    · rw [if_pos hdisc]
      rw [hdisc] at hadv
      exact .dropped (of_decide_eq_true hadv.symm) rfl hbody rfl
    rw [if_neg hdisc]
    have h := hread (Bool.eq_false_iff.mpr hdisc)
    refine .header (HdrRead.inHdr ?_) rfl
    exact { h with }

theorem rxHdrDone_spec (h : HdrRead h4 p u) (hp : p.WellFormed) (hfits : p.Fits dualMode)
    (hremain : h4.remain = 0) : HdrOutcome (handed h4) (rxHdrDone dualMode h4) p u := by
  have hread : h4.hdr.length = h4.hlen := by
    have := h.read
    omega
  have htotal : h4.hlen + u.length = p.bytes.length := by
    rw [h.unread_length hremain, h.hlen]
  have hbytes : p.bytes = h4.hdr.take h4.hlen ++ u := by
    rw [← hread, take_length, h.bytes]
  unfold rxHdrDone
  rw [if_neg (h.fits hp hfits hremain), rxLengths_eq h hp hremain]
  exact @rxAlloc_spec { h4 with bodyLen := u.length, discardable := decide p.IsAdvReport } p u
    h.type rfl htotal hbytes rfl fun hdisc => { h with discardable := hdisc }

@[simp]
theorem busy_rxSubevent (h4 : H4) : (rxSubevent h4).busy = h4.busy := by
  unfold rxSubevent
  split <;> rfl

theorem handed_rxHdrBytes (h4 : H4) (bytes : List UInt8) :
    handed (rxHdrBytes h4 bytes) = handed h4 := by
  simp [handed, rxHdrBytes]

theorem rxHdrBytes_spec (h : InHdr h4 p (bytes ++ u)) (hp : p.WellFormed)
    (hle : bytes.length ≤ h4.remain) (hmore : bytes ≠ [] ∨ h4.remain = 0) :
    HdrRead (rxHdrBytes h4 bytes) p u := by
  have hremain := h.remain_le
  have hread : (store h4.hdr (h4.hlen - h4.remain) bytes).length + (h4.remain - bytes.length)
      = h4.hlen := by
    unfold store
    rw [length_append, h.read]
    omega
  have hlens : h4.hlen = hciGetHdrLen p.type ∧ h4.isLeMetaEvt = false
      ∨ h4.hlen = p.hlen ∧ h4.isLeMetaEvt = decide p.IsLeMeta := by
    rcases Nat.lt_or_eq_of_le hremain with hlt | heq
    · exact .inr (h.later hlt)
    · exact .inl (h.start heq)
  have hne : store h4.hdr (h4.hlen - h4.remain) bytes ≠ [] := by
    intro hnil
    rcases hmore with hbytes | hzero
    · exact hbytes (append_eq_nil_iff.mp hnil).2
    have hpos := p.hdrLen_le_hlen
    have hknown := hp.known
    rw [hnil, length_nil] at hread
    omega
  have hbytes : p.bytes = store h4.hdr (h4.hlen - h4.remain) bytes ++ u := by
    unfold store
    rw [append_assoc]
    exact h.bytes
  exact @rxSubevent_spec
    { h4 with
      hdr := store h4.hdr (h4.hlen - h4.remain) bytes, remain := h4.remain - bytes.length }
    p u h.state h.type h.discardable hbytes hne hread hlens

theorem rxHdr_spec (h : InHdr h4 p u) (hp : p.WellFormed) (hfits : p.Fits dualMode)
    (hmore : fifo ≠ [] ∨ h4.remain = 0) (hunread : fifo ++ line = u ++ tail) :
    ∃ u', (rxHdr dualMode h4 fifo).2 ++ line = u' ++ tail
      ∧ HdrOutcome (handed h4) (rxHdr dualMode h4 fifo).1 p u' := by
  obtain ⟨u', rfl, hrest⟩ := read_split hunread (h.remain_le_unread hp)
  have hbytes : fifo.take h4.remain ≠ [] ∨ h4.remain = 0 := by
    rw [Ne, take_eq_nil_iff]
    tauto
  have hread := rxHdrBytes_spec h hp (length_take_le _ _) hbytes
  refine ⟨u', hrest, ?_⟩
  rw [← handed_rxHdrBytes h4 (fifo.take h4.remain)]
  unfold rxHdr
  generalize rxHdrBytes h4 (fifo.take h4.remain) = h4' at hread
  by_cases hdone : h4'.remain = 0
  · simp only [if_pos hdone]
    exact rxHdrDone_spec hread hp hfits hdone
  · simp only [if_neg hdone]
    exact .header hread.inHdr rfl

theorem rxPayload_spec (h : InPayload h4 p u) (hunread : fifo ++ line = u ++ tail) :
    ∃ u', (rxPayload h4 fifo).2 ++ line = u' ++ tail
      ∧ HdrOutcome (handed h4) (rxPayload h4 fifo).1 p u' := by
  obtain ⟨u', hu, hrest⟩ := read_split hunread (Nat.le_of_eq h.remain)
  have hlen : u.length = (fifo.take h4.remain).length + u'.length := by
    conv_lhs => rw [hu]
    exact length_append
  have hremain := h.remain
  have hbytes : p.bytes
      = store h4.pkt.buf (h4.hlen + h4.bodyLen - h4.remain) (fifo.take h4.remain) ++ u' := by
    unfold store
    rw [append_assoc, ← hu]
    exact h.bytes
  refine ⟨u', hrest, ?_⟩
  unfold rxPayload
  by_cases hdone : (rxBodyBytes h4 (fifo.take h4.remain)).remain = 0
  · simp only [if_pos hdone]
    have hdone' : h4.remain - (fifo.take h4.remain).length = 0 := hdone
    have hu' : u' = [] := eq_nil_of_length_eq_zero (by omega)
    rw [hu', append_nil] at hbytes
    refine .delivered hu' rfl (handed_rxSend rfl ?_)
    show HciPacket.mk h4.pkt.type (List.take h4.pkt.len (store _ _ _)) = p
    rw [← hbytes, h.type, h.len, take_length]
  simp only [if_neg hdone]
  have hdone' : h4.remain - (fifo.take h4.remain).length ≠ 0 := hdone
  refine .body { h with remain := ?remain, unread := ?unread, bytes := ?bytes } rfl
  case remain =>
    show h4.remain - (fifo.take h4.remain).length = u'.length
    omega
  case unread =>
    intro hnil
    rw [hnil, length_nil] at hlen
    omega
  case bytes =>
    show p.bytes = (store _ _ _).take (h4.hlen + h4.bodyLen - (h4.remain - _)) ++ u'
    have hstored := congrArg List.length hbytes
    have htotal := h.total
    rw [length_append] at hstored
    rw [take_of_length_le (by omega)]
    exact hbytes

end Steps

/-! ### The position in the stream -/

/-- The packets `out` are the packets of the list, in order, without some of the
    advertising reports. -/
inductive Kept : (out pkts : List HciPacket) → Prop
  | nil : Kept [] []
  | keep (p : HciPacket) {out pkts : List HciPacket} : Kept out pkts → Kept (p :: out) (p :: pkts)
  | drop (p : HciPacket) {out pkts : List HciPacket} : p.IsAdvReport → Kept out pkts →
      Kept out (p :: pkts)

namespace Kept

theorem append (h : Kept out pkts) (h' : Kept out' pkts') : Kept (out ++ out') (pkts ++ pkts') := by
  induction h with
  | nil => exact h'
  | keep p _ ih => exact .keep p ih
  | drop p hadv _ ih => exact .drop p hadv ih

theorem filter_eq (h : Kept out pkts) :
    out.filter (fun p => !decide p.IsAdvReport) = pkts.filter (fun p => !decide p.IsAdvReport) := by
  induction h with
  | nil => rfl
  | keep p _ ih => rw [filter_cons, filter_cons, ih]
  | drop p hadv _ ih => rw [ih, filter_cons_of_neg (by simp [hadv])]

end Kept

variable (pkts : List HciPacket)

/-- The receiver is at a position in the stream: some packets are done, at most one is being read,
    and the unread bytes are what is left. -/
def Tracks (h4 : H4) (unread : List UInt8) : Prop :=
  ∃ done cur u todo, pkts = done ++ (Option.toList cur ++ todo) ∧ Kept (handed h4) done
    ∧ unread = u ++ encodeAll todo ∧ Phase h4 cur u

variable (fromIrq : Bool)

section Tracking

variable {pkts done todo : List HciPacket}

theorem HdrOutcome.tracks {out : List HciPacket} (h : HdrOutcome out h4 p u)
    (hpkts : pkts = done ++ p :: todo) (hkept : Kept out done)
    (hunread : unread = u ++ encodeAll todo) : Tracks pkts h4 unread := by
  have hdone : pkts = (done ++ [p]) ++ todo := by rw [hpkts, append_assoc]; rfl
  cases h with
  | delivered hu hstate hout =>
    refine ⟨done ++ [p], none, u, todo, hdone, ?_, hunread, ?_⟩
    · rw [hout]
      exact hkept.append (.keep p .nil)
    · rw [hu]
      exact .idle hstate
  | body hbody hout => exact ⟨done, some p, u, todo, hpkts, hout ▸ hkept, hunread, .payload hbody⟩
  | dropped hadv hstate hremain hout =>
    refine ⟨done ++ [p], none, u, todo, hdone, ?_, hunread, .discard hstate hremain⟩
    rw [hout]
    simpa using hkept.append (.drop p hadv .nil)
  | header hhdr hout => exact ⟨done, some p, u, todo, hpkts, hout ▸ hkept, hunread, .hdr hhdr⟩

theorem rxIdle_tracks (hpkts : pkts = done ++ todo) (hwf : ∀ p ∈ pkts, p.WellFormed)
    (hkept : Kept (handed h4) done) (hfifo : fifo ≠ []) (hunread : fifo ++ line = encodeAll todo) :
    Tracks pkts (rxIdle h4 fifo).1 ((rxIdle h4 fifo).2 ++ line) := by
  cases fifo with
  | nil => exact absurd rfl hfifo
  | cons type rest =>
    cases todo with
    | nil => exact absurd hunread (cons_ne_nil _ _)
    | cons p todo =>
      obtain ⟨htype, hrest⟩ := cons_eq_cons.mp hunread
      have hmem : p ∈ pkts := hpkts ▸ mem_append_right done (.head _)
      have hlen : hciGetHdrLen type ≠ 0 := htype ▸ (hwf p hmem).known
      unfold rxIdle
      simp only [if_pos hlen]
      refine ⟨done, some p, p.bytes, todo, hpkts, hkept, hrest, .hdr ?_⟩
      constructor
      case state => rfl
      case type => exact htype
      case discardable => rfl
      case remain_le => exact Nat.le_refl _
      case read => simp
      case bytes => simp
      case start => exact fun _ => ⟨congrArg hciGetHdrLen htype, rfl⟩
      case later => exact fun hlt => absurd hlt (Nat.lt_irrefl _)

theorem rxDiscard_tracks (hpkts : pkts = done ++ todo) (hkept : Kept (handed h4) done)
    (hstate : h4.state = .discard) (hremain : h4.remain = u.length)
    (hunread : fifo ++ line = u ++ encodeAll todo) :
    Tracks pkts (rxDiscard h4 fifo).1 ((rxDiscard h4 fifo).2 ++ line) := by
  unfold rxDiscard
  generalize hl : (if 32 < h4.remain then 32 else h4.remain) = len
  have hle : len ≤ u.length := by
    rw [← hl, ← hremain]
    split
    · omega
    · exact Nat.le_refl _
  obtain ⟨u', hu, hrest⟩ := read_split hunread hle
  have hlen : u.length = (fifo.take len).length + u'.length := by
    conv_lhs => rw [hu]
    exact length_append
  by_cases hdone : h4.remain - (fifo.take len).length = 0
  · simp only [if_pos hdone]
    have hu' : u' = [] := eq_nil_of_length_eq_zero (by omega)
    rw [hu'] at hrest
    exact ⟨done, none, [], todo, hpkts, hkept, hrest, .idle rfl⟩
  simp only [if_neg hdone]
  refine ⟨done, none, u', todo, hpkts, hkept, hrest, .discard hstate ?_⟩
  show h4.remain - (fifo.take len).length = u'.length
  omega

def Waiting (h4 : H4) : Prop := h4.state = .hdr ∧ h4.remain = 0

theorem handler_tracks (hwf : ∀ p ∈ pkts, p.WellFormed)
    (hfits : ∀ p ∈ pkts, p.Fits dualMode) (h : Tracks pkts h4 (fifo ++ line))
    (hmore : fifo ≠ [] ∨ Waiting h4) :
    Tracks pkts (hciUartRxIrqHandler dualMode fromIrq h4 fifo).1
      ((hciUartRxIrqHandler dualMode fromIrq h4 fifo).2 ++ line) := by
  unfold hciUartRxIrqHandler
  by_cases hdisabled : fromIrq = true ∧ h4.rxDisabled = true
  · rw [if_pos hdisabled]
    exact h
  rw [if_neg hdisabled]
  obtain ⟨done, cur, u, todo, hpkts, hkept, hunread, hphase⟩ := h
  cases hphase with
  | idle hstate =>
    rw [hstate]
    have hfifo : fifo ≠ [] := hmore.resolve_right fun hw => by simp [Waiting, hstate] at hw
    exact rxIdle_tracks hpkts hwf hkept hfifo hunread
  | @hdr p u hhdr =>
    rw [hhdr.state]
    have hmem : p ∈ pkts := hpkts ▸ mem_append_right done (.head _)
    obtain ⟨u', hrest, hout⟩ :=
      rxHdr_spec hhdr (hwf p hmem) (hfits p hmem) (hmore.imp_right And.right) hunread
    exact hout.tracks hpkts hkept hrest
  | @payload p u hbody =>
    rw [hbody.state]
    obtain ⟨u', hrest, hout⟩ := rxPayload_spec hbody hunread
    exact hout.tracks hpkts hkept hrest
  | discard hstate hremain =>
    rw [hstate]
    exact rxDiscard_tracks hpkts hkept hstate hremain hunread

end Tracking

/-! ### Waiting for a buffer -/

section

structure SameBuffers (before after : H4) : Prop where
  free : after.free = before.free
  type : after.type = before.type
  rxDisabled : after.rxDisabled = before.rxDisabled

theorem rxHdrBytes_same (h4 : H4) (bytes : List UInt8) : SameBuffers h4 (rxHdrBytes h4 bytes) := by
  unfold rxHdrBytes rxSubevent
  split <;> exact ⟨rfl, rfl, rfl⟩

theorem rxLengths_same (h4 : H4) : SameBuffers h4 (rxLengths h4) := by
  simp only [rxLengths]
  split <;> exact ⟨rfl, rfl, rfl⟩

theorem rxLengths_state (h4 : H4) :
    (rxLengths h4).state = h4.state ∧ (rxLengths h4).remain = h4.remain := by
  simp only [rxLengths]
  split <;> exact ⟨rfl, rfl⟩

theorem state_rxHdrBytes (h4 : H4) (bytes : List UInt8) :
    (rxHdrBytes h4 bytes).state = h4.state := by
  unfold rxHdrBytes rxSubevent
  split <;> rfl

/-- The reception is paused for an empty pool, or it is not waiting and was not paused by the
    call. -/
def PauseOutcome (before after : H4) : Prop :=
  (Waiting after ∧ after.rxDisabled = true ∧ before.free (poolOf before.type) = 0
      ∧ after.free = before.free ∧ after.type = before.type)
    ∨ (¬Waiting after ∧ (after.rxDisabled = true → before.rxDisabled = true))

theorem rxAlloc_pause (hwait : Waiting h4) : PauseOutcome h4 (rxAlloc h4) := by
  unfold rxAlloc
  split_ifs with hfree hbody hdisc
  · exact .inr ⟨fun h => by simp [Waiting, rxSend] at h, id⟩
  · exact .inr ⟨fun h => by simp [Waiting] at h, id⟩
  · exact .inr ⟨fun h => by simp [Waiting] at h, id⟩
  · exact .inl ⟨hwait, rfl, Nat.eq_zero_of_not_pos hfree, rfl, rfl⟩

theorem PauseOutcome.of_same (hsame : SameBuffers a b) (h : PauseOutcome b c) :
    PauseOutcome a c := by
  unfold PauseOutcome at h ⊢
  rw [hsame.free, hsame.type, hsame.rxDisabled] at h
  exact h

theorem rxHdr_pause (hstate : h4.state = .hdr) : PauseOutcome h4 (rxHdr dualMode h4 fifo).1 := by
  have hsame := rxHdrBytes_same h4 (fifo.take h4.remain)
  have hstate' := (state_rxHdrBytes h4 (fifo.take h4.remain)).trans hstate
  unfold rxHdr
  generalize rxHdrBytes h4 (fifo.take h4.remain) = h4' at hsame hstate'
  apply PauseOutcome.of_same hsame
  by_cases hremain : h4'.remain = 0
  · simp only [if_pos hremain]
    simp only [rxHdrDone]
    split_ifs with hsize
    · exact .inr ⟨fun h => by simp [Waiting] at h, id⟩
    · apply PauseOutcome.of_same (rxLengths_same h4')
      have hlens := rxLengths_state h4'
      exact rxAlloc_pause ⟨hlens.1.trans hstate', hlens.2.trans hremain⟩
  · simp only [if_neg hremain]
    exact .inr ⟨fun h => hremain h.2, id⟩

theorem rxIdle_pause (hstate : h4.state = .idle) : PauseOutcome h4 (rxIdle h4 fifo).1 := by
  simp only [rxIdle]
  split
  · exact .inr ⟨fun h => by simp [Waiting, hstate] at h, id⟩
  · split_ifs with hlen
    · exact .inr ⟨fun h => hlen h.2, id⟩
    · exact .inr ⟨fun h => by simp [Waiting, hstate] at h, id⟩

theorem rxPayload_pause (hstate : h4.state = .payload) : PauseOutcome h4 (rxPayload h4 fifo).1 := by
  simp only [rxPayload]
  split_ifs with hdone
  · exact .inr ⟨fun h => by simp [Waiting, rxSend] at h, id⟩
  · exact .inr ⟨fun h => by simp [Waiting, rxBodyBytes, hstate] at h, id⟩

theorem rxDiscard_pause (hstate : h4.state = .discard) : PauseOutcome h4 (rxDiscard h4 fifo).1 := by
  simp only [rxDiscard]
  split_ifs with hlen hdone hdone
  all_goals exact .inr ⟨fun h => by simp [Waiting, hstate] at h, id⟩

theorem handler_pause (hrun : ¬(fromIrq = true ∧ h4.rxDisabled = true)) :
    PauseOutcome h4 (hciUartRxIrqHandler dualMode fromIrq h4 fifo).1 := by
  unfold hciUartRxIrqHandler
  rw [if_neg hrun]
  cases hstate : h4.state with
  | idle => exact rxIdle_pause hstate
  | hdr => exact rxHdr_pause hstate
  | payload => exact rxPayload_pause hstate
  | discard => exact rxDiscard_pause hstate

theorem handler_waiting_unread (hwait : Waiting h4) :
    (hciUartRxIrqHandler dualMode fromIrq h4 fifo).2 = fifo := by
  unfold hciUartRxIrqHandler
  split_ifs with hrun
  · rfl
  · rw [hwait.1]
    show fifo.drop h4.remain = fifo
    rw [hwait.2, drop_zero]

end

/-! ### Runs of the receiver -/

/-- The receiver with the bytes in the FIFO, the bytes that the controller has not sent yet, and the
    number of buffers of each pool that the stack gave back. -/
structure Receiver where
  h4 : H4
  fifo : List UInt8
  line : List UInt8
  freed : Pool → Nat

inductive Event where
  | arrive (n : Nat)
  | irq
  | free (pool : Pool)
deriving DecidableEq, Repr

def Receiver.held (r : Receiver) (pool : Pool) : Nat :=
  r.h4.busy.countP (fun pkt => decide (poolOf pkt.type = pool)) - r.freed pool

section Runs

variable (dualMode : Bool)

/-- The interrupt calls the handler only when there is something to read, and the stack
    frees only what it holds. -/
def receive (r : Receiver) : Event → Receiver
  | .arrive n => { r with fifo := r.fifo ++ r.line.take n, line := r.line.drop n }
  | .irq =>
    if r.fifo = [] then r
    else
      let after := hciUartRxIrqHandler dualMode true r.h4 r.fifo
      { r with h4 := after.1, fifo := after.2 }
  | .free pool =>
    if r.held pool = 0 then r
    else
      let after := hciRxPktFree dualMode pool r.h4 r.fifo
      { r with
        h4 := after.1, fifo := after.2, freed := Pool.set r.freed pool (r.freed pool + 1) }

/-- The receiver in front of a stream. -/
def Receiver.start : Receiver where
  h4 := hciTransportOpen
  fifo := []
  line := encodeAll pkts
  freed := fun _ => 0

/-- The stack was given the first packets of the stream, without some advertising reports; and all
    of them once everything was read and no pool is empty. -/
def Exact (r : Receiver) : Prop :=
  (∃ done todo, pkts = done ++ todo ∧ Kept (handed r.h4) done)
    ∧ (r.fifo = [] → r.line = [] → (∀ pool, 0 < r.h4.free pool) → Kept (handed r.h4) pkts)

/-- A buffer that is freed while the last packet of the stream waits is one of the pool
    that the packet waits for. -/
def FreesAwaited (r : Receiver) : Event → Prop
  | .free pool => r.h4.rxDisabled = true → r.fifo = [] → r.line = [] → pool = poolOf r.h4.type
  | _ => True

variable {dualMode} {pkts : List HciPacket}

/-- A paused reception waits for a buffer, and a receiver that waits behind the last byte is paused
    for an empty pool. -/
structure Following (pkts : List HciPacket) (r : Receiver) : Prop where
  tracks : Tracks pkts r.h4 (r.fifo ++ r.line)
  paused : r.h4.rxDisabled = true → Waiting r.h4
  awaited : Waiting r.h4 → r.fifo ++ r.line = [] →
    r.h4.rxDisabled = true ∧ r.h4.free (poolOf r.h4.type) = 0

theorem Following.start (pkts : List HciPacket) : Following pkts (Receiver.start pkts) where
  tracks := ⟨[], none, [], pkts, rfl, .nil, rfl, .idle rfl⟩
  paused := nofun
  awaited := nofun

theorem Following.exact (hwf : ∀ p ∈ pkts, p.WellFormed) (h : Following pkts r) : Exact pkts r := by
  obtain ⟨done, cur, u, todo, hpkts, hkept, hunread, hphase⟩ := h.tracks
  refine ⟨⟨done, _, hpkts, hkept⟩, ?_⟩
  intro hfifo hline hfree
  have hall : r.fifo ++ r.line = [] := by rw [hfifo, hline]; rfl
  obtain ⟨hu, htodo⟩ := append_eq_nil_iff.mp (hunread.symm.trans hall)
  have hend : todo = [] := encodeAll_eq_nil htodo
  cases hphase with
  | idle hstate =>
    rw [hpkts, hend]
    simpa using hkept
  | @hdr p u hhdr =>
    have hmem : p ∈ pkts := hpkts ▸ mem_append_right done (.head _)
    have hremain := hhdr.remain_le_unread (hwf p hmem)
    rw [hu] at hremain
    have hwait := h.awaited ⟨hhdr.state, Nat.eq_zero_of_le_zero hremain⟩ hall
    exact absurd hwait.2 (Nat.ne_of_gt (hfree _))
  | payload hbody => exact absurd hu hbody.unread
  | discard hstate hremain =>
    rw [hpkts, hend]
    simpa using hkept

theorem Tracks.with_free (h : Tracks pkts h4 unread) (disabled : Bool) :
    Tracks pkts { h4 with free := free, rxDisabled := disabled } unread := by
  obtain ⟨done, cur, u, todo, hpkts, hkept, hunread, hphase⟩ := h
  refine ⟨done, cur, u, todo, hpkts, hkept, hunread, ?_⟩
  cases hphase with
  | idle hstate => exact .idle hstate
  | hdr hhdr => exact .hdr { hhdr with }
  | payload hbody => exact .payload { hbody with }
  | discard hstate hremain => exact .discard hstate hremain

theorem Following.irq (hwf : ∀ p ∈ pkts, p.WellFormed) (hfits : ∀ p ∈ pkts, p.Fits dualMode)
    (h : Following pkts r) : Following pkts (receive dualMode r .irq) := by
  unfold receive
  by_cases hfifo : r.fifo = []
  · rw [if_pos hfifo]
    exact h
  rw [if_neg hfifo]
  have htracks := handler_tracks true hwf hfits h.tracks (.inl hfifo)
  by_cases hrun : true = true ∧ r.h4.rxDisabled = true
  · unfold hciUartRxIrqHandler
    rw [if_pos hrun]
    exact h
  rcases handler_pause true hrun with ⟨hwait, hdisabled, hempty, hfree, htype⟩ | ⟨hwait, hdisabled⟩
  · refine ⟨htracks, fun _ => hwait, fun _ _ => ⟨hdisabled, ?_⟩⟩
    rw [hfree, htype]
    exact hempty
  · exact ⟨htracks, fun hd => absurd ⟨rfl, hdisabled hd⟩ hrun, fun hw => absurd hw hwait⟩

theorem Following.resume (freed : Pool → Nat) (hwf : ∀ p ∈ pkts, p.WellFormed)
    (hfits : ∀ p ∈ pkts, p.Fits dualMode) (htracks : Tracks pkts given (fifo ++ line))
    (hwait : Waiting given) (hcond : fifo ++ line = [] → 0 < given.free (poolOf given.type)) :
    Following pkts {
      h4 := { (hciUartRxIrqHandler dualMode false given fifo).1 with rxDisabled := false }
      fifo := (hciUartRxIrqHandler dualMode false given fifo).2
      line := line
      freed := freed } := by
  have hafter := handler_tracks false hwf hfits htracks (.inr hwait)
  have hpause : PauseOutcome given (hciUartRxIrqHandler dualMode false given fifo).1 :=
    handler_pause false fun hrun => Bool.noConfusion hrun.1
  rw [handler_waiting_unread false hwait] at hafter ⊢
  refine ⟨hafter.with_free false, nofun, fun hw hall => ?_⟩
  rcases hpause with ⟨_, _, hempty, _, _⟩ | ⟨hnot, _⟩
  · exact absurd hempty (Nat.ne_of_gt (hcond hall))
  · exact absurd hw hnot

section

variable (hwf : ∀ p ∈ pkts, p.WellFormed) (hfits : ∀ p ∈ pkts, p.Fits dualMode)
    (h : Following pkts r)
include hwf hfits h

theorem Following.free (pool : Pool) (hcond : FreesAwaited r (.free pool)) :
    Following pkts (receive dualMode r (.free pool)) := by
  unfold receive
  by_cases hheld : r.held pool = 0
  · simp only [if_pos hheld]
    exact h
  simp only [if_neg hheld]
  unfold hciRxPktFree
  by_cases hfull : pool.size ≤ r.h4.free pool
  · simp only [if_pos hfull]
    exact { h with }
  simp only [if_neg hfull]
  by_cases hdisabled : r.h4.rxDisabled = true
  · simp only [if_pos hdisabled]
    refine Following.resume _ hwf hfits (h.tracks.with_free _) (h.paused hdisabled) ?_
    intro hall
    obtain ⟨hfifo, hline⟩ := append_eq_nil_iff.mp hall
    rw [← hcond hdisabled hfifo hline]
    simp [Pool.set]
  · simp only [if_neg hdisabled]
    refine ⟨h.tracks.with_free _, fun hd => absurd hd hdisabled, fun hw hall => ?_⟩
    exact absurd (h.awaited hw hall).1 hdisabled

/-- Every event keeps a pause bound to the buffer it waits for. -/
theorem Following.step (e : Event) (hcond : FreesAwaited r e) :
    Following pkts (receive dualMode r e) := by
  cases e with
  | arrive n =>
    have hunread : (r.fifo ++ r.line.take n) ++ r.line.drop n = r.fifo ++ r.line := by
      rw [append_assoc, take_append_drop]
    refine { h with
      tracks := ?_
      awaited := fun hw hall => h.awaited hw (hunread.symm.trans hall) }
    show Tracks pkts r.h4 ((r.fifo ++ r.line.take n) ++ r.line.drop n)
    rw [hunread]
    exact h.tracks
  | irq => exact h.irq hwf hfits
  | free pool => exact h.free hwf hfits pool hcond

end

/-- In every run in which no other buffer is freed while the last packet waits, the stack is given
    exactly the packets, but for advertising reports. -/
theorem packets_exact (dualMode : Bool) (pkts : List HciPacket)
    (hwf : ∀ p ∈ pkts, p.WellFormed) (hfits : ∀ p ∈ pkts, p.Fits dualMode) (events : List Event)
    (hcond : Along (receive dualMode) FreesAwaited (Receiver.start pkts) events) :
    Throughout (receive dualMode) (Exact pkts) (Receiver.start pkts) events := by
  have hrun : Throughout (receive dualMode) (Following pkts) (Receiver.start pkts) events :=
    hcond.throughout (fun r e h hc => h.step hwf hfits e hc) (Following.start pkts)
  exact hrun.mono fun r h => h.exact hwf

def aclData : HciPacket := ⟨HCI_ACL, [0x01, 0x20, 1, 0, 0xaa]⟩
def hardwareError : HciPacket := ⟨HCI_EVT, [0x10, 1, 0x42]⟩
def leScanTimeout : HciPacket := ⟨HCI_EVT, [0x3e, 1, 0x11]⟩

/-- A stream that needs one event buffer more than there are. -/
def fullPool : List HciPacket := aclData :: List.replicate 8 hardwareError ++ [leScanTimeout]

instance (r : Receiver) : ∀ e, Decidable (FreesAwaited r e)
  | .free _ => inferInstanceAs (Decidable (_ → _ → _ → _))
  | .arrive _ => isTrue trivial
  | .irq => isTrue trivial

/-- The stream in two pieces. The scan timeout has to wait, until a buffer of an event is given
    back. -/
def refilled : List Event :=
  .arrive 20 :: List.replicate 30 .irq ++ .arrive 64 :: List.replicate 30 .irq ++
    .free .evt :: .irq :: List.replicate 8 (.free .evt) ++ [.free .data]

theorem scan_timeout_exact : (∀ p ∈ fullPool, p.WellFormed ∧ p.Fits false) ∧
    Throughout (receive false) (Exact fullPool) (Receiver.start fullPool) refilled :=
  have hok : ∀ p ∈ fullPool, p.WellFormed ∧ p.Fits false := by decide +kernel
  ⟨hok, packets_exact false _ (fun p hp => (hok p hp).1) (fun p hp => (hok p hp).2) _
    (by decide +kernel)⟩

/-- The scan timeout has to wait. The stack frees the data packet, and then all events. -/
def lostWakeup : List Event :=
  .arrive 64 :: List.replicate 30 .irq ++ .free .data :: List.replicate 8 (.free .evt)

/-- The buffer of the data packet ends the pause but is of no use for the event, which stays in the
    receiver although all buffers are free. -/
theorem scan_timeout_left_behind : (∀ p ∈ fullPool, p.WellFormed ∧ p.Fits false)
      ∧ ¬Throughout (receive false) (Exact fullPool) (Receiver.start fullPool) lostWakeup := by
  refine ⟨by decide +kernel, fun h => ?_⟩
  have hfree : ∀ pool,
      0 < (lostWakeup.foldl (receive false) (Receiver.start fullPool)).h4.free pool := by
    intro pool
    cases pool <;> decide +kernel
  have hkept := h.last.2 (by decide +kernel) (by decide +kernel) hfree
  exact absurd hkept.filter_eq (by decide +kernel)

end Runs

end AmebaRtos.Hci
