import Mathlib.Data.List.Forall2
import AmebaRtos.BtInic.H5
import AmebaRtos.Lib.SlidingWindow

/-!
# Two H5 endpoints

Each direction of the connection is a sliding window transfer with the window of its sender. Every
frame on the way has a label with the unbounded numbers that its header shows modulo 8. `Link`
relates the two endpoints and the labels, and is kept by every step of a run.
-/

namespace AmebaRtos.BtInic

open Hci Lib List

/-! ### Sequence numbers -/

variable {x : UInt8}

theorem seq_succ (h : x.toNat = n % 8) : ((x + 1) % 8).toNat = (n + 1) % 8 := by
  rw [UInt8.toNat_mod, UInt8.toNat_add, h]
  show (n % 8 + 1) % 256 % 8 = _
  omega

theorem seq_pred (h : x.toNat = (n + 1) % 8) : ((x - 1) &&& 0x07).toNat = n % 8 := by
  rw [UInt8.toNat_and, UInt8.toNat_sub, h]
  show (2 ^ 8 - 1 + (n + 1) % 8) % 2 ^ 8 &&& 2 ^ 3 - 1 = n % 8
  rw [Nat.and_two_pow_sub_one_eq_mod]
  omega

theorem rewind_spec (h : x.toNat = (n + num) % 8) : (rewind num x).toNat = n % 8 := by
  induction num generalizing x with
  | zero => exact h
  | succ num ih => exact ih (seq_pred h)

theorem unackedFrom_spec (hk : k ≤ num) (hnum : num < 8) (hseq : txSeq.toNat = (n + num) % 8)
    (hack : rxAck.toNat = (n + k) % 8) : unackedFrom num txSeq rxAck = k := by
  induction num generalizing txSeq with
  | zero => exact (Nat.eq_zero_of_le_zero hk).symm
  | succ num ih =>
    unfold unackedFrom
    rcases Nat.lt_or_eq_of_le hk with hlt | rfl
    · have hne : txSeq ≠ rxAck := by
        rintro rfl
        omega
      rw [if_neg hne]
      exact ih (Nat.le_of_lt_succ hlt) (Nat.lt_of_succ_lt hnum) (seq_pred hseq)
    · rw [if_pos (UInt8.toNat_inj.mp (hseq.trans hack.symm))]

theorem processUnack_spec {e : H5} {n k : Nat} (hlen : e.unackQueue.length < 8)
    (hk : k ≤ e.unackQueue.length) (hseq : e.txSeq.toNat = (n + e.unackQueue.length) % 8)
    (hack : e.rxAck.toNat = (n + k) % 8) :
    processUnack e = { e with unackQueue := e.unackQueue.drop k } := by
  unfold processUnack
  rw [unackedFrom_spec hk hlen hseq hack]
  by_cases hk0 : k = 0
  · simp [hk0]
  · have hne : e.unackQueue.length ≠ 0 := by omega
    simp only [if_neg hne, if_neg hk0]

/-! ### Headers -/

theorem exists_fin (h : x.toNat < m) : ∃ i : Fin m, x = UInt8.ofNat i :=
  ⟨⟨x.toNat, h⟩, UInt8.ofNat_toNat.symm⟩

theorem hdr0_reliable : ∀ ack seq : Fin 8,
    ((UInt8.ofNat ack <<< 3 ||| 0x80 ||| UInt8.ofNat seq) &&& 0x07 = UInt8.ofNat seq
      ∧ ((UInt8.ofNat ack <<< 3 ||| 0x80 ||| UInt8.ofNat seq) >>> 3) &&& 0x07 = UInt8.ofNat ack
      ∧ ((UInt8.ofNat ack <<< 3 ||| 0x80 ||| UInt8.ofNat seq) >>> 7) &&& 0x01 = 1) := by
  decide +kernel

theorem hdr0_unreliable : ∀ ack : Fin 8, (UInt8.ofNat ack <<< 3) >>> 3 &&& 0x07 = UInt8.ofNat ack
      ∧ ¬(UInt8.ofNat ack <<< 3) >>> 7 &&& 0x01 = 1 := by
  decide +kernel

theorem hdr1_fields : ∀ type low : Fin 16,
    (UInt8.ofNat type ||| UInt8.ofNat (low.val <<< 4)) &&& 0x0f = UInt8.ofNat type
      ∧ (((UInt8.ofNat type ||| UInt8.ofNat (low.val <<< 4)) >>> 4) &&& 0x0f).toNat = low := by
  decide +kernel

theorem reliablePacket_lt (h : reliablePacket type = true) : type.toNat < 16 := by
  simp only [reliablePacket, Bool.or_eq_true, beq_iff_eq] at h
  rcases h with (((rfl | rfl) | rfl) | rfl) | rfl
  all_goals decide

theorem h5Send_frame (tx : ReliableTx) (hack : e.txAck.toNat < 8) (hseq : e.txSeq.toNat < 8) :
    let f := (h5Send e tx.buf tx.type tx.len.toNat).2
    f.H5_HDR_RELIABLE = true ∧ f.H5_HDR_SEQ = e.txSeq ∧ f.H5_HDR_ACK = e.txAck
      ∧ f.H5_HDR_PKT_TYPE = tx.type ∧ f.payload.take f.H5_HDR_LEN = tx.buf.take tx.len.toNat := by
  obtain ⟨ack, hack⟩ := exists_fin hack
  obtain ⟨seq, hseq⟩ := exists_fin hseq
  obtain ⟨type, htype⟩ := exists_fin (reliablePacket_lt tx.reliable)
  have hlen := UInt8.toNat_lt tx.len
  have hlow : tx.len.toNat &&& 0x0f = tx.len.toNat % 16 :=
    Nat.and_two_pow_sub_one_eq_mod tx.len.toNat 4
  have hhigh : tx.len.toNat >>> 4 = tx.len.toNat / 16 := Nat.shiftRight_eq_div_pow _ 4
  obtain ⟨h1, h2, h3⟩ := hdr0_reliable ack seq
  obtain ⟨h4, h5⟩ := hdr1_fields type ⟨tx.len.toNat % 16, Nat.mod_lt _ (by decide)⟩
  rw [← hack, ← hseq] at h1 h2 h3
  rw [← htype] at h4 h5
  have hframe : (h5Send e tx.buf tx.type tx.len.toNat).2 = {
      hdr0 := e.txAck <<< 3 ||| 0x80 ||| e.txSeq
      hdr1 := tx.type ||| UInt8.ofNat ((tx.len.toNat % 16) <<< 4)
      hdr2 := UInt8.ofNat (tx.len.toNat / 16)
      payload := tx.buf.take tx.len.toNat } := by
    simp [h5Send, tx.reliable, hlow, hhigh]
  have hall : ((tx.type ||| UInt8.ofNat ((tx.len.toNat % 16) <<< 4)) >>> 4 &&& 0x0f).toNat
      + (UInt8.ofNat (tx.len.toNat / 16)).toNat * 16 = tx.len.toNat := by
    rw [h5]
    show tx.len.toNat % 16 + tx.len.toNat / 16 % 256 * 16 = tx.len.toNat
    omega
  intro f
  refine ⟨?_, ?_, ?_, ?_, ?_⟩
  · simp only [f, hframe, Frame.H5_HDR_RELIABLE, h3, beq_self_eq_true]
  · simp only [f, hframe, Frame.H5_HDR_SEQ, h1]
  · simp only [f, hframe, Frame.H5_HDR_ACK, h2]
  · simp only [f, hframe, Frame.H5_HDR_PKT_TYPE, h4]
  · simp only [f, hframe, Frame.H5_HDR_LEN, hall, take_take, Nat.min_self]

theorem h5Send_ack_frame (hack : e.txAck.toNat < 8) :
    let f := (h5Send e [] HCI_3WIRE_ACK 0).2
    f.H5_HDR_RELIABLE = false ∧ f.H5_HDR_ACK = e.txAck ∧ f.H5_HDR_PKT_TYPE = HCI_3WIRE_ACK := by
  obtain ⟨ack, hack⟩ := exists_fin hack
  obtain ⟨h1, h2⟩ := hdr0_unreliable ack
  rw [← hack] at h1 h2
  refine ⟨beq_eq_false_iff_ne.mpr h2, h1, ?_⟩
  show (HCI_3WIRE_ACK ||| UInt8.ofNat ((0 &&& 0x0f) <<< 4)) &&& 0x0f = HCI_3WIRE_ACK
  decide

/-! ### The frames on the way -/

structure Label where
  seq : Option Nat
  ack : Nat

structure Carries (queued : List ReliableTx) (f : Frame) (l : Label) : Prop where
  ack : f.H5_HDR_ACK.toNat = l.ack % 8
  plain : l.seq = none → f.H5_HDR_RELIABLE = false ∧ f.H5_HDR_PKT_TYPE = HCI_3WIRE_ACK
  numbered : ∀ n, l.seq = some n → f.H5_HDR_RELIABLE = true ∧ f.H5_HDR_SEQ.toNat = n % 8
    ∧ (queued.map ReliableTx.contents)[n]? = some (f.H5_HDR_PKT_TYPE, f.payload.take f.H5_HDR_LEN)
    ∧ reliablePacket f.H5_HDR_PKT_TYPE = true

theorem Carries.queue_append (h : Carries queued f l) : Carries (queued ++ more) f l := by
  refine { h with numbered := fun n hn => ?_ }
  obtain ⟨hrel, hseq, hitem, htype⟩ := h.numbered n hn
  refine ⟨hrel, hseq, ?_, htype⟩
  have hlt := (List.getElem?_eq_some_iff.mp hitem).1
  rw [map_append, List.getElem?_append_left hlt]
  exact hitem

theorem forall₂_sublist {α β : Type} {R : α → β → Prop} {l sub : List α} {l' : List β}
    (h : List.Forall₂ R l l') (hsub : sub.Sublist l) :
    ∃ sub', sub'.Sublist l' ∧ List.Forall₂ R sub sub' := by
  induction hsub generalizing l' with
  | slnil => exact ⟨[], nil_sublist _, .nil⟩
  | cons a _ ih =>
    cases h with
    | cons _ hrest =>
      obtain ⟨sub', hsub', hall⟩ := ih hrest
      exact ⟨sub', hsub'.cons _, hall⟩
  | cons_cons a _ ih =>
    cases h with
    | @cons _ b _ _ hhead hrest =>
      obtain ⟨sub', hsub', hall⟩ := ih hrest
      exact ⟨b :: sub', hsub'.cons_cons b, .cons hhead hall⟩

/-- The direction from `x` to `y`: the packets of `x` in front of `base` are acknowledged, `out` are
    the labels of its frames and `back` those of the other direction. -/
structure Link (x y : H5) (base : Nat) (out back : List Label) (flight : List Frame) : Prop where
  queue : ∃ acked, acked.length = base ∧ x.queued = acked ++ (x.unackQueue ++ x.txQueue)
  txSeq : x.txSeq.toNat = (base + x.unackQueue.length) % 8
  rxAck : x.rxAck.toNat = base % 8
  txAck : y.txAck.toNat = y.received.length % 8
  delivered : y.received <+: x.queued.map ReliableTx.contents
  carried : List.Forall₂ (Carries x.queued) flight out
  transfer : Transfer.Inv x.txWin ⟨base, base + x.unackQueue.length, y.received.length,
    out.filterMap Label.seq, back.map Label.ack⟩

structure Ready (e : H5) : Prop where
  window : e.txWin ≤ H5_TX_WIN
  counted : e.pc = .tx → e.unackQueueLen = e.unackQueue.length

namespace Link

variable {x x' y : H5}

section

variable (h : Link x y base out back flight)
include h

theorem unack_le : x.unackQueue.length ≤ x.txWin := by
  have hwin : base + x.unackQueue.length ≤ base + x.txWin := h.transfer.window
  omega

theorem txAck_lt : y.txAck.toNat < 8 := by
  rw [h.txAck]
  exact Nat.mod_lt _ (by decide)

theorem lose {flight' : List Frame} (hout : out'.Sublist out) (hback : back'.Sublist back)
    (hcarried : List.Forall₂ (Carries x.queued) flight' out') : Link x y base out' back' flight' :=
  { h with
    carried := hcarried
    transfer := h.transfer.lose (hout.filterMap _) (hback.map _) }

theorem acks (hl : l.ack = y.received.length) : Link x y base out (back ++ [l]) flight := by
  refine { h with transfer := ?_ }
  rw [map_append, map_singleton, hl]
  exact h.transfer.ack

theorem plain (hf : Carries x.queued f l) (hl : l.seq = none) :
    Link x y base (out ++ [l]) back (flight ++ [f]) := by
  refine { h with carried := rel_append h.carried (.cons hf .nil), transfer := ?_ }
  simpa [hl] using h.transfer

theorem numbered (hf : Carries x.queued f l) (hl : l.seq = some n) (hbase : base ≤ n)
    (hnext : n < base + x.unackQueue.length) : Link x y base (out ++ [l]) back (flight ++ [f]) := by
  refine { h with carried := rel_append h.carried (.cons hf .nil), transfer := ?_ }
  have hout : (out ++ [l]).filterMap Label.seq = out.filterMap Label.seq ++ [n] := by
    simp [hl]
  rw [hout]
  exact h.transfer.send hbase hnext

end

theorem acksAll (labels : List Label) (h : Link x y base out back flight)
    (hl : ∀ l ∈ labels, l.ack = y.received.length) : Link x y base out (back ++ labels) flight := by
  induction labels generalizing back with
  | nil =>
    rw [append_nil]
    exact h
  | cons l rest ih =>
    rw [forall_mem_cons] at hl
    have hrest := ih (h.acks hl.1) hl.2
    rwa [append_assoc] at hrest

end Link

/-- The labels of `k` packets with the numbers from `n` on. -/
def numberedLabels (n ack : Nat) : (k : Nat) → List Label
  | 0 => []
  | k + 1 => ⟨some n, ack⟩ :: numberedLabels (n + 1) ack k

theorem ack_of_mem_numberedLabels {ack : Nat} (h : l ∈ numberedLabels n ack k) : l.ack = ack := by
  induction k generalizing n with
  | zero => exact absurd h not_mem_nil
  | succ k ih => exact (mem_cons.mp h).elim (congrArg Label.ack) ih

theorem Link.numberedAll {x y : H5} {ack : Nat} {flight frames : List Frame}
    (h : Link x y base out back flight) (hbase : base ≤ n)
    (hnext : n + k ≤ base + x.unackQueue.length)
    (hcarried : List.Forall₂ (Carries x.queued) frames (numberedLabels n ack k)) :
    Link x y base (out ++ numberedLabels n ack k) back (flight ++ frames) := by
  induction k generalizing n out flight frames with
  | zero =>
    cases hcarried
    rw [numberedLabels, append_nil, append_nil]
    exact h
  | succ k ih =>
    cases hcarried with
    | cons hf hrest =>
      have hone := h.numbered hf rfl hbase (by omega)
      have hmore := ih hone (by omega) (by omega) hrest
      rw [append_assoc, append_assoc] at hmore
      exact hmore

/-! ### Sending -/

def H5.withUnack (e : H5) (seq : UInt8) (unack : List ReliableTx) : H5 :=
  { e with txSeq := seq, unackQueue := unack }

theorem h5ReliableSend_eq (hroom : e.unackQueue.length < H5_TX_WIN) :
    (h5ReliableSend e tx).1 = e.withUnack ((e.txSeq + 1) % 8) (e.unackQueue ++ [tx]) := by
  simp [h5ReliableSend, h5Send, H5.withUnack, tx.reliable, hroom]

theorem h5ReliableSend_carries {e : H5} {tx : ReliableTx} {queued : List ReliableTx} {n a : Nat}
    (hseq : e.txSeq.toNat = n % 8) (hack : e.txAck.toNat = a % 8) (hitem : queued[n]? = some tx) :
    Carries queued (h5ReliableSend e tx).2 ⟨some n, a⟩ := by
  have hseq' : e.txSeq.toNat < 8 := hseq ▸ Nat.mod_lt _ (by decide)
  have hack' : e.txAck.toNat < 8 := hack ▸ Nat.mod_lt _ (by decide)
  obtain ⟨hrel, hs, ha, htype, hpay⟩ := h5Send_frame tx hack' hseq'
  constructor
  case ack => exact (congrArg UInt8.toNat ha).trans hack
  case plain => rintro ⟨⟩
  case numbered =>
    rintro _ ⟨⟩
    refine ⟨hrel, (congrArg UInt8.toNat hs).trans hseq, ?_, ?_⟩
    · rw [List.getElem?_map, hitem]
      exact congrArg some (Prod.ext htype.symm hpay.symm)
    · exact (congrArg reliablePacket htype).trans tx.reliable

theorem resend_cons :
    resend (tx :: rest) e = ((resend rest (h5ReliableSend e tx).1).1,
      (h5ReliableSend e tx).2 :: (resend rest (h5ReliableSend e tx).1).2) := rfl

theorem resend_spec {queued front txs back : List ReliableTx} {e : H5} {a : Nat}
    (hqueued : queued = front ++ (txs ++ back)) (hseq : e.txSeq.toNat = front.length % 8)
    (hack : e.txAck.toNat = a % 8) (hroom : e.unackQueue.length + txs.length ≤ H5_TX_WIN) :
    (∃ seq : UInt8, seq.toNat = (front.length + txs.length) % 8
      ∧ (resend txs e).1 = e.withUnack seq (e.unackQueue ++ txs))
    ∧ List.Forall₂ (Carries queued) (resend txs e).2
        (numberedLabels front.length a txs.length) := by
  induction txs generalizing front e with
  | nil =>
    refine ⟨⟨e.txSeq, hseq, ?_⟩, .nil⟩
    rw [append_nil]
    rfl
  | cons tx rest ih =>
    have hitem : queued[front.length]? = some tx := by
      rw [hqueued, List.getElem?_append_right (le_refl _), Nat.sub_self]
      rfl
    have hhead := h5ReliableSend_carries hseq hack hitem
    rw [length_cons] at hroom
    have hnext : ((e.txSeq + 1) % 8).toNat = (front ++ [tx]).length % 8 := by
      rw [length_append]
      exact seq_succ hseq
    have hqueued' : queued = (front ++ [tx]) ++ (rest ++ back) := by
      rw [hqueued, append_assoc]
      rfl
    have hroom' : (e.unackQueue ++ [tx]).length + rest.length ≤ H5_TX_WIN := by
      rw [length_append, length_singleton]
      omega
    obtain ⟨⟨seq, hlast, hafter⟩, hrest⟩ :=
      @ih (front ++ [tx]) (e.withUnack ((e.txSeq + 1) % 8) (e.unackQueue ++ [tx]))
        hqueued' hnext hack hroom'
    rw [length_append, length_singleton] at hlast hrest
    rw [resend_cons, h5ReliableSend_eq (by omega)]
    refine ⟨⟨seq, ?_, ?_⟩, .cons hhead hrest⟩
    · rw [hlast, length_cons, add_assoc, add_comm 1]
    · rw [hafter]
      show e.withUnack seq ((e.unackQueue ++ [tx]) ++ rest) = _
      rw [append_assoc, singleton_append]

theorem retransmit_spec (hqueued : queued = front ++ (e.unackQueue ++ back))
    (hseq : e.txSeq.toNat = (front.length + e.unackQueue.length) % 8) (hack : e.txAck.toNat = a % 8)
    (hroom : e.unackQueue.length ≤ H5_TX_WIN) :
    (retransmit e).1 = e ∧ List.Forall₂ (Carries queued) (retransmit e).2
      (numberedLabels front.length a e.unackQueue.length) := by
  obtain ⟨⟨seq, hlast, hafter⟩, hframes⟩ :=
    @resend_spec queued front e.unackQueue back
      (e.withUnack (rewind e.unackQueue.length e.txSeq) []) a hqueued (rewind_spec hseq) hack
      (by simpa [H5.withUnack] using hroom)
  refine ⟨?_, hframes⟩
  have hsame : seq = e.txSeq := UInt8.toNat_inj.mp (hlast.trans hseq.symm)
  refine hafter.trans ?_
  rw [hsame]
  rfl

/-! ### Receiving -/

theorem acceptRx_eq (e : H5) (f : Frame) :
    ∃ received, acceptRx e f = { e with rxAck := f.H5_HDR_ACK, received := received } := by
  simp only [acceptRx]
  split_ifs
  · exact ⟨e.received, rfl⟩
  · exact ⟨_, rfl⟩
  · exact ⟨e.received, rfl⟩

theorem processRx_cases : processRx e f = e ∨ ∃ txAck received, processRx e f
        = { e with txAck := txAck, rxAck := f.H5_HDR_ACK, received := received } := by
  unfold processRx
  split_ifs with hrel hseq
  · exact .inl rfl
  · obtain ⟨received, heq⟩ := acceptRx_eq { e with txAck := (e.txAck + 1) % 8 } f
    exact .inr ⟨_, received, heq⟩
  · obtain ⟨received, heq⟩ := acceptRx_eq e f
    exact .inr ⟨e.txAck, received, heq⟩

theorem acceptRx_reliable (h : reliablePacket f.H5_HDR_PKT_TYPE = true) :
    acceptRx e f = { e with
      rxAck := f.H5_HDR_ACK
      received := e.received ++ [(f.H5_HDR_PKT_TYPE, f.payload.take f.H5_HDR_LEN)] } := by
  have hlink : f.H5_HDR_PKT_TYPE ≠ HCI_3WIRE_LINK := fun heq => absurd (heq ▸ h) (by decide)
  simp only [acceptRx, if_neg hlink, if_pos h]

theorem acceptRx_ack (h : f.H5_HDR_PKT_TYPE = HCI_3WIRE_ACK) :
    acceptRx e f = { e with rxAck := f.H5_HDR_ACK } := by
  simp only [acceptRx, h]
  rfl

theorem processUnack_cases (e : H5) : ∃ unack, processUnack e = { e with unackQueue := unack } := by
  simp only [processUnack]
  split_ifs
  · exact ⟨e.unackQueue, rfl⟩
  · exact ⟨e.unackQueue, rfl⟩
  · exact ⟨_, rfl⟩

theorem processRx_frame (e : H5) (f : Frame) :
    (processRx e f).rxQueue = e.rxQueue ∧ (processRx e f).txWin = e.txWin
      ∧ (processRx e f).pc = e.pc := by
  rcases processRx_cases with heq | ⟨_, _, heq⟩ <;> rw [heq] <;> exact ⟨rfl, rfl, rfl⟩

namespace Link

variable {x y : H5}

theorem taken (h : Link x y base (l :: out) back (f :: flight)) (hwin : x.txWin ≤ H5_TX_WIN) :
    Link x (processRx y f) base out back flight := by
  obtain ⟨hf, hrest⟩ := forall₂_cons.mp h.carried
  have hlost : Link x y base out back flight :=
    h.lose (sublist_cons_self l out) (List.Sublist.refl back) hrest
  unfold processRx
  cases hl : l.seq with
  | none =>
    obtain ⟨hrel, htype⟩ := hf.plain hl
    rw [if_neg (Bool.eq_false_iff.mp hrel), acceptRx_ack htype]
    exact { hlost with }
  | some n =>
    obtain ⟨hrel, hseq, hitem, htype⟩ := hf.numbered n hl
    rw [if_pos hrel]
    by_cases hne : f.H5_HDR_SEQ ≠ y.txAck
    · rw [if_pos hne]
      exact hlost
    rw [if_neg hne, acceptRx_reliable htype]
    have heq : f.H5_HDR_SEQ = y.txAck := not_not.mp hne
    have htransfer := h.transfer
    rw [filterMap_cons_some hl] at htransfer
    -- the residue is the expected one, so the frame is
    have hn : n = y.received.length := by
      refine htransfer.expected (m := 8) (lt_of_le_of_lt hwin (by decide))
        (.head _) ?_
      rw [← hseq, heq, h.txAck]
    rw [hn] at htransfer hitem
    have hreceived := htransfer.receive
    refine { hlost with txAck := ?_, delivered := ?_, transfer := ?_ }
    · show ((y.txAck + 1) % 8).toNat = (y.received ++ [_]).length % 8
      rw [length_append]
      exact seq_succ h.txAck
    · obtain ⟨rest, hall⟩ := h.delivered
      rw [← hall, List.getElem?_append_right (le_refl _), Nat.sub_self] at hitem
      obtain ⟨rest', hcons⟩ := List.head?_eq_some_iff.mp (List.head?_eq_getElem?.trans hitem)
      refine ⟨rest', ?_⟩
      rw [← hall, hcons, append_assoc]
      rfl
    · show Transfer.Inv _ ⟨_, _, (y.received ++ [_]).length, _, _⟩
      rw [length_append]
      exact hreceived

/-- The sending endpoint takes a frame of the other direction: the packets that it
    acknowledges leave the window. -/
theorem acknowledged (h : Link x y base out (l :: back) flight) (hwin : x.txWin ≤ H5_TX_WIN)
    (hack : f.H5_HDR_ACK.toNat = l.ack % 8) :
    ∃ base', Link (processUnack (processRx x f)) y base' out back flight := by
  have hlen : x.unackQueue.length < 8 := by
    have := h.unack_le
    have hmax : H5_TX_WIN = 4 := rfl
    omega
  rcases processRx_cases with hsame | ⟨txAck, received, heq⟩
  · have hnone := @processUnack_spec x base 0 hlen (Nat.zero_le _) h.txSeq h.rxAck
    rw [hsame, hnone]
    exact ⟨base, { h with
      transfer := h.transfer.lose (List.Sublist.refl _) (sublist_cons_self _ _) }⟩
  obtain ⟨hge, hle⟩ := h.transfer.acked l.ack (.head _)
  have hnext : y.received.length ≤ base + x.unackQueue.length := h.transfer.recv_le
  have hge' : base ≤ l.ack := hge
  have hle' : l.ack ≤ y.received.length := hle
  obtain ⟨k, hk⟩ := Nat.exists_eq_add_of_le hge'
  have hkle : k ≤ x.unackQueue.length := by omega
  have hdrop := @processUnack_spec
    { x with txAck := txAck, rxAck := f.H5_HDR_ACK, received := received } base k hlen hkle
    h.txSeq (hack.trans (congrArg (· % 8) hk))
  have hlength : base + k + (x.unackQueue.drop k).length = base + x.unackQueue.length := by
    rw [length_drop]
    omega
  rw [heq, hdrop]
  refine ⟨base + k,
    { h with queue := ?queue, txSeq := ?txSeq, rxAck := ?rxAck, transfer := ?transfer }⟩
  case queue =>
    obtain ⟨acked, hbase, hqueued⟩ := h.queue
    refine ⟨acked ++ x.unackQueue.take k, ?_, ?_⟩
    · rw [length_append, hbase, length_take, min_eq_left hkle]
    · show x.queued = (acked ++ x.unackQueue.take k) ++ (x.unackQueue.drop k ++ x.txQueue)
      rw [hqueued, append_assoc, ← append_assoc (x.unackQueue.take k), take_append_drop]
  case txSeq =>
    rw [hlength]
    exact h.txSeq
  case rxAck => exact hack.trans (congrArg (· % 8) hk)
  case transfer =>
    rw [hlength, ← hk]
    exact h.transfer.acknowledge

end Link

/-! ### The steps of a run -/

def Synced (x y : H5) (xs ys : List Frame) : Prop :=
  ∃ bx by' out back, Link x y bx out back (y.rxQueue ++ xs)
    ∧ Link y x by' back out (x.rxQueue ++ ys) ∧ Ready x ∧ Ready y

namespace Synced

variable {x x' y : H5}

theorem symm (h : Synced x y xs ys) : Synced y x ys xs := by
  obtain ⟨bx, by', out, back, hxy, hyx, hx, hy⟩ := h
  exact ⟨by', bx, back, out, hyx, hxy, hy, hx⟩

theorem start (wx wy : UInt8) : Synced (H5.active wx) (H5.active wy) [] [] := by
  have hlink : ∀ wx wy, Link (H5.active wx) (H5.active wy) 0 [] [] [] := fun wx wy =>
    ⟨⟨[], rfl, rfl⟩, rfl, rfl, rfl, nil_prefix, .nil, Transfer.Inv.start _⟩
  have hready : ∀ w, Ready (H5.active w) := fun w => ⟨min_le_left _ _, nofun⟩
  exact ⟨0, 0, [], [], hlink wx wy, hlink wy wx, hready wx, hready wy⟩

section

variable (h : Synced x y xs ys)
include h

theorem idle (hpc : pc = .tx → n = x.unackQueue.length) :
    Synced { x with ackTimeoutFlag := flag, retxTimeoutFlag := retx, pc := pc, unackQueueLen := n }
      y xs ys := by
  obtain ⟨bx, by', out, back, hxy, hyx, hx, hy⟩ := h
  exact ⟨bx, by', out, back, { hxy with }, { hyx with }, ⟨hx.window, hpc⟩, hy⟩

theorem queue (pdu : HciPdu) : Synced (btInicSendToHost x pdu) y xs ys := by
  unfold btInicSendToHost
  split_ifs with hroom
  · obtain ⟨bx, by', out, back, hxy, hyx, hx, hy⟩ := h
    refine ⟨bx, by', out, back, ?_, { hyx with }, ⟨hx.window, hx.counted⟩, hy⟩
    refine { hxy with queue := ?_, delivered := ?_, carried := ?_ }
    · obtain ⟨acked, hbase, hqueued⟩ := hxy.queue
      refine ⟨acked, hbase, ?_⟩
      rw [hqueued]
      simp only [append_assoc]
    · show y.received <+: (x.queued ++ [pdu.tx]).map ReliableTx.contents
      rw [map_append]
      exact hxy.delivered.trans (prefix_append _ _)
    · exact hxy.carried.imp fun f l hf => hf.queue_append
  · exact h

theorem rx (hqueue : x.rxQueue = f :: rest) (hpc : x.pc = .rx) :
    Synced (processUnack (processRx { x with rxQueue := rest } f)) y xs ys := by
  obtain ⟨bx, by', out, back, hxy, hyx, hx, hy⟩ := h
  have hcarried := hyx.carried
  rw [hqueue] at hcarried
  obtain ⟨l, back, hf, hrest, rfl⟩ := forall₂_cons_left_iff.mp hcarried
  have hyx' : Link y { x with rxQueue := rest } by' (l :: back) out (f :: (rest ++ ys)) :=
    { hyx with carried := hcarried }
  have htaken := hyx'.taken hy.window
  have hxy' : Link { x with rxQueue := rest } y bx out (l :: back) (y.rxQueue ++ xs) := { hxy with }
  obtain ⟨bx', hacked⟩ := hxy'.acknowledged hx.window hf.ack
  obtain ⟨hq, hwin, hp⟩ := processRx_frame { x with rxQueue := rest } f
  obtain ⟨unack, hunack⟩ := processUnack_cases (processRx { x with rxQueue := rest } f)
  rw [hunack] at hacked ⊢
  refine ⟨bx', by', out, back, hacked, ?_, ⟨?_, ?_⟩, hy⟩
  · show Link y _ by' back out ((processRx { x with rxQueue := rest } f).rxQueue ++ ys)
    rw [hq]
    exact { htaken with }
  · exact le_trans (le_of_eq hwin) hx.window
  · exact fun htx => absurd (hp.symm.trans htx) (hpc.trans_ne nofun)

theorem ack :
    Synced (h5Send x [] HCI_3WIRE_ACK 0).1 y (xs ++ [(h5Send x [] HCI_3WIRE_ACK 0).2]) ys := by
  obtain ⟨bx, by', out, back, hxy, hyx, hx, hy⟩ := h
  obtain ⟨hrel, hack, htype⟩ := h5Send_ack_frame hyx.txAck_lt
  have hf : Carries x.queued (h5Send x [] HCI_3WIRE_ACK 0).2 ⟨none, x.received.length⟩ := by
    refine ⟨(congrArg UInt8.toNat hack).trans hyx.txAck, fun _ => ⟨hrel, htype⟩, ?_⟩
    rintro _ ⟨⟩
  refine ⟨bx, by', _, back, ?_, hyx.acks (l := ⟨none, x.received.length⟩) rfl, hx, hy⟩
  rw [← append_assoc]
  exact hxy.plain hf rfl

theorem retx : Synced (retransmit x).1 y (xs ++ (retransmit x).2) ys := by
  obtain ⟨bx, by', out, back, hxy, hyx, hx, hy⟩ := h
  obtain ⟨acked, rfl, hqueued⟩ := hxy.queue
  obtain ⟨hsame, hframes⟩ := retransmit_spec hqueued hxy.txSeq hyx.txAck
    (le_trans hxy.unack_le hx.window)
  rw [hsame]
  refine ⟨acked.length, by',
    out ++ numberedLabels acked.length x.received.length x.unackQueue.length, back, ?_,
    hyx.acksAll _ fun l hl => ack_of_mem_numberedLabels hl, hx, hy⟩
  rw [← append_assoc]
  exact hxy.numberedAll (le_refl _) (le_refl _) hframes

theorem tx {tx : ReliableTx} (hqueue : x.txQueue = tx :: rest)
    (hroom : x.unackQueue.length < x.txWin) (hn : n = x.unackQueue.length + 1) :
    Synced { (h5ReliableSend { x with txQueue := rest } tx).1 with unackQueueLen := n } y
      (xs ++ [(h5ReliableSend { x with txQueue := rest } tx).2]) ys := by
  obtain ⟨bx, by', out, back, hxy, hyx, hx, hy⟩ := h
  obtain ⟨acked, rfl, hqueued⟩ := hxy.queue
  have hitem : x.queued[acked.length + x.unackQueue.length]? = some tx := by
    rw [hqueued, hqueue, ← append_assoc, ← length_append,
      List.getElem?_append_right (le_refl _), Nat.sub_self]
    rfl
  have hf : Carries x.queued (h5ReliableSend { x with txQueue := rest } tx).2
      ⟨some (acked.length + x.unackQueue.length), x.received.length⟩ :=
    @h5ReliableSend_carries { x with txQueue := rest } tx _ _ _ hxy.txSeq hyx.txAck hitem
  have heq : (h5ReliableSend { x with txQueue := rest } tx).1
      = H5.withUnack { x with txQueue := rest } ((x.txSeq + 1) % 8) (x.unackQueue ++ [tx]) :=
    h5ReliableSend_eq (lt_of_lt_of_le hroom hx.window)
  have hlen : (x.unackQueue ++ [tx]).length = x.unackQueue.length + 1 := length_append
  rw [heq]
  refine ⟨acked.length, by', _, back, ?_,
    { hyx.acks (l := ⟨some (acked.length + x.unackQueue.length), x.received.length⟩) rfl with },
    ⟨hx.window, fun _ => hn.trans hlen.symm⟩, hy⟩
  rw [← append_assoc]
  refine Link.numbered ?_ hf rfl (Nat.le_add_right _ _) ?_
  · refine { hxy with queue := ?queue, txSeq := ?txSeq, transfer := ?transfer }
    case queue =>
      refine ⟨acked, rfl, ?_⟩
      show x.queued = acked ++ ((x.unackQueue ++ [tx]) ++ rest)
      rw [hqueued, hqueue, append_assoc x.unackQueue]
      rfl
    case txSeq =>
      show ((x.txSeq + 1) % 8).toNat = (acked.length + (x.unackQueue ++ [tx]).length) % 8
      rw [hlen]
      exact seq_succ hxy.txSeq
    case transfer =>
      show Transfer.Inv x.txWin ⟨_, acked.length + (x.unackQueue ++ [tx]).length, _, _, _⟩
      rw [hlen]
      exact hxy.transfer.grow (Nat.add_lt_add_left hroom _)
  · show acked.length + x.unackQueue.length < acked.length + (x.unackQueue ++ [tx]).length
    omega

theorem ready : Ready x := by
  obtain ⟨_, _, _, _, _, _, hx, _⟩ := h
  exact hx

theorem goOn (hpc : pc ≠ .tx) : Synced { x with pc := pc } y (xs ++ []) ys := by
  rw [append_nil]
  exact h.idle fun htx => absurd htx hpc

theorem threadRx (hpc : x.pc = .rx) :
    Synced (BtInic.threadRx x).1 y (xs ++ (BtInic.threadRx x).2) ys := by
  rcases hqueue : x.rxQueue with _ | ⟨f, rest⟩
  · have heq : BtInic.threadRx x = ({ x with pc := .ack }, []) := by
      simp only [BtInic.threadRx, hqueue]
    rw [heq]
    exact h.goOn (by decide)
  have heq : BtInic.threadRx x = (processUnack (processRx { x with rxQueue := rest } f), []) := by
    simp only [BtInic.threadRx, hqueue]
  rw [heq, append_nil]
  exact h.rx hqueue hpc

theorem threadAck : Synced (BtInic.threadAck x).1 y (xs ++ (BtInic.threadAck x).2) ys := by
  unfold BtInic.threadAck
  by_cases hflag : x.ackTimeoutFlag = true
  · simp only [if_pos hflag]
    exact h.ack.idle nofun
  · simp only [if_neg hflag]
    exact h.goOn (by decide)

theorem threadRetx : Synced (BtInic.threadRetx x).1 y (xs ++ (BtInic.threadRetx x).2) ys := by
  unfold BtInic.threadRetx
  by_cases hflag : x.retxTimeoutFlag = true
  · simp only [if_pos hflag]
    exact h.retx.idle fun _ => rfl
  · simp only [if_neg hflag, append_nil]
    exact h.idle fun _ => rfl

theorem threadTx (hpc : x.pc = .tx) :
    Synced (BtInic.threadTx x).1 y (xs ++ (BtInic.threadTx x).2) ys := by
  have hcount := h.ready.counted hpc
  by_cases hroom : x.unackQueueLen < x.txWin
  · rcases hqueue : x.txQueue with _ | ⟨tx, rest⟩
    · have heq : BtInic.threadTx x = ({ x with pc := .wait }, []) := by
        simp only [BtInic.threadTx, hqueue, if_pos hroom]
      rw [heq]
      exact h.goOn (by decide)
    have heq : BtInic.threadTx x = (
        { (h5ReliableSend { x with txQueue := rest } tx).1 with
          unackQueueLen := x.unackQueueLen + 1 },
        [(h5ReliableSend { x with txQueue := rest } tx).2]) := by
      simp only [BtInic.threadTx, hqueue, if_pos hroom]
    rw [heq]
    exact h.tx hqueue (hcount ▸ hroom) (congrArg (· + 1) hcount)
  · simp only [BtInic.threadTx, if_neg hroom]
    exact h.goOn (by decide)

theorem thread : Synced (h5Thread x).1 y (xs ++ (h5Thread x).2) ys := by
  unfold h5Thread
  split
  · exact h.goOn (by decide)
  · exact h.threadRx ‹_›
  · exact h.threadAck
  · exact h.threadRetx
  · exact h.threadTx ‹_›

theorem timer (ack retx : Bool) :
    Synced { x with ackTimeoutFlag := ack, retxTimeoutFlag := retx } y xs ys :=
  h.idle h.ready.counted

theorem lose (hsub : xs'.Sublist xs) : Synced x y xs' ys := by
  obtain ⟨bx, by', out, back, hxy, hyx, hx, hy⟩ := h
  obtain ⟨out', hout, hcarried⟩ :=
    forall₂_sublist hxy.carried (List.Sublist.append (List.Sublist.refl y.rxQueue) hsub)
  exact ⟨bx, by', out', back, hxy.lose hout (List.Sublist.refl _) hcarried,
    hyx.lose (List.Sublist.refl _) hout hyx.carried, hx, hy⟩

end

theorem arrive (h : Synced x y (f :: xs) ys) : Synced x (frameReceived y f) xs ys := by
  unfold frameReceived
  split_ifs with hroom
  · obtain ⟨bx, by', out, back, hxy, hyx, hx, hy⟩ := h
    refine ⟨bx, by', out, back, ?_, { hyx with }, hx, ⟨hy.window, hy.counted⟩⟩
    rw [append_assoc]
    exact { hxy with }
  · exact h.lose (sublist_cons_self f xs)

end Synced

/-! ### Runs -/

def Net.Sync (net : Net) : Prop :=
  Synced (net.ep .host) (net.ep .device) (net.wire .host) (net.wire .device)

theorem Net.sync_iff (net : Net) (s : Side) :
    net.Sync ↔ Synced (net.ep s) (net.ep s.other) (net.wire s) (net.wire s.other) := by
  cases s with
  | host => exact Iff.rfl
  | device => exact ⟨Synced.symm, Synced.symm⟩

@[simp]
theorem Side.set_self {α : Type} (f : Side → α) (s : Side) (v : α) : Side.set f s v s = v :=
  if_pos rfl

theorem Side.other_ne (s : Side) : s.other ≠ s := by
  cases s <;> decide

@[simp]
theorem Side.set_other {α : Type} (f : Side → α) (s : Side) (v : α) :
    Side.set f s v s.other = f s.other :=
  if_neg s.other_ne

@[simp]
theorem Side.set_of_other {α : Type} (f : Side → α) (s : Side) (v : α) :
    Side.set f s.other v s = f s :=
  if_neg s.other_ne.symm

theorem Net.Sync.step {net : Net} (h : net.Sync) (e : Event) : (net.step e).Sync := by
  cases e with
  | send s pdu =>
    rw [Net.sync_iff _ s] at h ⊢
    simpa [Net.step] using h.queue pdu
  | thread s =>
    rw [Net.sync_iff _ s] at h ⊢
    simpa [Net.step] using h.thread
  | ackTimer s =>
    rw [Net.sync_iff _ s] at h ⊢
    simpa [Net.step, ackTimerHdl] using h.timer true (net.ep s).retxTimeoutFlag
  | retxTimer s =>
    rw [Net.sync_iff _ s] at h ⊢
    by_cases hnum : (net.ep s).unackQueue.length ≠ 0
    · simpa only [Net.step, retxTimerHdl, if_pos hnum, Side.set_self, Side.set_other]
        using h.timer (net.ep s).ackTimeoutFlag true
    · simpa only [Net.step, retxTimerHdl, if_neg hnum, Side.set_self, Side.set_other] using h
  | arrive s =>
    rw [Net.sync_iff _ s] at h ⊢
    rcases hwire : net.wire s with _ | ⟨f, rest⟩
    · simpa only [Net.step, hwire] using h
    · rw [hwire] at h
      simpa only [Net.step, hwire, Side.set_self, Side.set_other, Side.set_of_other] using h.arrive
  | lose s i =>
    rw [Net.sync_iff _ s] at h ⊢
    simpa [Net.step] using h.lose (eraseIdx_sublist _ i)

theorem Net.Sync.safe {net : Net} (h : net.Sync) : net.Safe := by
  intro s
  rw [Net.sync_iff net s] at h
  obtain ⟨_, _, _, _, hxy, _, _, _⟩ := h
  exact ⟨hxy.delivered, hxy.unack_le⟩

/-- Over channels that keep the order and may lose, what one endpoint passes on is the beginning of
    what the other one queued, and the packets without an acknowledgement stay within the window. -/
theorem go_back_n_safe (window : Side → UInt8) (events : List Event) :
    Throughout Net.step Net.Safe (Net.start window) events := by
  have hstart : (Net.start window).Sync := Synced.start _ _
  have hrun : Along Net.step (fun _ _ => True) (Net.start window) events :=
    along_of_forall fun _ _ _ => trivial
  exact (hrun.throughout (fun net e h _ => h.step e) hstart).mono fun net h => h.safe

/-- The first frame of an event packet is lost and its retransmission arrives. -/
example :
    let pass := List.replicate 6 (Event.thread .host)
    let events := .send .host ⟨HCI_EVT, [0x10, 1, 0x42], rfl⟩ :: pass ++ .lose .host 0 ::
      .retxTimer .host :: pass ++ [.arrive .host, .thread .device, .thread .device]
    ((events.foldl Net.step (Net.start fun _ => 4)).ep .device).received
      = [(HCI_EVT, [0x10, 1, 0x42])] := by
  decide +kernel

/-- **No packet is lost**: what an endpoint queued is, in order, what the other one acknowledged and
    passed on, what waits for an acknowledgement and what waits to be sent. With nothing left to
    send, all of it was passed on. -/
theorem go_back_n_keeps (window : Side → UInt8) (events : List Event) (s : Side) :
    let net := events.foldl Net.step (Net.start window)
    ∃ acked, (net.ep s).queued = acked ++ ((net.ep s).unackQueue ++ (net.ep s).txQueue) ∧
      acked.map ReliableTx.contents <+: (net.ep s.other).received ∧
      ((net.ep s).unackQueue = [] → (net.ep s).txQueue = [] →
        (net.ep s.other).received = (net.ep s).queued.map ReliableTx.contents) := by
  intro net
  have hstart : (Net.start window).Sync := Synced.start _ _
  have hsync : net.Sync := foldlRecOn events Net.step hstart fun _ h e _ => h.step e
  obtain ⟨_, _, _, _, hlink, -⟩ := (net.sync_iff s).mp hsync
  obtain ⟨acked, hbase, hqueued⟩ := hlink.queue
  have hpassed : acked.map ReliableTx.contents <+: (net.ep s.other).received := by
    apply prefix_of_prefix_length_le _ hlink.delivered
    · rw [length_map, hbase]
      exact hlink.transfer.base_le
    · rw [hqueued, map_append]
      exact prefix_append _ _
  refine ⟨acked, hqueued, hpassed, fun hunack htx => ?_⟩
  rw [hunack, htx, append_nil, append_nil] at hqueued
  rw [← hqueued] at hpassed
  exact hlink.delivered.eq_of_length_le hpassed.length_le

end AmebaRtos.BtInic
