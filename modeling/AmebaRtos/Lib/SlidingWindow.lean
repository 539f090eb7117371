import Mathlib.Data.Nat.ModEq

/-!
# Sliding window transfer over a lossy channel

A sender transmits numbered items to a receiver that takes them in order only, over two channels
that keep the order and may lose. The sender may transmit any item of its window again. A frame
carries its number modulo some `m` only: as long as the window is smaller, a frame in the channel
with the residue that the receiver expects is the expected one.
-/

namespace AmebaRtos.Lib

open List

/-- The first item without an acknowledgement, the first one never sent, the first one not received,
    and what is in the channels, the oldest first. -/
structure Transfer where
  base : Nat
  next : Nat
  recv : Nat
  frames : List Nat
  acks : List Nat

structure Transfer.Inv (win : Nat) (t : Transfer) : Prop where
  base_le : t.base ≤ t.recv
  recv_le : t.recv ≤ t.next
  window : t.next ≤ t.base + win
  sent : ∀ n ∈ t.frames, n < t.next
  near : ∀ n ∈ t.frames, t.recv ≤ n + win
  order : t.frames.Pairwise fun earlier later => earlier < later + win
  acked : ∀ a ∈ t.acks, t.base ≤ a ∧ a ≤ t.recv
  acksOrder : t.acks.Pairwise (· ≤ ·)

namespace Transfer.Inv

variable {win base next recv n a : Nat} {frames frames' acks acks' : List Nat}

theorem start (win : Nat) : Inv win ⟨0, 0, 0, [], []⟩ where
  base_le := le_refl 0
  recv_le := le_refl 0
  window := Nat.zero_le _
  sent := fun _ h => absurd h not_mem_nil
  near := fun _ h => absurd h not_mem_nil
  order := .nil
  acked := fun _ h => absurd h not_mem_nil
  acksOrder := .nil

section

variable (h : Inv win ⟨base, next, recv, frames, acks⟩)
include h

theorem grow (hwin : next < base + win) : Inv win ⟨base, next + 1, recv, frames, acks⟩ :=
  { h with
    recv_le := Nat.le_succ_of_le h.recv_le
    window := hwin
    sent := fun n hn => Nat.lt_succ_of_lt (h.sent n hn) }

theorem send (hbase : base ≤ n) (hnext : n < next) :
    Inv win ⟨base, next, recv, frames ++ [n], acks⟩ := by
  have hwin : next ≤ n + win := le_trans h.window (Nat.add_le_add_right hbase win)
  refine { h with sent := ?_, near := ?_, order := ?_ }
  · simpa [or_imp, forall_and, hnext] using h.sent
  · simpa [or_imp, forall_and, le_trans h.recv_le hwin] using h.near
  · refine pairwise_append.mpr ⟨h.order, pairwise_singleton _ _, ?_⟩
    intro earlier hearlier later hlater
    rw [mem_singleton.mp hlater]
    exact lt_of_lt_of_le (h.sent earlier hearlier) hwin

theorem ack : Inv win ⟨base, next, recv, frames, acks ++ [recv]⟩ := by
  refine { h with acked := ?_, acksOrder := ?_ }
  · intro a ha
    rcases mem_append.mp ha with hold | hnew
    · exact h.acked a hold
    · rw [mem_singleton.mp hnew]
      exact ⟨h.base_le, le_refl _⟩
  · refine pairwise_append.mpr ⟨h.acksOrder, pairwise_singleton _ _, ?_⟩
    intro earlier hearlier later hlater
    rw [mem_singleton.mp hlater]
    exact (h.acked earlier hearlier).2

theorem lose (hframes : frames'.Sublist frames) (hacks : acks'.Sublist acks) :
    Inv win ⟨base, next, recv, frames', acks'⟩ :=
  { h with
    sent := fun n hn => h.sent n (hframes.subset hn)
    near := fun n hn => h.near n (hframes.subset hn)
    order := h.order.sublist hframes
    acked := fun a ha => h.acked a (hacks.subset ha)
    acksOrder := h.acksOrder.sublist hacks }

end

theorem receive (h : Inv win ⟨base, next, recv, recv :: frames, acks⟩) :
    Inv win ⟨base, next, recv + 1, frames, acks⟩ where
  base_le := Nat.le_succ_of_le h.base_le
  recv_le := h.sent recv (.head _)
  window := h.window
  sent := fun n hn => h.sent n (.tail recv hn)
  near := fun _ hn => rel_of_pairwise_cons h.order hn
  order := h.order.of_cons
  acked := fun a ha => ⟨(h.acked a ha).1, Nat.le_succ_of_le (h.acked a ha).2⟩
  acksOrder := h.acksOrder

theorem acknowledge (h : Inv win ⟨base, next, recv, frames, a :: acks⟩) :
    Inv win ⟨a, next, recv, frames, acks⟩ where
  base_le := (h.acked a (.head _)).2
  recv_le := h.recv_le
  window := le_trans h.window (Nat.add_le_add_right (h.acked a (.head _)).1 win)
  sent := h.sent
  near := h.near
  order := h.order
  acked := fun b hb =>
    ⟨rel_of_pairwise_cons h.acksOrder hb, (h.acked b (.tail a hb)).2⟩
  acksOrder := h.acksOrder.of_cons

theorem expected (h : Inv win ⟨base, next, recv, frames, acks⟩) (hm : win < m) (hn : n ∈ frames)
    (hmod : n % m = recv % m) : n = recv := by
  have hsent : n < next := h.sent n hn
  have hnear : recv ≤ n + win := h.near n hn
  have hwindow : next ≤ base + win := h.window
  have hbase : base ≤ recv := h.base_le
  rcases le_total n recv with hle | hle
  · have hdvd : m ∣ recv - n := (Nat.modEq_iff_dvd' hle).mp hmod
    have hzero := Nat.eq_zero_of_dvd_of_lt hdvd (by omega)
    omega
  · have hdvd : m ∣ n - recv := (Nat.modEq_iff_dvd' hle).mp hmod.symm
    have hzero := Nat.eq_zero_of_dvd_of_lt hdvd (by omega)
    omega

end Transfer.Inv

end AmebaRtos.Lib
