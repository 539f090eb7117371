import Mathlib.Algebra.BigOperators.Intervals
import Mathlib.Algebra.Order.BigOperators.Group.Finset
import AmebaRtos.Lib.NorFlash

/-!
# Data sent in packets of one size

`total` bytes are cut into packets of `size` bytes, of which the last one holds the
rest. A set of packets whose lengths add up to the total is the set of all of them.
The section variable `size` is the size of a packet.
-/

namespace AmebaRtos.Lib

section Packets

variable (size : Nat)

def packetCount (total : Nat) : Nat := (total + size - 1) / size

def packetLen (total seq : Nat) : Nat :=
  if seq = packetCount size total - 1 then total - seq * size else size

variable {size}

section

variable (hsize : 0 < size)
include hsize

theorem packetCount_pos (htotal : 0 < total) : 0 < packetCount size total :=
  Nat.div_pos (by omega) hsize

theorem last_packet_bounds (htotal : 0 < total) :
    (packetCount size total - 1) * size < total ∧ total ≤ packetCount size total * size := by
  have hmod := Nat.div_add_mod (total + size - 1) size
  have hlt := Nat.mod_lt (total + size - 1) hsize
  have hcomm : size * ((total + size - 1) / size) = packetCount size total * size := mul_comm _ _
  have hpos : packetCount size total * size = (packetCount size total - 1) * size + size := by
    obtain ⟨count, hcount⟩ :=
      Nat.exists_eq_succ_of_ne_zero (packetCount_pos hsize htotal).ne'
    rw [hcount, Nat.succ_sub_one, Nat.succ_mul]
  omega

section

variable (htotal : 0 < total) (hseq : seq < packetCount size total)
include htotal hseq

theorem packet_start_lt : seq * size < total :=
  (Nat.mul_le_mul_right size (Nat.le_sub_one_of_lt hseq)).trans_lt
    (last_packet_bounds hsize htotal).1

theorem packetLen_eq_min : packetLen size total seq = min size (total - seq * size) := by
  have hbounds := last_packet_bounds hsize htotal
  have hpos := packetCount_pos hsize htotal
  have hcount : packetCount size total * size = (packetCount size total - 1) * size + size := by
    conv_lhs => rw [← Nat.sub_add_cancel hpos, add_mul, Nat.one_mul]
  unfold packetLen
  split
  next hlast => rw [hlast]; omega
  next hlast =>
    have hnext : (seq + 1) * size ≤ (packetCount size total - 1) * size :=
      Nat.mul_le_mul_right size (by omega)
    rw [add_mul] at hnext
    omega

theorem packetLen_pos : 0 < packetLen size total seq := by
  have hstart := packet_start_lt hsize htotal hseq
  rw [packetLen_eq_min hsize htotal hseq]
  omega

theorem packet_stop_le : seq * size + packetLen size total seq ≤ total := by
  have hstart := packet_start_lt hsize htotal hseq
  rw [packetLen_eq_min hsize htotal hseq]
  omega

end

theorem sum_packetLen (htotal : 0 < total) :
    ∑ seq ∈ Finset.range (packetCount size total), packetLen size total seq = total := by
  obtain ⟨count, hcount⟩ := Nat.exists_eq_succ_of_ne_zero (packetCount_pos hsize htotal).ne'
  have hbounds := last_packet_bounds hsize htotal
  have hfull : ∀ seq ∈ Finset.range count, packetLen size total seq = size := by
    intro seq hseq
    have hne : seq ≠ packetCount size total - 1 := by
      rw [hcount]
      exact (Finset.mem_range.mp hseq).ne
    exact if_neg hne
  have hlast : packetLen size total count = total - count * size := by
    rw [packetLen, hcount, Nat.succ_sub_one, if_pos rfl]
  rw [hcount, Nat.succ_sub_one] at hbounds
  rw [hcount, Finset.sum_range_succ, Finset.sum_const_nat hfull, Finset.card_range]
  omega

section

variable (htotal : 0 < total) (hsub : seqs ⊆ Finset.range (packetCount size total))
include htotal hsub

theorem sum_packets_le : ∑ seq ∈ seqs, packetLen size total seq ≤ total := by
  calc ∑ seq ∈ seqs, packetLen size total seq
      ≤ ∑ seq ∈ Finset.range (packetCount size total), packetLen size total seq :=
        Finset.sum_le_sum_of_subset hsub
    _ = total := sum_packetLen hsize htotal

theorem packets_complete (hsum : ∑ seq ∈ seqs, packetLen size total seq = total) :
    seqs = Finset.range (packetCount size total) := by
  by_contra hne
  obtain ⟨seq, hseq, hmissing⟩ := Finset.exists_of_ssubset (hsub.ssubset_of_ne hne)
  have hlt : ∑ seq ∈ seqs, packetLen size total seq <
      ∑ seq ∈ Finset.range (packetCount size total), packetLen size total seq :=
    Finset.sum_lt_sum_of_subset hsub hseq hmissing
      (packetLen_pos hsize htotal (Finset.mem_range.mp hseq)) fun _ _ _ => Nat.zero_le _
  rw [hsum, sum_packetLen hsize htotal] at hlt
  exact lt_irrefl _ hlt

end

end

end Packets

end AmebaRtos.Lib
