import Mathlib.Tactic.Common

/-!
# Numbered blocks on one channel

Every item on a channel is tagged with the number of its block. Blocks are sent whole if what has
been sent is the beginning of some blocks, one behind the other: the beginning of a block behind
whole blocks is sent whole, and nothing that continues it with an item of another block is.
-/

namespace AmebaRtos.Lib

open List

section Tagged

variable {α : Type*} (blocks : List (List α))

def tagged (i : Nat) : List (Nat × α) := (blocks.getD i []).map (i, ·)

def SentWhole (sent : List (Nat × α)) : Prop :=
  ∃ ids : List Nat, ids.Nodup ∧ (∀ i ∈ ids, i < blocks.length) ∧
    sent <+: ids.flatMap (tagged blocks)

variable {blocks} {ids : List Nat}

theorem tagged_append (hi : i < blocks.length) (more : List (List α)) :
    tagged (blocks ++ more) i = tagged blocks i := by
  rw [tagged, tagged, getD_eq_getElem?_getD, getD_eq_getElem?_getD, List.getElem?_append_left hi]

theorem flatMap_tagged_append (hids : ∀ i ∈ ids, i < blocks.length) :
    ids.flatMap (tagged (blocks ++ more)) = ids.flatMap (tagged blocks) := by
  induction ids with
  | nil => rfl
  | cons i ids ih =>
    rw [flatMap_cons, flatMap_cons, tagged_append (hids i mem_cons_self),
      ih fun j hj => hids j (.tail i hj)]

theorem tagged_last : tagged (blocks ++ [block]) blocks.length = block.map (blocks.length, ·) := by
  simp [tagged]

theorem mem_tagged (hx : x ∈ tagged blocks i) : x.1 = i := by
  obtain ⟨a, -, rfl⟩ := mem_map.mp hx
  rfl

theorem SentWhole.append (h : SentWhole blocks sent) (more : List (List α)) :
    SentWhole (blocks ++ more) sent := by
  obtain ⟨ids, hnodup, hrange, hinitial⟩ := h
  refine ⟨ids, hnodup, fun i hi => ?_, ?_⟩
  · rw [length_append]
    exact Nat.lt_add_right _ (hrange i hi)
  · rw [flatMap_tagged_append hrange]
    exact hinitial

theorem nodup_snoc (hnodup : ids.Nodup) (hnew : i ∉ ids) : (ids ++ [i]).Nodup := by
  rw [nodup_append]
  refine ⟨hnodup, by simp, ?_⟩
  rintro a ha b hb rfl
  exact hnew (mem_singleton.mp hb ▸ ha)

theorem sentWhole_part (hnodup : ids.Nodup) (hrange : ∀ i ∈ ids, i < blocks.length) (hnew : i ∉ ids)
    (hi : i < blocks.length) (hpart : part <+: tagged blocks i) :
    SentWhole blocks (ids.flatMap (tagged blocks) ++ part) := by
  refine ⟨ids ++ [i], nodup_snoc hnodup hnew, ?_, ?_⟩
  · exact forall_mem_append.mpr ⟨hrange, forall_mem_singleton.mpr hi⟩
  · rw [flatMap_append, flatMap_singleton]
    exact (prefix_append_right_inj _).mpr hpart

theorem not_sentWhole_mixed (hne : ∀ b ∈ blocks, b ≠ []) (hrange : ∀ i ∈ ids, i < blocks.length)
    {i : Nat} {part : List (Nat × α)} (hpart : part <+: tagged blocks i) (hsome : part ≠ [])
    (hopen : part ≠ tagged blocks i) {x : Nat × α} (hx : x.1 ≠ i) (rest : List (Nat × α)) :
    ¬ SentWhole blocks (ids.flatMap (tagged blocks) ++ (part ++ x :: rest)) := by
  have hblock : ∀ k < blocks.length, ∃ a as, tagged blocks k = (k, a) :: as := by
    intro k hk
    have hnil : blocks.getD k [] ≠ [] := by
      rw [getD_eq_getElem?_getD, List.getElem?_eq_getElem hk]
      exact hne _ (getElem_mem hk)
    obtain ⟨a, as, hcons⟩ := exists_cons_of_ne_nil hnil
    exact ⟨a, as.map (k, ·), by rw [tagged, hcons, map_cons]⟩
  rintro ⟨ids', -, hrange', hinitial⟩
  induction ids generalizing ids' with
  | nil =>
    obtain ⟨y, part', rfl⟩ := exists_cons_of_ne_nil hsome
    have hy : y.1 = i := mem_tagged (hpart.subset (.head _))
    cases ids' with
    | nil => exact absurd (prefix_nil.mp hinitial) (by simp)
    | cons k ids' =>
      -- the first block is `i`, and the item stands inside of it
      obtain ⟨a, as, hk⟩ := hblock k (hrange' k (.head _))
      rw [flatMap_nil, nil_append, flatMap_cons] at hinitial
      have hki : k = i := by
        rw [hk, cons_append, cons_append, cons_prefix_cons] at hinitial
        rw [← hy, hinitial.1]
      subst hki
      obtain ⟨more, hmore⟩ := hpart
      cases more with
      | nil => exact hopen (by simpa using hmore)
      | cons z more =>
        rw [← hmore, append_assoc, prefix_append_right_inj, cons_append,
          cons_prefix_cons] at hinitial
        have hz : z ∈ tagged blocks k := by
          rw [← hmore]
          simp
        exact hx (hinitial.1 ▸ mem_tagged hz)
  | cons j ids ih =>
    obtain ⟨a, as, hj⟩ := hblock j (hrange j (.head _))
    cases ids' with
    | nil =>
      exact absurd (prefix_nil.mp hinitial) (by simp)
    | cons k ids' =>
      obtain ⟨b, bs, hk⟩ := hblock k (hrange' k (.head _))
      rw [flatMap_cons, flatMap_cons] at hinitial
      have hkj : j = k := by
        have hheads := hinitial
        rw [hj, hk, cons_append, cons_append, cons_append, cons_prefix_cons]
          at hheads
        exact congrArg Prod.fst hheads.1
      subst hkj
      rw [append_assoc, prefix_append_right_inj] at hinitial
      exact ih (fun l hl => hrange l (.tail j hl)) ids'
        (fun l hl => hrange' l (.tail j hl)) hinitial

end Tagged

end AmebaRtos.Lib
