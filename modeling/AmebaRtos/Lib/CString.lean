import Mathlib.Data.List.TakeWhile
import Mathlib.Tactic.Common

/-!
# C strings

A C string is the bytes in front of the first zero byte. The functions follow the
standard library's; a comparison that runs over the end of a string sees the zero.
-/

namespace AmebaRtos.Lib

open List

/-- A string without its terminating zero. -/
abbrev CStr := { s : List UInt8 // 0 ∉ s }

/-- The first `n` bytes of a string. -/
def CStr.take (s : CStr) (n : Nat) : CStr :=
  ⟨s.val.take n, fun h => s.property (mem_of_mem_take h)⟩

/-- The part of a string in front of a byte. -/
def CStr.before (s : CStr) (c : UInt8) : CStr :=
  ⟨s.val.takeWhile (· != c), fun h => s.property ((takeWhile_sublist _).subset h)⟩

def CStr.ofBytes (buf : List UInt8) : CStr :=
  ⟨buf.takeWhile (· != 0), fun h => by simpa using mem_takeWhile_imp h⟩

def cText (buf : List UInt8) : Option CStr :=
  if 0 ∈ buf then some (CStr.ofBytes buf) else none

def strncmp : List UInt8 → List UInt8 → Nat → Int
  | _, _, 0 => 0
  | [], [], _ + 1 => 0
  | [], b :: _, _ + 1 => -b.toNat
  | a :: _, [], _ + 1 => a.toNat
  | a :: as, b :: bs, n + 1 => if a = b then strncmp as bs n else (a.toNat : Int) - b.toNat

theorem toNat_pos_of_mem {s : List UInt8} (hs : 0 ∉ s) (hc : c ∈ s) : 0 < c.toNat := by
  refine Nat.pos_of_ne_zero fun hzero => hs ?_
  rwa [UInt8.toNat_inj.mp (hzero.trans UInt8.toNat_zero.symm)] at hc

theorem strncmp_eq_zero {name tag : List UInt8} (htag : 0 ∉ tag) :
    strncmp name tag tag.length = 0 ↔ tag <+: name := by
  induction tag generalizing name with
  | nil => cases name <;> simp [strncmp]
  | cons b bs ih =>
    have hb := toNat_pos_of_mem htag (.head _)
    cases name with
    | nil =>
      rw [length_cons, strncmp]
      refine ⟨fun h => ?_, fun h => absurd (prefix_nil.mp h) (cons_ne_nil _ _)⟩
      omega
    | cons a as =>
      rw [length_cons, strncmp, cons_prefix_cons]
      by_cases hab : a = b
      · rw [if_pos hab, ih fun hmem => htag (.tail _ hmem)]
        exact ⟨fun h => ⟨hab.symm, h⟩, fun h => h.2⟩
      · rw [if_neg hab]
        refine ⟨fun h => ?_, fun h => absurd h.1.symm hab⟩
        exact absurd (UInt8.toNat_inj.mp (by omega)) hab

theorem strncmp_neg {name tag : List UInt8} (htag : 0 ∉ tag) (hother : ¬ tag <+: name) :
    strncmp name tag tag.length < 0 ↔ name < tag := by
  induction tag generalizing name with
  | nil => exact absurd nil_prefix hother
  | cons b bs ih =>
    have hb := toNat_pos_of_mem htag (.head _)
    cases name with
    | nil =>
      rw [length_cons, strncmp]
      exact ⟨fun _ => nil_lt_cons .., fun _ => by omega⟩
    | cons a as =>
      rw [length_cons, strncmp, cons_lt_cons_iff]
      by_cases hab : a = b
      · subst hab
        rw [if_pos rfl, ih (fun h => htag (.tail _ h)) fun h => hother (by simpa using h)]
        simp
      rw [if_neg hab, UInt8.lt_iff_toNat_lt]
      refine ⟨fun h => .inl (by omega), fun h => ?_⟩
      have hlt := h.resolve_right fun h => hab h.1
      omega

/-! ### Strings in a buffer -/

theorem ofBytes_append (hs : 0 ∉ s) :
    (CStr.ofBytes (s ++ rest)).val = s ++ (CStr.ofBytes rest).val := by
  apply takeWhile_append_of_pos
  intro b hb
  rw [bne_iff_ne]
  exact fun hzero => hs (hzero ▸ hb)

theorem prefix_ofBytes_iff (hs : 0 ∉ s) : s <+: (CStr.ofBytes buf).val ↔ s <+: buf := by
  refine ⟨fun h => h.trans <| takeWhile_prefix _, ?_⟩
  rintro ⟨rest, rfl⟩
  rw [ofBytes_append hs]
  exact prefix_append s _

theorem ofBytes_append_zero (hs : 0 ∉ s) : (CStr.ofBytes (s ++ 0 :: rest)).val = s := by
  rw [ofBytes_append hs]
  exact append_nil s

theorem cText_append_zero (s : CStr) : cText (s.val ++ 0 :: rest) = some s := by
  rw [cText, if_pos (mem_append_right _ mem_cons_self)]
  exact congrArg some (Subtype.ext (ofBytes_append_zero s.property))

theorem cText_of_not_mem (h : 0 ∉ buf) : cText buf = none := if_neg h

theorem eq_of_cText (h : cText buf = some s) : ∃ rest, buf = s.val ++ 0 :: rest := by
  unfold cText at h
  split at h
  · rename_i hzero
    obtain ⟨front, rest, rfl, hfront⟩ := eq_append_cons_of_mem hzero
    cases h
    exact ⟨rest, by rw [ofBytes_append_zero hfront]⟩
  · cases h

/-! ### Searching a string -/

/-- `strstr`: the offset of the first occurrence. -/
def strstr : List UInt8 → List UInt8 → Option Nat
  | [], needle => if needle = [] then some 0 else none
  | b :: rest, needle =>
    if needle <+: b :: rest then some 0 else (strstr rest needle).map (· + 1)

theorem strstr_start (h : needle <+: s) : strstr s needle = some 0 := by
  cases s with
  | nil => simp [strstr, prefix_nil.mp h]
  | cons b rest => simp [strstr, h]

theorem strstr_le (h : strstr s needle = some i) : i + needle.length ≤ s.length := by
  induction s generalizing i with
  | nil =>
    simp only [strstr] at h
    split at h
    · rename_i hneedle
      cases h
      simp [hneedle]
    · cases h
  | cons b rest ih =>
    simp only [strstr] at h
    split at h
    · rename_i hhere
      cases h
      simpa using hhere.length_le
    obtain ⟨j, hj, rfl⟩ := Option.map_eq_some_iff.mp h
    have hle := ih hj
    rw [length_cons]
    omega

theorem strstr_spec (h : strstr s needle = some i) : needle <+: s.drop i := by
  induction s generalizing i with
  | nil =>
    simp only [strstr] at h
    split at h
    · rename_i hneedle
      rw [hneedle]
      exact nil_prefix
    · cases h
  | cons b rest ih =>
    simp only [strstr] at h
    split at h
    · rename_i hhere
      cases h
      exact hhere
    · obtain ⟨j, hj, rfl⟩ := Option.map_eq_some_iff.mp h
      exact ih hj

theorem strstr_append (h : strstr s needle = some i) (rest : List UInt8) :
    strstr (s ++ rest) needle = some i := by
  induction s generalizing i with
  | nil =>
    simp only [strstr] at h
    split at h
    · rename_i hneedle
      cases h
      subst hneedle
      exact strstr_start nil_prefix
    · cases h
  | cons b s ih =>
    rw [cons_append]
    simp only [strstr] at h ⊢
    split at h
    · rename_i hhere
      rw [← cons_append, if_pos (hhere.trans (prefix_append _ _))]
      exact h
    rename_i hnot
    obtain ⟨j, hj, rfl⟩ := Option.map_eq_some_iff.mp h
    have hroom : needle.length ≤ (b :: s).length := by
      have hle := strstr_le hj
      rw [length_cons]
      omega
    have hnot' : ¬ needle <+: b :: (s ++ rest) := by
      intro hfar
      exact hnot (prefix_of_prefix_length_le hfar
        (by rw [← cons_append]; exact prefix_append _ _) hroom)
    rw [if_neg hnot', ih hj]
    rfl

theorem strstr_short (h : strstr (s ++ rest) needle = some i)
    (hshort : s.length < i + needle.length) : strstr s needle = none := by
  cases hfound : strstr s needle with
  | none => rfl
  | some j =>
    have hsame := strstr_append hfound rest
    rw [h, Option.some.injEq] at hsame
    subst hsame
    exact absurd (strstr_le hfound) (Nat.not_le_of_lt hshort)

theorem strstr_within (h : strstr (s ++ rest) needle = some i)
    (hin : i + needle.length ≤ s.length) :
    strstr s needle = some i := by
  induction s generalizing i with
  | nil =>
    simp only [length_nil, Nat.le_zero_eq, Nat.add_eq_zero_iff, length_eq_zero_iff] at hin
    simp [strstr, hin]
  | cons b s ih =>
    rw [cons_append] at h
    simp only [strstr] at h ⊢
    split at h
    · rename_i hhere
      cases h
      rw [if_pos]
      apply prefix_of_prefix_length_le hhere _ (by simpa using hin)
      exact prefix_append _ _
    rename_i hnot
    obtain ⟨j, hj, rfl⟩ := Option.map_eq_some_iff.mp h
    rw [if_neg, ih hj (by rw [length_cons] at hin; omega)]
    · rfl
    · intro hhere
      apply hnot
      exact hhere.trans (prefix_append _ _)

/-! ### Numbers -/

def isSpace (b : UInt8) : Bool := b == 32 || (9 ≤ b && b ≤ 13)

def isDigit (b : UInt8) : Bool := 48 ≤ b && b ≤ 57

def digitsValue (s : List UInt8) : Nat :=
  (s.takeWhile isDigit).foldl (fun n b => 10 * n + (b.toNat - 48)) 0

/-- `atoi`, for numbers that an `int` holds. -/
def atoi (s : List UInt8) : Int :=
  match s.dropWhile isSpace with
  | [] => 0
  | b :: rest =>
    if b = 45 then -digitsValue rest
    else if b = 43 then digitsValue rest
    else digitsValue (b :: rest)

theorem digitsValue_line (s t : List UInt8) :
    digitsValue (s ++ 10 :: t) = digitsValue (s ++ [10]) := by
  have hline : ∀ t : List UInt8, (s ++ 10 :: t).takeWhile isDigit = s.takeWhile isDigit := by
    intro t
    rw [takeWhile_append]
    split
    · rename_i hall
      have hself : s.takeWhile isDigit = s :=
        (takeWhile_sublist _).eq_of_length hall
      rw [takeWhile_cons_of_neg (by decide), append_nil, hself]
    · rfl
  unfold digitsValue
  rw [hline t, hline []]

theorem dropWhile_isSpace (h : ∃ b ∈ s, isSpace b = false) :
    ∃ b front, isSpace b = false ∧ ∀ t, (s ++ t).dropWhile isSpace = b :: (front ++ t) := by
  induction s with
  | nil => simp at h
  | cons c s ih =>
    cases hc : isSpace c with
    | false => exact ⟨c, s, hc, fun t => by simp [hc]⟩
    | true =>
      obtain ⟨b, front, hb, hdrop⟩ := ih (by simpa [hc] using h)
      exact ⟨b, front, hb, fun t => by simp [hc, hdrop]⟩

theorem atoi_line (h : ∃ b ∈ s, isSpace b = false) (t : List UInt8) :
    atoi (s ++ 10 :: t) = atoi (s ++ [10]) := by
  obtain ⟨b, front, _, hdrop⟩ := dropWhile_isSpace h
  unfold atoi
  rw [hdrop, hdrop]
  simp only [digitsValue_line front t]
  rw [← cons_append, digitsValue_line (b :: front) t, cons_append]

theorem atoi_drop_line {s t : List UInt8} {k : Nat} (hend : [10] <:+ s)
    (h : ∃ b ∈ s.drop k, isSpace b = false) : atoi ((s ++ t).drop k) = atoi (s.drop k) := by
  obtain ⟨front, rfl⟩ := hend
  have hk : k ≤ front.length := by
    by_contra hlt
    rw [drop_eq_nil_of_le (by rw [length_append, length_singleton]; omega)] at h
    simp at h
  rw [append_assoc, drop_append_of_le_length hk, drop_append_of_le_length hk]
  rw [drop_append_of_le_length hk] at h
  refine atoi_line ?_ t
  obtain ⟨b, hb, hspace⟩ := h
  rcases mem_append.mp hb with hfront | hlast
  · exact ⟨b, hfront, hspace⟩
  · rw [mem_singleton.mp hlast] at hspace
    exact absurd hspace (by decide)

end AmebaRtos.Lib
