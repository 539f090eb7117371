import Mathlib.Data.List.Nodup

/-!
# Linked lists through links of the elements

The elements of a list are the indices of a table, and each one holds the index of the next; `nil`
ends a list. `Path` relates the links to the list of elements that they visit. A doubly linked
list has the same elements forward from its head and backward from its last element, so a change
is proved for one direction and used for both.
-/

namespace AmebaRtos.Lib

open Function List

section Paths

variable {ι : Type*} {nil : ι} {next next' : ι → ι}

/-- Following the links from `h` through the elements of `l` ends at `e`. -/
def Path (nil : ι) (next : ι → ι) : ι → List ι → ι → Prop
  | h, [], e => h = e
  | h, a :: rest, e => h = a ∧ a ≠ nil ∧ Path nil next (next a) rest e

/-- The list that starts at `h`. -/
def Chain (nil : ι) (next : ι → ι) (h : ι) (l : List ι) : Prop := Path nil next h l nil

theorem path_append :
    Path nil next h (l₁ ++ l₂) e ↔ ∃ m, Path nil next h l₁ m ∧ Path nil next m l₂ e := by
  induction l₁ generalizing h with
  | nil => simp [Path]
  | cons a rest ih => simp [Path, ih, and_assoc]

theorem Path.congr (hpath : Path nil next h l e) (hsame : ∀ a ∈ l, next' a = next a) :
    Path nil next' h l e := by
  induction l generalizing h with
  | nil => exact hpath
  | cons a rest ih =>
    obtain ⟨hhead, hne, hrest⟩ := hpath
    refine ⟨hhead, hne, ?_⟩
    rw [hsame a mem_cons_self]
    exact ih hrest fun b hb => hsame b (.tail a hb)

theorem Path.ne_nil (hpath : Path nil next h l e) (ha : a ∈ l) : a ≠ nil := by
  induction l generalizing h with
  | nil => exact absurd ha not_mem_nil
  | cons b rest ih =>
    rcases mem_cons.mp ha with rfl | hrest
    · exact hpath.2.1
    · exact ih hpath.2.2 hrest

theorem Chain.unique (hchain : Chain nil next h l₁) (hchain' : Chain nil next h l₂) : l₁ = l₂ := by
  induction l₁ generalizing h l₂ with
  | nil =>
    cases l₂ with
    | nil => rfl
    | cons b rest =>
      have hhead : h = nil := hchain
      exact absurd (hchain'.1.symm.trans hhead) hchain'.2.1
  | cons a rest ih =>
    cases l₂ with
    | nil =>
      have hhead : h = nil := hchain'
      exact absurd (hchain.1.symm.trans hhead) hchain.2.1
    | cons b rest' =>
      have hab : a = b := hchain.1.symm.trans hchain'.1
      subst hab
      rw [ih hchain.2.2 hchain'.2.2]

/-- **A list that ends has no cycle.** -/
theorem Chain.nodup (hchain : Chain nil next h l) : l.Nodup := by
  induction l generalizing h with
  | nil => exact nodup_nil
  | cons a rest ih =>
    refine nodup_cons.mpr ⟨fun ha => ?_, ih hchain.2.2⟩
    -- the elements from the second `a` on would be the whole list
    obtain ⟨before, after, hsplit⟩ := append_of_mem ha
    have hrest : Path nil next (next a) (before ++ a :: after) nil := hsplit ▸ hchain.2.2
    obtain ⟨m, _, hagain⟩ := path_append.mp hrest
    have hhead : Chain nil next a (a :: rest) := ⟨rfl, hchain.2⟩
    have hsecond : Chain nil next a (a :: after) := ⟨rfl, hagain.2⟩
    have hlength := congrArg List.length (hhead.unique hsecond)
    rw [hsplit] at hlength
    simp only [length_cons, length_append] at hlength
    omega

theorem Chain.head_eq (hchain : Chain nil next h l) : h = l.head?.getD nil := by
  cases l with
  | nil => exact hchain
  | cons a rest => exact hchain.1

theorem Chain.next_eq (hchain : Chain nil next h (l₁ ++ t :: l₂)) : next t = l₂.head?.getD nil := by
  obtain ⟨m, _, hrest⟩ := path_append.mp hchain
  exact Chain.head_eq hrest.2.2

theorem Chain.remove [DecidableEq ι] (hchain : Chain nil next h (l₁ ++ t :: l₂))
    (hlast : ∀ b, l₁.getLast? = some b → next' b = next t)
    (hsame : ∀ a, a ∈ l₁ ∨ a ∈ l₂ → l₁.getLast? ≠ some a → next' a = next a) :
    Chain nil next' (if h = t then next t else h) (l₁ ++ l₂) := by
  have hnodup := hchain.nodup
  obtain ⟨m, hfirst, htail⟩ := path_append.mp hchain
  have hm : m = t := htail.1
  subst hm
  have hrest : Path nil next' (next m) l₂ nil := by
    refine htail.2.2.congr fun a ha => hsame a (.inr ha) fun hbefore => ?_
    have hdisjoint := (nodup_append.mp hnodup).2.2 a (mem_of_getLast? hbefore)
    exact hdisjoint a (.tail m ha) rfl
  rcases eq_nil_or_concat l₁ with rfl | ⟨before, b, rfl⟩
  · have hhead : h = m := hfirst
    rw [if_pos hhead]
    exact hrest
  rw [concat_eq_append] at *
  have hbnodup : (before ++ [b]).Nodup := (nodup_append.mp hnodup).1
  have hhead : h ≠ m := by
    intro heq
    have hmem : h ∈ before ++ [b] := by
      cases before with
      | nil =>
        rw [hfirst.1]
        exact .head _
      | cons a rest =>
        rw [hfirst.1]
        exact .head _
    exact (nodup_append.mp hnodup).2.2 h hmem m (.head _) heq
  rw [if_neg hhead]
  obtain ⟨m', hbefore, hb⟩ := path_append.mp hfirst
  refine path_append.mpr ⟨next m, path_append.mpr ⟨m', ?_, ?_⟩, hrest⟩
  · refine hbefore.congr fun a ha => hsame a (.inl (mem_append_left _ ha)) ?_
    rw [List.getLast?_concat]
    rintro ⟨rfl⟩
    exact (nodup_append.mp hbnodup).2.2 b ha b (.head _) rfl
  · exact ⟨hb.1, hb.2.1, hlast b List.getLast?_concat⟩

end Paths

/-! ### Doubly linked lists -/

section

variable {ι : Type*}

structure DList (ι : Type*) where
  next : ι → ι
  prev : ι → ι
  head : ι
  last : ι

namespace DList

structure Holds (nil : ι) (d : DList ι) (l : List ι) : Prop where
  forward : Chain nil d.next d.head l
  backward : Chain nil d.prev d.last l.reverse

variable {nil : ι}

theorem Holds.nodup (h : Holds nil d l) : l.Nodup := h.forward.nodup

theorem Holds.ne_nil (h : Holds nil d l) (ha : a ∈ l) : a ≠ nil := Path.ne_nil h.forward ha

theorem Holds.next_eq (h : Holds nil d (l₁ ++ t :: l₂)) : d.next t = l₂.head?.getD nil :=
  h.forward.next_eq

theorem Holds.prev_eq (h : Holds nil d (l₁ ++ t :: l₂)) : d.prev t = l₁.getLast?.getD nil := by
  have hback := h.backward
  rw [reverse_append, reverse_cons, append_assoc, singleton_append] at hback
  rw [hback.next_eq, List.head?_reverse]

theorem Holds.congr (h : Holds nil d l) (hhead : d'.head = d.head) (hlast : d'.last = d.last)
    (hnext : ∀ a ∈ l, d'.next a = d.next a) (hprev : ∀ a ∈ l, d'.prev a = d.prev a) :
    Holds nil d' l := by
  refine ⟨?_, ?_⟩
  · rw [hhead]
    exact h.forward.congr hnext
  · rw [hlast]
    exact h.backward.congr fun a ha => hprev a (mem_reverse.mp ha)

variable [DecidableEq ι]

def unlink (nil : ι) (d : DList ι) (t : ι) : DList ι where
  head := if t = d.head then d.next t else d.head
  last := if t = d.last then d.prev t else d.last
  prev := if d.next t ≠ nil then update d.prev (d.next t) (d.prev t) else d.prev
  next := if d.prev t ≠ nil then update d.next (d.prev t) (d.next t) else d.next

def pushFront (nil : ι) (d : DList ι) (t : ι) : DList ι where
  next := update d.next t d.head
  prev :=
    if d.head ≠ nil then update (update d.prev t nil) d.head t
    else update d.prev t nil
  head := t
  last := if d.last = nil then t else d.last

theorem update_link {f : ι → ι} {p v : ι} {before : List ι} (hp : p = before.getLast?.getD nil)
    (hne : ∀ b ∈ before, b ≠ nil) :
    (∀ b, before.getLast? = some b → (if p ≠ nil then update f p v else f) b = v) ∧
    (∀ a, a ≠ nil → before.getLast? ≠ some a →
      (if p ≠ nil then update f p v else f) a = f a) := by
  constructor
  · intro b hb
    rw [hb] at hp
    have hpb : p = b := hp
    have hpne : p ≠ nil := hpb ▸ hne b (mem_of_getLast? hb)
    rw [if_pos hpne, ← hpb, update_self]
  · intro a ha hlast
    by_cases hpne : p ≠ nil
    · rw [if_pos hpne]
      refine update_of_ne (fun hap => hlast ?_) _ _
      rcases hbefore : before.getLast? with _ | b
      · rw [hbefore] at hp
        exact absurd hp hpne
      · rw [hbefore] at hp
        rw [hap, hp]
        rfl
    · rw [if_neg hpne]

theorem Holds.unlink (h : Holds nil d (l₁ ++ t :: l₂)) : Holds nil (d.unlink nil t) (l₁ ++ l₂) := by
  have hne : ∀ a, a ∈ l₁ ∨ a ∈ l₂ → a ≠ nil := by
    intro a ha
    refine h.ne_nil (mem_append.mpr ?_)
    exact ha.imp_right (.tail t)
  constructor
  · obtain ⟨hlast, hsame⟩ := @update_link ι nil _ d.next (d.prev t) (d.next t) l₁ h.prev_eq
      fun b hb => hne b (.inl hb)
    have hremoved := h.forward.remove hlast fun a ha => hsame a (hne a ha)
    simpa only [DList.unlink, eq_comm] using hremoved
  · have hback := h.backward
    rw [reverse_append, reverse_cons, append_assoc, singleton_append] at hback
    have hnext : d.next t = l₂.reverse.getLast?.getD nil := by
      rw [List.getLast?_reverse]
      exact h.next_eq
    obtain ⟨hlast, hsame⟩ := @update_link ι nil _ d.prev (d.next t) (d.prev t) l₂.reverse hnext
      fun b hb => hne b (.inr (mem_reverse.mp hb))
    have hremoved := hback.remove hlast fun a ha =>
      hsame a (hne a (ha.symm.imp mem_reverse.mp mem_reverse.mp))
    rw [reverse_append]
    simpa only [DList.unlink, eq_comm] using hremoved

theorem Holds.unlink_next_of_not_mem (h : Holds nil d (l₁ ++ t :: l₂)) (ha : a ∉ l₁)
    (hne : a ≠ nil) : (d.unlink nil t).next a = d.next a := by
  have hbefore : ∀ b ∈ l₁, b ≠ nil := fun b hb => h.ne_nil (mem_append_left _ hb)
  refine (update_link h.prev_eq hbefore).2 a hne ?_
  exact fun hlast => ha (mem_of_getLast? hlast)

theorem Holds.pushFront (h : Holds nil d l) (ht : t ∉ l) (hne : t ≠ nil) :
    Holds nil (d.pushFront nil t) (t :: l) := by
  constructor
  · refine ⟨rfl, hne, ?_⟩
    have hhead : update d.next t d.head t = d.head := update_self _ _ _
    change Path nil (update d.next t d.head) (update d.next t d.head t) l nil
    rw [hhead]
    refine h.forward.congr fun a ha => update_of_ne ?_ _ _
    rintro rfl
    exact ht ha
  · have hback := h.backward
    change Path nil _ _ (t :: l).reverse nil
    rw [reverse_cons]
    cases l with
    | nil =>
      have hhead : d.head = nil := h.forward
      have hlast : d.last = nil := hback
      simp [DList.pushFront, hhead, hlast, Path, hne]
    | cons b rest =>
      have hb : b ≠ nil := h.ne_nil (.head _)
      have hhead : d.head = b := h.forward.1
      have htb : t ≠ b := fun heq => ht (heq ▸ (.head _))
      have hlast : d.last ≠ nil := by
        intro hnil
        have hempty : Chain nil d.prev d.last ([] : List ι) := hnil
        exact absurd (hback.unique hempty) (by simp)
      have hnodup := hback.nodup
      rw [reverse_cons] at hback hnodup ⊢
      obtain ⟨m, hfirst, hend⟩ := path_append.mp hback
      simp only [DList.pushFront, hhead, if_pos hb, if_neg hlast]
      refine path_append.mpr ⟨t, path_append.mpr ⟨m, ?_, ?_⟩, ?_⟩
      · refine hfirst.congr fun a ha => ?_
        have hab : a ≠ b := (nodup_append.mp hnodup).2.2 a ha b (.head _)
        have hat : a ≠ t := by
          rintro rfl
          exact ht (.tail b (mem_reverse.mp ha))
        rw [update_of_ne hab, update_of_ne hat]
      · exact ⟨hend.1, hend.2.1, update_self _ _ _⟩
      · refine ⟨rfl, hne, ?_⟩
        rw [update_of_ne htb, update_self]
        rfl

end DList

end

end AmebaRtos.Lib
