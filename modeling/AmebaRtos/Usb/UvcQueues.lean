import Mathlib.Tactic.Common

/-!
# The URBs of the UVC host

`usbh_uvc_urb_complete` hands a filled URB to the combine thread and goes on with a free one or,
without one, with the oldest that waits. The thread takes the semaphore first and then the URB.
-/

namespace AmebaRtos.Usb

open List

def USBH_UVC_URB_NUMS : Nat := 4

/-- Where `usbh_uvc_combine_thread` is: it waits for the semaphore, has taken it, or has an URB. -/
inductive CombineThread where
  | waiting
  | ready
  | combining (urb : Nat)
deriving DecidableEq

def CombineThread.held : CombineThread → List Nat
  | .combining urb => [urb]
  | _ => []

/-- The URBs by their index. `wait` has the number of the filling with each URB, `combined` the
    numbers of those that were combined, and `failed` tells of a branch that should not be
    reached. -/
structure UrbQueues where
  curUrb : Nat
  wait : List (Nat × Nat)
  giveback : List Nat
  readySema : Nat
  thread : CombineThread
  filled : Nat
  combined : List Nat
  failed : Bool

def UrbQueues.init : UrbQueues := ⟨0, [], [1, 2, 3], 0, .waiting, 0, [], false⟩

/-- The end of `usbh_uvc_urb_complete`: the URB takes the place of the oldest that waits. -/
def reuseUrb (s : UrbQueues) : UrbQueues :=
  match s.wait with
  | [] => { s with failed := true }
  | (urb, _) :: wait =>
    if wait.length < USBH_UVC_URB_NUMS then
      { s with curUrb := urb, wait := wait ++ [(s.curUrb, s.filled)], filled := s.filled + 1 }
    else { s with curUrb := urb, wait := wait, failed := true }

def urbComplete (s : UrbQueues) : UrbQueues :=
  match s.giveback with
  | [] => reuseUrb s
  | urb :: giveback =>
    if s.wait.length < USBH_UVC_URB_NUMS then
      { s with
        curUrb := urb
        wait := s.wait ++ [(s.curUrb, s.filled)]
        giveback := giveback
        readySema := s.readySema + 1
        filled := s.filled + 1 }
    else reuseUrb { s with giveback := giveback, failed := true }

/-- A step of the interrupt, or of the thread. -/
inductive UrbEvent where
  | complete
  | take
  | receive
  | giveback

def urbStep (s : UrbQueues) : UrbEvent → UrbQueues
  | .complete => urbComplete s
  | .take =>
    if s.thread = .waiting ∧ 0 < s.readySema then
      { s with thread := .ready, readySema := s.readySema - 1 }
    else s
  | .receive =>
    if s.thread = .ready then
      match s.wait with
      | [] => { s with thread := .waiting, failed := true }
      | (urb, n) :: wait =>
        { s with thread := .combining urb, wait := wait, combined := s.combined ++ [n] }
    else s
  | .giveback =>
    match s.thread with
    | .combining urb =>
      if s.giveback.length < USBH_UVC_URB_NUMS then
        { s with thread := .waiting, giveback := s.giveback ++ [urb] }
      else s
    | _ => s

/-- Every URB is in one place, no call fails, and the URBs are combined as they were filled. -/
structure UrbsInPlace (s : UrbQueues) : Prop where
  once : (s.curUrb :: (s.wait.map Prod.fst ++ s.giveback ++ s.thread.held)).Perm
    (range USBH_UVC_URB_NUMS)
  notFailed : s.failed = false
  order : (s.combined ++ s.wait.map Prod.snd ++ [s.filled]).Pairwise (· < ·)
  sema : s.readySema + (if s.thread = .ready then 1 else 0) = s.wait.length

theorem pairwise_snoc_succ (h : (l ++ [n]).Pairwise (· < ·)) :
    (l ++ [n] ++ [n + 1]).Pairwise (· < ·) := by
  refine pairwise_append.mpr ⟨h, pairwise_singleton _ _, fun a ha b hb => ?_⟩
  rw [mem_singleton.mp hb]
  rcases mem_append.mp ha with ha | ha
  · exact Nat.lt_succ_of_lt ((pairwise_append.mp h).2.2 a ha n (.head _))
  · rw [mem_singleton.mp ha]
    exact Nat.lt_succ_self n

section Step

variable {s : UrbQueues} (h : UrbsInPlace s)
include h

theorem UrbsInPlace.wait_length :
    s.wait.length < USBH_UVC_URB_NUMS ∧ (s.giveback = [] → s.wait ≠ []) := by
  have hlen := h.once.length_eq
  have hheld : s.thread.held.length ≤ 1 := by cases s.thread <;> simp [CombineThread.held]
  simp [USBH_UVC_URB_NUMS] at hlen ⊢
  refine ⟨by omega, fun hnone hempty => ?_⟩
  simp [hnone, hempty] at hlen
  omega

theorem UrbsInPlace.reuse (hnone : s.giveback = []) : UrbsInPlace (reuseUrb s) := by
  obtain ⟨⟨urb, n⟩, wait, hwait⟩ := exists_cons_of_ne_nil (h.wait_length.2 hnone)
  have hroom := h.wait_length.1
  obtain ⟨hplaces, hok, horder, hsema⟩ := h
  rw [hwait] at hroom hplaces horder hsema
  simp only [reuseUrb, hwait, if_pos (Nat.lt_of_succ_lt hroom)]
  refine ⟨Perm.trans ?_ hplaces, hok, ?_, by simpa using hsema⟩
  · simpa using (perm_middle.cons urb).trans (.swap ..)
  · have hrest : (s.combined ++ wait.map Prod.snd ++ [s.filled]).Pairwise (· < ·) :=
      horder.sublist (by simp)
    simpa using pairwise_snoc_succ hrest

theorem UrbsInPlace.complete : UrbsInPlace (urbComplete s) := by
  unfold urbComplete
  split
  next hnone => exact h.reuse hnone
  next urb giveback hfree =>
    rw [if_pos h.wait_length.1]
    obtain ⟨hplaces, hok, horder, hsema⟩ := h
    rw [hfree] at hplaces
    refine ⟨Perm.trans ?_ hplaces, hok, by simpa using pairwise_snoc_succ horder, ?_⟩
    · simpa using (perm_middle.cons urb).trans ((Perm.swap ..).trans (perm_middle.symm.cons _))
    · simp
      omega

theorem UrbsInPlace.step (e : UrbEvent) : UrbsInPlace (urbStep s e) := by
  cases e with
  | complete => exact h.complete
  | take =>
    simp only [urbStep]
    split
    next htake =>
      obtain ⟨hplaces, hok, horder, hsema⟩ := h
      rw [htake.1] at hplaces hsema
      refine ⟨hplaces, hok, horder, ?_⟩
      simp at hsema ⊢
      omega
    next => exact h
  | receive =>
    simp only [urbStep]
    split
    next hready =>
      obtain ⟨hplaces, hok, horder, hsema⟩ := h
      rw [hready] at hplaces hsema
      have hpos : 0 < s.wait.length := by simp [← hsema]
      obtain ⟨⟨urb, n⟩, wait, hwait⟩ := exists_cons_of_length_pos hpos
      rw [hwait] at hplaces horder hsema ⊢
      refine ⟨Perm.trans ?_ hplaces, hok, by simpa using horder, by simpa using hsema⟩
      simp only [CombineThread.held, append_nil]
      exact (perm_append_singleton urb _).cons _
    next => exact h
  | giveback =>
    simp only [urbStep]
    split
    next urb hheld =>
      split
      · obtain ⟨hplaces, hok, horder, hsema⟩ := h
        rw [hheld] at hplaces hsema
        refine ⟨?_, hok, horder, by simpa using hsema⟩
        simpa [CombineThread.held] using hplaces
      · exact h
    next => exact h

end Step

/-- **Every URB stays in one place**, whatever the interrupt and the thread do. -/
theorem urbs_in_place (events : List UrbEvent) :
    UrbsInPlace (events.foldl urbStep UrbQueues.init) := by
  have hinit : UrbsInPlace UrbQueues.init := ⟨by decide, rfl, by decide, rfl⟩
  generalize UrbQueues.init = s at hinit
  induction events generalizing s with
  | nil => exact hinit
  | cons e events ih => exact ih _ (hinit.step e)

end AmebaRtos.Usb
