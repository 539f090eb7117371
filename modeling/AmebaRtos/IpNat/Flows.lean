import AmebaRtos.IpNat.Packet
import Mathlib.Data.List.Find

/-!
# Flows

A flow is a client with its port and a server with its port. A flow that was translated outward
has its replies sent to its client until it times out. The measure is a record for each flow of
its own, with real times and the flags of its own packets. A flow is tracked if the first entry in
use that could be taken for it, in either direction, is the one that follows its record: every
search finds it, and none drops it before the flow has timed out.
-/

namespace AmebaRtos.IpNat

open Lib Function List

structure Flow where
  proto : UInt8
  client : UInt32
  clientPort : UInt16
  server : UInt32
  serverPort : UInt16
deriving DecidableEq

structure Conn where
  lastUse : Nat
  finWait1 : Bool
  finWait2 : Bool
  finAck1 : Bool
  finAck2 : Bool
  synAcked : Bool
  rst : Bool

def Conn.new (now : Nat) : Conn := ⟨now, false, false, false, false, false, false⟩

def Conn.sent (flags : TcpFlags) (c : Conn) : Conn :=
  { c with
    finWait2 := c.finWait2 || flags.fin
    finAck1 := c.finAck1 || (c.finWait1 && flags.ack)
    rst := flags.rst }

def Conn.received (flags : TcpFlags) (c : Conn) : Conn :=
  { c with
    synAcked := c.synAcked || (flags.syn && flags.ack)
    finWait1 := c.finWait1 || flags.fin
    finAck2 := c.finAck2 || (c.finWait2 && flags.ack)
    rst := flags.rst }

def TimedOut (s : State) (f : Flow) (c : Conn) (now : Nat) : Prop :=
  if f.proto = IP_PROTO_TCP then
    s.ipNatTcpMaxTimeout.toNat < now - c.lastUse ∨
    (c.synAcked = false ∧ IP_NAT_MAX_TIMEOUT_MS_TCP_DISCON.toNat < now - c.lastUse) ∨
    (c.finAck1 = true ∧ c.finAck2 = true ∧
      IP_NAT_MAX_TIMEOUT_MS_TCP_FIN_WAIT.toNat < now - c.lastUse) ∨
    (c.rst = true ∧ IP_NAT_MAX_TIMEOUT_MS_TCP_RST_DISCON.toNat < now - c.lastUse)
  else s.ipNatUdpMaxTimeout.toNat < now - c.lastUse

instance (s : State) (f : Flow) (c : Conn) (now : Nat) : Decidable (TimedOut s f c now) := by
  unfold TimedOut
  infer_instance

structure FlowOk (f : Flow) : Prop where
  proto : f.proto = IP_PROTO_TCP ∨ f.proto = IP_PROTO_UDP
  port : f.clientPort ≠ 0

def Rival (f : Flow) (e : Rule) : Prop :=
  e.proto = f.proto ∧ ((e.src = f.client ∧ e.sport = f.clientPort) ∨
      (e.dest = f.server ∧ e.dport = f.serverPort ∧ e.portmap = f.clientPort))
deriving Decidable

structure Follows (f : Flow) (c : Conn) (now : Nat) (e : Rule) : Prop where
  proto : e.proto = f.proto
  src : e.src = f.client
  sport : e.sport = f.clientPort
  portmap : e.portmap = f.clientPort
  dest : e.dest = f.server
  dport : e.dport = f.serverPort
  appUse : e.appUse = 0
  finWait1 : e.finWait1 = c.finWait1
  finWait2 : e.finWait2 = c.finWait2
  finAck1 : e.finAck1 = c.finAck1
  finAck2 : e.finAck2 = c.finAck2
  synAcked : e.synAcked = c.synAcked
  rst : e.rst = c.rst
  ts : ∃ time, c.lastUse ≤ time ∧ time ≤ now ∧ e.ts = UInt32.ofNat time

structure TrackedAt (s : State) (active : List UInt16) (f : Flow) (c : Conn) (now : Nat)
    (i : UInt16) : Prop where
  find : (active.find? fun j => Rival f (s.rule j)) = some i
  follows : Follows f c now (s.rule i)

def Tracked (s : State) (active : List UInt16) (f : Flow) (c : Conn) (now : Nat) : Prop :=
  ∃ i, TrackedAt s active f c now i

structure Good (flows : Flow → Option Conn) (s : State) (active : List UInt16) (now : Nat) :
    Prop where
  lists : ∃ idle, Lists s active idle
  tracked : ∀ f c, flows f = some c → ¬ TimedOut s f c now → FlowOk f ∧ Tracked s active f c now

/-! ### Times -/

theorem getNatEntryTimeElapsed_eq : getNatEntryTimeElapsed nowTs eTs = nowTs - eTs := by
  unfold getNatEntryTimeElapsed
  split
  · rfl
  · have hones : (0xFFFFFFFF : UInt32) = -1 := by decide
    rw [hones, UInt32.xor_neg_one, UInt32.add_assoc, ← UInt32.neg_eq_not_add,
      ← UInt32.sub_eq_add_neg]

section Entries

theorem TimedOut.mono (h : TimedOut s f c now) (hle : now ≤ now') : TimedOut s f c now' := by
  have hlate : ∀ limit : Nat, limit < now - c.lastUse → limit < now' - c.lastUse := by
    omega
  unfold TimedOut at h ⊢
  split
  · rename_i htcp
    rw [if_pos htcp] at h
    exact h.imp (hlate _) (.imp (.imp_right (hlate _))
      (.imp (fun h => ⟨h.1, h.2.1, hlate _ h.2.2⟩) (.imp_right (hlate _))))
  · rename_i htcp
    rw [if_neg htcp] at h
    exact hlate _ h

variable (h : Follows f c now e)
include h

theorem Follows.later (hle : now ≤ now') : Follows f c now' e := by
  obtain ⟨time, hfrom, hto, hts⟩ := h.ts
  exact { h with ts := ⟨time, hfrom, le_trans hto hle, hts⟩ }

theorem Follows.unique (h' : Follows f' c' now e) : f = f' := by
  cases f
  cases f'
  simp only [Flow.mk.injEq]
  exact ⟨h.proto.symm.trans h'.proto, h.src.symm.trans h'.src, h.sport.symm.trans h'.sport,
    h.dest.symm.trans h'.dest, h.dport.symm.trans h'.dport⟩

theorem Follows.rival : Rival f e := ⟨h.proto, .inl ⟨h.src, h.sport⟩⟩

theorem Follows.elapsed_le (hlimit : ¬ limit.toNat < now - c.lastUse) :
    ¬ getNatEntryTimeElapsed (UInt32.ofNat now) e.ts > limit := by
  obtain ⟨time, hfrom, hto, hts⟩ := h.ts
  rw [hts, getNatEntryTimeElapsed_eq, ← UInt32.ofNat_sub hto, gt_iff_lt,
    UInt32.lt_iff_toNat_lt, UInt32.toNat_ofNat']
  omega

theorem Follows.checkAge_eq (hflow : FlowOk f) (hlive : ¬ TimedOut s f c now) :
    checkAge s.ipNatTcpMaxTimeout s.ipNatUdpMaxTimeout (UInt32.ofNat now) e = none := by
  have hnotIcmp : e.proto ≠ IP_PROTO_ICMP := by
    rw [h.proto]
    rcases hflow.proto with hproto | hproto <;> rw [hproto] <;> decide
  unfold TimedOut at hlive
  unfold checkAge
  rcases hflow.proto with htcp | hudp
  · rw [if_pos htcp, not_or, not_or, not_or] at hlive
    obtain ⟨hmax, hsyn, hfin, hrst⟩ := hlive
    have hnotUdp : e.proto ≠ IP_PROTO_UDP := by
      rw [h.proto, htcp]
      decide
    rw [if_neg, if_neg, if_neg (fun hudp => hnotUdp hudp.1), if_neg fun hicmp => hnotIcmp hicmp.1]
    · rintro ⟨_, hreset, hlate⟩
      exact h.elapsed_le (fun hlimit => hrst ⟨h.rst.symm.trans hreset, hlimit⟩) hlate
    · rintro ⟨_, _, ⟨hack, hlate⟩ | ⟨hack₁, hack₂, hlate⟩ | hlate⟩
      · refine h.elapsed_le (fun hlimit => hsyn ⟨?_, hlimit⟩) hlate
        rw [← h.synAcked]
        exact eq_false_of_ne_true hack
      · refine h.elapsed_le (fun hlimit => hfin ⟨?_, ?_, hlimit⟩) hlate
        · exact h.finAck1.symm.trans hack₁
        · exact h.finAck2.symm.trans hack₂
      · exact h.elapsed_le hmax hlate
  · have hnotTcp : e.proto ≠ IP_PROTO_TCP := by
      rw [h.proto, hudp]
      decide
    have hflowTcp : f.proto ≠ IP_PROTO_TCP := h.proto ▸ hnotTcp
    rw [if_neg hflowTcp] at hlive
    rw [if_neg (fun htcp => hnotTcp htcp.1), if_neg (fun htcp => hnotTcp htcp.1),
      if_neg (fun hold => h.elapsed_le hlive hold.2), if_neg fun hicmp => hnotIcmp hicmp.1]

theorem Follows.touch : Follows f c now (Rule.touch (UInt32.ofNat now) e) := by
  obtain ⟨time, hfrom, hto, _⟩ := h.ts
  exact { h with ts := ⟨now, le_trans hfrom hto, le_refl now, rfl⟩ }

theorem Follows.used (hts : e.ts = UInt32.ofNat now) : Follows f { c with lastUse := now } now e :=
  { h with ts := ⟨now, le_refl now, le_refl now, hts⟩ }

end Entries

/-! ### Searches -/

theorem find?_kept {α : Type*} {p keep : α → Bool} {visited rest : List α} {a : α}
    (h : (visited ++ rest).find? p = some a) (ha : a ∈ visited → keep a = true) :
    (visited.filter keep ++ rest).find? p = some a := by
  induction visited with
  | nil => exact h
  | cons b visited ih =>
    rw [cons_append] at h
    by_cases hb : p b = true
    · rw [List.find?_cons_of_pos hb] at h
      cases h
      rw [filter_cons_of_pos (ha mem_cons_self), cons_append, List.find?_cons_of_pos hb]
    rw [List.find?_cons_of_neg hb] at h
    have hrest := ih h fun hmem => ha (.tail b hmem)
    by_cases hkeep : keep b = true
    · rw [filter_cons_of_pos hkeep, cons_append, List.find?_cons_of_neg hb]
      exact hrest
    · rw [filter_cons_of_neg hkeep]
      exact hrest

theorem head?_of_find? {α : Type*} {p : α → Bool} {stops : α → Prop} {visited rest : List α} {a : α}
    (h : (visited ++ rest).find? p = some a) (ha : stops a) (hkind : ∀ b, stops b → p b = true)
    (hpassed : ∀ b ∈ visited, ¬ stops b) (hhead : ∀ b, rest.head? = some b → stops b) :
    rest.head? = some a := by
  rw [List.find?_append] at h
  cases hvisited : visited.find? p with
  | some b =>
    rw [hvisited] at h
    cases h
    exact absurd ha (hpassed a (mem_of_find?_eq_some hvisited))
  | none =>
    rw [hvisited] at h
    cases rest with
    | nil => cases h
    | cons b rest =>
      rw [List.find?_cons_of_pos (hkind b (hhead b rfl))] at h
      exact h

section Searches

variable {s s' : State} {active visited rest idle' : List UInt16}

theorem find?_rival_congr {rule rule' : UInt16 → Rule}
    (h : ∀ j ∈ active, (Rival f (rule' j) ↔ Rival f (rule j))) :
    (active.find? fun j => Rival f (rule' j)) = active.find? fun j => Rival f (rule j) := by
  refine List.find?_congr fun j hj => ?_
  exact decide_eq_decide.mpr (h j hj)

theorem touchFound_rival :
    Rival f ((s.touchFound (UInt32.ofNat now) entry).rule j) ↔ Rival f (s.rule j) := by
  cases entry with
  | none => exact Iff.rfl
  | some i =>
    change Rival f (update s.rule i _ j) ↔ _
    by_cases hji : j = i
    · subst hji
      rw [update_self]
      exact Iff.rfl
    · rw [update_of_ne hji]

theorem Follows.touchFound (h : Follows f c now (s.rule i)) :
    Follows f c now ((s.touchFound (UInt32.ofNat now) entry).rule i) := by
  cases entry with
  | none => exact h
  | some j =>
    change Follows f c now (update s.rule j _ i)
    by_cases hij : i = j
    · subst hij
      rw [update_self]
      exact h.touch
    · rw [update_of_ne hij]
      exact h

theorem searchVisit_of_checkAge (hage : checkAge s.ipNatTcpMaxTimeout s.ipNatUdpMaxTimeout
    (UInt32.ofNat now) (s.rule i) = none) :
    searchVisit s.ipNatTcpMaxTimeout s.ipNatUdpMaxTimeout (UInt32.ofNat now) q (s.rule i) =
      if q.found (s.rule i) then .found else .skip := by
  unfold searchVisit
  rw [hage]

theorem checkAge_ne_found : checkAge tcpMax udpMax time e ≠ some .found := by
  unfold checkAge
  dsimp only
  split_ifs <;> simp

theorem found_of_searchVisit (h : searchVisit tcpMax udpMax time q e = .found) :
    checkAge tcpMax udpMax time e = none ∧ q.found e = true := by
  unfold searchVisit at h
  split at h
  · rename_i hage
    rw [h] at hage
    exact absurd hage checkAge_ne_found
  · rename_i hage
    split_ifs at h with hmatch
    exact ⟨hage, hmatch⟩

theorem TrackedAt.search (h : TrackedAt s active f c now i) (hflow : FlowOk f)
    (hlive : ¬ TimedOut s f c now)
    (hsearched : Searched s (UInt32.ofNat now) q active s' entry visited rest idle') :
    TrackedAt s' (kept
      (searchVisit s.ipNatTcpMaxTimeout s.ipNatUdpMaxTimeout (UInt32.ofNat now) q)
      s visited ++ rest) f c now i := by
  refine ⟨?_, ?_⟩
  · have hfind := h.find
    rw [hsearched.rule]
    rw [find?_rival_congr fun j _ => touchFound_rival]
    rw [hsearched.split] at hfind
    refine find?_kept hfind fun _ => ?_
    rw [searchVisit_of_checkAge (h.follows.checkAge_eq hflow hlive)]
    split <;> simp
  · rw [hsearched.rule]
    exact h.follows.touchFound

theorem timedOut_congr (htcp : s'.ipNatTcpMaxTimeout = s.ipNatTcpMaxTimeout)
    (hudp : s'.ipNatUdpMaxTimeout = s.ipNatUdpMaxTimeout) :
    TimedOut s' f c now ↔ TimedOut s f c now := by
  unfold TimedOut
  rw [htcp, hudp]

theorem Good.search (h : Good flows s active now)
    (hsearched : Searched s (UInt32.ofNat now) q active s' entry visited rest idle') :
    Good flows s' (kept
      (searchVisit s.ipNatTcpMaxTimeout s.ipNatUdpMaxTimeout (UInt32.ofNat now) q)
      s visited ++ rest) now := by
  refine ⟨⟨idle', hsearched.lists⟩, fun f c hflow hlive => ?_⟩
  rw [timedOut_congr hsearched.tcp hsearched.udp] at hlive
  obtain ⟨hok, i, htracked⟩ := h.tracked f c hflow hlive
  exact ⟨hok, i, htracked.search hok hlive hsearched⟩

variable (hsearched : Searched s (UInt32.ofNat now) q active s' entry visited rest idle')
include hsearched

theorem Searched.entry_of_tracked (htracked : TrackedAt s active f c now i) (hflow : FlowOk f)
    (hlive : ¬ TimedOut s f c now)
    (hmatch : q.found (s.rule i) = true) (hrival : ∀ e, q.found e = true → Rival f e) :
    entry = some i := by
  have hfind := htracked.find
  rw [hsearched.entry_eq]
  rw [hsearched.split] at hfind
  refine head?_of_find? hfind ?_ ?_ hsearched.passed ?_
  · rw [searchVisit_of_checkAge (htracked.follows.checkAge_eq hflow hlive), if_pos hmatch]
  · intro j hj
    exact decide_eq_true (hrival _ (found_of_searchVisit hj).2)
  · intro j hj
    exact hsearched.found j (hsearched.entry_eq.trans hj)

theorem Searched.entry_none
    (hquiet : ∀ j ∈ active, searchVisit s.ipNatTcpMaxTimeout s.ipNatUdpMaxTimeout
      (UInt32.ofNat now) q (s.rule j) ≠ .found) : entry = none ∧ rest = [] := by
  have hnone : entry = none := by
    cases hentry : entry with
    | none => rfl
    | some j =>
      refine absurd (hsearched.found j hentry) (hquiet j ?_)
      rw [hsearched.split]
      exact mem_append_right _ (hsearched.mem hentry)
  refine ⟨hnone, ?_⟩
  rw [hnone] at hsearched
  exact List.head?_eq_none_iff.mp hsearched.entry_eq.symm

end Searches

/-! ### Changes of entries -/

section

variable {s s' : State}

theorem tracked_modify (hfind : (active.find? fun j => Rival f (s.rule j)) = some k)
    (hkeys : ∀ e, Rival f (g e) ↔ Rival f e) (hfollows : Follows f c now ((s.modify i g).rule k)) :
    Tracked (s.modify i g) active f c now := by
  have hsame : ∀ j ∈ active, (Rival f ((s.modify i g).rule j) ↔ Rival f (s.rule j)) := by
    intro j _
    change Rival f (update s.rule i (g (s.rule i)) j) ↔ _
    by_cases hji : j = i
    · subst hji
      rw [update_self]
      exact hkeys _
    · rw [update_of_ne hji]
  exact ⟨k, (find?_rival_congr hsame).trans hfind, hfollows⟩

@[simp] theorem modify_rule_self : (s.modify i g).rule i = g (s.rule i) :=
  update_self _ _ _

theorem modify_rule_of_ne (h : k ≠ i) : (s.modify i g).rule k = s.rule k :=
  update_of_ne h _ _

theorem tracked_cons_other (htracked : TrackedAt s l f c now k)
    (hsame : ∀ j ∈ l, s'.rule j = s.rule j) (hnot : ¬ Rival f (s'.rule t)) :
    Tracked s' (t :: l) f c now := by
  refine ⟨k, ?_, ?_⟩
  · have hrival : ∀ j ∈ l, (Rival f (s'.rule j) ↔ Rival f (s.rule j)) := by
      intro j hj
      rw [hsame j hj]
    rw [List.find?_cons_of_neg (by simpa using hnot)]
    exact (find?_rival_congr hrival).trans htracked.find
  · rw [hsame k (mem_of_find?_eq_some htracked.find)]
    exact htracked.follows

theorem tracked_cons_own (hfollows : Follows f c now (s'.rule t)) :
    Tracked s' (t :: l) f c now := by
  refine ⟨t, ?_, hfollows⟩
  exact List.find?_cons_of_pos (decide_eq_true hfollows.rival)

theorem find?_remove (h : (l₁ ++ i :: l₂).find? p = some k) (hne : k ≠ i) :
    (l₁ ++ l₂).find? p = some k := by
  rw [List.find?_append] at h ⊢
  cases hfirst : l₁.find? p with
  | some j =>
    rw [hfirst] at h
    exact h
  | none =>
    rw [hfirst] at h
    by_cases hi : p i = true
    · rw [List.find?_cons_of_pos hi] at h
      cases h
      exact absurd rfl hne
    · rwa [List.find?_cons_of_neg hi] at h

theorem good_update (hlists : ∃ idle, Lists s' active idle)
    (hothers : ∀ g c, g ≠ f → flows g = some c → ¬ TimedOut s' g c now →
      FlowOk g ∧ Tracked s' active g c now)
    (hown : FlowOk f ∧ Tracked s' active f c' now) :
    Good (update flows f (some c')) s' active now := by
  refine ⟨hlists, fun g c hflow hlive => ?_⟩
  by_cases hg : g = f
  · subst hg
    rw [update_self] at hflow
    cases hflow
    exact hown
  · rw [update_of_ne hg] at hflow
    exact hothers g c hg hflow hlive

theorem Good.later (h : Good flows s active now) (hle : now ≤ now') : Good flows s active now' := by
  refine ⟨h.lists, fun f c hflow hlive => ?_⟩
  obtain ⟨hok, i, htracked⟩ := h.tracked f c hflow fun hout => hlive (hout.mono hle)
  exact ⟨hok, i, htracked.find, htracked.follows.later hle⟩

end

end AmebaRtos.IpNat
