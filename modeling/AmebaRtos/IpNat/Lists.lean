import AmebaRtos.IpNat.Table
import Mathlib.Data.List.Perm.Basic

/-!
# The lists of the entries

Every entry of the table is on one of the two lists, and on one only. Taking an entry off the
list of those in use, putting it back in front and changing its fields keep this; a walk
along the list keeps it although it takes entries off on its way.
-/

namespace AmebaRtos.IpNat

open Lib Function List

def indices : List UInt16 := (List.range IP_NAT_MAX).map UInt16.ofNat

variable (rule : UInt16 → Rule) (proto : UInt8)

def protoCount (l : List UInt16) : Nat :=
  l.countP fun i => (rule i).proto = proto

structure Counted (s : State) (active : List UInt16) : Prop where
  tcp : s.tcpEntryCount.toNat = protoCount s.rule IP_PROTO_TCP active
  udp : s.udpEntryCount.toNat = protoCount s.rule IP_PROTO_UDP active
  icmp : s.icmpEntryCount.toNat = protoCount s.rule IP_PROTO_ICMP active

structure Lists (s : State) (active idle : List UInt16) : Prop where
  linked : s.list.Holds NON_INDEX active
  unused : Chain NON_INDEX s.list.next s.natEntryIdle idle
  all : (active ++ idle).Perm indices
  counted : Counted s active

/-! ### Indices -/

theorem ofNat_index_inj (hm : m < IP_NAT_MAX) (hn : n < IP_NAT_MAX)
    (h : UInt16.ofNat m = UInt16.ofNat n) : m = n := by
  have htoNat := congrArg UInt16.toNat h
  rw [UInt16.toNat_ofNat', UInt16.toNat_ofNat'] at htoNat
  unfold IP_NAT_MAX at hm hn
  omega

theorem indices_nodup : indices.Nodup := by
  refine List.Nodup.map_on ?_ nodup_range
  intro m hm n hn h
  exact ofNat_index_inj (mem_range.mp hm) (mem_range.mp hn) h

section

theorem Lists.nodup (h : Lists s active idle) : (active ++ idle).Nodup :=
  h.all.nodup_iff.mpr indices_nodup

theorem Lists.length_le (h : Lists s active idle) : active.length ≤ IP_NAT_MAX := by
  have hlength := h.all.length_eq
  rw [length_append, indices, length_map, length_range] at hlength
  omega

theorem Lists.not_mem_idle (h : Lists s active idle) (ht : t ∈ active) : t ∉ idle :=
  fun hidle => (nodup_append.mp h.nodup).2.2 t ht t hidle rfl

/-! ### Counters -/

theorem protoCount_cons : protoCount rule proto (t :: l) =
      protoCount rule proto l + if (rule t).proto = proto then 1 else 0 := by
  simp [protoCount, countP_cons]

theorem protoCount_remove : protoCount rule proto (l₁ ++ t :: l₂) =
      protoCount rule proto (l₁ ++ l₂) + if (rule t).proto = proto then 1 else 0 := by
  simp [protoCount, countP_cons, Nat.add_assoc]

theorem changeCount_add {proto ofProto : UInt8} {count : UInt32} (h : count.toNat = n)
    (hn : n ≤ IP_NAT_MAX) :
    (changeCount (· + 1) proto ofProto count).toNat = n + if proto = ofProto then 1 else 0 := by
  unfold changeCount
  unfold IP_NAT_MAX at hn
  split
  · rw [UInt32.toNat_add, h]
    exact Nat.mod_eq_of_lt (by change n + 1 < 2 ^ 32; omega)
  · exact h

theorem changeCount_sub {proto ofProto : UInt8} {count : UInt32}
    (h : count.toNat = n + if proto = ofProto then 1 else 0) :
    (changeCount (· - 1) proto ofProto count).toNat = n := by
  unfold changeCount
  split
  · rename_i hproto
    rw [if_pos hproto] at h
    have hle : (1 : UInt32) ≤ count := UInt32.le_iff_toNat_le.mpr (h ▸ Nat.le_add_left 1 n)
    rw [UInt32.toNat_sub_of_le _ _ hle, h]
    exact Nat.add_sub_cancel n 1
  · rename_i hproto
    rw [if_neg hproto] at h
    exact h

/-! ### Operations on the lists -/

theorem Lists.setEntryIdle (h : Lists s (l₁ ++ t :: l₂) idle) :
    Lists (ipNatSetEntryIdle s t) (l₁ ++ l₂) (t :: idle) := by
  have hnodup := h.nodup
  have hmem : t ∈ l₁ ++ t :: l₂ := mem_append_right _ (.head _)
  have hother : ∀ a ∈ l₁ ++ l₂, a ≠ t := by
    have hactive := (nodup_middle.mp (nodup_append.mp hnodup).1)
    rintro a ha rfl
    exact (nodup_cons.mp hactive).1 ha
  refine ⟨?_, ⟨rfl, h.linked.ne_nil hmem, ?_⟩, ?_, ?_⟩
  · refine h.linked.unlink.congr rfl rfl ?_ ?_
    · exact fun a ha => update_of_ne (hother a ha) _ _
    · exact fun a ha => update_of_ne (hother a ha) _ _
  · -- the other idle entries keep their links
    have hnext : (ipNatSetEntryIdle s t).list.next t = s.natEntryIdle := update_self _ _ _
    rw [hnext]
    refine h.unused.congr fun a ha => ?_
    have hat : a ≠ t := by
      rintro rfl
      exact h.not_mem_idle hmem ha
    have hfirst : a ∉ l₁ := fun hl => h.not_mem_idle (mem_append_left _ hl) ha
    exact (update_of_ne hat _ _).trans
      (h.linked.unlink_next_of_not_mem hfirst (Path.ne_nil h.unused ha))
  · refine List.Perm.trans ?_ h.all
    refine perm_middle.trans ?_
    exact (perm_middle.symm.append_right idle)
  · refine ⟨?_, ?_, ?_⟩
    · exact changeCount_sub (h.counted.tcp.trans (protoCount_remove _ _))
    · exact changeCount_sub (h.counted.udp.trans (protoCount_remove _ _))
    · exact changeCount_sub (h.counted.icmp.trans (protoCount_remove _ _))

theorem Lists.insertNewRule (h : Lists s active (t :: idle)) :
    Lists (ipNatInsertNewRule s t) (t :: active) idle := by
  have hactive : t ∉ active := fun ht => h.not_mem_idle ht (.head _)
  have hidle : t ∉ idle := (nodup_cons.mp (nodup_append.mp h.nodup).2.1).1
  have hcount : ∀ proto, protoCount s.rule proto active ≤ IP_NAT_MAX := fun proto =>
    Nat.le_trans countP_le_length h.length_le
  refine ⟨h.linked.pushFront hactive h.unused.2.1, ?_, ?_, ?_⟩
  · refine h.unused.2.2.congr fun a ha => update_of_ne ?_ _ _
    rintro rfl
    exact hidle ha
  · exact perm_middle.symm.trans h.all
  · refine ⟨?_, ?_, ?_⟩
    · exact (changeCount_add h.counted.tcp (hcount _)).trans (protoCount_cons _ _).symm
    · exact (changeCount_add h.counted.udp (hcount _)).trans (protoCount_cons _ _).symm
    · exact (changeCount_add h.counted.icmp (hcount _)).trans (protoCount_cons _ _).symm

theorem Lists.modify {f : Rule → Rule} (h : Lists s active idle)
    (hproto : t ∈ active → (f (s.rule t)).proto = (s.rule t).proto) :
    Lists (s.modify t f) active idle := by
  have hcount : ∀ proto, protoCount (s.modify t f).rule proto active =
      protoCount s.rule proto active := by
    refine fun proto => countP_congr fun i hi => ?_
    suffices h : ((s.modify t f).rule i).proto = (s.rule i).proto by rw [h]
    change (update s.rule t (f (s.rule t)) i).proto = _
    by_cases hit : i = t
    · subst hit
      rw [update_self]
      exact hproto hi
    · rw [update_of_ne hit]
  refine ⟨h.linked, h.unused, h.all, ?_, ?_, ?_⟩
  · exact h.counted.tcp.trans (hcount _).symm
  · exact h.counted.udp.trans (hcount _).symm
  · exact h.counted.icmp.trans (hcount _).symm

theorem Lists.renewEntry (h : Lists s (l₁ ++ t :: l₂) idle) :
    Lists (s.renewEntry t f) (t :: (l₁ ++ l₂)) idle := by
  have hidle := h.setEntryIdle
  refine (hidle.modify fun ht => ?_).insertNewRule
  exact absurd (.head _) (hidle.not_mem_idle ht)

end

/-! ### Walks -/

structure SameRules (s s' : State) : Prop where
  rule : s'.rule = s.rule
  tcp : s'.ipNatTcpMaxTimeout = s.ipNatTcpMaxTimeout
  udp : s'.ipNatUdpMaxTimeout = s.ipNatUdpMaxTimeout

/-- A walk has passed `visited` and stopped at the first entry of `rest`, if there is one. -/
structure Walked (visit : Rule → Visit) (s s' : State) (visited rest : List UInt16) : Prop where
  same : SameRules s s'
  passed : ∀ i ∈ visited, visit (s.rule i) ≠ .found
  found : ∀ i, rest.head? = some i → visit (s.rule i) = .found

def kept (visit : Rule → Visit) (s : State) (visited : List UInt16) : List UInt16 :=
  visited.filter fun i => visit (s.rule i) ≠ .expire

/-- **A walk** comes to its end; it takes off the entries that are to expire, and stops at the
    first one that is found. -/
theorem walk_spec (visit : Rule → Visit) {s : State} {before l idle : List UInt16} {fuel : Nat}
    {i : UInt16} (h : Lists s (before ++ l) idle) (hi : i = l.head?.getD NON_INDEX)
    (hfuel : l.length < fuel) :
    ∃ s' visited rest idle', walk visit fuel i s = some (s', rest.head?) ∧ l = visited ++ rest ∧
      Lists s' (before ++ (kept visit s visited ++ rest)) idle' ∧
      Walked visit s s' visited rest := by
  induction l generalizing s before idle fuel i with
  | nil =>
    obtain ⟨fuel, rfl⟩ := Nat.exists_eq_add_of_lt hfuel
    have hnil : i = NON_INDEX := hi
    refine ⟨s, [], [], idle, ?_, rfl, h, ⟨rfl, rfl, rfl⟩, forall_mem_nil _, nofun⟩
    simp [walk, hnil]
  | cons a rest ih =>
    obtain ⟨fuel, rfl⟩ : ∃ n, fuel = n + 1 := ⟨fuel - 1, by omega⟩
    have hia : i = a := hi
    subst hia
    have hne : i ≠ NON_INDEX :=
      h.linked.ne_nil (mem_append_right _ (.head _))
    have hnext : s.list.next i = rest.head?.getD NON_INDEX := h.linked.next_eq
    have hlength : rest.length < fuel := Nat.lt_of_succ_lt_succ hfuel
    rw [walk, if_neg hne]
    cases hvisit : visit (s.rule i) with
    | expire =>
      obtain ⟨s', visited, tail, idle', hwalk, hsplit, hlists, hwalked⟩ :=
        ih h.setEntryIdle hnext hlength
      have hkept : kept visit s (i :: visited) = kept visit s visited := by
        simp [kept, hvisit]
      have hsame : SameRules s s' := ⟨hwalked.same.rule, hwalked.same.tcp, hwalked.same.udp⟩
      refine ⟨s', i :: visited, tail, idle', hwalk, by rw [hsplit]; rfl, ?_, hsame,
        forall_mem_cons.mpr ⟨by simp [hvisit], hwalked.passed⟩, hwalked.found⟩
      rw [hkept]
      exact hlists
    | skip =>
      have hlists : Lists s ((before ++ [i]) ++ rest) idle := by
        rw [append_assoc]
        exact h
      obtain ⟨s', visited, tail, idle', hwalk, hsplit, hlists, hwalked⟩ :=
        ih hlists hnext hlength
      have hkept : kept visit s (i :: visited) = i :: kept visit s visited := by
        simp [kept, hvisit]
      refine ⟨s', i :: visited, tail, idle', hwalk, by rw [hsplit]; rfl, ?_, hwalked.same,
        forall_mem_cons.mpr ⟨by simp [hvisit], hwalked.passed⟩, hwalked.found⟩
      rw [hkept]
      rw [append_assoc] at hlists
      exact hlists
    | found =>
      refine ⟨s, [], i :: rest, idle, rfl, rfl, h, ⟨rfl, rfl, rfl⟩, forall_mem_nil _, ?_⟩
      rintro _ ⟨⟩
      exact hvisit

/-! ### The operations of the table -/

/-- The lists are in order. -/
def ListsOk (s : State) : Prop := ∃ active idle, Lists s active idle

theorem chain_clearedLinks (n k : Nat) (h : k + n = IP_NAT_MAX) :
    Chain NON_INDEX clearedLinks.next (if k < IP_NAT_MAX then UInt16.ofNat k else NON_INDEX)
      ((List.range' k n).map UInt16.ofNat) := by
  induction n generalizing k with
  | zero =>
    rw [if_neg (by omega)]
    rfl
  | succ n ih =>
    have hmax : IP_NAT_MAX = 256 := rfl
    have hk : k < IP_NAT_MAX := by omega
    have htoNat : (UInt16.ofNat k).toNat = k := by
      exact Nat.mod_eq_of_lt (by omega)
    have hne : UInt16.ofNat k ≠ NON_INDEX := by
      intro heq
      rw [heq] at htoNat
      have hlast : NON_INDEX.toNat = 65535 := rfl
      omega
    have hnext : clearedLinks.next (UInt16.ofNat k) =
        if k + 1 < IP_NAT_MAX then UInt16.ofNat (k + 1) else NON_INDEX := by
      simp only [clearedLinks]
      by_cases hlast : k + 1 < IP_NAT_MAX
      · rw [if_pos (by omega), if_pos hlast, UInt16.ofNat_add]
        rfl
      · rw [if_neg (by omega), if_neg hlast]
    rw [if_pos hk]
    refine ⟨rfl, hne, ?_⟩
    rw [hnext]
    exact ih (k + 1) (by omega)

theorem lists_cleared (s : State) : Lists ( ipNatReinitialize s) [] indices := by
  have hchain : Chain NON_INDEX clearedLinks.next 0 indices := by
    have hall := chain_clearedLinks IP_NAT_MAX 0 (Nat.zero_add _)
    rw [← range_eq_range'] at hall
    exact hall
  exact ⟨⟨rfl, rfl⟩, hchain, List.Perm.refl _, rfl, rfl, rfl⟩

def follow (next : UInt16 → UInt16) : Nat → UInt16 → List UInt16
  | 0, _ => []
  | fuel + 1, i => if i = NON_INDEX then [] else i :: follow next fuel (next i)

def State.active (s : State) : List UInt16 := follow s.list.next IP_NAT_MAX s.list.head

theorem follow_eq {next : UInt16 → UInt16} (h : Chain NON_INDEX next i l)
    (hfuel : l.length ≤ fuel) : follow next fuel i = l := by
  induction l generalizing i fuel with
  | nil =>
    have hnil : i = NON_INDEX := h
    cases fuel with
    | zero => rfl
    | succ fuel => rw [follow, if_pos hnil]
  | cons a rest ih =>
    obtain ⟨rfl, hne, hrest⟩ := h
    cases fuel with
    | zero => exact absurd hfuel (Nat.not_succ_le_zero _)
    | succ fuel => rw [follow, if_neg hne, ih hrest (Nat.le_of_succ_le_succ hfuel)]

theorem Lists.active_eq (h : Lists s active idle) :
    s.active = active := follow_eq h.linked.forward h.length_le

def Ends {α : Type} (r : Option α) (post : α → Prop) : Prop := ∃ a, r = some a ∧ post a

theorem Ends.bind {α β : Type} {r : Option α} {f : α → Option β} {mid : α → Prop}
    {post : β → Prop} (h : Ends r mid) (hf : ∀ a, mid a → Ends (f a) post) :
      Ends (r >>= f) post := by
  obtain ⟨a, rfl, ha⟩ := h
  exact hf a ha

theorem ends_some {α : Type} {a : α} {post : α → Prop} (h : post a) : Ends (some a) post :=
  ⟨a, rfl, h⟩

theorem Ends.map {α β : Type} {r : Option α} {f : α → β} {post : β → Prop}
    (h : Ends r fun a => post (f a)) : Ends (r.map f) post := by
  obtain ⟨a, rfl, ha⟩ := h
  exact ⟨f a, rfl, ha⟩

theorem Ends.mono {α : Type} {r : Option α} {post post' : α → Prop} (h : Ends r post)
    (himp : ∀ a, post a → post' a) : Ends r post' := by
  obtain ⟨a, hr, ha⟩ := h
  exact ⟨a, hr, himp a ha⟩

section

theorem walk_head (visit : Rule → Visit) (h : Lists s active idle) :
    ∃ s' visited rest idle', walk visit (IP_NAT_MAX + 1) s.list.head s = some (s', rest.head?) ∧
      active = visited ++ rest ∧ Lists s' (kept visit s visited ++ rest) idle' ∧
      Walked visit s s' visited rest :=
  @walk_spec visit s [] active idle _ _ h h.linked.forward.head_eq (Nat.lt_succ_of_le h.length_le)

structure Searched (s : State) (now : UInt32) (q : Query) (active : List UInt16) (s' : State)
    (entry : Option UInt16) (visited rest idle' : List UInt16) : Prop where
  split : active = visited ++ rest
  entry_eq : entry = rest.head?
  lists : Lists s'
    (kept (searchVisit s.ipNatTcpMaxTimeout s.ipNatUdpMaxTimeout now q) s visited ++ rest) idle'
  rule : s'.rule = (s.touchFound now entry).rule
  tcp : s'.ipNatTcpMaxTimeout = s.ipNatTcpMaxTimeout
  udp : s'.ipNatUdpMaxTimeout = s.ipNatUdpMaxTimeout
  passed : ∀ i ∈ visited,
    searchVisit s.ipNatTcpMaxTimeout s.ipNatUdpMaxTimeout now q (s.rule i) ≠ .found
  found : ∀ i, entry = some i →
    searchVisit s.ipNatTcpMaxTimeout s.ipNatUdpMaxTimeout now q (s.rule i) = .found

theorem Lists.touchFound (h : Lists s active idle) (entry : Option UInt16) :
    Lists (s.touchFound now entry) active idle := by
  cases entry with
  | none => exact h
  | some i => exact h.modify fun _ => rfl

theorem ipNatEntrySearch_spec (h : Lists s active idle) :
    Ends (ipNatEntrySearch s now q) fun r =>
      ∃ visited rest idle', Searched s now q active r.1 r.2 visited rest idle' := by
  obtain ⟨s', visited, rest, idle', hwalk, hsplit, hlists, hwalked⟩ :=
    walk_head (searchVisit s.ipNatTcpMaxTimeout s.ipNatUdpMaxTimeout now q) h
  refine ⟨(s'.touchFound now rest.head?, rest.head?), ?_, visited, rest, idle', hsplit, rfl,
    hlists.touchFound _, ?_, ?_, ?_, hwalked.passed, hwalked.found⟩
  · unfold ipNatEntrySearch
    rw [hwalk]
    rfl
  · cases rest.head? with
    | none => exact hwalked.same.rule
    | some i =>
      change update s'.rule i (Rule.touch now (s'.rule i)) = _
      rw [hwalked.same.rule]
      rfl
  · cases rest.head? with
    | none => exact hwalked.same.tcp
    | some i => exact hwalked.same.tcp
  · cases rest.head? with
    | none => exact hwalked.same.udp
    | some i => exact hwalked.same.udp

theorem Searched.mem {entry : Option UInt16} {visited rest idle' : List UInt16} {i : UInt16}
    (h : Searched s now q active s' entry visited rest idle') (hentry : entry = some i) :
    i ∈ rest := by
  rw [h.entry_eq] at hentry
  exact mem_of_head? hentry

def FoundOk (r : State × Option UInt16) : Prop :=
  ∃ active idle, Lists r.1 active idle ∧ ∀ i, r.2 = some i → i ∈ active

theorem ListsOk.search (h : ListsOk s) (now : UInt32) (q : Query) :
    Ends (ipNatEntrySearch s now q) FoundOk := by
  obtain ⟨active, idle, h⟩ := h
  refine (ipNatEntrySearch_spec h).mono ?_
  rintro ⟨s', entry⟩ ⟨visited, rest, idle', hsearched⟩
  exact ⟨_, _, hsearched.lists, fun i hi => mem_append_right _ (hsearched.mem hi)⟩

theorem ListsOk.filter (h : ListsOk s) (now threshold : UInt32) :
    Ends (filterOldNatEntry s now threshold) ListsOk := by
  obtain ⟨active, idle, h⟩ := h
  obtain ⟨s', visited, rest, idle', hwalk, _, hlists, _⟩ := walk_head (filterVisit now threshold) h
  refine ⟨s', ?_, _, _, hlists⟩
  unfold filterOldNatEntry
  rw [hwalk]
  rfl

theorem FoundOk.modify {i : UInt16} {f : Rule → Rule} (h : FoundOk (s, some i))
    (hproto : ∀ e, (f e).proto = e.proto) : FoundOk (s.modify i f, some i) := by
  obtain ⟨active, idle, hlists, hmem⟩ := h
  exact ⟨active, idle, hlists.modify fun _ => hproto _, hmem⟩

theorem FoundOk.renew (h : FoundOk (s, some i)) : ListsOk (s.renewEntry i f) := by
  obtain ⟨active, idle, hlists, hmem⟩ := h
  obtain ⟨l₁, l₂, rfl⟩ := append_of_mem (hmem i rfl)
  exact ⟨_, _, hlists.renewEntry⟩

theorem FoundOk.lists {entry : Option UInt16} (h : FoundOk (s, entry)) : ListsOk s := by
  obtain ⟨active, idle, hlists, _⟩ := h
  exact ⟨active, idle, hlists⟩

theorem Lists.fresh {f : Rule → Rule} (h : Lists s active idle)
    (hidle : s.natEntryIdle ≠ NON_INDEX) :
    ∃ rest, idle = s.natEntryIdle :: rest ∧
      Lists (ipNatInsertNewRule (s.modify s.natEntryIdle f) s.natEntryIdle)
        (s.natEntryIdle :: active) rest := by
  cases idle with
  | nil => exact absurd h.unused hidle
  | cons t rest =>
    have ht : s.natEntryIdle = t := h.unused.1
    rw [ht]
    refine ⟨rest, rfl, (h.modify fun hactive => ?_).insertNewRule⟩
    exact absurd (.head _) (h.not_mem_idle hactive)

theorem ListsOk.dropOld (h : ListsOk s) (now : UInt32) : Ends (s.dropOld now) ListsOk := by
  unfold State.dropOld
  split
  · exact h.filter now _
  · exact ends_some h

theorem ListsOk.addEntry (h : ListsOk s) (now : UInt32) (proto : UInt8) (src : UInt32)
    (sport : UInt16) (dest : UInt32) (dport : UInt16) (appUse : UInt32) :
    Ends (ipNatAddEntry s now proto src sport dest dport appUse) fun r => ListsOk r.1 := by
  refine (h.dropOld now).bind fun s hs => (hs.search now _).bind ?_
  rintro ⟨s, entry⟩ hfound
  cases entry with
  | some i =>
    refine ends_some (FoundOk.renew ?_)
    exact hfound.modify fun _ => rfl
  | none =>
    dsimp only
    split
    · rename_i hidle
      obtain ⟨active, idle, hlists, _⟩ := hfound
      obtain ⟨rest, _, hfresh⟩ := hlists.fresh hidle
      exact ends_some ⟨_, _, hfresh⟩
    · exact (hfound.lists.filter now _).bind fun s hs => ends_some hs

end

end AmebaRtos.IpNat
