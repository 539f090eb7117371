import AmebaRtos.Lib.Run

/-!
# Connecting again after a connection is lost

`rtw_reconn` keeps the parameters of the last connect of the application. A failed join or a
lost connection starts a timer, whose handler creates a task that connects with them.
-/

namespace AmebaRtos.Wifi

open Lib

def RTW_JOINSTATUS_FAIL : Nat := 10
def RTW_JOINSTATUS_DISCONNECT : Nat := 11
def RTW_DISCONN_RSN_APP_CONN_WITHOUT_DISCONN : Nat := 60102

/-- `struct rtw_network_info`. `fields` are those that are only copied, and `password` is what
    its pointer refers to. -/
structure NetworkInfo where
  fields : List UInt8
  channel : UInt8
  pscanOption : UInt8
  passwordLen : Int
  password : Option (List UInt8)
deriving DecidableEq

/-- The settings of `rtw_reconn` and `wifi_user_config`. -/
structure ReconnConfig where
  enable : Bool
  infinite : Bool
  eapMethod : UInt8
  autoReconnectCount : UInt8

/-- `struct rtw_auto_reconn_t`, whether its timer runs and the tasks that have not connected yet.
    `app` is the last connect of the application, unless it has stopped since, and `wrong` whether a
    task has connected otherwise. -/
structure Reconn where
  connParam : NetworkInfo
  pwdBuf : Bool
  timer : Bool
  cnt : UInt8
  waiting : Bool
  disconnByApp : Bool
  tasks : Nat
  app : Option NetworkInfo
  wrong : Bool

inductive ReconnEvent where
  | connect (connectParam : NetworkInfo)
  | dhcpStatus (assigned : Bool)
  | joinStatus (status disconnReason : Nat)
  | timer (created : Bool)
  | task
  | stop

/-- The parameters of a connect as they are kept, with a copy of the password. -/
def NetworkInfo.kept (p : NetworkInfo) : NetworkInfo :=
  { p with
    channel := 0, pscanOption := 0
    password := if p.passwordLen ≠ 0 then
      p.password.map (·.take p.passwordLen.toNat) else none }

def Reconn.Intact (s : Reconn) : Prop := s.app.map NetworkInfo.kept = some s.connParam
deriving Decidable

def freePwd (s : Reconn) : Reconn :=
  { s with
    connParam.password := if s.pwdBuf then none else s.connParam.password
    pwdBuf := false }

section Steps

variable (cfg : ReconnConfig)

/-- What `rtw_reconn_timer_start` asks before it counts. -/
def Reconn.Counts (s : Reconn) : Prop :=
  cfg.enable ∧ ¬ s.disconnByApp ∧ cfg.eapMethod = 0 ∧ ¬ s.waiting
deriving Decidable

def Reconn.nextCnt (s : Reconn) : UInt8 := if cfg.infinite then 0 else s.cnt + 1

def rtwReconnTimerStart (s : Reconn) : Reconn :=
  if s.Counts cfg then
    if s.nextCnt cfg > cfg.autoReconnectCount then freePwd { s with cnt := s.nextCnt cfg }
    else { s with cnt := s.nextCnt cfg, waiting := true, timer := true }
  else s

def rtwReconnNewConn (s : Reconn) (connectParam : NetworkInfo) : Reconn :=
  if cfg.enable then
    { s with
      connParam := connectParam.kept, pwdBuf := s.pwdBuf || connectParam.passwordLen != 0
      timer := false, waiting := false, cnt := 0, disconnByApp := false }
  else s

def wifiStopAutoreconnect (s : Reconn) : Reconn :=
  if cfg.enable then
    freePwd { s with timer := false, waiting := false, cnt := 0, disconnByApp := true }
  else s

/-- Whether a join event starts the timer. -/
def JoinLost (status disconnReason : Nat) : Prop :=
  ¬ (status < RTW_JOINSTATUS_FAIL ∨ status = RTW_JOINSTATUS_DISCONNECT ∧
    disconnReason = RTW_DISCONN_RSN_APP_CONN_WITHOUT_DISCONN)
deriving Decidable

def Reconn.step (s : Reconn) : ReconnEvent → Reconn
  | .connect p => { rtwReconnNewConn cfg s p with app := some p }
  | .dhcpStatus assigned => if assigned then { s with cnt := 0 } else rtwReconnTimerStart cfg s
  | .joinStatus status reason => if JoinLost status reason then rtwReconnTimerStart cfg s else s
  | .timer created =>
    if s.timer then
      { s with timer := false, waiting := false, tasks := s.tasks + created.toNat }
    else s
  | .task =>
    if s.tasks ≠ 0 then
      { s with tasks := s.tasks - 1, wrong := s.wrong || !decide s.Intact }
    else s
  | .stop => { wifiStopAutoreconnect cfg s with app := none }

def Reconn.init : Reconn := ⟨⟨[], 0, 0, 0, none⟩, false, false, 0, false, false, 0, none, false⟩

/-- The password is not freed while a task is to use it, and no timer is started without it. -/
def StartAllowed (s : Reconn) : Prop :=
  s.Counts cfg → if s.nextCnt cfg > cfg.autoReconnectCount then s.tasks = 0 else s.Intact

def Allowed (s : Reconn) : ReconnEvent → Prop
  | .dhcpStatus assigned => assigned = false → StartAllowed cfg s
  | .joinStatus status reason => JoinLost status reason → StartAllowed cfg s
  | .stop => s.tasks = 0
  | _ => True

/-- A reconnect on its way has the parameters it is to use. -/
structure Reconn.Ready (s : Reconn) : Prop where
  waiting : s.timer → s.waiting
  intact : s.timer ∨ s.tasks ≠ 0 → cfg.enable ∧ s.Intact
  right : s.wrong = false

/-- The event neither stops the reconnects nor gives them up. -/
def Reconn.Keeps (s : Reconn) : ReconnEvent → Prop
  | .connect _ => cfg.enable = true
  | .dhcpStatus false => ¬ (s.Counts cfg ∧ s.nextCnt cfg > cfg.autoReconnectCount)
  | .joinStatus .. => ¬ (s.Counts cfg ∧ s.nextCnt cfg > cfg.autoReconnectCount)
  | .stop => False
  | _ => True

end Steps

theorem intact_timerStart (h : s.Intact)
    (hkeeps : ¬ (s.Counts cfg ∧ s.nextCnt cfg > cfg.autoReconnectCount)) :
    (rtwReconnTimerStart cfg s).Intact := by
  rw [rtwReconnTimerStart]
  split <;> rename_i hcounts
  · rw [if_neg (fun hcnt => hkeeps ⟨hcounts, hcnt⟩)]
    exact h
  · exact h

theorem intact_connect (henable : cfg.enable = true) (s : Reconn) (p : NetworkInfo) :
    (s.step cfg (.connect p)).Intact := by
  rw [Reconn.step, rtwReconnNewConn, if_pos henable]
  rfl

theorem Reconn.Intact.step (h : Reconn.Intact s) (hkeeps : Reconn.Keeps cfg s e) :
    (s.step cfg e).Intact := by
  cases e with
  | connect p => exact intact_connect hkeeps s p
  | dhcpStatus assigned =>
    cases assigned with
    | true => exact h
    | false => exact intact_timerStart h hkeeps
  | joinStatus status reason =>
    rw [Reconn.step]
    split
    · exact intact_timerStart h hkeeps
    · exact h
  | timer created =>
    rw [Reconn.step]
    split <;> exact h
  | task =>
    rw [Reconn.step]
    split <;> exact h
  | stop => exact hkeeps.elim

/-- The parameters are intact from a connect until the reconnects are stopped or given up. -/
theorem intact_since_connect (henable : cfg.enable = true) (s : Reconn) (p : NetworkInfo)
    (hkeeps : Along (Reconn.step cfg) (Reconn.Keeps cfg) (s.step cfg (.connect p)) events) :
    Throughout (Reconn.step cfg) Reconn.Intact (s.step cfg (.connect p)) events :=
  hkeeps.throughout (fun _ _ hs he => hs.step he) (intact_connect henable s p)

theorem ready_timerStart (h : s.Ready cfg) (hstart : StartAllowed cfg s) :
    (rtwReconnTimerStart cfg s).Ready cfg := by
  rw [rtwReconnTimerStart]
  split <;> rename_i hcounts
  · have hstart := hstart hcounts
    split <;> rename_i hcnt
    · rw [if_pos hcnt] at hstart
      have htimer : ¬ s.timer := fun ht => hcounts.2.2.2 (h.waiting ht)
      have hidle : ¬ (s.timer ∨ s.tasks ≠ 0) := by simp [htimer, hstart]
      exact ⟨h.waiting, fun hbusy => absurd hbusy hidle, h.right⟩
    · rw [if_neg hcnt] at hstart
      exact ⟨fun _ => rfl, fun _ => ⟨hcounts.1, hstart⟩, h.right⟩
  · exact h

theorem Reconn.Ready.step (h : Reconn.Ready cfg s) (hallowed : Allowed cfg s e) :
    (s.step cfg e).Ready cfg := by
  cases e with
  | connect p =>
    rw [Reconn.step, rtwReconnNewConn]
    split <;> rename_i henable
    · exact ⟨Bool.noConfusion, fun _ => ⟨henable, rfl⟩, h.right⟩
    · exact ⟨h.waiting, fun hbusy => absurd (h.intact hbusy).1 henable, h.right⟩
  | dhcpStatus assigned =>
    rw [Reconn.step]
    split <;> rename_i hassigned
    · exact ⟨h.waiting, h.intact, h.right⟩
    · exact ready_timerStart h (hallowed (by simpa using hassigned))
  | joinStatus status reason =>
    rw [Reconn.step]
    split <;> rename_i hlost
    · exact ready_timerStart h (hallowed hlost)
    · exact h
  | timer created =>
    rw [Reconn.step]
    split <;> rename_i htimer
    · exact ⟨Bool.noConfusion, fun _ => h.intact (.inl htimer), h.right⟩
    · exact h
  | task =>
    rw [Reconn.step]
    split <;> rename_i htasks
    · have hready := h.intact (.inr htasks)
      exact ⟨h.waiting, fun _ => hready, by simp [h.right, hready.2]⟩
    · exact h
  | stop =>
    rw [Reconn.step, wifiStopAutoreconnect]
    split <;> rename_i henable
    · have hidle : ¬ (false = true ∨ s.tasks ≠ 0) := by simp [show s.tasks = 0 from hallowed]
      exact ⟨Bool.noConfusion, fun hbusy => absurd hbusy hidle, h.right⟩
    · exact ⟨h.waiting, fun hbusy => absurd (h.intact hbusy).1 henable, h.right⟩

/-- **Every reconnect is with the parameters of the last connect**, and none follows a stop, in each
    run that frees no password a task is to use and starts no timer behind one that was freed. -/
theorem reconnects_as_asked (cfg : ReconnConfig) (events : List ReconnEvent)
    (h : Along (Reconn.step cfg) (Allowed cfg) Reconn.init events) :
    Throughout (Reconn.step cfg) (fun s => s.wrong = false) Reconn.init events := by
  have hready : Throughout _ (Reconn.Ready cfg) _ _ := h.throughout (fun s e hs he => hs.step he)
    ⟨Bool.noConfusion, by simp [Reconn.init], rfl⟩
  exact hready.mono fun s hs => hs.right

theorem reconnects_once_asked :
    Throughout (Reconn.step ⟨true, false, 0, 3⟩) (fun s => s.wrong = false) Reconn.init
      [.connect ⟨[1], 6, 0, 1, some [97]⟩, .joinStatus 10 0, .timer true, .task] := by
  refine reconnects_as_asked _ _ ⟨trivial, fun _ _ => ?_, trivial, trivial, trivial⟩
  decide

/-- A task created before the application stops connects behind the stop, without a password. -/
theorem reconnects_after_stop :
    ([.connect ⟨[1], 6, 0, 1, some [97]⟩, .joinStatus 10 0, .timer true, .stop, .task].foldl
      (Reconn.step ⟨true, false, 0, 3⟩) Reconn.init).wrong = true := by
  decide

end AmebaRtos.Wifi
