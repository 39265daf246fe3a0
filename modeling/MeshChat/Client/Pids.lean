import MeshChat.Client.Spawn

/-!
# Which client gets which PID

A call that returns has the PIDs of its own two windows as long as each of its
blocking receives finds a report of one of its own processes. Calls that never
overlap are like that; overlapping calls can take each other's reports.
-/
namespace MeshChat.Client
open Server Runs

namespace Host

/-- The call has spawned this process: its sender or its receiver. -/
def Owns (s : Host) (call : SpawnCall) (isSender : Bool) (pid : ℕ) : Prop :=
  ∃ p, s.procs call isSender = some p ∧ p.pid = pid

end Host

/-- A session that a call returned 0 for has the PIDs of the windows that this
very call spawned, and closing any session kills only those. -/
def WindowOk (s : Host) (c : ℕ) (w : Window) : Prop :=
  (w.ret = 0 → ∀ isSender, s.Owns (c, w.call) isSender (w.session.pid isSender)) ∧
  ∀ pid ∈ w.session.close, ∃ isSender, s.Owns (c, w.call) isSender pid

def PidsAttributed (s : Host) : Prop := ∀ c, ∀ w ∈ (s.clients c).windows, WindowOk s c w

/-- A blocking receive finds at the head of the queue a report of a process that
its own call spawned. -/
def FindsOwn (s : Host) : HostEvent → Prop
  | .receive c => ∀ msg ∈ s.queue.head?, msg.origin = some (c, (s.clients c).calls)
  | _ => True

/-- No client enters the function while another client is inside it. -/
def EntersAlone (s : Host) : HostEvent → Prop
  | .enter c .. => ∀ c', c' ≠ c → (s.clients c').inCall = none
  | _ => True

def IpcPidMessage.sender (msg : IpcPidMessage) : Option (SpawnCall × Bool) :=
  msg.origin.map fun call => (call, msg.isSender)

namespace Host

/-- The processes of this run whose reports are in the queue. -/
def pending (s : Host) : List (SpawnCall × Bool) := s.queue.filterMap IpcPidMessage.sender

/-- The process has reported, and its report is no longer in the queue. -/
def Taken (s : Host) (call : SpawnCall) (isSender : Bool) : Prop :=
  (∃ p, s.procs call isSender = some p ∧ p.reported = true) ∧ (call, isSender) ∉ s.pending

structure QueueOk (s : Host) : Prop where
  sound : ∀ msg ∈ s.queue, ∀ call, msg.origin = some call →
    ∃ p, s.procs call msg.isSender = some p ∧ p.pid = msg.processPid ∧ p.reported = true
  once : s.pending.Nodup

end Host

theorem Host.QueueOk.reported_of_pending {s : Host} (h : s.QueueOk) {call : SpawnCall}
    {isSender : Bool} (hmem : (call, isSender) ∈ s.pending) :
    ∃ p, s.procs call isSender = some p ∧ p.reported = true := by
  obtain ⟨msg, hmsg, hsender⟩ := List.mem_filterMap.mp hmem
  simp only [IpcPidMessage.sender, Option.map_eq_some_iff, Prod.mk.injEq] at hsender
  obtain ⟨k, hk, rfl, rfl⟩ := hsender
  obtain ⟨p, hp, -, hrep⟩ := h.sound msg hmsg k hk
  exact ⟨p, hp, hrep⟩

/-- What the stages of the call in progress know about its processes. -/
def StageOk (s : Host) (call : SpawnCall) (session : GroupSession) : Stage → Prop
  | .flush | .spawnReceiver => ∀ isSender, s.procs call isSender = none
  | .spawnSender => s.procs call true = none
  | .wait 0 => True
  | .wait 1 => ∃ isSender, s.Taken call isSender ∧ s.Owns call isSender (session.pid isSender)
  | .wait _ => False

structure ClientOk (s : Host) (c : ℕ) : Prop where
  absent : ∀ n, (s.clients c).calls < n → ∀ isSender, s.procs (c, n) isSender = none
  windows : ∀ w ∈ (s.clients c).windows, WindowOk s c w
  stage : ∀ stage session, (s.clients c).inCall = some (stage, session) →
    StageOk s (c, (s.clients c).calls) session stage

structure HostOk (s : Host) : Prop where
  queue : s.QueueOk
  clients : ∀ c, ClientOk s c

/-- What a step keeps of a client that does not take it: processes stay, reports
that are gone stay gone, and no process of the client appears. -/
structure Frame (s t : Host) (c : ℕ) : Prop where
  client : t.clients c = s.clients c
  owns : ∀ call isSender pid, s.Owns call isSender pid → t.Owns call isSender pid
  taken : ∀ call isSender, s.Taken call isSender → t.Taken call isSender
  absent : ∀ n isSender, s.procs (c, n) isSender = none → t.procs (c, n) isSender = none

theorem WindowOk.mono {s t : Host} {c : ℕ} {w : Window} (h : WindowOk s c w)
    (howns : ∀ call isSender pid, s.Owns call isSender pid → t.Owns call isSender pid) :
    WindowOk t c w := by
  refine ⟨fun hret isSender => howns _ _ _ (h.1 hret isSender), fun pid hpid => ?_⟩
  obtain ⟨isSender, ho⟩ := h.2 pid hpid
  exact ⟨isSender, howns _ _ _ ho⟩

theorem ClientOk.frame {s t : Host} {c : ℕ} (h : ClientOk s c) (hf : Frame s t c) :
    ClientOk t c := by
  refine ⟨?_, ?_, ?_⟩
  · rw [hf.client]
    exact fun n hn isSender => hf.absent n isSender (h.absent n hn isSender)
  · rw [hf.client]
    exact fun w hw => (h.windows w hw).mono hf.owns
  · rw [hf.client]
    intro stage session hin
    have hstage := h.stage stage session hin
    match stage with
    | .flush | .spawnReceiver => exact fun isSender => hf.absent _ _ (hstage isSender)
    | .spawnSender => exact hf.absent _ _ hstage
    | .wait 0 => trivial
    | .wait 1 =>
      obtain ⟨isSender, htaken, howns⟩ := hstage
      exact ⟨isSender, hf.taken _ _ htaken, hf.owns _ _ _ howns⟩

/-- Messages leave the queue and processes stay as they are. -/
theorem frame_of_suffix {s t : Host} {c : ℕ} (hc : t.clients c = s.clients c)
    (hp : t.procs = s.procs) (hq : t.queue <:+ s.queue) : Frame s t c := by
  refine ⟨hc, ?_, ?_, ?_⟩
  · simp only [Host.Owns, hp, imp_self, implies_true]
  · intro call isSender h
    have hsub := (hq.sublist.filterMap IpcPidMessage.sender).subset
    exact ⟨by rw [hp]; exact h.1, fun hm => h.2 (hsub hm)⟩
  · simp only [hp, imp_self, implies_true]

theorem queueOk_of_suffix {s t : Host} (h : s.QueueOk) (hp : t.procs = s.procs)
    (hq : t.queue <:+ s.queue) : t.QueueOk := by
  refine ⟨fun msg hmsg => ?_, h.once.sublist (hq.sublist.filterMap _)⟩
  rw [hp]
  exact h.sound msg (hq.subset hmsg)

/-- A process appears, or reports: its PID stays what it was. -/
theorem owns_setProc {s : Host} {call : SpawnCall} {isSender : Bool} {p : ChatProcess}
    (hp : ∀ q, s.procs call isSender = some q → q.pid = p.pid) (call' : SpawnCall)
    (isSender' : Bool) (pid : ℕ) (h : s.Owns call' isSender' pid) :
    (s.setProc call isSender p).Owns call' isSender' pid := by
  obtain ⟨q, hq, rfl⟩ := h
  by_cases hkey : (call', isSender') = (call, isSender)
  · obtain ⟨rfl, rfl⟩ := Prod.mk.inj hkey
    exact ⟨p, s.setProc_self .., (hp q hq).symm⟩
  · exact ⟨q, by rw [s.setProc_of_ne hkey]; exact hq, rfl⟩

section Spawn
variable {s : Host} {call : SpawnCall} {isSender : Bool} {p : ChatProcess}
  (habs : s.procs call isSender = none)
include habs

/-- A process that has reported is not the new one. -/
theorem ne_of_absent {call' : SpawnCall} {isSender' : Bool} {q : ChatProcess}
    (hq : s.procs call' isSender' = some q) : (call', isSender') ≠ (call, isSender) := by
  intro hkey
  obtain ⟨rfl, rfl⟩ := Prod.mk.inj hkey
  rw [habs] at hq
  contradiction

theorem taken_spawn {call' : SpawnCall} {isSender' : Bool} (h : s.Taken call' isSender') :
    (s.setProc call isSender p).Taken call' isSender' := by
  obtain ⟨⟨q, hq, hrep⟩, hpending⟩ := h
  exact ⟨⟨q, by rw [s.setProc_of_ne (ne_of_absent habs hq)]; exact hq, hrep⟩, hpending⟩

theorem queueOk_spawn (h : s.QueueOk) : (s.setProc call isSender p).QueueOk := by
  refine ⟨fun msg hmsg k hk => ?_, h.once⟩
  obtain ⟨q, hq, hrest⟩ := h.sound msg hmsg k hk
  exact ⟨q, by rw [s.setProc_of_ne (ne_of_absent habs hq)]; exact hq, hrest⟩

theorem frame_spawn {c : ℕ} (hc : c ≠ call.1) : Frame s (s.setProc call isSender p) c := by
  refine ⟨rfl, owns_setProc (fun q hq => ?_), fun _ _ => taken_spawn habs, fun n r hn => ?_⟩
  · rw [habs] at hq
    contradiction
  · rw [s.setProc_of_ne fun hkey => hc (congrArg (·.1.1) hkey)]
    exact hn

end Spawn

section Report
variable {s : Host} {call : SpawnCall} {isSender : Bool} {p : ChatProcess}

theorem reported_pending : (s.reported call isSender p).pending = s.pending ++ [(call, isSender)] := by
  simp [Host.pending, Host.reported, IpcPidMessage.sender]

variable (hp : s.procs call isSender = some p) (hrep : p.reported = false)
include hp

theorem frame_report (hrep : p.reported = false) (c : ℕ) :
    Frame s (s.reported call isSender p) c := by
  refine ⟨rfl, owns_setProc fun q hq => ?_, ?_, fun n r hn => ?_⟩
  · rw [hp] at hq
    rw [← Option.some.inj hq]
  · rintro call' isSender' ⟨⟨q, hq, hqrep⟩, hpending⟩
    have hkey : (call', isSender') ≠ (call, isSender) := by
      intro hkey
      obtain ⟨rfl, rfl⟩ := Prod.mk.inj hkey
      rw [hp, Option.some.injEq] at hq
      rw [← hq, hrep] at hqrep
      contradiction
    refine ⟨⟨q, ?_, hqrep⟩, ?_⟩
    · exact (s.setProc_of_ne hkey _).trans hq
    · rw [reported_pending, List.mem_append, List.mem_singleton, not_or]
      exact ⟨hpending, hkey⟩
  · have hkey : ((c, n), r) ≠ (call, isSender) := by
      intro hkey
      obtain ⟨rfl, rfl⟩ := Prod.mk.inj hkey
      rw [hp] at hn
      contradiction
    exact (s.setProc_of_ne hkey _).trans hn

theorem queueOk_report (hrep : p.reported = false) (h : s.QueueOk) :
    (s.reported call isSender p).QueueOk := by
  have hpending : (call, isSender) ∉ s.pending := by
    intro hmem
    obtain ⟨q, hq, hqrep⟩ := h.reported_of_pending hmem
    rw [hp, Option.some.injEq] at hq
    rw [← hq, hrep] at hqrep
    contradiction
  refine ⟨fun msg hmsg k hk => ?_, ?_⟩
  · rcases List.mem_append.mp hmsg with hmsg | hmsg
    · obtain ⟨q, hq, hpid, hqrep⟩ := h.sound msg hmsg k hk
      have hkey : (k, msg.isSender) ≠ (call, isSender) := by
        intro hkey
        exact hpending (hkey ▸ List.mem_filterMap.mpr ⟨msg, hmsg, by
          simp [IpcPidMessage.sender, hk]⟩)
      exact ⟨q, (s.setProc_of_ne hkey _).trans hq, hpid, hqrep⟩
    · obtain rfl := List.mem_singleton.mp hmsg
      obtain rfl := Option.some.inj hk
      exact ⟨_, s.setProc_self .., rfl, rfl⟩
  · rw [reported_pending]
    exact List.nodup_append.mpr ⟨h.once, List.nodup_singleton _, by
      rintro x hx _ hy rfl
      exact hpending (List.mem_singleton.mp hy ▸ hx)⟩

end Report

theorem windowOk_of_owns {s : Host} {c call : ℕ} {session : GroupSession} {ret : Int}
    (h : ∀ isSender, s.Owns (c, call) isSender (session.pid isSender)) :
    WindowOk s c ⟨session, call, ret⟩ := by
  refine ⟨fun _ => h, fun pid hpid => ?_⟩
  obtain ⟨-, isSender, rfl⟩ := GroupSession.mem_close.mp hpid
  exact ⟨isSender, h isSender⟩

/-- A session without windows closes nothing. -/
theorem windowOk_opened (s : Host) (c call : ℕ) (name ip : CStr) (port : UInt16) :
    WindowOk s c ⟨.opened name ip port, call, -1⟩ := by
  refine ⟨nofun, fun pid hpid => ?_⟩
  obtain ⟨hpos, isSender, hzero⟩ := GroupSession.mem_close.mp hpid
  rw [GroupSession.opened_pid] at hzero
  omega

/-- A step of one client: the others are framed. -/
theorem HostOk.of_actor {s t : Host} (h : HostOk s) (c : ℕ) (hq : t.QueueOk) (hc : ClientOk t c)
    (hf : ∀ c', c' ≠ c → Frame s t c') : HostOk t := by
  refine ⟨hq, fun c' => ?_⟩
  by_cases hcc : c' = c
  · exact hcc ▸ hc
  · exact (h.clients c').frame (hf c' hcc)

/-- The client takes a step that no process and no message takes part in. -/
theorem HostOk.setClient {s : Host} (h : HostOk s) {c : ℕ} {cl : WindowClient}
    (hcalls : (s.clients c).calls ≤ cl.calls) (hwindows : ∀ w ∈ cl.windows, WindowOk s c w)
    (hstage : ∀ stage session, cl.inCall = some (stage, session) →
      StageOk s (c, cl.calls) session stage) : HostOk (s.setClient c cl) := by
  refine h.of_actor c (queueOk_of_suffix h.queue rfl List.suffix_rfl) ⟨?_, ?_, ?_⟩
    fun c' hc' => frame_of_suffix (s.setClient_of_ne hc' cl) rfl List.suffix_rfl
  · rw [s.setClient_self]
    exact fun n hn => (h.clients c).absent n (hcalls.trans_lt hn)
  · rw [s.setClient_self]
    exact hwindows
  · rw [s.setClient_self]
    exact hstage

/-- `system` for one of the two windows. -/
theorem HostOk.spawn {s : Host} (h : HostOk s) {c : ℕ} {isSender : Bool} {session : GroupSession}
    {stage : Stage} (pid : Option ℕ) (habs : s.procs (c, (s.clients c).calls) isSender = none)
    (hstage : StageOk (s.spawn c isSender session pid) (c, (s.clients c).calls) session stage) :
    HostOk ((s.spawn c isSender session pid).setClient c
      { s.clients c with inCall := some (stage, session) }) := by
  cases pid with
  | none =>
    refine h.setClient le_rfl (h.clients c).windows fun stage' session' hin => ?_
    obtain ⟨rfl, rfl⟩ := Prod.mk.inj (Option.some.inj hin)
    exact hstage
  | some pid =>
    have howns : ∀ call' isSender' n, s.Owns call' isSender' n →
        (s.setProc (c, (s.clients c).calls) isSender (s.started c session pid)).Owns
          call' isSender' n :=
      owns_setProc (by simp [habs])
    have hqueue := queueOk_spawn (p := s.started c session pid) habs h.queue
    refine h.of_actor c ⟨hqueue.sound, hqueue.once⟩ ⟨?_, ?_, ?_⟩ fun c' hc' => ?_
    · rw [Host.setClient_self]
      intro n hn r
      refine (s.setProc_of_ne (fun hkey => ?_) _).trans ((h.clients c).absent n hn r)
      exact (Nat.ne_of_gt hn) (congrArg (·.1.2) hkey)
    · rw [Host.setClient_self]
      exact fun w hw => ((h.clients c).windows w hw).mono howns
    · rw [Host.setClient_self]
      intro stage' session' hin
      obtain ⟨rfl, rfl⟩ := Prod.mk.inj (Option.some.inj hin)
      exact hstage
    · have hf := frame_spawn (p := s.started c session pid) habs hc'
      exact ⟨Host.setClient_of_ne _ hc' _, hf.owns, hf.taken, hf.absent⟩

/-- A report of the call in progress leaves the queue for good. -/
theorem taken_of_head {s : Host} {call : SpawnCall} {msg : IpcPidMessage}
    {queue : List IpcPidMessage} (h : s.QueueOk) (hq : s.queue = msg :: queue)
    (horigin : msg.origin = some call) :
    { s with queue }.Taken call msg.isSender ∧ s.Owns call msg.isSender msg.processPid := by
  obtain ⟨p, hp, hpid, hrep⟩ := h.sound msg (by simp [hq]) call horigin
  have hsender : msg.sender = some (call, msg.isSender) := by simp [IpcPidMessage.sender, horigin]
  have honce := h.once
  rw [Host.pending, hq, List.filterMap_cons_some hsender, List.nodup_cons] at honce
  exact ⟨⟨⟨p, hp, hrep⟩, honce.1⟩, p, hp, hpid⟩

/-- The second report a call takes is its other window's. -/
theorem linked_other {s : Host} (h : HostOk s) {c received : ℕ} {session : GroupSession}
    {msg : IpcPidMessage} {queue : List IpcPidMessage}
    (hin : (s.clients c).inCall = some (.wait received, session)) (hq : s.queue = msg :: queue)
    (hlt : ¬ received + 1 < 2) (horigin : msg.origin = some (c, (s.clients c).calls)) :
    s.Taken (c, (s.clients c).calls) (!msg.isSender) ∧
      s.Owns (c, (s.clients c).calls) (!msg.isSender) (session.pid !msg.isSender) := by
  have hstage := (h.clients c).stage _ _ hin
  match received with
  | 0 => omega
  | 1 =>
    obtain ⟨isSender, htaken, howns⟩ := hstage
    have hne : isSender = !msg.isSender := by
      refine Bool.eq_not_of_ne fun he => htaken.2 ?_
      rw [Host.pending, hq, he]
      simp [IpcPidMessage.sender, horigin]
    exact hne ▸ ⟨htaken, howns⟩

theorem linked_owns {s : Host} (h : HostOk s) {c received : ℕ} {session : GroupSession}
    {msg : IpcPidMessage} {queue : List IpcPidMessage}
    (hin : (s.clients c).inCall = some (.wait received, session)) (hq : s.queue = msg :: queue)
    (hlt : ¬ received + 1 < 2) (horigin : msg.origin = some (c, (s.clients c).calls))
    (isSender : Bool) :
    s.Owns (c, (s.clients c).calls) isSender
      ((session.link msg.isSender msg.processPid).pid isSender) := by
  by_cases hrole : isSender = msg.isSender
  · rw [hrole, GroupSession.link_pid]
    exact (taken_of_head h.queue hq horigin).2
  · rw [Bool.eq_not_of_ne hrole, GroupSession.link_pid_not]
    exact (linked_other h hin hq hlt horigin).2

/-- The client takes a message off the queue. -/
theorem HostOk.receive {s : Host} (h : HostOk s) (c : ℕ) {cl : WindowClient}
    {msg : IpcPidMessage} {queue : List IpcPidMessage} (hq : s.queue = msg :: queue)
    (hcalls : (s.clients c).calls ≤ cl.calls) (hwindows : ∀ w ∈ cl.windows, WindowOk s c w)
    (hstage : ∀ stage session, cl.inCall = some (stage, session) →
      StageOk { s with queue } (c, cl.calls) session stage) :
    HostOk { s.setClient c cl with queue } := by
  have hsuf : queue <:+ s.queue := hq ▸ List.suffix_cons msg queue
  have hcl : { s.setClient c cl with queue }.clients c = cl := s.setClient_self c cl
  refine h.of_actor c (queueOk_of_suffix h.queue rfl hsuf) ⟨?_, ?_, ?_⟩
    fun c' hc' => frame_of_suffix (s.setClient_of_ne hc' cl) rfl hsuf
  · rw [hcl]
    exact fun n hn => (h.clients c).absent n (hcalls.trans_lt hn)
  · rw [hcl]
    exact hwindows
  · rw [hcl]
    exact hstage

/-- One step of any client or process, when a blocking receive finds its own. -/
theorem hostOk_step {s t : Host} {e : HostEvent} (hi : HostOk s) (hg : FindsOwn s e)
    (h : HostEffect s e t) : HostOk t := by
  cases h with
  | @noQueue c name ip port hin =>
    refine hi.setClient (Nat.le_succ _) (fun w hw => ?_) fun stage session hin' => ?_
    · rcases List.mem_append.mp hw with hw | hw
      · exact (hi.clients c).windows w hw
      · exact List.mem_singleton.mp hw ▸ windowOk_opened s c _ name ip port
    · change (s.clients c).inCall = _ at hin'
      rw [hin] at hin'
      contradiction
  | @enter c name ip port hin =>
    refine hi.setClient (Nat.le_succ _) (hi.clients c).windows fun stage session hin' => ?_
    obtain ⟨rfl, rfl⟩ := Prod.mk.inj (Option.some.inj hin')
    exact (hi.clients c).absent _ (Nat.lt_succ_self _)
  | @flush c session msg queue hin hq =>
    have hsuf : queue <:+ s.queue := hq ▸ List.suffix_cons msg queue
    exact ⟨queueOk_of_suffix hi.queue rfl hsuf,
      fun c' => (hi.clients c').frame (frame_of_suffix rfl rfl hsuf)⟩
  | @flushed c session hin hq =>
    have hstage := (hi.clients c).stage _ _ hin
    refine hi.setClient le_rfl (hi.clients c).windows fun stage session' hin' => ?_
    obtain ⟨rfl, rfl⟩ := Prod.mk.inj (Option.some.inj hin')
    exact hstage
  | @spawnReceiver c session pid hin =>
    have habs := (hi.clients c).stage _ _ hin
    apply hi.spawn pid (habs false)
    cases pid with
    | none => exact habs true
    | some pid => exact (s.setProc_of_ne (by simp) _).trans (habs true)
  | @spawnSender c session pid hin =>
    exact hi.spawn pid ((hi.clients c).stage _ _ hin) trivial
  | @report call isSender p hp hrep =>
    exact ⟨queueOk_report hp hrep hi.queue,
      fun c' => (hi.clients c').frame (frame_report hp hrep c')⟩
  | @receive c received session msg queue hin hq hlt =>
    obtain rfl : received = 0 := by omega
    obtain ⟨htaken, howns⟩ := taken_of_head hi.queue hq (hg msg (by simp [hq]))
    refine hi.receive c hq le_rfl (hi.clients c).windows fun stage session' hin' => ?_
    obtain ⟨rfl, rfl⟩ := Prod.mk.inj (Option.some.inj hin')
    exact ⟨msg.isSender, htaken, by rw [GroupSession.link_pid]; exact howns⟩
  | @linked c received session msg queue hin hq hlt =>
    obtain ⟨htaken, howns⟩ := taken_of_head hi.queue hq (hg msg (by simp [hq]))
    have hown := linked_owns hi hin hq hlt (hg msg (by simp [hq]))
    refine hi.receive c hq le_rfl (fun w hw => ?_) nofun
    rcases List.mem_append.mp hw with hw | hw
    · exact (hi.clients c).windows w hw
    · exact List.mem_singleton.mp hw ▸ windowOk_of_owns hown
  | @close c i hin =>
    refine hi.setClient le_rfl (fun w hw => ?_) fun stage session hin' => ?_
    · exact (hi.clients c).windows w (List.mem_of_mem_eraseIdx hw)
    · change (s.clients c).inCall = _ at hin'
      rw [hin] at hin'
      contradiction

/-- Every process has sent its report. -/
def NoneSilent (s : Host) : Prop :=
  ∀ call isSender p, s.procs call isSender = some p → p.reported = true

/-- The reports in the queue and those still to come are those of one call. -/
structure OnlyOf (s : Host) (call : SpawnCall) : Prop where
  reports : ∀ msg ∈ s.queue, msg.origin = some call
  silent : ∀ call' isSender p, s.procs call' isSender = some p → p.reported = true ∨ call' = call

def OthersOut (s : Host) (c : ℕ) : Prop := ∀ c', c' ≠ c → (s.clients c').inCall = none

/-- At most one client is inside the function, and once it has flushed the queue
only its own windows report. -/
inductive Alone (s : Host) : Prop
  | idle : (∀ c, (s.clients c).inCall = none) → NoneSilent s → Alone s
  | flushing {c session} : (s.clients c).inCall = some (.flush, session) → OthersOut s c →
      NoneSilent s → Alone s
  | linking {c stage session} : (s.clients c).inCall = some (stage, session) → stage ≠ .flush →
      OthersOut s c → OnlyOf s (c, (s.clients c).calls) → Alone s

section Alone
variable {s t : Host} {c : ℕ} {session : GroupSession}

theorem OthersOut.eq {c' : ℕ} (h : OthersOut s c) {x : Stage × GroupSession}
    (hin : (s.clients c').inCall = some x) : c' = c := by
  by_contra hne
  rw [h c' hne] at hin
  contradiction

theorem OthersOut.setClient (h : OthersOut s c) (cl : WindowClient) :
    OthersOut (s.setClient c cl) c := by
  intro c' hc'
  rw [s.setClient_of_ne hc']
  exact h c' hc'

theorem Alone.of_idle (h : Alone s) (hidle : ∀ c, (s.clients c).inCall = none) : NoneSilent s := by
  cases h with
  | idle _ hsilent => exact hsilent
  | flushing hin _ hsilent => exact hsilent
  | @linking c stage session hin =>
    rw [hidle c] at hin
    contradiction

theorem Alone.of_flush (h : Alone s) (hin : (s.clients c).inCall = some (.flush, session)) :
    OthersOut s c ∧ NoneSilent s := by
  cases h with
  | idle hidle =>
    rw [hidle c] at hin
    contradiction
  | flushing hin' hout hsilent =>
    obtain rfl := hout.eq hin
    exact ⟨hout, hsilent⟩
  | linking hin' hne hout =>
    obtain rfl := hout.eq hin
    rw [hin] at hin'
    exact absurd (congrArg Prod.fst (Option.some.inj hin')).symm hne

theorem Alone.of_linking (h : Alone s) {stage : Stage}
    (hin : (s.clients c).inCall = some (stage, session)) (hne : stage ≠ .flush) :
    OthersOut s c ∧ OnlyOf s (c, (s.clients c).calls) := by
  cases h with
  | idle hidle =>
    rw [hidle c] at hin
    contradiction
  | flushing hin' hout =>
    obtain rfl := hout.eq hin
    rw [hin'] at hin
    exact absurd (congrArg Prod.fst (Option.some.inj hin)).symm hne
  | linking hin' hne' hout honly =>
    obtain rfl := hout.eq hin
    exact ⟨hout, honly⟩

/-- Nobody enters or leaves the function. -/
theorem Alone.congr (h : Alone s) (hq : t.queue = s.queue) (hp : t.procs = s.procs)
    (hin : ∀ c, (t.clients c).inCall = (s.clients c).inCall)
    (hcalls : ∀ c, (s.clients c).inCall ≠ none → (t.clients c).calls = (s.clients c).calls) :
    Alone t := by
  cases h with
  | idle hidle hsilent => exact .idle (fun c => (hin c).trans (hidle c)) (by rwa [NoneSilent, hp])
  | @flushing c session hin' hout hsilent =>
    exact .flushing ((hin c).trans hin') (fun c' hc' => (hin c').trans (hout c' hc'))
      (by rwa [NoneSilent, hp])
  | @linking c stage session hin' hne hout honly =>
    refine .linking ((hin c).trans hin') hne (fun c' hc' => (hin c').trans (hout c' hc')) ⟨?_, ?_⟩
    · rw [hq, hcalls c (by simp [hin'])]
      exact honly.reports
    · rw [hp, hcalls c (by simp [hin'])]
      exact honly.silent

/-- A client that is not inside the function does something else. -/
theorem Alone.setIdle (h : Alone s) (hidle : (s.clients c).inCall = none) {cl : WindowClient}
    (hcl : cl.inCall = none) : Alone (s.setClient c cl) := by
  refine h.congr rfl rfl (fun c' => ?_) fun c' hc' => ?_
  · by_cases hcc : c' = c
    · rw [hcc, s.setClient_self, hcl, hidle]
    · rw [s.setClient_of_ne hcc]
  · have hcc : c' ≠ c := fun he => hc' (he ▸ hidle)
    rw [s.setClient_of_ne hcc]

/-- With calls that do not overlap, a blocking receive finds its own reports. -/
theorem Alone.findsOwn (h : Alone s) {e : HostEvent} (he : HostEffect s e t) : FindsOwn s e := by
  cases he with
  | receive hin hq hlt =>
    exact fun msg hmsg => (h.of_linking hin nofun).2.reports msg (List.mem_of_mem_head? hmsg)
  | linked hin hq hlt =>
    exact fun msg hmsg => (h.of_linking hin nofun).2.reports msg (List.mem_of_mem_head? hmsg)
  | _ => trivial

theorem OnlyOf.spawn (h : OnlyOf s (c, (s.clients c).calls)) (isSender : Bool) (pid : Option ℕ) :
    OnlyOf (s.spawn c isSender session pid) (c, (s.clients c).calls) := by
  cases pid with
  | none => exact h
  | some pid =>
    refine ⟨h.reports, fun call' r p hp => ?_⟩
    by_cases hkey : (call', r) = ((c, (s.clients c).calls), isSender)
    · exact Or.inr (Prod.mk.inj hkey).1
    · rw [Host.spawn, s.setProc_of_ne hkey] at hp
      exact h.silent call' r p hp

/-- The client goes on to a later stage of its call. -/
theorem alone_setClient {stage : Stage} (hne : stage ≠ .flush) (hout : OthersOut s c)
    (hs : OnlyOf t (c, (s.clients c).calls)) (hclients : t.clients = s.clients) :
    Alone (t.setClient c { s.clients c with inCall := some (stage, session) }) := by
  have hin : ((t.setClient c { s.clients c with inCall := some (stage, session) }).clients c).inCall =
      some (stage, session) := by rw [Host.setClient_self]
  refine .linking hin hne ?_ ?_
  · intro c' hc'
    rw [Host.setClient_of_ne _ hc', hclients]
    exact hout c' hc'
  · rw [Host.setClient_self]
    exact ⟨hs.reports, hs.silent⟩

theorem alone_step {e : HostEvent} (hi : HostOk s) (ha : Alone s) (hg : EntersAlone s e)
    (h : HostEffect s e t) : Alone t := by
  have hown := ha.findsOwn h
  cases h with
  | @noQueue c name ip port hin =>
    exact ha.setIdle hin hin
  | @enter c name ip port hin =>
    have hidle : ∀ c', (s.clients c').inCall = none := fun c' => by
      by_cases hc' : c' = c
      · exact hc' ▸ hin
      · exact hg c' hc'
    exact .flushing (by rw [Host.setClient_self]) (OthersOut.setClient (fun c' _ => hidle c') _)
      (ha.of_idle hidle)
  | @flush c session msg queue hin hq =>
    obtain ⟨hout, hsilent⟩ := ha.of_flush hin
    exact .flushing hin hout hsilent
  | @flushed c session hin hq =>
    obtain ⟨hout, hsilent⟩ := ha.of_flush hin
    refine alone_setClient nofun hout ⟨?_, fun call r p hp => Or.inl (hsilent call r p hp)⟩ rfl
    rw [hq]
    nofun
  | @spawnReceiver c session pid hin =>
    obtain ⟨hout, honly⟩ := ha.of_linking hin nofun
    exact alone_setClient nofun hout (honly.spawn false pid) (by cases pid <;> rfl)
  | @spawnSender c session pid hin =>
    obtain ⟨hout, honly⟩ := ha.of_linking hin nofun
    exact alone_setClient nofun hout (honly.spawn true pid) (by cases pid <;> rfl)
  | @report call isSender p hp hrep =>
    cases ha with
    | idle _ hsilent => simp [hsilent call isSender p hp] at hrep
    | flushing _ _ hsilent => simp [hsilent call isSender p hp] at hrep
    | @linking c stage session hin hne hout honly =>
      have hcall := (honly.silent call isSender p hp).resolve_left (by simp [hrep])
      refine .linking hin hne hout ⟨fun msg hmsg => ?_, fun call' r q hq => ?_⟩
      · rcases List.mem_append.mp hmsg with hmsg | hmsg
        · exact honly.reports msg hmsg
        · rw [List.mem_singleton.mp hmsg, hcall]
          rfl
      · by_cases hkey : (call', r) = (call, isSender)
        · exact Or.inr ((Prod.mk.inj hkey).1.trans hcall)
        · exact honly.silent call' r q ((s.setProc_of_ne hkey _).symm.trans hq)
  | @receive c received session msg queue hin hq hlt =>
    obtain ⟨hout, honly⟩ := ha.of_linking hin nofun
    have hsub : ∀ m ∈ queue, m ∈ s.queue := fun m hm => hq ▸ List.mem_cons_of_mem msg hm
    exact alone_setClient (t := { s with queue }) nofun hout
      ⟨fun m hm => honly.reports m (hsub m hm), honly.silent⟩ rfl
  | @linked c received session msg queue hin hq hlt =>
    obtain ⟨hout, honly⟩ := ha.of_linking hin nofun
    have horigin := hown msg (by simp [hq])
    obtain ⟨⟨⟨p, hp, hrep⟩, -⟩, -⟩ := taken_of_head hi.queue hq horigin
    obtain ⟨⟨⟨p', hp', hrep'⟩, -⟩, -⟩ := linked_other hi hin hq hlt horigin
    refine .idle (fun c' => ?_) fun call r q hq' => ?_
    · by_cases hc' : c' = c
      · rw [hc']
        exact congrArg WindowClient.inCall (s.setClient_self c _)
      · exact (congrArg WindowClient.inCall (s.setClient_of_ne hc' _)).trans (hout c' hc')
    · rcases honly.silent call r q hq' with hq | rfl
      · exact hq
      · by_cases hr : r = msg.isSender
        · rw [hr] at hq'
          rwa [← Option.some.inj (hp.symm.trans hq')]
        · rw [Bool.eq_not_of_ne hr] at hq'
          rwa [← Option.some.inj (hp'.symm.trans hq')]
  | @close c i hin =>
    exact ha.setIdle hin hin

end Alone

theorem hostOk_idle (users : ℕ → Username) (stale : List (ℕ × Bool)) :
    HostOk (idleHost users stale) := by
  refine ⟨⟨fun msg hmsg call hcall => ?_, ?_⟩, fun c => ⟨fun _ _ _ => rfl, nofun, nofun⟩⟩
  · obtain ⟨m, -, rfl⟩ := List.mem_map.mp hmsg
    contradiction
  · have hnil : (idleHost users stale).pending = [] := by
      simp [Host.pending, idleHost, IpcPidMessage.sender, List.filterMap_map]
    rw [hnil]
    exact List.nodup_nil

/-- In a run whose blocking receives all find their own reports, every session
that was linked has its own windows, and so it is when calls never overlap. -/
theorem pids_attributed {users : ℕ → Username} {stale : List (ℕ × Bool)}
    {moves : List (Move Host HostEvent)} {s : Host}
    (hr : Run HostStep (idleHost users stale) moves s) :
    ((∀ m ∈ moves, FindsOwn m.pre m.label) → PidsAttributed s) ∧
    ((∀ m ∈ moves, EntersAlone m.pre m.label) → ∀ m ∈ moves, FindsOwn m.pre m.label) := by
  constructor
  · intro hown c w hw
    have hok : HostOk s := hr.invariant (hostOk_idle users stale)
      (fun s e t hi hg hs => hostOk_step hi hg (hostStep_effect hs)) hown
    exact (hok.clients c).windows w hw
  · intro halone m hm
    obtain ⟨before, after, rfl⟩ := List.append_of_mem hm
    obtain ⟨hbefore, hstep⟩ := hr.cut
    have hinv : HostOk m.pre ∧ Alone m.pre := by
      refine hbefore.invariant (I := fun s => HostOk s ∧ Alone s) (G := EntersAlone)
        ⟨hostOk_idle users stale, .idle (fun _ => rfl) nofun⟩ (fun s e t hi hg hs => ?_)
        fun x hx => halone x (List.mem_append_left _ hx)
      have he := hostStep_effect hs
      exact ⟨hostOk_step hi.1 (hi.2.findsOwn he) he, alone_step hi.1 hi.2 hg he⟩
    exact hinv.2.findsOwn (hostStep_effect hstep)

def anyGroup : CStr := ⟨[109], by decide⟩
def anyIp : CStr := ⟨[50], by decide⟩
def anyUser (_ : ℕ) : Username := ⟨⟨[117], by decide⟩, by decide⟩

/-- Two reports left over, a call of one client, and then one of another. -/
def oneAfterOther : List HostEvent :=
  [.enter 0 anyGroup anyIp 5000 true, .flush 0, .flush 0, .flush 0, .spawnReceiver 0 (some 10),
    .spawnSender 0 (some 11), .report (0, 1) true, .report (0, 1) false, .receive 0, .receive 0,
    .enter 1 anyGroup anyIp 5000 true, .flush 1, .spawnReceiver 1 (some 20),
    .spawnSender 1 (some 21), .report (1, 1) false, .report (1, 1) true, .receive 1, .receive 1]

theorem pids_attributed_two :
    let s := playEnd (attempt hostStep) (idleHost anyUser [(7, true), (8, false)]) oneAfterOther
    PidsAttributed s ∧ (s.clients 0).windows.length = 1 ∧ (s.clients 1).windows.length = 1 := by
  have hr := run_attempts hostStep (idleHost anyUser [(7, true), (8, false)]) oneAfterOther
    (by decide +kernel)
  obtain ⟨hattr, hown⟩ := pids_attributed hr
  refine ⟨hattr (hown ?_), by decide +kernel, by decide +kernel⟩
  simp only [oneAfterOther, play, List.forall_mem_cons]
  refine ⟨fun _ _ => rfl, trivial, trivial, trivial, trivial, trivial, trivial, trivial, trivial,
    trivial, fun c hc => ?_, trivial, trivial, trivial, trivial, trivial, trivial, trivial,
    fun _ hm => absurd hm List.not_mem_nil⟩
  obtain _ | _ | c := c
  · rfl
  · exact absurd rfl hc
  · rfl

/-- Two clients create a group at the same time; the second takes the reports of
the first one's windows. -/
def twoCalls : List HostEvent :=
  [.enter 0 anyGroup anyIp 5000 true, .flush 0, .enter 1 anyGroup anyIp 5000 true, .flush 1,
    .spawnReceiver 0 (some 10), .spawnSender 0 (some 11), .spawnReceiver 1 (some 20),
    .spawnSender 1 (some 21), .report (0, 1) false, .report (0, 1) true, .receive 1, .receive 1]

theorem pids_taken_by_other : ¬ ∀ users stale moves s,
    Run HostStep (idleHost users stale) moves s → PidsAttributed s := by
  intro h
  have hr := run_attempts hostStep (idleHost anyUser []) twoCalls (by decide)
  have hwindows : ((playEnd (attempt hostStep) (idleHost anyUser []) twoCalls).clients 1).windows =
      [⟨{ GroupSession.opened anyGroup anyIp 5000 with senderPid := 11, receiverPid := 10 }, 1, 0⟩] := by
    decide +kernel
  have hproc : ((playEnd (attempt hostStep) (idleHost anyUser []) twoCalls).procs (1, 1) false).map
      ChatProcess.pid = some 20 := by decide
  have hattr := h _ _ _ _ hr 1
  rw [hwindows, List.forall_mem_singleton] at hattr
  obtain ⟨p, hp, hpid⟩ := hattr.1 rfl false
  rw [hp, Option.map_some, hpid] at hproc
  contradiction

end MeshChat.Client
