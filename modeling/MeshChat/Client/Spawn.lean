import MeshChat.Lib.Runs
import MeshChat.Client.Session

/-!
# Chat windows and the PID queue

`client_spawn_chat_windows` of any number of clients on one host, step by step
over the one System V queue, together with the reports of the spawned `sender`
and `receiver` processes. All messages have type 1, so the queue is read in
order. Which call a report belongs to is recorded beside it; no step looks at it.
-/
namespace MeshChat.Client
open Server Runs

/-- The `n`-th call of `client_spawn_chat_windows` by a client. -/
abbrev SpawnCall := ℕ × ℕ

/-- A message in the queue. `origin` is the call that spawned the reporting
process, if it was spawned in this run. -/
structure IpcPidMessage where
  processPid : ℕ
  isSender : Bool
  origin : Option SpawnCall
  deriving DecidableEq

/-- A spawned `sender` or `receiver`, with its arguments. -/
structure ChatProcess where
  pid : ℕ
  multicastIp : CharArray mcastIpLen
  username : Username
  reported : Bool
  deriving DecidableEq

/-- Where a client is in `client_spawn_chat_windows`. -/
inductive Stage where
  | flush
  | spawnReceiver
  | spawnSender
  | wait (received : ℕ)
  deriving DecidableEq

/-- A session that a call has returned for, with the return value. -/
structure Window where
  session : GroupSession
  call : ℕ
  ret : Int
  deriving DecidableEq

/-- A client as far as its windows go: its returned sessions, the number of its
calls so far, and the call it is in with the session it links. -/
structure WindowClient where
  username : Username
  windows : List Window
  calls : ℕ
  inCall : Option (Stage × GroupSession)
  deriving DecidableEq

structure Host where
  queue : List IpcPidMessage
  procs : SpawnCall → Bool → Option ChatProcess
  clients : ℕ → WindowClient

inductive HostEvent where
  /-- The client calls the function for a new session; `msgget` may fail. -/
  | enter (c : ℕ) (name ip : CStr) (port : UInt16) (msgget : Bool)
  /-- One `msgrcv` of the flush loop. -/
  | flush (c : ℕ)
  /-- `system` for the receiver: it starts as a process, or it does not. -/
  | spawnReceiver (c : ℕ) (pid : Option ℕ)
  | spawnSender (c : ℕ) (pid : Option ℕ)
  /-- A spawned process puts its report on the queue. -/
  | report (call : SpawnCall) (isSender : Bool)
  /-- One blocking `msgrcv` that gets a message. -/
  | receive (c : ℕ)
  /-- `client_close_group_session` for one of the client's sessions. -/
  | close (c : ℕ) (i : ℕ)

namespace Host

def setClient (s : Host) (c : ℕ) (cl : WindowClient) : Host :=
  { s with clients := Function.update s.clients c cl }

def setProc (s : Host) (call : SpawnCall) (isSender : Bool) (p : ChatProcess) : Host :=
  { s with procs := Function.update s.procs call (Function.update (s.procs call) isSender p) }

/-- A window's process, started with the arguments of the command line. -/
def started (s : Host) (c : ℕ) (session : GroupSession) (pid : ℕ) : ChatProcess where
  pid := pid
  multicastIp := session.multicastIp
  username := (s.clients c).username
  reported := false

/-- `system` for a window: the process starts, or it does not. -/
def spawn (s : Host) (c : ℕ) (isSender : Bool) (session : GroupSession) : Option ℕ → Host
  | none => s
  | some pid => s.setProc (c, (s.clients c).calls) isSender (s.started c session pid)

end Host

/-- The state after an event, if the event can happen. -/
def hostStep (s : Host) : HostEvent → Option Host
  | .enter c name ip port msgget =>
      let cl := s.clients c
      let session := GroupSession.opened name ip port
      if cl.inCall.isSome then none
      else if msgget then
        some (s.setClient c { cl with calls := cl.calls + 1, inCall := some (.flush, session) })
      else
        some (s.setClient c { cl with
          calls := cl.calls + 1, windows := cl.windows ++ [⟨session, cl.calls + 1, -1⟩] })
  | .flush c =>
      match (s.clients c).inCall, s.queue with
      | some (.flush, _), _ :: queue => some { s with queue }
      | some (.flush, session), [] =>
          some (s.setClient c { s.clients c with inCall := some (.spawnReceiver, session) })
      | _, _ => none
  | .spawnReceiver c pid =>
      match (s.clients c).inCall with
      | some (.spawnReceiver, session) =>
          if 0 ∈ pid then none
          else some ((s.spawn c false session pid).setClient c
            { s.clients c with inCall := some (.spawnSender, session) })
      | _ => none
  | .spawnSender c pid =>
      match (s.clients c).inCall with
      | some (.spawnSender, session) =>
          if 0 ∈ pid then none
          else some ((s.spawn c true session pid).setClient c
            { s.clients c with inCall := some (.wait 0, session) })
      | _ => none
  | .report call isSender =>
      match s.procs call isSender with
      | some p =>
          if p.reported then none
          else some { s.setProc call isSender { p with reported := true } with
            queue := s.queue ++ [⟨p.pid, isSender, some call⟩] }
      | none => none
  | .receive c =>
      let cl := s.clients c
      match cl.inCall, s.queue with
      | some (.wait received, session), msg :: queue =>
          let session := session.link msg.isSender msg.processPid
          if received + 1 < 2 then
            some { s.setClient c { cl with inCall := some (.wait (received + 1), session) } with
              queue }
          else
            some { s.setClient c { cl with
              inCall := none, windows := cl.windows ++ [⟨session, cl.calls, 0⟩] } with queue }
      | _, _ => none
  | .close c i =>
      let cl := s.clients c
      if cl.inCall.isSome then none
      else some (s.setClient c { cl with windows := cl.windows.eraseIdx i })

namespace Host

@[simp] theorem setClient_self (s : Host) (c : ℕ) (cl : WindowClient) :
    (s.setClient c cl).clients c = cl := Function.update_self _ _ _

theorem setClient_of_ne (s : Host) {c c' : ℕ} (h : c' ≠ c) (cl : WindowClient) :
    (s.setClient c cl).clients c' = s.clients c' := Function.update_of_ne h _ _

theorem setProc_self (s : Host) (call : SpawnCall) (isSender : Bool) (p : ChatProcess) :
    (s.setProc call isSender p).procs call isSender = some p := by
  simp [setProc]

theorem setProc_of_ne (s : Host) {call call' : SpawnCall} {isSender isSender' : Bool}
    (h : (call', isSender') ≠ (call, isSender)) (p : ChatProcess) :
    (s.setProc call isSender p).procs call' isSender' = s.procs call' isSender' := by
  by_cases hcall : call' = call
  · subst hcall
    have hne : isSender' ≠ isSender := fun he => h (by rw [he])
    simp [setProc, hne]
  · simp [setProc, hcall]

end Host

def HostStep (s : Host) (e : HostEvent) (t : Host) : Prop := hostStep s e = some t

namespace Host

/-- The state after a process has reported. -/
def reported (s : Host) (call : SpawnCall) (isSender : Bool) (p : ChatProcess) : Host :=
  { s.setProc call isSender { p with reported := true } with
    queue := s.queue ++ [⟨p.pid, isSender, some call⟩] }

end Host

/-- Everything a step can do, with the facts under which it does it. -/
inductive HostEffect (s : Host) : HostEvent → Host → Prop
  | noQueue {c name ip port} : (s.clients c).inCall = none →
      HostEffect s (.enter c name ip port false) (s.setClient c { s.clients c with
        calls := (s.clients c).calls + 1,
        windows := (s.clients c).windows ++ [⟨.opened name ip port, (s.clients c).calls + 1, -1⟩] })
  | enter {c name ip port} : (s.clients c).inCall = none →
      HostEffect s (.enter c name ip port true) (s.setClient c { s.clients c with
        calls := (s.clients c).calls + 1, inCall := some (.flush, .opened name ip port) })
  | flush {c session msg queue} : (s.clients c).inCall = some (.flush, session) →
      s.queue = msg :: queue → HostEffect s (.flush c) { s with queue }
  | flushed {c session} : (s.clients c).inCall = some (.flush, session) → s.queue = [] →
      HostEffect s (.flush c)
        (s.setClient c { s.clients c with inCall := some (.spawnReceiver, session) })
  | spawnReceiver {c session pid} : (s.clients c).inCall = some (.spawnReceiver, session) →
      HostEffect s (.spawnReceiver c pid) ((s.spawn c false session pid).setClient c
        { s.clients c with inCall := some (.spawnSender, session) })
  | spawnSender {c session pid} : (s.clients c).inCall = some (.spawnSender, session) →
      HostEffect s (.spawnSender c pid) ((s.spawn c true session pid).setClient c
        { s.clients c with inCall := some (.wait 0, session) })
  | report {call isSender p} : s.procs call isSender = some p → p.reported = false →
      HostEffect s (.report call isSender) (s.reported call isSender p)
  | receive {c received session msg queue} :
      (s.clients c).inCall = some (.wait received, session) → s.queue = msg :: queue →
      received + 1 < 2 →
      HostEffect s (.receive c) { s.setClient c { s.clients c with
        inCall := some (.wait (received + 1), session.link msg.isSender msg.processPid) } with
        queue }
  | linked {c received session msg queue} :
      (s.clients c).inCall = some (.wait received, session) → s.queue = msg :: queue →
      ¬ received + 1 < 2 →
      HostEffect s (.receive c) { s.setClient c { s.clients c with
        inCall := none,
        windows := (s.clients c).windows ++
          [⟨session.link msg.isSender msg.processPid, (s.clients c).calls, 0⟩] } with queue }
  | close {c i} : (s.clients c).inCall = none →
      HostEffect s (.close c i)
        (s.setClient c { s.clients c with windows := (s.clients c).windows.eraseIdx i })

theorem hostStep_effect {s t : Host} {e : HostEvent} (h : HostStep s e t) : HostEffect s e t := by
  cases e with
  | enter c name ip port msgget =>
    simp only [HostStep, hostStep] at h
    split at h
    · contradiction
    · rename_i hidle
      have hin : (s.clients c).inCall = none := by simpa using hidle
      cases msgget with
      | false => exact Option.some.inj h ▸ .noQueue hin
      | true => exact Option.some.inj h ▸ .enter hin
  | flush c =>
    simp only [HostStep, hostStep] at h
    split at h
    · rename_i session msg queue hin hq
      exact Option.some.inj h ▸ .flush hin hq
    · rename_i session hin hq
      exact Option.some.inj h ▸ .flushed hin hq
    · contradiction
  | spawnReceiver c pid =>
    simp only [HostStep, hostStep] at h
    split at h
    · rename_i session hin
      split at h
      · contradiction
      · exact Option.some.inj h ▸ .spawnReceiver hin
    · contradiction
  | spawnSender c pid =>
    simp only [HostStep, hostStep] at h
    split at h
    · rename_i session hin
      split at h
      · contradiction
      · exact Option.some.inj h ▸ .spawnSender hin
    · contradiction
  | report call isSender =>
    simp only [HostStep, hostStep] at h
    split at h
    · rename_i p hp
      split at h
      · contradiction
      · rename_i hrep
        exact Option.some.inj h ▸ .report hp (by simpa using hrep)
    · contradiction
  | receive c =>
    simp only [HostStep, hostStep] at h
    split at h
    · rename_i received session msg queue hin hq
      split at h
      · rename_i hlt
        exact Option.some.inj h ▸ .receive hin hq hlt
      · rename_i hlt
        exact Option.some.inj h ▸ .linked hin hq hlt
    · contradiction
  | close c i =>
    simp only [HostStep, hostStep] at h
    split at h
    · contradiction
    · rename_i hidle
      exact Option.some.inj h ▸ .close (by simpa using hidle)

/-- No client has a window; the queue holds what earlier runs left in it. -/
def idleHost (users : ℕ → Username) (stale : List (ℕ × Bool)) : Host where
  queue := stale.map fun m => ⟨m.1, m.2, none⟩
  procs _ _ := none
  clients c := ⟨users c, [], 0, none⟩

end MeshChat.Client
