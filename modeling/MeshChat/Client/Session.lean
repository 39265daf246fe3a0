import MeshChat.Server.Wire

/-!
# The client's context

The data of `client.h` and the parts of `client_mng.c` that work on it alone.
The first `active_group_count` entries of `active_groups` are a list. A PID of 0
is a window that was never linked.
-/
namespace MeshChat.Client
open Server

inductive ClientState where
  | disconnected | connected | loggedIn
  deriving DecidableEq, Repr

structure GroupSession where
  groupName : GroupName
  multicastIp : CharArray mcastIpLen
  multicastPort : UInt16
  senderPid : ℕ
  receiverPid : ℕ
  deriving DecidableEq

namespace GroupSession

/-- `memset`, two `strncpy` and the port: a session without windows. -/
def opened (name : CStr) (ip : CStr) (port : UInt16) : GroupSession where
  groupName := strncpy name
  multicastIp := strncpy ip
  multicastPort := port
  senderPid := 0
  receiverPid := 0

/-- The PID of the sender or of the receiver. -/
def pid (session : GroupSession) (isSender : Bool) : ℕ :=
  if isSender then session.senderPid else session.receiverPid

/-- What one PID report does to the session. -/
def link (session : GroupSession) (isSender : Bool) (pid : ℕ) : GroupSession :=
  if isSender then { session with senderPid := pid } else { session with receiverPid := pid }

@[simp] theorem opened_pid (name ip : CStr) (port : UInt16) (isSender : Bool) :
    (opened name ip port).pid isSender = 0 := by
  cases isSender <;> rfl

@[simp] theorem link_pid (session : GroupSession) (isSender : Bool) (pid : ℕ) :
    (session.link isSender pid).pid isSender = pid := by
  cases isSender <;> rfl

@[simp] theorem link_pid_not (session : GroupSession) (isSender : Bool) (pid : ℕ) :
    (session.link isSender pid).pid (!isSender) = session.pid !isSender := by
  cases isSender <;> rfl

/-- `client_close_group_session`: the processes it sends `SIGTERM`, in order. -/
def close (session : GroupSession) : List ℕ :=
  (if session.senderPid > 0 then [session.senderPid] else []) ++
    if session.receiverPid > 0 then [session.receiverPid] else []

/-- Only linked windows are closed. -/
theorem mem_close {session : GroupSession} {pid : ℕ} :
    pid ∈ session.close ↔ 0 < pid ∧ ∃ isSender, session.pid isSender = pid := by
  have hif : ∀ p, pid ∈ (if p > 0 then [p] else []) ↔ 0 < pid ∧ p = pid := by
    intro p
    split <;> simp <;> omega
  simp only [close, List.mem_append, hif, Bool.exists_bool, GroupSession.pid]
  tauto

end GroupSession

structure ClientContext where
  serverFd : Int
  state : ClientState
  username : Username
  activeGroups : List GroupSession
  deriving DecidableEq

end MeshChat.Client
