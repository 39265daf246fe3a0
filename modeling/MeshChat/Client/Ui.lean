import MeshChat.Net.EndToEnd
import MeshChat.Client.Session

/-!
# The client's screens

The handlers of `client_ui.c` with the logout and exit of `client_mng.c`. Each
is in two parts, before and after its `net_send_recv`: the local checks and the
request they let through, and what the response does to the context.
-/
namespace MeshChat.Client
open Server

inductive Screen where
  | one | two
  deriving DecidableEq, Repr

/-- A menu choice with what the user typed for it. -/
inductive Command where
  | register (username : Username) (password : Password)
  | login (username : Username) (password : Password)
  | exit
  | createGroup (name : GroupName)
  | joinGroup (name : GroupName)
  | leaveGroup (name : GroupName)
  | logout
  deriving DecidableEq

/-- The screen that offers the choice. -/
def Command.screen : Command → Screen
  | register _ _ | login _ _ | exit => .one
  | createGroup _ | joinGroup _ | leaveGroup _ | logout => .two

/-- A handler cut at its `net_send_recv`: the request it makes over the old
bytes of its message, unless a local check fails, and then the context and the
value it returns. There is no response where `net_send_recv` failed. -/
structure Handler where
  request : ClientContext → TLVMessage → Option TLVMessage
  finish : ClientContext → Option TLVMessage → ClientContext × Int

/-- `strncmp(.., .., MAX_GROUP_NAME_LEN) == 0` on a session's name. -/
def isNamed (name : GroupName) (session : GroupSession) : Bool :=
  strcmpEq session.groupName.toCStr name.toCStr

/-- The context with which `main` starts. -/
def startContext : ClientContext := ⟨-1, .disconnected, ⟨⟨[], nofun⟩, by decide⟩, []⟩

/-- `net_connect`, once the connection is made. -/
def netConnect (sock : Int) (ctx : ClientContext) : ClientContext :=
  { ctx with serverFd := sock, state := .connected }

/-- `clear_client_context`; the sessions are closed before. -/
def clearClientContext (ctx : ClientContext) : ClientContext :=
  { ctx with username := ⟨⟨[], nofun⟩, by decide⟩, activeGroups := [] }

/-- `net_disconnect`. -/
def netDisconnect (ctx : ClientContext) : ClientContext :=
  if ctx.serverFd < 0 then ctx else { ctx with serverFd := -1, state := .disconnected }

def handleRegister (username : Username) (password : Password) : Handler where
  request _ msg := buildAuthMsg msg .register username.toCStr password.toCStr
  finish ctx
    | none => (ctx, -1)
    | some response =>
        if response.tag ≠ MessageTag.success.code then (ctx, -1) else (ctx, 0)

def handleLogin (username : Username) (password : Password) : Handler where
  request _ msg := buildAuthMsg msg .login username.toCStr password.toCStr
  finish ctx
    | none => (ctx, -1)
    | some response =>
        if response.tag ≠ MessageTag.success.code then (ctx, -1)
        else ({ ctx with username := strncpy username.toCStr, state := .loggedIn }, 0)

/-- The end of create and join: a new session with the group's address. `pids`
is what `client_spawn_chat_windows` wrote into it. -/
def saveSession (pids : ℕ × ℕ) (name : GroupName) (ctx : ClientContext) :
    Option TLVMessage → ClientContext × Int
  | none => (ctx, -1)
  | some response =>
      if response.tag ≠ MessageTag.groupInfo.code then (ctx, -1)
      else
        match parseGroupInfo response with
        | none => (ctx, -1)
        | some (ip, port) =>
            let session := { GroupSession.opened name.toCStr ip.toCStr port with
              senderPid := pids.1, receiverPid := pids.2 }
            ({ ctx with activeGroups := ctx.activeGroups ++ [session] }, 0)

def handleCreateGroup (pids : ℕ × ℕ) (name : GroupName) : Handler where
  request ctx msg :=
    if ctx.activeGroups.length ≥ maxGroups then none
    else buildGroupMsg msg .createGroup name.toCStr
  finish := saveSession pids name

def handleJoinGroup (pids : ℕ × ℕ) (name : GroupName) : Handler where
  request ctx msg :=
    if ctx.activeGroups.length ≥ maxGroups then none
    else if ctx.activeGroups.any (isNamed name) then none
    else buildGroupMsg msg .joinGroup name.toCStr
  finish := saveSession pids name

def handleLeaveGroup (name : GroupName) : Handler where
  request ctx msg :=
    match ctx.activeGroups.findIdx? (isNamed name) with
    | none => none
    | some _ => buildGroupMsg msg .leaveGroup name.toCStr
  finish ctx
    | none => (ctx, -1)
    | some response =>
        if response.tag ≠ MessageTag.success.code then (ctx, -1)
        else
          let targetIndex := ctx.activeGroups.findIdx (isNamed name)
          ({ ctx with activeGroups := ctx.activeGroups.eraseIdx targetIndex }, 0)

/-- `client_logout`: the teardown does not depend on the response. -/
def clientLogout : Handler where
  request ctx msg := if ctx.state ≠ .loggedIn then none else buildSimpleMsg msg .logout
  finish ctx _ := ({ clearClientContext ctx with state := .connected }, 0)

/-- `client_exit`; the process ends after it. -/
def clientExit : Handler where
  request ctx msg :=
    if ctx.state ≠ .disconnected ∧ ctx.serverFd ≥ 0 then buildSimpleMsg msg .exit else none
  finish ctx _ := (clearClientContext (netDisconnect ctx), 0)

def Command.handler (pids : ℕ × ℕ) : Command → Handler
  | register username password => handleRegister username password
  | login username password => handleLogin username password
  | exit => clientExit
  | createGroup name => handleCreateGroup pids name
  | joinGroup name => handleJoinGroup pids name
  | leaveGroup name => handleLeaveGroup name
  | logout => clientLogout

/-- The request does not depend on what the windows report later. -/
def Command.request (cmd : Command) (ctx : ClientContext) (msg : TLVMessage) :
    Option TLVMessage :=
  (cmd.handler (0, 0)).request ctx msg

/-- The screen after the handler returned `ret`. -/
def Command.next (cmd : Command) (ret : Int) (screen : Screen) : Screen :=
  match cmd with
  | login _ _ => if ret = 0 then .two else screen
  | logout => if ret = 0 then .one else screen
  | _ => screen

/-- The builder call of a command. -/
def Command.built : Command → ClientRequest
  | register username password => .auth .register username.toCStr password.toCStr
  | login username password => .auth .login username.toCStr password.toCStr
  | exit => .simple .exit
  | createGroup name => .group .createGroup name.toCStr
  | joinGroup name => .group .joinGroup name.toCStr
  | leaveGroup name => .group .leaveGroup name.toCStr
  | logout => .simple .logout

/-- What the command asks of the server. -/
def Command.asks : Command → Request
  | register username password => .register (some (username, password))
  | login username password => .login (some (username, password))
  | exit => .exit
  | createGroup name => .createGroup (some name)
  | joinGroup name => .joinGroup (some name)
  | leaveGroup name => .leaveGroup (some name)
  | logout => .logout

@[simp] theorem isNamed_iff {name : GroupName} {session : GroupSession} :
    isNamed name session = true ↔ session.groupName = name :=
  strcmpEq_iff session.groupName name

/-- What the local checks of a command guarantee. -/
def Command.Checked (ctx : ClientContext) : Command → Prop
  | joinGroup name => ∀ session ∈ ctx.activeGroups, session.groupName ≠ name
  | leaveGroup name => ∃ session ∈ ctx.activeGroups, session.groupName = name
  | _ => True

theorem Command.request_spec {cmd : Command} {ctx : ClientContext} {msg m : TLVMessage}
    (h : cmd.request ctx msg = some m) : cmd.built.build msg = some m ∧ cmd.Checked ctx := by
  cases cmd with
  | register username password => exact ⟨h, trivial⟩
  | login username password => exact ⟨h, trivial⟩
  | exit =>
    simp only [Command.request, handler, clientExit, Option.ite_none_right_eq_some] at h
    exact ⟨h.2, trivial⟩
  | createGroup name =>
    simp only [Command.request, handler, handleCreateGroup, Option.ite_none_left_eq_some] at h
    exact ⟨h.2, trivial⟩
  | joinGroup name =>
    simp only [Command.request, handler, handleJoinGroup, Option.ite_none_left_eq_some] at h
    refine ⟨h.2.2, fun session hs hname => h.2.1 ?_⟩
    exact List.any_eq_true.mpr ⟨session, hs, isNamed_iff.mpr hname⟩
  | leaveGroup name =>
    simp only [Command.request, handler, handleLeaveGroup] at h
    cases hfind : ctx.activeGroups.findIdx? (isNamed name) with
    | none => simp [hfind] at h
    | some i =>
      rw [hfind] at h
      obtain ⟨hi, hnamed, -⟩ := List.findIdx?_eq_some_iff_getElem.mp hfind
      exact ⟨h, _, List.getElem_mem hi, isNamed_iff.mp hnamed⟩
  | logout =>
    simp only [Command.request, handler, clientLogout, Option.ite_none_left_eq_some] at h
    exact ⟨h.2, trivial⟩

/-- The server reads the command out of any message that agrees with the request. -/
theorem Command.ofMsg_of_agrees {cmd : Command} {ctx : ClientContext} {msg m got : TLVMessage}
    (h : cmd.request ctx msg = some m) (hgot : m.Agrees got) : Request.ofMsg got = cmd.asks := by
  obtain ⟨htag, hread⟩ := ClientRequest.readAs_of_agrees (request_spec h).1 hgot
  cases cmd with
  | register username password | login username password =>
    obtain ⟨uname, pass, hparse, hu, hp⟩ := hread
    simp only [Request.ofMsg, htag, built, ClientRequest.tag, MessageTag.ofCode_code, hparse, asks]
    rw [CharArray.ext (congrArg CStr.bytes hu), CharArray.ext (congrArg CStr.bytes hp)]
  | createGroup name | joinGroup name | leaveGroup name =>
    obtain ⟨gname, hparse, hg⟩ := hread
    simp only [Request.ofMsg, htag, built, ClientRequest.tag, MessageTag.ofCode_code, hparse, asks]
    rw [CharArray.ext (congrArg CStr.bytes hg)]
  | logout | exit =>
    simp only [Request.ofMsg, htag, built, ClientRequest.tag, MessageTag.ofCode_code, asks]

end MeshChat.Client
