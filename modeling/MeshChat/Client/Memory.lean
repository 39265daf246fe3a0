import MeshChat.Lib.FrontArray
import MeshChat.Client.Ui
import MeshChat.Server.Calls

/-!
# The client's context in memory

The handlers of `client_ui.c` and `client_mng.c` on the fixed array of sessions:
the append of create and join, the close, shift and re-zero of a leave, the
clearing of a logout. What a handler sends `SIGTERM` is part of its outcome.
-/
namespace MeshChat.Client.Memory
open Server Runs

/-- `strncpy(dst, src, n)`: a longer string is cut, a shorter one filled up with zeros. -/
def strncpyInto (dst : List UInt8) (src : CStr) (n : ℕ) : List UInt8 :=
  memcpy dst 0 ((src.bytes ++ List.replicate n 0).take n)

@[simp] theorem strncpyInto_length (dst : List UInt8) (src : CStr) (n : ℕ) :
    (strncpyInto dst src n).length = dst.length := memcpy_length _ _ _

/-- `strncmp(a, b, n) == 0`. -/
def strncmpEq (a b : List UInt8) (n : ℕ) : Bool :=
  decide ((a.take n).takeWhile (· != 0) = (b.take n).takeWhile (· != 0))

structure GroupSession where
  groupName : List UInt8
  multicastIp : List UInt8
  multicastPort : UInt16
  senderPid : Int
  receiverPid : Int
  name_size : groupName.length = maxGroupNameLen
  ip_size : multicastIp.length = mcastIpLen
  deriving DecidableEq

namespace GroupSession

/-- `memset(session, 0, sizeof(GroupSession))`. -/
def zero : GroupSession :=
  ⟨List.replicate maxGroupNameLen 0, List.replicate mcastIpLen 0, 0, 0, 0,
    List.length_replicate, List.length_replicate⟩

/-- `strncmp` of the session's name with a name that was typed. -/
def isNamed (name : GroupName) (session : GroupSession) : Bool :=
  strncmpEq session.groupName name.bytes maxGroupNameLen

/-- The processes that the session's windows run in. -/
def positivePids (session : GroupSession) : List Int :=
  [session.senderPid, session.receiverPid].filter fun pid => decide (0 < pid)

end GroupSession

structure ClientContext where
  serverFd : Int
  state : ClientState
  username : List UInt8
  activeGroups : List GroupSession
  activeGroupCount : Int
  username_size : username.length = maxUsernameLen
  groups_size : activeGroups.length = maxGroups
  deriving DecidableEq

/-- The sessions that the client keeps. -/
def ClientContext.sessions (ctx : ClientContext) : List GroupSession :=
  ctx.activeGroups.take ctx.activeGroupCount.toNat

/-- The context with which `main` starts. -/
def startContext : ClientContext where
  serverFd := -1
  state := .disconnected
  username := List.replicate maxUsernameLen 0
  activeGroups := List.replicate maxGroups .zero
  activeGroupCount := 0
  username_size := List.length_replicate
  groups_size := List.length_replicate

/-- `net_connect`, once the connection is made. -/
def netConnect (sock : Int) (ctx : ClientContext) : ClientContext :=
  { ctx with serverFd := sock, state := .connected }

/-- `client_close_group_session`: the session is zeroed, and its windows are signalled. -/
def clientCloseGroupSession (session : GroupSession) : GroupSession × List Int :=
  (.zero, (if session.senderPid > 0 then [session.senderPid] else []) ++
    if session.receiverPid > 0 then [session.receiverPid] else [])

/-- The loop of `close_all_group_sessions`: `left` sessions from `i` on. -/
def closeLoop (sessions : List GroupSession) : ℕ → ℕ → List GroupSession × List Int
  | 0, _ => (sessions, [])
  | left + 1, i =>
      let closed := clientCloseGroupSession (sessions.getD i .zero)
      let rest := closeLoop (sessions.set i closed.1) left (i + 1)
      (rest.1, closed.2 ++ rest.2)

@[simp] theorem closeLoop_length (sessions : List GroupSession) (left i : ℕ) :
    (closeLoop sessions left i).1.length = sessions.length := by
  induction left generalizing sessions i with
  | zero => rfl
  | succ left ih => rw [closeLoop, ih, List.length_set]

def closeAllGroupSessions (ctx : ClientContext) : ClientContext × List Int :=
  let closed := closeLoop ctx.activeGroups ctx.activeGroupCount.toNat 0
  ({ ctx with
      activeGroups := closed.1
      activeGroupCount := 0
      groups_size := (closeLoop_length _ _ _).trans ctx.groups_size }, closed.2)

def clearClientContext (ctx : ClientContext) : ClientContext :=
  { ctx with
    username := List.replicate maxUsernameLen 0
    activeGroups := List.replicate maxGroups .zero
    activeGroupCount := 0
    username_size := List.length_replicate
    groups_size := List.length_replicate }

/-- The search of join and leave: the first of `left` sessions from `i` on that has
the name. -/
def findLoop (sessions : List GroupSession) (name : GroupName) : ℕ → ℕ → Option ℕ
  | 0, _ => none
  | left + 1, i =>
      if (sessions.getD i .zero).isNamed name then some i else findLoop sessions name left (i + 1)

/-- What comes from outside during an operation: the response, unless the exchange
fails, and the PIDs that spawning the windows writes into a new session. -/
structure Answer where
  response : Option TLVMessage
  pids : Int × Int

/-- The processes of the windows that were spawned, by the PIDs they report. -/
def Answer.windows (answer : Answer) : List Int :=
  [answer.pids.1, answer.pids.2].filter fun pid => decide (0 < pid)

/-- What an operation leaves and returns, the processes it signals, and those it opens. -/
structure Outcome where
  ctx : ClientContext
  ret : Int
  signalled : List Int
  opened : List Int

/-- An early `return -1`. -/
def failed (ctx : ClientContext) : Outcome := ⟨ctx, -1, [], []⟩

/-- The result of `net_send_recv`, which does not write the context. -/
def netSendRecv (ctx : ClientContext) (answer : Answer) : Option TLVMessage :=
  if ctx.serverFd < 0 then none else answer.response

def handleRegister (ctx : ClientContext) (username : Username) (password : Password)
    (answer : Answer) : Outcome :=
  match buildAuthMsg .blank .register username.toCStr password.toCStr with
  | none => failed ctx
  | some _ =>
      match netSendRecv ctx answer with
      | none => failed ctx
      | some response =>
          if response.tag ≠ MessageTag.success.code then failed ctx else ⟨ctx, 0, [], []⟩

def handleLogin (ctx : ClientContext) (username : Username) (password : Password)
    (answer : Answer) : Outcome :=
  match buildAuthMsg .blank .login username.toCStr password.toCStr with
  | none => failed ctx
  | some _ =>
      match netSendRecv ctx answer with
      | none => failed ctx
      | some response =>
          if response.tag ≠ MessageTag.success.code then failed ctx
          else
            let copied := strncpyInto ctx.username username.toCStr (maxUsernameLen - 1)
            ⟨{ ctx with
                username := memcpy copied (maxUsernameLen - 1) [0]
                state := .loggedIn
                username_size := by rw [memcpy_length, strncpyInto_length, ctx.username_size] },
              0, [], []⟩

/-- The session that create and join write into the array. -/
def newSession (name : GroupName) (ip : CharArray mcastIpLen) (port : UInt16) (pids : Int × Int) :
    GroupSession where
  groupName := strncpyInto GroupSession.zero.groupName name.toCStr (maxGroupNameLen - 1)
  multicastIp := strncpyInto GroupSession.zero.multicastIp ip.toCStr (mcastIpLen - 1)
  multicastPort := port
  senderPid := pids.1
  receiverPid := pids.2
  name_size := (strncpyInto_length _ _ _).trans GroupSession.zero.name_size
  ip_size := (strncpyInto_length _ _ _).trans GroupSession.zero.ip_size

/-- A session is written behind the others. -/
def addSession (ctx : ClientContext) (session : GroupSession) : ClientContext :=
  { ctx with
    activeGroups := ctx.activeGroups.set ctx.activeGroupCount.toNat session
    activeGroupCount := ctx.activeGroupCount + 1
    groups_size := by rw [List.length_set, ctx.groups_size] }

/-- The end of create and join, which is the same in both. -/
def saveSession (ctx : ClientContext) (name : GroupName) (answer : Answer) : Outcome :=
  match netSendRecv ctx answer with
  | none => failed ctx
  | some response =>
      if response.tag ≠ MessageTag.groupInfo.code then failed ctx
      else
        match parseGroupInfo response with
        | none => failed ctx
        | some (ip, port) =>
            ⟨addSession ctx (newSession name ip port answer.pids), 0, [], answer.windows⟩

def handleCreateGroup (ctx : ClientContext) (name : GroupName) (answer : Answer) : Outcome :=
  if ctx.activeGroupCount ≥ maxGroups then failed ctx
  else
    match buildGroupMsg .blank .createGroup name.toCStr with
    | none => failed ctx
    | some _ => saveSession ctx name answer

def handleJoinGroup (ctx : ClientContext) (name : GroupName) (answer : Answer) : Outcome :=
  if ctx.activeGroupCount ≥ maxGroups then failed ctx
  else
    match findLoop ctx.activeGroups name ctx.activeGroupCount.toNat 0 with
    | some _ => failed ctx
    | none =>
        match buildGroupMsg .blank .joinGroup name.toCStr with
        | none => failed ctx
        | some _ => saveSession ctx name answer

/-- The end of a leave: the session is closed, the ones behind it move up, and the
last cell is zeroed. -/
def dropSession (ctx : ClientContext) (target : ℕ) : Outcome :=
  let closed := clientCloseGroupSession (ctx.activeGroups.getD target .zero)
  let groups := ctx.activeGroups.set target closed.1
  let groups := FrontArray.shift .zero groups (ctx.activeGroupCount - 1 - target).toNat target
  let count := ctx.activeGroupCount - 1
  ⟨{ ctx with
      activeGroups := groups.set count.toNat .zero
      activeGroupCount := count
      groups_size := by
        rw [List.length_set, FrontArray.shift_length, List.length_set, ctx.groups_size] },
    0, closed.2, []⟩

def handleLeaveGroup (ctx : ClientContext) (name : GroupName) (answer : Answer) : Outcome :=
  match findLoop ctx.activeGroups name ctx.activeGroupCount.toNat 0 with
  | none => failed ctx
  | some target =>
      match buildGroupMsg .blank .leaveGroup name.toCStr with
      | none => failed ctx
      | some _ =>
          match netSendRecv ctx answer with
          | none => failed ctx
          | some response =>
              if response.tag ≠ MessageTag.success.code then failed ctx
              else dropSession ctx target

/-- `client_logout`: the teardown does not look at the response. -/
def clientLogout (ctx : ClientContext) : Outcome :=
  if ctx.state ≠ .loggedIn then failed ctx
  else
    match buildSimpleMsg .blank .logout with
    | none => failed ctx
    | some _ =>
        let closed := closeAllGroupSessions ctx
        ⟨{ clearClientContext closed.1 with state := .connected }, 0, closed.2, []⟩

/-- An operation of the two screens with what was typed for it. -/
inductive Operation where
  | register (username : Username) (password : Password)
  | login (username : Username) (password : Password)
  | createGroup (name : GroupName)
  | joinGroup (name : GroupName)
  | leaveGroup (name : GroupName)
  | logout

def Operation.run (ctx : ClientContext) (answer : Answer) : Operation → Outcome
  | register username password => handleRegister ctx username password answer
  | login username password => handleLogin ctx username password answer
  | createGroup name => handleCreateGroup ctx name answer
  | joinGroup name => handleJoinGroup ctx name answer
  | leaveGroup name => handleLeaveGroup ctx name answer
  | logout => clientLogout ctx

/-- The request of an operation, unless a local check fails. -/
def Operation.request (ctx : ClientContext) : Operation → Option TLVMessage
  | register username password => buildAuthMsg .blank .register username.toCStr password.toCStr
  | login username password => buildAuthMsg .blank .login username.toCStr password.toCStr
  | createGroup name =>
      if ctx.activeGroupCount ≥ maxGroups then none
      else buildGroupMsg .blank .createGroup name.toCStr
  | joinGroup name =>
      if ctx.activeGroupCount ≥ maxGroups then none
      else
        match findLoop ctx.activeGroups name ctx.activeGroupCount.toNat 0 with
        | some _ => none
        | none => buildGroupMsg .blank .joinGroup name.toCStr
  | leaveGroup name =>
      match findLoop ctx.activeGroups name ctx.activeGroupCount.toNat 0 with
      | none => none
      | some _ => buildGroupMsg .blank .leaveGroup name.toCStr
  | logout => if ctx.state ≠ .loggedIn then none else buildSimpleMsg .blank .logout

theorem clientCloseGroupSession_signalled (session : GroupSession) :
    (clientCloseGroupSession session).2 = session.positivePids := by
  simp only [clientCloseGroupSession, GroupSession.positivePids, List.filter_cons, List.filter_nil,
    decide_eq_true_eq, gt_iff_lt]
  split <;> split <;> rfl

/-- Closing session after session signals the windows of each. -/
theorem closeLoop_signalled (front items back : List GroupSession) :
    (closeLoop (front ++ (items ++ back)) items.length front.length).2 =
      items.flatMap (·.positivePids) := by
  induction items generalizing front with
  | nil => rfl
  | cons session items ih =>
    have hget : (front ++ (session :: items ++ back)).getD front.length .zero = session := by simp
    have hset : (front ++ (session :: items ++ back)).set front.length .zero =
        (front ++ [.zero]) ++ (items ++ back) := by
      rw [List.set_append_right _ _ le_rfl, Nat.sub_self, List.cons_append, List.set_cons_zero,
        List.append_assoc]
      rfl
    have hrest := ih (front ++ [.zero])
    rw [List.length_append, List.length_singleton] at hrest
    simp only [List.length_cons, closeLoop, hget, List.flatMap_cons]
    rw [clientCloseGroupSession_signalled, ← hrest, ← hset]
    rfl

/-- The search finds the first session of the name. -/
theorem findLoop_eq (front items back : List GroupSession) (name : GroupName) :
    findLoop (front ++ (items ++ back)) name items.length front.length =
      (items.findIdx? (GroupSession.isNamed name)).map (front.length + ·) := by
  induction items generalizing front with
  | nil => rfl
  | cons session items ih =>
    have hget : (front ++ (session :: items ++ back)).getD front.length .zero = session := by simp
    have hrest := ih (front ++ [session])
    rw [List.length_append, List.length_singleton, List.append_assoc, List.singleton_append] at hrest
    simp only [List.length_cons, findLoop, hget, List.findIdx?_cons]
    split
    · rfl
    · rw [List.cons_append, hrest, Option.map_map]
      congr 1
      funext i
      simp only [Function.comp_apply]
      omega

/-- The array holds these sessions, and the count is their number. -/
structure Keeps (ctx : ClientContext) (sessions : List GroupSession) : Prop where
  cells : FrontArray.Holds .zero sessions ctx.activeGroups
  count : ctx.activeGroupCount = sessions.length

/-- What a successful operation does to the sessions, which it takes out, and which
windows it opens. -/
inductive SessionsStep (sessions : List GroupSession) :
    Operation → List GroupSession → List GroupSession → List Int → Prop
  | registered {username : Username} {password : Password} :
      SessionsStep sessions (.register username password) sessions [] []
  | loggedIn {username : Username} {password : Password} :
      SessionsStep sessions (.login username password) sessions [] []
  | created {name : GroupName} (session : GroupSession) :
      SessionsStep sessions (.createGroup name) (sessions ++ [session]) [] session.positivePids
  | joined {name : GroupName} (session : GroupSession) :
      SessionsStep sessions (.joinGroup name) (sessions ++ [session]) [] session.positivePids
  | left {name : GroupName} {session : GroupSession} :
      sessions.find? (GroupSession.isNamed name) = some session →
      SessionsStep sessions (.leaveGroup name) (sessions.eraseP (GroupSession.isNamed name))
        [session] []
  | loggedOut : SessionsStep sessions .logout [] sessions []

section Spec
variable {ctx : ClientContext} {sessions : List GroupSession}

theorem Keeps.sessions_eq (h : Keeps ctx sessions) : ctx.sessions = sessions := by
  rw [ClientContext.sessions, h.count, Int.toNat_natCast]
  exact h.cells.take

theorem Keeps.length_le (h : Keeps ctx sessions) : sessions.length ≤ maxGroups :=
  h.cells.length_le.trans_eq ctx.groups_size

theorem Keeps.findLoop (h : Keeps ctx sessions) (name : GroupName) :
    findLoop ctx.activeGroups name ctx.activeGroupCount.toNat 0 =
      sessions.findIdx? (GroupSession.isNamed name) := by
  obtain ⟨free, hcells⟩ := h.cells
  have hfind := findLoop_eq [] sessions (List.replicate free .zero) name
  rw [List.nil_append, ← hcells] at hfind
  rw [h.count, Int.toNat_natCast]
  refine hfind.trans ?_
  simp

theorem handleRegister_spec (ctx : ClientContext) (username : Username) (password : Password)
    (answer : Answer) : handleRegister ctx username password answer = failed ctx ∨
      handleRegister ctx username password answer = ⟨ctx, 0, [], []⟩ := by
  unfold handleRegister
  split
  · exact Or.inl rfl
  · split
    · exact Or.inl rfl
    · exact ite_eq_or_eq _ _ _

theorem handleLogin_spec (h : Keeps ctx sessions) (username : Username) (password : Password)
    (answer : Answer) : handleLogin ctx username password answer = failed ctx ∨
      ∃ ctx', Keeps ctx' sessions ∧
        handleLogin ctx username password answer = ⟨ctx', 0, [], []⟩ := by
  unfold handleLogin
  split
  · exact Or.inl rfl
  · split
    · exact Or.inl rfl
    · split
      · exact Or.inl rfl
      · refine Or.inr ⟨_, ?_, rfl⟩
        exact ⟨h.cells, h.count⟩

theorem Keeps.addSession (h : Keeps ctx sessions) (hroom : ¬ ctx.activeGroupCount ≥ maxGroups)
    (session : GroupSession) : Keeps (addSession ctx session) (sessions ++ [session]) := by
  have hcount := h.count
  have hlt : sessions.length < ctx.activeGroups.length := by
    rw [ctx.groups_size]
    omega
  constructor
  · have happend := h.cells.append hlt session
    change FrontArray.Holds .zero _ (ctx.activeGroups.set ctx.activeGroupCount.toNat session)
    rwa [hcount, Int.toNat_natCast]
  · change ctx.activeGroupCount + 1 = _
    rw [hcount, List.length_append, List.length_singleton]
    rfl

theorem saveSession_spec (h : Keeps ctx sessions) (hroom : ¬ ctx.activeGroupCount ≥ maxGroups)
    (name : GroupName) (answer : Answer) :
    saveSession ctx name answer = failed ctx ∨
      ∃ session, Keeps (saveSession ctx name answer).ctx (sessions ++ [session]) ∧
        (saveSession ctx name answer).ret = 0 ∧ (saveSession ctx name answer).signalled = [] ∧
        (saveSession ctx name answer).opened = session.positivePids := by
  unfold saveSession
  split
  · exact Or.inl rfl
  · split
    · exact Or.inl rfl
    · split
      · exact Or.inl rfl
      · exact Or.inr ⟨_, h.addSession hroom _, rfl, rfl, rfl⟩

theorem handleCreateGroup_spec (h : Keeps ctx sessions) (name : GroupName) (answer : Answer) :
    handleCreateGroup ctx name answer = failed ctx ∨
      ∃ session, Keeps (handleCreateGroup ctx name answer).ctx (sessions ++ [session]) ∧
        (handleCreateGroup ctx name answer).ret = 0 ∧
        (handleCreateGroup ctx name answer).signalled = [] ∧
        (handleCreateGroup ctx name answer).opened = session.positivePids := by
  unfold handleCreateGroup
  split
  · exact Or.inl rfl
  · rename_i hroom
    split
    · exact Or.inl rfl
    · exact saveSession_spec h hroom name answer

theorem handleJoinGroup_spec (h : Keeps ctx sessions) (name : GroupName) (answer : Answer) :
    handleJoinGroup ctx name answer = failed ctx ∨
      ∃ session, Keeps (handleJoinGroup ctx name answer).ctx (sessions ++ [session]) ∧
        (handleJoinGroup ctx name answer).ret = 0 ∧
        (handleJoinGroup ctx name answer).signalled = [] ∧
        (handleJoinGroup ctx name answer).opened = session.positivePids := by
  unfold handleJoinGroup
  split
  · exact Or.inl rfl
  · rename_i hroom
    split
    · exact Or.inl rfl
    · split
      · exact Or.inl rfl
      · exact saveSession_spec h hroom name answer

theorem dropSession_spec (h : Keeps ctx sessions) {target : ℕ} (ht : target < sessions.length) :
    Keeps (dropSession ctx target).ctx (sessions.eraseIdx target) ∧
      (dropSession ctx target).signalled = sessions[target].positivePids := by
  have hcount := h.count
  have hleft : (ctx.activeGroupCount - 1 - target).toNat = sessions.length - 1 - target := by omega
  have hlast : (ctx.activeGroupCount - 1).toNat = sessions.length - 1 := by omega
  refine ⟨⟨?_, ?_⟩, ?_⟩
  · have herase := h.cells.erase ht GroupSession.zero
    simp only [dropSession, hleft, hlast]
    exact herase
  · rw [List.length_eraseIdx_of_lt ht]
    change ctx.activeGroupCount - 1 = _
    omega
  · change (clientCloseGroupSession _).2 = _
    rw [clientCloseGroupSession_signalled, h.cells.getD, List.getD_eq_getElem _ _ ht]

theorem handleLeaveGroup_spec (h : Keeps ctx sessions) (name : GroupName) (answer : Answer) :
    handleLeaveGroup ctx name answer = failed ctx ∨
      ∃ session, sessions.find? (GroupSession.isNamed name) = some session ∧
        Keeps (handleLeaveGroup ctx name answer).ctx
          (sessions.eraseP (GroupSession.isNamed name)) ∧
        (handleLeaveGroup ctx name answer).ret = 0 ∧
        (handleLeaveGroup ctx name answer).signalled = session.positivePids ∧
        (handleLeaveGroup ctx name answer).opened = [] := by
  unfold handleLeaveGroup
  rw [h.findLoop]
  cases hfind : sessions.findIdx? (GroupSession.isNamed name) with
  | none => exact Or.inl rfl
  | some target =>
    obtain ⟨ht, hnamed, hfirst⟩ := List.findIdx?_eq_some_iff_getElem.mp hfind
    obtain ⟨hkeeps, hsignalled⟩ := dropSession_spec h ht
    dsimp only
    split
    · exact Or.inl rfl
    · split
      · exact Or.inl rfl
      · split
        · exact Or.inl rfl
        · refine Or.inr ⟨sessions[target], ?_, ?_, rfl, hsignalled, rfl⟩
          · exact List.find?_eq_some_iff_getElem.mpr ⟨hnamed, target, ht, rfl, fun j hj => by
              simpa using hfirst j hj⟩
          · rwa [List.eraseP_eq_eraseIdx, hfind]

theorem clientLogout_spec (h : Keeps ctx sessions) :
    clientLogout ctx = failed ctx ∨
      Keeps (clientLogout ctx).ctx [] ∧ (clientLogout ctx).ret = 0 ∧
        (clientLogout ctx).signalled = sessions.flatMap (·.positivePids) ∧
        (clientLogout ctx).opened = [] := by
  unfold clientLogout
  split
  · exact Or.inl rfl
  · split
    · exact Or.inl rfl
    · refine Or.inr ⟨⟨FrontArray.holds_nil _ _, rfl⟩, rfl, ?_, rfl⟩
      obtain ⟨free, hcells⟩ := h.cells
      have hloop := closeLoop_signalled [] sessions (List.replicate free .zero)
      rw [List.nil_append, ← hcells] at hloop
      simp only [closeAllGroupSessions, h.count, Int.toNat_natCast]
      exact hloop

/-- Every operation fails and changes nothing, or does its step on the sessions and
signals the windows of those that it takes out. -/
theorem run_spec (h : Keeps ctx sessions) (op : Operation) (answer : Answer) :
    op.run ctx answer = failed ctx ∨
      ∃ sessions' removed, Keeps (op.run ctx answer).ctx sessions' ∧
        SessionsStep sessions op sessions' removed (op.run ctx answer).opened ∧
        (op.run ctx answer).ret = 0 ∧
        (op.run ctx answer).signalled = removed.flatMap (·.positivePids) := by
  cases op with
  | register username password =>
    refine (handleRegister_spec ctx username password answer).imp_right fun hrun => ?_
    rw [Operation.run, hrun]
    exact ⟨sessions, [], h, .registered, rfl, rfl⟩
  | login username password =>
    refine (handleLogin_spec h username password answer).imp_right ?_
    rintro ⟨ctx', hkeeps, hrun⟩
    rw [Operation.run, hrun]
    exact ⟨sessions, [], hkeeps, .loggedIn, rfl, rfl⟩
  | createGroup name =>
    refine (handleCreateGroup_spec h name answer).imp_right ?_
    rintro ⟨session, hkeeps, hret, hsignalled, hopened⟩
    rw [Operation.run, hopened]
    exact ⟨_, [], hkeeps, .created session, hret, hsignalled⟩
  | joinGroup name =>
    refine (handleJoinGroup_spec h name answer).imp_right ?_
    rintro ⟨session, hkeeps, hret, hsignalled, hopened⟩
    rw [Operation.run, hopened]
    exact ⟨_, [], hkeeps, .joined session, hret, hsignalled⟩
  | leaveGroup name =>
    refine (handleLeaveGroup_spec h name answer).imp_right ?_
    rintro ⟨session, hfind, hkeeps, hret, hsignalled, hopened⟩
    rw [Operation.run, hopened]
    exact ⟨_, [session], hkeeps, .left hfind, hret,
      hsignalled.trans (List.flatMap_singleton _ _).symm⟩
  | logout =>
    refine (clientLogout_spec h).imp_right ?_
    rintro ⟨hkeeps, hret, hsignalled, hopened⟩
    rw [Operation.run, hopened]
    exact ⟨_, _, hkeeps, .loggedOut, hret, hsignalled⟩

end Spec

/-- An operation with what came from outside during it. -/
structure Input where
  op : Operation
  answer : Answer

def Step (ctx : ClientContext) (input : Input) (ctx' : ClientContext) : Prop :=
  ctx' = (input.op.run ctx input.answer).ctx

/-- The outcome of a recorded step. -/
def outcome (m : Move ClientContext Input) : Outcome := m.label.op.run m.pre m.label.answer

/-- The sessions that an operation takes out when it succeeds: the first of the name
on a leave, all on a logout. -/
def removed (m : Move ClientContext Input) : List GroupSession :=
  if (outcome m).ret ≠ 0 then []
  else
    match m.label.op with
    | .leaveGroup name => (m.pre.sessions.find? (GroupSession.isNamed name)).toList
    | .logout => m.pre.sessions
    | _ => []

theorem SessionsStep.removed_eq {m : Move ClientContext Input} {sessions' gone : List GroupSession}
    {opened : List Int} (h : SessionsStep m.pre.sessions m.label.op sessions' gone opened)
    (hret : (outcome m).ret = 0) : removed m = gone := by
  rw [removed, if_neg (not_not.mpr hret)]
  generalize m.label.op = op at h
  cases h with
  | left hfind => simp only [hfind, Option.toList_some]
  | _ => rfl

/-- What one step of a run does, in terms of the sessions before and after it. -/
structure TableStep (m : Move ClientContext Input) : Prop where
  unchanged : (outcome m).ret = -1 → m.post = m.pre
  left : ∀ name, m.label.op = .leaveGroup name → (outcome m).ret = 0 →
    (∃ session ∈ m.pre.sessions, session.isNamed name = true) ∧
      m.post.sessions = m.pre.sessions.eraseP (GroupSession.isNamed name)
  signalled : (outcome m).signalled = (removed m).flatMap (·.positivePids)

/-- The context holds some sessions, and nothing behind them. -/
def Sound (ctx : ClientContext) : Prop := ∃ sessions, Keeps ctx sessions

theorem Sound.step {m : Move ClientContext Input} (h : Sound m.pre)
    (hs : Step m.pre m.label m.post) : Sound m.post ∧ TableStep m := by
  obtain ⟨sessions, hkeeps⟩ := h
  have hpost : m.post = (outcome m).ctx := hs
  have hpre := hkeeps.sessions_eq
  rcases run_spec hkeeps m.label.op m.label.answer with
    hfail | ⟨sessions', gone, hnew, hstep, hret, hsignalled⟩
  · have hout : outcome m = failed m.pre := hfail
    rw [hout] at hpost
    refine ⟨⟨sessions, hpost ▸ hkeeps⟩, fun _ => hpost, fun name _ hret => ?_, ?_⟩
    · rw [hout] at hret
      cases hret
    · have hret : (failed m.pre).ret ≠ 0 := by simp [failed]
      rw [removed, hout, if_pos hret]
      rfl
  · have hkeeps' : Keeps m.post sessions' := hpost ▸ hnew
    refine ⟨⟨sessions', hkeeps'⟩, fun hfail => ?_, fun name hop _ => ?_, ?_⟩
    · rw [outcome, hret] at hfail
      cases hfail
    · rw [hop] at hstep
      generalize (Operation.run _ _ _).opened = opened at hstep
      rw [hpre, hkeeps'.sessions_eq]
      cases hstep with
      | left hfind => exact ⟨⟨_, List.mem_of_find?_eq_some hfind, List.find?_some hfind⟩, rfl⟩
    · rw [← hpre] at hstep
      rw [hstep.removed_eq hret]
      exact hsignalled

theorem startContext_sound (sock : Int) : Sound (netConnect sock startContext) :=
  ⟨[], FrontArray.holds_nil _ _, rfl⟩

/-- Every step of a run is one of the table. -/
theorem sound_of_run {sock : Int} {ctx : ClientContext} {moves : List (Move ClientContext Input)}
    (hr : Run Step (netConnect sock startContext) moves ctx) :
    Sound ctx ∧ ∀ m ∈ moves, TableStep m := by
  induction hr with
  | start => exact ⟨startContext_sound sock, List.forall_mem_nil _⟩
  | @snoc moves ctx ctx' input _ hs ih =>
    obtain ⟨hnew, hstep⟩ := ih.1.step (m := ⟨ctx, input, ctx'⟩) hs
    exact ⟨hnew, List.forall_mem_append.mpr ⟨ih.2, List.forall_mem_singleton.mpr hstep⟩⟩

/-- The session table over every run of operations: the count stays within the
array and everything behind it is zero, a failed operation changes nothing, a
leave erases the first session of the name, and the processes signalled are those
of the sessions taken out, each once and in order. -/
theorem session_table {sock : Int} {ctx : ClientContext} {moves : List (Move ClientContext Input)}
    (hr : Run Step (netConnect sock startContext) moves ctx) :
    (0 ≤ ctx.activeGroupCount ∧ ctx.activeGroupCount ≤ maxGroups) ∧
      (∀ i < maxGroups, ctx.activeGroupCount ≤ i → ctx.activeGroups[i]? = some .zero) ∧
      (∀ m ∈ moves, (outcome m).ret = -1 → m.post = m.pre) ∧
      (∀ m ∈ moves, ∀ name, m.label.op = .leaveGroup name → (outcome m).ret = 0 →
        (∃ session ∈ m.pre.sessions, session.isNamed name = true) ∧
          m.post.sessions = m.pre.sessions.eraseP (GroupSession.isNamed name)) ∧
      moves.flatMap (fun m => (outcome m).signalled) =
        (moves.flatMap removed).flatMap (·.positivePids) := by
  obtain ⟨⟨sessions, hkeeps⟩, hsteps⟩ := sound_of_run hr
  have hcount := hkeeps.count
  have hle := hkeeps.length_le
  refine ⟨⟨by omega, by omega⟩, fun i hi hfree => ?_, fun m hm => (hsteps m hm).unchanged,
    fun m hm => (hsteps m hm).left, ?_⟩
  · exact hkeeps.cells.blank_of_le (by omega) (by rwa [ctx.groups_size])
  · rw [List.flatMap_assoc]
    exact List.flatMap_congr fun m hm => (hsteps m hm).signalled

/-- An input that the client takes. -/
def takeInput (ctx : ClientContext) (input : Input) : Input × ClientContext :=
  (input, (input.op.run ctx input.answer).ctx)

/-- A success, or the address of a group, with the PIDs of its windows. -/
def succeeds : Answer := ⟨some (buildSuccessMsg .blank), 0, 0⟩

def opens (sender receiver : Int) : Answer :=
  ⟨buildGroupInfoMsg .blank (poolEntry 0).ip.toCStr (poolEntry 0).port, sender, receiver⟩

/-- A user logs in, opens two groups, leaves the first and logs out. -/
def visit : List Input :=
  [⟨.login (nameOf 0) (strncpy (nameOf 0).toCStr), succeeds⟩, ⟨.createGroup (nameOf 0), opens 11 12⟩,
    ⟨.joinGroup (nameOf 1), opens 21 22⟩, ⟨.leaveGroup (nameOf 0), succeeds⟩, ⟨.logout, succeeds⟩]

theorem session_table_visit :
    let moves := play takeInput (netConnect 3 startContext) visit
    moves.flatMap (fun m => (outcome m).signalled) =
        (moves.flatMap removed).flatMap (·.positivePids) ∧
      moves.flatMap (fun m => (outcome m).signalled) = [11, 12, 21, 22] :=
  ⟨(session_table (Run.of_play (P := fun _ => True) (fun _ _ _ => rfl) fun _ _ => trivial)).2.2.2.2,
    by decide +kernel⟩

end MeshChat.Client.Memory
