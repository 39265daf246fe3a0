import MeshChat.Client.Memory

/-!
# The two models of the client's context

The handlers on the array of sessions do what the handlers on a list of sessions
do, from which the runs of the whole system are built. A string lies in its
array with zeros behind it, and a session in the first free cell.
-/
namespace MeshChat.Client.Memory
open Server Runs

/-- The string and zeros up to the end of its array. -/
def padded {cap : ℕ} (s : CharArray cap) : List UInt8 :=
  s.bytes ++ List.replicate (cap - s.bytes.length) 0

/-- The part of it that `strncpy` writes. -/
def copied {cap : ℕ} (s : CharArray cap) : List UInt8 :=
  s.bytes ++ List.replicate (cap - 1 - s.bytes.length) 0

section Strings
variable {cap : ℕ}

theorem copied_length (s : CharArray cap) : (copied s).length = cap - 1 := by
  have := s.fits
  simp only [copied, List.length_append, List.length_replicate]
  omega

theorem padded_eq (s : CharArray cap) : padded s = copied s ++ [0] := by
  have hs := s.fits
  have hsize : cap - s.bytes.length = cap - 1 - s.bytes.length + 1 := by omega
  rw [padded, hsize, List.replicate_succ', copied, List.append_assoc]

theorem padded_length (s : CharArray cap) : (padded s).length = cap := by
  have := s.fits
  rw [padded_eq, List.length_append, copied_length, List.length_singleton]
  omega

/-- A string that fits is copied whole, and the last byte stays what it was. -/
theorem strncpyInto_eq {dst : List UInt8} (hd : dst.length = cap) (s : CharArray cap) :
    ∃ last, strncpyInto dst s.toCStr (cap - 1) = copied s ++ [last] ∧ last ∈ dst := by
  have hs := s.fits
  have hsrc : (s.bytes ++ List.replicate (cap - 1) 0).take (cap - 1) = copied s := by
    rw [List.take_append, List.take_of_length_le (by omega), List.take_replicate,
      min_eq_left (Nat.sub_le _ _), copied]
  have hrest : (dst.drop (cap - 1)).length = 1 := by
    rw [List.length_drop]
    omega
  obtain ⟨last, hlast⟩ := List.length_eq_one_iff.mp hrest
  refine ⟨last, ?_, List.mem_of_mem_drop (hlast ▸ List.mem_singleton_self last)⟩
  rw [strncpyInto, hsrc, memcpy, List.take_zero, List.nil_append, Nat.zero_add, copied_length, hlast]
  apply List.take_of_length_le
  rw [List.length_append, copied_length, List.length_singleton]
  omega

/-- Into an array of zeros. -/
theorem strncpyInto_zeros (s : CharArray cap) :
    strncpyInto (List.replicate cap 0) s.toCStr (cap - 1) = padded s := by
  obtain ⟨last, heq, hlast⟩ := strncpyInto_eq List.length_replicate s
  rw [heq, padded_eq, List.eq_of_mem_replicate hlast]

/-- Into any array, with a terminator at its end. -/
theorem strncpyInto_terminated {dst : List UInt8} (hd : dst.length = cap) (s : CharArray cap) :
    memcpy (strncpyInto dst s.toCStr (cap - 1)) (cap - 1) [0] = padded s := by
  obtain ⟨last, heq, -⟩ := strncpyInto_eq hd s
  rw [heq, padded_eq, ← copied_length s]
  simp [memcpy]

theorem takeWhile_padded (s : CharArray cap) :
    (padded s).takeWhile (· != 0) = s.bytes := by
  have hbytes : s.bytes.takeWhile (· != 0) = s.bytes := ofBytes_bytes_of_nul_free s.nul_free
  obtain ⟨rest, hrest⟩ : ∃ rest, cap - s.bytes.length = rest + 1 :=
    ⟨cap - s.bytes.length - 1, by have := s.fits; omega⟩
  rw [padded, hrest, List.replicate_succ, List.takeWhile_append, if_pos (by rw [hbytes])]
  simp

/-- `strncmp` finds the string in its array. -/
theorem strncmpEq_padded (s t : CharArray cap) :
    strncmpEq (padded s) t.bytes cap = decide (s = t) := by
  have ht := t.fits
  have hbytes : t.bytes.takeWhile (· != 0) = t.bytes := ofBytes_bytes_of_nul_free t.nul_free
  rw [strncmpEq, List.take_of_length_le (padded_length s).le, List.take_of_length_le ht.le,
    takeWhile_padded, hbytes, decide_eq_decide]
  exact ⟨CharArray.ext, fun h => h ▸ rfl⟩

end Strings

/-- The cell holds the session; a PID that `kill` must not get is 0 there. -/
structure Stores (cell : GroupSession) (session : Client.GroupSession) : Prop where
  name : cell.groupName = padded session.groupName
  ip : cell.multicastIp = padded session.multicastIp
  port : cell.multicastPort = session.multicastPort
  sender : session.senderPid = cell.senderPid.toNat
  receiver : session.receiverPid = cell.receiverPid.toNat

/-- The session that create and join make, in both models. -/
theorem stores_newSession (name : GroupName) (ip : CharArray mcastIpLen) (port : UInt16)
    (pids : Int × Int) : Stores (newSession name ip port pids)
      { Client.GroupSession.opened name.toCStr ip.toCStr port with
        senderPid := pids.1.toNat, receiverPid := pids.2.toNat } where
  name := (strncpyInto_zeros name).trans (by simp [Client.GroupSession.opened])
  ip := (strncpyInto_zeros ip).trans (by simp [Client.GroupSession.opened])
  port := rfl
  sender := rfl
  receiver := rfl

theorem Stores.isNamed {cell : GroupSession} {session : Client.GroupSession}
    (h : Stores cell session) (name : GroupName) :
    cell.isNamed name = Client.isNamed name session := by
  rw [GroupSession.isNamed, h.name, strncmpEq_padded, Bool.eq_iff_iff, decide_eq_true_iff,
    isNamed_iff]

/-- Closing signals the same processes. -/
theorem Stores.positivePids {cell : GroupSession} {session : Client.GroupSession}
    (h : Stores cell session) : cell.positivePids.map Int.toNat = session.close := by
  have hpid : ∀ pid : Int, 0 < pid.toNat ↔ 0 < pid := by omega
  simp only [GroupSession.positivePids, Client.GroupSession.close, h.sender, h.receiver, gt_iff_lt,
    hpid, List.filter_cons, List.filter_nil, decide_eq_true_eq]
  split <;> split <;> rfl

/-- The array lays out the list of sessions, and the rest is the same. -/
structure LaysOut (ctx : ClientContext) (c : Client.ClientContext) : Prop where
  serverFd : ctx.serverFd = c.serverFd
  state : ctx.state = c.state
  username : ctx.username = padded c.username
  sessions : ∃ cells, Keeps ctx cells ∧ List.Forall₂ Stores cells c.activeGroups

theorem laysOut_start (sock : Int) :
    LaysOut (netConnect sock startContext) (Client.netConnect sock Client.startContext) where
  serverFd := rfl
  state := rfl
  username := rfl
  sessions := ⟨[], ⟨FrontArray.holds_nil _ _, rfl⟩, .nil⟩

/-- The choice in the menu that starts the operation. -/
def Operation.command : Operation → Command
  | register username password => .register username password
  | login username password => .login username password
  | createGroup name => .createGroup name
  | joinGroup name => .joinGroup name
  | leaveGroup name => .leaveGroup name
  | logout => .logout

/-- The handler of the other model, with the PIDs it may be given. -/
def Input.handler (input : Input) : Handler :=
  input.op.command.handler (input.answer.pids.1.toNat, input.answer.pids.2.toNat)

/-- What a handler of that model makes of a response: it fails where it makes no
request, and goes on with the response otherwise. -/
def Handler.respond (handler : Handler) (c : Client.ClientContext) (response : Option TLVMessage) :
    Client.ClientContext × Int :=
  match handler.request c .blank with
  | none => (c, -1)
  | some _ => handler.finish c response

def Input.runHandler (input : Input) (c : Client.ClientContext) : Client.ClientContext × Int :=
  Handler.respond input.handler c (if c.serverFd < 0 then none else input.answer.response)

/-- The outcome lays out the context that the other handler leaves, and both return
the same. -/
def Matches (r : Outcome) (r' : Client.ClientContext × Int) : Prop :=
  LaysOut r.ctx r'.1 ∧ r.ret = r'.2

section Handlers
variable {ctx : ClientContext} {c : Client.ClientContext}

theorem LaysOut.count (h : LaysOut ctx c) : ctx.activeGroupCount = c.activeGroups.length := by
  obtain ⟨cells, hkeeps, hstores⟩ := h.sessions
  rw [hkeeps.count, hstores.length_eq]

theorem LaysOut.full_iff (h : LaysOut ctx c) :
    ctx.activeGroupCount ≥ maxGroups ↔ c.activeGroups.length ≥ maxGroups := by
  rw [h.count, ge_iff_le, Nat.cast_le]

theorem findIdx?_isNamed {cells : List GroupSession} {sessions : List Client.GroupSession}
    (h : List.Forall₂ Stores cells sessions) (name : GroupName) :
    cells.findIdx? (GroupSession.isNamed name) = sessions.findIdx? (Client.isNamed name) := by
  induction h with
  | nil => rfl
  | cons hcell _ ih => rw [List.findIdx?_cons, List.findIdx?_cons, ih, hcell.isNamed]

/-- Both searches find the same position. -/
theorem LaysOut.findLoop_eq (h : LaysOut ctx c) (name : GroupName) :
    findLoop ctx.activeGroups name ctx.activeGroupCount.toNat 0 =
      c.activeGroups.findIdx? (Client.isNamed name) := by
  obtain ⟨cells, hkeeps, hstores⟩ := h.sessions
  rw [hkeeps.findLoop, findIdx?_isNamed hstores]

theorem LaysOut.of_saveSession (h : LaysOut ctx c) (hroom : ¬ ctx.activeGroupCount ≥ maxGroups)
    (name : GroupName) (answer : Answer) :
    Matches (saveSession ctx name answer)
      (Client.saveSession (answer.pids.1.toNat, answer.pids.2.toNat) name c
        (netSendRecv ctx answer)) := by
  unfold saveSession Client.saveSession
  cases netSendRecv ctx answer with
  | none => exact ⟨h, rfl⟩
  | some response =>
    dsimp only
    by_cases htag : response.tag ≠ MessageTag.groupInfo.code
    · rw [if_pos htag, if_pos htag]
      exact ⟨h, rfl⟩
    · rw [if_neg htag, if_neg htag]
      cases parseGroupInfo response with
      | none => exact ⟨h, rfl⟩
      | some r =>
        obtain ⟨cells, hkeeps, hstores⟩ := h.sessions
        have hnew := stores_newSession name r.1 r.2 answer.pids
        exact ⟨⟨h.serverFd, h.state, h.username, _, hkeeps.addSession hroom _,
          List.rel_append hstores (.cons hnew .nil)⟩, rfl⟩

/-- The array after a session was taken out lays out the list without it. -/
theorem LaysOut.of_dropSession (h : LaysOut ctx c) {target : ℕ}
    (ht : target < c.activeGroups.length) :
    LaysOut (dropSession ctx target).ctx
      { c with activeGroups := c.activeGroups.eraseIdx target } := by
  obtain ⟨cells, hkeeps, hstores⟩ := h.sessions
  have ht' : target < cells.length := by rwa [hstores.length_eq]
  refine ⟨h.serverFd, h.state, h.username, _, (dropSession_spec hkeeps ht').1, ?_⟩
  rw [List.eraseIdx_eq_take_drop_succ, List.eraseIdx_eq_take_drop_succ]
  exact List.rel_append (List.forall₂_take _ hstores) (List.forall₂_drop _ hstores)

theorem LaysOut.of_register (h : LaysOut ctx c) (username : Username) (password : Password)
    (answer : Answer) : Matches (handleRegister ctx username password answer)
      (Handler.respond (Client.handleRegister username password) c (netSendRecv ctx answer)) := by
  simp only [Handler.respond, Client.handleRegister, handleRegister]
  cases buildAuthMsg .blank .register username.toCStr password.toCStr with
  | none => exact ⟨h, rfl⟩
  | some m =>
    cases netSendRecv ctx answer with
    | none => exact ⟨h, rfl⟩
    | some response =>
      dsimp only
      split <;> exact ⟨h, rfl⟩

theorem LaysOut.of_login (h : LaysOut ctx c) (username : Username) (password : Password)
    (answer : Answer) : Matches (handleLogin ctx username password answer)
      (Handler.respond (Client.handleLogin username password) c (netSendRecv ctx answer)) := by
  simp only [Handler.respond, Client.handleLogin, handleLogin]
  cases buildAuthMsg .blank .login username.toCStr password.toCStr with
  | none => exact ⟨h, rfl⟩
  | some m =>
    cases netSendRecv ctx answer with
    | none => exact ⟨h, rfl⟩
    | some response =>
      dsimp only
      split
      · exact ⟨h, rfl⟩
      · obtain ⟨cells, hkeeps, hstores⟩ := h.sessions
        refine ⟨⟨h.serverFd, rfl, ?_, cells, ⟨hkeeps.cells, hkeeps.count⟩, hstores⟩, rfl⟩
        rw [strncpy_self]
        exact strncpyInto_terminated ctx.username_size username

theorem LaysOut.of_createGroup (h : LaysOut ctx c) (name : GroupName) (answer : Answer) :
    Matches (handleCreateGroup ctx name answer) (Handler.respond
      (Client.handleCreateGroup (answer.pids.1.toNat, answer.pids.2.toNat) name) c
      (netSendRecv ctx answer)) := by
  simp only [Handler.respond, Client.handleCreateGroup, handleCreateGroup]
  by_cases hfull : ctx.activeGroupCount ≥ maxGroups
  · rw [if_pos hfull, if_pos (h.full_iff.mp hfull)]
    exact ⟨h, rfl⟩
  · rw [if_neg hfull, if_neg (mt h.full_iff.mpr hfull)]
    cases buildGroupMsg .blank .createGroup name.toCStr with
    | none => exact ⟨h, rfl⟩
    | some m => exact h.of_saveSession hfull name answer

theorem LaysOut.of_joinGroup (h : LaysOut ctx c) (name : GroupName) (answer : Answer) :
    Matches (handleJoinGroup ctx name answer) (Handler.respond
      (Client.handleJoinGroup (answer.pids.1.toNat, answer.pids.2.toNat) name) c
      (netSendRecv ctx answer)) := by
  simp only [Handler.respond, Client.handleJoinGroup, handleJoinGroup, h.findLoop_eq,
    ← List.findIdx?_isSome]
  by_cases hfull : ctx.activeGroupCount ≥ maxGroups
  · rw [if_pos hfull, if_pos (h.full_iff.mp hfull)]
    exact ⟨h, rfl⟩
  · rw [if_neg hfull, if_neg (mt h.full_iff.mpr hfull)]
    cases c.activeGroups.findIdx? (Client.isNamed name) with
    | some target => exact ⟨h, rfl⟩
    | none =>
      rw [if_neg (by simp)]
      cases buildGroupMsg .blank .joinGroup name.toCStr with
      | none => exact ⟨h, rfl⟩
      | some m => exact h.of_saveSession hfull name answer

theorem LaysOut.of_leaveGroup (h : LaysOut ctx c) (name : GroupName) (answer : Answer) :
    Matches (handleLeaveGroup ctx name answer)
      (Handler.respond (Client.handleLeaveGroup name) c (netSendRecv ctx answer)) := by
  simp only [Handler.respond, Client.handleLeaveGroup, handleLeaveGroup, h.findLoop_eq]
  cases hfind : c.activeGroups.findIdx? (Client.isNamed name) with
  | none => exact ⟨h, rfl⟩
  | some target =>
    dsimp only
    cases buildGroupMsg .blank .leaveGroup name.toCStr with
    | none => exact ⟨h, rfl⟩
    | some m =>
      cases netSendRecv ctx answer with
      | none => exact ⟨h, rfl⟩
      | some response =>
        dsimp only
        split
        · exact ⟨h, rfl⟩
        · obtain ⟨ht, htarget⟩ := List.findIdx?_eq_some_iff_findIdx_eq.mp hfind
          rw [htarget]
          exact ⟨h.of_dropSession ht, rfl⟩

theorem LaysOut.of_logout (h : LaysOut ctx c) (response : Option TLVMessage) :
    Matches (clientLogout ctx) (Handler.respond Client.clientLogout c response) := by
  simp only [Handler.respond, Client.clientLogout, clientLogout, h.state]
  by_cases hstate : c.state ≠ .loggedIn
  · rw [if_pos hstate, if_pos hstate]
    exact ⟨h, rfl⟩
  · rw [if_neg hstate, if_neg hstate]
    cases buildSimpleMsg .blank .logout with
    | none => exact ⟨h, rfl⟩
    | some m => exact ⟨⟨h.serverFd, rfl, rfl, [], ⟨FrontArray.holds_nil _ _, rfl⟩, .nil⟩, rfl⟩

/-- Both sides of an operation make the same request. -/
theorem LaysOut.request_eq (h : LaysOut ctx c) (op : Operation) :
    op.request ctx = op.command.request c .blank := by
  cases op with
  | register username password | login username password => rfl
  | createGroup name =>
    simp only [Operation.request, Operation.command, Command.request, Command.handler,
      Client.handleCreateGroup, h.full_iff]
  | joinGroup name =>
    cases hfind : c.activeGroups.findIdx? (Client.isNamed name) with
    | none | some target =>
      simp only [Operation.request, Operation.command, Command.request, Command.handler,
        Client.handleJoinGroup, h.full_iff, h.findLoop_eq, ← List.findIdx?_isSome, hfind,
        Option.isSome_none, Option.isSome_some, Bool.false_eq_true, if_false, if_true]
  | leaveGroup name =>
    cases hfind : c.activeGroups.findIdx? (Client.isNamed name) with
    | none | some target =>
      simp only [Operation.request, Operation.command, Command.request, Command.handler,
        Client.handleLeaveGroup, h.findLoop_eq, hfind]
  | logout =>
    simp only [Operation.request, Operation.command, Command.request, Command.handler,
      Client.clientLogout, h.state]

/-- An operation does in memory what its handler does. -/
theorem LaysOut.run (h : LaysOut ctx c) (input : Input) :
    Matches (input.op.run ctx input.answer) (input.runHandler c) := by
  obtain ⟨op, answer⟩ := input
  have hresponse : (if c.serverFd < 0 then none else answer.response) = netSendRecv ctx answer := by
    rw [netSendRecv, h.serverFd]
  rw [Input.runHandler, hresponse]
  cases op with
  | register username password => exact h.of_register username password answer
  | login username password => exact h.of_login username password answer
  | createGroup name => exact h.of_createGroup name answer
  | joinGroup name => exact h.of_joinGroup name answer
  | leaveGroup name => exact h.of_leaveGroup name answer
  | logout => exact h.of_logout _

/-- The sessions whose windows an operation closes. -/
def Input.closed (input : Input) (c : Client.ClientContext) : List Client.GroupSession :=
  if (input.runHandler c).2 ≠ 0 then []
  else
    match input.op with
    | .leaveGroup name => (c.activeGroups.find? (Client.isNamed name)).toList
    | .logout => c.activeGroups
    | _ => []

theorem find?_isNamed {cells : List GroupSession} {sessions : List Client.GroupSession}
    (h : List.Forall₂ Stores cells sessions) (name : GroupName) :
    List.Forall₂ Stores (cells.find? (GroupSession.isNamed name)).toList
      (sessions.find? (Client.isNamed name)).toList := by
  induction h with
  | nil => exact .nil
  | cons hcell _ ih =>
    rw [List.find?_cons, List.find?_cons, hcell.isNamed]
    split
    · exact .cons hcell .nil
    · exact ih

theorem flatMap_positivePids {cells : List GroupSession} {sessions : List Client.GroupSession}
    (h : List.Forall₂ Stores cells sessions) :
    (cells.flatMap (·.positivePids)).map Int.toNat = sessions.flatMap (·.close) := by
  induction h with
  | nil => rfl
  | cons hcell _ ih =>
    rw [List.flatMap_cons, List.flatMap_cons, List.map_append, ih, hcell.positivePids]

/-- What an operation signals are the windows of the sessions that it closes. -/
theorem LaysOut.signalled (h : LaysOut ctx c) (input : Input) :
    (input.op.run ctx input.answer).signalled.map Int.toNat =
      (input.closed c).flatMap (·.close) := by
  obtain ⟨cells, hkeeps, hstores⟩ := h.sessions
  let m : Move ClientContext Input := ⟨ctx, input, (input.op.run ctx input.answer).ctx⟩
  have hsignalled := (Sound.step (m := m) ⟨cells, hkeeps⟩ rfl).2.signalled
  have hgone : List.Forall₂ Stores (removed m) (input.closed c) := by
    have hret : (outcome m).ret = (input.runHandler c).2 := (h.run input).2
    rw [removed, Input.closed, hret]
    split
    · exact .nil
    · have hcells : m.pre.sessions = cells := hkeeps.sessions_eq
      rw [hcells]
      cases input with
      | mk op answer =>
        cases op with
        | leaveGroup name => exact find?_isNamed hstores name
        | logout => exact hstores
        | _ => exact .nil
  exact (congrArg (List.map Int.toNat) hsignalled).trans (flatMap_positivePids hgone)

end Handlers

/-- A step of the other model. -/
def HandlerStep (c : Client.ClientContext) (input : Input) (c' : Client.ClientContext) : Prop :=
  c' = (input.runHandler c).1

/-- Every run in memory lays out a run of the other model on the same inputs. -/
theorem laysOut_of_run {sock : Int} {ctx : ClientContext} {moves : List (Move ClientContext Input)}
    (hr : Run Step (netConnect sock startContext) moves ctx) :
    ∃ moves' c, Run HandlerStep (Client.netConnect sock Client.startContext) moves' c ∧
      moves'.map (·.label) = moves.map (·.label) ∧ LaysOut ctx c := by
  induction hr with
  | start => exact ⟨[], _, .start, rfl, laysOut_start sock⟩
  | @snoc moves ctx ctx' input _ hs ih =>
    obtain ⟨moves', c, hrun, hlabels, hout⟩ := ih
    refine ⟨_, _, hrun.snoc (e := input) rfl, ?_, hs ▸ (hout.run input).1⟩
    rw [List.map_append, List.map_append, hlabels]
    rfl

end MeshChat.Client.Memory
