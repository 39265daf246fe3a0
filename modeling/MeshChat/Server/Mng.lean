import MeshChat.Server.Context

/-!
# Message dispatch and business logic

The handlers of `server_mng.c`, branch by branch. A handler gives the context
afterwards and the messages it sent, in order. A reply that no encoder filled
in goes out as the stack left it.
-/
namespace MeshChat.Server

/-- One message handed to `net_send_msg`. -/
structure Sent where
  fd : Int
  msg : TLVMessage
  deriving DecidableEq

def parseAuthValue (msg : TLVMessage) :
    Option (CharArray maxUsernameLen × CharArray maxPasswordLen) :=
  if msg.length.toNat < 2 then none
  else
    let v := msg.value
    let ulen := (v.getD 0 0).toNat
    let pos := 1 + ulen
    if pos + 1 > msg.length.toNat then none
    else
      let plen := (v.getD pos 0).toNat
      if pos + 1 + plen ≠ msg.length.toNat then none
      else if hu : ulen = 0 ∨ ulen ≥ maxUsernameLen then none
      else if hp : plen = 0 ∨ plen ≥ maxPasswordLen then none
      else
        let uname := CharArray.ofBytes ((v.drop 1).take ulen)
          (lt_of_le_of_lt (List.length_take_le _ _) (not_le.mp (not_or.mp hu).2))
        let pass := CharArray.ofBytes ((v.drop (pos + 1)).take plen)
          (lt_of_le_of_lt (List.length_take_le _ _) (not_le.mp (not_or.mp hp).2))
        some (uname, pass)

def parseGroupValue (msg : TLVMessage) : Option (CharArray maxGroupNameLen) :=
  if msg.length.toNat < 1 then none
  else
    let glen := (msg.value.getD 0 0).toNat
    if 1 + glen ≠ msg.length.toNat then none
    else if hg : glen = 0 ∨ glen ≥ maxGroupNameLen then none
    else
      some (CharArray.ofBytes ((msg.value.drop 1).take glen)
        (lt_of_le_of_lt (List.length_take_le _ _) (not_le.mp (not_or.mp hg).2)))

/-- Where `ListItrForEach` with `match_fd` stops. -/
def findMember (members : List Int) (fd : Int) : ℕ :=
  listItrFind (fun elem => decide (elem = fd)) members

def findByFdAction (fd : Int) (_key : CharArray maxUsernameLen) (u : UserRecord)
    (found : Option UserRecord) : UserRecord × Option UserRecord × Bool :=
  if u.socketFd = fd then (u, some u, false) else (u, found, true)

/-- The first record in iteration order that carries `fd`. -/
def findUserByFd (ctx : ServerContext) (fd : Int) : Option UserRecord :=
  (ctx.userMap.forEach (findByFdAction fd) none).2.1

/-- `n_empty` is the length of `emptyNames`. -/
structure CleanupCtx where
  fd : Int
  emptyNames : List (CharArray maxGroupNameLen)

def cleanupGroupAction (_key : CharArray maxGroupNameLen) (grp : GroupRecord) (c : CleanupCtx) :
    GroupRecord × CleanupCtx × Bool :=
  let itr := findMember grp.members c.fd
  if itr ≠ grp.members.length then
    let grp := { grp with
      members := listItrRemove grp.members itr, memberCount := grp.memberCount - 1 }
    if grp.memberCount = 0 ∧ c.emptyNames.length < maxGroups then
      (grp, { c with emptyNames := c.emptyNames ++ [strncpy grp.name.toCStr] }, true)
    else (grp, c, true)
  else (grp, c, true)

/-- `close_empty_group`, the `closing`-th of its event, with the result of its
`QueueInsert` when it gets there; the source ignores that result. -/
def closeEmptyGroup (env : Env) (closing : ℕ) (ctx : ServerContext)
    (name : CharArray maxGroupNameLen) : ServerContext × Option QueueResult :=
  match ctx.groupMap.remove name with
  | (none, _) => (ctx, none)
  | (some pair, groupMap) =>
      let grp := pair.value
      if env.alloc (.mcastEntry closing) then
        let r := ctx.mcastQueue.insert ⟨strncpy grp.mcastIp.toCStr, grp.mcastPort⟩
        ({ ctx with groupMap, mcastQueue := r.2 }, some r.1)
      else ({ ctx with groupMap }, none)

/-- The loop of `cleanup_client` over the remembered names. -/
def closeEmptyGroups (env : Env) :
    ℕ → ServerContext → List (CharArray maxGroupNameLen) → ServerContext
  | _, ctx, [] => ctx
  | closing, ctx, name :: names =>
      closeEmptyGroups env (closing + 1) (closeEmptyGroup env closing ctx name).1 names

/-- `cleanup_client` up to its loop: `fd` out of every group, and the names of
the groups that became empty. -/
def leaveAllGroups (ctx : ServerContext) (fd : Int) :
    ServerContext × List (CharArray maxGroupNameLen) :=
  let r := ctx.groupMap.forEach cleanupGroupAction ⟨fd, []⟩
  ({ ctx with groupMap := r.1 }, r.2.1.emptyNames)

/-- `cleanup_client` after its loop: the first record found is marked inactive. -/
def deactivateUser (ctx : ServerContext) (fd : Int) : ServerContext :=
  match findUserByFd ctx fd with
  | none => ctx
  | some u =>
      { ctx with userMap := ctx.userMap.modify u.username fun u =>
          { u with loggedIn := 0, socketFd := -1 } }

def cleanupClient (env : Env) (ctx : ServerContext) (fd : Int) : ServerContext :=
  let r := leaveAllGroups ctx fd
  deactivateUser (closeEmptyGroups env 0 r.1 r.2) fd

def sendError (env : Env) (fd : Int) (code : ErrorCode) : List Sent :=
  [⟨fd, buildErrorMsg env.stack code⟩]

def sendSuccess (env : Env) (fd : Int) : List Sent := [⟨fd, buildSuccessMsg env.stack⟩]

/-- `build_group_info_msg(&reply, ..)` and a send that does not look at its result. -/
def sendGroupInfo (env : Env) (fd : Int) (grp : GroupRecord) : List Sent :=
  [⟨fd, (buildGroupInfoMsg env.stack grp.mcastIp.toCStr grp.mcastPort).getD env.stack⟩]

def handleRegister (env : Env) (ctx : ServerContext) (fd : Int) (msg : TLVMessage) :
    ServerContext × List Sent :=
  match parseAuthValue msg with
  | none => (ctx, sendError env fd .userNotFound)
  | some (uname, pass) =>
      match ctx.userMap.find uname with
      | some _ => (ctx, sendError env fd .userExists)
      | none =>
          if !env.alloc .userRecord then (ctx, sendError env fd .serverFull)
          else
            let u : UserRecord :=
              { username := strncpy uname.toCStr, password := strncpy pass.toCStr,
                loggedIn := 0, socketFd := -1 }
            let r := ctx.userMap.insert env.insertAlloc u.username u
            if r.1 ≠ .success then
              ({ ctx with userMap := r.2 }, sendError env fd .serverFull)
            else ({ ctx with userMap := r.2 }, sendSuccess env fd)

def handleLogin (env : Env) (ctx : ServerContext) (fd : Int) (msg : TLVMessage) :
    ServerContext × List Sent :=
  match parseAuthValue msg with
  | none => (ctx, sendError env fd .userNotFound)
  | some (uname, pass) =>
      match ctx.userMap.find uname with
      | none => (ctx, sendError env fd .userNotFound)
      | some u =>
          if !strcmpEq u.password.toCStr pass.toCStr then (ctx, sendError env fd .wrongPassword)
          else if u.loggedIn ≠ 0 then (ctx, sendError env fd .alreadyLoggedIn)
          else
            ({ ctx with userMap := ctx.userMap.modify uname fun u =>
                { u with loggedIn := 1, socketFd := fd } }, sendSuccess env fd)

def handleLogout (env : Env) (ctx : ServerContext) (fd : Int) : ServerContext × List Sent :=
  (cleanupClient env ctx fd, sendSuccess env fd)

def handleExit (env : Env) (ctx : ServerContext) (fd : Int) : ServerContext × List Sent :=
  (cleanupClient env ctx fd, sendSuccess env fd)

/-- `add_member`: the record afterwards, what it sent and its return value. The
result of `ListPushTail` is not looked at. -/
def addMember (env : Env) (fd : Int) (grp : GroupRecord) : GroupRecord × List Sent × Int :=
  let itr := findMember grp.members fd
  if itr ≠ grp.members.length then (grp, [], 0)
  else if grp.memberCount ≥ maxMembersPerGroup then (grp, sendError env fd .groupFull, -1)
  else
    ({ grp with
        members := (listPushTail (env.alloc .memberNode) grp.members fd).getD grp.members
        memberCount := grp.memberCount + 1 }, [], 0)

/-- The end of a create or join: `add_member` through the record pointer, then
the group's address. -/
def joinAndReply (env : Env) (ctx : ServerContext) (fd : Int) (grp : GroupRecord) :
    ServerContext × List Sent :=
  let r := addMember env fd grp
  let ctx := { ctx with groupMap := ctx.groupMap.modify grp.name fun _ => r.1 }
  if r.2.2 ≠ 0 then (ctx, r.2.1) else (ctx, r.2.1 ++ sendGroupInfo env fd r.1)

/-- `!u || !u->logged_in` for the record found on `fd`. -/
def notLoggedIn (ctx : ServerContext) (fd : Int) : Bool :=
  match findUserByFd ctx fd with
  | none => true
  | some u => decide (u.loggedIn = 0)

/-- Nothing happens on an unwritten slot of the queue, which is undefined in the source. -/
def handleCreateGroup (env : Env) (ctx : ServerContext) (fd : Int) (msg : TLVMessage) :
    ServerContext × List Sent :=
  if notLoggedIn ctx fd then (ctx, sendError env fd .userNotFound)
  else
    match parseGroupValue msg with
    | none => (ctx, sendError env fd .groupNotFound)
    | some gname =>
        match ctx.groupMap.find gname with
        | some _ => (ctx, sendError env fd .groupFull)
        | none =>
            if ctx.mcastQueue.isEmpty then (ctx, sendError env fd .serverFull)
            else
              match ctx.mcastQueue.remove with
              | (_, none, _) => (ctx, [])
              | (_, some me, mcastQueue) =>
                  let ctx := { ctx with mcastQueue }
                  let putBack : ServerContext := { ctx with mcastQueue := (mcastQueue.insert me).2 }
                  if !env.alloc .groupRecord then (putBack, sendError env fd .serverFull)
                  else if !env.alloc .memberList then (putBack, sendError env fd .serverFull)
                  else
                    let grp : GroupRecord :=
                      { name := strncpy gname.toCStr, mcastIp := strncpy me.ip.toCStr,
                        mcastPort := me.port, members := [], memberCount := 0 }
                    let r := ctx.groupMap.insert env.insertAlloc grp.name grp
                    if r.1 ≠ .success then
                      ({ putBack with groupMap := r.2 }, sendError env fd .serverFull)
                    else joinAndReply env { ctx with groupMap := r.2 } fd grp

def handleJoinGroup (env : Env) (ctx : ServerContext) (fd : Int) (msg : TLVMessage) :
    ServerContext × List Sent :=
  if notLoggedIn ctx fd then (ctx, sendError env fd .userNotFound)
  else
    match parseGroupValue msg with
    | none => (ctx, sendError env fd .groupNotFound)
    | some gname =>
        match ctx.groupMap.find gname with
        | none => (ctx, sendError env fd .groupNotFound)
        | some grp => joinAndReply env ctx fd grp

/-- `ListItrRemove` and `member_count--` through the record pointer. -/
def removeMember (ctx : ServerContext) (grp : GroupRecord) (itr : ℕ) : ServerContext :=
  { ctx with groupMap := ctx.groupMap.modify grp.name fun grp =>
      { grp with members := listItrRemove grp.members itr, memberCount := grp.memberCount - 1 } }

def handleLeaveGroup (env : Env) (ctx : ServerContext) (fd : Int) (msg : TLVMessage) :
    ServerContext × List Sent :=
  match parseGroupValue msg with
  | none => (ctx, sendError env fd .groupNotFound)
  | some gname =>
      match ctx.groupMap.find gname with
      | none => (ctx, sendError env fd .groupNotFound)
      | some grp =>
          let itr := findMember grp.members fd
          if itr = grp.members.length then (ctx, sendError env fd .notInGroup)
          else
            let ctx := removeMember ctx grp itr
            if grp.memberCount - 1 = 0 then
              ((closeEmptyGroup env 0 ctx gname).1, sendSuccess env fd)
            else (ctx, sendSuccess env fd)

/-- A handler's outcome together with the value `dispatch_message` returns. -/
def returning (ret : Int) (r : ServerContext × List Sent) : ServerContext × List Sent × Int :=
  (r.1, r.2, ret)

/-- `dispatch_message`: the context, the messages sent and the return value. -/
def dispatchMessage (env : Env) (ctx : ServerContext) (fd : Int) (msg : TLVMessage) :
    ServerContext × List Sent × Int :=
  match MessageTag.ofCode msg.tag with
  | some .register => returning 0 (handleRegister env ctx fd msg)
  | some .login => returning 0 (handleLogin env ctx fd msg)
  | some .logout => returning 0 (handleLogout env ctx fd)
  | some .exit => returning (-1) (handleExit env ctx fd)
  | some .createGroup => returning 0 (handleCreateGroup env ctx fd msg)
  | some .joinGroup => returning 0 (handleJoinGroup env ctx fd msg)
  | some .leaveGroup => returning 0 (handleLeaveGroup env ctx fd msg)
  | _ => (ctx, sendError env fd .none, 0)

def clientDisconnected (env : Env) (ctx : ServerContext) (fd : Int) : ServerContext :=
  cleanupClient env ctx fd

end MeshChat.Server
