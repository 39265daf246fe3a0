import MeshChat.Server.Records
import MeshChat.Server.Wire

/-!
# The session table

What the handlers do to the user records. The records are a list in the
iteration order of the user map: `find_user_by_fd` gives the first record of
the list that carries the descriptor, and only that record is cleared when a
session ends.
-/
namespace MeshChat.Server

namespace UserRecord

/-- A new record, as `handle_register` fills it in. -/
def fresh (username : Username) (password : Password) : UserRecord :=
  { username, password, loggedIn := 0, socketFd := -1 }

/-- The record after a login on `fd`. -/
def bound (fd : Int) (u : UserRecord) : UserRecord := { u with loggedIn := 1, socketFd := fd }

/-- The record after the end of its session. -/
def cleared (u : UserRecord) : UserRecord := { u with loggedIn := 0, socketFd := -1 }

end UserRecord

/-- The first record that carries `fd`. -/
def holder (users : List UserRecord) (fd : Int) : Option UserRecord :=
  users.find? fun u => decide (u.socketFd = fd)

/-- The check of the group handlers: the first record on `fd` is logged in. -/
def authenticated (users : List UserRecord) (fd : Int) : Bool :=
  (holder users fd).any fun u => decide (u.loggedIn ≠ 0)

/-- The records with the one named `name` edited. -/
def editUser (users : List UserRecord) (name : Username) (f : UserRecord → UserRecord) :
    List UserRecord :=
  KeyedList.edit UserRecord.username name f users

/-- The records after the session on `fd` ended. -/
def clearHolder (users : List UserRecord) (fd : Int) : List UserRecord :=
  match holder users fd with
  | none => users
  | some u => editUser users u.username .cleared

/-- What a request on `fd` does to the records, and how the session requests
are answered. -/
inductive SessionStep (env : Env) (fd : Int) (users : List UserRecord) :
    Request → Reply → List UserRecord → Prop
  | registerBad : SessionStep env fd users (.register none) (.error .userNotFound) users
  | registerTaken {name : Username} {pass : Password} {u : UserRecord} :
      u ∈ users → u.username = name →
      SessionStep env fd users (.register (some (name, pass))) (.error .userExists) users
  | registerFailed {name : Username} {pass : Password} :
      (∀ u ∈ users, u.username ≠ name) → ¬ env.AllocOk →
      SessionStep env fd users (.register (some (name, pass))) (.error .serverFull) users
  | registered {name : Username} {pass : Password} {front back : List UserRecord} :
      (∀ u ∈ users, u.username ≠ name) → users = front ++ back →
      SessionStep env fd users (.register (some (name, pass))) .success
        (front ++ .fresh name pass :: back)
  | loginBad : SessionStep env fd users (.login none) (.error .userNotFound) users
  | loginUnknown {name : Username} {pass : Password} :
      (∀ u ∈ users, u.username ≠ name) →
      SessionStep env fd users (.login (some (name, pass))) (.error .userNotFound) users
  | loginWrong {name : Username} {pass : Password} {u : UserRecord} :
      u ∈ users → u.username = name → u.password ≠ pass →
      SessionStep env fd users (.login (some (name, pass))) (.error .wrongPassword) users
  | loginActive {name : Username} {pass : Password} {u : UserRecord} :
      u ∈ users → u.username = name → u.password = pass → u.loggedIn ≠ 0 →
      SessionStep env fd users (.login (some (name, pass))) (.error .alreadyLoggedIn) users
  | loggedIn {name : Username} {pass : Password} {u : UserRecord} :
      u ∈ users → u.username = name → u.password = pass → u.loggedIn = 0 →
      SessionStep env fd users (.login (some (name, pass))) .success
        (editUser users name (.bound fd))
  | ended {req : Request} : req.endsSession →
      SessionStep env fd users req .success (clearHolder users fd)
  | other {req : Request} {reply : Reply} : req.leavesSessions →
      SessionStep env fd users req reply users

/-- No session request is answered with an address. -/
theorem SessionStep.of_groupInfo {env : Env} {fd : Int} {users users' : List UserRecord}
    {req : Request} {addr : McastEntry}
    (h : SessionStep env fd users req (.groupInfo addr) users') : req.leavesSessions := by
  cases h
  assumption

theorem findByFd_forEach (fd : Int) (pairs : List (KeyValuePair Username UserRecord))
    (found : Option UserRecord) (count : ℕ) (stopped : Bool) :
    (listItrForEach (HashMap.forEachAction (findByFdAction fd)) pairs
        ⟨found, count, stopped⟩).2.1.userContext =
      ((pairs.map (·.value)).find? fun u => decide (u.socketFd = fd)).or found := by
  induction pairs generalizing count stopped with
  | nil => rfl
  | cons pair pairs ih =>
    by_cases h : pair.value.socketFd = fd
    · simp [listItrForEach, HashMap.forEachAction, findByFdAction, h]
    · simpa [listItrForEach, HashMap.forEachAction, findByFdAction, h] using ih _ _

theorem findUserByFd_eq {ctx : ServerContext} (h : ctx.userMap.Wf) (fd : Int) :
    findUserByFd ctx fd = holder ctx.users fd := by
  obtain ⟨_, _, hctx⟩ := HashMap.forEach_spec (findByFdAction fd) h none
  rw [findUserByFd, hctx, findByFd_forEach, Option.or_none]
  rfl

theorem notLoggedIn_eq {ctx : ServerContext} (h : ctx.userMap.Wf) (fd : Int) :
    notLoggedIn ctx fd = !authenticated ctx.users fd := by
  rw [notLoggedIn, findUserByFd_eq h, authenticated]
  cases holder ctx.users fd <;> simp

theorem holder_eq_some {users : List UserRecord} {fd : Int} {u : UserRecord}
    (h : holder users fd = some u) : u ∈ users ∧ u.socketFd = fd :=
  ⟨List.mem_of_find?_eq_some h, by simpa using List.find?_some h⟩

theorem holder_eq_none {users : List UserRecord} {fd : Int} :
    holder users fd = none ↔ ∀ u ∈ users, u.socketFd ≠ fd := by
  simp [holder]

theorem authenticated_iff {users : List UserRecord} {fd : Int} :
    authenticated users fd = true ↔ ∃ u, holder users fd = some u ∧ u.loggedIn ≠ 0 := by
  simp [authenticated, Option.any_eq_true]

theorem dispatch_returns_range (env : Env) (ctx : ServerContext) (fd : Int) (msg : TLVMessage) :
    (dispatchMessage env ctx fd msg).2.2 = 0 ∨ (dispatchMessage env ctx fd msg).2.2 = -1 := by
  unfold dispatchMessage
  cases MessageTag.ofCode msg.tag with
  | none => exact Or.inl rfl
  | some tag => cases tag <;> simp [returning]

theorem dispatch_returns (env : Env) (ctx : ServerContext) (fd : Int) (msg : TLVMessage) :
    (dispatchMessage env ctx fd msg).2.2 = -1 ↔ msg.tag = MessageTag.exit.code := by
  rw [← MessageTag.ofCode_eq_some]
  unfold dispatchMessage
  cases htag : MessageTag.ofCode msg.tag with
  | none => simp
  | some tag => cases tag <;> simp [returning]

/-- Nothing changed but the group map and the address pool. -/
def SameSessions (ctx ctx' : ServerContext) : Prop :=
  ctx' = { ctx with groupMap := ctx'.groupMap, mcastQueue := ctx'.mcastQueue }

namespace SameSessions
variable {ctx ctx' ctx'' : ServerContext}

theorem refl (ctx : ServerContext) : SameSessions ctx ctx := rfl

theorem userMap (h : SameSessions ctx ctx') : ctx'.userMap = ctx.userMap := by rw [h]

theorem clientFds (h : SameSessions ctx ctx') : ctx'.clientFds = ctx.clientFds := by rw [h]

theorem listenFd (h : SameSessions ctx ctx') : ctx'.listenFd = ctx.listenFd := by rw [h]

theorem trans (h : SameSessions ctx ctx') (h' : SameSessions ctx' ctx'') :
    SameSessions ctx ctx'' := by
  rw [SameSessions] at h h' ⊢
  rw [h] at h'
  exact h'

end SameSessions

theorem closeEmptyGroup_same (env : Env) (closing : ℕ) (ctx : ServerContext) (name : GroupName) :
    SameSessions ctx (closeEmptyGroup env closing ctx name).1 := by
  unfold closeEmptyGroup
  split
  · rfl
  · dsimp only
    split <;> rfl

theorem closeEmptyGroups_same (env : Env) (closing : ℕ) (ctx : ServerContext)
    (names : List GroupName) : SameSessions ctx (closeEmptyGroups env closing ctx names) := by
  induction names generalizing closing ctx with
  | nil => rfl
  | cons name names ih => exact (closeEmptyGroup_same env closing ctx name).trans (ih _ _)

theorem leaveAllGroups_same (ctx : ServerContext) (fd : Int) :
    SameSessions ctx (leaveAllGroups ctx fd).1 := rfl

theorem joinAndReply_same (env : Env) (ctx : ServerContext) (fd : Int) (grp : GroupRecord) :
    SameSessions ctx (joinAndReply env ctx fd grp).1 := by
  unfold joinAndReply
  dsimp only
  split <;> rfl

theorem handleCreateGroup_same (env : Env) (ctx : ServerContext) (fd : Int) (msg : TLVMessage) :
    SameSessions ctx (handleCreateGroup env ctx fd msg).1 := by
  unfold handleCreateGroup
  split
  · rfl
  split
  · rfl
  split
  · rfl
  split
  · rfl
  split
  · rfl
  dsimp only
  split
  · rfl
  split
  · rfl
  split
  · rfl
  · refine SameSessions.trans ?_ (joinAndReply_same _ _ _ _)
    rfl

theorem handleJoinGroup_same (env : Env) (ctx : ServerContext) (fd : Int) (msg : TLVMessage) :
    SameSessions ctx (handleJoinGroup env ctx fd msg).1 := by
  unfold handleJoinGroup
  split
  · rfl
  split
  · rfl
  split
  · rfl
  · exact joinAndReply_same _ _ _ _

theorem removeMember_same (ctx : ServerContext) (grp : GroupRecord) (itr : ℕ) :
    SameSessions ctx (removeMember ctx grp itr) := rfl

theorem handleLeaveGroup_same (env : Env) (ctx : ServerContext) (fd : Int) (msg : TLVMessage) :
    SameSessions ctx (handleLeaveGroup env ctx fd msg).1 := by
  unfold handleLeaveGroup
  split
  · rfl
  split
  · rfl
  dsimp only
  split
  · rfl
  split
  · exact (removeMember_same _ _ _).trans (closeEmptyGroup_same _ _ _ _)
  · exact removeMember_same _ _ _

theorem handleLeaveGroup_sent (env : Env) (ctx : ServerContext) (fd : Int) (msg : TLVMessage) :
    (∃ code, (handleLeaveGroup env ctx fd msg).2 = sendError env fd code) ∨
      (handleLeaveGroup env ctx fd msg).2 = sendSuccess env fd := by
  unfold handleLeaveGroup
  split
  · exact Or.inl ⟨_, rfl⟩
  split
  · exact Or.inl ⟨_, rfl⟩
  dsimp only
  split
  · exact Or.inl ⟨_, rfl⟩
  split <;> exact Or.inr rfl

section Handlers
variable {ctx : ServerContext} (hk : Keyed UserRecord.username ctx.userMap)
include hk

theorem deactivateUser_spec (fd : Int) :
    ∃ userMap, deactivateUser ctx fd = { ctx with userMap } ∧
      Keyed UserRecord.username userMap ∧ records userMap = clearHolder ctx.users fd := by
  rw [deactivateUser, findUserByFd_eq hk.wf, clearHolder]
  cases holder ctx.users fd with
  | none => exact ⟨ctx.userMap, rfl, hk, rfl⟩
  | some u =>
    obtain ⟨hk', hrecs⟩ := hk.modify u.username (f := .cleared) fun _ _ _ => rfl
    exact ⟨_, rfl, hk', hrecs⟩

theorem handleRegister_spec (env : Env) (fd : Int) (msg : TLVMessage) :
    ∃ userMap reply, (handleRegister env ctx fd msg).1 = { ctx with userMap } ∧
      Keyed UserRecord.username userMap ∧ Sends fd reply (handleRegister env ctx fd msg).2 ∧
      ErrorKeeps env reply ctx (handleRegister env ctx fd msg).1 ∧
      SessionStep env fd ctx.users (.register (parseAuthValue msg)) reply (records userMap) := by
  cases hparse : parseAuthValue msg with
  | none =>
    simp only [handleRegister, hparse]
    exact ⟨ctx.userMap, _, rfl, hk, sends_error _ _ _, .refl, .registerBad⟩
  | some auth =>
    obtain ⟨name, pass⟩ := auth
    simp only [handleRegister, hparse, strncpy_self]
    cases hfind : ctx.userMap.find name with
    | some u =>
      obtain ⟨hu, hname⟩ := hk.find_eq_some.mp hfind
      exact ⟨ctx.userMap, _, rfl, hk, sends_error _ _ _, .refl, .registerTaken hu hname⟩
    | none =>
      have hnew := hk.find_eq_none.mp hfind
      cases halloc : env.alloc .userRecord with
      | false =>
        refine ⟨ctx.userMap, _, rfl, hk, sends_error _ _ _, .refl, .registerFailed hnew fun hok => ?_⟩
        rw [hok] at halloc
        contradiction
      | true =>
        simp only [Bool.not_true, Bool.false_eq_true, if_false]
        have hins := hk.insert env.insertAlloc (v := .fresh name pass) hfind
        simp only [UserRecord.fresh] at hins
        obtain ⟨hk', ⟨hs, _, front, back, hold, hrecs⟩ | ⟨hs, hfail, hrecs⟩⟩ := hins
        · rw [if_neg (not_not.mpr hs)]
          exact ⟨_, _, rfl, hk', sends_success _ _, .success, hrecs ▸ .registered hnew hold⟩
        · rw [if_pos hs]
          have hfault : ¬ env.AllocOk := by
            intro hok
            rw [insertAllocOk_of_allocOk hok] at hfail
            contradiction
          exact ⟨_, _, rfl, hk', sends_error _ _ _, .of_fault hfault,
            hrecs ▸ .registerFailed hnew hfault⟩

theorem handleLogin_spec (env : Env) (fd : Int) (msg : TLVMessage) :
    ∃ userMap reply, (handleLogin env ctx fd msg).1 = { ctx with userMap } ∧
      Keyed UserRecord.username userMap ∧ Sends fd reply (handleLogin env ctx fd msg).2 ∧
      ErrorKeeps env reply ctx (handleLogin env ctx fd msg).1 ∧
      SessionStep env fd ctx.users (.login (parseAuthValue msg)) reply (records userMap) := by
  cases hparse : parseAuthValue msg with
  | none =>
    simp only [handleLogin, hparse]
    exact ⟨ctx.userMap, _, rfl, hk, sends_error _ _ _, .refl, .loginBad⟩
  | some auth =>
    obtain ⟨name, pass⟩ := auth
    simp only [handleLogin, hparse]
    cases hfind : ctx.userMap.find name with
    | none =>
      have hnew := hk.find_eq_none.mp hfind
      exact ⟨ctx.userMap, _, rfl, hk, sends_error _ _ _, .refl, .loginUnknown hnew⟩
    | some u =>
      obtain ⟨hu, hname⟩ := hk.find_eq_some.mp hfind
      by_cases hpass : u.password = pass
      · simp only [(strcmpEq_iff u.password pass).mpr hpass, Bool.not_true, Bool.false_eq_true,
          if_false]
        by_cases hin : u.loggedIn = 0
        · obtain ⟨hk', hrecs⟩ := hk.modify name (f := .bound fd) fun _ _ _ => rfl
          rw [if_neg (not_not.mpr hin)]
          exact ⟨_, _, rfl, hk', sends_success _ _, .success, hrecs ▸ .loggedIn hu hname hpass hin⟩
        · rw [if_pos hin]
          exact ⟨ctx.userMap, _, rfl, hk, sends_error _ _ _, .refl, .loginActive hu hname hpass hin⟩
      · have hcmp : strcmpEq u.password.toCStr pass.toCStr = false := by
          rw [Bool.eq_false_iff, Ne, strcmpEq_iff]
          exact hpass
        simp only [hcmp, Bool.not_false, if_true]
        exact ⟨ctx.userMap, _, rfl, hk, sends_error _ _ _, .refl, .loginWrong hu hname hpass⟩

theorem closedSession_spec {closed : ServerContext} (h : SameSessions ctx closed) (fd : Int) :
    Keyed UserRecord.username (deactivateUser closed fd).userMap ∧
      (deactivateUser closed fd).users = clearHolder ctx.users fd ∧
      (deactivateUser closed fd).clientFds = ctx.clientFds ∧
      (deactivateUser closed fd).listenFd = ctx.listenFd := by
  have hclosed : Keyed UserRecord.username closed.userMap := h.userMap ▸ hk
  obtain ⟨userMap, heq, hk', hrecs⟩ := deactivateUser_spec hclosed fd
  refine ⟨heq ▸ hk', ?_, ?_, ?_⟩
  · rw [heq]
    exact hrecs.trans (by rw [ServerContext.users, h.userMap, ServerContext.users])
  · rw [heq, h.clientFds]
  · rw [heq, h.listenFd]

/-- The end of a session clears the record that carries the descriptor. -/
theorem cleanupClient_users (env : Env) (fd : Int) :
    Keyed UserRecord.username (cleanupClient env ctx fd).userMap ∧
      (cleanupClient env ctx fd).users = clearHolder ctx.users fd ∧
      (cleanupClient env ctx fd).clientFds = ctx.clientFds ∧
      (cleanupClient env ctx fd).listenFd = ctx.listenFd :=
  closedSession_spec hk ((leaveAllGroups_same ctx fd).trans (closeEmptyGroups_same env 0 _ _)) fd

/-- The effect of any request on the session table. A request that is not a
session request leaves the table alone, and it can only be answered with an
address if it asks for one on an authenticated descriptor. -/
theorem dispatch_sessions (env : Env) (fd : Int) (msg : TLVMessage) :
    let r := dispatchMessage env ctx fd msg
    (Keyed UserRecord.username r.1.userMap ∧ r.1.clientFds = ctx.clientFds ∧
      r.1.listenFd = ctx.listenFd) ∧
      (¬ (Request.ofMsg msg).leavesSessions ∧ (∃ reply, Sends fd reply r.2.1 ∧
          SessionStep env fd ctx.users (.ofMsg msg) reply r.1.users) ∨
        (Request.ofMsg msg).leavesSessions ∧ r.1.userMap = ctx.userMap ∧
          ∀ sent ∈ r.2.1, sent.msg.tag = MessageTag.groupInfo.code →
            (Request.ofMsg msg).asksGroup ∧ authenticated ctx.users fd = true) := by
  have hcleanup := cleanupClient_users hk env fd
  have herror : ∀ {code : ErrorCode} {sent : Sent}, sent ∈ sendError env fd code →
      sent.msg.tag ≠ MessageTag.groupInfo.code := by
    intro code sent hs
    rw [List.mem_singleton.mp hs, (buildErrorMsg_spec env.stack code).1]
    exact fun h => absurd (MessageTag.code_injective h) (by decide)
  have hsuccess : ∀ {sent : Sent}, sent ∈ sendSuccess env fd →
      sent.msg.tag ≠ MessageTag.groupInfo.code := by
    intro sent hs
    rw [List.mem_singleton.mp hs, (buildSuccessMsg_spec env.stack).1]
    exact fun h => absurd (MessageTag.code_injective h) (by decide)
  have hquiet : ∀ {ctx' : ServerContext}, SameSessions ctx ctx' →
      Keyed UserRecord.username ctx'.userMap ∧ ctx'.clientFds = ctx.clientFds ∧
        ctx'.listenFd = ctx.listenFd :=
    fun h => ⟨h.userMap ▸ hk, h.clientFds, h.listenFd⟩
  have hguarded : ∀ {r : ServerContext × List Sent} {sent : Sent},
      (notLoggedIn ctx fd = true → r = (ctx, sendError env fd .userNotFound)) → sent ∈ r.2 →
      sent.msg.tag = MessageTag.groupInfo.code → authenticated ctx.users fd = true := by
    intro r sent hdenied hs htag
    by_contra hauth
    have hnot : notLoggedIn ctx fd = true := by
      rw [notLoggedIn_eq hk.wf]
      simpa using hauth
    rw [hdenied hnot] at hs
    exact herror hs htag
  unfold dispatchMessage Request.ofMsg
  cases htag : MessageTag.ofCode msg.tag with
  | none => exact ⟨hquiet rfl, Or.inr ⟨trivial, rfl, fun s hs h => absurd h (herror hs)⟩⟩
  | some tag =>
    cases tag with
    | register =>
      obtain ⟨userMap, reply, heq, hk', hsent, _, hstep⟩ := handleRegister_spec hk env fd msg
      dsimp only [returning]
      rw [heq]
      exact ⟨⟨hk', rfl, rfl⟩, Or.inl ⟨id, reply, hsent, hstep⟩⟩
    | login =>
      obtain ⟨userMap, reply, heq, hk', hsent, _, hstep⟩ := handleLogin_spec hk env fd msg
      dsimp only [returning]
      rw [heq]
      exact ⟨⟨hk', rfl, rfl⟩, Or.inl ⟨id, reply, hsent, hstep⟩⟩
    | logout =>
      refine ⟨⟨hcleanup.1, hcleanup.2.2⟩, Or.inl ⟨id, _, sends_success env fd, ?_⟩⟩
      exact hcleanup.2.1 ▸ .ended trivial
    | exit =>
      refine ⟨⟨hcleanup.1, hcleanup.2.2⟩, Or.inl ⟨id, _, sends_success env fd, ?_⟩⟩
      exact hcleanup.2.1 ▸ .ended trivial
    | joinGroup =>
      have hsame := handleJoinGroup_same env ctx fd msg
      have hdenied : notLoggedIn ctx fd = true →
          handleJoinGroup env ctx fd msg = (ctx, sendError env fd .userNotFound) := fun hnot => by
        rw [handleJoinGroup, if_pos hnot]
      exact ⟨hquiet hsame, Or.inr ⟨trivial, hsame.userMap, fun s hs h =>
        ⟨trivial, hguarded hdenied hs h⟩⟩⟩
    | leaveGroup =>
      have hsame := handleLeaveGroup_same env ctx fd msg
      refine ⟨hquiet hsame, Or.inr ⟨trivial, hsame.userMap, fun s hs h => ?_⟩⟩
      change s ∈ (handleLeaveGroup env ctx fd msg).2 at hs
      rcases handleLeaveGroup_sent env ctx fd msg with ⟨code, hsent⟩ | hsent
      · exact absurd h (herror (hsent ▸ hs))
      · exact absurd h (hsuccess (hsent ▸ hs))
    | createGroup =>
      have hsame := handleCreateGroup_same env ctx fd msg
      have hdenied : notLoggedIn ctx fd = true →
          handleCreateGroup env ctx fd msg = (ctx, sendError env fd .userNotFound) := fun hnot => by
        rw [handleCreateGroup, if_pos hnot]
      exact ⟨hquiet hsame, Or.inr ⟨trivial, hsame.userMap, fun s hs h =>
        ⟨trivial, hguarded hdenied hs h⟩⟩⟩
    | success | error | groupInfo =>
      exact ⟨hquiet rfl, Or.inr ⟨trivial, rfl, fun s hs h => absurd h (herror hs)⟩⟩

/-- An address in a reply means that the descriptor was authenticated. -/
theorem dispatch_groupInfo_authenticated {env : Env} {fd : Int} {msg : TLVMessage} {sent : Sent}
    (hs : sent ∈ (dispatchMessage env ctx fd msg).2.1)
    (htag : sent.msg.tag = MessageTag.groupInfo.code) : authenticated ctx.users fd = true := by
  obtain ⟨_, ⟨hreq, reply, ⟨m, hsent, hm⟩, hstep⟩ | ⟨_, _, hinfo⟩⟩ :=
    dispatch_sessions hk env fd msg
  · rw [hsent, List.mem_singleton] at hs
    subst hs
    have hreply : reply.tag = .groupInfo := MessageTag.code_injective (hm.1.symm.trans htag)
    obtain ⟨addr, rfl⟩ : ∃ addr, reply = .groupInfo addr := by
      cases reply <;> first | exact ⟨_, rfl⟩ | cases hreply
    exact absurd hstep.of_groupInfo hreq
  · exact (hinfo sent hs htag).2

end Handlers

end MeshChat.Server
