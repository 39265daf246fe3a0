import MeshChat.Net.Canonical
import MeshChat.Server.Addresses

/-!
# Stale bytes

`server_run` reads every message into an uninitialised local, and the handlers
fill uninitialised locals with their replies. What is behind the announced bytes
of a request is never looked at: a parser that accepts finds all it reads among
these. What the stack left in a reply is never sent: every encoder of a reply
succeeds, since every address in use is a non-empty string.
-/
namespace MeshChat.Server
open Runs

section Requests
variable {msg msg' : TLVMessage}

theorem AuthShape.of_payload {name pass : List UInt8} (h : AuthShape msg name pass)
    (hpay : msg.payload = msg'.payload) : AuthShape msg' name pass :=
  ⟨hpay ▸ h.payload, h.name_pos, h.name_lt, h.pass_pos, h.pass_lt⟩

theorem GroupShape.of_payload {name : List UInt8} (h : GroupShape msg name)
    (hpay : msg.payload = msg'.payload) : GroupShape msg' name :=
  ⟨hpay ▸ h.payload, h.pos, h.lt⟩

/-- The credentials are read from the announced bytes. -/
theorem parseAuthValue_congr (hpay : msg.payload = msg'.payload) :
    parseAuthValue msg = parseAuthValue msg' := by
  have hsome : ∀ {a b : TLVMessage} {r : Username × Password}, a.payload = b.payload →
      parseAuthValue a = some r → parseAuthValue b = some r := by
    intro a b r hab hr
    obtain ⟨name, pass, hshape, hu, hp⟩ := authShape_of_parse (u := r.1) (p := r.2) hr
    rw [(hshape.of_payload hab).parse, ← hu, ← hp]
  exact Option.ext fun r => ⟨hsome hpay, hsome hpay.symm⟩

/-- The group name is read from the announced bytes. -/
theorem parseGroupValue_congr (hpay : msg.payload = msg'.payload) :
    parseGroupValue msg = parseGroupValue msg' := by
  have hsome : ∀ {a b : TLVMessage} {g : GroupName}, a.payload = b.payload →
      parseGroupValue a = some g → parseGroupValue b = some g := by
    intro a b g hab hg
    obtain ⟨name, hshape, rfl⟩ := groupShape_of_parse hg
    exact (hshape.of_payload hab).parse
  exact Option.ext fun g => ⟨hsome hpay, hsome hpay.symm⟩

/-- The address and the port are read from the announced bytes. -/
theorem parseGroupInfoInto_congr (h : msg.Agrees msg') (buf : List UInt8) (port : UInt16) :
    parseGroupInfoInto msg buf port = parseGroupInfoInto msg' buf port := by
  have hshape : ∀ {a b : TLVMessage} {ip two rest : List UInt8}, a.Agrees b →
      GroupInfoShape a ip two rest → GroupInfoShape b ip two rest :=
    fun hab hs => ⟨hab.1 ▸ hs.tag, hab.2.2 ▸ hs.payload, hs.lt, hs.port_size⟩
  cases hparse : parseGroupInfo msg with
  | some r =>
    obtain ⟨ip, two, rest, hs, -⟩ := groupInfoShape_of_parse hparse
    rw [hs.parseInto, (hshape h hs).parseInto]
  | none =>
    have hnone : parseGroupInfo msg' = none := by
      rw [Option.eq_none_iff_forall_ne_some]
      rintro r hr
      obtain ⟨ip, two, rest, hs, -⟩ := groupInfoShape_of_parse hr
      have hback : msg'.Agrees msg := ⟨h.1.symm, h.2.1.symm, h.2.2.symm⟩
      rw [(hshape hback hs).parse] at hparse
      cases hparse
    rw [parseGroupInfoInto_of_none hparse, parseGroupInfoInto_of_none hnone]

/-- No handler looks behind the announced bytes of its request. -/
theorem dispatchMessage_congr (h : msg.Agrees msg') (env : Env) (ctx : ServerContext) (fd : Int) :
    dispatchMessage env ctx fd msg = dispatchMessage env ctx fd msg' := by
  have hauth := parseAuthValue_congr h.2.2
  have hgroup := parseGroupValue_congr h.2.2
  simp only [dispatchMessage, handleRegister, handleLogin, handleCreateGroup, handleJoinGroup,
    handleLeaveGroup, h.1, hauth, hgroup]

end Requests

/-- The same state, and the same bytes to the same descriptors. -/
def SameOnWire (r r' : ServerContext × List Sent) : Prop :=
  r.1 = r'.1 ∧ List.Forall₂ (fun a b => a.fd = b.fd ∧ a.msg.frame = b.msg.frame) r.2 r'.2

theorem Reply.Describes.frame_eq {reply : Reply} {m m' : TLVMessage} (h : reply.Describes m)
    (h' : reply.Describes m') : m.frame = m'.frame := by
  have hpay := h.2.trans h'.2.symm
  rw [TLVMessage.frame, TLVMessage.frame, h.1, h'.1, length_eq_of_payload hpay, hpay]

theorem SameOnWire.of_sends {ctx : ServerContext} {fd : Int} {reply : Reply} {a b : List Sent}
    (ha : Sends fd reply a) (hb : Sends fd reply b) : SameOnWire (ctx, a) (ctx, b) := by
  obtain ⟨m, rfl, hm⟩ := ha
  obtain ⟨m', rfl, hm'⟩ := hb
  exact ⟨rfl, .cons ⟨rfl, hm.frame_eq hm'⟩ .nil⟩

theorem SameOnWire.error (env env' : Env) (ctx : ServerContext) (fd : Int) (code : ErrorCode) :
    SameOnWire (ctx, sendError env fd code) (ctx, sendError env' fd code) :=
  .of_sends (sends_error env fd code) (sends_error env' fd code)

theorem SameOnWire.success (env env' : Env) (ctx : ServerContext) (fd : Int) :
    SameOnWire (ctx, sendSuccess env fd) (ctx, sendSuccess env' fd) :=
  .of_sends (sends_success env fd) (sends_success env' fd)

/-- The environment with other leftovers on the stack. -/
def Env.withStack (env : Env) (stack : TLVMessage) : Env := { env with stack }

section Handlers
variable (env : Env) (stack : TLVMessage) (ctx : ServerContext) (fd : Int) (msg : TLVMessage)

theorem closeEmptyGroups_withStack (closing : ℕ) (names : List GroupName) :
    closeEmptyGroups (env.withStack stack) closing ctx names =
      closeEmptyGroups env closing ctx names := by
  induction names generalizing closing ctx with
  | nil => rfl
  | cons name names ih => exact ih (closeEmptyGroup env closing ctx name).1 (closing + 1)

theorem cleanupClient_withStack :
    cleanupClient (env.withStack stack) ctx fd = cleanupClient env ctx fd := by
  rw [cleanupClient, cleanupClient, closeEmptyGroups_withStack]

theorem handleRegister_withStack : SameOnWire (handleRegister env ctx fd msg)
    (handleRegister (env.withStack stack) ctx fd msg) := by
  unfold handleRegister
  cases parseAuthValue msg with
  | none => exact .error ..
  | some r =>
    dsimp only
    cases ctx.userMap.find r.1 with
    | some u => exact .error ..
    | none =>
      dsimp only
      change SameOnWire _ (if !env.alloc .userRecord then _ else if (ctx.userMap.insert
        env.insertAlloc _ _).1 ≠ .success then _ else _)
      split
      · exact .error ..
      · split
        · exact .error ..
        · exact .success ..

theorem handleLogin_withStack : SameOnWire (handleLogin env ctx fd msg)
    (handleLogin (env.withStack stack) ctx fd msg) := by
  unfold handleLogin
  cases parseAuthValue msg with
  | none => exact .error ..
  | some r =>
    dsimp only
    cases ctx.userMap.find r.1 with
    | none => exact .error ..
    | some u =>
      dsimp only
      split
      · exact .error ..
      · split
        · exact .error ..
        · exact .success ..

variable {ctx}

theorem joinAndReply_withStack {grp : GroupRecord} (hip : 0 < strlen grp.mcastIp.toCStr) :
    SameOnWire (joinAndReply env ctx fd grp) (joinAndReply (env.withStack stack) ctx fd grp) := by
  rw [joinAndReply, joinAndReply, addMember_eq, addMember_eq]
  by_cases hfd : fd ∈ grp.members
  · rw [if_pos hfd, if_pos hfd]
    exact .of_sends (sends_groupInfo env fd grp hip) (sends_groupInfo _ fd grp hip)
  · rw [if_neg hfd, if_neg hfd]
    split
    · exact .error ..
    · exact .of_sends (sends_groupInfo env fd (grp.enrol env fd) hip)
        (sends_groupInfo _ fd (grp.enrol env fd) hip)

theorem handleJoinGroup_withStack (h : AddressesOk ctx) : SameOnWire
    (handleJoinGroup env ctx fd msg) (handleJoinGroup (env.withStack stack) ctx fd msg) := by
  unfold handleJoinGroup
  split
  · exact .error ..
  · cases parseGroupValue msg with
    | none => exact .error ..
    | some name =>
      dsimp only
      cases hfind : ctx.groupMap.find name with
      | none => exact .error ..
      | some grp =>
        have hg := (h.groups.find_eq_some.mp hfind).1
        exact joinAndReply_withStack env stack fd (h.addressed.ip_pos hg)

theorem handleCreateGroup_withStack (h : AddressesOk ctx) : SameOnWire
    (handleCreateGroup env ctx fd msg) (handleCreateGroup (env.withStack stack) ctx fd msg) := by
  unfold handleCreateGroup
  split
  · exact .error ..
  · cases parseGroupValue msg with
    | none => exact .error ..
    | some name =>
      dsimp only
      cases ctx.groupMap.find name with
      | some grp => exact .error ..
      | none =>
        dsimp only
        split
        · exact .error ..
        · rename_i hne
          obtain ⟨addr, rest, hpool⟩ :=
            List.exists_cons_of_ne_nil (mt h.groups.queue.isEmpty_iff.mpr hne)
          have hitem := (hpool ▸ h.groups.queue).remove.2.1
          have hip : 0 < strlen (strncpy addr.ip.toCStr : CharArray mcastIpLen).toCStr := by
            rw [strncpy_self]
            exact h.addressed.pool_ip_pos (hpool ▸ List.mem_cons_self)
          have hremove : ctx.mcastQueue.remove =
              (ctx.mcastQueue.remove.1, some addr, ctx.mcastQueue.remove.2.2) := by rw [← hitem]
          rw [hremove]
          dsimp only
          change SameOnWire _ (if !env.alloc .groupRecord then _ else if !env.alloc .memberList
            then _ else if (ctx.groupMap.insert env.insertAlloc _ _).1 ≠ .success then _ else _)
          split
          · exact .error ..
          · split
            · exact .error ..
            · split
              · exact .error ..
              · exact joinAndReply_withStack env stack fd hip

theorem handleLeaveGroup_withStack : SameOnWire (handleLeaveGroup env ctx fd msg)
    (handleLeaveGroup (env.withStack stack) ctx fd msg) := by
  unfold handleLeaveGroup
  cases parseGroupValue msg with
  | none => exact .error ..
  | some name =>
    dsimp only
    cases ctx.groupMap.find name with
    | none => exact .error ..
    | some grp =>
      dsimp only
      split
      · exact .error ..
      · split
        · exact .success ..
        · exact .success ..

/-- Nothing that the stack left in a reply goes out. -/
theorem dispatchMessage_withStack (h : AddressesOk ctx) :
    let r := dispatchMessage env ctx fd msg
    let r' := dispatchMessage (env.withStack stack) ctx fd msg
    SameOnWire (r.1, r.2.1) (r'.1, r'.2.1) ∧ r.2.2 = r'.2.2 := by
  unfold dispatchMessage
  cases MessageTag.ofCode msg.tag with
  | none => exact ⟨.error .., rfl⟩
  | some tag =>
    cases tag with
    | register => exact ⟨handleRegister_withStack .., rfl⟩
    | login => exact ⟨handleLogin_withStack .., rfl⟩
    | logout =>
      refine ⟨?_, rfl⟩
      dsimp only [returning, handleLogout]
      rw [cleanupClient_withStack]
      exact .success ..
    | exit =>
      refine ⟨?_, rfl⟩
      dsimp only [returning, handleExit]
      rw [cleanupClient_withStack]
      exact .success ..
    | createGroup => exact ⟨handleCreateGroup_withStack env stack fd msg h, rfl⟩
    | joinGroup => exact ⟨handleJoinGroup_withStack env stack fd msg h, rfl⟩
    | leaveGroup => exact ⟨handleLeaveGroup_withStack .., rfl⟩
    | success => exact ⟨.error .., rfl⟩
    | error => exact ⟨.error .., rfl⟩
    | groupInfo => exact ⟨.error .., rfl⟩

end Handlers

/-- In every state the server gets to, with any allocation outcomes, messages that
agree on their announced bytes have the same effect, whatever lies behind these
bytes and on the stack: the same state, the same bytes sent and the same return
value; and `parse_group_info` gives the same result, address and port. -/
theorem stale_bytes_ignored {alloc : ℕ → Bool} {ctx₀ ctx : ServerContext}
    {moves : List (Move ServerContext CallLabel)} (h0 : serverCreate alloc = some ctx₀)
    (hr : Run CallStep ctx₀ moves ctx) {msg msg' : TLVMessage} (h : msg.Agrees msg') :
    (∀ env stack fd,
      let r := dispatchMessage env ctx fd msg
      let r' := dispatchMessage (env.withStack stack) ctx fd msg'
      SameOnWire (r.1, r.2.1) (r'.1, r'.2.1) ∧ r.2.2 = r'.2.2) ∧
    ∀ buf port, parseGroupInfoInto msg buf port = parseGroupInfoInto msg' buf port := by
  refine ⟨fun env stack fd => ?_, parseGroupInfoInto_congr h⟩
  rw [← dispatchMessage_congr h]
  exact dispatchMessage_withStack env stack fd msg (addressesOk_of_run h0 hr)

/-- A login request, and the same with a byte of an earlier message behind it. -/
theorem stale_bytes_ignored_login :
    let msg := TLVMessage.ofPayload MessageTag.login.code [1, 112, 1, 113]
    let stale := msg.write 200 [7]
    msg ≠ stale ∧
      (∀ env stack fd,
        let r := dispatchMessage env (afterQuietCalls started (crowd 2)) fd msg
        let r' := dispatchMessage (env.withStack stack) (afterQuietCalls started (crowd 2)) fd stale
        SameOnWire (r.1, r.2.1) (r'.1, r'.2.1) ∧ r.2.2 = r'.2.2) ∧
      ∀ buf port, parseGroupInfoInto msg buf port = parseGroupInfoInto stale buf port :=
  ⟨by decide +kernel,
    stale_bytes_ignored serverCreate_started (run_quietCalls started (crowd 2)) (by decide +kernel)⟩

end MeshChat.Server
