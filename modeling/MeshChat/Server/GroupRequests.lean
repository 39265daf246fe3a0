import MeshChat.Server.Groups

/-!
# Requests on the group table

`GroupStep` lists every way a request can change the group records and the
pool, with the reply it gets. The handlers do exactly that, and send exactly
one message.
-/
namespace MeshChat.Server

/-- The records with the one named `name` edited. -/
def editGroup (groups : List GroupRecord) (name : GroupName) (f : GroupRecord → GroupRecord) :
    List GroupRecord :=
  KeyedList.edit GroupRecord.name name f groups

/-- Every allocation between taking an address and storing the group succeeds. -/
def storesGroup (env : Env) (ctx : ServerContext) (name : GroupName) : Bool :=
  env.alloc .groupRecord && env.alloc .memberList &&
    ctx.groupMap.insertAllocOk env.insertAlloc name

theorem storesGroup_of_allocOk {env : Env} (h : env.AllocOk) (ctx : ServerContext)
    (name : GroupName) : storesGroup env ctx name = true := by
  rw [storesGroup, h .groupRecord, h .memberList, insertAllocOk_of_allocOk h]
  rfl

/-- What a request on `fd` does to groups and pool, and how it is answered;
`stores` says for which names a new group would be stored, and `auth` whether
the descriptor is authenticated. -/
inductive GroupStep (env : Env) (stores : GroupName → Bool) (fd : Int) (auth : Bool)
    (groups : List GroupRecord) (pool : List McastEntry) :
    Request → Reply → List GroupRecord → List McastEntry → Prop
  | denied {req : Request} : req.asksGroup → auth = false →
      GroupStep env stores fd auth groups pool req (.error .userNotFound) groups pool
  | createBad : auth = true →
      GroupStep env stores fd auth groups pool (.createGroup none) (.error .groupNotFound) groups pool
  | createTaken {grp : GroupRecord} : auth = true → grp ∈ groups →
      GroupStep env stores fd auth groups pool (.createGroup (some grp.name)) (.error .groupFull)
        groups pool
  | createExhausted {name : GroupName} : auth = true → (∀ grp ∈ groups, grp.name ≠ name) →
      pool = [] →
      GroupStep env stores fd auth groups pool (.createGroup (some name)) (.error .serverFull) groups pool
  | createFailed {name : GroupName} {addr : McastEntry} {rest : List McastEntry} : auth = true →
      (∀ grp ∈ groups, grp.name ≠ name) → pool = addr :: rest → stores name = false →
      GroupStep env stores fd auth groups pool (.createGroup (some name)) (.error .serverFull)
        groups (rest ++ [addr])
  | created {name : GroupName} {addr : McastEntry} {rest : List McastEntry}
      {front back : List GroupRecord} : auth = true →
      (∀ grp ∈ groups, grp.name ≠ name) → pool = addr :: rest → stores name = true →
      groups = front ++ back →
      GroupStep env stores fd auth groups pool (.createGroup (some name)) (.groupInfo addr)
        (front ++ (GroupRecord.opened name addr).enrol env fd :: back) rest
  | joinBad : auth = true →
      GroupStep env stores fd auth groups pool (.joinGroup none) (.error .groupNotFound) groups pool
  | joinUnknown {name : GroupName} : auth = true → (∀ grp ∈ groups, grp.name ≠ name) →
      GroupStep env stores fd auth groups pool (.joinGroup (some name)) (.error .groupNotFound)
        groups pool
  | joinAgain {grp : GroupRecord} : auth = true → grp ∈ groups → fd ∈ grp.members →
      GroupStep env stores fd auth groups pool (.joinGroup (some grp.name)) (.groupInfo grp.addr)
        groups pool
  | joinFull {grp : GroupRecord} : auth = true → grp ∈ groups → fd ∉ grp.members →
      grp.memberCount ≥ maxMembersPerGroup →
      GroupStep env stores fd auth groups pool (.joinGroup (some grp.name)) (.error .groupFull)
        groups pool
  | joined {grp : GroupRecord} : auth = true → grp ∈ groups → fd ∉ grp.members →
      grp.memberCount < maxMembersPerGroup →
      GroupStep env stores fd auth groups pool (.joinGroup (some grp.name)) (.groupInfo grp.addr)
        (editGroup groups grp.name (.enrol env fd)) pool
  | leaveBad :
      GroupStep env stores fd auth groups pool (.leaveGroup none) (.error .groupNotFound) groups pool
  | leaveUnknown {name : GroupName} : (∀ grp ∈ groups, grp.name ≠ name) →
      GroupStep env stores fd auth groups pool (.leaveGroup (some name)) (.error .groupNotFound)
        groups pool
  | leaveOutside {grp : GroupRecord} : grp ∈ groups → fd ∉ grp.members →
      GroupStep env stores fd auth groups pool (.leaveGroup (some grp.name)) (.error .notInGroup)
        groups pool
  | left {grp : GroupRecord} : grp ∈ groups → fd ∈ grp.members → grp.memberCount ≠ 1 →
      GroupStep env stores fd auth groups pool (.leaveGroup (some grp.name)) .success
        (editGroup groups grp.name (.without fd)) pool
  | leftLast {grp : GroupRecord} : grp ∈ groups → fd ∈ grp.members → grp.memberCount = 1 →
      GroupStep env stores fd auth groups pool (.leaveGroup (some grp.name)) .success
        (groups.filter fun g => decide (g.name ≠ grp.name)) (pool ++ handBack env 0 [grp.addr])
  | unknown : GroupStep env stores fd auth groups pool .unknown (.error .none) groups pool
  | ended {req : Request} : req.endsSession →
      GroupStep env stores fd auth groups pool req .success (evict fd groups)
        (pool ++ handBack env 0 ((emptiedBy fd groups).map (·.addr)))
  | other {req : Request} {reply : Reply} : req.leavesGroups →
      GroupStep env stores fd auth groups pool req reply groups pool

theorem addMember_eq (env : Env) (fd : Int) (grp : GroupRecord) :
    addMember env fd grp =
      if fd ∈ grp.members then (grp, [], 0)
      else if grp.memberCount ≥ maxMembersPerGroup then (grp, sendError env fd .groupFull, -1)
      else (grp.enrol env fd, [], 0) := by
  by_cases h : fd ∈ grp.members
  · rw [if_pos h]
    simp only [addMember, if_pos (findMember_ne_length.mpr h)]
  · rw [if_neg h]
    have hend := mt findMember_ne_length.mp h
    simp only [addMember, if_neg hend]
    rfl

section Handlers
variable {ctx : ServerContext} {groups : List GroupRecord} {pool : List McastEntry}

/-- A write through a group's record pointer. -/
theorem HasGroups.modify (h : HasGroups ctx groups pool) (name : GroupName)
    {f : GroupRecord → GroupRecord} (hf : ∀ grp ∈ groups, grp.name = name → (f grp).name = grp.name) :
    HasGroups { ctx with groupMap := ctx.groupMap.modify name f } (editGroup groups name f) pool := by
  obtain ⟨hk, hrecs⟩ := h.keyed.modify name (f := f) (by rwa [h.groups_eq])
  exact ⟨hk, by rw [hrecs, h.groups_eq]; rfl, h.queue, h.size⟩

/-- Writing a record back as it is changes nothing. -/
theorem HasGroups.modify_fixed (h : HasGroups ctx groups pool) {grp : GroupRecord}
    (hg : grp ∈ groups) : ctx.groupMap.modify grp.name (fun _ => grp) = ctx.groupMap := by
  apply HashMap.modify_of_fixed
  intro pair hp hk
  have hval : pair.value ∈ groups := h.groups_eq ▸ List.mem_map_of_mem hp
  have hname : pair.value.name = grp.name :=
    (h.keyed.own_key pair hp).symm.trans (equalString_iff.mp hk)
  exact (List.inj_on_of_nodup_map h.names hval hg hname).symm

theorem handleJoinGroup_spec (h : HasGroups ctx groups pool) (hok : Addressed groups pool)
    (hwf : ctx.userMap.Wf) (env : Env) (fd : Int) (msg : TLVMessage) :
    ∃ reply groups' pool', HasGroups (handleJoinGroup env ctx fd msg).1 groups' pool' ∧
      Sends fd reply (handleJoinGroup env ctx fd msg).2 ∧
      ErrorKeeps env reply ctx (handleJoinGroup env ctx fd msg).1 ∧
      GroupStep env (storesGroup env ctx) fd (authenticated ctx.users fd) groups pool (.joinGroup (parseGroupValue msg))
        reply groups' pool' := by
  cases hauth : authenticated ctx.users fd with
  | false =>
    have hnot : notLoggedIn ctx fd = true := by rw [notLoggedIn_eq hwf, hauth]; rfl
    rw [handleJoinGroup, if_pos hnot]
    exact ⟨_, groups, pool, h, sends_error _ _ _, .refl, .denied trivial rfl⟩
  | true =>
    have hnot : ¬ notLoggedIn ctx fd = true := by rw [notLoggedIn_eq hwf, hauth]; decide
    rw [handleJoinGroup, if_neg hnot]
    cases hparse : parseGroupValue msg with
    | none => exact ⟨_, groups, pool, h, sends_error _ _ _, .refl, .joinBad rfl⟩
    | some name =>
      dsimp only
      cases hfind : ctx.groupMap.find name with
      | none => exact ⟨_, groups, pool, h, sends_error _ _ _, .refl,
          .joinUnknown rfl (h.find_eq_none.mp hfind)⟩
      | some grp =>
        obtain ⟨hg, rfl⟩ := h.find_eq_some.mp hfind
        have hsame : editGroup groups grp.name (fun _ => grp) = groups := by
          apply KeyedList.edit_of_fixed
          intro g hg' hname
          exact (List.inj_on_of_nodup_map h.names hg' hg hname).symm
        have hwrite := h.modify grp.name (f := fun _ => grp) fun g _ hname => hname.symm
        rw [hsame] at hwrite
        have hkeeps : ErrorKeeps env (.error .groupFull) ctx
            { ctx with groupMap := ctx.groupMap.modify grp.name fun _ => grp } := by
          intro _ _ _
          rw [h.modify_fixed hg]
        have hip := hok.ip_pos hg
        simp only [joinAndReply, addMember_eq]
        by_cases hfd : fd ∈ grp.members
        · simp only [if_pos hfd]
          exact ⟨_, groups, pool, hwrite, sends_groupInfo _ _ _ hip, .groupInfo, .joinAgain rfl hg hfd⟩
        · by_cases hfull : grp.memberCount ≥ maxMembersPerGroup
          · simp only [if_neg hfd, if_pos hfull]
            exact ⟨_, groups, pool, hwrite, sends_error _ _ _, hkeeps, .joinFull rfl hg hfd hfull⟩
          · simp only [if_neg hfd, if_neg hfull]
            have henrol := h.modify grp.name (f := fun _ => grp.enrol env fd)
              fun g _ hname => hname.symm
            rw [editGroup, KeyedList.edit_congr GroupRecord.name
              (f := fun _ => grp.enrol env fd) (g := .enrol env fd) h.names hg rfl] at henrol
            exact ⟨_, _, pool, henrol, sends_groupInfo _ _ (grp.enrol env fd) hip, .groupInfo,
              .joined rfl hg hfd (not_le.mp hfull)⟩

/-- The last part of a create: the stored record has no member yet. -/
theorem joinAndReply_opened {front back : List GroupRecord} {name : GroupName} {addr : McastEntry}
    (h : HasGroups ctx (front ++ GroupRecord.opened name addr :: back) pool)
    (hip : 0 < strlen addr.ip.toCStr) (env : Env) (fd : Int) :
    HasGroups (joinAndReply env ctx fd (.opened name addr)).1
        (front ++ (GroupRecord.opened name addr).enrol env fd :: back) pool ∧
      Sends fd (.groupInfo addr) (joinAndReply env ctx fd (.opened name addr)).2 := by
  have hadd : addMember env fd (.opened name addr) =
      ((GroupRecord.opened name addr).enrol env fd, [], 0) := by
    rw [addMember_eq, if_neg (by simp [GroupRecord.opened]),
      if_neg (by simp [GroupRecord.opened])]
  have henrol := h.modify name (f := fun _ => (GroupRecord.opened name addr).enrol env fd)
    fun g _ hname => hname.symm
  have hnd := h.names
  rw [List.map_append, List.map_cons, List.nodup_append, List.nodup_cons] at hnd
  rw [editGroup, KeyedList.edit_append_cons (k := name) (x := .opened name addr) rfl
    (fun g hg he => hnd.2.2 _ (List.mem_map_of_mem hg) _ List.mem_cons_self he)
    (fun g hg he => hnd.2.1.1 (List.mem_map.mpr ⟨g, hg, he⟩))] at henrol
  simp only [joinAndReply, hadd]
  exact ⟨henrol, sends_groupInfo _ _ ((GroupRecord.opened name addr).enrol env fd) hip⟩

theorem handleCreateGroup_spec (h : HasGroups ctx groups pool) (hok : Addressed groups pool)
    (hwf : ctx.userMap.Wf) (env : Env) (fd : Int) (msg : TLVMessage) :
    ∃ reply groups' pool', HasGroups (handleCreateGroup env ctx fd msg).1 groups' pool' ∧
      Sends fd reply (handleCreateGroup env ctx fd msg).2 ∧
      ErrorKeeps env reply ctx (handleCreateGroup env ctx fd msg).1 ∧
      GroupStep env (storesGroup env ctx) fd (authenticated ctx.users fd) groups pool
        (.createGroup (parseGroupValue msg)) reply groups' pool' := by
  cases hauth : authenticated ctx.users fd with
  | false =>
    have hnot : notLoggedIn ctx fd = true := by rw [notLoggedIn_eq hwf, hauth]; rfl
    rw [handleCreateGroup, if_pos hnot]
    exact ⟨_, groups, pool, h, sends_error _ _ _, .refl, .denied trivial rfl⟩
  | true =>
    have hnot : ¬ notLoggedIn ctx fd = true := by rw [notLoggedIn_eq hwf, hauth]; decide
    rw [handleCreateGroup, if_neg hnot]
    cases hparse : parseGroupValue msg with
    | none => exact ⟨_, groups, pool, h, sends_error _ _ _, .refl, .createBad rfl⟩
    | some name =>
      dsimp only
      cases hfind : ctx.groupMap.find name with
      | some grp =>
        obtain ⟨hg, rfl⟩ := h.find_eq_some.mp hfind
        exact ⟨_, groups, pool, h, sends_error _ _ _, .refl, .createTaken rfl hg⟩
      | none =>
        have hnew := h.find_eq_none.mp hfind
        cases pool with
        | nil =>
          rw [if_pos (h.queue.isEmpty_iff.mpr rfl)]
          exact ⟨_, groups, [], h, sends_error _ _ _, .refl, .createExhausted rfl hnew rfl⟩
        | cons addr rest =>
          have hne : ¬ ctx.mcastQueue.isEmpty = true := by simp [h.queue.isEmpty_iff]
          obtain ⟨_, hitem, hsize, hrest⟩ := h.queue.remove
          have hsize := hsize.trans h.size
          have hremove : ctx.mcastQueue.remove =
              (ctx.mcastQueue.remove.1, some addr, ctx.mcastQueue.remove.2.2) := by rw [← hitem]
          have hlen := hok.length_le
          rw [List.length_cons] at hlen
          obtain ⟨_, hsize', hback⟩ := hrest.insert (by rw [hsize]; omega) addr
          have hsize' := hsize'.trans hsize
          have hfailed : ∀ {ctx' : ServerContext}, storesGroup env ctx name = false →
              HasGroups ctx' groups (rest ++ [addr]) →
              ∃ reply groups' pool', HasGroups ctx' groups' pool' ∧
                Sends fd reply (sendError env fd .serverFull) ∧ ErrorKeeps env reply ctx ctx' ∧
                GroupStep env (storesGroup env ctx) fd true groups (addr :: rest)
                  (.createGroup (some name)) reply groups' pool' := by
            intro ctx' hs hback
            refine ⟨_, groups, rest ++ [addr], hback, sends_error _ _ _, .of_fault fun hall => ?_,
              .createFailed rfl hnew rfl hs⟩
            rw [storesGroup_of_allocOk hall] at hs
            contradiction
          rw [if_neg hne, hremove]
          simp only [strncpy_self]
          cases hrec : env.alloc .groupRecord with
          | false =>
            refine hfailed (by simp [storesGroup, hrec]) ?_
            exact ⟨h.keyed, h.groups_eq, hback, hsize'⟩
          | true =>
            cases hlist : env.alloc .memberList with
            | false =>
              refine hfailed (by simp [storesGroup, hlist]) ?_
              exact ⟨h.keyed, h.groups_eq, hback, hsize'⟩
            | true =>
              have hins := h.keyed.insert env.insertAlloc (v := .opened name addr) hfind
              rw [h.groups_eq] at hins
              simp only [GroupRecord.opened] at hins
              simp only [Bool.not_true, Bool.false_eq_true, if_false]
              obtain ⟨hk, ⟨hs, hstored, front, back, hold, hrecs⟩ | ⟨hs, hfail, hrecs⟩⟩ := hins
              · rw [if_neg (not_not.mpr hs)]
                have hstored' : HasGroups { ctx with
                    groupMap := (ctx.groupMap.insert env.insertAlloc name (.opened name addr)).2
                    mcastQueue := ctx.mcastQueue.remove.2.2 }
                    (front ++ .opened name addr :: back) rest := ⟨hk, hrecs, hrest, hsize⟩
                have hjoined := joinAndReply_opened hstored' (hok.pool_ip_pos List.mem_cons_self)
                  env fd
                exact ⟨_, _, rest, hjoined.1, hjoined.2, .groupInfo,
                  .created rfl hnew rfl (by simp [storesGroup, hrec, hlist, hstored]) hold⟩
              · rw [if_pos hs]
                refine hfailed (by simp [storesGroup, hfail]) ?_
                exact ⟨hk, hrecs, hback, hsize'⟩

/-- A member is taken out of one group. -/
theorem removeMember_spec (h : HasGroups ctx groups pool) {grp : GroupRecord} (hg : grp ∈ groups)
    {fd : Int} (hfd : fd ∈ grp.members) :
    HasGroups (removeMember ctx grp (findMember grp.members fd))
      (editGroup groups grp.name (.without fd)) pool := by
  have hwrite := h.modify grp.name (f := fun g => { g with
    members := listItrRemove g.members (findMember grp.members fd),
    memberCount := g.memberCount - 1 }) fun _ _ _ => rfl
  rw [editGroup, KeyedList.edit_congr GroupRecord.name (g := .without fd)
    h.names hg ?_] at hwrite
  · exact hwrite
  · rw [GroupRecord.without, if_pos hfd, listItrRemove_findMember]

/-- The last member left: the group is closed, and its `QueueInsert` succeeds. -/
theorem closeAfterLeave_spec (h : HasGroups ctx groups pool) (hok : Addressed groups pool)
    {grp : GroupRecord} (hg : grp ∈ groups) {fd : Int} (hfd : fd ∈ grp.members) (env : Env) :
    let r := closeEmptyGroup env 0 (removeMember ctx grp (findMember grp.members fd)) grp.name
    HasGroups r.1 (groups.filter fun g => decide (g.name ≠ grp.name))
        (pool ++ handBack env 0 [grp.addr]) ∧
      r.2 = if env.alloc (.mcastEntry 0) then some .success else none := by
  have hmem : grp.without fd ∈ editGroup groups grp.name (.without fd) :=
    KeyedList.mem_edit.mpr ⟨grp, hg, (if_pos rfl).symm⟩
  have hlen := hok.length_le
  have hpos := List.length_pos_of_mem hg
  have hclosed := (removeMember_spec h hg hfd).closeEmptyGroup env 0 hmem (by omega)
  rw [GroupRecord.without_name, GroupRecord.without_addr, editGroup,
    KeyedList.filter_edit fun g _ hname => (g.without_name fd).trans hname] at hclosed
  exact hclosed

theorem handleLeaveGroup_spec (h : HasGroups ctx groups pool) (hok : Addressed groups pool)
    (env : Env) (fd : Int) (msg : TLVMessage) (auth : Bool) (stores : GroupName → Bool) :
    ∃ reply groups' pool', HasGroups (handleLeaveGroup env ctx fd msg).1 groups' pool' ∧
      Sends fd reply (handleLeaveGroup env ctx fd msg).2 ∧
      ErrorKeeps env reply ctx (handleLeaveGroup env ctx fd msg).1 ∧
      GroupStep env stores fd auth groups pool (.leaveGroup (parseGroupValue msg)) reply
        groups' pool' := by
  rw [handleLeaveGroup]
  cases hparse : parseGroupValue msg with
  | none => exact ⟨_, groups, pool, h, sends_error _ _ _, .refl, .leaveBad⟩
  | some name =>
    dsimp only
    cases hfind : ctx.groupMap.find name with
    | none => exact ⟨_, groups, pool, h, sends_error _ _ _, .refl,
        .leaveUnknown (h.find_eq_none.mp hfind)⟩
    | some grp =>
      obtain ⟨hg, rfl⟩ := h.find_eq_some.mp hfind
      by_cases hfd : fd ∈ grp.members
      · simp only [if_neg (findMember_ne_length.mpr hfd)]
        by_cases hone : grp.memberCount = 1
        · rw [if_pos (by omega)]
          exact ⟨_, _, _, (closeAfterLeave_spec h hok hg hfd env).1, sends_success _ _, .success,
            .leftLast hg hfd hone⟩
        · rw [if_neg (by omega)]
          exact ⟨_, _, pool, removeMember_spec h hg hfd, sends_success _ _, .success, .left hg hfd hone⟩
      · have hend : findMember grp.members fd = grp.members.length := by
          by_contra hne
          exact hfd (findMember_ne_length.mp hne)
        simp only [if_pos hend]
        exact ⟨_, groups, pool, h, sends_error _ _ _, .refl, .leaveOutside hg hfd⟩

/-- Every request that does not end a session keeps the context in step with its
groups and its pool, sends exactly one complete reply to `fd`, and does what
`GroupStep` allows. -/
theorem dispatch_running (h : HasGroups ctx groups pool) (hok : Addressed groups pool)
    (hk : Keyed UserRecord.username ctx.userMap) (env : Env) (fd : Int) (msg : TLVMessage)
    (hreq : ¬ (Request.ofMsg msg).endsSession) :
    ∃ reply groups' pool', HasGroups (dispatchMessage env ctx fd msg).1 groups' pool' ∧
      Sends fd reply (dispatchMessage env ctx fd msg).2.1 ∧
      ErrorKeeps env reply ctx (dispatchMessage env ctx fd msg).1 ∧
      GroupStep env (storesGroup env ctx) fd (authenticated ctx.users fd) groups pool (.ofMsg msg) reply
        groups' pool' := by
  have hunknown : ∃ reply groups' pool', HasGroups ctx groups' pool' ∧
      Sends fd reply (sendError env fd .none) ∧ ErrorKeeps env reply ctx ctx ∧
      GroupStep env (storesGroup env ctx) fd (authenticated ctx.users fd) groups pool .unknown
        reply groups' pool' :=
    ⟨_, groups, pool, h, sends_error _ _ _, .refl, .unknown⟩
  unfold Request.ofMsg at hreq
  unfold dispatchMessage Request.ofMsg
  cases htag : MessageTag.ofCode msg.tag with
  | none => exact hunknown
  | some tag =>
    rw [htag] at hreq
    cases tag with
    | register =>
      obtain ⟨userMap, reply, heq, _, hsent, hkeeps, _⟩ := handleRegister_spec hk env fd msg
      dsimp only [returning]
      rw [heq] at hkeeps ⊢
      exact ⟨reply, groups, pool, ⟨h.keyed, h.groups_eq, h.queue, h.size⟩, hsent, hkeeps,
        .other trivial⟩
    | login =>
      obtain ⟨userMap, reply, heq, _, hsent, hkeeps, _⟩ := handleLogin_spec hk env fd msg
      dsimp only [returning]
      rw [heq] at hkeeps ⊢
      exact ⟨reply, groups, pool, ⟨h.keyed, h.groups_eq, h.queue, h.size⟩, hsent, hkeeps,
        .other trivial⟩
    | logout => exact absurd trivial hreq
    | exit => exact absurd trivial hreq
    | joinGroup => exact handleJoinGroup_spec h hok hk.wf env fd msg
    | leaveGroup => exact handleLeaveGroup_spec h hok env fd msg _ _
    | createGroup => exact handleCreateGroup_spec h hok hk.wf env fd msg
    | success => exact hunknown
    | error => exact hunknown
    | groupInfo => exact hunknown

/-- LOGOUT and EXIT clean up after the descriptor and are answered. -/
theorem dispatch_ending (env : Env) (ctx : ServerContext) (fd : Int) {msg : TLVMessage}
    (hreq : (Request.ofMsg msg).endsSession) :
    (dispatchMessage env ctx fd msg).1 = cleanupClient env ctx fd ∧
      (dispatchMessage env ctx fd msg).2.1 = sendSuccess env fd := by
  have htag := Request.ofMsg_endsSession.mp hreq
  rw [← MessageTag.ofCode_eq_some, ← MessageTag.ofCode_eq_some] at htag
  rcases htag with htag | htag <;>
    exact ⟨by rw [dispatchMessage, htag]; rfl, by rw [dispatchMessage, htag]; rfl⟩

/-- Every request keeps the context in step with its groups and its pool, sends
exactly one complete reply to `fd`, and does what `GroupStep` allows. -/
theorem dispatch_groups (h : HasGroups ctx groups pool) (hok : TableOk groups pool)
    (hk : Keyed UserRecord.username ctx.userMap) (env : Env) (fd : Int) (msg : TLVMessage) :
    ∃ reply groups' pool', HasGroups (dispatchMessage env ctx fd msg).1 groups' pool' ∧
      Sends fd reply (dispatchMessage env ctx fd msg).2.1 ∧
      ErrorKeeps env reply ctx (dispatchMessage env ctx fd msg).1 ∧
      GroupStep env (storesGroup env ctx) fd (authenticated ctx.users fd) groups pool (.ofMsg msg) reply
        groups' pool' := by
  by_cases hreq : (Request.ofMsg msg).endsSession
  · obtain ⟨hctx, hsent⟩ := dispatch_ending env ctx fd hreq
    rw [hctx, hsent]
    exact ⟨_, _, _, (cleanupClient_groups h hok env fd).1, sends_success _ _, .success, .ended hreq⟩
  · exact dispatch_running h hok.addressed hk env fd msg hreq

/-- The full effect of one request: one reply, and what it means on both tables. -/
theorem dispatch_spec (h : HasGroups ctx groups pool) (hok : TableOk groups pool)
    (hk : Keyed UserRecord.username ctx.userMap) (env : Env) (fd : Int) (msg : TLVMessage) :
    ∃ reply groups' pool', Keyed UserRecord.username (dispatchMessage env ctx fd msg).1.userMap ∧
      HasGroups (dispatchMessage env ctx fd msg).1 groups' pool' ∧
      Sends fd reply (dispatchMessage env ctx fd msg).2.1 ∧
      ErrorKeeps env reply ctx (dispatchMessage env ctx fd msg).1 ∧
      SessionStep env fd ctx.users (.ofMsg msg) reply (dispatchMessage env ctx fd msg).1.users ∧
      GroupStep env (storesGroup env ctx) fd (authenticated ctx.users fd) groups pool (.ofMsg msg) reply
        groups' pool' := by
  obtain ⟨reply, groups', pool', hgroups, hsent, hkeeps, hstep⟩ :=
    dispatch_groups h hok hk env fd msg
  obtain ⟨⟨hk', _, _⟩, ⟨_, reply', hsent', hsession⟩ | ⟨hquiet, hsame, _⟩⟩ :=
    dispatch_sessions hk env fd msg
  · obtain rfl := hsent.unique hsent'
    exact ⟨reply, groups', pool', hk', hgroups, hsent, hkeeps, hsession, hstep⟩
  · refine ⟨reply, groups', pool', hk', hgroups, hsent, hkeeps, ?_, hstep⟩
    rw [ServerContext.users, ServerContext.users, hsame]
    exact .other hquiet

end Handlers

end MeshChat.Server
