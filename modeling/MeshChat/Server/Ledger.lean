import MeshChat.Server.Memory

/-!
# The server's memory over a run

Every call takes the blocks that the context owned before it to the blocks it owns
after it, whatever allocations fail. So at any time exactly the blocks reached from
the context are allocated, and `server_destroy` frees them, each once. A start that
fails has freed everything it had allocated.
-/
namespace MeshChat.Server
open Resources Runs

theorem clearHolder_usernames (users : List UserRecord) (fd : Int) :
    (clearHolder users fd).map (·.username) = users.map (·.username) := by
  unfold clearHolder
  split
  · rfl
  · exact KeyedList.map_edit fun _ _ _ => rfl

/-- Only a registration adds a user. -/
theorem SessionStep.usernames {env : Env} {fd : Int} {users users' : List UserRecord}
    {req : Request} {reply : Reply} (h : SessionStep env fd users req reply users')
    (hreq : ∀ auth, req ≠ .register auth) : users'.map (·.username) = users.map (·.username) := by
  cases h with
  | registered => exact absurd rfl (hreq _)
  | loggedIn => exact KeyedList.map_edit fun _ _ _ => rfl
  | ended => exact clearHolder_usernames users fd
  | _ => rfl

theorem dispatch_usernames {ctx : ServerContext} (hk : Keyed UserRecord.username ctx.userMap)
    (env : Env) (fd : Int) {msg : TLVMessage} (hreq : ∀ auth, Request.ofMsg msg ≠ .register auth) :
    (dispatchMessage env ctx fd msg).1.users.map (·.username) = ctx.users.map (·.username) := by
  obtain ⟨-, ⟨-, reply, -, hstep⟩ | ⟨-, hsame, -⟩⟩ := dispatch_sessions hk env fd msg
  · exact hstep.usernames hreq
  · rw [ServerContext.users, hsame]
    rfl

theorem GroupRecord.enrol_nodup {grp : GroupRecord} {fd : Int} (h : grp.members.Nodup)
    (hfd : fd ∉ grp.members) (env : Env) : (grp.enrol env fd).members.Nodup := by
  unfold GroupRecord.enrol listPushTail
  cases env.alloc .memberNode with
  | true => exact List.nodup_append.mpr ⟨h, List.nodup_singleton fd, fun a ha b hb he =>
      hfd (List.mem_singleton.mp hb ▸ he ▸ ha)⟩
  | false => exact h

/-- A property of a group record that opening a group, adding a member and removing one
keep. -/
structure KeptByHandlers (P : GroupRecord → Prop) : Prop where
  opened : ∀ name addr, P (.opened name addr)
  enrol : ∀ env fd grp, P grp → fd ∉ grp.members → grp.memberCount < maxMembersPerGroup →
    P (grp.enrol env fd)
  without : ∀ fd grp, P grp → P (grp.without fd)

namespace KeptByHandlers
variable {P : GroupRecord → Prop}

theorem groupStep (hP : KeptByHandlers P) {env : Env} {stores : GroupName → Bool} {fd : Int}
    {auth : Bool} {groups groups' : List GroupRecord} {pool pool' : List McastEntry}
    {req : Request} {reply : Reply}
    (h : GroupStep env stores fd auth groups pool req reply groups' pool')
    (hreq : ¬ req.endsSession) (hnames : (groups.map (·.name)).Nodup)
    (hall : ∀ grp ∈ groups, P grp) : ∀ grp ∈ groups', P grp := by
  cases h with
  | @created name addr _ _ _ hauth hnew hpool hstores hsplit =>
    subst hsplit
    intro grp hg
    rcases List.mem_append.mp hg with hg | hg
    · exact hall grp (List.mem_append_left _ hg)
    · rcases List.mem_cons.mp hg with rfl | hg
      · exact hP.enrol env fd _ (hP.opened name addr) List.not_mem_nil
          (by simp [GroupRecord.opened])
      · exact hall grp (List.mem_append_right _ hg)
  | joined hauth hg hfd hroom =>
    intro g' hg'
    obtain ⟨g, hin, rfl⟩ := KeyedList.mem_edit.mp hg'
    split
    · rename_i hname
      obtain rfl := List.inj_on_of_nodup_map hnames hin hg hname
      exact hP.enrol env fd g (hall g hin) hfd hroom
    · exact hall g hin
  | left hg hfd hmore =>
    intro g' hg'
    obtain ⟨g, hin, rfl⟩ := KeyedList.mem_edit.mp hg'
    split
    · exact hP.without fd g (hall g hin)
    · exact hall g hin
  | leftLast hg hfd hone => exact fun g hin => hall g (List.mem_of_mem_filter hin)
  | ended hends => exact absurd hends hreq
  | _ => exact hall

theorem cleanupClient (hP : KeptByHandlers P) {ctx : ServerContext} (h : AddressesOk ctx)
    (hall : ∀ grp ∈ ctx.groups, P grp) (env : Env) (fd : Int) :
    ∀ grp ∈ (cleanupClient env ctx fd).groups, P grp := by
  intro grp hg
  rw [(cleanupClient_closed h.groups h.addressed.length_le env fd).1.contents.1] at hg
  obtain ⟨g, hin, rfl⟩ := List.mem_map.mp (List.mem_of_mem_filter hg)
  exact hP.without fd g (hall g hin)

/-- Then every call keeps it, whatever fails. -/
theorem call (hP : KeptByHandlers P) {ctx : ServerContext} (h : AddressesOk ctx)
    (hall : ∀ grp ∈ ctx.groups, P grp) (label : CallLabel) :
    ∀ grp ∈ (afterCall ctx label).groups, P grp := by
  obtain ⟨env, call⟩ := label
  cases call with
  | disconnect fd => exact hP.cleanupClient h hall env fd
  | dispatch fd msg =>
    have hafter : afterCall ctx ⟨env, .dispatch fd msg⟩ = (dispatchMessage env ctx fd msg).1 := rfl
    by_cases hreq : (Request.ofMsg msg).endsSession
    · rw [hafter, (dispatch_ending env ctx fd hreq).1]
      exact hP.cleanupClient h hall env fd
    · obtain ⟨reply, groups', pool', hgroups, -, -, hstep⟩ :=
        dispatch_running h.groups h.addressed h.keyed env fd msg hreq
      rw [hafter, hgroups.contents.1]
      exact hP.groupStep hstep hreq h.groups.names hall

end KeptByHandlers

theorem nodup_kept : KeptByHandlers fun grp => grp.members.Nodup where
  opened _ _ := List.nodup_nil
  enrol env _ _ h hfd _ := GroupRecord.enrol_nodup h hfd env
  without fd _ h := GroupRecord.without_nodup h fd

/-- A request that is not about groups leaves the table alone, if its session goes on. -/
theorem GroupStep.idle {env : Env} {stores : GroupName → Bool} {fd : Int} {auth : Bool}
    {groups groups' : List GroupRecord} {pool pool' : List McastEntry} {req : Request}
    {reply : Reply} (h : GroupStep env stores fd auth groups pool req reply groups' pool')
    (hasks : ¬ req.asksGroup) (hleave : ∀ name, req ≠ .leaveGroup name)
    (hends : ¬ req.endsSession) : groups' = groups ∧ pool' = pool := by
  cases h with
  | left | leftLast => exact absurd rfl (hleave _)
  | ended h => exact absurd h hends
  | createFailed | created | joined => exact absurd trivial hasks
  | _ => exact ⟨rfl, rfl⟩

/-- The blocks reached from the context. -/
def ServerContext.blocks (ctx : ServerContext) : Set Block := owned ctx.users ctx.groups ctx.pool

/-- What holds of every context the server gets to, for its memory. -/
structure MemoryOk (ctx : ServerContext) : Prop where
  addresses : AddressesOk ctx
  members : ∀ grp ∈ ctx.groups, grp.members.Nodup

namespace MemoryOk
variable {ctx : ServerContext}

theorem cleanupClient_leads (h : MemoryOk ctx) (env : Env) (fd : Int) :
    Leads ctx.blocks (cleanupClientUses env ctx fd) (cleanupClient env ctx fd).blocks := by
  have hgroups := h.addresses.groups
  have hok := h.addresses.addressed
  have husers : (cleanupClient env ctx fd).users.map (·.username) =
      ctx.users.map (·.username) := by
    rw [(cleanupClient_users h.addresses.keyed env fd).2.1]
    exact clearHolder_usernames ctx.users fd
  obtain ⟨hleft, hfree⟩ := (cleanupClient_closed hgroups hok.length_le env fd).1.contents
  rw [ServerContext.blocks, ServerContext.blocks, hleft, hfree, owned_of_usernames husers]
  exact Server.cleanupClient_leads ctx.users hgroups hok h.members env fd

/-- A request that keeps its session, by the handler it goes to. -/
theorem dispatch_leads (h : MemoryOk ctx) {env : Env} {fd : Int} {msg : TLVMessage}
    (hreq : ¬ (Request.ofMsg msg).endsSession) {reply : Reply} {groups' : List GroupRecord}
    {pool' : List McastEntry}
    (hstep : GroupStep env (storesGroup env ctx) fd (authenticated ctx.users fd) ctx.groups
      ctx.pool (.ofMsg msg) reply groups' pool') :
    Leads ctx.blocks (dispatchMessageUses env ctx fd msg)
      (owned (dispatchMessage env ctx fd msg).1.users groups' pool') := by
  have hk := h.addresses.keyed
  have husers : (∀ auth, Request.ofMsg msg ≠ .register auth) →
      owned (dispatchMessage env ctx fd msg).1.users groups' pool' =
        owned ctx.users groups' pool' :=
    fun hother => owned_of_usernames (dispatch_usernames hk env fd hother)
  have hquiet : Request.ofMsg msg = .unknown → dispatchMessageUses env ctx fd msg = [] →
      Leads ctx.blocks (dispatchMessageUses env ctx fd msg)
        (owned (dispatchMessage env ctx fd msg).1.users groups' pool') := by
    intro hunknown huses
    rw [hunknown] at hstep
    obtain ⟨rfl, rfl⟩ := hstep.idle id (by simp) id
    rw [husers (by simp [hunknown]), huses]
    exact .nil _
  cases htag : MessageTag.ofCode msg.tag with
  | none => exact hquiet (by rw [Request.ofMsg, htag]) (by rw [dispatchMessageUses, htag])
  | some tag =>
    cases tag with
    | register =>
      have hmsg : Request.ofMsg msg = .register (parseAuthValue msg) := by
        rw [Request.ofMsg, htag]
      rw [hmsg] at hstep
      obtain ⟨rfl, rfl⟩ := hstep.idle id (by simp) id
      have huses : dispatchMessageUses env ctx fd msg = handleRegisterUses env ctx msg := by
        rw [dispatchMessageUses, htag]
      have hdispatch : (dispatchMessage env ctx fd msg).1 = (handleRegister env ctx fd msg).1 := by
        rw [dispatchMessage, htag]
        rfl
      rw [huses, hdispatch]
      exact handleRegister_leads hk env fd msg
    | login =>
      have hmsg : Request.ofMsg msg = .login (parseAuthValue msg) := by rw [Request.ofMsg, htag]
      rw [hmsg] at hstep
      obtain ⟨rfl, rfl⟩ := hstep.idle id (by simp) id
      rw [husers (by simp [hmsg]), dispatchMessageUses, htag]
      exact .nil _
    | logout => exact absurd (by rw [Request.ofMsg, htag]; trivial) hreq
    | exit => exact absurd (by rw [Request.ofMsg, htag]; trivial) hreq
    | createGroup =>
      have hmsg : Request.ofMsg msg = .createGroup (parseGroupValue msg) := by
        rw [Request.ofMsg, htag]
      rw [husers (by simp [hmsg]), dispatchMessageUses, htag]
      rw [hmsg] at hstep
      exact handleCreateGroup_leads ctx.users h.addresses.groups h.addresses.addressed hk.wf env fd
        msg hstep
    | joinGroup =>
      have hmsg : Request.ofMsg msg = .joinGroup (parseGroupValue msg) := by
        rw [Request.ofMsg, htag]
      rw [husers (by simp [hmsg]), dispatchMessageUses, htag]
      rw [hmsg] at hstep
      exact handleJoinGroup_leads ctx.users h.addresses.groups hk.wf env fd msg hstep
    | leaveGroup =>
      have hmsg : Request.ofMsg msg = .leaveGroup (parseGroupValue msg) := by
        rw [Request.ofMsg, htag]
      rw [husers (by simp [hmsg]), dispatchMessageUses, htag]
      rw [hmsg] at hstep
      exact handleLeaveGroup_leads ctx.users h.addresses.groups h.addresses.addressed h.members env
        fd msg hstep
    | success | error | groupInfo =>
      exact hquiet (by rw [Request.ofMsg, htag]) (by rw [dispatchMessageUses, htag])

theorem call (h : MemoryOk ctx) (label : CallLabel) :
    MemoryOk (afterCall ctx label) ∧
      Leads ctx.blocks (callUses ⟨ctx, label, afterCall ctx label⟩)
        (afterCall ctx label).blocks := by
  refine ⟨⟨h.addresses.call label, nodup_kept.call h.addresses h.members label⟩, ?_⟩
  obtain ⟨env, call⟩ := label
  cases call with
  | disconnect fd => exact h.cleanupClient_leads env fd
  | dispatch fd msg =>
    by_cases hreq : (Request.ofMsg msg).endsSession
    · have hafter : afterCall ctx ⟨env, .dispatch fd msg⟩ = cleanupClient env ctx fd :=
        (dispatch_ending env ctx fd hreq).1
      have huses : dispatchMessageUses env ctx fd msg = cleanupClientUses env ctx fd := by
        have htag := Request.ofMsg_endsSession.mp hreq
        rw [← MessageTag.ofCode_eq_some, ← MessageTag.ofCode_eq_some] at htag
        rcases htag with htag | htag <;> rw [dispatchMessageUses, htag]
      have hleads := h.cleanupClient_leads env fd
      rw [← hafter, ← huses] at hleads
      exact hleads
    · obtain ⟨reply, groups', pool', hgroups, -, -, hstep⟩ :=
        dispatch_running h.addresses.groups h.addresses.addressed h.addresses.keyed env fd msg hreq
      obtain ⟨hin, hfree⟩ := hgroups.contents
      have hleads := h.dispatch_leads hreq hstep
      rw [← hin, ← hfree] at hleads
      exact hleads

end MemoryOk

section Destroy

/-- What a context owns as far as it is built, in the order in which `server_destroy` frees it. -/
def heldBlocks (users : Option (List UserRecord)) (groups : Option (List GroupRecord))
    (pool : Option (List McastEntry)) : List Block :=
  users.elim [] (fun users => users.map (fun u => .userRecord u.username) ++ [.userMap]) ++
    groups.elim [] (fun groups => groups.flatMap groupBlocks ++ [.groupMap]) ++
    pool.elim [] (fun pool => pool.map .mcastEntry ++ [.mcastQueue]) ++ [.context]

theorem serverDestroyUses_eq (userMap : Option UserMap) (groupMap : Option GroupMap)
    (mcastQueue : Option (Queue McastEntry)) :
    serverDestroyUses userMap groupMap mcastQueue =
      (heldBlocks (userMap.map records) (groupMap.map records)
        (mcastQueue.map Queue.toList)).map .release := by
  have hgroups : ∀ groups : List GroupRecord, groups.flatMap destroyGroupRecordUses =
      (groups.flatMap groupBlocks).map .release := by
    intro groups
    rw [List.map_flatMap]
    exact List.flatMap_congr fun grp _ => destroyGroupRecordUses_eq grp
  cases userMap <;> cases groupMap <;> cases mcastQueue <;>
    simp [serverDestroyUses, heldBlocks, hgroups, Function.comp_def]

variable {users : List UserRecord} {groups : List GroupRecord} {pool : List McastEntry}

theorem setOf_mem_heldBlocks :
    {b | b ∈ heldBlocks (some users) (some groups) (some pool)} = owned users groups pool := by
  ext b
  rw [Set.mem_ofPred_eq, mem_owned_iff]
  cases b <;> simp [heldBlocks, owned, Owns, mem_groupBlocks]

theorem groupBlocks_flatMap_nodup (hnames : (groups.map (·.name)).Nodup)
    (hnodup : ∀ grp ∈ groups, grp.members.Nodup) : (groups.flatMap groupBlocks).Nodup := by
  refine List.nodup_flatMap.mpr ⟨fun grp hg => groupBlocks_nodup (hnodup grp hg), ?_⟩
  refine (List.pairwise_map.mp hnames).imp fun {grp g} hne b hb hb' => ?_
  exact hne (name_eq_of_mem_groupBlocks hb hb').symm

theorem heldBlocks_nodup (husers : (users.map (·.username)).Nodup)
    (hnames : (groups.map (·.name)).Nodup) (hnodup : ∀ grp ∈ groups, grp.members.Nodup)
    (hpool : pool.Nodup) : (heldBlocks (some users) (some groups) (some pool)).Nodup := by
  have hrecords : (users.map fun u => Block.userRecord u.username).Nodup := by
    have hmapped := husers.map (f := Block.userRecord) fun _ _ he => Block.userRecord.inj he
    rwa [List.map_map] at hmapped
  have hentries : (pool.map Block.mcastEntry).Nodup :=
    hpool.map fun _ _ he => Block.mcastEntry.inj he
  have hblocks := groupBlocks_flatMap_nodup hnames hnodup
  have hall := ((hrecords.append (List.nodup_singleton .userMap) ?_).append
    (hblocks.append (List.nodup_singleton .groupMap) ?_) ?_).append
    (hentries.append (List.nodup_singleton .mcastQueue) ?_) ?_
  · exact hall.append (List.nodup_singleton Block.context) fun b hb hb' => by
      cases b <;> simp [mem_groupBlocks] at hb hb'
  all_goals
    intro b hb hb'
    cases b <;> simp [mem_groupBlocks] at hb hb'

/-- `server_destroy` frees all there is. -/
theorem serverDestroy_leads {userMap : Option UserMap} {groupMap : Option GroupMap}
    {mcastQueue : Option (Queue McastEntry)} {users : Option (List UserRecord)}
    {groups : Option (List GroupRecord)} {pool : Option (List McastEntry)}
    (hu : userMap.map records = users) (hg : groupMap.map records = groups)
    (hp : mcastQueue.map Queue.toList = pool) (h : (heldBlocks users groups pool).Nodup) :
    Leads {b | b ∈ heldBlocks users groups pool} (serverDestroyUses userMap groupMap mcastQueue)
      ∅ := by
  rw [serverDestroyUses_eq, hu, hg, hp]
  exact .releaseAll h (fun b hb => hb) fun b => ⟨nofun, fun hb => absurd hb.1 hb.2⟩

theorem MemoryOk.heldBlocks_nodup {ctx : ServerContext} (h : MemoryOk ctx) :
    (heldBlocks (some ctx.users) (some ctx.groups) (some ctx.pool)).Nodup :=
  Server.heldBlocks_nodup h.addresses.keyed.nodup h.addresses.groups.names h.members
    (List.nodup_append.mp h.addresses.addressed.nodup).2.1

theorem MemoryOk.serverDestroy {ctx : ServerContext} (h : MemoryOk ctx) :
    Leads ctx.blocks
      (serverDestroyUses (some ctx.userMap) (some ctx.groupMap) (some ctx.mcastQueue)) ∅ := by
  rw [ServerContext.blocks, ← setOf_mem_heldBlocks]
  exact serverDestroy_leads rfl rfl rfl h.heldBlocks_nodup

end Destroy

section Create
variable {userMap : UserMap} {groupMap : GroupMap}

theorem pool_nodup {i : ℕ} (hi : i ≤ multicastPoolSize) :
    ((List.range i).map poolEntry).Nodup := by
  have hsub : List.Sublist (List.range i) (List.range multicastPoolSize) :=
    List.range_sublist.mpr hi
  exact (hsub.map poolEntry).nodup poolEntries_nodup

/-- The loop at its `i`-th entry ends with a full pool, or everything is freed again. -/
theorem preload_leads (husers : records userMap = []) (hgroups : records groupMap = [])
    (alloc : ℕ → Bool) (left i : ℕ) {queue : Queue McastEntry}
    (hq : queue.Represents ((List.range i).map poolEntry)) (hsize : queue.size = multicastPoolSize)
    (hi : i + left ≤ multicastPoolSize) :
    Leads (owned [] [] ((List.range i).map poolEntry))
      (preloadUses alloc userMap groupMap left i queue)
      (match preload alloc left i queue with
        | none => ∅
        | some _ => owned [] [] ((List.range (i + left)).map poolEntry)) := by
  induction left generalizing i queue with
  | zero => exact .nil _
  | succ left ih =>
    have hroom : ((List.range i).map poolEntry).length < queue.size := by
      rw [List.length_map, List.length_range, hsize]
      omega
    obtain ⟨hs, hsize', hq'⟩ := hq.insert hroom (poolEntry i)
    have hnext : (List.range i).map poolEntry ++ [poolEntry i] =
        (List.range (i + 1)).map poolEntry := by
      rw [List.range_succ, List.map_append]
      rfl
    have hnodup := pool_nodup (show i + 1 ≤ multicastPoolSize by omega)
    rw [← hnext, List.nodup_append] at hnodup
    rw [preloadUses, preload]
    cases halloc : alloc (7 + i) with
    | false =>
      simp only [Bool.not_false, if_true]
      rw [← setOf_mem_heldBlocks]
      exact serverDestroy_leads (congrArg some husers) (congrArg some hgroups)
        (congrArg some hq.toList_eq)
        (heldBlocks_nodup List.nodup_nil List.nodup_nil (fun _ hg => absurd hg List.not_mem_nil)
          hnodup.1)
    | true =>
      have htaken : Leads (owned [] [] ((List.range i).map poolEntry))
          [.acquire (.mcastEntry (poolEntry i))]
          (owned [] [] ((List.range (i + 1)).map poolEntry)) := by
        refine .acquire (fun hin => hnodup.2.2 _ hin _ (List.mem_singleton_self _) rfl) fun b => ?_
        rw [← hnext]
        cases b <;> simp [owned, Owns, or_comm]
      rw [hnext] at hq'
      have hrest := ih (i + 1) hq' (hsize'.trans hsize) (by omega)
      rw [Nat.add_right_comm, Nat.add_assoc] at hrest
      simp only [Bool.not_true, Bool.false_eq_true, if_false, hs, if_true]
      exact htaken.cons hrest

/-- A start that fails has freed all it took; one that succeeds owns its context. -/
theorem serverCreate_leads (alloc : ℕ → Bool) :
    Leads ∅ (serverCreateUses alloc)
      (match serverCreate alloc with
        | none => ∅
        | some _ => owned [] [] poolEntries) := by
  have hcontext : Leads ∅ [.acquire .context] {b | b ∈ heldBlocks none none none} :=
    .acquire nofun fun b => by simp [heldBlocks]
  rw [serverCreateUses, serverCreate]
  rcases hfirst : alloc 0 with _ | _
  · exact .nil _
  simp only [Bool.not_true, Bool.false_eq_true, if_false]
  rcases huser : HashMap.create (alloc 1) (alloc 2) (UInt64.ofNat maxClients) with _ | userMap
  · exact hcontext.cons (serverDestroy_leads rfl rfl rfl (by simp [heldBlocks]))
  have husers := (stringMap_create UserRecord.username (by decide) userMap_capacity
    (by decide) huser).2
  have husersMade : Leads {b | b ∈ heldBlocks none none none} [.acquire .userMap]
      {b | b ∈ heldBlocks (some []) none none} :=
    .acquire (by simp [heldBlocks]) fun b => by simp [heldBlocks]
  rcases hgroup : HashMap.create (alloc 3) (alloc 4) (UInt64.ofNat maxGroups) with _ | groupMap
  · exact hcontext.cons (husersMade.cons
      (serverDestroy_leads (congrArg some husers) rfl rfl (by simp [heldBlocks])))
  have hgroups := (stringMap_create GroupRecord.name (by decide) groupMap_capacity
    (by decide) hgroup).2
  have hgroupsMade : Leads {b | b ∈ heldBlocks (some []) none none} [.acquire .groupMap]
      {b | b ∈ heldBlocks (some []) (some []) none} :=
    .acquire (by simp [heldBlocks]) fun b => by simp [heldBlocks, or_left_comm]
  rcases hqueue : Queue.create (alloc 5) (alloc 6) multicastPoolSize with _ | queue
  · exact hcontext.cons (husersMade.cons (hgroupsMade.cons
      (serverDestroy_leads (congrArg some husers) (congrArg some hgroups) rfl
        (by simp [heldBlocks]))))
  obtain ⟨hsize, hempty⟩ := Queue.create_represents (by decide) hqueue
  have hqueueMade : Leads {b | b ∈ heldBlocks (some []) (some []) none} [.acquire .mcastQueue]
      (owned [] [] ((List.range 0).map poolEntry)) := by
    rw [← setOf_mem_heldBlocks]
    exact .acquire (by simp [heldBlocks]) fun b => by simp [heldBlocks, or_left_comm]
  have hfilled := preload_leads husers hgroups alloc multicastPoolSize 0 hempty hsize (by decide)
  have hstarted := hcontext.cons (husersMade.cons (hgroupsMade.cons (hqueueMade.cons hfilled)))
  rw [Nat.zero_add] at hstarted
  dsimp only
  rcases hpre : preload alloc multicastPoolSize 0 queue with _ | mcastQueue
  · rwa [hpre] at hstarted
  · rwa [hpre] at hstarted

end Create

theorem Initial.memoryOk {ctx : ServerContext} (h : Initial ctx) : MemoryOk ctx := by
  refine ⟨h.serverOk.addressesOk, fun grp hg => ?_⟩
  rw [h.groups.contents.1] at hg
  exact absurd hg List.not_mem_nil

theorem serverCreate_blocks {alloc : ℕ → Bool} {ctx : ServerContext}
    (h : serverCreate alloc = some ctx) : Leads ∅ (serverCreateUses alloc) ctx.blocks := by
  have hinit := serverCreate_initial h
  obtain ⟨hgroups, hpool⟩ := hinit.groups.contents
  have hcreate := serverCreate_leads alloc
  rw [h] at hcreate
  rwa [ServerContext.blocks, hinit.users, hgroups, hpool]

/-- A run of calls from a start that succeeded. -/
theorem memory_of_run {alloc : ℕ → Bool} {ctx₀ ctx : ServerContext}
    {moves : List (Move ServerContext CallLabel)} (h0 : serverCreate alloc = some ctx₀)
    (hr : Run CallStep ctx₀ moves ctx) :
    MemoryOk ctx ∧ Leads ∅ (serverCreateUses alloc ++ moves.flatMap callUses) ctx.blocks := by
  obtain ⟨hok, hcalls⟩ := Leads.run (I := MemoryOk) ServerContext.blocks callUses
    (serverCreate_initial h0).memoryOk (fun s label t hs hstep => by
      obtain rfl : t = afterCall s label := hstep
      exact hs.call label) hr
  exact ⟨hok, (serverCreate_blocks h0).append hcalls⟩

/-- Whatever allocations fail: a start that fails has freed everything; and over any run of
calls exactly the blocks reached from the context are allocated, each is freed once
between two allocations of it, and `server_destroy` leaves none. -/
theorem memory_accounted (alloc : ℕ → Bool) :
    (serverCreate alloc = none → Accounted (serverCreateUses alloc)) ∧
      ∀ ctx₀ moves ctx, serverCreate alloc = some ctx₀ → Run CallStep ctx₀ moves ctx →
        (∀ b, Holds (serverCreateUses alloc ++ moves.flatMap callUses) b ↔
          b ∈ owned ctx.users ctx.groups ctx.pool) ∧
        Accounted (serverCreateUses alloc ++ moves.flatMap callUses ++
          serverDestroyUses (some ctx.userMap) (some ctx.groupMap) (some ctx.mcastQueue)) := by
  constructor
  · intro hfail
    have hcreate := serverCreate_leads alloc
    rw [hfail] at hcreate
    exact hcreate.ledger.accounted
  · intro ctx₀ moves ctx h0 hr
    obtain ⟨hok, hbefore⟩ := memory_of_run h0 hr
    exact ⟨fun b => (hbefore.ledger.mem_iff_holds b).symm,
      (hbefore.append hok.serverDestroy).ledger.accounted⟩

/-- Two users in one group hold a node each, a third counts without one, and a group
that another create allocated is gone; and a start that fails at its third address. -/
theorem memory_accounted_crowd :
    let uses := serverCreateUses (fun _ => true) ++
      (labelledCalls started scarceJoin).flatMap callUses
    let ctx := afterLabelledCalls started scarceJoin
    Holds uses (.member (nameOf 0) 1) ∧ ¬ Holds uses (.member (nameOf 0) 2) ∧
      ¬ Holds uses (.groupRecord (nameOf 1)) ∧
      Accounted (uses ++ serverDestroyUses (some ctx.userMap) (some ctx.groupMap)
        (some ctx.mcastQueue)) ∧
      Accounted (serverCreateUses fun n => decide (n ≠ 9)) := by
  obtain ⟨hholds, hdone⟩ := (memory_accounted fun _ => true).2 _ _ _ serverCreate_started
    (run_labelledCalls started scarceJoin)
  have hmember : ∃ grp ∈ (afterLabelledCalls started scarceJoin).groups,
      grp.name = nameOf 0 ∧ 1 ∈ grp.members := by decide +kernel
  have hthird : ¬ ∃ grp ∈ (afterLabelledCalls started scarceJoin).groups,
      grp.name = nameOf 0 ∧ 2 ∈ grp.members := by decide +kernel
  have hother : ¬ ∃ grp ∈ (afterLabelledCalls started scarceJoin).groups,
      grp.name = nameOf 1 := by decide +kernel
  exact ⟨(hholds _).mpr hmember, fun h => hthird ((hholds _).mp h),
    fun h => hother ((hholds _).mp h), hdone, (memory_accounted fun n => decide (n ≠ 9)).1
      (Option.isNone_iff_eq_none.mp (by decide))⟩

end MeshChat.Server
