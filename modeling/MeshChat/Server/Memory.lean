import MeshChat.Lib.Resources
import MeshChat.Server.Addresses

/-!
# The memory of the server program

What `server_net.c` and `server_mng.c` allocate and free themselves: the context
and the three containers in it, the records, their member lists and the entries
of the address pool. A block is named by what it holds. The functions ending in
`Uses` list what their source function acquires and releases, in order; what the
containers allocate inside is the business of their own modules. No allocation
that fails makes the server lose a block or free one twice.
-/
namespace MeshChat.Server
open Resources Runs

inductive Block where
  | context | userMap | groupMap | mcastQueue
  | userRecord (username : Username)
  | groupRecord (name : GroupName)
  /-- the list of `ListCreate` in a group record -/
  | members (name : GroupName)
  /-- a node of that list -/
  | member (name : GroupName) (fd : Int)
  | mcastEntry (addr : McastEntry)
  deriving DecidableEq

/-- `ListDestroy` and `free` of a record, in `destroy_group_record` and in
`close_empty_group`. -/
def destroyGroupRecordUses (grp : GroupRecord) : List (Use Block) :=
  grp.members.map (fun fd => .release (.member grp.name fd)) ++
    [.release (.members grp.name), .release (.groupRecord grp.name)]

def closeEmptyGroupUses (env : Env) (closing : ℕ) (ctx : ServerContext) (name : GroupName) :
    List (Use Block) :=
  match (ctx.groupMap.remove name).1 with
  | none => []
  | some pair =>
      let grp := pair.value
      (if env.alloc (.mcastEntry closing) then
        [.acquire (.mcastEntry ⟨strncpy grp.mcastIp.toCStr, grp.mcastPort⟩)] else []) ++
        destroyGroupRecordUses grp

def closeEmptyGroupsUses (env : Env) : ℕ → ServerContext → List GroupName → List (Use Block)
  | _, _, [] => []
  | closing, ctx, name :: names =>
      closeEmptyGroupUses env closing ctx name ++
        closeEmptyGroupsUses env (closing + 1) (closeEmptyGroup env closing ctx name).1 names

/-- `ListItrRemove` in `cleanup_group_action`. -/
def cleanupGroupActionUses (fd : Int) (grp : GroupRecord) : List (Use Block) :=
  if findMember grp.members fd ≠ grp.members.length then [.release (.member grp.name fd)] else []

def cleanupClientUses (env : Env) (ctx : ServerContext) (fd : Int) : List (Use Block) :=
  let r := leaveAllGroups ctx fd
  ctx.groups.flatMap (cleanupGroupActionUses fd) ++ closeEmptyGroupsUses env 0 r.1 r.2

def handleRegisterUses (env : Env) (ctx : ServerContext) (msg : TLVMessage) : List (Use Block) :=
  match parseAuthValue msg with
  | none => []
  | some (uname, pass) =>
      match ctx.userMap.find uname with
      | some _ => []
      | none =>
          if !env.alloc .userRecord then []
          else
            let u : UserRecord :=
              { username := strncpy uname.toCStr, password := strncpy pass.toCStr,
                loggedIn := 0, socketFd := -1 }
            .acquire (.userRecord u.username) ::
              if (ctx.userMap.insert env.insertAlloc u.username u).1 ≠ .success then
                [.release (.userRecord u.username)] else []

def addMemberUses (env : Env) (fd : Int) (grp : GroupRecord) : List (Use Block) :=
  if findMember grp.members fd ≠ grp.members.length then []
  else if grp.memberCount ≥ maxMembersPerGroup then []
  else if env.alloc .memberNode then [.acquire (.member grp.name fd)] else []

def handleCreateGroupUses (env : Env) (ctx : ServerContext) (fd : Int) (msg : TLVMessage) :
    List (Use Block) :=
  if notLoggedIn ctx fd then []
  else
    match parseGroupValue msg with
    | none => []
    | some gname =>
        match ctx.groupMap.find gname with
        | some _ => []
        | none =>
            if ctx.mcastQueue.isEmpty then []
            else
              match ctx.mcastQueue.remove with
              | (_, none, _) => []
              | (_, some me, _) =>
                  let grp : GroupRecord :=
                    { name := strncpy gname.toCStr, mcastIp := strncpy me.ip.toCStr,
                      mcastPort := me.port, members := [], memberCount := 0 }
                  if !env.alloc .groupRecord then []
                  else if !env.alloc .memberList then
                    [.acquire (.groupRecord grp.name), .release (.groupRecord grp.name)]
                  else
                    [.acquire (.groupRecord grp.name), .acquire (.members grp.name)] ++
                      if (ctx.groupMap.insert env.insertAlloc grp.name grp).1 ≠ .success then
                        destroyGroupRecordUses grp
                      else .release (.mcastEntry me) :: addMemberUses env fd grp

def handleJoinGroupUses (env : Env) (ctx : ServerContext) (fd : Int) (msg : TLVMessage) :
    List (Use Block) :=
  if notLoggedIn ctx fd then []
  else
    match parseGroupValue msg with
    | none => []
    | some gname =>
        match ctx.groupMap.find gname with
        | none => []
        | some grp => addMemberUses env fd grp

def handleLeaveGroupUses (env : Env) (ctx : ServerContext) (fd : Int) (msg : TLVMessage) :
    List (Use Block) :=
  match parseGroupValue msg with
  | none => []
  | some gname =>
      match ctx.groupMap.find gname with
      | none => []
      | some grp =>
          let itr := findMember grp.members fd
          if itr = grp.members.length then []
          else
            .release (.member grp.name fd) ::
              if grp.memberCount - 1 = 0 then
                closeEmptyGroupUses env 0 (removeMember ctx grp itr) gname else []

def dispatchMessageUses (env : Env) (ctx : ServerContext) (fd : Int) (msg : TLVMessage) :
    List (Use Block) :=
  match MessageTag.ofCode msg.tag with
  | some .register => handleRegisterUses env ctx msg
  | some .logout | some .exit => cleanupClientUses env ctx fd
  | some .createGroup => handleCreateGroupUses env ctx fd msg
  | some .joinGroup => handleJoinGroupUses env ctx fd msg
  | some .leaveGroup => handleLeaveGroupUses env ctx fd msg
  | _ => []

def callUses (m : Move ServerContext CallLabel) : List (Use Block) :=
  match m.label.call with
  | .dispatch fd msg => dispatchMessageUses m.label.env m.pre fd msg
  | .disconnect fd => cleanupClientUses m.label.env m.pre fd

/-- `server_destroy`; of a context that `server_create` left half-built the missing
containers are NULL. -/
def serverDestroyUses (userMap : Option UserMap) (groupMap : Option GroupMap)
    (mcastQueue : Option (Queue McastEntry)) : List (Use Block) :=
  (match userMap with
    | none => []
    | some map => (records map).map (fun u => .release (.userRecord u.username)) ++
        [.release .userMap]) ++
  (match groupMap with
    | none => []
    | some map => (records map).flatMap destroyGroupRecordUses ++ [.release .groupMap]) ++
  (match mcastQueue with
    | none => []
    | some queue => queue.toList.map (fun addr => .release (.mcastEntry addr)) ++
        [.release .mcastQueue]) ++
  [.release .context]

/-- The preloading loop, to the end or to the `fail` label. -/
def preloadUses (alloc : ℕ → Bool) (userMap : UserMap) (groupMap : GroupMap) :
    ℕ → ℕ → Queue McastEntry → List (Use Block)
  | 0, _, _ => []
  | left + 1, i, queue =>
      if !alloc (7 + i) then serverDestroyUses (some userMap) (some groupMap) (some queue)
      else
        let r := queue.insert (poolEntry i)
        .acquire (.mcastEntry (poolEntry i)) ::
          if r.1 = .success then preloadUses alloc userMap groupMap left (i + 1) r.2
          else .release (.mcastEntry (poolEntry i)) ::
            serverDestroyUses (some userMap) (some groupMap) (some r.2)

def serverCreateUses (alloc : ℕ → Bool) : List (Use Block) :=
  if !alloc 0 then []
  else
    .acquire .context ::
      match HashMap.create (alloc 1) (alloc 2) (UInt64.ofNat maxClients) with
      | none => serverDestroyUses none none none
      | some userMap =>
          .acquire .userMap ::
            match HashMap.create (alloc 3) (alloc 4) (UInt64.ofNat maxGroups) with
            | none => serverDestroyUses (some userMap) none none
            | some groupMap =>
                .acquire .groupMap ::
                  match Queue.create (alloc 5) (alloc 6) multicastPoolSize with
                  | none => serverDestroyUses (some userMap) (some groupMap) none
                  | some queue =>
                      .acquire .mcastQueue ::
                        preloadUses alloc userMap groupMap multicastPoolSize 0 queue

/-- The blocks reached from a context with these records and free addresses. -/
def Owns (users : List UserRecord) (groups : List GroupRecord) (pool : List McastEntry) :
    Block → Prop
  | .context | .userMap | .groupMap | .mcastQueue => True
  | .userRecord name => ∃ u ∈ users, u.username = name
  | .groupRecord name | .members name => ∃ grp ∈ groups, grp.name = name
  | .member name fd => ∃ grp ∈ groups, grp.name = name ∧ fd ∈ grp.members
  | .mcastEntry addr => addr ∈ pool

def owned (users : List UserRecord) (groups : List GroupRecord) (pool : List McastEntry) :
    Set Block := {b | Owns users groups pool b}

section Owned
variable {users : List UserRecord} {groups : List GroupRecord} {pool : List McastEntry}

/-- The blocks of one group, as they are freed. -/
def groupBlocks (grp : GroupRecord) : List Block :=
  grp.members.map (.member grp.name) ++ [.members grp.name, .groupRecord grp.name]

theorem destroyGroupRecordUses_eq (grp : GroupRecord) :
    destroyGroupRecordUses grp = (groupBlocks grp).map .release := by
  simp [destroyGroupRecordUses, groupBlocks]

theorem groupBlocks_nodup {grp : GroupRecord} (h : grp.members.Nodup) :
    (groupBlocks grp).Nodup := by
  have hnodes : (grp.members.map (Block.member grp.name)).Nodup :=
    h.map fun _ _ he => (Block.member.inj he).2
  refine hnodes.append (by simp) ?_
  simp [List.disjoint_left]

theorem mem_groupBlocks {grp : GroupRecord} {b : Block} :
    b ∈ groupBlocks grp ↔ b = .groupRecord grp.name ∨ b = .members grp.name ∨
      ∃ fd ∈ grp.members, b = .member grp.name fd := by
  simp only [groupBlocks, List.mem_append, List.mem_map, List.mem_cons, List.not_mem_nil, or_false]
  constructor
  · rintro (⟨fd, hfd, rfl⟩ | rfl | rfl)
    · exact .inr (.inr ⟨fd, hfd, rfl⟩)
    · exact .inr (.inl rfl)
    · exact .inl rfl
  · rintro (rfl | rfl | ⟨fd, hfd, rfl⟩)
    · exact .inr (.inr rfl)
    · exact .inr (.inl rfl)
    · exact .inl ⟨fd, hfd, rfl⟩

/-- The block of a group tells the group. -/
theorem name_eq_of_mem_groupBlocks {grp g : GroupRecord} {b : Block} (h : b ∈ groupBlocks grp)
    (h' : b ∈ groupBlocks g) : g.name = grp.name := by
  rcases mem_groupBlocks.mp h with rfl | rfl | ⟨fd, _, rfl⟩
  · simpa [mem_groupBlocks, eq_comm] using h'
  · simpa [mem_groupBlocks, eq_comm] using h'
  · have hboth : fd ∈ g.members ∧ grp.name = g.name := by simpa [mem_groupBlocks] using h'
    exact hboth.2.symm

/-- What is owned is owned without any group, or it is a block of a group. -/
theorem mem_owned_iff {b : Block} :
    b ∈ owned users groups pool ↔ b ∈ owned users [] pool ∨ ∃ grp ∈ groups, b ∈ groupBlocks grp := by
  cases b <;> simp [owned, Owns, mem_groupBlocks, eq_comm, and_comm]

theorem not_owned_of_mem_groupBlocks {grp : GroupRecord} {b : Block} (h : b ∈ groupBlocks grp) :
    b ∉ owned users [] pool := by
  rcases mem_groupBlocks.mp h with rfl | rfl | ⟨fd, _, rfl⟩ <;> simp [owned, Owns]

/-- Without a group the context owns everything but the blocks of the group. -/
theorem mem_owned_filter {grp : GroupRecord} (hg : grp ∈ groups)
    (hnames : (groups.map (·.name)).Nodup) (b : Block) :
    b ∈ owned users (groups.filter fun g => decide (g.name ≠ grp.name)) pool ↔
      b ∈ owned users groups pool ∧ b ∉ groupBlocks grp := by
  rw [mem_owned_iff, @mem_owned_iff users groups]
  constructor
  · rintro (hb | ⟨g, hin, hb⟩)
    · exact ⟨.inl hb, fun hgone => not_owned_of_mem_groupBlocks hgone hb⟩
    · obtain ⟨hin, hne⟩ := List.mem_filter.mp hin
      exact ⟨.inr ⟨g, hin, hb⟩, fun hgone =>
        of_decide_eq_true hne (name_eq_of_mem_groupBlocks hgone hb)⟩
  · rintro ⟨hb | ⟨g, hin, hb⟩, hstays⟩
    · exact .inl hb
    · refine .inr ⟨g, List.mem_filter.mpr ⟨hin, decide_eq_true fun he => hstays ?_⟩, hb⟩
      obtain rfl := List.inj_on_of_nodup_map hnames hin hg he
      exact hb

theorem mem_owned_member {grp : GroupRecord} (hg : grp ∈ groups)
    (hnames : (groups.map (·.name)).Nodup) {fd : Int} :
    .member grp.name fd ∈ owned users groups pool ↔ fd ∈ grp.members := by
  constructor
  · rintro ⟨g, hin, hname, hmem⟩
    obtain rfl := List.inj_on_of_nodup_map hnames hin hg hname
    exact hmem
  · exact fun hmem => ⟨grp, hg, rfl, hmem⟩

section Edit
variable {f : GroupRecord → GroupRecord} {grp : GroupRecord}

theorem names_edit (hf : ∀ grp, (f grp).name = grp.name) (name : GroupName) :
    (editGroup groups name f).map (·.name) = groups.map (·.name) :=
  KeyedList.map_edit fun g _ _ => hf g

/-- A record edited under its name keeps all blocks but its member nodes. -/
theorem mem_owned_edit (hf : ∀ grp, (f grp).name = grp.name) {name : GroupName} {b : Block}
    (hb : ∀ fd, b ≠ .member name fd) :
    b ∈ owned users (editGroup groups name f) pool ↔ b ∈ owned users groups pool := by
  have hnamed : ∀ n, (∃ g' ∈ editGroup groups name f, g'.name = n) ↔
      ∃ g ∈ groups, g.name = n := by
    intro n
    rw [← List.mem_map, ← List.mem_map, names_edit hf]
  cases b with
  | groupRecord n => exact hnamed n
  | members n => exact hnamed n
  | member n fd =>
    have hne : ∀ g : GroupRecord, g.name = n → g.name ≠ name :=
      fun g hn he => hb fd (by rw [← hn, he])
    constructor
    · rintro ⟨g', hg', hn, hfd⟩
      obtain ⟨g, hin, rfl⟩ := KeyedList.mem_edit.mp hg'
      by_cases hsame : g.name = name
      · rw [if_pos hsame, hf] at hn
        exact absurd hsame (hne g hn)
      · rw [if_neg hsame] at hn hfd
        exact ⟨g, hin, hn, hfd⟩
    · rintro ⟨g, hin, hn, hfd⟩
      exact ⟨g, KeyedList.mem_edit.mpr ⟨g, hin, (if_neg (hne g hn)).symm⟩, hn, hfd⟩
  | _ => exact Iff.rfl

theorem mem_owned_edit_member (hf : ∀ grp, (f grp).name = grp.name) (hg : grp ∈ groups)
    (hnames : (groups.map (·.name)).Nodup) {fd : Int} :
    .member grp.name fd ∈ owned users (editGroup groups grp.name f) pool ↔
      fd ∈ (f grp).members := by
  have hin : f grp ∈ editGroup groups grp.name f :=
    KeyedList.mem_edit.mpr ⟨grp, hg, (if_pos rfl).symm⟩
  have hmember : .member (f grp).name fd ∈ owned users (editGroup groups grp.name f) pool ↔
      fd ∈ (f grp).members := mem_owned_member hin (by rwa [names_edit hf])
  rwa [hf] at hmember

end Edit
end Owned

theorem GroupRecord.without_nodup {grp : GroupRecord} (h : grp.members.Nodup) (fd : Int) :
    (grp.without fd).members.Nodup := by
  unfold GroupRecord.without
  split
  · exact h.erase fd
  · exact h

section Members
variable (users : List UserRecord) {groups : List GroupRecord} (pool : List McastEntry)
  {grp : GroupRecord} {fd : Int}

theorem addMemberUses_eq (env : Env) (fd : Int) (grp : GroupRecord) :
    addMemberUses env fd grp =
      if fd ∈ grp.members then []
      else if grp.memberCount ≥ maxMembersPerGroup then []
      else if env.alloc .memberNode then [.acquire (.member grp.name fd)] else [] := by
  by_cases h : fd ∈ grp.members
  · rw [addMemberUses, if_pos (findMember_ne_length.mpr h), if_pos h]
  · rw [addMemberUses, if_neg (mt findMember_ne_length.mp h), if_neg h]

/-- A push that fails loses nothing: there is no node. -/
theorem enrol_leads (env : Env) (hg : grp ∈ groups) (hnames : (groups.map (·.name)).Nodup)
    (hfd : fd ∉ grp.members) :
    Leads (owned users groups pool)
      (if env.alloc .memberNode then [.acquire (.member grp.name fd)] else [])
      (owned users (editGroup groups grp.name (.enrol env fd)) pool) := by
  have hname : ∀ g : GroupRecord, (g.enrol env fd).name = g.name := fun _ => rfl
  cases halloc : env.alloc .memberNode with
  | true =>
    have hmembers : (grp.enrol env fd).members = grp.members ++ [fd] := by
      simp [GroupRecord.enrol, listPushTail, halloc]
    refine .acquire (mt (mem_owned_member hg hnames).mp hfd) fun b => ?_
    by_cases hb : ∀ fd', b ≠ .member grp.name fd'
    · rw [mem_owned_edit hname hb, or_iff_right (hb fd)]
    · obtain ⟨fd', rfl⟩ := not_forall_not.mp hb
      rw [mem_owned_edit_member hname hg hnames, mem_owned_member hg hnames, hmembers]
      simp [or_comm]
  | false =>
    have hmembers : (grp.enrol env fd).members = grp.members := by
      simp [GroupRecord.enrol, listPushTail, halloc]
    have hsame : owned users (editGroup groups grp.name (.enrol env fd)) pool =
        owned users groups pool := by
      ext b
      by_cases hb : ∀ fd', b ≠ .member grp.name fd'
      · exact mem_owned_edit hname hb
      · obtain ⟨fd', rfl⟩ := not_forall_not.mp hb
        rw [mem_owned_edit_member hname hg hnames, mem_owned_member hg hnames, hmembers]
    rw [hsame]
    exact .nil _

theorem without_leads (hg : grp ∈ groups) (hnames : (groups.map (·.name)).Nodup)
    (hnodup : grp.members.Nodup) (hfd : fd ∈ grp.members) :
    Leads (owned users groups pool) [.release (.member grp.name fd)]
      (owned users (editGroup groups grp.name (.without fd)) pool) := by
  have hname : ∀ g : GroupRecord, (g.without fd).name = g.name := fun g => g.without_name fd
  refine .release ((mem_owned_member hg hnames).mpr hfd) fun b => ?_
  by_cases hb : ∀ fd', b ≠ .member grp.name fd'
  · rw [mem_owned_edit hname hb, and_iff_left (hb fd)]
  · obtain ⟨fd', rfl⟩ := not_forall_not.mp hb
    rw [mem_owned_edit_member hname hg hnames, mem_owned_member hg hnames,
      GroupRecord.mem_without hnodup]
    simp

/-- A member list with `fd` in it takes what `add_member` does. -/
theorem addMember_leads (env : Env) (hg : grp ∈ groups) (hnames : (groups.map (·.name)).Nodup)
    (hfd : fd ∉ grp.members) (hroom : grp.memberCount < maxMembersPerGroup) :
    Leads (owned users groups pool) (addMemberUses env fd grp)
      (owned users (editGroup groups grp.name (.enrol env fd)) pool) := by
  rw [addMemberUses_eq, if_neg hfd, if_neg (not_le.mpr hroom)]
  exact enrol_leads users pool env hg hnames hfd

end Members

section Closing
variable (users : List UserRecord) {ctx : ServerContext} {groups : List GroupRecord}
  {pool : List McastEntry}

/-- What closing a group frees is what it had, and the entry for its address joins the pool
if it can be allocated. -/
theorem closeEmptyGroup_leads (h : HasGroups ctx groups pool) (env : Env) (closing : ℕ)
    {grp : GroupRecord} (hg : grp ∈ groups) (hnodup : grp.members.Nodup)
    (hfree : grp.addr ∉ pool) :
    Leads (owned users groups pool) (closeEmptyGroupUses env closing ctx grp.name)
      (owned users (groups.filter fun g => decide (g.name ≠ grp.name))
        (pool ++ handBack env closing [grp.addr])) := by
  obtain ⟨⟨pair, hpair, hval⟩, -⟩ := h.keyed.remove_some (h.find_eq_some.mpr ⟨hg, rfl⟩)
  have hnames := h.names
  have hentry : (⟨strncpy grp.mcastIp.toCStr, grp.mcastPort⟩ : McastEntry) = grp.addr := by
    rw [strncpy_self, GroupRecord.addr]
  have huses : closeEmptyGroupUses env closing ctx grp.name =
      (if env.alloc (.mcastEntry closing) then [.acquire (.mcastEntry grp.addr)] else []) ++
        (groupBlocks grp).map .release := by
    rw [closeEmptyGroupUses, hpair]
    dsimp only
    rw [hval, hentry, destroyGroupRecordUses_eq]
  have hentered : Leads (owned users groups pool)
      (if env.alloc (.mcastEntry closing) then [.acquire (.mcastEntry grp.addr)] else [])
      (owned users groups (pool ++ handBack env closing [grp.addr])) := by
    cases halloc : env.alloc (.mcastEntry closing) with
    | true =>
      refine .acquire hfree fun b => ?_
      cases b <;> simp [owned, Owns, handBack, halloc, or_comm]
    | false => simpa [handBack, halloc] using Leads.nil (owned users groups pool)
  rw [huses]
  refine hentered.append (.releaseAll (groupBlocks_nodup hnodup) (fun b hb => ?_) fun b => ?_)
  · rcases mem_groupBlocks.mp hb with rfl | rfl | ⟨fd, hfd, rfl⟩
    · exact ⟨grp, hg, rfl⟩
    · exact ⟨grp, hg, rfl⟩
    · exact ⟨grp, hg, rfl, hfd⟩
  · exact mem_owned_filter hg hnames b

/-- `fd` leaves every group it is in. -/
theorem leaveAll_leads (hnames : (groups.map (·.name)).Nodup)
    (hnodup : ∀ grp ∈ groups, grp.members.Nodup) (fd : Int) :
    Leads (owned users groups pool) (groups.flatMap (cleanupGroupActionUses fd))
      (owned users (groups.map (.without fd)) pool) := by
  have huses : groups.flatMap (cleanupGroupActionUses fd) =
      ((groups.filter fun grp => decide (fd ∈ grp.members)).map
        fun grp => Block.member grp.name fd).map .release := by
    have hone : ∀ grp : GroupRecord, cleanupGroupActionUses fd grp =
        if fd ∈ grp.members then [.release (.member grp.name fd)] else [] := by
      intro grp
      by_cases h : fd ∈ grp.members
      · rw [cleanupGroupActionUses, if_pos (findMember_ne_length.mpr h), if_pos h]
      · rw [cleanupGroupActionUses, if_neg (mt findMember_ne_length.mp h), if_neg h]
    induction groups with
    | nil => rfl
    | cons grp groups ih =>
      have hrest := ih (List.nodup_cons.mp hnames).2 fun g hg => hnodup g (List.mem_cons_of_mem _ hg)
      rw [List.flatMap_cons, hrest, hone]
      by_cases h : fd ∈ grp.members <;> simp [h]
  have hleaving : ((groups.filter fun grp => decide (fd ∈ grp.members)).map
      fun grp => Block.member grp.name fd).Nodup := by
    have hsome : ((groups.filter fun grp => decide (fd ∈ grp.members)).map (·.name)).Nodup :=
      (List.filter_sublist.map _).nodup hnames
    have hmapped := hsome.map (f := fun name => Block.member name fd)
      fun _ _ he => (Block.member.inj he).1
    rwa [List.map_map] at hmapped
  rw [huses]
  refine .releaseAll hleaving (fun b hb => ?_) fun b => ?_
  · obtain ⟨grp, hg, rfl⟩ := List.mem_map.mp hb
    obtain ⟨hin, hfd⟩ := List.mem_filter.mp hg
    exact ⟨grp, hin, rfl, of_decide_eq_true hfd⟩
  · cases b with
    | member name fd' =>
      simp only [owned, Set.mem_ofPred_eq, Owns, List.mem_map, List.mem_filter, decide_eq_true_eq,
        Block.member.injEq]
      constructor
      · rintro ⟨_, ⟨grp, hg, rfl⟩, rfl, hfd'⟩
        obtain ⟨hmem, hne⟩ := (GroupRecord.mem_without (hnodup grp hg)).mp hfd'
        refine ⟨⟨grp, hg, (grp.without_name fd).symm, hmem⟩, ?_⟩
        rintro ⟨_, _, _, rfl⟩
        exact hne rfl
      · rintro ⟨⟨grp, hg, rfl, hmem⟩, hstays⟩
        refine ⟨grp.without fd, ⟨grp, hg, rfl⟩, grp.without_name fd, ?_⟩
        refine (GroupRecord.mem_without (hnodup grp hg)).mpr ⟨hmem, ?_⟩
        rintro rfl
        exact hstays ⟨grp, ⟨hg, hmem⟩, rfl, rfl⟩
    | _ => simp [owned, Owns]

theorem Addressed.close {grp : GroupRecord} (h : Addressed groups pool)
    (hnames : (groups.map (·.name)).Nodup) (hg : grp ∈ groups) (env : Env) (closing : ℕ) :
    Addressed (groups.filter fun g => decide (g.name ≠ grp.name))
      (pool ++ handBack env closing [grp.addr]) := by
  have hsplit := ((KeyedList.perm_cons_filter GroupRecord.name hnames hg).map (·.addr)).append_right
    pool
  have hback := ((handBack_sublist env closing [grp.addr]).append_left
    ((groups.filter fun g => decide (g.name ≠ grp.name)).map (·.addr) ++ pool)).subperm
  rw [List.append_assoc] at hback
  exact ⟨(hback.trans ((List.perm_append_singleton _ _).trans hsplit.symm).subperm).trans h.within⟩

theorem Addressed.not_mem_pool {grp : GroupRecord} (h : Addressed groups pool) (hg : grp ∈ groups) :
    grp.addr ∉ pool := fun hfree =>
  (List.nodup_append.mp h.nodup).2.2 _ (List.mem_map_of_mem hg) _ hfree rfl

/-- The closing loop frees exactly the groups it closes. -/
theorem closeEmptyGroups_leads (h : HasGroups ctx groups pool) (env : Env) (closing : ℕ)
    (emptied : List GroupRecord) (hsub : ∀ grp ∈ emptied, grp ∈ groups)
    (hnd : (emptied.map (·.name)).Nodup) (hnodup : ∀ grp ∈ groups, grp.members.Nodup)
    (hok : Addressed groups pool) :
    Leads (owned users groups pool)
      (closeEmptyGroupsUses env closing ctx (emptied.map (·.name)))
      (owned users (groups.filter fun g => decide (g.name ∉ emptied.map (·.name)))
        (pool ++ handBack env closing (emptied.map (·.addr)))) := by
  induction emptied generalizing ctx groups pool closing with
  | nil =>
    have hall : (groups.filter fun g => decide (g.name ∉ ([] : List GroupRecord).map (·.name))) =
        groups := List.filter_eq_self.mpr fun g _ => by simp
    rw [hall]
    simpa [handBack, closeEmptyGroupsUses] using Leads.nil (owned users groups pool)
  | cons grp emptied ih =>
    rw [List.map_cons, List.nodup_cons] at hnd
    have hg := hsub grp List.mem_cons_self
    have hlen := hok.length_le
    have hpos := List.length_pos_of_mem hg
    obtain ⟨hclosed, -⟩ := h.closeEmptyGroup env closing hg (by omega)
    have hfirst := closeEmptyGroup_leads users h env closing hg (hnodup grp hg)
      (hok.not_mem_pool hg)
    have hkept : ∀ g ∈ emptied, g ∈ groups.filter fun g => decide (g.name ≠ grp.name) := by
      intro g hmem
      refine List.mem_filter.mpr ⟨hsub g (List.mem_cons_of_mem _ hmem), decide_eq_true ?_⟩
      exact fun he => hnd.1 (he ▸ List.mem_map_of_mem hmem)
    have hrest := ih hclosed (closing + 1) hkept hnd.2
      (fun g hin => hnodup g (List.mem_of_mem_filter hin)) (hok.close h.names hg env closing)
    have hfilter : (groups.filter fun g => decide (g.name ≠ grp.name)).filter
        (fun g => decide (g.name ∉ emptied.map (·.name))) =
        groups.filter fun g => decide (g.name ∉ (grp :: emptied).map (·.name)) := by
      rw [List.filter_filter]
      apply List.filter_congr
      intro g _
      simp only [List.map_cons, List.mem_cons, not_or, Bool.decide_and, Bool.and_comm]
    have haddrs : pool ++ handBack env closing [grp.addr] ++
        handBack env (closing + 1) (emptied.map (·.addr)) =
        pool ++ handBack env closing ((grp :: emptied).map (·.addr)) := by
      simp [handBack]
    rw [hfilter, haddrs] at hrest
    rw [List.map_cons, closeEmptyGroupsUses]
    exact hfirst.append hrest

/-- The end of a session: the member nodes of `fd`, then the groups that became empty. -/
theorem cleanupClient_leads (h : HasGroups ctx groups pool) (hok : Addressed groups pool)
    (hnodup : ∀ grp ∈ groups, grp.members.Nodup) (env : Env) (fd : Int) :
    Leads (owned users groups pool) (cleanupClientUses env ctx fd)
      (owned users ((groups.map (.without fd)).filter
          fun g => decide (g.name ∉ (emptiedBy fd groups).map (·.name)))
        (pool ++ handBack env 0 ((emptiedBy fd groups).map (·.addr)))) := by
  have hlen := hok.length_le
  obtain ⟨hleft, hemptied⟩ := leaveAllGroups_spec h fd (le_trans (Nat.le_add_right _ _) hlen)
  have hnames : ((emptiedBy fd groups).map (GroupRecord.without fd)).map (·.name) =
      (emptiedBy fd groups).map (·.name) := by
    rw [List.map_map]
    exact List.map_congr_left fun grp _ => grp.without_name fd
  have haddrs : ((emptiedBy fd groups).map (GroupRecord.without fd)).map (·.addr) =
      (emptiedBy fd groups).map (·.addr) := by
    rw [List.map_map]
    exact List.map_congr_left fun grp _ => grp.without_addr fd
  have hall : (groups.map (GroupRecord.without fd)).map (·.addr) = groups.map (·.addr) := by
    rw [List.map_map]
    exact List.map_congr_left fun grp _ => grp.without_addr fd
  have hsub : ∀ grp ∈ (emptiedBy fd groups).map (GroupRecord.without fd),
      grp ∈ groups.map (GroupRecord.without fd) := by
    intro grp hg
    obtain ⟨g, hg', rfl⟩ := List.mem_map.mp hg
    exact List.mem_map_of_mem (mem_emptiedBy.mp hg').1
  have hkept : ∀ grp ∈ groups.map (GroupRecord.without fd), grp.members.Nodup := by
    intro grp hg
    obtain ⟨g, hg', rfl⟩ := List.mem_map.mp hg
    exact GroupRecord.without_nodup (hnodup g hg') fd
  have hclosed := closeEmptyGroups_leads users hleft env 0 _ hsub
    (hnames ▸ (List.filter_sublist.map _).nodup h.names) hkept ⟨by rw [hall]; exact hok.within⟩
  rw [hnames, haddrs] at hclosed
  have hgroups : ctx.groups = groups := h.groups_eq
  rw [cleanupClientUses, hgroups, hemptied]
  exact (leaveAll_leads users h.names hnodup fd).append hclosed

end Closing

section Call
variable {ctx : ServerContext} {groups : List GroupRecord} {pool : List McastEntry}

/-- Of the user records only their names matter. -/
theorem owned_of_usernames {users users' : List UserRecord}
    (h : users'.map (·.username) = users.map (·.username)) :
    owned users' groups pool = owned users groups pool := by
  ext b
  cases b with
  | userRecord name =>
    change (∃ u ∈ users', u.username = name) ↔ ∃ u ∈ users, u.username = name
    rw [← List.mem_map, ← List.mem_map, h]
  | _ => exact Iff.rfl

theorem owned_of_pool {users : List UserRecord} {pool pool' : List McastEntry}
    (h : ∀ addr, addr ∈ pool' ↔ addr ∈ pool) : owned users groups pool' = owned users groups pool := by
  ext b
  cases b with
  | mcastEntry addr => exact h addr
  | _ => exact Iff.rfl

/-- The first free address taken. -/
theorem mem_owned_taken {users : List UserRecord} {addr : McastEntry} (h : addr ∉ pool) (b : Block) :
    b ∈ owned users groups pool ↔
      b ∈ owned users groups (addr :: pool) ∧ b ≠ .mcastEntry addr := by
  cases b with
  | mcastEntry a =>
    rw [Ne, Block.mcastEntry.injEq]
    change a ∈ pool ↔ a ∈ addr :: pool ∧ ¬ a = addr
    rw [List.mem_cons]
    constructor
    · intro ha
      refine ⟨.inr ha, ?_⟩
      rintro rfl
      exact h ha
    · rintro ⟨ha, hne⟩
      exact ha.resolve_left hne
  | _ => simp [owned, Owns]

theorem mem_owned_newUser {front back : List UserRecord} (u : UserRecord) (b : Block) :
    b ∈ owned (front ++ u :: back) groups pool ↔
      b = .userRecord u.username ∨ b ∈ owned (front ++ back) groups pool := by
  cases b with
  | userRecord name =>
    have hnames : name ∈ (front ++ u :: back).map (·.username) ↔
        name = u.username ∨ name ∈ (front ++ back).map (·.username) := by
      simp only [List.map_append, List.map_cons, List.mem_append, List.mem_cons]
      exact or_left_comm
    rw [Block.userRecord.injEq]
    change (∃ v ∈ front ++ u :: back, v.username = name) ↔
      name = u.username ∨ ∃ v ∈ front ++ back, v.username = name
    rw [← List.mem_map, ← List.mem_map, hnames]
  | _ => simp [owned, Owns]

theorem handleRegister_leads (hk : Keyed UserRecord.username ctx.userMap) (env : Env) (fd : Int)
    (msg : TLVMessage) :
    Leads (owned ctx.users groups pool) (handleRegisterUses env ctx msg)
      (owned (handleRegister env ctx fd msg).1.users groups pool) := by
  unfold handleRegisterUses handleRegister
  cases hparse : parseAuthValue msg with
  | none => exact .nil _
  | some auth =>
    obtain ⟨name, pass⟩ := auth
    dsimp only
    cases hfind : ctx.userMap.find name with
    | some u => exact .nil _
    | none =>
      have hnew : .userRecord name ∉ owned ctx.users groups pool := by
        rintro ⟨u, hu, hname⟩
        exact hk.find_eq_none.mp hfind u hu hname
      dsimp only
      rw [strncpy_self, strncpy_self]
      cases halloc : env.alloc .userRecord with
      | false => exact .nil _
      | true =>
        simp only [Bool.not_true, Bool.false_eq_true, if_false]
        obtain ⟨-, ⟨hs, -, front, back, hold, hrecs⟩ | ⟨hs, -, hrecs⟩⟩ :=
          hk.insert env.insertAlloc (v := UserRecord.fresh name pass) hfind
        · have hdone : (ctx.userMap.insert env.insertAlloc name
              ⟨name, pass, 0, -1⟩).1 = .success := hs
          have husers : ctx.users = front ++ back := hold
          rw [if_neg (not_not.mpr hdone), if_neg (not_not.mpr hdone)]
          refine .acquire hnew fun b => ?_
          have hmade : ({ ctx with userMap := (ctx.userMap.insert env.insertAlloc name
              ⟨name, pass, 0, -1⟩).2 } : ServerContext).users = front ++ .fresh name pass :: back :=
            hrecs
          rw [hmade, husers]
          exact mem_owned_newUser _ b
        · have hfailed : (ctx.userMap.insert env.insertAlloc name
              ⟨name, pass, 0, -1⟩).1 ≠ .success := hs
          have hsame : ({ ctx with userMap := (ctx.userMap.insert env.insertAlloc name
              ⟨name, pass, 0, -1⟩).2 } : ServerContext).users = ctx.users := hrecs
          rw [if_pos hfailed, if_pos hfailed, hsame]
          exact .within hnew (.nil _)

theorem mem_owned_newGroup {users : List UserRecord} {front back : List GroupRecord}
    (grp : GroupRecord) (b : Block) :
    b ∈ owned users (front ++ grp :: back) pool ↔
      b ∈ groupBlocks grp ∨ b ∈ owned users (front ++ back) pool := by
  rw [mem_owned_iff, @mem_owned_iff users (front ++ back)]
  have hor : (∃ g ∈ front ++ grp :: back, b ∈ groupBlocks g) ↔
      b ∈ groupBlocks grp ∨ ∃ g ∈ front ++ back, b ∈ groupBlocks g := by
    simp only [List.mem_append, List.mem_cons]
    constructor
    · rintro ⟨g, hfront | rfl | hback, hb⟩
      · exact .inr ⟨g, .inl hfront, hb⟩
      · exact .inl hb
      · exact .inr ⟨g, .inr hback, hb⟩
    · rintro (hb | ⟨g, hfront | hback, hb⟩)
      · exact ⟨grp, .inr (.inl rfl), hb⟩
      · exact ⟨g, .inl hfront, hb⟩
      · exact ⟨g, .inr (.inr hback), hb⟩
  rw [hor, or_left_comm]

/-- The part of `handle_create_group` that allocates, where it is reached. -/
theorem handleCreateGroupUses_eq {addr : McastEntry} {rest : List McastEntry}
    (h : HasGroups ctx groups (addr :: rest)) (env : Env) {fd : Int} {msg : TLVMessage}
    {name : GroupName} (hauth : notLoggedIn ctx fd = false)
    (hparse : parseGroupValue msg = some name) (hnew : ∀ grp ∈ groups, grp.name ≠ name) :
    handleCreateGroupUses env ctx fd msg =
      if env.alloc .groupRecord = false then []
      else if env.alloc .memberList = false then
        [.acquire (.groupRecord name), .release (.groupRecord name)]
      else
        [.acquire (.groupRecord name), .acquire (.members name)] ++
          if ctx.groupMap.insertAllocOk env.insertAlloc name = false then
            destroyGroupRecordUses (.opened name addr)
          else .release (.mcastEntry addr) :: addMemberUses env fd (.opened name addr) := by
  have hfind := h.find_eq_none.mpr hnew
  obtain ⟨_, hitem, -, -⟩ := h.queue.remove
  have hremove : ctx.mcastQueue.remove =
      (ctx.mcastQueue.remove.1, some addr, ctx.mcastQueue.remove.2.2) := by rw [← hitem]
  have hne : ¬ ctx.mcastQueue.isEmpty = true := by simp [h.queue.isEmpty_iff]
  have hstored : (ctx.groupMap.insert env.insertAlloc name (.opened name addr)).1 ≠ .success ↔
      ctx.groupMap.insertAllocOk env.insertAlloc name = false := by
    obtain ⟨-, ⟨hs, hstored, -⟩ | ⟨hs, hfail, -⟩⟩ :=
      h.keyed.insert env.insertAlloc (v := .opened name addr) hfind
    · exact iff_of_false (not_not.mpr hs) (by rw [Bool.not_eq_false]; exact hstored)
    · exact iff_of_true hs hfail
  rw [handleCreateGroupUses, if_neg (by rw [hauth]; decide), hparse]
  dsimp only
  rw [hfind]
  dsimp only
  rw [if_neg hne, hremove]
  simp only [strncpy_self, Bool.not_eq_true', ← hstored]
  rfl

/-- Creating a group: on the way the entry of its address is freed, and where an
allocation fails everything is undone. -/
theorem handleCreateGroup_leads (users : List UserRecord) (h : HasGroups ctx groups pool)
    (hok : Addressed groups pool) (hwf : ctx.userMap.Wf) (env : Env) (fd : Int) (msg : TLVMessage)
    {reply : Reply} {groups' : List GroupRecord} {pool' : List McastEntry}
    (hstep : GroupStep env (storesGroup env ctx) fd (authenticated ctx.users fd) groups pool
      (.createGroup (parseGroupValue msg)) reply groups' pool') :
    Leads (owned users groups pool) (handleCreateGroupUses env ctx fd msg)
      (owned users groups' pool') := by
  have hnot : notLoggedIn ctx fd = !authenticated ctx.users fd := notLoggedIn_eq hwf fd
  generalize hparse : parseGroupValue msg = name at hstep ⊢
  cases hstep with
  | denied _ hauth =>
    rw [handleCreateGroupUses, if_pos (by rw [hnot, hauth]; rfl)]
    exact .nil _
  | createBad hauth =>
    rw [handleCreateGroupUses, if_neg (by rw [hnot, hauth]; decide), hparse]
    exact .nil _
  | createTaken hauth hg =>
    rw [handleCreateGroupUses, if_neg (by rw [hnot, hauth]; decide), hparse]
    dsimp only
    rw [h.find_eq_some.mpr ⟨hg, rfl⟩]
    exact .nil _
  | createExhausted hauth hnew hpool =>
    subst hpool
    rw [handleCreateGroupUses, if_neg (by rw [hnot, hauth]; decide), hparse]
    dsimp only
    rw [h.find_eq_none.mpr hnew, if_pos (h.queue.isEmpty_iff.mpr rfl)]
    exact .nil _
  | createFailed hauth hnew hpool hstores =>
    subst hpool
    rename_i name addr rest
    have hrecord : .groupRecord name ∉ owned users groups (addr :: rest) := by
      rintro ⟨grp, hg, hname⟩
      exact hnew grp hg hname
    have hmembers : .members name ∉
        insert (.groupRecord name) (owned users groups (addr :: rest)) := by
      rintro (he | ⟨grp, hg, hname⟩)
      · cases he
      · exact hnew grp hg hname
    have hsame : owned users groups (rest ++ [addr]) = owned users groups (addr :: rest) :=
      owned_of_pool fun a => by simp [or_comm]
    rw [handleCreateGroupUses_eq h env (by rw [hnot, hauth]; rfl) hparse hnew, hsame]
    cases hrec : env.alloc .groupRecord with
    | false => exact .nil _
    | true =>
      rw [if_neg (by decide)]
      cases hlist : env.alloc .memberList with
      | false => exact .within hrecord (.nil _)
      | true =>
        have hfail : ctx.groupMap.insertAllocOk env.insertAlloc name = false := by
          simpa [storesGroup, hrec, hlist] using hstores
        rw [if_neg (by decide), if_pos hfail]
        exact .within hrecord (.within hmembers (.nil _))
  | created hauth hnew hpool hstores hsplit =>
    subst hpool hsplit
    rename_i name addr front back
    have hrecord : .groupRecord name ∉ owned users (front ++ back) (addr :: pool') := by
      rintro ⟨grp, hg, hname⟩
      exact hnew grp hg hname
    have hmembers : .members name ∉
        insert (.groupRecord name) (owned users (front ++ back) (addr :: pool')) := by
      rintro (he | ⟨grp, hg, hname⟩)
      · cases he
      · exact hnew grp hg hname
    have hallocs : env.alloc .groupRecord = true ∧ env.alloc .memberList = true ∧
        ctx.groupMap.insertAllocOk env.insertAlloc name = true := by
      simpa [storesGroup, and_assoc] using hstores
    rw [handleCreateGroupUses_eq h env (by rw [hnot, hauth]; rfl) hparse hnew, hallocs.1,
      hallocs.2.1, hallocs.2.2, if_neg (by decide), if_neg (by decide), if_neg (by decide)]
    have hopened : Leads (owned users (front ++ back) (addr :: pool'))
        [.acquire (.groupRecord name), .acquire (.members name)]
        (owned users (front ++ .opened name addr :: back) (addr :: pool')) := by
      have hfirst : Leads (owned users (front ++ back) (addr :: pool'))
          [.acquire (.groupRecord name)]
          (insert (.groupRecord name) (owned users (front ++ back) (addr :: pool'))) :=
        .acquire hrecord fun b => Iff.rfl
      refine hfirst.cons (.acquire hmembers fun b => ?_)
      rw [mem_owned_newGroup]
      simp [groupBlocks, GroupRecord.opened, or_assoc]
    have hentry : Leads (owned users (front ++ .opened name addr :: back) (addr :: pool'))
        [.release (.mcastEntry addr)]
        (owned users (front ++ .opened name addr :: back) pool') := by
      have hfree := (List.nodup_append.mp hok.nodup).2.1
      exact .release List.mem_cons_self (mem_owned_taken (List.nodup_cons.mp hfree).1)
    have hnames : ((front ++ .opened name addr :: back).map (·.name)).Nodup := by
      have hmiddle : ((front ++ GroupRecord.opened name addr :: back).map (·.name)).Perm
          (name :: (front ++ back).map (·.name)) := List.perm_middle.map _
      refine hmiddle.nodup_iff.mpr (List.nodup_cons.mpr ⟨fun hmem => ?_, h.names⟩)
      obtain ⟨grp, hg, hname⟩ := List.mem_map.mp hmem
      exact hnew grp hg hname
    have hjoined : Leads (owned users (front ++ .opened name addr :: back) pool')
        (addMemberUses env fd (.opened name addr))
        (owned users (front ++ (GroupRecord.opened name addr).enrol env fd :: back) pool') := by
      have hin : GroupRecord.opened name addr ∈ front ++ .opened name addr :: back :=
        List.mem_append_right _ List.mem_cons_self
      have hout : fd ∉ (GroupRecord.opened name addr).members := List.not_mem_nil
      have hadded := addMember_leads users pool' env hin hnames hout
        (by simp [GroupRecord.opened])
      have hedited : editGroup (front ++ .opened name addr :: back)
          (GroupRecord.opened name addr).name (.enrol env fd) =
            front ++ (GroupRecord.opened name addr).enrol env fd :: back :=
        KeyedList.edit_append_cons rfl (fun g hg => hnew g (List.mem_append_left _ hg))
          fun g hg => hnew g (List.mem_append_right _ hg)
      rwa [hedited] at hadded
    exact hopened.append (hentry.cons hjoined)
  | other hleaves => cases hleaves
  | ended hends => cases hends

theorem handleJoinGroup_leads (users : List UserRecord) (h : HasGroups ctx groups pool)
    (hwf : ctx.userMap.Wf) (env : Env) (fd : Int) (msg : TLVMessage)
    {reply : Reply} {groups' : List GroupRecord} {pool' : List McastEntry}
    (hstep : GroupStep env (storesGroup env ctx) fd (authenticated ctx.users fd) groups pool
      (.joinGroup (parseGroupValue msg)) reply groups' pool') :
    Leads (owned users groups pool) (handleJoinGroupUses env ctx fd msg)
      (owned users groups' pool') := by
  have hnot : notLoggedIn ctx fd = !authenticated ctx.users fd := notLoggedIn_eq hwf fd
  generalize hparse : parseGroupValue msg = name at hstep
  have hfound : ∀ {grp : GroupRecord}, authenticated ctx.users fd = true → grp ∈ groups →
      name = some grp.name → handleJoinGroupUses env ctx fd msg = addMemberUses env fd grp := by
    intro grp hauth hg hname
    rw [handleJoinGroupUses, if_neg (by rw [hnot, hauth]; decide), hparse, hname]
    dsimp only
    rw [h.find_eq_some.mpr ⟨hg, rfl⟩]
  cases hstep with
  | denied _ hauth =>
    rw [handleJoinGroupUses, if_pos (by rw [hnot, hauth]; rfl)]
    exact .nil _
  | joinBad hauth =>
    rw [handleJoinGroupUses, if_neg (by rw [hnot, hauth]; decide), hparse]
    exact .nil _
  | joinUnknown hauth hnew =>
    rw [handleJoinGroupUses, if_neg (by rw [hnot, hauth]; decide), hparse]
    dsimp only
    rw [h.find_eq_none.mpr hnew]
    exact .nil _
  | joinAgain hauth hg hfd =>
    rw [hfound hauth hg rfl, addMemberUses_eq, if_pos hfd]
    exact .nil _
  | joinFull hauth hg hfd hfull =>
    rw [hfound hauth hg rfl, addMemberUses_eq, if_neg hfd, if_pos hfull]
    exact .nil _
  | joined hauth hg hfd hroom =>
    rw [hfound hauth hg rfl]
    exact addMember_leads users pool env hg h.names hfd hroom
  | other hleaves => cases hleaves
  | ended hends => cases hends

theorem handleLeaveGroup_leads (users : List UserRecord) (h : HasGroups ctx groups pool)
    (hok : Addressed groups pool) (hnodup : ∀ grp ∈ groups, grp.members.Nodup) (env : Env)
    (fd : Int) (msg : TLVMessage) {stores : GroupName → Bool} {auth : Bool}
    {reply : Reply} {groups' : List GroupRecord} {pool' : List McastEntry}
    (hstep : GroupStep env stores fd auth groups pool (.leaveGroup (parseGroupValue msg)) reply
      groups' pool') :
    Leads (owned users groups pool) (handleLeaveGroupUses env ctx fd msg)
      (owned users groups' pool') := by
  generalize hparse : parseGroupValue msg = name at hstep
  have hfound : ∀ {grp : GroupRecord}, grp ∈ groups → fd ∈ grp.members → name = some grp.name →
      handleLeaveGroupUses env ctx fd msg =
        .release (.member grp.name fd) ::
          if grp.memberCount - 1 = 0 then
            closeEmptyGroupUses env 0 (removeMember ctx grp (findMember grp.members fd)) grp.name
          else [] := by
    intro grp hg hfd hname
    rw [handleLeaveGroupUses, hparse, hname]
    dsimp only
    rw [h.find_eq_some.mpr ⟨hg, rfl⟩]
    dsimp only
    rw [if_neg (findMember_ne_length.mpr hfd)]
  cases hstep with
  | denied hasks => cases hasks
  | leaveBad =>
    rw [handleLeaveGroupUses, hparse]
    exact .nil _
  | leaveUnknown hnew =>
    rw [handleLeaveGroupUses, hparse]
    dsimp only
    rw [h.find_eq_none.mpr hnew]
    exact .nil _
  | leaveOutside hg hfd =>
    rw [handleLeaveGroupUses, hparse]
    dsimp only
    rw [h.find_eq_some.mpr ⟨hg, rfl⟩]
    dsimp only
    rw [if_pos (not_not.mp (mt findMember_ne_length.mp hfd))]
    exact .nil _
  | left hg hfd hmore =>
    rw [hfound hg hfd rfl, if_neg (by omega)]
    exact without_leads users pool hg h.names (hnodup _ hg) hfd
  | leftLast hg hfd hone =>
    rename_i grp
    rw [hfound hg hfd rfl, if_pos (by omega)]
    have hleft := removeMember_spec h hg hfd
    have hin : grp.without fd ∈ editGroup groups grp.name (.without fd) :=
      KeyedList.mem_edit.mpr ⟨grp, hg, (if_pos rfl).symm⟩
    have hclosed := closeEmptyGroup_leads users hleft env 0 hin
      (GroupRecord.without_nodup (hnodup grp hg) fd)
      (by rw [GroupRecord.without_addr]; exact hok.not_mem_pool hg)
    rw [GroupRecord.without_name, GroupRecord.without_addr, editGroup,
      KeyedList.filter_edit fun g _ hname => (g.without_name fd).trans hname] at hclosed
    exact (without_leads users pool hg h.names (hnodup grp hg) hfd).cons hclosed
  | other hleaves => cases hleaves
  | ended hends => cases hends

end Call

end MeshChat.Server
