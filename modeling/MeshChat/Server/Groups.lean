import MeshChat.Server.Sessions

/-!
# The group table

What the handlers do to the group records and the pool of free multicast
addresses, and what `cleanup_client` does to them. `HasGroups` ties a context to
the list of its records, in iteration order, and the sequence of its free
addresses; `TableOk` is what holds of the two in every state.
-/
namespace MeshChat.Server

namespace GroupRecord

/-- The record `handle_create_group` stores. -/
def opened (name : GroupName) (addr : McastEntry) : GroupRecord :=
  { name, mcastIp := addr.ip, mcastPort := addr.port, members := [], memberCount := 0 }

/-- The record after `add_member` pushed `fd`, or failed to. -/
def enrol (env : Env) (fd : Int) (grp : GroupRecord) : GroupRecord :=
  { grp with
    members := (listPushTail (env.alloc .memberNode) grp.members fd).getD grp.members
    memberCount := grp.memberCount + 1 }

/-- The record without the first occurrence of `fd`. -/
def without (fd : Int) (grp : GroupRecord) : GroupRecord :=
  if fd ∈ grp.members then
    { grp with members := grp.members.erase fd, memberCount := grp.memberCount - 1 }
  else grp

/-- The count is the length of the list, which is duplicate-free, not empty and
within the limit. -/
structure Sound (grp : GroupRecord) : Prop where
  count : grp.memberCount = grp.members.length
  nodup : grp.members.Nodup
  pos : 0 < grp.members.length
  le : grp.members.length ≤ maxMembersPerGroup

@[simp] theorem without_name (fd : Int) (grp : GroupRecord) : (grp.without fd).name = grp.name := by
  unfold without
  split <;> rfl

@[simp] theorem without_addr (fd : Int) (grp : GroupRecord) : (grp.without fd).addr = grp.addr := by
  unfold without
  split <;> rfl

theorem without_of_notMem {fd : Int} {grp : GroupRecord} (h : fd ∉ grp.members) :
    grp.without fd = grp := if_neg h

theorem mem_without {fd fd' : Int} {grp : GroupRecord} (h : grp.members.Nodup) :
    fd' ∈ (grp.without fd).members ↔ fd' ∈ grp.members ∧ fd' ≠ fd := by
  unfold without
  split
  · rw [h.mem_erase_iff]
    exact and_comm
  · rename_i hfd
    exact ⟨fun hm => ⟨hm, fun he => hfd (he ▸ hm)⟩, And.left⟩

end GroupRecord

theorem findMember_ne_length {members : List Int} {fd : Int} :
    findMember members fd ≠ members.length ↔ fd ∈ members := by
  rw [findMember, listItrFind_eq, Ne, List.findIdx_eq_length]
  simp

theorem listItrRemove_findMember (members : List Int) (fd : Int) :
    listItrRemove members (findMember members fd) = members.erase fd := by
  rw [listItrRemove, findMember, listItrFind_eq]
  exact (List.erase_eq_eraseIdx_of_idxOf (a := fd) rfl).symm

/-- The addresses that closing these groups hands back to the pool: one is lost
where its queue entry cannot be allocated. -/
def handBack (env : Env) : ℕ → List McastEntry → List McastEntry
  | _, [] => []
  | closing, addr :: rest =>
      (if env.alloc (.mcastEntry closing) then [addr] else []) ++ handBack env (closing + 1) rest

theorem handBack_length_le (env : Env) (closing : ℕ) (addrs : List McastEntry) :
    (handBack env closing addrs).length ≤ addrs.length := by
  induction addrs generalizing closing with
  | nil => exact le_rfl
  | cons addr rest ih =>
    have := ih (closing + 1)
    simp only [handBack, List.length_append, List.length_cons]
    split <;> simp only [List.length_cons, List.length_nil] <;> omega

theorem handBack_sublist (env : Env) (closing : ℕ) (addrs : List McastEntry) :
    (handBack env closing addrs).Sublist addrs := by
  induction addrs generalizing closing with
  | nil => exact List.Sublist.refl _
  | cons addr rest ih =>
    rw [handBack]
    split
    · exact (ih (closing + 1)).cons_cons addr
    · exact (ih (closing + 1)).cons addr

/-- The results of the `QueueInsert` calls that the closing loop makes. -/
def closingInserts (env : Env) : ℕ → ServerContext → List GroupName → List QueueResult
  | _, _, [] => []
  | closing, ctx, name :: names =>
      let r := closeEmptyGroup env closing ctx name
      r.2.toList ++ closingInserts env (closing + 1) r.1 names

/-- The context's groups are `groups` and its free addresses `pool`. -/
structure HasGroups (ctx : ServerContext) (groups : List GroupRecord) (pool : List McastEntry) :
    Prop where
  keyed : Keyed GroupRecord.name ctx.groupMap
  groups_eq : records ctx.groupMap = groups
  queue : ctx.mcastQueue.Represents pool
  size : ctx.mcastQueue.size = multicastPoolSize

namespace HasGroups
variable {ctx : ServerContext} {groups : List GroupRecord} {pool : List McastEntry}

theorem names (h : HasGroups ctx groups pool) : (groups.map (·.name)).Nodup :=
  h.groups_eq ▸ h.keyed.nodup

theorem find_eq_some (h : HasGroups ctx groups pool) {name : GroupName} {grp : GroupRecord} :
    ctx.groupMap.find name = some grp ↔ grp ∈ groups ∧ grp.name = name := by
  rw [h.keyed.find_eq_some, h.groups_eq]

theorem find_eq_none (h : HasGroups ctx groups pool) {name : GroupName} :
    ctx.groupMap.find name = none ↔ ∀ grp ∈ groups, grp.name ≠ name := by
  rw [h.keyed.find_eq_none, h.groups_eq]

/-- Closing a group takes its record out and its address back. -/
theorem closeEmptyGroup (h : HasGroups ctx groups pool) (env : Env) (closing : ℕ)
    {grp : GroupRecord} (hg : grp ∈ groups) (hroom : pool.length < multicastPoolSize) :
    HasGroups (closeEmptyGroup env closing ctx grp.name).1
        (groups.filter fun g => decide (g.name ≠ grp.name))
        (pool ++ handBack env closing [grp.addr]) ∧
      (Server.closeEmptyGroup env closing ctx grp.name).2 =
        if env.alloc (.mcastEntry closing) then some .success else none := by
  obtain ⟨⟨pair, hpair, hval⟩, hk, hrecs⟩ := h.keyed.remove_some (h.find_eq_some.mpr ⟨hg, rfl⟩)
  rw [h.groups_eq] at hrecs
  have hremove : ctx.groupMap.remove grp.name = (some pair, (ctx.groupMap.remove grp.name).2) := by
    rw [← hpair]
  rw [Server.closeEmptyGroup, hremove]
  dsimp only
  rw [hval]
  cases halloc : env.alloc (.mcastEntry closing) with
  | false =>
    refine ⟨⟨hk, hrecs, ?_, h.size⟩, rfl⟩
    simpa [handBack, halloc] using h.queue
  | true =>
    obtain ⟨hs, hsize, hq⟩ := h.queue.insert (h.size ▸ hroom) grp.addr
    have hentry : (⟨strncpy grp.mcastIp.toCStr, grp.mcastPort⟩ : McastEntry) = grp.addr := by
      rw [strncpy_self, GroupRecord.addr]
    simp only [hentry, if_true]
    refine ⟨⟨hk, hrecs, ?_, hsize.trans h.size⟩, by rw [hs]⟩
    simpa [handBack, halloc] using hq

/-- The closing loop takes exactly the remembered groups out, and every
`QueueInsert` it makes succeeds. -/
theorem closeEmptyGroups (h : HasGroups ctx groups pool) (env : Env) (closing : ℕ)
    (emptied : List GroupRecord) (hsub : ∀ grp ∈ emptied, grp ∈ groups)
    (hnd : (emptied.map (·.name)).Nodup)
    (hroom : groups.length + pool.length ≤ multicastPoolSize) :
    HasGroups (closeEmptyGroups env closing ctx (emptied.map (·.name)))
        (groups.filter fun g => decide (g.name ∉ emptied.map (·.name)))
        (pool ++ handBack env closing (emptied.map (·.addr))) ∧
      ∀ result ∈ closingInserts env closing ctx (emptied.map (·.name)), result = .success := by
  induction emptied generalizing ctx groups pool closing with
  | nil => simpa [handBack, Server.closeEmptyGroups, closingInserts] using h
  | cons grp emptied ih =>
    rw [List.map_cons, List.nodup_cons] at hnd
    have hg := hsub grp List.mem_cons_self
    have hlt : (groups.filter fun g => decide (g.name ≠ grp.name)).length < groups.length :=
      List.length_filter_lt_length_iff_exists.mpr ⟨grp, hg, by simp⟩
    have hback := handBack_length_le env closing [grp.addr]
    obtain ⟨hfirst, hresult⟩ := h.closeEmptyGroup env closing hg (by omega)
    have hkept : ∀ g ∈ emptied, g ∈ groups.filter fun g => decide (g.name ≠ grp.name) := by
      intro g hmem
      refine List.mem_filter.mpr ⟨hsub g (List.mem_cons_of_mem _ hmem), decide_eq_true ?_⟩
      exact fun he => hnd.1 (he ▸ List.mem_map_of_mem hmem)
    obtain ⟨hrest, hresults⟩ := ih hfirst (closing + 1) hkept hnd.2 (by
      rw [List.length_append]
      simp only [List.length_singleton] at hback
      omega)
    have hfilter : (groups.filter fun g => decide (g.name ≠ grp.name)).filter
        (fun g => decide (g.name ∉ emptied.map (·.name))) =
        groups.filter fun g => decide (g.name ∉ (grp :: emptied).map (·.name)) := by
      rw [List.filter_filter]
      apply List.filter_congr
      intro g _
      simp only [List.map_cons, List.mem_cons, not_or, Bool.decide_and, Bool.and_comm]
    have haddrs : pool ++ handBack env closing [grp.addr] ++
        handBack env (closing + 1) (emptied.map (·.addr)) =
        pool ++ handBack env closing ((grp :: emptied).map (·.addr)) := by
      simp [handBack]
    rw [hfilter, haddrs] at hrest
    refine ⟨hrest, fun result hmem => ?_⟩
    rw [List.map_cons, closingInserts] at hmem
    rcases List.mem_append.mp hmem with hmem | hmem
    · rw [hresult] at hmem
      split at hmem <;> simp_all
    · exact hresults result hmem

theorem deactivateUser (h : HasGroups ctx groups pool) (fd : Int) :
    HasGroups (deactivateUser ctx fd) groups pool := by
  unfold Server.deactivateUser
  split
  · exact h
  · exact ⟨h.keyed, h.groups_eq, h.queue, h.size⟩

end HasGroups

/-- The groups that lose their only member with `fd`. -/
def emptiedBy (fd : Int) (groups : List GroupRecord) : List GroupRecord :=
  groups.filter fun grp => decide (fd ∈ grp.members ∧ grp.memberCount = 1)

theorem cleanupGroupAction_eq (key : GroupName) (grp : GroupRecord) (fd : Int)
    (names : List GroupName) (hroom : names.length < maxGroups) :
    cleanupGroupAction key grp ⟨fd, names⟩ =
      (grp.without fd,
        ⟨fd, if fd ∈ grp.members ∧ grp.memberCount = 1 then names ++ [grp.name] else names⟩,
        true) := by
  by_cases hfd : fd ∈ grp.members
  · by_cases hone : grp.memberCount = 1
    · simp [cleanupGroupAction, findMember_ne_length.mpr hfd, GroupRecord.without, hfd, hone,
        hroom, listItrRemove_findMember]
    · have hne : grp.memberCount - 1 ≠ 0 := by omega
      simp [cleanupGroupAction, findMember_ne_length.mpr hfd, GroupRecord.without, hfd, hone,
        hne, listItrRemove_findMember]
  · have heq : findMember grp.members fd = grp.members.length := by
      by_contra hne
      exact hfd (findMember_ne_length.mp hne)
    simp [cleanupGroupAction, heq, GroupRecord.without, hfd]

/-- The whole iteration of `cleanup_group_action`, while the side array has room. -/
theorem cleanup_forEach (fd : Int) (pairs : List (KeyValuePair GroupName GroupRecord))
    (names : List GroupName) (count : ℕ) (stopped : Bool)
    (hroom : names.length + pairs.length ≤ maxGroups) :
    let r := listItrForEach (HashMap.forEachAction cleanupGroupAction) pairs
      ⟨⟨fd, names⟩, count, stopped⟩
    r.1 = pairs.map (fun pair => { pair with value := pair.value.without fd }) ∧
      r.2.1.userContext.emptyNames =
        names ++ (emptiedBy fd (pairs.map (·.value))).map (·.name) := by
  induction pairs generalizing names count stopped with
  | nil => simp [listItrForEach, emptiedBy]
  | cons pair pairs ih =>
    rw [List.length_cons] at hroom
    have hact := cleanupGroupAction_eq pair.key pair.value fd names (by omega)
    by_cases hempty : fd ∈ pair.value.members ∧ pair.value.memberCount = 1
    · rw [if_pos hempty] at hact
      have hrest := ih (names ++ [pair.value.name]) (count + 1) (stopped || !true)
        (by rw [List.length_append, List.length_singleton]; omega)
      simp only [listItrForEach, HashMap.forEachAction, hact, if_true, List.map_cons] at hrest ⊢
      refine ⟨by rw [hrest.1], ?_⟩
      rw [hrest.2]
      simp [emptiedBy, hempty]
    · rw [if_neg hempty] at hact
      have hrest := ih names (count + 1) (stopped || !true) (by omega)
      simp only [listItrForEach, HashMap.forEachAction, hact, if_true, List.map_cons] at hrest ⊢
      refine ⟨by rw [hrest.1], ?_⟩
      rw [hrest.2, emptiedBy, emptiedBy, List.filter_cons_of_neg (by simpa using hempty)]

/-- The groups after `fd` left everywhere and the emptied groups were closed. -/
def evict (fd : Int) (groups : List GroupRecord) : List GroupRecord :=
  (groups.map (.without fd)).filter fun grp => decide (grp.members ≠ [])

theorem mem_emptiedBy {fd : Int} {groups : List GroupRecord} {grp : GroupRecord} :
    grp ∈ emptiedBy fd groups ↔ grp ∈ groups ∧ fd ∈ grp.members ∧ grp.memberCount = 1 := by
  rw [emptiedBy, List.mem_filter, decide_eq_true_eq]

/-- On sound records, becoming empty is being remembered. -/
theorem without_members_eq_nil {fd : Int} {grp : GroupRecord} (h : grp.Sound) :
    (grp.without fd).members = [] ↔ fd ∈ grp.members ∧ grp.memberCount = 1 := by
  have hcount := h.count
  have hpos := h.pos
  unfold GroupRecord.without
  split
  · rename_i hfd
    simp only [hfd, true_and, ← List.length_eq_zero_iff, List.length_erase_of_mem hfd]
    omega
  · rename_i hfd
    simp only [hfd, false_and, iff_false]
    exact List.ne_nil_of_length_pos hpos

theorem filter_emptied_names {fd : Int} {groups : List GroupRecord}
    (hnd : (groups.map (·.name)).Nodup) (hsound : ∀ grp ∈ groups, grp.Sound) :
    (groups.map (.without fd)).filter
        (fun g => decide (g.name ∉ (emptiedBy fd groups).map (·.name))) = evict fd groups := by
  rw [evict, List.filter_map, List.filter_map]
  congr 1
  apply List.filter_congr
  intro grp hg
  rw [Function.comp_apply, Function.comp_apply, GroupRecord.without_name, decide_eq_decide]
  refine not_congr ⟨fun hmem => ?_, fun hnil => ?_⟩
  · obtain ⟨g, hg', hname⟩ := List.mem_map.mp hmem
    obtain rfl := List.inj_on_of_nodup_map hnd (mem_emptiedBy.mp hg').1 hg hname
    exact (without_members_eq_nil (hsound g hg)).mpr (mem_emptiedBy.mp hg').2
  · have hlast := (without_members_eq_nil (hsound grp hg)).mp hnil
    exact List.mem_map_of_mem (mem_emptiedBy.mpr ⟨hg, hlast⟩)

/-- What holds of the addresses whatever allocations failed: each is a preloaded
one, and none is used twice. -/
structure Addressed (groups : List GroupRecord) (pool : List McastEntry) : Prop where
  within : (groups.map (·.addr) ++ pool).Subperm poolEntries

namespace Addressed
variable {groups : List GroupRecord} {pool : List McastEntry}

theorem length_le (h : Addressed groups pool) :
    groups.length + pool.length ≤ multicastPoolSize := by
  have hlen := h.within.length_le
  rw [List.length_append, List.length_map] at hlen
  exact hlen

theorem nodup (h : Addressed groups pool) : (groups.map (·.addr) ++ pool).Nodup := by
  obtain ⟨addrs, hperm, hsub⟩ := h.within
  exact hperm.nodup_iff.mp (hsub.nodup poolEntries_nodup)

theorem mem_poolEntries (h : Addressed groups pool) {grp : GroupRecord} (hg : grp ∈ groups) :
    grp.addr ∈ poolEntries :=
  h.within.subset (List.mem_append_left _ (List.mem_map_of_mem hg))

theorem ip_pos (h : Addressed groups pool) {grp : GroupRecord} (hg : grp ∈ groups) :
    0 < strlen grp.mcastIp.toCStr :=
  poolEntries_ip_pos grp.addr (h.mem_poolEntries hg)

theorem pool_ip_pos (h : Addressed groups pool) {addr : McastEntry} (ha : addr ∈ pool) :
    0 < strlen addr.ip.toCStr :=
  poolEntries_ip_pos addr (h.within.subset (List.mem_append_right _ ha))

end Addressed

/-- The state of the group table in every state the server gets to: sound
records, and every preloaded address either free or used by one group. -/
structure TableOk (groups : List GroupRecord) (pool : List McastEntry) : Prop where
  names : (groups.map (·.name)).Nodup
  sound : ∀ grp ∈ groups, grp.Sound
  conserved : (groups.map (·.addr) ++ pool).Perm poolEntries

namespace TableOk
variable {groups : List GroupRecord} {pool : List McastEntry}

theorem length_eq (h : TableOk groups pool) :
    groups.length + pool.length = multicastPoolSize := by
  have hlen := h.conserved.length_eq
  rw [List.length_append, List.length_map] at hlen
  exact hlen

theorem addressed (h : TableOk groups pool) : Addressed groups pool := ⟨h.conserved.subperm⟩

theorem nodup_addrs (h : TableOk groups pool) : (groups.map (·.addr) ++ pool).Nodup :=
  h.addressed.nodup

end TableOk

section Cleanup
variable {ctx : ServerContext} {groups : List GroupRecord} {pool : List McastEntry}

theorem leaveAllGroups_spec (h : HasGroups ctx groups pool) (fd : Int)
    (hroom : groups.length ≤ maxGroups) :
    HasGroups (leaveAllGroups ctx fd).1 (groups.map (.without fd)) pool ∧
      (leaveAllGroups ctx fd).2 = (emptiedBy fd groups).map (·.name) := by
  obtain ⟨hwf, hentries, hctx⟩ :=
    HashMap.forEach_spec cleanupGroupAction h.keyed.wf (⟨fd, []⟩ : CleanupCtx)
  have hlen : ctx.groupMap.entries.length = groups.length := by
    rw [← h.groups_eq, records, List.length_map]
  obtain ⟨hpairs, hnames⟩ := cleanup_forEach fd ctx.groupMap.entries [] 0 false
    (by rw [List.length_nil, hlen]; omega)
  rw [hpairs] at hentries
  refine ⟨⟨⟨hwf, fun pair hp => ?_⟩, ?_, h.queue, h.size⟩, ?_⟩
  · rw [leaveAllGroups, hentries] at hp
    obtain ⟨q, hq, rfl⟩ := List.mem_map.mp hp
    rw [GroupRecord.without_name]
    exact h.keyed.own_key q hq
  · rw [leaveAllGroups, records, hentries, List.map_map, ← h.groups_eq, records, List.map_map]
    rfl
  · rw [leaveAllGroups, hctx, hnames, ← h.groups_eq, records, List.nil_append]

/-- The end of a session, on the group table: the groups whose count became zero
are closed. -/
theorem cleanupClient_closed (h : HasGroups ctx groups pool)
    (hroom : groups.length + pool.length ≤ multicastPoolSize) (env : Env) (fd : Int) :
    HasGroups (cleanupClient env ctx fd)
        ((groups.map (.without fd)).filter
          fun g => decide (g.name ∉ (emptiedBy fd groups).map (·.name)))
        (pool ++ handBack env 0 ((emptiedBy fd groups).map (·.addr))) ∧
      ∀ result ∈ closingInserts env 0 (leaveAllGroups ctx fd).1 (leaveAllGroups ctx fd).2,
        result = .success := by
  obtain ⟨hleft, hnames⟩ := leaveAllGroups_spec h fd (le_trans (Nat.le_add_right _ _) hroom)
  have hemptied : ((emptiedBy fd groups).map (GroupRecord.without fd)).map (·.name) =
      (emptiedBy fd groups).map (·.name) := by
    rw [List.map_map]
    exact List.map_congr_left fun grp _ => grp.without_name fd
  have haddrs : ((emptiedBy fd groups).map (GroupRecord.without fd)).map (·.addr) =
      (emptiedBy fd groups).map (·.addr) := by
    rw [List.map_map]
    exact List.map_congr_left fun grp _ => grp.without_addr fd
  have hsub : ∀ grp ∈ (emptiedBy fd groups).map (GroupRecord.without fd),
      grp ∈ groups.map (GroupRecord.without fd) := by
    intro grp hg
    obtain ⟨g, hg', rfl⟩ := List.mem_map.mp hg
    exact List.mem_map_of_mem (mem_emptiedBy.mp hg').1
  obtain ⟨hclosed, hresults⟩ := hleft.closeEmptyGroups env 0 _ hsub
    (hemptied ▸ (List.filter_sublist.map _).nodup h.names) (by rwa [List.length_map])
  rw [hemptied] at hresults
  rw [hemptied, haddrs] at hclosed
  rw [cleanupClient, hnames]
  exact ⟨hclosed.deactivateUser fd, hresults⟩

/-- On sound records these are the groups without members. -/
theorem cleanupClient_groups (h : HasGroups ctx groups pool) (hok : TableOk groups pool)
    (env : Env) (fd : Int) :
    HasGroups (cleanupClient env ctx fd) (evict fd groups)
        (pool ++ handBack env 0 ((emptiedBy fd groups).map (·.addr))) ∧
      ∀ result ∈ closingInserts env 0 (leaveAllGroups ctx fd).1 (leaveAllGroups ctx fd).2,
        result = .success := by
  have hclosed := cleanupClient_closed h hok.length_eq.le env fd
  rwa [filter_emptied_names hok.names hok.sound] at hclosed

end Cleanup

end MeshChat.Server
