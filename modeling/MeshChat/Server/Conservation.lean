import MeshChat.Server.Calls

/-!
# Nothing of the group table is lost

Every request that meets `NoLoss` keeps the group records sound and every
address either free or in use by one group. `NoLoss` only speaks of the two
allocations whose failure the handlers ignore: the member node that
`add_member` pushes and the queue entries that closing groups hands back.
-/
namespace MeshChat.Server
open Runs

namespace GroupRecord
variable {grp : GroupRecord} {env : Env} {fd : Int}

theorem enrol_members (h : env.alloc .memberNode = true) :
    (grp.enrol env fd).members = grp.members ++ [fd] := by
  simp [enrol, h, listPushTail]

theorem Sound.enrol (h : grp.Sound) (hfd : fd ∉ grp.members)
    (hroom : grp.memberCount < maxMembersPerGroup) (hnode : env.alloc .memberNode = true) :
    (grp.enrol env fd).Sound := by
  have hmem : (grp.enrol env fd).members = grp.members ++ [fd] := enrol_members hnode
  have hcount : (grp.enrol env fd).memberCount = grp.memberCount + 1 := rfl
  have hold := h.count
  constructor
  · rw [hmem, hcount, hold, List.length_append]
    rfl
  · rw [hmem, List.nodup_append]
    refine ⟨h.nodup, List.nodup_singleton fd, fun a ha b hb => ?_⟩
    rw [List.mem_singleton.mp hb]
    exact fun he => hfd (he ▸ ha)
  · rw [hmem, List.length_append, List.length_singleton]
    omega
  · rw [hmem, List.length_append, List.length_singleton]
    omega

theorem opened_sound (name : GroupName) (addr : McastEntry) (hnode : env.alloc .memberNode = true) :
    ((opened name addr).enrol env fd).Sound := by
  have hmem : ((opened name addr).enrol env fd).members = [fd] := enrol_members hnode
  constructor <;> rw [hmem] <;> simp [opened, GroupRecord.enrol]

theorem Sound.without (h : grp.Sound) (hne : (grp.without fd).members ≠ []) :
    (grp.without fd).Sound := by
  by_cases hfd : fd ∈ grp.members
  · have hlen := List.length_erase_of_mem hfd
    have hold := h.count
    have hle := h.le
    have hpos := List.length_pos_of_mem hfd
    rw [GroupRecord.without, if_pos hfd] at hne ⊢
    constructor
    · change grp.memberCount - 1 = ((grp.members.erase fd).length : Int)
      omega
    · exact h.nodup.erase fd
    · exact List.length_pos_iff.mpr hne
    · change (grp.members.erase fd).length ≤ _
      omega
  · rwa [without_of_notMem hfd]

end GroupRecord

theorem handBack_of_ok {env : Env} {closing : ℕ} {addrs : List McastEntry}
    (h : ∀ k < addrs.length, env.alloc (.mcastEntry (closing + k)) = true) :
    handBack env closing addrs = addrs := by
  induction addrs generalizing closing with
  | nil => rfl
  | cons addr rest ih =>
    have hfirst : env.alloc (.mcastEntry closing) = true := h 0 (Nat.zero_lt_succ _)
    have hrest : handBack env (closing + 1) rest = rest := ih fun k hk => by
      rw [Nat.add_assoc, Nat.add_comm 1]
      exact h (k + 1) (Nat.succ_lt_succ hk)
    rw [handBack, if_pos hfirst, hrest]
    rfl

/-- A failed queue entry loses an address. -/
theorem handBack_length_lt {env : Env} {closing k : ℕ} {addrs : List McastEntry}
    (hk : k < addrs.length) (h : env.alloc (.mcastEntry (closing + k)) = false) :
    (handBack env closing addrs).length < addrs.length := by
  induction addrs generalizing closing k with
  | nil => cases hk
  | cons addr rest ih =>
    rw [handBack, List.length_append, List.length_cons]
    cases k with
    | zero =>
      rw [Nat.add_zero] at h
      have hle := handBack_length_le env (closing + 1) rest
      simp only [h, Bool.false_eq_true, if_false, List.length_nil]
      omega
    | succ k =>
      have hlt : (handBack env (closing + 1) rest).length < rest.length :=
        ih (Nat.lt_of_succ_lt_succ hk) (by rwa [Nat.add_assoc, Nat.add_comm 1])
      split <;> simp only [List.length_cons, List.length_nil] <;> omega

/-- The groups that `cleanup_client` keeps and those it closes are all there were. -/
theorem kept_addrs_perm (fd : Int) {groups : List GroupRecord}
    (hnames : (groups.map (·.name)).Nodup) :
    (((groups.map (GroupRecord.without fd)).filter
        fun g => decide (g.name ∉ (emptiedBy fd groups).map (·.name))).map (·.addr) ++
      (emptiedBy fd groups).map (·.addr)).Perm (groups.map (·.addr)) := by
  have hkept : (groups.map (GroupRecord.without fd)).filter
        (fun g => decide (g.name ∉ (emptiedBy fd groups).map (·.name))) =
      (groups.filter fun g => !decide (fd ∈ g.members ∧ g.memberCount = 1)).map
        (GroupRecord.without fd) := by
    rw [List.filter_map]
    congr 1
    apply List.filter_congr
    intro grp hg
    rw [Function.comp_apply, GroupRecord.without_name, ← decide_not, decide_eq_decide]
    refine not_congr ⟨fun hmem => ?_, fun hlast => ?_⟩
    · obtain ⟨g, hg', hname⟩ := List.mem_map.mp hmem
      obtain rfl := List.inj_on_of_nodup_map hnames (mem_emptiedBy.mp hg').1 hg hname
      exact (mem_emptiedBy.mp hg').2
    · exact List.mem_map_of_mem (mem_emptiedBy.mpr ⟨hg, hlast⟩)
  have haddrs : ((groups.filter fun g => !decide (fd ∈ g.members ∧ g.memberCount = 1)).map
      (GroupRecord.without fd)).map (·.addr) =
        (groups.filter fun g => !decide (fd ∈ g.members ∧ g.memberCount = 1)).map (·.addr) := by
    rw [List.map_map]
    exact List.map_congr_left fun grp _ => grp.without_addr fd
  rw [hkept, haddrs, emptiedBy, ← List.map_append]
  exact (List.perm_append_comm.trans (List.filter_append_perm _ groups)).map _

/-- The groups that stay and the groups that are closed share out the addresses. -/
theorem evict_addrs_perm (fd : Int) {groups : List GroupRecord}
    (hnames : (groups.map (·.name)).Nodup) (hsound : ∀ grp ∈ groups, grp.Sound) :
    ((evict fd groups).map (·.addr) ++ (emptiedBy fd groups).map (·.addr)).Perm
      (groups.map (·.addr)) := by
  rw [← filter_emptied_names hnames hsound]
  exact kept_addrs_perm fd hnames

/-- How many groups a request closes. -/
def closings (fd : Int) (groups : List GroupRecord) : Request → ℕ
  | .leaveGroup (some name) =>
      ((emptiedBy fd groups).filter fun grp => decide (grp.name = name)).length
  | .logout | .exit => (emptiedBy fd groups).length
  | _ => 0

/-- The request gets as far as the push of `add_member`. -/
def pushes (stores : GroupName → Bool) (fd : Int) (auth : Bool) (groups : List GroupRecord)
    (pool : List McastEntry) : Request → Prop
  | .createGroup (some name) =>
      auth = true ∧ (∀ grp ∈ groups, grp.name ≠ name) ∧ pool ≠ [] ∧ stores name = true
  | .joinGroup (some name) =>
      auth = true ∧ ∃ grp ∈ groups, grp.name = name ∧ fd ∉ grp.members ∧
        grp.memberCount < maxMembersPerGroup
  | _ => False

/-- The allocations whose failure the handlers ignore do not fail. -/
structure NoLoss (env : Env) (stores : GroupName → Bool) (fd : Int) (auth : Bool)
    (groups : List GroupRecord) (pool : List McastEntry) (req : Request) : Prop where
  push : pushes stores fd auth groups pool req → env.alloc .memberNode = true
  entries : ∀ k < closings fd groups req, env.alloc (.mcastEntry k) = true

section Step
variable {env : Env} {stores : GroupName → Bool} {fd : Int} {auth : Bool}
  {groups groups' : List GroupRecord} {pool pool' : List McastEntry} {req : Request} {reply : Reply}

theorem TableOk.evict (hok : TableOk groups pool) (fd : Int) :
    TableOk (evict fd groups) (pool ++ (emptiedBy fd groups).map (·.addr)) := by
  constructor
  · have hnames : (groups.map (GroupRecord.without fd)).map (·.name) = groups.map (·.name) := by
      rw [List.map_map]
      exact List.map_congr_left fun grp _ => grp.without_name fd
    exact (List.filter_sublist.map _).nodup (hnames ▸ hok.names)
  · intro grp hg
    obtain ⟨hmem, hne⟩ := List.mem_filter.mp hg
    obtain ⟨g, hg', rfl⟩ := List.mem_map.mp hmem
    exact (hok.sound g hg').without (of_decide_eq_true hne)
  · have hshare := (evict_addrs_perm fd hok.names hok.sound).append_right pool
    rw [List.append_assoc] at hshare
    exact ((List.perm_append_comm.append_left _).trans hshare).trans hok.conserved

/-- An edit of one record that keeps name, address and soundness. -/
theorem TableOk.edit (hok : TableOk groups pool) {name : GroupName} {f : GroupRecord → GroupRecord}
    (hname : ∀ grp, (f grp).name = grp.name) (haddr : ∀ grp, (f grp).addr = grp.addr)
    (hsound : ∀ grp ∈ groups, grp.name = name → (f grp).Sound) :
    TableOk (editGroup groups name f) pool := by
  constructor
  · rw [editGroup, KeyedList.map_edit fun grp _ _ => hname grp]
    exact hok.names
  · intro grp hg
    obtain ⟨g, hg', rfl⟩ := KeyedList.mem_edit.mp hg
    split
    · exact hsound g hg' ‹_›
    · exact hok.sound g hg'
  · rw [editGroup, KeyedList.map_edit fun grp _ _ => haddr grp]
    exact hok.conserved

theorem TableOk.insert {front back : List GroupRecord} (grp : GroupRecord)
    (hok : TableOk (front ++ back) (grp.addr :: pool)) (hsound : grp.Sound)
    (hnew : ∀ g ∈ front ++ back, g.name ≠ grp.name) : TableOk (front ++ grp :: back) pool := by
  constructor
  · rw [(List.perm_middle.map _).nodup_iff, List.map_cons, List.nodup_cons]
    refine ⟨fun hmem => ?_, hok.names⟩
    obtain ⟨g, hg, hname⟩ := List.mem_map.mp hmem
    exact hnew g hg hname
  · intro g hg
    rcases List.mem_cons.mp (List.perm_middle.mem_iff.mp hg) with rfl | hg
    · exact hsound
    · exact hok.sound g hg
  · have hmiddle : ((front ++ grp :: back).map (·.addr) ++ pool).Perm
        ((grp :: (front ++ back)).map (·.addr) ++ pool) :=
      (List.perm_middle.map _).append_right pool
    exact (hmiddle.trans List.perm_middle.symm).trans hok.conserved

theorem TableOk.close (hok : TableOk groups pool) {grp : GroupRecord} (hg : grp ∈ groups) :
    TableOk (groups.filter fun g => decide (g.name ≠ grp.name)) (pool ++ [grp.addr]) := by
  constructor
  · exact (List.filter_sublist.map _).nodup hok.names
  · exact fun g hg' => hok.sound g (List.mem_of_mem_filter hg')
  · have hsplit := ((KeyedList.perm_cons_filter GroupRecord.name hok.names hg).map
      (·.addr)).append_right pool
    refine List.Perm.trans ?_ hok.conserved
    refine List.Perm.trans ?_ hsplit.symm
    rw [← List.append_assoc]
    exact List.perm_append_singleton _ _

/-- What one request keeps: sound records and conserved addresses. -/
theorem GroupStep.tableOk
    (h : GroupStep env stores fd auth groups pool req reply groups' pool')
    (hok : TableOk groups pool) (hloss : NoLoss env stores fd auth groups pool req) :
    TableOk groups' pool' := by
  cases h with
  | createFailed _ _ hpool _ =>
    refine ⟨hok.names, hok.sound, List.Perm.trans ?_ hok.conserved⟩
    rw [hpool]
    exact (List.perm_append_singleton _ _).append_left _
  | created hauth hnew hpool hstores hsplit =>
    have hnode := hloss.push ⟨hauth, hnew, by rw [hpool]; simp, hstores⟩
    subst hpool hsplit
    exact hok.insert ((GroupRecord.opened _ _).enrol env fd)
      (GroupRecord.opened_sound _ _ hnode) hnew
  | joined hauth hg hfd hroom =>
    have hnode := hloss.push ⟨hauth, _, hg, rfl, hfd, hroom⟩
    refine hok.edit (fun _ => rfl) (fun _ => rfl) fun g hg' hname => ?_
    obtain rfl := List.inj_on_of_nodup_map hok.names hg' hg hname
    exact (hok.sound g hg').enrol hfd hroom hnode
  | left hg hfd hne =>
    refine hok.edit (GroupRecord.without_name fd) (GroupRecord.without_addr fd)
      fun g hg' hname => ?_
    obtain rfl := List.inj_on_of_nodup_map hok.names hg' hg hname
    refine (hok.sound g hg').without fun hnil => hne ?_
    exact ((without_members_eq_nil (hok.sound g hg')).mp hnil).2
  | leftLast hg hfd hone =>
    rename_i grp
    have hlast : grp ∈ (emptiedBy fd groups).filter fun g => decide (g.name = grp.name) :=
      List.mem_filter.mpr ⟨mem_emptiedBy.mpr ⟨hg, hfd, hone⟩, by simp⟩
    have hentry := hloss.entries 0 (List.length_pos_of_mem hlast)
    rw [handBack, if_pos hentry]
    exact hok.close hg
  | ended hreq =>
    rw [handBack_of_ok fun k hk => ?_]
    · exact hok.evict fd
    · rw [List.length_map] at hk
      rw [Nat.zero_add]
      apply hloss.entries k
      cases req <;> first | exact hk | cases hreq
  | _ => exact hok

end Step

theorem noLoss_of_allocOk {env : Env} (h : env.AllocOk) (stores : GroupName → Bool) (fd : Int)
    (auth : Bool) (groups : List GroupRecord) (pool : List McastEntry) (req : Request) :
    NoLoss env stores fd auth groups pool req :=
  ⟨fun _ => h _, fun _ _ => h _⟩

/-- What holds of a context in every state the server gets to. -/
structure ServerOk (ctx : ServerContext) : Prop where
  keyed : Keyed UserRecord.username ctx.userMap
  groups : HasGroups ctx ctx.groups ctx.pool
  table : TableOk ctx.groups ctx.pool

theorem HasGroups.contents {ctx : ServerContext} {groups : List GroupRecord}
    {pool : List McastEntry} (h : HasGroups ctx groups pool) :
    ctx.groups = groups ∧ ctx.pool = pool :=
  ⟨h.groups_eq, h.queue.toList_eq⟩

theorem ServerOk.of_groups {ctx : ServerContext} {groups : List GroupRecord}
    {pool : List McastEntry} (hk : Keyed UserRecord.username ctx.userMap)
    (h : HasGroups ctx groups pool) (hok : TableOk groups pool) : ServerOk ctx := by
  obtain ⟨hgroups, hpool⟩ := h.contents
  exact ⟨hk, by rwa [hgroups, hpool], by rwa [hgroups, hpool]⟩

theorem Initial.serverOk {ctx : ServerContext} (h : Initial ctx) : ServerOk ctx :=
  .of_groups h.keyed h.groups ⟨List.nodup_nil, nofun, List.Perm.refl _⟩

/-- `NoLoss` for a call in a context. -/
def CallNoLoss (ctx : ServerContext) (label : CallLabel) : Prop :=
  NoLoss label.env (storesGroup label.env ctx) label.call.fd
    (authenticated ctx.users label.call.fd) ctx.groups ctx.pool label.call.request

theorem callNoLoss_of_allocOk {label : CallLabel} (h : label.env.AllocOk) (ctx : ServerContext) :
    CallNoLoss ctx label :=
  noLoss_of_allocOk h _ _ _ _ _ _

theorem ServerOk.step {ctx ctx' : ServerContext} {label : CallLabel} (h : ServerOk ctx)
    (hloss : CallNoLoss ctx label) (hs : CallStep ctx label ctx') : ServerOk ctx' := by
  obtain ⟨reply, groups', pool', hk, hgroups, _, _, hstep⟩ :=
    runCall_spec h.groups h.table h.keyed label.env label.call
  rw [hs]
  exact .of_groups hk hgroups (hstep.tableOk h.table hloss)

/-- After every run of calls that lose nothing. -/
theorem serverOk_of_run {alloc : ℕ → Bool} {ctx₀ ctx : ServerContext}
    {moves : List (Move ServerContext CallLabel)} (h0 : serverCreate alloc = some ctx₀)
    (hr : Run CallStep ctx₀ moves ctx) (hloss : ∀ m ∈ moves, CallNoLoss m.pre m.label) :
    ServerOk ctx :=
  hr.invariant (serverCreate_initial h0).serverOk (fun _ _ _ => ServerOk.step) hloss

/-- The run takes place without failing allocations. -/
def AllAllocOk (moves : List (Move ServerContext CallLabel)) : Prop :=
  ∀ m ∈ moves, m.label.env.AllocOk

theorem serverOk_of_allocOk {alloc : ℕ → Bool} {ctx₀ ctx : ServerContext}
    {moves : List (Move ServerContext CallLabel)} (h0 : serverCreate alloc = some ctx₀)
    (hr : Run CallStep ctx₀ moves ctx) (hok : AllAllocOk moves) : ServerOk ctx :=
  serverOk_of_run h0 hr fun m hm => callNoLoss_of_allocOk (hok m hm) m.pre

/-- Multicast address conservation: the free addresses and those of the live
groups are exactly the preloaded ones, so none is shared or lost, there are at
most `maxGroups` groups, and no hand-back finds the queue full. -/
theorem addresses_conserved {alloc : ℕ → Bool} {ctx₀ ctx : ServerContext}
    {moves : List (Move ServerContext CallLabel)} (h0 : serverCreate alloc = some ctx₀)
    (hr : Run CallStep ctx₀ moves ctx) (hok : AllAllocOk moves) :
    (ctx.groups.map (·.addr) ++ ctx.pool).Perm ctx₀.pool ∧
      (ctx₀.pool.Nodup ∧ ctx₀.pool.length = multicastPoolSize) ∧
      (ctx.groups.map (·.addr)).Nodup ∧ (∀ grp ∈ ctx.groups, grp.addr ∉ ctx.pool) ∧
      ctx.groups.length ≤ maxGroups ∧
      (∀ env fd, ∀ result ∈
        closingInserts env 0 (leaveAllGroups ctx fd).1 (leaveAllGroups ctx fd).2,
        result = .success) ∧
      ∀ env, ∀ grp ∈ ctx.groups, ∀ fd ∈ grp.members,
        (closeEmptyGroup env 0 (removeMember ctx grp (findMember grp.members fd)) grp.name).2 ≠
          some .overflowError := by
  have h := serverOk_of_allocOk h0 hr hok
  have hpool : ctx₀.pool = poolEntries := (serverCreate_initial h0).groups.contents.2
  have hnd := List.nodup_append.mp h.table.nodup_addrs
  have hlen := h.table.length_eq
  rw [hpool]
  refine ⟨h.table.conserved, ⟨poolEntries_nodup, rfl⟩, hnd.1, fun grp hg hmem => ?_,
    by change _ ≤ 16; change _ = 16 at hlen; omega, fun env fd => ?_, fun env grp hg fd hfd => ?_⟩
  · exact hnd.2.2 _ (List.mem_map_of_mem hg) _ hmem rfl
  · exact (cleanupClient_groups h.groups h.table env fd).2
  · rw [(closeAfterLeave_spec h.groups h.table.addressed hg hfd env).2]
    split <;> simp

theorem addresses_conserved_crowd :
    ((afterQuietCalls started (crowd 2)).groups.map (·.addr) ++
        (afterQuietCalls started (crowd 2)).pool).Perm started.pool ∧
      (afterQuietCalls started (crowd 2)).pool.length = 15 :=
  ⟨(addresses_conserved serverCreate_started (run_quietCalls started (crowd 2))
    quietCalls_allocOk).1, by decide +kernel⟩

end MeshChat.Server
