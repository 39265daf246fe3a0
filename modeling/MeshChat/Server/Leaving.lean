import MeshChat.Server.Conservation

/-!
# Ending a session and leaving every group

`cleanup_client` takes a descriptor out of every group at once and closes the
emptied ones afterwards; LEAVE_GROUP requests do it group by group. Each
request keeps what the cleanup would make of the table, so both end alike.
-/
namespace MeshChat.Server
open Runs

section Evict
variable {fd : Int} {groups : List GroupRecord} {pool : List McastEntry}

theorem GroupRecord.without_without {grp : GroupRecord} (h : grp.members.Nodup) :
    (grp.without fd).without fd = grp.without fd :=
  GroupRecord.without_of_notMem fun hfd => ((mem_without h).mp hfd).2 rfl

/-- Leaving one group first makes no difference to the cleanup. -/
theorem evict_editGroup (hsound : ∀ grp ∈ groups, grp.Sound) (name : GroupName) :
    evict fd (editGroup groups name (.without fd)) = evict fd groups := by
  rw [evict, evict, editGroup, KeyedList.edit, List.map_map]
  congr 1
  apply List.map_congr_left
  intro grp hg
  rw [Function.comp_apply]
  split
  · exact GroupRecord.without_without (hsound grp hg).nodup
  · rfl

/-- Neither does closing the group that it emptied. -/
theorem evict_filter (hok : TableOk groups pool) {grp : GroupRecord} (hg : grp ∈ groups)
    (hnil : (grp.without fd).members = []) :
    evict fd (groups.filter fun g => decide (g.name ≠ grp.name)) = evict fd groups := by
  rw [evict, evict, List.filter_map, List.filter_map, List.filter_filter]
  congr 1
  apply List.filter_congr
  intro g hg'
  by_cases hname : g.name = grp.name
  · obtain rfl := List.inj_on_of_nodup_map hok.names hg' hg hname
    simp [hnil]
  · simp [hname]

/-- Where the descriptor is in no group there is nothing to clean up. -/
theorem evict_of_notMem (hsound : ∀ grp ∈ groups, grp.Sound)
    (hout : ∀ grp ∈ groups, fd ∉ grp.members) : evict fd groups = groups := by
  have hmap : groups.map (GroupRecord.without fd) = groups :=
    (List.map_congr_left fun grp hg => GroupRecord.without_of_notMem (hout grp hg)).trans
      (List.map_id groups)
  rw [evict, hmap, List.filter_eq_self]
  intro grp hg
  exact decide_eq_true (List.ne_nil_of_length_pos (hsound grp hg).pos)

theorem mem_evict {grp : GroupRecord} (h : grp ∈ evict fd groups) :
    ∃ g ∈ groups, g.without fd = grp ∧ grp.members ≠ [] := by
  obtain ⟨hmem, hne⟩ := List.mem_filter.mp h
  obtain ⟨g, hg, rfl⟩ := List.mem_map.mp hmem
  exact ⟨g, hg, rfl, of_decide_eq_true hne⟩

/-- One LEAVE_GROUP request: the cleanup would still end where it did, and the
descriptor stays in exactly those groups that the request does not name. -/
theorem GroupStep.leave {env : Env} {stores : GroupName → Bool} {auth : Bool}
    {name : Option GroupName} {reply : Reply} {groups' : List GroupRecord}
    {pool' : List McastEntry}
    (h : GroupStep env stores fd auth groups pool (.leaveGroup name) reply groups' pool')
    (hok : TableOk groups pool) :
    evict fd groups' = evict fd groups ∧
      ∀ grp ∈ groups', fd ∈ grp.members → grp ∈ groups ∧ some grp.name ≠ name := by
  cases h with
  | denied hreq _ => cases hreq
  | ended hreq => cases hreq
  | other hreq => cases hreq
  | leaveBad => exact ⟨rfl, fun grp hg _ => ⟨hg, Option.some_ne_none _⟩⟩
  | leaveUnknown hnew =>
    exact ⟨rfl, fun grp hg _ => ⟨hg, fun he => hnew grp hg (Option.some.inj he)⟩⟩
  | leaveOutside hg hfd =>
    refine ⟨rfl, fun grp hg' hfd' => ⟨hg', fun he => ?_⟩⟩
    obtain rfl := List.inj_on_of_nodup_map hok.names hg' hg (Option.some.inj he)
    exact hfd hfd'
  | left hg hfd _ =>
    refine ⟨evict_editGroup hok.sound _, fun grp hmem hfd' => ?_⟩
    obtain ⟨g, hg', rfl⟩ := KeyedList.mem_edit.mp hmem
    split at hfd'
    · exact absurd rfl ((GroupRecord.mem_without (hok.sound g hg').nodup).mp hfd').2
    · rename_i hname
      rw [if_neg hname]
      exact ⟨hg', fun he => hname (Option.some.inj he)⟩
  | leftLast hg hfd hone =>
    refine ⟨evict_filter hok hg ((without_members_eq_nil (hok.sound _ hg)).mpr ⟨hfd, hone⟩),
      fun grp hmem _ => ?_⟩
    obtain ⟨hg', hname⟩ := List.mem_filter.mp hmem
    exact ⟨hg', fun he => of_decide_eq_true hname (Option.some.inj he)⟩

end Evict

/-- LEAVE_GROUP requests, each with the allocation outcomes that it meets. -/
abbrev LeaveRequests := List (Env × TLVMessage)

/-- The context after the requests of `fd`. -/
def afterLeaves (ctx : ServerContext) (fd : Int) (reqs : LeaveRequests) : ServerContext :=
  reqs.foldl (fun ctx req => afterCall ctx ⟨req.1, .dispatch fd req.2⟩) ctx

/-- The group that a message asks to leave. -/
def leaveName (msg : TLVMessage) : Option GroupName :=
  match Request.ofMsg msg with
  | .leaveGroup name => name
  | _ => none

/-- LEAVE_GROUP requests without failing allocations that name every group of `fd`. -/
structure LeavesEach (fd : Int) (groups : List GroupRecord) (reqs : LeaveRequests) : Prop where
  tags : ∀ req ∈ reqs, req.2.tag = MessageTag.leaveGroup.code
  allocs : ∀ req ∈ reqs, req.1.AllocOk
  named : ∀ grp ∈ groups, fd ∈ grp.members → ∃ req ∈ reqs, leaveName req.2 = some grp.name

theorem leave_spec {ctx : ServerContext} {groups : List GroupRecord} {pool : List McastEntry}
    (h : HasGroups ctx groups pool) (hok : TableOk groups pool) {env : Env} (henv : env.AllocOk)
    (fd : Int) {msg : TLVMessage} (htag : msg.tag = MessageTag.leaveGroup.code) :
    ∃ groups' pool', HasGroups (afterCall ctx ⟨env, .dispatch fd msg⟩) groups' pool' ∧
      TableOk groups' pool' ∧ evict fd groups' = evict fd groups ∧
      ∀ grp ∈ groups', fd ∈ grp.members → grp ∈ groups ∧ some grp.name ≠ leaveName msg := by
  have hcode := MessageTag.ofCode_eq_some.mpr htag
  have hname : leaveName msg = parseGroupValue msg := by rw [leaveName, Request.ofMsg, hcode]
  have hafter : afterCall ctx ⟨env, .dispatch fd msg⟩ = (handleLeaveGroup env ctx fd msg).1 := by
    rw [afterCall, runCall, dispatchMessage, hcode]
    rfl
  obtain ⟨reply, groups', pool', hgroups, -, -, hstep⟩ :=
    handleLeaveGroup_spec h hok.addressed env fd msg false fun _ => true
  obtain ⟨hevict, hkept⟩ := hstep.leave hok
  rw [hafter, hname]
  exact ⟨groups', pool', hgroups, hstep.tableOk hok (noLoss_of_allocOk henv _ _ _ _ _ _), hevict,
    hkept⟩

/-- After the requests the table is the one that the cleanup leaves. -/
theorem afterLeaves_spec {ctx : ServerContext} {groups : List GroupRecord} {pool : List McastEntry}
    (h : HasGroups ctx groups pool) (hok : TableOk groups pool) {fd : Int} {reqs : LeaveRequests}
    (hreqs : LeavesEach fd groups reqs) :
    ∃ pool', HasGroups (afterLeaves ctx fd reqs) (evict fd groups) pool' ∧
      TableOk (evict fd groups) pool' := by
  induction reqs generalizing ctx groups pool with
  | nil =>
    have hout : ∀ grp ∈ groups, fd ∉ grp.members := by
      intro grp hg hfd
      obtain ⟨req, hreq, -⟩ := hreqs.named grp hg hfd
      cases hreq
    rw [evict_of_notMem hok.sound hout]
    exact ⟨pool, h, hok⟩
  | cons req reqs ih =>
    obtain ⟨htag, htags⟩ := List.forall_mem_cons.mp hreqs.tags
    obtain ⟨henv, henvs⟩ := List.forall_mem_cons.mp hreqs.allocs
    obtain ⟨groups', pool', hgroups, hok', hevict, hkept⟩ := leave_spec h hok henv fd htag
    have hrest : LeavesEach fd groups' reqs := by
      refine ⟨htags, henvs, fun grp hg hfd => ?_⟩
      obtain ⟨hg', hother⟩ := hkept grp hg hfd
      obtain ⟨r, hr, hname⟩ := hreqs.named grp hg' hfd
      rcases List.mem_cons.mp hr with rfl | hr
      · exact absurd hname.symm hother
      · exact ⟨r, hr, hname⟩
    rw [← hevict]
    exact ih hgroups hok' hrest

/-- Cleaning up after a descriptor is leaving every group it is in, in any order:
the same groups stay, with the same members in the same order, and the same
addresses are free again. The cleanup remembers the name of every group that it
empties, so none is left behind without members. -/
theorem cleanupClient_eq_leaves {alloc : ℕ → Bool} {ctx₀ ctx : ServerContext}
    {moves : List (Move ServerContext CallLabel)} (h0 : serverCreate alloc = some ctx₀)
    (hr : Run CallStep ctx₀ moves ctx) (hok : AllAllocOk moves) {env : Env} (henv : env.AllocOk)
    (fd : Int) {reqs : LeaveRequests} (hreqs : LeavesEach fd ctx.groups reqs) :
    let cleaned := cleanupClient env ctx fd
    let left := afterLeaves ctx fd reqs
    (∀ call : Call, call.fd = fd → call.request.endsSession →
        afterCall ctx ⟨env, call⟩ = cleaned) ∧
      cleaned.groups = left.groups ∧
      (∀ name, cleaned.groupMap.find name = left.groupMap.find name) ∧
      cleaned.pool.Perm left.pool ∧
      (∀ grp ∈ cleaned.groups, fd ∉ grp.members ∧ grp.members ≠ []) ∧
      (leaveAllGroups ctx fd).2 = (emptiedBy fd ctx.groups).map (·.name) := by
  have hserver := serverOk_of_allocOk h0 hr hok
  have hcleanup := (cleanupClient_groups hserver.groups hserver.table env fd).1
  rw [handBack_of_ok fun _ _ => henv _] at hcleanup
  have hcleaned := hcleanup.contents
  obtain ⟨pool', hgroups, htable⟩ := afterLeaves_spec hserver.groups hserver.table hreqs
  obtain ⟨hleft, hpool⟩ := hgroups.contents
  dsimp only
  rw [hcleaned.1, hcleaned.2, hleft, hpool]
  refine ⟨fun call hfd hends => ?_, rfl, fun name => Option.ext fun grp => ?_, ?_,
    fun grp hg => ?_, ?_⟩
  · cases call with
    | dispatch fd' msg =>
      obtain rfl : fd' = fd := hfd
      exact (dispatch_ending env ctx fd' hends).1
    | disconnect fd' =>
      obtain rfl : fd' = fd := hfd
      rfl
  · exact hcleanup.find_eq_some.trans hgroups.find_eq_some.symm
  · have hconserved := (hserver.table.evict fd).conserved.trans htable.conserved.symm
    exact (List.perm_append_left_iff _).mp hconserved
  · obtain ⟨g, hg', rfl, hne⟩ := mem_evict hg
    refine ⟨fun hfd => ?_, hne⟩
    exact ((GroupRecord.mem_without (hserver.table.sound g hg').nodup).mp hfd).2 rfl
  · refine (leaveAllGroups_spec hserver.groups fd ?_).2
    exact le_trans (Nat.le_add_right _ _) hserver.table.length_eq.le

/-- Two users share a group, and the first has one of its own. -/
def sharing : List Call := crowd 2 ++ [.dispatch 0 (groupMsg .createGroup 1)]

/-- The first user leaves its own group before the shared one. -/
def leaveBoth : LeaveRequests :=
  [(.quiet, groupMsg .leaveGroup 1), (.quiet, groupMsg .leaveGroup 0)]

theorem leavesEach_leaveBoth : LeavesEach 0 (afterQuietCalls started sharing).groups leaveBoth where
  tags := by decide
  allocs := by simp [leaveBoth, Env.quiet_allocOk]
  named := by decide +kernel

theorem cleanupClient_eq_leaves_sharing :
    (cleanupClient .quiet (afterQuietCalls started sharing) 0).groups =
        (afterLeaves (afterQuietCalls started sharing) 0 leaveBoth).groups ∧
      (afterLeaves (afterQuietCalls started sharing) 0 leaveBoth).groups.map (·.members) = [[1]] :=
  ⟨(cleanupClient_eq_leaves serverCreate_started (run_quietCalls started sharing)
    quietCalls_allocOk Env.quiet_allocOk 0 leavesEach_leaveBoth).2.1, by decide +kernel⟩

end MeshChat.Server
