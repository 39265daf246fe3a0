import MeshChat.Server.Conservation

/-!
# Replies

One request gets one complete reply. An error reply means that nothing changed;
an address in a reply is that of a group the descriptor is in. The checks that
lead to a refusal are the ones the reply names.
-/
namespace MeshChat.Server
open Runs

/-- The request asks to be in the group of this name. -/
def Request.asksFor (name : GroupName) (req : Request) : Prop :=
  req = .createGroup (some name) ∨ req = .joinGroup (some name)

section Step
variable {env : Env} {stores : GroupName → Bool} {fd : Int} {auth : Bool}
  {groups groups' : List GroupRecord} {pool pool' : List McastEntry} {req : Request} {reply : Reply}

/-- An address goes out only to a member of the group that has it. -/
theorem GroupStep.groupInfo {addr : McastEntry}
    (h : GroupStep env stores fd auth groups pool req (.groupInfo addr) groups' pool')
    (hreq : ¬ req.leavesGroups)
    (hloss : NoLoss env stores fd auth groups pool req) :
    ∃ name, req.asksFor name ∧
      ∃ grp ∈ groups', grp.name = name ∧ fd ∈ grp.members ∧ grp.addr = addr := by
  cases h with
  | created hauth hnew hpool hstores hsplit =>
    rename_i name front back
    have hnode := hloss.push ⟨hauth, hnew, by rw [hpool]; simp, hstores⟩
    refine ⟨name, Or.inl rfl, (GroupRecord.opened name addr).enrol env fd,
      List.mem_append_right _ List.mem_cons_self, rfl, ?_, rfl⟩
    rw [GroupRecord.enrol_members hnode]
    exact List.mem_append_right _ (List.mem_singleton_self fd)
  | joinAgain _ hg hfd => exact ⟨_, Or.inr rfl, _, hg, rfl, hfd, rfl⟩
  | joined hauth hg hfd hroom =>
    rename_i grp
    have hnode := hloss.push ⟨hauth, grp, hg, rfl, hfd, hroom⟩
    refine ⟨grp.name, Or.inr rfl, grp.enrol env fd, KeyedList.mem_edit.mpr ⟨grp, hg, ?_⟩, rfl, ?_,
      rfl⟩
    · rw [if_pos rfl]
    · rw [GroupRecord.enrol_members hnode]
      exact List.mem_append_right _ (List.mem_singleton_self fd)
  | other h => exact absurd h hreq

/-- A join by an outsider is refused as full exactly when the session check
passes and the list is full. -/
theorem GroupStep.join_refused {grp : GroupRecord}
    (h : GroupStep env stores fd auth groups pool (.joinGroup (some grp.name)) reply groups' pool')
    (hok : TableOk groups pool) (hg : grp ∈ groups) (hfd : fd ∉ grp.members) :
    reply = .error .groupFull ↔ auth = true ∧ grp.members.length = maxMembersPerGroup := by
  have hsound := hok.sound grp hg
  have hcount := hsound.count
  have hle := hsound.le
  generalize hreq : Request.joinGroup (some grp.name) = req at h
  have hsame : ∀ {g : GroupRecord}, g ∈ groups → req = .joinGroup (some g.name) → g = grp := by
    intro g hg' he
    rw [← hreq, Request.joinGroup.injEq, Option.some.injEq] at he
    exact List.inj_on_of_nodup_map hok.names hg' hg he.symm
  cases h with
  | denied _ hauth => simp [hauth]
  | joinUnknown _ hnew =>
    rw [Request.joinGroup.injEq, Option.some.injEq] at hreq
    exact absurd hreq (hnew grp hg)
  | joinAgain _ hg' hin =>
    rw [hsame hg' rfl] at hin
    exact absurd hin hfd
  | joinFull hauth hg' _ hfull =>
    rw [hsame hg' rfl] at hfull
    exact ⟨fun _ => ⟨hauth, by omega⟩, fun _ => rfl⟩
  | joined hauth hg' _ hroom =>
    rw [hsame hg' rfl] at hroom
    exact ⟨nofun, fun hfull => by omega⟩
  | ended h => subst hreq; cases h
  | other h => subst hreq; cases h
  | _ => cases hreq

end Step

/-- Group representation: every entry is keyed by its own name, its members are
distinct, counted, at least one and at most `maxMembersPerGroup`; and a join by
an outsider is refused as full exactly when the session check passes and the
list is full. -/
theorem group_representation {alloc : ℕ → Bool} {ctx₀ ctx : ServerContext}
    {moves : List (Move ServerContext CallLabel)} (h0 : serverCreate alloc = some ctx₀)
    (hr : Run CallStep ctx₀ moves ctx) (hok : AllAllocOk moves) :
    (∀ pair ∈ ctx.groupMap.entries, pair.key = pair.value.name ∧ pair.value.members.Nodup ∧
        pair.value.memberCount = pair.value.members.length ∧
        1 ≤ pair.value.memberCount ∧ pair.value.memberCount ≤ maxMembersPerGroup) ∧
      ∀ env fd msg name grp, msg.tag = MessageTag.joinGroup.code →
        parseGroupValue msg = some name → ctx.groupMap.find name = some grp →
        fd ∉ grp.members →
        (Sends fd (.error .groupFull) (dispatchMessage env ctx fd msg).2.1 ↔
          notLoggedIn ctx fd = false ∧ grp.members.length = maxMembersPerGroup) := by
  have h := serverOk_of_allocOk h0 hr hok
  refine ⟨fun pair hp => ?_, fun env fd msg name grp htag hparse hfind hfd => ?_⟩
  · have hsound := h.table.sound pair.value (List.mem_map_of_mem hp)
    have hcount := hsound.count
    have hpos := hsound.pos
    have hle := hsound.le
    exact ⟨h.groups.keyed.own_key pair hp, hsound.nodup, hcount, by omega, by omega⟩
  · obtain ⟨hg, rfl⟩ := h.groups.find_eq_some.mp hfind
    obtain ⟨reply, _, _, _, hsent, _, hstep⟩ := dispatch_groups h.groups h.table h.keyed env fd msg
    have hreq : Request.ofMsg msg = .joinGroup (some grp.name) := by
      rw [Request.ofMsg, htag, MessageTag.ofCode_code, hparse]
    rw [hreq] at hstep
    rw [notLoggedIn_eq h.keyed.wf, Bool.not_eq_eq_eq_not, Bool.not_false,
      ← hstep.join_refused h.table hg hfd]
    exact ⟨fun hfull => hsent.unique hfull, fun he => he ▸ hsent⟩

theorem group_representation_crowd :
    (afterQuietCalls started (crowd 2)).groupMap.entries.length = 1 ∧
      ∀ pair ∈ (afterQuietCalls started (crowd 2)).groupMap.entries,
        pair.key = pair.value.name ∧ pair.value.memberCount = 2 := by
  have h := group_representation serverCreate_started (run_quietCalls started (crowd 2))
    quietCalls_allocOk
  refine ⟨by decide +kernel, fun pair hp => ⟨(h.1 pair hp).1, ?_⟩⟩
  revert pair
  decide +kernel

/-- An outsider without a session is not told that the group is full. -/
theorem join_full_unauthenticated :
    ¬ ∀ (alloc : ℕ → Bool) (ctx₀ ctx : ServerContext) (moves : List (Move ServerContext CallLabel)),
      serverCreate alloc = some ctx₀ → Run CallStep ctx₀ moves ctx → AllAllocOk moves →
      ∀ env fd msg name grp, env.AllocOk → 0 ≤ fd → msg.tag = MessageTag.joinGroup.code →
        parseGroupValue msg = some name → ctx.groupMap.find name = some grp →
        fd ∉ grp.members →
        (Sends fd (.error .groupFull) (dispatchMessage env ctx fd msg).2.1 ↔
          grp.members.length = maxMembersPerGroup) := by
  intro h
  have hfull : ((afterQuietCalls started (crowd 32)).groupMap.find (nameOf 0)).map
      (fun grp => (decide (100 ∈ grp.members), grp.members.length)) = some (false, 32) := by
    decide +kernel
  obtain ⟨grp, hfind, hgrp⟩ := Option.map_eq_some_iff.mp hfull
  obtain ⟨hout, hlen⟩ := Prod.mk.inj hgrp
  obtain ⟨m, hsent, hm⟩ := (h _ _ _ _ serverCreate_started (run_quietCalls started (crowd 32))
    quietCalls_allocOk Env.quiet 100 (groupMsg .joinGroup 0) (nameOf 0) grp
    Env.quiet_allocOk (by decide) (by decide) (by decide +kernel) hfind
    (of_decide_eq_false hout)).mpr hlen
  have hreply : (dispatchMessage Env.quiet (afterQuietCalls started (crowd 32)) 100
      (groupMsg .joinGroup 0)).2.1.map (·.msg.payload) = [[ErrorCode.userNotFound.code]] := by
    decide +kernel
  rw [hsent, List.map_singleton, hm.2] at hreply
  exact absurd hreply (by decide)

/-- Reply discipline and error atomicity: exactly one complete reply, to the
descriptor of the request; an error reply leaves the whole context as it was;
an address is that of the group asked for, which has the descriptor among its
members; and -1 is returned exactly for an exit. -/
theorem dispatch_reply {alloc : ℕ → Bool} {ctx₀ ctx : ServerContext}
    {moves : List (Move ServerContext CallLabel)} (h0 : serverCreate alloc = some ctx₀)
    (hr : Run CallStep ctx₀ moves ctx) (hok : AllAllocOk moves) {env : Env} (henv : env.AllocOk)
    (fd : Int) (msg : TLVMessage) :
    let r := dispatchMessage env ctx fd msg
    (∃ (reply : Reply) (m : TLVMessage), r.2.1 = [⟨fd, m⟩] ∧ reply.Describes m ∧
        (∀ code, reply = .error code → r.1 = ctx) ∧
        ∀ addr, reply = .groupInfo addr → ∃ name, (Request.ofMsg msg).asksFor name ∧
          ∃ grp, r.1.groupMap.find name = some grp ∧ fd ∈ grp.members ∧
            parseGroupInfo m = some (grp.mcastIp, grp.mcastPort)) ∧
      (r.2.2 = -1 ↔ msg.tag = MessageTag.exit.code) := by
  have h := serverOk_of_allocOk h0 hr hok
  obtain ⟨reply, groups', pool', _, hgroups, ⟨m, hsent, hm⟩, hkeeps, hsession, hstep⟩ :=
    dispatch_spec h.groups h.table h.keyed env fd msg
  refine ⟨⟨reply, m, hsent, hm, fun code hcode => hkeeps code hcode henv, ?_⟩,
    dispatch_returns env ctx fd msg⟩
  rintro addr rfl
  have hreq : ¬ (Request.ofMsg msg).leavesGroups :=
    fun hleaves => hleaves.not_leavesSessions hsession.of_groupInfo
  obtain ⟨name, hname, grp, hg, rfl, hfd, rfl⟩ :=
    hstep.groupInfo hreq (noLoss_of_allocOk henv _ _ _ _ _ _)
  exact ⟨grp.name, hname, grp, hgroups.find_eq_some.mpr ⟨hg, rfl⟩, hfd, hm.parseGroupInfo⟩

theorem dispatch_reply_crowd :
    (dispatchMessage Env.quiet (afterQuietCalls started (crowd 2)) 1 (groupMsg .leaveGroup 0)).2.2 ≠
      -1 := by
  have h := dispatch_reply serverCreate_started (run_quietCalls started (crowd 2))
    quietCalls_allocOk Env.quiet_allocOk 1 (groupMsg .leaveGroup 0)
  exact fun hret => absurd (h.2.mp hret) (by decide)

end MeshChat.Server
