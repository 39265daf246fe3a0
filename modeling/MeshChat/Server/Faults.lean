import MeshChat.Server.Replies

/-!
# Failing allocations

A request or disconnect during which allocations fail still either happens or
does not, except where the failure is one of those `NoLoss` names: then a count
or an address goes wrong.
-/
namespace MeshChat.Server
open Runs

/-- What a call must leave behind whatever allocations fail during it. -/
structure FaultAtomic (ctx : ServerContext) (label : CallLabel) : Prop where
  counts : ∀ grp ∈ (afterCall ctx label).groups, grp.memberCount = grp.members.length
  addresses : ((afterCall ctx label).groups.map (·.addr) ++ (afterCall ctx label).pool).Perm
    poolEntries
  informed : ∀ sent ∈ (runCall label.env ctx label.call).2,
    sent.msg.tag = MessageTag.groupInfo.code →
    ∃ name, label.call.request.asksFor name ∧
      ∃ grp ∈ (afterCall ctx label).groups, grp.name = name ∧ sent.fd ∈ grp.members
  refused : ∀ sent ∈ (runCall label.env ctx label.call).2,
    sent.msg.tag = MessageTag.error.code →
    (afterCall ctx label).users = ctx.users ∧ (afterCall ctx label).groups = ctx.groups ∧
      (afterCall ctx label).pool.Perm ctx.pool

theorem SessionStep.of_error {env : Env} {fd : Int} {users users' : List UserRecord}
    {req : Request} {code : ErrorCode} (h : SessionStep env fd users req (.error code) users') :
    users' = users := by
  cases h <;> rfl

section Step
variable {env : Env} {stores : GroupName → Bool} {fd : Int} {auth : Bool}
  {groups groups' : List GroupRecord} {pool pool' : List McastEntry} {req : Request} {reply : Reply}

/-- A refused request leaves the groups alone; a failed create rotates the pool. -/
theorem GroupStep.of_error {code : ErrorCode}
    (h : GroupStep env stores fd auth groups pool req (.error code) groups' pool') :
    groups' = groups ∧ pool'.Perm pool := by
  cases h with
  | createFailed _ _ hpool _ =>
    rw [hpool]
    exact ⟨rfl, List.perm_append_singleton _ _⟩
  | _ => exact ⟨rfl, List.Perm.refl _⟩

/-- A request that gets to the push of `add_member` counts one more member. -/
theorem GroupStep.of_pushes
    (h : GroupStep env stores fd auth groups pool req reply groups' pool')
    (hok : TableOk groups pool) (hpush : pushes stores fd auth groups pool req) :
    ∃ grp : GroupRecord, grp.memberCount = grp.members.length ∧ grp.enrol env fd ∈ groups' := by
  have hname : ∀ {g grp : GroupRecord}, g ∈ groups → grp ∈ groups → g.name = grp.name → g = grp :=
    fun hg hg' => List.inj_on_of_nodup_map hok.names hg hg'
  cases h with
  | created _ _ _ _ _ =>
    exact ⟨.opened _ _, rfl, List.mem_append_right _ List.mem_cons_self⟩
  | joined _ hg _ _ =>
    exact ⟨_, (hok.sound _ hg).count, KeyedList.mem_edit.mpr ⟨_, hg, (if_pos rfl).symm⟩⟩
  | denied hreq hauth =>
    have hauth' : auth = true := by
      cases req with
      | createGroup name => cases name <;> first | exact hpush.1 | cases hpush
      | joinGroup name => cases name <;> first | exact hpush.1 | cases hpush
      | _ => cases hpush
    rw [hauth] at hauth'
    contradiction
  | createTaken _ hg => exact absurd rfl (hpush.2.1 _ hg)
  | createExhausted _ _ hpool => exact absurd hpool hpush.2.2.1
  | createFailed _ _ _ hstores =>
    have hstores' := hpush.2.2.2
    rw [hstores] at hstores'
    contradiction
  | joinUnknown _ hnew =>
    obtain ⟨_, g, hg, hname', _⟩ := hpush
    exact absurd hname' (hnew g hg)
  | joinAgain _ hg hin =>
    obtain ⟨_, g, hg', hname', hout, _⟩ := hpush
    rw [hname hg' hg hname'] at hout
    exact absurd hin hout
  | joinFull _ hg _ hfull =>
    obtain ⟨_, g, hg', hname', _, hroom⟩ := hpush
    rw [hname hg' hg hname'] at hroom
    omega
  | ended hreq => cases req <;> first | cases hpush | cases hreq
  | other hreq => cases req <;> first | cases hpush | cases hreq
  | _ => cases hpush

/-- Where no address is lost, every group that closes got its queue entry. -/
theorem GroupStep.of_conserved
    (h : GroupStep env stores fd auth groups pool req reply groups' pool')
    (hok : TableOk groups pool) (hlen : groups'.length + pool'.length = multicastPoolSize)
    {k : ℕ} (hk : k < closings fd groups req) : env.alloc (.mcastEntry k) = true := by
  by_contra hfail
  rw [Bool.not_eq_true] at hfail
  have hold := hok.length_eq
  have hlast : ∀ {name : GroupName}, k < closings fd groups (.leaveGroup (some name)) →
      ∃ grp ∈ groups, fd ∈ grp.members ∧ grp.memberCount = 1 ∧ grp.name = name := by
    intro name hk
    obtain ⟨grp, hmem⟩ := List.exists_mem_of_length_pos (Nat.zero_lt_of_lt hk)
    obtain ⟨hemptied, hname⟩ := List.mem_filter.mp hmem
    obtain ⟨hg, hfd, hone⟩ := mem_emptiedBy.mp hemptied
    exact ⟨grp, hg, hfd, hone, of_decide_eq_true hname⟩
  cases h with
  | leaveUnknown hnew =>
    obtain ⟨g, hg, _, _, hname⟩ := hlast hk
    exact hnew g hg hname
  | leaveOutside hg hout =>
    obtain ⟨g, hg', hfd, _, hname⟩ := hlast hk
    rw [List.inj_on_of_nodup_map hok.names hg' hg hname] at hfd
    exact hout hfd
  | left hg _ hne =>
    obtain ⟨g, hg', _, hone, hname⟩ := hlast hk
    rw [List.inj_on_of_nodup_map hok.names hg' hg hname] at hone
    exact hne hone
  | leftLast hg hfd hone =>
    rename_i grp
    have hle : closings fd groups (.leaveGroup (some grp.name)) ≤ 1 := by
      refine KeyedList.length_le_one GroupRecord.name (k := grp.name) ?_ fun g hmem => ?_
      · exact ((List.filter_sublist.trans List.filter_sublist).map _).nodup hok.names
      · exact of_decide_eq_true (List.mem_filter.mp hmem).2
    obtain rfl : k = 0 := by omega
    have hsplit := (KeyedList.perm_cons_filter GroupRecord.name hok.names hg).length_eq
    rw [List.length_cons] at hsplit
    rw [List.length_append, handBack, hfail] at hlen
    simp only [Bool.false_eq_true, if_false, handBack, List.append_nil, List.length_nil] at hlen
    omega
  | ended hreq =>
    have hshare := (evict_addrs_perm fd hok.names hok.sound).length_eq
    have hlt : (handBack env 0 ((emptiedBy fd groups).map (·.addr))).length <
        ((emptiedBy fd groups).map (·.addr)).length := by
      refine handBack_length_lt (k := k) ?_ (by rwa [Nat.zero_add])
      rw [List.length_map]
      cases req <;> first | exact hk | cases hreq
    simp only [List.length_append, List.length_map] at hshare hlt hlen
    omega
  | denied hreq _ => cases req <;> first | cases hk | cases hreq
  | other hreq => cases req <;> first | cases hk | cases hreq
  | _ => cases hk

end Step

/-- From a sound state a call is atomic exactly when it loses nothing. -/
theorem faultAtomic_iff {ctx : ServerContext} (h : ServerOk ctx) (label : CallLabel) :
    FaultAtomic ctx label ↔ CallNoLoss ctx label := by
  obtain ⟨reply, groups', pool', hk, hgroups, hsent, hsession, hstep⟩ :=
    runCall_spec h.groups h.table h.keyed label.env label.call
  obtain ⟨hgroups', hpool'⟩ : (afterCall ctx label).groups = groups' ∧
      (afterCall ctx label).pool = pool' := hgroups.contents
  constructor
  · rintro ⟨hcounts, haddrs, _, _⟩
    rw [hgroups'] at hcounts haddrs
    rw [hpool'] at haddrs
    refine ⟨fun hpush => ?_, fun k hk => hstep.of_conserved h.table ?_ hk⟩
    · by_contra hnode
      rw [Bool.not_eq_true] at hnode
      obtain ⟨grp, hcount, hmem⟩ := hstep.of_pushes h.table hpush
      have henrolted := hcounts _ hmem
      simp only [GroupRecord.enrol, hnode, listPushTail, Bool.false_eq_true, if_false,
        Option.getD_none] at henrolted
      omega
    · have hlen := haddrs.length_eq
      rwa [List.length_append, List.length_map] at hlen
  · intro hloss
    have hok := hstep.tableOk h.table hloss
    refine ⟨?_, ?_, fun sent hs htag => ?_, fun sent hs htag => ?_⟩
    · rw [hgroups']
      exact fun grp hg => (hok.sound grp hg).count
    · rw [hgroups', hpool']
      exact hok.conserved
    · obtain ⟨hfd, hm⟩ := hsent sent hs
      have hreply : reply.tag = .groupInfo := MessageTag.code_injective (hm.1.symm.trans htag)
      obtain ⟨addr, rfl⟩ : ∃ addr, reply = .groupInfo addr := by
        cases reply <;> first | exact ⟨_, rfl⟩ | cases hreply
      obtain ⟨name, hname, grp, hg, hgname, hmem, _⟩ := hstep.groupInfo
        (fun hleaves => hleaves.not_leavesSessions hsession.of_groupInfo) hloss
      exact ⟨name, hname, grp, hgroups' ▸ hg, hgname, hfd ▸ hmem⟩
    · obtain ⟨_, hm⟩ := hsent sent hs
      have hreply : reply.tag = .error := MessageTag.code_injective (hm.1.symm.trans htag)
      obtain ⟨code, rfl⟩ : ∃ code, reply = .error code := by
        cases reply <;> first | exact ⟨_, rfl⟩ | cases hreply
      obtain ⟨hsame, hperm⟩ := hstep.of_error
      rw [hgroups', hpool']
      exact ⟨hsession.of_error, hsame, hperm⟩

/-- Fault atomicity over runs: in a run whose calls lose nothing every call is
atomic, and the next call is atomic exactly when it loses nothing either. -/
theorem fault_atomicity {alloc : ℕ → Bool} {ctx₀ ctx : ServerContext}
    {moves : List (Move ServerContext CallLabel)} (h0 : serverCreate alloc = some ctx₀)
    (hr : Run CallStep ctx₀ moves ctx) (hloss : ∀ m ∈ moves, CallNoLoss m.pre m.label) :
    (∀ m ∈ moves, FaultAtomic m.pre m.label) ∧
      ∀ label, FaultAtomic ctx label ↔ CallNoLoss ctx label := by
  refine ⟨fun m hm => ?_, faultAtomic_iff (serverOk_of_run h0 hr hloss)⟩
  obtain ⟨before, after, rfl⟩ := List.append_of_mem hm
  have hpre := serverOk_of_run h0 hr.cut.1 fun m hm => hloss m (List.mem_append_left _ hm)
  exact (faultAtomic_iff hpre m.label).mpr (hloss m hm)

/-- The create that finds no memory gives the address back, and nothing is lost. -/
theorem fault_atomicity_crowd :
    (∀ m ∈ labelledCalls started scarceCrowd, FaultAtomic m.pre m.label) ∧
      FaultAtomic (afterLabelledCalls started scarceCrowd) ⟨.quiet, .disconnect 1⟩ := by
  have henough : ∀ label ∈ scarceCrowd,
      label.env.alloc .memberNode = true ∧ ∀ k, label.env.alloc (.mcastEntry k) = true := by
    intro label hl
    rcases List.mem_append.mp hl with hquiet | hlast
    · obtain ⟨call, -, rfl⟩ := List.mem_map.mp hquiet
      exact ⟨rfl, fun _ => rfl⟩
    · rw [List.mem_singleton.mp hlast]
      exact ⟨rfl, fun _ => rfl⟩
  have hloss : ∀ m ∈ labelledCalls started scarceCrowd, CallNoLoss m.pre m.label := fun m hm =>
    have hlabel := henough m.label (label_mem_of_attempts m hm)
    ⟨fun _ => hlabel.1, fun k _ => hlabel.2 k⟩
  obtain ⟨hbefore, hnext⟩ :=
    fault_atomicity serverCreate_started (run_labelledCalls started scarceCrowd) hloss
  exact ⟨hbefore, (hnext _).mpr (callNoLoss_of_allocOk Env.quiet_allocOk _)⟩

/-- A create whose `ListPushTail` fails counts a member that the list lacks. -/
theorem fault_atomicity_fails :
    ¬ ∀ (alloc : ℕ → Bool) (ctx₀ ctx : ServerContext) (moves : List (Move ServerContext CallLabel)),
      serverCreate alloc = some ctx₀ → Run CallStep ctx₀ moves ctx →
      ∀ label, FaultAtomic ctx label := by
  intro h
  have hatomic := h _ _ _ _ serverCreate_started
    (run_quietCalls started [.dispatch 5 (authMsg .register 0), .dispatch 5 (authMsg .login 0)])
    ⟨.without .memberNode, .dispatch 5 (groupMsg .createGroup 0)⟩
  exact absurd hatomic.counts (by decide +kernel)

end MeshChat.Server
