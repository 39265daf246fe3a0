import MeshChat.Server.Conservation

/-!
# Addresses under failing allocations

A failing allocation may lose an address, but no call, whatever fails in it,
gives one address to two groups or makes up a new one.
-/
namespace MeshChat.Server
open Runs

/-- No request that keeps its session adds an address. -/
theorem GroupStep.addrs_subperm {env : Env} {stores : GroupName → Bool} {fd : Int} {auth : Bool}
    {groups groups' : List GroupRecord} {pool pool' : List McastEntry} {req : Request}
    {reply : Reply} (h : GroupStep env stores fd auth groups pool req reply groups' pool')
    (hreq : ¬ req.endsSession) (hnames : (groups.map (·.name)).Nodup) :
    List.Subperm (groups'.map (·.addr) ++ pool') (groups.map (·.addr) ++ pool) := by
  cases h with
  | createFailed hauth hnew hpool hstores =>
    rw [hpool]
    exact ((List.perm_append_singleton _ _).append_left _).subperm
  | created hauth hnew hpool hstores hsplit =>
    subst hpool hsplit
    rename_i name addr front back
    have hmiddle : ((front ++ (GroupRecord.opened name addr).enrol env fd :: back).map (·.addr) ++
        pool').Perm (addr :: (front ++ back).map (·.addr) ++ pool') :=
      (List.perm_middle.map _).append_right pool'
    exact (hmiddle.trans List.perm_middle.symm).subperm
  | joined hauth hg hfd hroom =>
    rw [editGroup, KeyedList.map_edit fun g _ _ => show (g.enrol env fd).addr = g.addr from rfl]
  | left hg hfd hmore =>
    rw [editGroup, KeyedList.map_edit fun grp _ _ => grp.without_addr fd]
  | leftLast hg hfd hone =>
    rename_i grp
    have hsplit := ((KeyedList.perm_cons_filter GroupRecord.name hnames hg).map
      (·.addr)).append_right pool
    have hback := ((handBack_sublist env 0 [grp.addr]).append_left
      ((groups.filter fun g => decide (g.name ≠ grp.name)).map (·.addr) ++ pool)).subperm
    rw [List.append_assoc] at hback
    exact hback.trans ((List.perm_append_singleton _ _).trans hsplit.symm).subperm
  | ended hends => exact absurd hends hreq
  | _ => exact List.Subperm.refl _

theorem cleanupClient_addressed {ctx : ServerContext} {groups : List GroupRecord}
    {pool : List McastEntry} (h : HasGroups ctx groups pool) (hok : Addressed groups pool)
    (env : Env) (fd : Int) :
    ∃ groups' pool', HasGroups (cleanupClient env ctx fd) groups' pool' ∧
      Addressed groups' pool' := by
  refine ⟨_, _, (cleanupClient_closed h hok.length_le env fd).1, ⟨?_⟩⟩
  have hback := (handBack_sublist env 0 ((emptiedBy fd groups).map (·.addr))).append_left
    (((groups.map (GroupRecord.without fd)).filter
      fun g => decide (g.name ∉ (emptiedBy fd groups).map (·.name))).map (·.addr) ++ pool)
  rw [List.append_assoc] at hback
  have hcomm : (pool ++ (emptiedBy fd groups).map (·.addr)).Perm
      ((emptiedBy fd groups).map (·.addr) ++ pool) := List.perm_append_comm
  have hswap := hcomm.append_left
      (((groups.map (GroupRecord.without fd)).filter
        fun g => decide (g.name ∉ (emptiedBy fd groups).map (·.name))).map (·.addr))
  rw [← List.append_assoc, ← List.append_assoc] at hswap
  have hall := hswap.trans ((kept_addrs_perm fd h.names).append_right pool)
  exact (hback.subperm.trans hall.subperm).trans hok.within

/-- What holds of a context in every state the server gets to, whatever fails. -/
structure AddressesOk (ctx : ServerContext) : Prop where
  keyed : Keyed UserRecord.username ctx.userMap
  groups : HasGroups ctx ctx.groups ctx.pool
  addressed : Addressed ctx.groups ctx.pool

theorem ServerOk.addressesOk {ctx : ServerContext} (h : ServerOk ctx) : AddressesOk ctx :=
  ⟨h.keyed, h.groups, h.table.addressed⟩

theorem AddressesOk.of_groups {ctx : ServerContext} {groups : List GroupRecord}
    {pool : List McastEntry} (hk : Keyed UserRecord.username ctx.userMap)
    (h : HasGroups ctx groups pool) (hok : Addressed groups pool) : AddressesOk ctx := by
  obtain ⟨hgroups, hpool⟩ := h.contents
  exact ⟨hk, by rwa [hgroups, hpool], by rwa [hgroups, hpool]⟩

theorem AddressesOk.call {ctx : ServerContext} (h : AddressesOk ctx) (label : CallLabel) :
    AddressesOk (afterCall ctx label) := by
  obtain ⟨env, call⟩ := label
  cases call with
  | dispatch fd msg =>
    have hk := (dispatch_sessions h.keyed env fd msg).1.1
    by_cases hreq : (Request.ofMsg msg).endsSession
    · obtain ⟨groups, pool, hgroups, hok⟩ := cleanupClient_addressed h.groups h.addressed env fd
      rw [← (dispatch_ending env ctx fd hreq).1] at hgroups
      exact .of_groups hk hgroups hok
    · obtain ⟨reply, groups, pool, hgroups, -, -, hstep⟩ :=
        dispatch_running h.groups h.addressed h.keyed env fd msg hreq
      exact .of_groups hk hgroups
        ⟨(hstep.addrs_subperm hreq h.groups.names).trans h.addressed.within⟩
  | disconnect fd =>
    obtain ⟨groups, pool, hgroups, hok⟩ := cleanupClient_addressed h.groups h.addressed env fd
    exact .of_groups (cleanupClient_users h.keyed env fd).1 hgroups hok

/-- After every run of calls, with any allocation outcomes. -/
theorem addressesOk_of_run {alloc : ℕ → Bool} {ctx₀ ctx : ServerContext}
    {moves : List (Move ServerContext CallLabel)} (h0 : serverCreate alloc = some ctx₀)
    (hr : Run CallStep ctx₀ moves ctx) : AddressesOk ctx := by
  refine hr.invariant (I := AddressesOk) (G := fun _ _ => True)
    (serverCreate_initial h0).serverOk.addressesOk (fun s label t hi _ hs => ?_)
    fun _ _ => trivial
  rw [hs]
  exact hi.call label

end MeshChat.Server
