import MeshChat.Server.Credentials
import MeshChat.Server.Ledger

/-!
# How much memory the server holds

Groups, members and free addresses are limited, also where allocations fail. Only a
successful registration makes the server hold more, and by one block.
-/
namespace MeshChat.Server
open Resources Runs

/-- A record counts at least the members it has nodes for, and no more than may join. -/
structure GroupRecord.Within (grp : GroupRecord) : Prop where
  counted : (grp.members.length : Int) ≤ grp.memberCount
  room : grp.memberCount ≤ maxMembersPerGroup

theorem within_kept : KeptByHandlers GroupRecord.Within where
  opened _ _ := ⟨le_rfl, by simp [GroupRecord.opened]⟩
  enrol env fd grp h _ hroom := by
    have hlen : (grp.enrol env fd).members.length ≤ grp.members.length + 1 := by
      cases halloc : env.alloc .memberNode <;> simp [GroupRecord.enrol, listPushTail, halloc]
    have hcounted := h.counted
    have hcount : (grp.enrol env fd).memberCount = grp.memberCount + 1 := rfl
    exact ⟨by omega, by omega⟩
  without fd grp h := by
    have hcounted := h.counted
    have hroom := h.room
    unfold GroupRecord.without
    split
    · rename_i hfd
      have hlen := List.length_erase_of_mem hfd
      have hpos := List.length_pos_of_mem hfd
      exact ⟨by dsimp only; omega, by dsimp only; omega⟩
    · exact h

theorem within_of_run {alloc : ℕ → Bool} {ctx₀ ctx : ServerContext} {moves : List CallMove}
    (h0 : serverCreate alloc = some ctx₀) (hr : Run CallStep ctx₀ moves ctx) :
    ∀ grp ∈ ctx.groups, grp.Within := by
  have hinit := serverCreate_initial h0
  have hall : AddressesOk ctx ∧ ∀ grp ∈ ctx.groups, grp.Within := by
    refine hr.invariant (I := fun ctx => AddressesOk ctx ∧ ∀ grp ∈ ctx.groups, grp.Within)
      (G := fun _ _ => True) ⟨hinit.serverOk.addressesOk, fun grp hg => ?_⟩
      (fun s label t hi _ hs => ?_) fun _ _ => trivial
    · rw [hinit.groups.contents.1] at hg
      exact absurd hg List.not_mem_nil
    · obtain rfl : t = afterCall s label := hs
      exact ⟨hi.1.call label, within_kept.call hi.1 hi.2 label⟩
  exact hall.2

/-- There are as many users as were registered. -/
theorem users_length_of_run {alloc : ℕ → Bool} {ctx₀ ctx : ServerContext} {moves : List CallMove}
    (h0 : serverCreate alloc = some ctx₀) (hr : Run CallStep ctx₀ moves ctx) :
    ctx.users.length = (registrations moves).length := by
  have hinit := serverCreate_initial h0
  have hlen : ∀ users, (credentials users).length = users.length := fun users => List.length_map _
  have hall : AddressesOk ctx ∧ ctx.users.length = (registrations moves).length := by
    refine hr.history
      (I := fun past ctx => AddressesOk ctx ∧ ctx.users.length = (registrations past).length)
      (G := fun _ _ => True) ⟨hinit.serverOk.addressesOk, by rw [hinit.users]; rfl⟩
      (fun past s label t hi _ hs => ?_) fun _ _ => trivial
    obtain rfl : t = afterCall s label := hs
    refine ⟨hi.1.call label, ?_⟩
    rw [registrations, List.filterMap_append, List.length_append, ← registrations, ← hi.2]
    rcases registration_spec hi.1.keyed label with ⟨name, pass, hreg, -, hperm⟩ | ⟨hreg, hsame⟩
    · have hone := hperm.length_eq
      rw [List.length_cons, hlen, hlen] at hone
      rw [List.filterMap_cons_some hreg, hone]
      rfl
    · have hone := congrArg List.length hsame
      rw [hlen, hlen] at hone
      rw [List.filterMap_cons_none hreg, hone]
      rfl
  exact hall.2

/-- The blocks of the groups and of the free addresses. -/
theorem heldBlocks_length_le {users : List UserRecord} {groups : List GroupRecord}
    {pool : List McastEntry} (hwithin : ∀ grp ∈ groups, grp.Within)
    (hroom : groups.length + pool.length ≤ multicastPoolSize) :
    (heldBlocks (some users) (some groups) (some pool)).length ≤
      users.length + multicastPoolSize * (maxMembersPerGroup + 2) + 4 := by
  have hgroup : ∀ grp ∈ groups, (groupBlocks grp).length ≤ maxMembersPerGroup + 2 := by
    intro grp hg
    have hcounted := (hwithin grp hg).counted
    have hmax := (hwithin grp hg).room
    rw [groupBlocks, List.length_append, List.length_map]
    have hmembers : grp.members.length ≤ maxMembersPerGroup := by omega
    exact Nat.add_le_add_right hmembers 2
  have hgroups : (groups.flatMap groupBlocks).length ≤
      groups.length * (maxMembersPerGroup + 2) := by
    rw [List.length_flatMap, ← smul_eq_mul, ← List.length_map (fun grp => (groupBlocks grp).length)]
    refine List.sum_le_card_nsmul _ _ fun n hn => ?_
    obtain ⟨grp, hg, rfl⟩ := List.mem_map.mp hn
    exact hgroup grp hg
  simp only [heldBlocks, Option.elim_some, List.length_append, List.length_map,
    List.length_singleton]
  simp only [maxMembersPerGroup, multicastPoolSize] at hgroups hroom ⊢
  omega

end MeshChat.Server
