import MeshChat.Server.Views

/-!
# Connections do not disturb each other

A call on one descriptor leaves alone what another descriptor has: its groups
with their addresses, and the records that carry it. An inactive record carries
no descriptor, so a login never takes one away.
-/
namespace MeshChat.Server
open Runs

/-- A record is either inactive and without a descriptor, or active. -/
def Flagged (users : List UserRecord) : Prop :=
  ∀ u ∈ users, u.loggedIn = 0 ∧ u.socketFd = -1 ∨ u.loggedIn = 1

section Step
variable {env : Env} {fd : Int} {users users' : List UserRecord} {req : Request} {reply : Reply}

theorem SessionStep.flagged (h : SessionStep env fd users req reply users')
    (hf : Flagged users) : Flagged users' := by
  cases h with
  | registered _ hsplit =>
    intro u hu
    rcases List.mem_cons.mp (List.perm_middle.mem_iff.mp hu) with rfl | hu
    · exact Or.inl ⟨rfl, rfl⟩
    · exact hf u (hsplit ▸ hu)
  | loggedIn =>
    intro u hu
    obtain ⟨v, hv, rfl⟩ := KeyedList.mem_edit.mp hu
    split
    · exact Or.inr rfl
    · exact hf v hv
  | ended =>
    intro u hu
    rcases mem_clearHolder hu with hu | ⟨v, _, rfl⟩
    · exact hf u hu
    · exact Or.inl ⟨rfl, rfl⟩
  | _ => exact hf

/-- The records on another descriptor are the same before and after. -/
theorem SessionStep.others (h : SessionStep env fd users req reply users')
    (hf : Flagged users) (hnames : (users.map (·.username)).Nodup) {u : UserRecord}
    (hne : u.socketFd ≠ fd) (hpos : 0 ≤ u.socketFd) : u ∈ users' ↔ u ∈ users := by
  cases h with
  | registered _ hsplit =>
    rw [List.perm_middle.mem_iff, List.mem_cons, hsplit, or_iff_right]
    rintro rfl
    cases hpos
  | @loggedIn name pass v hv hname _ hin =>
    constructor
    · intro hu
      obtain ⟨w, hw, rfl⟩ := KeyedList.mem_edit.mp hu
      split at hne
      · exact absurd rfl hne
      · rwa [if_neg ‹_›]
    · intro hu
      refine KeyedList.mem_edit.mpr ⟨u, hu, (if_neg fun huname => ?_).symm⟩
      obtain rfl := List.inj_on_of_nodup_map hnames hu hv (huname.trans hname.symm)
      rcases hf u hu with ⟨_, hfd⟩ | hactive <;> omega
  | ended =>
    constructor
    · intro hu
      rcases mem_clearHolder hu with hu | ⟨v, _, rfl⟩
      · exact hu
      · cases hpos
    · exact fun hu => mem_clearHolder_of_ne hnames hu hne
  | _ => exact Iff.rfl

end Step

/-- What holds in every state that isolation needs. -/
structure Separated (ctx : ServerContext) : Prop where
  ok : ServerOk ctx
  flagged : Flagged ctx.users

/-- The descriptor has the same groups, at the same addresses, and the same records. -/
structure SameFor (fd : Int) (ctx ctx' : ServerContext) : Prop where
  groups : memberships ctx'.groups fd = memberships ctx.groups fd
  records : ∀ u : UserRecord, u.socketFd = fd → (u ∈ ctx'.users ↔ u ∈ ctx.users)

theorem SameFor.trans {fd : Int} {ctx ctx' ctx'' : ServerContext} (h : SameFor fd ctx ctx')
    (h' : SameFor fd ctx' ctx'') : SameFor fd ctx ctx'' :=
  ⟨h'.groups.trans h.groups, fun u hu => (h'.records u hu).trans (h.records u hu)⟩

/-- One call keeps the tables separated, and is not noticed on another descriptor. -/
theorem Separated.call {ctx : ServerContext} (h : Separated ctx) {label : CallLabel}
    (henv : label.env.AllocOk) :
    Separated (afterCall ctx label) ∧
      ∀ fd, 0 ≤ fd → fd ≠ label.call.fd → SameFor fd ctx (afterCall ctx label) := by
  obtain ⟨reply, groups', pool', hk, hgroups, _, hsession, hgroup⟩ :=
    runCall_spec h.ok.groups h.ok.table h.ok.keyed label.env label.call
  have htable := hgroup.tableOk h.ok.table (noLoss_of_allocOk henv _ _ _ _ _ _)
  refine ⟨⟨.of_groups hk hgroups htable, hsession.flagged h.flagged⟩, fun fd hpos hne => ⟨?_, ?_⟩⟩
  · rw [afterCall, hgroups.contents.1]
    exact (hgroup.memberships h.ok.table (henv _)).2 fd hne
  · rintro u rfl
    exact hsession.others h.flagged h.ok.keyed.nodup hne hpos

/-- The tables are separated throughout a run. -/
theorem separated_of_run {alloc : ℕ → Bool} {ctx₀ ctx : ServerContext}
    {moves : List (Move ServerContext CallLabel)} (h0 : serverCreate alloc = some ctx₀)
    (hr : Run CallStep ctx₀ moves ctx) (hok : AllAllocOk moves) : Separated ctx := by
  have hinit := serverCreate_initial h0
  refine hr.invariant (I := Separated) (G := fun _ label => label.env.AllocOk)
    ⟨hinit.serverOk, by rw [hinit.users]; exact nofun⟩ (fun ctx label ctx' hi henv hs => ?_)
    fun m hm => hok m hm
  rw [hs]
  exact (hi.call henv).1

/-- Isolation between connections: a request or the disconnect of one descriptor
leaves another one in the same groups at the same addresses, and leaves every
record that carries it as it is. -/
theorem connections_isolated {alloc : ℕ → Bool} {ctx₀ ctx : ServerContext}
    {moves : List (Move ServerContext CallLabel)} (h0 : serverCreate alloc = some ctx₀)
    (hr : Run CallStep ctx₀ moves ctx) (hok : AllAllocOk moves) (label : CallLabel)
    (henv : label.env.AllocOk) (fd : Int) (hpos : 0 ≤ fd) (hne : fd ≠ label.call.fd) :
    memberships (afterCall ctx label).groups fd = memberships ctx.groups fd ∧
      ∀ u : UserRecord, u.socketFd = fd → (u ∈ (afterCall ctx label).users ↔ u ∈ ctx.users) := by
  have h := ((separated_of_run h0 hr hok).call henv).2 fd hpos hne
  exact ⟨h.groups, h.records⟩

theorem connections_isolated_crowd :
    memberships (afterCall (afterQuietCalls started (crowd 2)) ⟨.quiet, .disconnect 1⟩).groups 0 =
      memberships (afterQuietCalls started (crowd 2)).groups 0 :=
  (connections_isolated serverCreate_started (run_quietCalls started (crowd 2)) quietCalls_allocOk
    ⟨.quiet, .disconnect 1⟩ Env.quiet_allocOk 0 (by decide) (by decide)).1

/-- So is whatever all the other connections do. -/
theorem isolated_of_run {ctx ctx' : ServerContext} {moves : List (Move ServerContext CallLabel)}
    (h : Separated ctx) (hr : Run CallStep ctx moves ctx') (hok : AllAllocOk moves) {fd : Int}
    (hpos : 0 ≤ fd) (hne : ∀ m ∈ moves, fd ≠ m.label.call.fd) : SameFor fd ctx ctx' := by
  have hrun : Separated ctx' ∧ SameFor fd ctx ctx' := by
    refine hr.invariant (I := fun s => Separated s ∧ SameFor fd ctx s)
      (G := fun _ label => label.env.AllocOk ∧ fd ≠ label.call.fd)
      ⟨h, rfl, fun _ _ => Iff.rfl⟩ (fun s label t hi hg hs => ?_) fun m hm => ⟨hok m hm, hne m hm⟩
    obtain ⟨hsep, hsame⟩ := hi.1.call hg.1
    rw [hs]
    exact ⟨hsep, hi.2.trans (hsame fd hpos hg.2)⟩
  exact hrun.2

end MeshChat.Server
