import MeshChat.Server.Descriptors
import MeshChat.Server.Isolation

/-!
# Members are open connections

Between any two events of the loop, who is in a group is an open connection with a
user logged in on it. A number that `accept` returns is not open, so it is in no
group, however often it was used before.
-/
namespace MeshChat.Server
open Runs

/-- An active record carries the descriptor. -/
def Active (users : List UserRecord) (fd : Int) : Prop :=
  ∃ u ∈ users, u.socketFd = fd ∧ u.loggedIn = 1

/-- Who is in a group is active and in `client_fds`. -/
def MembersHeld (ctx : ServerContext) : Prop :=
  ∀ grp ∈ ctx.groups, ∀ fd ∈ grp.members, (0 ≤ fd ∧ fd ∈ ctx.clientFds) ∧ Active ctx.users fd

theorem mem_memberships {groups : List GroupRecord} {grp : GroupRecord} {fd : Int}
    (hg : grp ∈ groups) (hfd : fd ∈ grp.members) : (grp.name, grp.addr) ∈ memberships groups fd :=
  ⟨grp, hg, hfd, rfl⟩

/-- A request that does not end the session keeps every active record. -/
theorem SessionStep.active_kept {env : Env} {fd : Int} {users users' : List UserRecord}
    {req : Request} {reply : Reply} (h : SessionStep env fd users req reply users')
    (hnames : (users.map (·.username)).Nodup) (hreq : ¬ req.endsSession) {fd' : Int}
    (hactive : Active users fd') : Active users' fd' := by
  obtain ⟨u, hu, hfd, hin⟩ := hactive
  cases h with
  | registered _ hsplit =>
    exact ⟨u, List.perm_middle.mem_iff.mpr (List.mem_cons_of_mem _ (hsplit ▸ hu)), hfd, hin⟩
  | loggedIn hv hname _ hout =>
    refine ⟨u, KeyedList.mem_edit.mpr ⟨u, hu, (if_neg fun huname => ?_).symm⟩, hfd, hin⟩
    rw [List.inj_on_of_nodup_map hnames hu hv (huname.trans hname.symm), hout] at hin
    cases hin
  | ended hends => exact absurd hends hreq
  | _ => exact ⟨u, hu, hfd, hin⟩

/-- Who asks is in a group afterwards only if it was in one before or is logged in. -/
theorem GroupStep.member_or_auth {env : Env} {stores : GroupName → Bool} {fd : Int} {auth : Bool}
    {groups groups' : List GroupRecord} {pool pool' : List McastEntry} {req : Request}
    {reply : Reply} (h : GroupStep env stores fd auth groups pool req reply groups' pool')
    (hok : TableOk groups pool) (hnode : env.alloc .memberNode = true)
    (hmem : (MeshChat.memberships groups' fd).Nonempty) :
    ¬ req.endsSession ∧ ((MeshChat.memberships groups fd).Nonempty ∨ auth = true) := by
  have hafter := (h.memberships hok hnode).1
  cases h with
  | created hauth _ _ _ _ => exact ⟨id, Or.inr hauth⟩
  | joined hauth _ _ _ => exact ⟨id, Or.inr hauth⟩
  | left _ _ _ =>
    rw [hafter] at hmem
    obtain ⟨x, hx⟩ := hmem
    exact ⟨id, Or.inl ⟨x, hx.1⟩⟩
  | leftLast _ _ _ =>
    rw [hafter] at hmem
    obtain ⟨x, hx⟩ := hmem
    exact ⟨id, Or.inl ⟨x, hx.1⟩⟩
  | ended hends =>
    rw [hafter, View.groupsAfter_of_endsSession hends] at hmem
    exact absurd hmem Set.not_nonempty_empty
  | denied hasks _ =>
    refine ⟨fun hends => ?_, Or.inl hmem⟩
    cases req <;> first | exact hasks | exact hends
  | other hleaves =>
    refine ⟨fun hends => ?_, Or.inl hmem⟩
    cases req <;> first | exact hleaves | exact hends
  | _ => exact ⟨id, Or.inl hmem⟩

/-- An authenticated descriptor has an active record. -/
theorem Flagged.active {users : List UserRecord} (h : Flagged users) {fd : Int}
    (hauth : authenticated users fd = true) : Active users fd := by
  obtain ⟨u, hholder, hin⟩ := authenticated_iff.mp hauth
  obtain ⟨hu, hfd⟩ := holder_eq_some hholder
  rcases h u hu with ⟨hout, -⟩ | hin'
  · exact absurd hout hin
  · exact ⟨u, hu, hfd, hin'⟩

/-- A call of an open connection keeps the members open and active; at the end of its
session the connection is in no group. -/
theorem Separated.members {ctx : ServerContext} (h : Separated ctx) (hheld : MembersHeld ctx)
    {label : CallLabel} (henv : label.env.AllocOk) (hpos : 0 ≤ label.call.fd)
    (hopen : label.call.fd ∈ ctx.clientFds) :
    (∀ grp ∈ (afterCall ctx label).groups, ∀ fd ∈ grp.members,
      (0 ≤ fd ∧ fd ∈ ctx.clientFds) ∧ Active (afterCall ctx label).users fd) ∧
    (label.call.request.endsSession →
      ∀ grp ∈ (afterCall ctx label).groups, label.call.fd ∉ grp.members) := by
  obtain ⟨reply, groups', pool', hk, hgroups, _, hsession, hgroup⟩ :=
    runCall_spec h.ok.groups h.ok.table h.ok.keyed label.env label.call
  have heq : (afterCall ctx label).groups = groups' := hgroups.contents.1
  have hbefore : ∀ {fd}, (memberships ctx.groups fd).Nonempty →
      (0 ≤ fd ∧ fd ∈ ctx.clientFds) ∧ Active ctx.users fd := by
    rintro fd ⟨x, grp, hg, hfd, -⟩
    exact hheld grp hg fd hfd
  rw [heq]
  refine ⟨fun grp hg fd hfd => ?_, fun hends grp hg hfd => ?_⟩
  · have hmem : (memberships groups' fd).Nonempty := ⟨_, mem_memberships hg hfd⟩
    by_cases hne : fd = label.call.fd
    · subst hne
      obtain ⟨hreq, hor⟩ := hgroup.member_or_auth h.ok.table (henv _) hmem
      refine ⟨⟨hpos, hopen⟩, hsession.active_kept h.ok.keyed.nodup hreq ?_⟩
      exact hor.elim (fun hmem => (hbefore hmem).2) h.flagged.active
    · rw [(hgroup.memberships h.ok.table (henv _)).2 fd hne] at hmem
      obtain ⟨hfds, u, hu, rfl, hin⟩ := hbefore hmem
      exact ⟨hfds, u, (hsession.others h.flagged h.ok.keyed.nodup hne hfds.1).mpr hu, rfl, hin⟩
  · exact (hgroup.member_or_auth h.ok.table (henv _) ⟨_, mem_memberships hg hfd⟩).1 hends

def AfterSend.leaving : AfterSend → Option Int
  | .reject _ => none
  | .reply _ fd ret => if ret < 0 then some fd else none

namespace ServerStage

/-- The connection whose session has ended and which is still in its slot. -/
def leaving : ServerStage → Option Int
  | .sending _ _ after => after.leaving
  | _ => none

/-- No event is being handled: the loop is on its way to the next one, or still
reading what it is. -/
def settled : ServerStage → Bool
  | .top | .select | .accept _ | .slots _ _ | .reading _ _ _ _ => true
  | _ => false

theorem of_settled {stage : ServerStage} (h : stage.settled = true) :
    stage.ended = false ∧ stage.rejecting = none ∧ stage.leaving = none ∧
      stage ≠ .destroy ∧ stage ≠ .done := by
  cases stage <;> simp_all [settled, ended, rejecting, leaving]

end ServerStage

/-- The allocations of the event succeed. -/
def OsEvent.AllocOk : OsEvent → Prop
  | .accept env _ | .readFails env | .dispatch env _ => env.AllocOk
  | _ => True

/-- What holds of groups and records while the process runs. -/
structure MembersOk (ctx : ServerContext) (leaving : Option Int) : Prop where
  separated : Separated ctx
  held : MembersHeld ctx
  left : ∀ fd, leaving = some fd → ∀ grp ∈ ctx.groups, fd ∉ grp.members

namespace MembersOk
variable {ctx : ServerContext} {leaving leaving' : Option Int}

/-- The loop's own part of the context may change, as long as only the connection
that leaves loses its slot. -/
theorem reloop (h : MembersOk ctx leaving) (listenFd : Int) (running : Bool) {clientFds : List Int}
    (hfds : ∀ fd, 0 ≤ fd → fd ∈ ctx.clientFds → leaving ≠ some fd → fd ∈ clientFds)
    (hleaving : ∀ fd, leaving' = some fd → leaving = some fd) :
    MembersOk { ctx with listenFd, clientFds, running } leaving' where
  separated := ⟨⟨h.separated.ok.keyed, ⟨h.separated.ok.groups.keyed, h.separated.ok.groups.groups_eq,
    h.separated.ok.groups.queue, h.separated.ok.groups.size⟩, h.separated.ok.table⟩,
    h.separated.flagged⟩
  held grp hg fd hfd := by
    obtain ⟨⟨hpos, hmem⟩, hactive⟩ := h.held grp hg fd hfd
    exact ⟨⟨hpos, hfds fd hpos hmem fun hl => h.left fd hl grp hg hfd⟩, hactive⟩
  left fd hl := h.left fd (hleaving fd hl)

/-- A call of an open connection; if it ends the session, the connection leaves. -/
theorem call (h : MembersOk ctx leaving) (label : CallLabel) (henv : label.env.AllocOk)
    (hpos : 0 ≤ label.call.fd) (hopen : label.call.fd ∈ ctx.clientFds)
    (hfds : (afterCall ctx label).clientFds = ctx.clientFds)
    (hleaving : ∀ fd, leaving' = some fd → label.call.fd = fd ∧ label.call.request.endsSession) :
    MembersOk (afterCall ctx label) leaving' := by
  obtain ⟨hheld, hleft⟩ := h.separated.members h.held henv hpos hopen
  refine ⟨(h.separated.call henv).1, fun grp hg fd hfd => hfds ▸ hheld grp hg fd hfd, ?_⟩
  intro fd hl
  obtain ⟨rfl, hends⟩ := hleaving fd hl
  exact hleft hends

/-- The slot of the connection that leaves is cleared. -/
theorem clearSlot (h : MembersOk ctx leaving) {fd : Int} (hleaving : leaving = some fd)
    (hslots : SlotsInj ctx.clientFds) {i : ℕ} (hslot : ctx.clientFds[i]? = some fd) (hpos : 0 ≤ fd) :
    MembersOk (setSlot ctx i (-1)) none := by
  refine h.reloop ctx.listenFd ctx.running (fun fd' hpos' hmem hne => ?_) nofun
  refine (hslots.mem_close hslot hpos hpos').mpr ⟨hmem, ?_⟩
  rintro rfl
  exact hne hleaving

end MembersOk

theorem Control.leaving {p : Process} {e : OsEvent} {stage : ServerStage} (h : Control p e stage)
    {fd : Int} (hl : stage.leaving = some fd) : p.stage.leaving = some fd := by
  cases h <;> simp_all [ServerStage.leaving]

/-- A request whose handler returns a negative value ends the session. -/
theorem endsSession_of_returns {env : Env} {ctx : ServerContext} {fd : Int} {msg : TLVMessage}
    (h : (dispatchMessage env ctx fd msg).2.2 < 0) : (Request.ofMsg msg).endsSession := by
  have hexit : msg.tag = MessageTag.exit.code := by
    rw [← dispatch_returns env ctx fd msg]
    rcases dispatch_returns_range env ctx fd msg with hret | hret <;> omega
  rw [Request.ofMsg, hexit, MessageTag.ofCode_code]
  trivial

theorem MembersOk.step {p p' : Process} {e : OsEvent} (h : MembersOk p.ctx p.stage.leaving)
    (hwf : Wf p) (henv : e.AllocOk) (hs : ProcessEffect p e p') (hended : p'.stage.ended = false) :
    MembersOk p'.ctx p'.stage.leaving := by
  have hkeep : ∀ fd, 0 ≤ fd → fd ∈ p.ctx.clientFds → p.stage.leaving ≠ some fd →
      fd ∈ p.ctx.clientFds := fun _ _ hmem _ => hmem
  cases hs with
  | moves hc => exact h.reloop p.ctx.listenFd p.ctx.running hkeep fun _ => hc.leaving
  | signal => exact h.reloop p.ctx.listenFd false hkeep fun _ => id
  | client _ _ => exact h
  | noSocket _ => exact h.reloop (-1) p.ctx.running hkeep nofun
  | @socket fd _ _ _ => exact h.reloop fd p.ctx.running hkeep nofun
  | setUpFails _ => exact h.reloop p.ctx.listenFd p.ctx.running hkeep nofun
  | @accepts ready env fd c hstage hpos hfree =>
    rcases p.accepted_cases env ready fd c with ⟨i, x, hslot, hx, heq⟩ | ⟨-, heq⟩
    · rw [heq]
      refine h.reloop p.ctx.listenFd p.ctx.running (fun fd' hpos' hmem _ => ?_) nofun
      exact (SlotsInj.mem_take hslot hx hpos').mpr (Or.inl hmem)
    · rw [heq]
      exact h.reloop p.ctx.listenFd p.ctx.running hkeep nofun
  | reads _ _ _ _ _ => exact h.reloop p.ctx.listenFd p.ctx.running hkeep nofun
  | @drops ready i fd got env hstage hwant =>
    obtain ⟨hpos, hslot⟩ := hwf.serving i fd (by rw [hstage]; rfl)
    have hfds := (cleanupClient_sameLoop env p.ctx fd).clientFds
    have hcall : MembersOk (cleanupClient env p.ctx fd) (some fd) :=
      h.call ⟨env, .disconnect fd⟩ henv hpos (List.mem_of_getElem? hslot) hfds
        fun fd' hl => ⟨Option.some.inj hl, trivial⟩
    exact hcall.clearSlot rfl (hfds ▸ hwf.slots) (hfds ▸ hslot) hpos
  | @dispatches ready i fd got env into hstage hwant =>
    obtain ⟨hpos, hslot⟩ := hwf.serving i fd (by rw [hstage]; rfl)
    refine h.call ⟨env, .dispatch fd (assemble into got)⟩ henv hpos
      (List.mem_of_getElem? hslot) (dispatchMessage_sameLoop env p.ctx fd _).clientFds ?_
    intro fd' hl
    obtain ⟨hret, hl⟩ := Option.ite_none_right_eq_some.mp hl
    exact ⟨Option.some.inj hl, endsSession_of_returns hret⟩
  | rejected _ => exact h.reloop p.ctx.listenFd p.ctx.running hkeep nofun
  | @exits ready i fd ret hstage hret =>
    obtain ⟨hpos, hslot⟩ := hwf.serving i fd (by rw [hstage]; rfl)
    refine h.clearSlot ?_ hwf.slots hslot hpos
    rw [hstage]
    exact if_pos hret
  | destroys _ => cases hended

theorem membersOk_of_run {alloc : ℕ → Bool} {ctx₀ : ServerContext} {p : Process}
    {moves : List ProcessMove} (h0 : serverCreate alloc = some ctx₀)
    (hr : Run ProcessStep (booted ctx₀) moves p) (hok : ∀ m ∈ moves, m.label.AllocOk)
    (hset : ∀ m ∈ moves, m.label.failsSetUp = false) :
    DescriptorsOk p ∧ (p.stage.ended = false → MembersOk p.ctx p.stage.leaving) := by
  have hinit := serverCreate_initial h0
  refine hr.invariant
    (I := fun p => DescriptorsOk p ∧ (p.stage.ended = false → MembersOk p.ctx p.stage.leaving))
    (G := fun _ e => e.failsSetUp = false ∧ e.AllocOk) ⟨?_, fun _ => ⟨?_, ?_, ?_⟩⟩
    (fun p e p' hi he hs => ⟨hi.1.step he.1 hs, fun hended => ?_⟩) fun m hm => ⟨hset m hm, hok m hm⟩
  · exact descriptorsOk_of_run h0 .start (List.forall_mem_nil _)
  · refine ⟨hinit.serverOk, fun u hu => ?_⟩
    change u ∈ ctx₀.users at hu
    rw [hinit.users] at hu
    cases hu
  · intro grp hg
    change grp ∈ ctx₀.groups at hg
    rw [hinit.groups.contents.1] at hg
    cases hg
  · intro fd hl
    cases hl
  · have heffect := processStep_effect hs
    have hbefore := heffect.ended_before hended
    exact (hi.2 hbefore).step (hi.1.wf hbefore) he.2 heffect hended

/-- No stale members. While the loop is not in the middle of an event, the entries of
`client_fds` that are not free are distinct and are the connections that were
accepted and not closed since; who is in a group is one of them, with a user logged
in on it; and a connection that is accepted next is in no group. -/
theorem no_stale_members {alloc : ℕ → Bool} {ctx₀ : ServerContext} {p : Process}
    {moves : List ProcessMove} (h0 : serverCreate alloc = some ctx₀)
    (hr : Run ProcessStep (booted ctx₀) moves p) (hok : ∀ m ∈ moves, m.label.AllocOk)
    (hsettled : p.stage.settled = true) :
    (p.ctx.clientFds.filter fun fd => decide (0 ≤ fd)).Nodup ∧
      (∀ fd, 0 ≤ fd ∧ fd ∈ p.ctx.clientFds ↔ Accepted p.log fd) ∧
      (∀ grp ∈ p.ctx.groups, ∀ fd ∈ grp.members,
        (0 ≤ fd ∧ fd ∈ p.ctx.clientFds) ∧ Active p.ctx.users fd) ∧
      ∀ (env : Env) (fd : Int) (c : Conn) (p' : Process),
        ProcessStep p (.accept env (some (fd, c))) p' → ∀ grp ∈ p'.ctx.groups, fd ∉ grp.members := by
  obtain ⟨hended, hrej, _, hdestroy, hdone⟩ := ServerStage.of_settled hsettled
  have hset : ∀ m ∈ moves, m.label.failsSetUp = false := by
    rcases setUp_of_run (serverCreate_initial h0).clientFds_neg hr with ⟨hset, -⟩ | ⟨-, hfailed⟩
    · exact hset
    · cases hfailed with
      | closed hstage _ _ _ => exact absurd hstage hdestroy
      | done hstage _ => exact absurd hstage hdone
  obtain ⟨hdescr, hmembers⟩ := membersOk_of_run h0 hr hok hset
  have hwf := hdescr.wf hended
  have hheld := (hmembers hended).held
  refine ⟨hwf.slots.nodup, fun fd => ?_, hheld, fun env fd c p' hs => ?_⟩
  · rw [← hdescr.logged.accepted fd, hwf.conns fd, hrej]
    simp
  · cases processStep_effect hs with
    | moves hc => cases hc
    | setUpFails hfails => rcases hfails with ⟨-, he⟩ | ⟨-, he⟩ <;> cases he
    | @accepts ready _ _ _ _ _ hfree =>
      intro grp hg hfd
      have hgroups : (p.accepted env ready fd c).ctx.groups = p.ctx.groups := by
        rcases p.accepted_cases env ready fd c with ⟨i, x, -, -, heq⟩ | ⟨-, heq⟩ <;> rw [heq] <;> rfl
      have hopen := (hwf.conns fd).mpr (Or.inl (hheld grp (hgroups ▸ hg) fd hfd).1)
      exact Process.files_ne_none hopen hfree

/-- A request that arrives in two pieces on the connection in slot 0, and its reply. -/
def served (fd : Int) (msg : TLVMessage) (reply : ℕ) : List OsEvent :=
  [.client fd (.send (msg.frame.take msg.outLen.toNat)), .next, .select [fd], .next, .read 2,
    .read msg.length.toNat, .dispatch .quiet .blank, .write reply, .next] ++
      List.replicate maxClients .next

/-- A client that registers, logs in and founds a group. -/
def founder : List OsEvent :=
  List.flatten [listeningEvents, .accept .quiet (some (4, ⟨[], false, false⟩)) :: idleSlots,
    served 4 (authMsg .register 0) 3, served 4 (authMsg .login 0) 3,
    served 4 (groupMsg .createGroup 0) 14]

theorem served_allocOk (fd : Int) (msg : TLVMessage) (reply : ℕ) :
    ∀ e ∈ served fd msg reply, e.AllocOk := by
  simp [served, or_imp, forall_and, OsEvent.AllocOk, Env.quiet_allocOk]

theorem founder_allocOk : ∀ e ∈ founder, e.AllocOk := by
  simp only [founder, List.flatten_cons, List.flatten_nil, List.append_nil, List.forall_mem_append,
    List.forall_mem_cons, List.cons_append]
  refine ⟨?_, Env.quiet_allocOk, ?_, served_allocOk _ _ _, served_allocOk _ _ _,
    served_allocOk _ _ _⟩
  · simp [listeningEvents, OsEvent.AllocOk]
  · simp [idleSlots, OsEvent.AllocOk]

theorem no_stale_members_founder :
    (processAfter founder).ctx.groups.map (·.members) = [[4]] ∧
      ∀ grp ∈ (processAfter founder).ctx.groups, ∀ fd ∈ grp.members,
        (0 ≤ fd ∧ fd ∈ (processAfter founder).ctx.clientFds) ∧
          Active (processAfter founder).ctx.users fd :=
  ⟨by decide +kernel, (no_stale_members serverCreate_started
    (run_process founder (by decide +kernel))
    (fun m hm => founder_allocOk _ (label_mem_of_attempts m hm)) (by decide +kernel)).2.2.1⟩

end MeshChat.Server
