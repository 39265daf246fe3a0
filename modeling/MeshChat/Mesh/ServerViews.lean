import MeshChat.Server.Views

/-!
# Views under the server loop

One event of the loop changes the view of one descriptor at most: a request
changes it as the abstract protocol says, the end of a connection empties it,
and a new connection finds it empty.
-/
namespace MeshChat
open Server

/-- What holds of the server while its clients follow their screens. A
descriptor with groups or users is that of an open connection. -/
structure ServerInv (ctx : ServerContext) : Prop where
  ok : ServerOk ctx
  bindings : Bindings ctx.users ctx.clientFds
  homed : ∀ fd, serverView ctx fd ≠ .empty → 0 ≤ fd ∧ fd ∈ ctx.clientFds

/-- It depends on the tables only. -/
theorem Server.ServerOk.sameTables {ctx ctx' : ServerContext} (h : ServerOk ctx)
    (husers : ctx'.userMap = ctx.userMap) (hgroups : ctx'.groupMap = ctx.groupMap)
    (hqueue : ctx'.mcastQueue = ctx.mcastQueue) : ServerOk ctx' := by
  obtain ⟨_, _, _, userMap, groupMap, mcastQueue⟩ := ctx'
  subst husers hgroups hqueue
  exact ⟨h.keyed, ⟨h.groups.keyed, h.groups.groups_eq, h.groups.queue, h.groups.size⟩, h.table⟩

theorem Server.Initial.serverInv {ctx : ServerContext} (h : Initial ctx) (listenFd : Int) :
    ServerInv (listening ctx listenFd) where
  ok := h.serverOk.sameTables rfl rfl rfl
  bindings := h.bindings _
  homed fd hne := by
    refine absurd ?_ hne
    have hgroups : ctx.groups = [] := h.groups.contents.1
    change View.mk (memberships ctx.groups fd) (sessions ctx.users fd) = _
    rw [hgroups, h.users]
    simp [memberships, sessions, View.empty]

/-- A request with its effect on both tables, as a change of views. -/
theorem serverView_step {ctx ctx' : ServerContext} (h : ServerOk ctx) {env : Env}
    (henv : env.AllocOk) {fd : Int} {req : Request} {reply : Reply} {groups' : List GroupRecord}
    {pool' : List McastEntry} (hk : Keyed UserRecord.username ctx'.userMap)
    (hgroups : HasGroups ctx' groups' pool')
    (hsession : SessionStep env fd ctx.users req reply ctx'.users)
    (hgroup : GroupStep env (storesGroup env ctx) fd (authenticated ctx.users fd) ctx.groups ctx.pool
      req reply groups' pool')
    (hends : req.endsSession → CarriedOnce ctx.users fd ∧ fd ≠ -1) :
    ServerOk ctx' ∧ serverView ctx' fd = (serverView ctx fd).after req reply ∧
      ∀ fd', fd' ≠ fd → serverView ctx' fd' = serverView ctx fd' := by
  obtain ⟨hown, hothers⟩ := hgroup.memberships h.table (henv _)
  obtain ⟨hown', hothers'⟩ := hsession.sessions h.keyed.nodup hends
  have htable := hgroup.tableOk h.table (noLoss_of_allocOk henv _ _ _ _ _ _)
  refine ⟨.of_groups hk hgroups htable, ?_, fun fd' hne => ?_⟩
  · rw [serverView, hgroups.contents.1, hown, hown']
    rfl
  · rw [serverView, hgroups.contents.1, hothers fd' hne, hothers' fd' hne]
    rfl

section Events
variable {ctx ctx' : ServerContext} {env : Env} {fd : Int} {sent : List Sent}

/-- A request keeps the invariant if it is not a second login, and is a change
of the view of the descriptor that asks. -/
theorem ServerInv.request (h : ServerInv ctx) (henv : env.AllocOk) {msg : TLVMessage}
    (hfree : LoginFree ctx.users (.request fd msg))
    (hs : runEvent env ctx (.request fd msg) = some (ctx', sent)) :
    ServerInv ctx' ∧
      (∀ fd' ∈ ctx.clientFds, fd' ≠ fd → 0 ≤ fd' → fd' ∈ ctx'.clientFds) ∧
      (¬ (dispatchMessage env ctx fd msg).2.2 < 0 → fd ∈ ctx'.clientFds) ∧
      ∃ reply, Sends fd reply sent ∧
        serverView ctx' fd = (serverView ctx fd).after (.ofMsg msg) reply ∧
        (∀ fd', fd' ≠ fd → serverView ctx' fd' = serverView ctx fd') ∧
        ∀ name addr, Request.ofMsg msg = .createGroup (some name) → reply = .groupInfo addr →
          ∀ x ∈ (serverView ctx fd).groups, x.1 ≠ name := by
  have hstep : LoopStep ctx ⟨env, .request fd msg, sent⟩ ctx' := hs
  have heffect := loopStep_effect h.ok.keyed hstep
  have hbindings := h.bindings.step h.ok.keyed hfree hstep
  obtain ⟨⟨hpos, hheld⟩, hs⟩ := Option.ite_none_right_eq_some.mp hs
  generalize hslot : findSlot ctx.clientFds (fun c => decide (c = fd)) = slot at hs
  have hctx : (serveClient env ctx slot fd msg).1 = ctx' := congrArg Prod.fst (Option.some.inj hs)
  have hsent : (dispatchMessage env ctx fd msg).2.1 = sent :=
    (serveClient_sent ..).symm.trans (congrArg Prod.snd (Option.some.inj hs))
  obtain ⟨reply, groups', pool', hk, hgroups, hreply, _, hsession, hgroup⟩ :=
    dispatch_spec h.ok.groups h.ok.table h.ok.keyed env fd msg
  obtain ⟨⟨_, hfds, _⟩, _⟩ := dispatch_sessions h.ok.keyed env fd msg
  obtain ⟨hok, hown, hothers⟩ := serverView_step h.ok henv hk hgroups hsession hgroup
    fun _ => ⟨h.bindings.carriedOnce hpos, by omega⟩
  obtain ⟨hok', hviews, hopen⟩ : ServerOk ctx' ∧
      (∀ fd', serverView ctx' fd' = serverView (dispatchMessage env ctx fd msg).1 fd') ∧
      (¬ (dispatchMessage env ctx fd msg).2.2 < 0 → ctx'.clientFds = ctx.clientFds) := by
    rw [← hctx, serveClient]
    split
    · exact ⟨hok.sameTables rfl rfl rfl, fun _ => rfl, fun h => absurd ‹_› h⟩
    · exact ⟨hok, fun _ => rfl, fun _ => hfds⟩
  have hkept : ∀ fd' ∈ ctx.clientFds, fd' ≠ fd → 0 ≤ fd' → fd' ∈ ctx'.clientFds :=
    fun fd' hfd' hne hpos' => heffect.open_kept fd' hfd' hpos' fun hend => hne hend.1.symm
  refine ⟨⟨hok', hbindings, fun fd' hne => ?_⟩, hkept, fun hret => (hopen hret).symm ▸ hheld, reply,
    hsent ▸ hreply, (hviews fd).trans hown, fun fd' hne => (hviews fd').trans (hothers fd' hne), ?_⟩
  · rw [hviews] at hne
    by_cases hfd' : fd' = fd
    · subst hfd'
      refine ⟨hpos, ?_⟩
      by_cases hret : (dispatchMessage env ctx fd' msg).2.2 < 0
      · refine absurd ?_ hne
        have hexit : msg.tag = MessageTag.exit.code := by
          rw [← dispatch_returns env ctx fd' msg]
          rcases dispatch_returns_range env ctx fd' msg with h | h <;> omega
        rw [hown, Request.ofMsg, hexit, MessageTag.ofCode_code]
        rfl
      · rwa [hopen hret]
    · rw [hothers fd' hfd'] at hne
      obtain ⟨hpos', hmem⟩ := h.homed fd' hne
      exact ⟨hpos', hkept fd' hmem hfd' hpos'⟩
  · rintro name addr hreq rfl
    rw [hreq] at hgroup
    exact hgroup.created_new

/-- The end of a connection empties its view. -/
theorem ServerInv.eof (h : ServerInv ctx) (henv : env.AllocOk)
    (hs : runEvent env ctx (.eof fd) = some (ctx', sent)) :
    ServerInv ctx' ∧
      (∀ fd' ∈ ctx.clientFds, fd' ≠ fd → 0 ≤ fd' → fd' ∈ ctx'.clientFds) ∧
      serverView ctx' fd = .empty ∧ ∀ fd', fd' ≠ fd → serverView ctx' fd' = serverView ctx fd' := by
  have hstep : LoopStep ctx ⟨env, .eof fd, sent⟩ ctx' := hs
  have heffect := loopStep_effect h.ok.keyed hstep
  have hbindings := h.bindings.step h.ok.keyed
    (show LoginFree ctx.users (LoopLabel.mk env (.eof fd) sent).event from trivial) hstep
  obtain ⟨⟨hpos, hheld⟩, hs⟩ := Option.ite_none_right_eq_some.mp hs
  generalize findSlot ctx.clientFds (fun c => decide (c = fd)) = slot at hs
  have hctx : setSlot (clientDisconnected env ctx fd) slot (-1) = ctx' :=
    congrArg Prod.fst (Option.some.inj hs)
  obtain ⟨reply, groups', pool', hk, hgroups, _, hsession, hgroup⟩ :=
    runCall_spec h.ok.groups h.ok.table h.ok.keyed env (.disconnect fd)
  obtain ⟨hok, hown, hothers⟩ := serverView_step h.ok henv hk hgroups hsession hgroup
    fun _ => ⟨h.bindings.carriedOnce hpos, by change fd ≠ -1; omega⟩
  have hviews : ∀ fd', serverView ctx' fd' = serverView (clientDisconnected env ctx fd) fd' :=
    fun fd' => by rw [← hctx]; rfl
  have hkept : ∀ fd' ∈ ctx.clientFds, fd' ≠ fd → 0 ≤ fd' → fd' ∈ ctx'.clientFds :=
    fun fd' hfd' hne hpos' => heffect.open_kept fd' hfd' hpos' (Ne.symm hne)
  refine ⟨⟨hctx ▸ hok.sameTables rfl rfl rfl, hbindings, fun fd' hne => ?_⟩, hkept, (hviews fd).trans hown,
    fun fd' hne => (hviews fd').trans (hothers fd' hne)⟩
  by_cases hfd' : fd' = fd
  · subst hfd'
    exact absurd ((hviews fd').trans hown) hne
  · rw [(hviews fd').trans (hothers fd' hfd')] at hne
    obtain ⟨hpos', hmem⟩ := h.homed fd' hne
    exact ⟨hpos', hkept fd' hmem hfd' hpos'⟩

/-- A new connection starts with an empty view. -/
theorem ServerInv.accept (h : ServerInv ctx)
    (hs : runEvent env ctx (.accept fd) = some (ctx', sent)) :
    ServerInv ctx' ∧ 0 ≤ fd ∧ fd ∉ ctx.clientFds ∧ serverView ctx' fd = .empty ∧
      (∀ fd' ∈ ctx.clientFds, 0 ≤ fd' → fd' ∈ ctx'.clientFds) ∧
      ∀ fd', serverView ctx' fd' = serverView ctx fd' := by
  have hstep : LoopStep ctx ⟨env, .accept fd, sent⟩ ctx' := hs
  have heffect := loopStep_effect h.ok.keyed hstep
  have hbindings := h.bindings.step h.ok.keyed
    (show LoginFree ctx.users (LoopLabel.mk env (.accept fd) sent).event from trivial) hstep
  obtain ⟨⟨hpos, _, hnew⟩, hs⟩ := Option.ite_none_right_eq_some.mp hs
  have hctx : (acceptClient env ctx fd).1 = ctx' := congrArg Prod.fst (Option.some.inj hs)
  obtain ⟨hok, hviews⟩ : ServerOk ctx' ∧ ∀ fd', serverView ctx' fd' = serverView ctx fd' := by
    rw [← hctx, acceptClient]
    split
    · exact ⟨h.ok.sameTables rfl rfl rfl, fun _ => rfl⟩
    · exact ⟨h.ok, fun _ => rfl⟩
  have hkept : ∀ fd' ∈ ctx.clientFds, 0 ≤ fd' → fd' ∈ ctx'.clientFds :=
    fun fd' hfd' hpos' => heffect.open_kept fd' hfd' hpos' id
  refine ⟨⟨hok, hbindings, fun fd' hne => ?_⟩, hpos, hnew, ?_, hkept, hviews⟩
  · rw [hviews] at hne
    obtain ⟨hpos', hmem⟩ := h.homed fd' hne
    exact ⟨hpos', hkept fd' hmem hpos'⟩
  · rw [hviews]
    by_contra hne
    exact hnew (h.homed fd hne).2

end Events

/-- A descriptor without users in its view is free for a login. -/
theorem ServerInv.loginFree {ctx : ServerContext} (h : ServerInv ctx) {fd : Int} {msg : TLVMessage}
    (hfd : 0 ≤ fd) (hview : ∀ auth, Request.ofMsg msg = .login auth → (serverView ctx fd).users = ∅) :
    LoginFree ctx.users (.request fd msg) := by
  rintro ⟨u, _, hreq, _⟩ v hv rfl
  have hactive : v.loggedIn = 1 := (h.bindings.flag v hv).mpr (by omega)
  have hmem : v.username ∈ (serverView ctx v.socketFd).users := ⟨v, hv, by omega, rfl, rfl⟩
  rw [hview _ hreq] at hmem
  exact hmem

end MeshChat
