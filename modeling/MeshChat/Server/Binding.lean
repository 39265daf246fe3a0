import MeshChat.Server.Loop

/-!
# Sessions and descriptors

Who may act on a descriptor. `cleanup_client` clears the first record that
carries the descriptor, and nothing stops a connection from logging in twice;
so what the table promises holds of the runs in which no descriptor gets a
second record, and is lost in the others.
-/
namespace MeshChat.Server
open Runs

section ClearHolder
variable {users : List UserRecord} {fd : Int} {u u' : UserRecord}

/-- At most one record carries `fd`. -/
def CarriedOnce (users : List UserRecord) (fd : Int) : Prop :=
  ∀ u ∈ users, ∀ v ∈ users, u.socketFd = fd → v.socketFd = fd → u = v

instance (users : List UserRecord) (fd : Int) : Decidable (CarriedOnce users fd) :=
  inferInstanceAs (Decidable (∀ u ∈ users, ∀ v ∈ users, u.socketFd = fd → v.socketFd = fd → u = v))

/-- A record afterwards is a record from before, or was cleared. -/
theorem mem_clearHolder (h : u' ∈ clearHolder users fd) :
    u' ∈ users ∨ ∃ u ∈ users, u' = u.cleared := by
  unfold clearHolder at h
  cases hholder : holder users fd with
  | none => exact Or.inl (by rwa [hholder] at h)
  | some w =>
    rw [hholder] at h
    obtain ⟨v, hv, rfl⟩ := KeyedList.mem_edit.mp h
    split
    · exact Or.inr ⟨v, hv, rfl⟩
    · exact Or.inl hv

/-- The only record on `fd` does not survive. -/
theorem socketFd_ne_of_mem_clearHolder (honce : CarriedOnce users fd) (hfd : fd ≠ -1)
    (h : u' ∈ clearHolder users fd) : u'.socketFd ≠ fd := by
  unfold clearHolder at h
  cases hholder : holder users fd with
  | none =>
    rw [hholder] at h
    exact holder_eq_none.mp hholder u' h
  | some w =>
    rw [hholder] at h
    obtain ⟨hw, hwfd⟩ := holder_eq_some hholder
    obtain ⟨v, hv, rfl⟩ := KeyedList.mem_edit.mp h
    split
    · exact fun he => hfd he.symm
    · rename_i hne
      exact fun he => hne (congrArg UserRecord.username (honce v hv w hw he hwfd))

theorem cleared_mem_clearHolder (honce : CarriedOnce users fd) (hu : u ∈ users)
    (hufd : u.socketFd = fd) : u.cleared ∈ clearHolder users fd := by
  unfold clearHolder
  cases hholder : holder users fd with
  | none => exact absurd hufd (holder_eq_none.mp hholder u hu)
  | some w =>
    obtain ⟨hw, hwfd⟩ := holder_eq_some hholder
    obtain rfl := honce u hu w hw hufd hwfd
    exact KeyedList.mem_edit.mpr ⟨u, hu, (if_pos rfl).symm⟩

end ClearHolder

/-- A login request on `fd` was answered with success. -/
def LoginAnswered (fd : Int) (m : LoopMove) : Prop :=
  ∃ msg, m.label.event = .request fd msg ∧ msg.tag = MessageTag.login.code ∧
    ∃ reply, m.label.sent = [⟨fd, reply⟩] ∧ reply.tag = MessageTag.success.code

/-- The event neither accepts a connection as `fd` nor logs out or exits on it. -/
def StaysOpen (fd : Int) (m : LoopMove) : Prop :=
  ¬ m.label.event.accepts fd ∧ ∀ msg, m.label.event = .request fd msg →
    msg.tag ≠ MessageTag.logout.code ∧ msg.tag ≠ MessageTag.exit.code

/-- The holder of `fd` logged in, and the connection has been open since. -/
def LoggedInSince (fd : Int) (past : List LoopMove) : Prop :=
  Since (StaysOpen fd) (LoginAnswered fd) past

/-- A session that ends has at most one record. -/
def EndsOneRecord (users : List UserRecord) : Event → Prop
  | .accept _ => True
  | .request fd msg => (Request.ofMsg msg).endsSession → CarriedOnce users fd
  | .eof fd => CarriedOnce users fd

instance (users : List UserRecord) : DecidablePred (EndsOneRecord users)
  | .accept _ => isTrue trivial
  | .request fd msg =>
      inferInstanceAs (Decidable ((Request.ofMsg msg).endsSession → CarriedOnce users fd))
  | .eof fd => inferInstanceAs (Decidable (CarriedOnce users fd))

theorem EndsOneRecord.carriedOnce {users : List UserRecord} {event : Event} {fd : Int}
    (h : EndsOneRecord users event) (hends : event.ends fd) : CarriedOnce users fd := by
  cases event with
  | accept => cases hends
  | request =>
    obtain ⟨rfl, hreq⟩ := hends
    exact h hreq
  | eof =>
    obtain rfl := hends
    exact h

/-- Every record on a descriptor belongs to who logged in there. -/
structure Authorised (past : List LoopMove) (ctx : ServerContext) : Prop where
  keyed : Keyed UserRecord.username ctx.userMap
  carried : ∀ u ∈ ctx.users, u.socketFd ≠ -1 →
    0 ≤ u.socketFd ∧ u.socketFd ∈ ctx.clientFds ∧ LoggedInSince u.socketFd past

theorem Authorised.step {past : List LoopMove} {ctx ctx' : ServerContext} {label : LoopLabel}
    (h : Authorised past ctx) (hends : EndsOneRecord ctx.users label.event) (hs : LoopStep ctx label ctx') :
    Authorised (past ++ [⟨ctx, label, ctx'⟩]) ctx' := by
  have heffect := loopStep_effect h.keyed hs
  have hold : ∀ u ∈ ctx.users, ¬ label.event.ends u.socketFd → u.socketFd ≠ -1 →
      0 ≤ u.socketFd ∧ u.socketFd ∈ ctx'.clientFds ∧
        LoggedInSince u.socketFd (past ++ [⟨ctx, label, ctx'⟩]) := by
    intro u hu hopen hne
    obtain ⟨hpos, hheld, hsince⟩ := h.carried u hu hne
    refine ⟨hpos, heffect.open_kept _ hheld hpos hopen, hsince.snoc ⟨fun haccepts => ?_, ?_⟩⟩
    · exact heffect.accepted _ haccepts hheld
    · intro msg hevent
      rw [hevent] at hopen
      rw [← not_or, ← Request.ofMsg_endsSession]
      exact fun hreq => hopen ⟨rfl, hreq⟩
  refine ⟨heffect.keyed, fun u' hu' hne => ?_⟩
  have husers := heffect.users
  generalize hafter : ctx'.users = users' at husers hu'
  cases husers with
  | quiet hquiet => exact hold u' hu' (hquiet _) hne
  | registered hquiet hnew hsplit =>
    rcases List.mem_cons.mp (List.perm_middle.mem_iff.mp hu') with rfl | hu'
    · exact absurd rfl hne
    · exact hold u' (hsplit ▸ hu') (hquiet _) hne
  | loggedIn hevent hreq hsent hu hname hpass hin =>
    rename_i fd msg name pass u
    have hquiet : ∀ fd', ¬ label.event.ends fd' := by
      rw [hevent]
      rintro fd' ⟨_, hends⟩
      rw [hreq] at hends
      exact hends
    obtain ⟨v, hv, rfl⟩ := KeyedList.mem_edit.mp hu'
    split
    · obtain ⟨hpos, hheld⟩ := heffect.requested fd msg hevent
      refine ⟨hpos, heffect.open_kept fd hheld hpos (hquiet fd), since_start ?_⟩
      obtain ⟨reply, hreply, hsuccess⟩ := hsent
      exact ⟨msg, hevent, Request.tag_of_ofMsg_login hreq, reply, hreply, hsuccess.1⟩
    · rename_i hne'
      rw [if_neg hne'] at hne
      exact hold v hv (hquiet _) hne
  | ended hend =>
    rename_i fd
    rcases mem_clearHolder hu' with hmem | ⟨u, _, rfl⟩
    · refine hold u' hmem (fun hend' => ?_) hne
      have hfd := Event.ends_unique hend' hend
      exact socketFd_ne_of_mem_clearHolder (hends.carriedOnce hend) (hfd ▸ hne) hu' hfd
    · exact absurd rfl hne

theorem Initial.authorised {ctx : ServerContext} (h : Initial ctx) (listenFd : Int) :
    Authorised [] (listening ctx listenFd) where
  keyed := h.keyed
  carried u hu := by
    change u ∈ ctx.users at hu
    rw [h.users] at hu
    cases hu

/-- Authorisation of group operations: in a run in which every session that
ends has one record, an address is only ever sent to a descriptor whose present
holder logged in on it and has neither logged out nor exited since. -/
theorem group_request_authorised {alloc : ℕ → Bool} {ctx₀ ctx : ServerContext} {listenFd : Int}
    {moves : List LoopMove} (h0 : serverCreate alloc = some ctx₀)
    (hr : Run LoopStep (listening ctx₀ listenFd) moves ctx)
    (hends : ∀ m ∈ moves, EndsOneRecord m.pre.users m.label.event) :
    ∀ before m after, moves = before ++ m :: after → ∀ fd msg, m.label.event = .request fd msg →
      (msg.tag = MessageTag.createGroup.code ∨ msg.tag = MessageTag.joinGroup.code) →
      (∃ sent ∈ m.label.sent, sent.msg.tag = MessageTag.groupInfo.code) →
      LoggedInSince fd before := by
  rintro before m after rfl fd msg hevent _ hinfo
  obtain ⟨hbefore, hstep⟩ := hr.cut
  have hauth : Authorised before m.pre :=
    hbefore.history ((serverCreate_initial h0).authorised listenFd)
      (fun _ _ _ _ => Authorised.step) fun m hm => hends m (List.mem_append_left _ hm)
  have heffect := loopStep_effect hauth.keyed hstep
  obtain ⟨hpos, _⟩ := heffect.requested fd msg hevent
  obtain ⟨u, hu, _⟩ := authenticated_iff.mp (heffect.informed fd msg hevent hinfo)
  obtain ⟨hmem, rfl⟩ := holder_eq_some hu
  exact (hauth.carried u hmem (by omega)).2.2

/-- The first user logs in on descriptor 5, logs out and logs in again. -/
def relogin : List Event :=
  [.accept 5, .request 5 (authMsg .register 0), .request 5 (authMsg .login 0),
    .request 5 (simpleMsg .logout), .request 5 (authMsg .login 0)]

theorem group_request_authorised_relogin :
    LoggedInSince 5 (quietEvents (listening started 3) relogin) :=
  group_request_authorised serverCreate_started
    (run_quietEvents (listening started 3)
      (relogin ++ [.request 5 (groupMsg .createGroup 0)]) (by decide +kernel))
    (by decide +kernel) _
    ⟨_, (quietEvent _ (.request 5 (groupMsg .createGroup 0))).1, _⟩ [] rfl 5
    (groupMsg .createGroup 0) rfl (Or.inl (by decide)) (by decide +kernel)

/-- Two users register, and both log in on descriptor 5. -/
def doubleLogin : List Event :=
  [.accept 5, .request 5 (authMsg .register 0), .request 5 (authMsg .register 1),
    .request 5 (authMsg .login 0), .request 5 (authMsg .login 1)]

/-- After a second login on the same connection a logout leaves a record behind,
and the connection can still create a group. -/
theorem group_request_unauthorised :
    ¬ ∀ (alloc : ℕ → Bool) (ctx₀ ctx : ServerContext) (listenFd : Int) (moves : List LoopMove),
      serverCreate alloc = some ctx₀ → Run LoopStep (listening ctx₀ listenFd) moves ctx →
      ∀ before m after, moves = before ++ m :: after → ∀ fd msg, m.label.event = .request fd msg →
        (msg.tag = MessageTag.createGroup.code ∨ msg.tag = MessageTag.joinGroup.code) →
        (∃ sent ∈ m.label.sent, sent.msg.tag = MessageTag.groupInfo.code) →
        LoggedInSince fd before := by
  intro h
  have hr := run_quietEvents (listening started 3) (doubleLogin ++
    [.request 5 (simpleMsg .logout), .request 5 (groupMsg .createGroup 0)]) (by decide +kernel)
  have hsince := h _ _ _ 3 _ serverCreate_started hr
    (quietEvents (listening started 3) doubleLogin ++
      [⟨_, (quietEvent _ (.request 5 (simpleMsg .logout))).1, _⟩])
    ⟨_, (quietEvent _ (.request 5 (groupMsg .createGroup 0))).1, _⟩ [] rfl 5
    (groupMsg .createGroup 0) rfl (Or.inl (by decide)) (by decide +kernel)
  rcases since_snoc_iff.mp hsince with ⟨msg, hevent, htag, _⟩ | ⟨⟨_, hopen⟩, _⟩
  · obtain ⟨_, rfl⟩ := Event.request.inj hevent
    exact absurd htag (by decide)
  · exact (hopen (simpleMsg .logout) rfl).1 (by decide)

/-- A record is active exactly when it carries a descriptor, which is that of
an open connection and carried by no other record. -/
structure Bound (users : List UserRecord) (clientFds : List Int) : Prop where
  flag : ∀ u ∈ users, u.loggedIn = 1 ↔ u.socketFd ≠ -1
  held : ∀ u ∈ users, u.loggedIn = 1 → u.socketFd ∈ clientFds
  alone : ∀ u ∈ users, u.loggedIn = 1 → ∀ v ∈ users, v.socketFd = u.socketFd → v = u

/-- After the end of a session on `fd` the record of the user that had logged in
there is inactive, and its user can log in again on any connection. -/
def FreesRecord (m : LoopMove) : Prop :=
  ∀ fd, m.label.event.ends fd → ∀ u ∈ m.pre.users, u.socketFd = fd →
    u.cleared ∈ m.post.users ∧
      ∀ env fd' msg, Request.ofMsg msg = .login (some (u.username, u.password)) →
        Sends fd' .success (dispatchMessage env m.post fd' msg).2.1

/-- A login that is going to succeed comes on a descriptor that no record carries. -/
def LoginFree (users : List UserRecord) : Event → Prop
  | .request fd msg =>
      (∃ u ∈ users, Request.ofMsg msg = .login (some (u.username, u.password)) ∧
        u.loggedIn = 0) → ∀ v ∈ users, v.socketFd ≠ fd
  | _ => True

instance (users : List UserRecord) : DecidablePred (LoginFree users)
  | .request fd msg => inferInstanceAs (Decidable
      ((∃ u ∈ users, Request.ofMsg msg = .login (some (u.username, u.password)) ∧
        u.loggedIn = 0) → ∀ v ∈ users, v.socketFd ≠ fd))
  | .accept _ | .eof _ => isTrue trivial

theorem username_inj {ctx : ServerContext} (hk : Keyed UserRecord.username ctx.userMap)
    {u v : UserRecord} (hu : u ∈ ctx.users) (hv : v ∈ ctx.users) (h : u.username = v.username) :
    u = v :=
  List.inj_on_of_nodup_map hk.nodup hu hv h

/-- The request of a registered user that is not logged in is a login. -/
theorem SessionStep.of_login {ctx : ServerContext} (hk : Keyed UserRecord.username ctx.userMap)
    {u : UserRecord} (hu : u ∈ ctx.users) (hin : u.loggedIn = 0) {env : Env} {fd : Int}
    {reply : Reply} {users' : List UserRecord}
    (h : SessionStep env fd ctx.users (.login (some (u.username, u.password))) reply users') :
    reply = .success ∧ users' = editUser ctx.users u.username (.bound fd) := by
  generalize hreq : Request.login (some (u.username, u.password)) = req at h
  have hsame : ∀ {v : UserRecord} {name : Username} {pass : Password}, v ∈ ctx.users →
      v.username = name → req = .login (some (name, pass)) → v = u ∧ pass = u.password := by
    intro v name pass hv hname he
    obtain ⟨hname', hpass⟩ : u.username = name ∧ u.password = pass := by simpa [← hreq] using he
    exact ⟨username_inj hk hv hu (hname.trans hname'.symm), hpass.symm⟩
  cases h with
  | loginUnknown hnew =>
    obtain ⟨hname, _⟩ : u.username = _ ∧ u.password = _ := by simpa using hreq
    exact absurd hname (hnew u hu)
  | loginWrong hv hname hne =>
    obtain ⟨rfl, rfl⟩ := hsame hv hname rfl
    exact absurd rfl hne
  | loginActive hv hname _ hin' =>
    obtain ⟨rfl, rfl⟩ := hsame hv hname rfl
    exact absurd hin hin'
  | loggedIn hv hname _ _ =>
    obtain ⟨rfl, rfl⟩ := hsame hv hname rfl
    exact ⟨rfl, by rw [hname]⟩
  | ended hends => rw [← hreq] at hends; cases hends
  | other hleaves => rw [← hreq] at hleaves; cases hleaves
  | _ => cases hreq

/-- A registered user that is not logged in can log in anywhere. -/
theorem login_succeeds {ctx : ServerContext} (hk : Keyed UserRecord.username ctx.userMap)
    {u : UserRecord} (hu : u ∈ ctx.users) (hin : u.loggedIn = 0) (env : Env) (fd : Int)
    {msg : TLVMessage} (hreq : Request.ofMsg msg = .login (some (u.username, u.password))) :
    Sends fd .success (dispatchMessage env ctx fd msg).2.1 := by
  obtain ⟨_, ⟨_, reply, hsent, hstep⟩ | ⟨hleaves, _⟩⟩ := dispatch_sessions hk env fd msg
  · rw [hreq] at hstep
    exact (hstep.of_login hk hu hin).1 ▸ hsent
  · rw [hreq] at hleaves
    cases hleaves

/-- What holds beside `Bound`: flags are 0 or 1, descriptors are not negative. -/
structure Bindings (users : List UserRecord) (clientFds : List Int) : Prop
    extends Bound users clientFds where
  flags : ∀ u ∈ users, u.loggedIn = 0 ∨ u.loggedIn = 1
  fds : ∀ u ∈ users, u.socketFd ≠ -1 → 0 ≤ u.socketFd

namespace Bindings
variable {users : List UserRecord} {clientFds clientFds' : List Int} {fd : Int}

theorem carriedOnce (h : Bindings users clientFds) (hfd : 0 ≤ fd) : CarriedOnce users fd := by
  intro u hu v hv hufd hvfd
  have hactive : u.loggedIn = 1 := (h.flag u hu).mpr (by omega)
  exact (h.alone u hu hactive v hv (hvfd.trans hufd.symm)).symm

/-- The connections may change as long as the active records keep theirs. -/
theorem reopen (h : Bindings users clientFds)
    (hkeep : ∀ u ∈ users, u.loggedIn = 1 → u.socketFd ∈ clientFds') : Bindings users clientFds' :=
  ⟨⟨h.flag, hkeep, h.alone⟩, h.flags, h.fds⟩

theorem register {front back : List UserRecord} (h : Bindings (front ++ back) clientFds)
    (name : Username) (pass : Password) :
    Bindings (front ++ .fresh name pass :: back) clientFds := by
  have hmem : ∀ {u : UserRecord}, u ∈ front ++ .fresh name pass :: back →
      u = .fresh name pass ∨ u ∈ front ++ back := fun hu =>
    List.mem_cons.mp (List.perm_middle.mem_iff.mp hu)
  refine ⟨⟨fun u hu => ?_, fun u hu hactive => ?_, fun u hu hactive v hv hvu => ?_⟩,
    fun u hu => ?_, fun u hu hne => ?_⟩
  · rcases hmem hu with rfl | hu
    · simp [UserRecord.fresh]
    · exact h.flag u hu
  · rcases hmem hu with rfl | hu
    · cases hactive
    · exact h.held u hu hactive
  · rcases hmem hu with rfl | hu
    · cases hactive
    · rcases hmem hv with rfl | hv
      · exact absurd hvu.symm ((h.flag u hu).mp hactive)
      · exact h.alone u hu hactive v hv hvu
  · rcases hmem hu with rfl | hu
    · exact Or.inl rfl
    · exact h.flags u hu
  · rcases hmem hu with rfl | hu
    · exact absurd rfl hne
    · exact h.fds u hu hne

theorem login (h : Bindings users clientFds) (hnames : (users.map (·.username)).Nodup)
    (name : Username) (hfd : 0 ≤ fd) (hheld : fd ∈ clientFds)
    (hfree : ∀ v ∈ users, v.socketFd ≠ fd) :
    Bindings (editUser users name (.bound fd)) clientFds := by
  have hmem : ∀ {u : UserRecord}, u ∈ editUser users name (.bound fd) →
      (∃ v ∈ users, v.username = name ∧ u = v.bound fd) ∨ u ∈ users := by
    intro u hu
    obtain ⟨v, hv, rfl⟩ := KeyedList.mem_edit.mp hu
    split
    · exact Or.inl ⟨v, hv, ‹_›, rfl⟩
    · exact Or.inr hv
  refine ⟨⟨fun u hu => ?_, fun u hu hactive => ?_, fun u hu hactive v hv hvu => ?_⟩,
    fun u hu => ?_, fun u hu hne => ?_⟩
  · rcases hmem hu with ⟨w, _, _, rfl⟩ | hu
    · simp only [UserRecord.bound, ne_eq, true_iff]
      omega
    · exact h.flag u hu
  · rcases hmem hu with ⟨w, _, _, rfl⟩ | hu
    · exact hheld
    · exact h.held u hu hactive
  · rcases hmem hu with ⟨w, hw, hwname, rfl⟩ | hu
    · rcases hmem hv with ⟨w', hw', hwname', rfl⟩ | hv
      · rw [List.inj_on_of_nodup_map hnames hw hw' (hwname.trans hwname'.symm)]
      · exact absurd hvu (hfree v hv)
    · rcases hmem hv with ⟨w', _, _, rfl⟩ | hv
      · exact absurd hvu.symm (hfree u hu)
      · exact h.alone u hu hactive v hv hvu
  · rcases hmem hu with ⟨w, _, _, rfl⟩ | hu
    · exact Or.inr rfl
    · exact h.flags u hu
  · rcases hmem hu with ⟨w, _, _, rfl⟩ | hu
    · exact hfd
    · exact h.fds u hu hne

theorem clear (h : Bindings users clientFds) (fd : Int) :
    Bindings (clearHolder users fd) clientFds := by
  refine ⟨⟨fun u hu => ?_, fun u hu hactive => ?_, fun u hu hactive v hv hvu => ?_⟩,
    fun u hu => ?_, fun u hu hne => ?_⟩
  · rcases mem_clearHolder hu with hu | ⟨w, _, rfl⟩
    · exact h.flag u hu
    · simp [UserRecord.cleared]
  · rcases mem_clearHolder hu with hu | ⟨w, _, rfl⟩
    · exact h.held u hu hactive
    · cases hactive
  · rcases mem_clearHolder hu with hu | ⟨w, _, rfl⟩
    · rcases mem_clearHolder hv with hv | ⟨w', _, rfl⟩
      · exact h.alone u hu hactive v hv hvu
      · exact absurd hvu.symm ((h.flag u hu).mp hactive)
    · cases hactive
  · rcases mem_clearHolder hu with hu | ⟨w, _, rfl⟩
    · exact h.flags u hu
    · exact Or.inl rfl
  · rcases mem_clearHolder hu with hu | ⟨w, _, rfl⟩
    · exact h.fds u hu hne
    · exact absurd rfl hne

end Bindings

/-- The loop keeps the bindings as long as logins are free. -/
theorem Bindings.step {ctx ctx' : ServerContext} {label : LoopLabel}
    (hk : Keyed UserRecord.username ctx.userMap) (h : Bindings ctx.users ctx.clientFds)
    (hfree : LoginFree ctx.users label.event) (hs : LoopStep ctx label ctx') :
    Bindings ctx'.users ctx'.clientFds := by
  have heffect := loopStep_effect hk hs
  have hopen : (∀ fd, ¬ label.event.ends fd) → Bindings ctx.users ctx'.clientFds := by
    refine fun hquiet => h.reopen fun u hu hactive => ?_
    have hne := (h.flag u hu).mp hactive
    exact heffect.open_kept _ (h.held u hu hactive) (h.fds u hu hne) (hquiet _)
  have husers := heffect.users
  generalize ctx'.users = users' at husers
  cases husers with
  | quiet hquiet => exact hopen hquiet
  | registered hquiet _ hsplit => exact (hsplit ▸ hopen hquiet).register _ _
  | loggedIn hevent hreq hsent hu hname hpass hin =>
    rename_i fd msg name pass u
    have hquiet : ∀ fd', ¬ label.event.ends fd' := by
      rw [hevent]
      rintro fd' ⟨_, hends⟩
      rw [hreq] at hends
      exact hends
    obtain ⟨hpos, hheld⟩ := heffect.requested fd msg hevent
    apply (hopen hquiet).login hk.nodup name hpos (heffect.open_kept fd hheld hpos (hquiet fd))
    rw [hevent] at hfree
    exact hfree ⟨u, hu, by rw [hreq, hname, hpass], hin⟩
  | ended hend =>
    rename_i fd
    have hpos := heffect.ended fd hend
    apply (h.clear fd).reopen
    intro u hu hactive
    have hne := socketFd_ne_of_mem_clearHolder (h.carriedOnce hpos) (by omega) hu
    rcases mem_clearHolder hu with hmem | ⟨w, _, rfl⟩
    · have hfd := h.fds u hmem ((h.flag u hmem).mp hactive)
      exact heffect.open_kept _ (h.held u hmem hactive) hfd fun hend' =>
        hne (Event.ends_unique hend' hend)
    · cases hactive

/-- A login that succeeds on a descriptor some record carries breaks the binding. -/
theorem loginFree_of_bound {ctx ctx' : ServerContext} {label : LoopLabel}
    (hk : Keyed UserRecord.username ctx.userMap) (h : Bindings ctx.users ctx.clientFds)
    (hs : LoopStep ctx label ctx') (hbound : Bound ctx'.users ctx'.clientFds) :
    LoginFree ctx.users label.event := by
  have heffect := loopStep_effect hk hs
  cases hevent : label.event with
  | accept => trivial
  | eof => trivial
  | request fd msg =>
    rintro ⟨u, hu, hreq, hin⟩ v hv hvfd
    obtain ⟨hpos, _⟩ := heffect.requested fd msg hevent
    obtain ⟨reply, _, hstep⟩ := heffect.served fd msg hevent (by rw [hreq]; exact id)
    rw [hreq] at hstep
    have husers := (hstep.of_login hk hu hin).2
    have hbind : u.bound fd ∈ ctx'.users := by
      rw [husers]
      exact KeyedList.mem_edit.mpr ⟨u, hu, (if_pos rfl).symm⟩
    have hname : v.username ≠ u.username := by
      intro he
      have huv := username_inj hk hv hu he
      have hactive := (h.flag v hv).mpr (by omega)
      rw [huv] at hactive
      omega
    have hkept : v ∈ ctx'.users := by
      rw [husers]
      exact KeyedList.mem_edit.mpr ⟨v, hv, (if_neg hname).symm⟩
    have hsame := hbound.alone _ hbind rfl v hkept hvfd
    exact hname (by rw [hsame]; rfl)

theorem freesRecord_of_bindings {m : LoopMove} (hk : Keyed UserRecord.username m.pre.userMap)
    (h : Bindings m.pre.users m.pre.clientFds) (hs : LoopStep m.pre m.label m.post) :
    FreesRecord m := by
  intro fd hend u hu hufd
  have heffect := loopStep_effect hk hs
  have hcleared : u.cleared ∈ m.post.users := by
    have husers := heffect.users
    generalize m.post.users = users' at husers
    cases husers with
    | quiet hquiet => exact absurd hend (hquiet fd)
    | registered hquiet => exact absurd hend (hquiet fd)
    | loggedIn hevent hreq =>
      rw [hevent] at hend
      obtain ⟨_, hend⟩ := hend
      rw [hreq] at hend
      cases hend
    | ended hend' =>
      obtain rfl := Event.ends_unique hend hend'
      exact cleared_mem_clearHolder (h.carriedOnce (heffect.ended _ hend)) hu hufd
  exact ⟨hcleared, fun env fd' msg hreq => login_succeeds heffect.keyed hcleared rfl env fd' hreq⟩

theorem Initial.bindings {ctx : ServerContext} (h : Initial ctx) (clientFds : List Int) :
    Bindings ctx.users clientFds := by
  rw [h.users]
  exact ⟨⟨nofun, nofun, nofun⟩, nofun, nofun⟩

section Runs
variable {alloc : ℕ → Bool} {ctx₀ ctx : ServerContext} {listenFd : Int} {moves : List LoopMove}
  (h0 : serverCreate alloc = some ctx₀) (hr : Run LoopStep (listening ctx₀ listenFd) moves ctx)
include h0 hr

theorem bindings_of_loginFree (hfree : ∀ m ∈ moves, LoginFree m.pre.users m.label.event) :
    Keyed UserRecord.username ctx.userMap ∧ Bindings ctx.users ctx.clientFds := by
  have hinit := serverCreate_initial h0
  refine hr.invariant (I := fun ctx => Keyed UserRecord.username ctx.userMap ∧
      Bindings ctx.users ctx.clientFds) (G := fun ctx label => LoginFree ctx.users label.event)
    ⟨hinit.keyed, hinit.bindings _⟩ (fun ctx label ctx' hi hg hs => ?_) hfree
  exact ⟨(loopStep_effect hi.1 hs).keyed, hi.2.step hi.1 hg hs⟩

theorem loginFree_of_bounds (hbound : ∀ m ∈ moves, Bound m.post.users m.post.clientFds) :
    ∀ m ∈ moves, LoginFree m.pre.users m.label.event := by
  induction hr with
  | start => nofun
  | snoc hr hs ih =>
    have hfree := ih fun m hm => hbound m (List.mem_append_left _ hm)
    obtain ⟨hk, hbindings⟩ := bindings_of_loginFree h0 hr hfree
    intro m hm
    rcases List.mem_append.mp hm with hm | hm
    · exact hfree m hm
    · rw [List.mem_singleton.mp hm]
      exact loginFree_of_bound hk hbindings hs
        (hbound _ (List.mem_append_right _ (List.mem_singleton_self _)))

/-- The binding invariant and no lock-out: they hold throughout a run exactly
when no login succeeds on a descriptor that some record carries already. -/
theorem session_binding_iff :
    (Bound ctx₀.users ctx₀.clientFds ∧ (∀ m ∈ moves, Bound m.post.users m.post.clientFds) ∧
        ∀ m ∈ moves, FreesRecord m) ↔
      ∀ m ∈ moves, LoginFree m.pre.users m.label.event := by
  constructor
  · exact fun h => loginFree_of_bounds h0 hr h.2.1
  · intro hfree
    have hpre : ∀ m ∈ moves, Keyed UserRecord.username m.pre.userMap ∧
        Bindings m.pre.users m.pre.clientFds ∧ LoopStep m.pre m.label m.post := by
      intro m hm
      obtain ⟨before, after, rfl⟩ := List.append_of_mem hm
      obtain ⟨hk, hbindings⟩ := bindings_of_loginFree h0 hr.cut.1 fun m hm =>
        hfree m (List.mem_append_left _ hm)
      exact ⟨hk, hbindings, hr.cut.2⟩
    refine ⟨((serverCreate_initial h0).bindings _).toBound, fun m hm => ?_, fun m hm => ?_⟩
    · obtain ⟨hk, hbindings, hs⟩ := hpre m hm
      exact (hbindings.step hk (hfree m hm) hs).toBound
    · obtain ⟨hk, hbindings, hs⟩ := hpre m hm
      exact freesRecord_of_bindings hk hbindings hs

end Runs

theorem session_binding_relogin :
    (quietEvents (listening started 3) relogin).length = 5 ∧
      ∀ m ∈ quietEvents (listening started 3) relogin, Bound m.post.users m.post.clientFds := by
  have hr := run_quietEvents (listening started 3) relogin (by decide +kernel)
  have hbound := (session_binding_iff serverCreate_started hr).mpr (by decide +kernel)
  exact ⟨by decide, hbound.2.1⟩

/-- Two logins on one connection leave two records on its descriptor. -/
theorem session_binding_fails :
    ¬ ∀ (alloc : ℕ → Bool) (ctx₀ ctx : ServerContext) (listenFd : Int) (moves : List LoopMove),
      serverCreate alloc = some ctx₀ → Run LoopStep (listening ctx₀ listenFd) moves ctx →
      Bound ctx.users ctx.clientFds := by
  intro h
  have hbound := h _ _ _ 3 _ serverCreate_started
    (run_quietEvents (listening started 3) doubleLogin (by decide +kernel))
  exact absurd hbound.alone (by decide +kernel)

end MeshChat.Server
