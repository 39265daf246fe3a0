import MeshChat.Mesh.System

/-!
# Client and server agree

A request is on its way, or its reply is, or neither; in each case the client's
view and the server's view of its connection differ by exactly what is on the
way. Every step keeps this for every client, whatever the others do.
-/
namespace MeshChat
open Server Client Runs

/-- Where the request of client `p` stands, when `v` is the server's view of its
connection. -/
inductive InStep (v : View) (p : Peer) : Prop
  | settled : p.pending = none → p.toServer = none → p.toClient = none →
      p.ctx.Coherent p.screen → p.ctx.view = v → InStep v p
  | asked {cmd : Command} {m : TLVMessage} : p.pending = some cmd → p.toServer = some m →
      p.toClient = none → p.ctx.Coherent p.screen → cmd.screen = p.screen → cmd.Checked p.ctx →
      (∀ got, m.Agrees got → Request.ofMsg got = cmd.asks) → p.ctx.view = v → InStep v p
  | answered {cmd : Command} {m : TLVMessage} {reply : Reply} : p.pending = some cmd →
      p.toServer = none → p.toClient = some m → p.ctx.Coherent p.screen → cmd.screen = p.screen →
      cmd ≠ .exit → reply.Describes m → FreshInfo p.ctx cmd.asks reply →
      p.ctx.view.after cmd.asks reply = v → InStep v p
  | gone : p.up = false → p.toServer = none → InStep v p

/-- The server's view of a connection. -/
def linkView (server : ServerContext) : Link → View
  | .accepted fd => serverView server fd
  | _ => .empty

/-- What holds between one client and the server. -/
def PeerInv (server : ServerContext) (p : Peer) : Prop :=
  match p.link with
  | .off => p = .idle
  | .closed => True
  | _ => InStep (linkView server p.link) p

/-- What holds of the whole system. Every accepted connection has a descriptor
of its own. -/
structure MeshInv (mesh : Mesh) : Prop where
  server : ServerInv mesh.server
  held : ∀ c fd, (mesh.peers c).link = .accepted fd → 0 ≤ fd ∧ fd ∈ mesh.server.clientFds
  apart : ∀ c c' fd, (mesh.peers c).link = .accepted fd → (mesh.peers c').link = .accepted fd → c = c'
  peers : ∀ c, PeerInv mesh.server (mesh.peers c)

section Peers
variable {server : ServerContext} {p : Peer} {v : View}

theorem PeerInv.congr {server' : ServerContext} (h : PeerInv server p)
    (hview : ∀ fd, p.link = .accepted fd → serverView server' fd = serverView server fd) :
    PeerInv server' p := by
  unfold PeerInv at h ⊢
  cases hlink : p.link with
  | off => simpa only [hlink] using h
  | backlog =>
    rw [hlink] at h
    exact h
  | accepted fd =>
    rw [hlink] at h
    simpa only [linkView, hview fd hlink] using h
  | closed => trivial

theorem PeerInv.accepted {fd : Int} (hlink : p.link = .accepted fd) :
    PeerInv server p ↔ InStep (serverView server fd) p := by
  rw [PeerInv, hlink, linkView]

theorem PeerInv.backlog (hlink : p.link = .backlog) : PeerInv server p ↔ InStep .empty p := by
  rw [PeerInv, hlink]
  rfl

/-- A step of a running client that keeps its connection. -/
theorem PeerInv.map {q : Peer} (h : PeerInv server p) (hup : p.up = true) (hlink : q.link = p.link)
    (hstep : ∀ v, InStep v p → InStep v q) : PeerInv server q := by
  unfold PeerInv at h ⊢
  rw [hlink]
  cases hp : p.link with
  | off =>
    rw [hp] at h
    rw [show p = .idle from h] at hup
    cases hup
  | backlog =>
    rw [hp] at h
    exact hstep _ h
  | accepted fd =>
    rw [hp] at h
    exact hstep _ h
  | closed => trivial

/-- A client that has just connected. -/
theorem InStep.connect (sock : Int) : InStep .empty (Peer.idle.connect sock) := by
  refine .settled rfl rfl rfl ⟨List.nodup_nil, iff_of_false nofun nofun⟩ (View.mk.injEq .. ▸ ⟨?_, ?_⟩)
  · simp [ClientContext.groups, Peer.connect, Peer.idle, netConnect, startContext]
  · simp [ClientContext.users, Peer.connect, Peer.idle, netConnect]

/-- Only a client without a request on its way chooses a command. -/
theorem InStep.ask (h : InStep v p) (hup : p.up = true) (hpending : p.pending = none) {cmd : Command}
    (hscreen : cmd.screen = p.screen) (stale : TLVMessage) : InStep v (p.ask cmd stale) := by
  cases h with
  | settled _ hserver hclient hcoh hview =>
    unfold Peer.ask
    cases hreq : cmd.request p.ctx stale with
    | some m =>
      exact .asked rfl rfl hclient hcoh hscreen (Command.request_spec hreq).2
        (fun got => Command.ofMsg_of_agrees hreq) hview
    | none =>
      dsimp only
      split
      · exact .gone rfl hserver
      · exact .settled hpending hserver hclient hcoh hview
  | asked hsome => rw [hpending] at hsome; cases hsome
  | answered hsome => rw [hpending] at hsome; cases hsome
  | gone hdown => rw [hup] at hdown; cases hdown

/-- The reply settles the request. -/
theorem InStep.finish (h : InStep v p) (hup : p.up = true) {cmd : Command}
    (hpending : p.pending = some cmd) {m response : TLVMessage} (hclient : p.toClient = some m)
    (hagrees : m.Agrees response) (pids : ℕ × ℕ) : InStep v (p.finish cmd pids (some response)) := by
  cases h with
  | settled hnone => rw [hpending] at hnone; cases hnone
  | asked _ _ hnone => rw [hclient] at hnone; cases hnone
  | answered hcmd hserver hclient' hcoh hscreen hexit hreply hfresh hview =>
    obtain rfl := Option.some.inj (hpending.symm.trans hcmd)
    obtain rfl := Option.some.inj (hclient.symm.trans hclient')
    obtain ⟨hview', hcoh'⟩ := Command.finish_view pids (hscreen ▸ hcoh) hexit
      (describes_of_agrees hreply hagrees) hfresh rfl
    rw [hscreen] at hcoh'
    exact .settled rfl hserver rfl hcoh' (hview'.trans hview)
  | gone hdown => rw [hup] at hdown; cases hdown

/-- Only these parts of a client matter. -/
theorem InStep.congr {q : Peer} (h : InStep v p) (hctx : q.ctx = p.ctx) (hscreen : q.screen = p.screen)
    (hpending : q.pending = p.pending) (hup : p.up = false → q.up = false)
    (hserver : q.toServer = p.toServer) (hclient : q.toClient = p.toClient) : InStep v q := by
  obtain ⟨ctx, screen, pending, up, link, toServer, toClient⟩ := q
  subst hctx hscreen hpending hserver hclient
  cases h with
  | settled hpending hserver hclient hcoh hview =>
    exact .settled hpending hserver hclient hcoh hview
  | asked hpending hserver hclient hcoh hscreen hchecked hmsg hview =>
    exact .asked hpending hserver hclient hcoh hscreen hchecked hmsg hview
  | answered hpending hserver hclient hcoh hscreen hexit hreply hfresh hview =>
    exact .answered hpending hserver hclient hcoh hscreen hexit hreply hfresh hview
  | gone hdown hserver => exact .gone (hup hdown) hserver

/-- The request on its way is the one the client waits for. -/
theorem InStep.request (h : InStep v p) {m : TLVMessage} (hserver : p.toServer = some m) :
    ∃ cmd, p.pending = some cmd ∧ p.toClient = none ∧ p.ctx.Coherent p.screen ∧
      cmd.screen = p.screen ∧ cmd.Checked p.ctx ∧
      (∀ got, m.Agrees got → Request.ofMsg got = cmd.asks) ∧ p.ctx.view = v := by
  cases h with
  | settled _ hnone => rw [hserver] at hnone; cases hnone
  | @asked cmd m' hpending hsome hclient hcoh hscreen hchecked hmsg hview =>
    obtain rfl := Option.some.inj (hserver.symm.trans hsome)
    exact ⟨cmd, hpending, hclient, hcoh, hscreen, hchecked, hmsg, hview⟩
  | answered _ hnone => rw [hserver] at hnone; cases hnone
  | gone _ hnone => rw [hserver] at hnone; cases hnone

/-- A login is only asked for by a client nobody is logged in on. -/
theorem users_of_asks_login {ctx : ClientContext} {cmd : Command}
    (hcoh : ctx.Coherent cmd.screen) {auth : Option (Username × Password)}
    (hasks : cmd.asks = .login auth) : ctx.users = ∅ := by
  have hscreen : cmd.screen = .one := by
    cases cmd <;> first | rfl | cases hasks
  rw [hscreen] at hcoh
  have hout : ctx.state ≠ .loggedIn := fun h => nomatch hcoh.screen.mp h
  simp [ClientContext.users, hout]

/-- An address the server gives is new to the client. -/
theorem freshInfo_of_checked {cmd : Command} {reply : Reply} (hchecked : cmd.Checked p.ctx)
    (hcreated : ∀ name addr, cmd.asks = .createGroup (some name) → reply = .groupInfo addr →
      ∀ x ∈ p.ctx.view.groups, x.1 ≠ name) : FreshInfo p.ctx cmd.asks reply := by
  rintro name addr (hasks | hasks) hreply session hs
  · exact hcreated name addr hasks hreply _ ⟨session, hs, rfl⟩
  · cases cmd with
    | joinGroup name' =>
      obtain rfl := Option.some.inj (Request.joinGroup.inj hasks)
      exact hchecked session hs
    | _ => cases hasks

end Peers

section Steps
variable {mesh mesh' : Mesh} {c : ℕ}

/-- A step of one client and perhaps the server, which leaves the other
connections open and their views as they are. -/
theorem MeshInv.update (h : MeshInv mesh) {server : ServerContext} {p : Peer}
    (hserver : ServerInv server)
    (hothers : ∀ c' fd, c' ≠ c → (mesh.peers c').link = .accepted fd →
      fd ∈ server.clientFds ∧ serverView server fd = serverView mesh.server fd)
    (hp : PeerInv server p)
    (hlink : ∀ fd, p.link = .accepted fd → 0 ≤ fd ∧ fd ∈ server.clientFds ∧
      ∀ c', c' ≠ c → (mesh.peers c').link ≠ .accepted fd) : MeshInv (mesh.update c server p) := by
  have hown := mesh.update_self c server p
  have hother : ∀ c', c' ≠ c → (mesh.update c server p).peers c' = mesh.peers c' :=
    fun c' hne => mesh.update_of_ne hne server p
  refine ⟨hserver, fun c' fd hc' => ?_, fun c₁ c₂ fd h₁ h₂ => ?_, fun c' => ?_⟩
  · by_cases hne : c' = c
    · rw [hne, hown] at hc'
      exact ⟨(hlink fd hc').1, (hlink fd hc').2.1⟩
    · rw [hother c' hne] at hc'
      exact ⟨(h.held c' fd hc').1, (hothers c' fd hne hc').1⟩
  · by_cases hne₁ : c₁ = c <;> by_cases hne₂ : c₂ = c
    · exact hne₁.trans hne₂.symm
    · rw [hne₁, hown] at h₁
      rw [hother c₂ hne₂] at h₂
      exact absurd h₂ ((hlink fd h₁).2.2 c₂ hne₂)
    · rw [hne₂, hown] at h₂
      rw [hother c₁ hne₁] at h₁
      exact absurd h₁ ((hlink fd h₂).2.2 c₁ hne₁)
    · rw [hother c₁ hne₁] at h₁
      rw [hother c₂ hne₂] at h₂
      exact h.apart c₁ c₂ fd h₁ h₂
  · by_cases hne : c' = c
    · rw [hne, hown]
      exact hp
    · rw [hother c' hne]
      exact (h.peers c').congr fun fd hc' => (hothers c' fd hne hc').2

/-- A step of one client alone that keeps its descriptor if it has one. -/
theorem MeshInv.updatePeer (h : MeshInv mesh) {p : Peer} (hp : PeerInv mesh.server p)
    (hlink : ∀ fd, p.link = .accepted fd → (mesh.peers c).link = .accepted fd) :
    MeshInv (mesh.update c mesh.server p) := by
  refine h.update h.server (fun c' fd _ hc' => ⟨(h.held c' fd hc').2, rfl⟩) hp fun fd hfd => ?_
  obtain ⟨hpos, hmem⟩ := h.held c fd (hlink fd hfd)
  exact ⟨hpos, hmem, fun c' hne hc' => hne (h.apart c' c fd hc' (hlink fd hfd))⟩

theorem MeshInv.connect (h : MeshInv mesh) (hoff : (mesh.peers c).link = .off) (sock : Int) :
    MeshInv (mesh.update c mesh.server ((mesh.peers c).connect sock)) := by
  have hidle : mesh.peers c = .idle := by
    have hp := h.peers c
    rwa [PeerInv, hoff] at hp
  rw [hidle]
  exact h.updatePeer ((PeerInv.backlog rfl).mpr (.connect sock)) nofun

theorem MeshInv.accept (h : MeshInv mesh) (hlink : (mesh.peers c).link = .backlog) {env : Env}
    {fd : Int} {server : ServerContext} {sent : List Sent}
    (hs : runEvent env mesh.server (.accept fd) = some (server, sent)) :
    MeshInv (mesh.update c server ((mesh.peers c).accept fd server.clientFds sent)) := by
  obtain ⟨hserver, hpos, hnew, hempty, hkept, hviews⟩ := h.server.accept hs
  have hfd : ∀ c', (mesh.peers c').link ≠ .accepted fd := fun c' hc' => hnew (h.held c' fd hc').2
  have hp := (PeerInv.backlog hlink).mp (h.peers c)
  refine h.update hserver (fun c' fd' _ hc' => ?_) ?_ fun fd' hlink' => ?_
  · obtain ⟨hpos', hmem⟩ := h.held c' fd' hc'
    exact ⟨hkept fd' hmem hpos', hviews fd'⟩
  · unfold Peer.accept
    split
    · apply (PeerInv.accepted rfl).mpr
      rw [hempty]
      exact hp.congr rfl rfl rfl id rfl rfl
    · trivial
  · unfold Peer.accept at hlink'
    split at hlink'
    · obtain rfl := Link.accepted.inj hlink'
      exact ⟨hpos, ‹_›, fun c' _ => hfd c'⟩
    · cases hlink'

theorem MeshInv.serve (h : MeshInv mesh) {fd : Int} (hlink : (mesh.peers c).link = .accepted fd)
    {m msg : TLVMessage} (hm : (mesh.peers c).toServer = some m) (hmsg : m.Agrees msg) {env : Env}
    (henv : env.AllocOk) {server : ServerContext} {sent : List Sent}
    (hs : runEvent env mesh.server (.request fd msg) = some (server, sent)) :
    MeshInv (mesh.update c server
      ((mesh.peers c).serve fd (dispatchMessage env mesh.server fd msg).2.2 sent)) := by
  obtain ⟨hpos, hheld⟩ := h.held c fd hlink
  obtain ⟨cmd, hpending, hclient, hcoh, hscreen, hchecked, hasks, hview⟩ :=
    ((PeerInv.accepted hlink).mp (h.peers c)).request hm
  have hreq := hasks msg hmsg
  have hfree : LoginFree mesh.server.users (.request fd msg) := by
    apply h.server.loginFree hpos
    intro auth hlogin
    rw [← hview]
    exact users_of_asks_login (hscreen ▸ hcoh) (hreq.symm.trans hlogin)
  obtain ⟨hserver, hkept, hopen, reply, ⟨m', hsent, hreply⟩, hown, hothers, hcreated⟩ :=
    h.server.request henv hfree hs
  refine h.update hserver (fun c' fd' hne hc' => ?_) ?_ fun fd' hlink' => ?_
  · have hfd : fd' ≠ fd := fun he => hne (h.apart c' c fd (he ▸ hc') hlink)
    obtain ⟨hpos', hmem⟩ := h.held c' fd' hc'
    exact ⟨hkept fd' hmem hfd hpos', hothers fd' hfd⟩
  · by_cases hret : (dispatchMessage env mesh.server fd msg).2.2 < 0
    · rw [Peer.serve, if_pos hret]
      trivial
    · have hlink' : ((mesh.peers c).serve fd (dispatchMessage env mesh.server fd msg).2.2 sent).link =
          .accepted fd := (if_neg hret).trans hlink
      apply (PeerInv.accepted hlink').mpr
      refine .answered hpending rfl ?_ hcoh hscreen ?_ hreply
        (freshInfo_of_checked hchecked ?_) ?_
      · simp [Peer.serve, mailFor, hsent]
      · rintro rfl
        have hexit := Request.tag_of_ofMsg_exit hreq
        rw [← dispatch_returns env mesh.server fd msg] at hexit
        omega
      · rw [Peer.serve_ctx, hview, ← hreq]
        exact hcreated
      · rw [Peer.serve_ctx, hview, ← hreq, hown]
  · have hlink' : (if (dispatchMessage env mesh.server fd msg).2.2 < 0 then Link.closed
        else (mesh.peers c).link) = .accepted fd' := hlink'
    split at hlink'
    · cases hlink'
    · obtain rfl := Link.accepted.inj (hlink.symm.trans hlink')
      exact ⟨hpos, hopen ‹_›, fun c' hne hc' => hne (h.apart c' c fd hc' hlink)⟩

theorem MeshInv.eof (h : MeshInv mesh) {fd : Int} (hlink : (mesh.peers c).link = .accepted fd)
    {env : Env} (henv : env.AllocOk) {server : ServerContext} {sent : List Sent}
    (hs : runEvent env mesh.server (.eof fd) = some (server, sent)) :
    MeshInv (mesh.update c server { mesh.peers c with link := .closed }) := by
  obtain ⟨hserver, hkept, _, hothers⟩ := h.server.eof henv hs
  refine h.update hserver (fun c' fd' hne hc' => ?_) trivial nofun
  have hfd : fd' ≠ fd := fun he => hne (h.apart c' c fd (he ▸ hc') hlink)
  obtain ⟨hpos', hmem⟩ := h.held c' fd' hc'
  exact ⟨hkept fd' hmem hfd hpos', hothers fd' hfd⟩

theorem Peer.ask_link (cmd : Command) (stale : TLVMessage) (p : Peer) :
    (p.ask cmd stale).link = p.link := by
  unfold Peer.ask
  split
  · rfl
  · split <;> rfl

/-- Every step keeps the agreement. -/
theorem MeshInv.step (h : MeshInv mesh) {event : MeshEvent} (hok : event.AllocOk)
    (hs : MeshStep mesh event mesh') : MeshInv mesh' := by
  cases meshStep_iff.mp hs with
  | connect hoff => exact h.connect hoff _
  | accept hlink hrun => exact h.accept hlink hrun
  | ask hup hpending hscreen =>
    refine h.updatePeer ((h.peers _).map hup (Peer.ask_link ..) fun v hv =>
      hv.ask hup hpending hscreen _) fun fd hfd => ?_
    rwa [Peer.ask_link] at hfd
  | serve hlink hserver hmsg hrun => exact h.serve hlink hserver hmsg hok hrun
  | answer hpending hclient hup hmsg =>
    exact h.updatePeer ((h.peers _).map hup rfl fun v hv =>
      hv.finish hup hpending hclient hmsg _) fun _ => id
  | fail hpending hup hlink =>
    refine h.updatePeer ?_ fun _ => id
    rw [PeerInv, Peer.finish, hlink]
    trivial
  | drop hup =>
    exact h.updatePeer ((h.peers _).map hup rfl fun v hv =>
      hv.congr rfl rfl rfl (fun _ => rfl) rfl rfl) fun _ => id
  | eof hlink hup hrun => exact h.eof hlink hok hrun

end Steps

theorem Server.Initial.meshInv {ctx : ServerContext} (h : Initial ctx) (listenFd : Int) :
    MeshInv (.start (listening ctx listenFd)) :=
  ⟨h.serverInv listenFd, nofun, nofun, fun _ => rfl⟩

/-- The records that are logged in on `fd`. -/
def activeOn (users : List UserRecord) (fd : Int) : List UserRecord :=
  users.filter fun u => decide (u.loggedIn ≠ 0 ∧ u.socketFd = fd)

/-- The client has a session for exactly the groups it is a member of, with
their addresses, and is logged in exactly when one record is, its own. -/
structure MembershipAgrees (server : ServerContext) (fd : Int) (ctx : ClientContext) : Prop where
  names : (ctx.activeGroups.map (·.groupName)).Nodup
  groups : ∀ name, (∃ session ∈ ctx.activeGroups, session.groupName = name) ↔
    ∃ grp ∈ server.groups, grp.name = name ∧ fd ∈ grp.members
  addresses : ∀ session ∈ ctx.activeGroups, ∀ grp ∈ server.groups, grp.name = session.groupName →
    session.multicastIp = grp.mcastIp ∧ session.multicastPort = grp.mcastPort
  loggedIn : ctx.state = .loggedIn ↔
    ∃ u, activeOn server.users fd = [u] ∧ u.username = ctx.username
  otherwise : ctx.state ≠ .loggedIn → activeOn server.users fd = []

section Agree
variable {server : ServerContext} {fd : Int} {ctx : ClientContext} {screen : Screen}

theorem mem_activeOn {users : List UserRecord} {u : UserRecord} :
    u ∈ activeOn users fd ↔ u ∈ users ∧ u.loggedIn ≠ 0 ∧ u.socketFd = fd := by
  simp [activeOn]

/-- Equal views have the same groups behind the sessions. -/
theorem group_of_session (hview : ctx.view = serverView server fd) {session : GroupSession}
    (hs : session ∈ ctx.activeGroups) : ∃ grp ∈ server.groups, fd ∈ grp.members ∧
      session.groupName = grp.name ∧
      (⟨session.multicastIp, session.multicastPort⟩ : McastEntry) = grp.addr := by
  have hmem : (session.groupName, ⟨session.multicastIp, session.multicastPort⟩) ∈ ctx.view.groups :=
    ⟨session, hs, rfl⟩
  rw [hview] at hmem
  obtain ⟨grp, hg, hfd, he⟩ := hmem
  exact ⟨grp, hg, hfd, (Prod.mk.inj he).1, (Prod.mk.inj he).2⟩

/-- An active record on the connection is the client's own. -/
theorem own_of_activeOn (hview : ctx.view = serverView server fd) {u : UserRecord}
    (hu : u ∈ activeOn server.users fd) : ctx.state = .loggedIn ∧ ctx.username = u.username := by
  obtain ⟨hu, hactive, hufd⟩ := mem_activeOn.mp hu
  have hmem : u.username ∈ (serverView server fd).users := ⟨u, hu, hactive, hufd, rfl⟩
  rwa [← hview] at hmem

/-- There is exactly one if the client is logged in. -/
theorem activeOn_of_loggedIn (h : ServerOk server) (hview : ctx.view = serverView server fd)
    (hin : ctx.state = .loggedIn) :
    ∃ u, activeOn server.users fd = [u] ∧ u.username = ctx.username := by
  have hmem : ctx.username ∈ ctx.view.users := ⟨hin, rfl⟩
  rw [hview] at hmem
  obtain ⟨u, hu, hactive, hufd, hname⟩ := hmem
  have hactive := mem_activeOn.mpr ⟨hu, hactive, hufd⟩
  have hnames : ((activeOn server.users fd).map UserRecord.username).Nodup :=
    (List.filter_sublist.map _).nodup h.keyed.nodup
  have hone := KeyedList.length_le_one UserRecord.username (k := ctx.username) hnames
    fun v hv => (own_of_activeOn hview hv).2.symm
  obtain ⟨v, hv⟩ := List.length_eq_one_iff.mp (Nat.le_antisymm hone (List.length_pos_of_mem hactive))
  have hvmem : v ∈ activeOn server.users fd := hv.symm ▸ List.mem_singleton_self v
  exact ⟨v, hv, (own_of_activeOn hview hvmem).2.symm⟩

/-- Equal views agree. -/
theorem membershipAgrees_of_view (h : ServerOk server) (hcoh : ctx.Coherent screen)
    (hview : ctx.view = serverView server fd) : MembershipAgrees server fd ctx := by
  refine ⟨hcoh.names, fun name => ⟨?_, ?_⟩, fun session hs grp hg hname => ?_,
    ⟨activeOn_of_loggedIn h hview, ?_⟩, fun hout => ?_⟩
  · rintro ⟨session, hs, rfl⟩
    obtain ⟨grp, hg, hfd, hname, _⟩ := group_of_session hview hs
    exact ⟨grp, hg, hname.symm, hfd⟩
  · rintro ⟨grp, hg, rfl, hfd⟩
    have hmem : (grp.name, grp.addr) ∈ (serverView server fd).groups := ⟨grp, hg, hfd, rfl⟩
    rw [← hview] at hmem
    obtain ⟨session, hs, he⟩ := hmem
    exact ⟨session, hs, (Prod.mk.inj he).1.symm⟩
  · obtain ⟨grp', hg', _, hname', haddr⟩ := group_of_session hview hs
    obtain rfl := List.inj_on_of_nodup_map h.table.names hg hg' (hname.trans hname')
    exact ⟨congrArg McastEntry.ip haddr, congrArg McastEntry.port haddr⟩
  · rintro ⟨u, hone, _⟩
    exact (own_of_activeOn hview (hone ▸ List.mem_singleton_self u)).1
  · exact List.eq_nil_iff_forall_not_mem.mpr fun u hu => hout (own_of_activeOn hview hu).1

end Agree

/-- Client and server agree on the membership: after any run from clients that
were not started, and without failing allocations, a client that still runs,
waits for no reply and is connected has exactly the sessions of its groups, and
is logged in exactly as the server has it. One that the server has not accepted
yet has no groups and is not logged in. -/
theorem membership_agreement {alloc : ℕ → Bool} {ctx₀ : ServerContext} {listenFd : Int}
    {moves : List (Move Mesh MeshEvent)} {mesh : Mesh} (h0 : serverCreate alloc = some ctx₀)
    (hr : Run MeshStep (.start (listening ctx₀ listenFd)) moves mesh)
    (hok : ∀ m ∈ moves, m.label.AllocOk) :
    ∀ c, (mesh.peers c).up = true → (mesh.peers c).pending = none →
      (∀ fd, (mesh.peers c).link = .accepted fd →
        MembershipAgrees mesh.server fd (mesh.peers c).ctx) ∧
      ((mesh.peers c).link = .backlog →
        (mesh.peers c).ctx.activeGroups = [] ∧ (mesh.peers c).ctx.state ≠ .loggedIn) := by
  have h : MeshInv mesh := hr.invariant (I := MeshInv) (G := fun _ event => event.AllocOk)
    ((serverCreate_initial h0).meshInv listenFd) (fun _ _ _ hi => hi.step) hok
  intro c hup hpending
  have hsettled : ∀ {v : View}, InStep v (mesh.peers c) →
      (mesh.peers c).ctx.Coherent (mesh.peers c).screen ∧ (mesh.peers c).ctx.view = v := by
    intro v hv
    cases hv with
    | settled _ _ _ hcoh hview => exact ⟨hcoh, hview⟩
    | asked hsome => rw [hpending] at hsome; cases hsome
    | answered hsome => rw [hpending] at hsome; cases hsome
    | gone hdown => rw [hup] at hdown; cases hdown
  refine ⟨fun fd hlink => ?_, fun hlink => ?_⟩
  · obtain ⟨hcoh, hview⟩ := hsettled ((PeerInv.accepted hlink).mp (h.peers c))
    exact membershipAgrees_of_view h.server.ok hcoh hview
  · obtain ⟨_, hview⟩ := hsettled ((PeerInv.backlog hlink).mp (h.peers c))
    constructor
    · apply List.eq_nil_iff_forall_not_mem.mpr
      intro session hs
      have hmem : _ ∈ (mesh.peers c).ctx.view.groups := ⟨session, hs, rfl⟩
      rw [hview] at hmem
      exact hmem
    · intro hin
      have hmem : (mesh.peers c).ctx.username ∈ (mesh.peers c).ctx.view.users := ⟨hin, rfl⟩
      rw [hview] at hmem
      exact hmem

/-! Two clients meet in a group, and the one that created it leaves. -/

/-- A command, its service and its reply. -/
def talk (c : ℕ) (cmd : Command) (response : TLVMessage) : List MeshEvent :=
  [.ask c cmd .blank, .serve c .quiet ((cmd.built.build .blank).getD .blank),
    .answer c response (0, 0)]

/-- Client `c` is accepted as `fd`, registers the `i`-th user and logs in. -/
def arrive (c : ℕ) (fd : Int) (i : ℕ) : List MeshEvent :=
  let username := strncpy (nameOf i).toCStr
  let password := strncpy (nameOf i).toCStr
  [.connect c 3, .accept c fd .quiet] ++
    talk c (.register username password) (buildSuccessMsg .blank) ++
    talk c (.login username password) (buildSuccessMsg .blank)

def meeting : List MeshEvent :=
  let info := (buildGroupInfoMsg .blank (poolEntry 0).ip.toCStr (poolEntry 0).port).getD .blank
  arrive 0 5 0 ++ arrive 1 6 1 ++ talk 0 (.createGroup (nameOf 0)) info ++
    talk 1 (.joinGroup (nameOf 0)) info ++
    talk 0 (.leaveGroup (nameOf 0)) (buildSuccessMsg .blank)

theorem meeting_allocOk : ∀ event ∈ meeting, event.AllocOk := by
  have htalk : ∀ c cmd response, ∀ event ∈ talk c cmd response, event.AllocOk := by
    simp [talk, MeshEvent.AllocOk, Env.quiet_allocOk]
  have harrive : ∀ c fd i, ∀ event ∈ arrive c fd i, event.AllocOk := by
    intro c fd i
    simp only [arrive, List.forall_mem_append]
    exact ⟨⟨by simp [MeshEvent.AllocOk, Env.quiet_allocOk], htalk _ _ _⟩, htalk _ _ _⟩
  simp only [meeting, List.forall_mem_append]
  exact ⟨⟨⟨⟨harrive _ _ _, harrive _ _ _⟩, htalk _ _ _⟩, htalk _ _ _⟩, htalk _ _ _⟩

theorem membership_agreement_meeting :
    let mesh := playEnd (attempt runMesh) (.start (listening started 3)) meeting
    MembershipAgrees mesh.server 6 (mesh.peers 1).ctx ∧
      (mesh.peers 1).ctx.activeGroups.map (·.groupName) = [nameOf 0] ∧
      mesh.server.groups.map (·.members) = [[6]] := by
  have hr := run_attempts runMesh (.start (listening started 3)) meeting (by decide +kernel)
  have hagrees := membership_agreement serverCreate_started hr
    (fun m hm => meeting_allocOk _ (label_mem_of_attempts m hm)) 1 (by decide +kernel)
    (by decide +kernel)
  exact ⟨hagrees.1 6 (by decide +kernel), by decide +kernel, by decide +kernel⟩

end MeshChat
