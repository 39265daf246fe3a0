import MeshChat.Chat.Texts
import MeshChat.Mesh.Agreement

/-!
# Who hears whom

From the groups that the server keeps to what the windows of its clients show. A client
spawns its windows for a session, with the address in it; what it types is shown on the
hosts of the members of the same group, and nowhere else.
-/
namespace MeshChat
open Server Client Runs Chat Multicast

/-- A window that a client spawned for one of its sessions. -/
def OpenedBy (ctx : ClientContext) (w : ChatWindow) : Prop :=
  ∃ session ∈ ctx.activeGroups, w.group = session.groupName ∧
    w.proc.multicastIp = session.multicastIp ∧ w.proc.username = ctx.username

/-- The client runs, waits for no reply and is connected. -/
structure SettledOn (mesh : Mesh) (c : ℕ) (fd : Int) : Prop where
  up : (mesh.peers c).up = true
  pending : (mesh.peers c).pending = none
  link : (mesh.peers c).link = .accepted fd

/-- The windows of the clients, on any hosts. -/
def OpenedInMesh (mesh : Mesh) (ws : Windows) : Prop :=
  ∀ w ∈ ws.senders ++ ws.receivers, ∃ c fd, SettledOn mesh c fd ∧ OpenedBy (mesh.peers c).ctx w

section Hearing
variable {ctx : ServerContext} {ws : Windows} {w : ChatWindow}

/-- A line that is not empty is sent, to the address of the sender's group. -/
theorem sendLine_isSome (hok : AddressesOk ctx) (hws : SpawnedFor ctx ws) (hw : w ∈ ws.senders)
    {input : CharArray bufferSize} (hline : stripNewline input ≠ []) (behind : List UInt8) :
    ∃ d, sendLine w input behind = some d := by
  have hdest : destAddr w.proc.multicastIp = some (w.addr, multicastBasePort) :=
    if_neg (addr_ne_none hok hws (List.mem_append_left _ hw))
  rw [sendLine, hdest]
  exact ⟨_, if_neg hline⟩

/-- The groups that the kernel of a host is a member of by itself, as of 224.0.0.1,
like a socket that nobody reads from. -/
def kernelSocket (own : List UInt32) : UdpSocket UInt32 UInt16 := ⟨0, none, own, false⟩

/-- Whether a window gets a datagram that reached its host, given the kernel's groups. -/
def getsOf (ws : Windows) (own : List UInt32) (w : ChatWindow) (d : Datagram) : Bool :=
  match receiverSocket w.proc.multicastIp with
  | none => false
  | some s => decide (Delivers (kernelSocket own :: ws.socketsOn w.host) d.group d.port s)

/-- The lines that a host's receivers print when a datagram reaches it. -/
def hostPrints (ws : Windows) (own : List UInt32) (host : ℕ) (d : Datagram) : List PrintedLine :=
  (ws.receivers.filter fun w => decide (w.host = host) && getsOf ws own w d).map
    fun w => ⟨w, d, printedText d.data⟩

theorem getsOf_iff (hok : AddressesOk ctx) (hws : SpawnedFor ctx ws) (hw : w ∈ ws.receivers)
    {d : Datagram} (hport : d.port = multicastBasePort) (own : List UInt32) :
    getsOf ws own w d = true ↔ ws.gets w d = true ∨ d.group ∈ own := by
  rw [getsOf, Windows.gets, receiverSocket_eq hok hws hw]
  simp only [decide_eq_true_eq, delivers_cons_iff, kernelSocket, hport, true_or, true_and]

/-- Where the kernel is in no group, only what sockets joined arrives. -/
theorem hostPrints_nil (hok : AddressesOk ctx) (hws : SpawnedFor ctx ws) {d : Datagram}
    (hport : d.port = multicastBasePort) (host : ℕ) :
    hostPrints ws [] host d = ws.printsOn host d := by
  have hsame : ∀ r ∈ ws.receivers, getsOf ws [] r d = ws.gets r d := by
    intro r hr
    rw [Bool.eq_iff_iff, getsOf_iff hok hws hr hport []]
    exact or_iff_left List.not_mem_nil
  rw [hostPrints, Windows.printsOn]
  exact congrArg _ (List.filter_congr fun r hr => by rw [hsame r hr])

/-- Some receiver on the host is of the group of the sender, or the kernel is. -/
def HostHears (ws : Windows) (own : List UInt32) (w : ChatWindow) (host : ℕ) : Prop :=
  (∃ r ∈ ws.receivers, r.host = host ∧ r.group = w.group) ∨ w.addr ∈ own

instance (ws : Windows) (own : List UInt32) (w : ChatWindow) (host : ℕ) :
    Decidable (HostHears ws own w host) :=
  inferInstanceAs (Decidable ((∃ r ∈ ws.receivers, _ ∧ _) ∨ _))

/-- What a host shows of a datagram. -/
theorem hostPrints_eq (hok : AddressesOk ctx) (hws : SpawnedFor ctx ws) (hw : w ∈ ws.senders)
    {input : CharArray bufferSize} {behind : List UInt8} {d : Datagram}
    (hd : sendLine w input behind = some d) (own : List UInt32) (host : ℕ) :
    hostPrints ws own host d =
      if HostHears ws own w host then
        (ws.receivers.filter fun r => decide (r.host = host)).map fun r =>
          ⟨r, d, (formatLine w.proc.username (stripNewline input)).take (bufferSize - 1)⟩
      else [] := by
  obtain ⟨hsender, hgroup, hport⟩ := sendLine_spec hd
  obtain ⟨-, -, hdata⟩ := sendLine_carries hd
  have htext : printedText d.data =
      (formatLine w.proc.username (stripNewline input)).take (bufferSize - 1) := by
    rw [hdata, hsender]
    exact printedText_stored (messageText_nul_free _ (stripNewline_nul_free input)) behind
  have hgets : ∀ r ∈ ws.receivers, r.host = host →
      (getsOf ws own r d = true ↔ HostHears ws own w host) := by
    rintro r hr rfl
    rw [getsOf_iff hok hws hr hport, gets_iff hok hws hr hport, HostHears, hgroup]
    refine or_congr_left (exists_congr fun r' => and_congr_right fun hr' => and_congr_right fun _ => ?_)
    rw [addr_eq_iff hok hws (List.mem_append_left _ hw) (List.mem_append_right _ hr')]
    exact eq_comm
  rw [hostPrints, htext]
  by_cases hhears : HostHears ws own w host
  · rw [if_pos hhears]
    congr 1
    apply List.filter_congr
    intro r hr
    by_cases hhost : r.host = host
    · simp [hhost, (hgets r hr hhost).mpr hhears]
    · simp [hhost]
  · rw [if_neg hhears, List.map_eq_nil_iff, List.filter_eq_nil_iff]
    intro r hr hboth
    obtain ⟨hhost, hget⟩ := Bool.and_eq_true_iff.mp hboth
    exact hhears ((hgets r hr (of_decide_eq_true hhost)).mp hget)

end Hearing

/-- A client that waits for nothing agrees with the server. -/
theorem InStep.view_of_settled {v : View} {p : Peer} (h : InStep v p) (hup : p.up = true)
    (hpending : p.pending = none) : p.ctx.Coherent p.screen ∧ p.ctx.view = v := by
  cases h with
  | settled _ _ _ hcoh hview => exact ⟨hcoh, hview⟩
  | asked hsome => rw [hpending] at hsome; cases hsome
  | answered hsome => rw [hpending] at hsome; cases hsome
  | gone hdown => rw [hup] at hdown; cases hdown

theorem SettledOn.view {mesh : Mesh} (h : MeshInv mesh) {c : ℕ} {fd : Int}
    (hc : SettledOn mesh c fd) : (mesh.peers c).ctx.view = serverView mesh.server fd :=
  (((PeerInv.accepted hc.link).mp (h.peers c)).view_of_settled hc.up hc.pending).2

/-- The windows are those of live groups. -/
theorem spawnedFor_of_mesh {mesh : Mesh} (h : MeshInv mesh) {ws : Windows}
    (hws : OpenedInMesh mesh ws) : SpawnedFor mesh.server ws := by
  intro w hw
  obtain ⟨c, fd, hc, session, hs, hgroup, hip, -⟩ := hws w hw
  obtain ⟨grp, hg, -, hname, haddr⟩ := group_of_session (hc.view h) hs
  exact ⟨grp, hg, hname.symm.trans hgroup.symm, (congrArg McastEntry.ip haddr).symm.trans hip.symm⟩

/-- There are no sessions on the first screen, and a request is of the screen. -/
structure Tidy (p : Peer) : Prop where
  sessions : p.screen = .one → p.ctx.activeGroups = []
  screen : ∀ cmd, p.pending = some cmd → cmd.screen = p.screen

theorem Tidy.ask {p : Peer} (h : Tidy p) (hpending : p.pending = none) {cmd : Command}
    (hscreen : cmd.screen = p.screen) (stale : TLVMessage) : Tidy (p.ask cmd stale) := by
  unfold Peer.ask
  split
  · refine ⟨h.sessions, fun cmd' hcmd => ?_⟩
    obtain rfl := Option.some.inj hcmd
    exact hscreen
  · split
    · refine ⟨fun _ => rfl, fun cmd' hcmd => ?_⟩
      rw [hpending] at hcmd
      cases hcmd
    · exact h

theorem Tidy.finish {p : Peer} (h : Tidy p) {cmd : Command} (hpending : p.pending = some cmd)
    (pids : ℕ × ℕ) (response : Option TLVMessage) : Tidy (p.finish cmd pids response) := by
  have hscreen := h.screen cmd hpending
  refine ⟨fun hone => ?_, nofun⟩
  cases cmd with
  | register username password | login username password =>
    have hempty := h.sessions hscreen.symm
    cases response with
    | none => exact hempty
    | some m =>
      simp only [Peer.finish, Command.handler, Client.handleRegister, Client.handleLogin]
      split <;> exact hempty
  | exit => rfl
  | createGroup name | joinGroup name | leaveGroup name =>
    rw [show (p.finish _ pids response).screen = p.screen from rfl, ← hscreen] at hone
    cases hone
  | logout => rfl

/-- What the other steps do to a client. -/
theorem Tidy.congr {p q : Peer} (h : Tidy p) (hctx : q.ctx.activeGroups = p.ctx.activeGroups)
    (hscreen : q.screen = p.screen) (hpending : q.pending = p.pending) : Tidy q := by
  constructor
  · rw [hctx, hscreen]
    exact h.sessions
  · rw [hpending, hscreen]
    exact h.screen

theorem MeshStep.tidy {mesh mesh' : Mesh} {event : MeshEvent} (hs : MeshStep mesh event mesh')
    (h : ∀ c, Tidy (mesh.peers c)) : ∀ c, Tidy (mesh'.peers c) := by
  have hupdate : ∀ {c : ℕ} {server : ServerContext} {p : Peer}, Tidy p →
      ∀ c', Tidy ((mesh.update c server p).peers c') := by
    intro c server p hp c'
    by_cases hc : c' = c
    · rw [hc, Mesh.update_self]
      exact hp
    · rw [Mesh.update_of_ne _ hc]
      exact h c'
  cases meshStep_iff.mp hs with
  | connect | drop => exact hupdate ((h _).congr rfl rfl rfl)
  | accept =>
    refine hupdate ?_
    unfold Peer.accept
    split <;> exact (h _).congr rfl rfl rfl
  | ask hup hpending hscreen => exact hupdate ((h _).ask hpending hscreen _)
  | serve => exact hupdate ((h _).congr rfl rfl rfl)
  | answer hpending => exact hupdate ((h _).finish hpending _ _)
  | fail hpending => exact hupdate ((h _).finish hpending _ _)
  | eof => exact hupdate ((h _).congr rfl rfl rfl)

/-- The server knows a window: its client's connection is a member of the group, and
the user logged in on it is the one whose name the window shows. -/
def KnownAs (ctx : ServerContext) (fd : Int) (w : ChatWindow) : Prop :=
  (∃ grp ∈ ctx.groups, grp.name = w.group ∧ fd ∈ grp.members) ∧
    ∃ u, activeOn ctx.users fd = [u] ∧ u.username = w.proc.username

theorem knownAs_of_mesh {mesh : Mesh} (h : MeshInv mesh) (htidy : ∀ c, Tidy (mesh.peers c)) {c : ℕ}
    {fd : Int} (hc : SettledOn mesh c fd) {w : ChatWindow} (hw : OpenedBy (mesh.peers c).ctx w) :
    KnownAs mesh.server fd w := by
  obtain ⟨session, hs, hgroup, -, hname⟩ := hw
  obtain ⟨hcoh, hview⟩ := ((PeerInv.accepted hc.link).mp (h.peers c)).view_of_settled hc.up hc.pending
  obtain ⟨grp, hg, hmember, hgname, -⟩ := group_of_session hview hs
  have hscreen : (mesh.peers c).screen = .two := by
    cases hone : (mesh.peers c).screen with
    | one =>
      rw [(htidy c).sessions hone] at hs
      cases hs
    | two => rfl
  obtain ⟨u, hactive, huser⟩ := activeOn_of_loggedIn h.server.ok hview (hcoh.screen.mpr hscreen)
  exact ⟨⟨grp, hg, hgname.symm.trans hgroup.symm, hmember⟩, u, hactive, huser.trans hname.symm⟩

/-- The meeting before the first client leaves. -/
def together : List MeshEvent := meeting.take (meeting.length - 3)

/-- The sender of the first client and the receiver of the second one, on two hosts. -/
def togetherWindows : Windows :=
  ⟨[⟨0, ⟨1, (poolEntry 0).ip, nameOf 0, true⟩, nameOf 0⟩],
    [⟨1, ⟨2, (poolEntry 0).ip, nameOf 1, true⟩, nameOf 0⟩]⟩

end MeshChat
