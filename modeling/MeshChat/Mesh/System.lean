import MeshChat.Mesh.ServerViews
import MeshChat.Mesh.ClientView

/-!
# Clients and server

Any number of client processes and one server. Each client has a request under
way at most, on a connection of its own; every step is a step of one client or
one event of the server loop, and the steps come in any order. What is read from
a connection agrees with what was sent on it.
-/
namespace MeshChat
open Server Client Runs

/-- However the bytes are cut, the server reads what the client asked. -/
theorem request_delivered {cmd : Command} {ctx : ClientContext} {stale m : TLVMessage}
    (h : cmd.request ctx stale = some m) {s peer : Socket} (sendBuf : FrameBuf)
    (into : TLVMessage) (hs : Chunked.Flows s.writes) (hf : Chunked.Flows peer.reads)
    (hpeer : peer.unread = (sendRequest s sendBuf m).2.written.drop s.written.length) :
    (sendRequest s sendBuf m).1 = 0 ∧
      ∃ got, m.Agrees got ∧ ∃ peer', netReadMsg peer into = (0, got, peer') ∧ peer'.unread = [] := by
  have hlen := ClientRequest.build_length (Command.request_spec h).1
  have hsent : (sendRequest s sendBuf m).1 = 0 := by
    rw [sendRequest_eq]
    exact (netSendMsg_flows hs sendBuf m).1
  refine ⟨hsent, ?_⟩
  rw [sendRequest_eq] at hpeer hsent
  rw [netSendMsg_written hsent, m.outLen_eq_iff.mpr hlen, ← m.frame_length, List.take_length,
    List.drop_left, ← List.append_nil m.frame] at hpeer
  obtain ⟨later, got, _, hgot, hread⟩ := netReadMsg_frame hf hpeer into
  exact ⟨got, hgot, _, hread, rfl⟩

/-- And the client receives what the server answered. -/
theorem reply_delivered {reply : Reply} {m : TLVMessage} (h : reply.Describes m) {s peer : Socket}
    (buf recvBuf : FrameBuf) (into : TLVMessage) (hs : Chunked.Flows s.writes)
    (hf : Chunked.Flows peer.reads)
    (hpeer : peer.unread = (netSendMsg s buf m).2.written.drop s.written.length) :
    (netSendMsg s buf m).1 = 0 ∧
      ∃ got, m.Agrees got ∧ ∃ peer', recvResponse peer recvBuf into = (0, got, peer') ∧
        peer'.unread = [] := by
  have hlen := h.length_le
  have hsent := (netSendMsg_flows hs buf m).1
  rw [netSendMsg_written hsent, m.outLen_eq_iff.mpr hlen, ← m.frame_length, List.take_length,
    List.drop_left, ← List.append_nil m.frame] at hpeer
  obtain ⟨later, got, _, hgot, hread⟩ := recvResponse_frame hf hlen hpeer recvBuf into
  exact ⟨hsent, got, hgot, _, hread, rfl⟩

theorem describes_of_agrees {reply : Reply} {m got : TLVMessage} (h : reply.Describes m)
    (hgot : m.Agrees got) : reply.Describes got :=
  ⟨hgot.1.symm.trans h.1, hgot.2.2.symm.trans h.2⟩

/-- How far the connection of a client has come. A connection waits in the
backlog of the listening socket until the server accepts it; it is closed when
the server has closed it. -/
inductive Link where
  | off
  | backlog
  | accepted (fd : Int)
  | closed
  deriving DecidableEq

/-- A client process: its context and screen, the command whose reply it waits
for, whether it still runs, and its connection with the messages on it. -/
structure Peer where
  ctx : ClientContext
  screen : Screen
  pending : Option Command
  up : Bool
  link : Link
  toServer : Option TLVMessage
  toClient : Option TLVMessage

/-- The message for a descriptor among those that were sent. -/
def mailFor (fd : Int) (sent : List Sent) : Option TLVMessage :=
  (sent.find? fun s => decide (s.fd = fd)).map (·.msg)

namespace Peer

/-- A client that was not started yet. -/
def idle : Peer := ⟨startContext, .one, none, false, .off, none, none⟩

def connect (sock : Int) (p : Peer) : Peer :=
  { p with ctx := netConnect sock p.ctx, up := true, link := .backlog }

/-- The server took the connection into `client_fds`, or rejected it. -/
def accept (fd : Int) (clientFds : List Int) (sent : List Sent) (p : Peer) : Peer :=
  if fd ∈ clientFds then { p with link := .accepted fd }
  else { p with link := .closed, toClient := mailFor fd sent }

/-- A command is chosen: its handler runs up to the reply. Where a local check
fails the handler returns, and only the exit ends the process then, too. -/
def ask (cmd : Command) (stale : TLVMessage) (p : Peer) : Peer :=
  match cmd.request p.ctx stale with
  | some m => { p with pending := some cmd, toServer := some m }
  | none =>
      if cmd = .exit then { p with ctx := (clientExit.finish p.ctx none).1, up := false } else p

/-- The server served the request; a negative value closes the connection. -/
def serve (fd : Int) (ret : Int) (sent : List Sent) (p : Peer) : Peer :=
  { p with
    toServer := none
    toClient := mailFor fd sent
    link := if ret < 0 then .closed else p.link }

@[simp] theorem serve_ctx (fd ret : Int) (sent : List Sent) (p : Peer) :
    (p.serve fd ret sent).ctx = p.ctx := rfl

/-- The rest of the handler, with the response if there is one. -/
def finish (cmd : Command) (pids : ℕ × ℕ) (response : Option TLVMessage) (p : Peer) : Peer :=
  let r := (cmd.handler pids).finish p.ctx response
  { p with
    ctx := r.1
    screen := cmd.next r.2 p.screen
    pending := none
    toClient := none
    up := decide (cmd ≠ .exit) }

end Peer

structure Mesh where
  server : ServerContext
  peers : ℕ → Peer

/-- A step of client `c`, or of the server on the connection of client `c`. -/
inductive MeshEvent where
  /-- The process starts and connects. -/
  | connect (c : ℕ) (sock : Int)
  /-- The server accepts the connection as `fd`. -/
  | accept (c : ℕ) (fd : Int) (env : Env)
  /-- The user chooses a command that the screen offers. -/
  | ask (c : ℕ) (cmd : Command) (stale : TLVMessage)
  /-- The server reads the request and serves it. -/
  | serve (c : ℕ) (env : Env) (msg : TLVMessage)
  /-- The client receives the reply. -/
  | answer (c : ℕ) (response : TLVMessage) (pids : ℕ × ℕ)
  /-- The client's call fails, because the server closed the connection. -/
  | fail (c : ℕ) (pids : ℕ × ℕ)
  /-- The client process ends at any point. -/
  | drop (c : ℕ)
  /-- The server finds that it has. -/
  | eof (c : ℕ) (env : Env)

namespace Mesh

/-- The server `ctx`, and no client yet. -/
def start (ctx : ServerContext) : Mesh := ⟨ctx, fun _ => .idle⟩

/-- One client changes, and perhaps the server. -/
def update (mesh : Mesh) (c : ℕ) (server : ServerContext) (p : Peer) : Mesh :=
  ⟨server, Function.update mesh.peers c p⟩

@[simp] theorem update_self (mesh : Mesh) (c : ℕ) (server : ServerContext) (p : Peer) :
    (mesh.update c server p).peers c = p := Function.update_self ..

theorem update_of_ne (mesh : Mesh) {c c' : ℕ} (h : c' ≠ c) (server : ServerContext) (p : Peer) :
    (mesh.update c server p).peers c' = mesh.peers c' := Function.update_of_ne h ..

end Mesh

/-- One step, where it is possible. -/
def runMesh (mesh : Mesh) : MeshEvent → Option Mesh
  | .connect c sock =>
      let p := mesh.peers c
      if p.link = .off ∧ 0 ≤ sock then some (mesh.update c mesh.server (p.connect sock)) else none
  | .accept c fd env =>
      let p := mesh.peers c
      if p.link = .backlog then
        (runEvent env mesh.server (.accept fd)).map fun r =>
          mesh.update c r.1 (p.accept fd r.1.clientFds r.2)
      else none
  | .ask c cmd stale =>
      let p := mesh.peers c
      if p.up = true ∧ p.pending = none ∧ cmd.screen = p.screen then
        some (mesh.update c mesh.server (p.ask cmd stale))
      else none
  | .serve c env msg =>
      let p := mesh.peers c
      match p.link, p.toServer with
      | .accepted fd, some m =>
          if m.Agrees msg then
            (runEvent env mesh.server (.request fd msg)).map fun r =>
              mesh.update c r.1 (p.serve fd (dispatchMessage env mesh.server fd msg).2.2 r.2)
          else none
      | _, _ => none
  | .answer c response pids =>
      let p := mesh.peers c
      match p.pending, p.toClient with
      | some cmd, some m =>
          if p.up = true ∧ m.Agrees response then
            some (mesh.update c mesh.server (p.finish cmd pids (some response)))
          else none
      | _, _ => none
  | .fail c pids =>
      let p := mesh.peers c
      match p.pending with
      | some cmd =>
          if p.up = true ∧ p.link = .closed then
            some (mesh.update c mesh.server (p.finish cmd pids none))
          else none
      | none => none
  | .drop c =>
      let p := mesh.peers c
      if p.up = true then some (mesh.update c mesh.server { p with up := false }) else none
  | .eof c env =>
      let p := mesh.peers c
      match p.link with
      | .accepted fd =>
          if p.up = false then
            (runEvent env mesh.server (.eof fd)).map fun r =>
              mesh.update c r.1 { p with link := .closed }
          else none
      | _ => none

def MeshStep (mesh : Mesh) (event : MeshEvent) (mesh' : Mesh) : Prop :=
  runMesh mesh event = some mesh'

/-- What a step needs and what it does. -/
inductive MeshEffect (mesh : Mesh) : MeshEvent → Mesh → Prop
  | connect {c : ℕ} {sock : Int} : (mesh.peers c).link = .off → 0 ≤ sock →
      MeshEffect mesh (.connect c sock)
        (mesh.update c mesh.server ((mesh.peers c).connect sock))
  | accept {c : ℕ} {fd : Int} {env : Env} {server : ServerContext} {sent : List Sent} :
      (mesh.peers c).link = .backlog →
      runEvent env mesh.server (.accept fd) = some (server, sent) →
      MeshEffect mesh (.accept c fd env)
        (mesh.update c server ((mesh.peers c).accept fd server.clientFds sent))
  | ask {c : ℕ} {cmd : Command} {stale : TLVMessage} : (mesh.peers c).up = true →
      (mesh.peers c).pending = none → cmd.screen = (mesh.peers c).screen →
      MeshEffect mesh (.ask c cmd stale)
        (mesh.update c mesh.server ((mesh.peers c).ask cmd stale))
  | serve {c : ℕ} {env : Env} {msg m : TLVMessage} {fd : Int} {server : ServerContext}
      {sent : List Sent} : (mesh.peers c).link = .accepted fd → (mesh.peers c).toServer = some m →
      m.Agrees msg → runEvent env mesh.server (.request fd msg) = some (server, sent) →
      MeshEffect mesh (.serve c env msg) (mesh.update c server
        ((mesh.peers c).serve fd (dispatchMessage env mesh.server fd msg).2.2 sent))
  | answer {c : ℕ} {response m : TLVMessage} {pids : ℕ × ℕ} {cmd : Command} :
      (mesh.peers c).pending = some cmd → (mesh.peers c).toClient = some m →
      (mesh.peers c).up = true → m.Agrees response →
      MeshEffect mesh (.answer c response pids)
        (mesh.update c mesh.server ((mesh.peers c).finish cmd pids (some response)))
  | fail {c : ℕ} {pids : ℕ × ℕ} {cmd : Command} : (mesh.peers c).pending = some cmd →
      (mesh.peers c).up = true → (mesh.peers c).link = .closed →
      MeshEffect mesh (.fail c pids)
        (mesh.update c mesh.server ((mesh.peers c).finish cmd pids none))
  | drop {c : ℕ} : (mesh.peers c).up = true →
      MeshEffect mesh (.drop c) (mesh.update c mesh.server { mesh.peers c with up := false })
  | eof {c : ℕ} {env : Env} {fd : Int} {server : ServerContext} {sent : List Sent} :
      (mesh.peers c).link = .accepted fd → (mesh.peers c).up = false →
      runEvent env mesh.server (.eof fd) = some (server, sent) →
      MeshEffect mesh (.eof c env)
        (mesh.update c server { mesh.peers c with link := .closed })

theorem meshStep_iff {mesh mesh' : Mesh} {event : MeshEvent} :
    MeshStep mesh event mesh' ↔ MeshEffect mesh event mesh' := by
  constructor
  · intro hs
    cases event with
    | connect c sock =>
      obtain ⟨⟨hoff, hsock⟩, hs⟩ := Option.ite_none_right_eq_some.mp hs
      obtain rfl := Option.some.inj hs
      exact .connect hoff hsock
    | accept c fd env =>
      obtain ⟨hlink, hs⟩ := Option.ite_none_right_eq_some.mp hs
      obtain ⟨r, hrun, rfl⟩ := Option.map_eq_some_iff.mp hs
      exact .accept hlink hrun
    | ask c cmd stale =>
      obtain ⟨⟨hup, hpending, hscreen⟩, hs⟩ := Option.ite_none_right_eq_some.mp hs
      obtain rfl := Option.some.inj hs
      exact .ask hup hpending hscreen
    | serve c env msg =>
      simp only [MeshStep, runMesh] at hs
      split at hs
      · obtain ⟨hmsg, hs⟩ := Option.ite_none_right_eq_some.mp hs
        obtain ⟨r, hrun, rfl⟩ := Option.map_eq_some_iff.mp hs
        exact .serve ‹_› ‹_› hmsg hrun
      · cases hs
    | answer c response pids =>
      simp only [MeshStep, runMesh] at hs
      split at hs
      · obtain ⟨⟨hup, hmsg⟩, hs⟩ := Option.ite_none_right_eq_some.mp hs
        obtain rfl := Option.some.inj hs
        exact .answer ‹_› ‹_› hup hmsg
      · cases hs
    | fail c pids =>
      simp only [MeshStep, runMesh] at hs
      split at hs
      · obtain ⟨⟨hup, hlink⟩, hs⟩ := Option.ite_none_right_eq_some.mp hs
        obtain rfl := Option.some.inj hs
        exact .fail ‹_› hup hlink
      · cases hs
    | drop c =>
      obtain ⟨hup, hs⟩ := Option.ite_none_right_eq_some.mp hs
      obtain rfl := Option.some.inj hs
      exact .drop hup
    | eof c env =>
      simp only [MeshStep, runMesh] at hs
      split at hs
      · obtain ⟨hup, hs⟩ := Option.ite_none_right_eq_some.mp hs
        obtain ⟨r, hrun, rfl⟩ := Option.map_eq_some_iff.mp hs
        exact .eof ‹_› hup hrun
      · cases hs
  · intro hs
    cases hs with
    | connect hoff hsock => exact if_pos ⟨hoff, hsock⟩
    | accept hlink hrun =>
      simp only [MeshStep, runMesh, if_pos hlink, hrun, Option.map_some]
    | ask hup hpending hscreen => exact if_pos ⟨hup, hpending, hscreen⟩
    | serve hlink hserver hmsg hrun =>
      simp only [MeshStep, runMesh, hlink, hserver, if_pos hmsg, hrun, Option.map_some]
    | answer hpending hclient hup hmsg =>
      simp only [MeshStep, runMesh, hpending, hclient, if_pos (And.intro hup hmsg)]
    | fail hpending hup hlink =>
      simp only [MeshStep, runMesh, hpending, if_pos (And.intro hup hlink)]
    | drop hup => exact if_pos hup
    | eof hlink hup hrun =>
      simp only [MeshStep, runMesh, hlink, if_pos hup, hrun, Option.map_some]

/-- No allocation of the server fails during the event. -/
def MeshEvent.AllocOk : MeshEvent → Prop
  | accept _ _ env | serve _ env _ | eof _ env => env.AllocOk
  | _ => True

end MeshChat
