import MeshChat.Mesh.Agreement
import MeshChat.Server.Slots

/-!
# The server in its own order

The same server and clients, with the order in which `server_run` works. Connections are
accepted oldest first, one in a round; `select` reports all that is ready, and what it
reported is served slot by slot before it is called again. The clients act at any time in
between. Every step is one of the free system, or one of the server's control alone.
-/
namespace MeshChat
open Server Client Runs

/-- What makes `select` report a connection: a request on it, or the end of the client. -/
def Peer.ready (p : Peer) : Bool := p.toServer.isSome || !p.up

/-- The client that takes part in a step. -/
def MeshEvent.client : MeshEvent → ℕ
  | connect c _ | accept c _ _ | ask c _ _ | serve c _ _ | answer c _ _ | fail c _ | drop c
  | eof c _ => c

/-- The steps of the client processes. -/
def MeshEvent.ofClient : MeshEvent → Bool
  | connect .. | ask .. | answer .. | fail .. | drop _ => true
  | accept .. | serve .. | eof .. => false

/-- The client that a step starts. -/
def MeshEvent.starts : MeshEvent → List ℕ
  | connect c _ => [c]
  | _ => []

theorem MeshEvent.eq_client_of_mem_starts {event : MeshEvent} {c : ℕ} (h : c ∈ event.starts) :
    c = event.client := by
  cases event <;> first | exact List.mem_singleton.mp h | cases h

theorem MeshEvent.starts_nodup (event : MeshEvent) : event.starts.Nodup := by
  cases event <;> first | exact List.nodup_singleton _ | exact List.nodup_nil

/-- Server and clients, with what the loop of `server_run` has before it. -/
structure Rounds where
  mesh : Mesh
  started : List ℕ
  /-- The clients whose connections are to be accepted, oldest first. -/
  backlog : List ℕ
  /-- The listening socket was reported and its connection not accepted yet. -/
  accepts : Bool
  /-- The clients whose connections were reported and not served yet, by their slots. -/
  reported : List ℕ

namespace Rounds

def start (ctx : ServerContext) : Rounds := ⟨.start ctx, [], [], false, []⟩

/-- The client whose connection has the descriptor. -/
def clientOn (s : Rounds) (fd : Int) : Option ℕ :=
  s.started.find? fun c => decide ((s.mesh.peers c).link = .accepted fd)

/-- The clients that `select` reports now. -/
def readyClients (s : Rounds) : List ℕ :=
  (s.mesh.server.clientFds.filterMap s.clientOn).filter fun c => (s.mesh.peers c).ready

/-- A step of a client leaves the loop where it is; a new connection goes to the end. -/
def afterClient (s : Rounds) (event : MeshEvent) (mesh : Mesh) : Rounds :=
  { s with mesh, started := s.started ++ event.starts, backlog := s.backlog ++ event.starts }

def afterSelect (s : Rounds) : Rounds :=
  { s with accepts := !s.backlog.isEmpty, reported := s.readyClients }

/-- What the server does with a connection that was reported. -/
def serving (s : Rounds) (c : ℕ) (env : Env) (msg : TLVMessage) : MeshEvent :=
  if (s.mesh.peers c).toServer.isSome then .serve c env msg else .eof c env

end Rounds

inductive RoundEvent where
  | client (event : MeshEvent)
  | select
  | accept (fd : Int) (env : Env)
  | serve (env : Env) (msg : TLVMessage)

/-- One step, where it is possible. -/
def runRound (s : Rounds) : RoundEvent → Option Rounds
  | .client event =>
      if event.ofClient = true then (runMesh s.mesh event).map (s.afterClient event) else none
  | .select =>
      if s.accepts = false ∧ s.reported = [] ∧ (s.backlog ≠ [] ∨ s.readyClients ≠ []) then
        some s.afterSelect
      else none
  | .accept fd env =>
      match s.accepts, s.backlog with
      | true, c :: backlog =>
          (runMesh s.mesh (.accept c fd env)).map fun mesh =>
            { s with mesh, backlog, accepts := false }
      | _, _ => none
  | .serve env msg =>
      match s.accepts, s.reported with
      | false, c :: reported =>
          (runMesh s.mesh (s.serving c env msg)).map fun mesh => { s with mesh, reported }
      | _, _ => none

def RoundStep (s : Rounds) (e : RoundEvent) (s' : Rounds) : Prop := runRound s e = some s'

namespace RoundEvent

/-- A step of the server. -/
def ofServer : RoundEvent → Bool
  | client _ => false
  | _ => true

/-- A step of the process of client `c`. -/
def isOf (c : ℕ) : RoundEvent → Prop
  | client event => event.client = c
  | _ => False

/-- No allocation of the server fails during the step. -/
def AllocOk : RoundEvent → Prop
  | client _ | select => True
  | accept _ env | serve env _ => env.AllocOk

end RoundEvent

/-- What a step needs and what it does. -/
inductive RoundEffect (s : Rounds) : RoundEvent → Rounds → Prop
  | client {event : MeshEvent} {mesh : Mesh} : event.ofClient = true →
      MeshEffect s.mesh event mesh → RoundEffect s (.client event) (s.afterClient event mesh)
  | select : s.accepts = false → s.reported = [] → s.backlog ≠ [] ∨ s.readyClients ≠ [] →
      RoundEffect s .select s.afterSelect
  | accept {fd : Int} {env : Env} {c : ℕ} {backlog : List ℕ} {mesh : Mesh} : s.accepts = true →
      s.backlog = c :: backlog → MeshEffect s.mesh (.accept c fd env) mesh →
      RoundEffect s (.accept fd env) { s with mesh, backlog, accepts := false }
  | serve {env : Env} {msg : TLVMessage} {c : ℕ} {reported : List ℕ} {mesh : Mesh} :
      s.accepts = false → s.reported = c :: reported →
      MeshEffect s.mesh (s.serving c env msg) mesh →
      RoundEffect s (.serve env msg) { s with mesh, reported }

theorem roundStep_iff {s s' : Rounds} {e : RoundEvent} :
    RoundStep s e s' ↔ RoundEffect s e s' := by
  constructor
  · intro hs
    cases e with
    | client event =>
      obtain ⟨hclient, hs⟩ := Option.ite_none_right_eq_some.mp hs
      obtain ⟨mesh, hrun, rfl⟩ := Option.map_eq_some_iff.mp hs
      exact .client hclient (meshStep_iff.mp hrun)
    | select =>
      obtain ⟨⟨haccepts, hreported, hready⟩, hs⟩ := Option.ite_none_right_eq_some.mp hs
      obtain rfl := Option.some.inj hs
      exact .select haccepts hreported hready
    | accept fd env =>
      simp only [RoundStep, runRound] at hs
      split at hs
      · obtain ⟨mesh, hrun, rfl⟩ := Option.map_eq_some_iff.mp hs
        exact .accept ‹_› ‹_› (meshStep_iff.mp hrun)
      · cases hs
    | serve env msg =>
      simp only [RoundStep, runRound] at hs
      split at hs
      · obtain ⟨mesh, hrun, rfl⟩ := Option.map_eq_some_iff.mp hs
        exact .serve ‹_› ‹_› (meshStep_iff.mp hrun)
      · cases hs
  · intro hs
    cases hs with
    | client hclient hmesh =>
      have hrun : runMesh s.mesh _ = some _ := meshStep_iff.mpr hmesh
      rw [RoundStep, runRound, if_pos hclient, hrun, Option.map_some]
    | select haccepts hreported hready => exact if_pos ⟨haccepts, hreported, hready⟩
    | accept haccepts hbacklog hmesh =>
      have hrun : runMesh s.mesh _ = some _ := meshStep_iff.mpr hmesh
      simp only [RoundStep, runRound, haccepts, hbacklog, hrun, Option.map_some]
    | serve haccepts hreported hmesh =>
      have hrun : runMesh s.mesh _ = some _ := meshStep_iff.mpr hmesh
      simp only [RoundStep, runRound, haccepts, hreported, hrun, Option.map_some]

section Effects
variable {mesh mesh' : Mesh} {event : MeshEvent}

/-- The other clients are not changed. -/
theorem MeshEffect.frame (hs : MeshEffect mesh event mesh') {c : ℕ} (hc : c ≠ event.client) :
    mesh'.peers c = mesh.peers c := by
  cases hs <;> exact mesh.update_of_ne hc ..

/-- A step of a client makes its connection wait, or leaves it as it is, and ready if it
was. -/
theorem MeshEffect.ofClient (hs : MeshEffect mesh event mesh') (hclient : event.ofClient = true) :
    event.starts = [event.client] ∧ (mesh.peers event.client).link = .off ∧
        (mesh'.peers event.client).link = .backlog ∨
      event.starts = [] ∧ (mesh'.peers event.client).link = (mesh.peers event.client).link ∧
        ((mesh.peers event.client).ready = true → (mesh'.peers event.client).ready = true) := by
  cases hs with
  | @connect c sock hoff _ =>
    refine Or.inl ⟨rfl, hoff, ?_⟩
    rw [MeshEvent.client, mesh.update_self]
    rfl
  | @ask c cmd stale _ _ _ =>
    refine Or.inr ⟨rfl, ?_, fun hready => ?_⟩
    · rw [MeshEvent.client, mesh.update_self, Peer.ask_link]
    · rw [MeshEvent.client, mesh.update_self]
      unfold Peer.ask
      split
      · rfl
      · split
        · simp [Peer.ready]
        · exact hready
  | @answer c response m pids cmd _ _ hup _ | @fail c pids cmd _ hup _ =>
    refine Or.inr ⟨rfl, ?_, fun hready => ?_⟩
    · rw [MeshEvent.client, mesh.update_self]
      rfl
    · rw [MeshEvent.client, mesh.update_self]
      have hasked : (mesh.peers c).toServer.isSome = true := by
        simpa [Peer.ready, MeshEvent.client, hup] using hready
      rw [Peer.ready, Bool.or_eq_true]
      exact Or.inl hasked
  | @drop c _ =>
    refine Or.inr ⟨rfl, ?_, fun _ => ?_⟩
    · rw [MeshEvent.client, mesh.update_self]
    · rw [MeshEvent.client, mesh.update_self]
      simp [Peer.ready]
  | accept | serve | eof => cases hclient

/-- And so for every client. -/
theorem MeshEffect.ofClient_cases (hs : MeshEffect mesh event mesh')
    (hclient : event.ofClient = true) (c : ℕ) :
    c ∈ event.starts ∧ (mesh.peers c).link = .off ∧ (mesh'.peers c).link = .backlog ∨
      c ∉ event.starts ∧ (mesh'.peers c).link = (mesh.peers c).link ∧
        ((mesh.peers c).ready = true → (mesh'.peers c).ready = true) := by
  by_cases hc : c = event.client
  · subst hc
    rcases hs.ofClient hclient with ⟨hstarts, hlinks⟩ | ⟨hstarts, hlinks⟩
    · exact Or.inl ⟨hstarts ▸ List.mem_singleton_self _, hlinks⟩
    · exact Or.inr ⟨hstarts ▸ List.not_mem_nil, hlinks⟩
  · rw [hs.frame hc]
    exact Or.inr ⟨fun hstarts => hc (MeshEvent.eq_client_of_mem_starts hstarts), rfl, id⟩

/-- What a step of the server does to the client it is about: its connection is accepted
or rejected, or it is served. -/
structure Attended (p q : Peer) : Prop where
  up : q.up = p.up
  pending : q.pending = p.pending
  link : (∃ fd, q.link = .accepted fd) ∨ q.link = .closed

theorem MeshEffect.accepted {c : ℕ} {fd : Int} {env : Env}
    (hs : MeshEffect mesh (.accept c fd env) mesh') :
    (mesh.peers c).link = .backlog ∧ Attended (mesh.peers c) (mesh'.peers c) ∧
      ((mesh'.peers c).link = .closed ∨ (mesh'.peers c).toClient = (mesh.peers c).toClient) := by
  cases hs with
  | accept hlink hrun =>
    rw [mesh.update_self, Peer.accept]
    split
    · exact ⟨hlink, ⟨rfl, rfl, Or.inl ⟨fd, rfl⟩⟩, Or.inr rfl⟩
    · exact ⟨hlink, ⟨rfl, rfl, Or.inr rfl⟩, Or.inl rfl⟩

theorem MeshEffect.served {s : Rounds} {c : ℕ} {env : Env} {msg : TLVMessage}
    (hs : MeshEffect s.mesh (s.serving c env msg) mesh') :
    (∃ fd, (s.mesh.peers c).link = .accepted fd) ∧ Attended (s.mesh.peers c) (mesh'.peers c) ∧
      ((s.mesh.peers c).up = true → (mesh'.peers c).toServer = none) := by
  unfold Rounds.serving at hs
  split at hs
  · cases hs with
    | @serve _ _ _ m fd server sent hlink hserver _ hrun =>
      rw [s.mesh.update_self]
      refine ⟨⟨fd, hlink⟩, ⟨rfl, rfl, ?_⟩, fun _ => rfl⟩
      rw [Peer.serve, hlink]
      dsimp only
      split
      · exact Or.inr rfl
      · exact Or.inl ⟨fd, rfl⟩
  · cases hs with
    | @eof _ _ fd server sent hlink hup hrun =>
      rw [s.mesh.update_self]
      refine ⟨⟨fd, hlink⟩, ⟨rfl, rfl, Or.inr rfl⟩, fun hup' => ?_⟩
      rw [hup] at hup'
      cases hup'

/-- The slots of the server stay distinct, and as many. -/
theorem MeshEffect.slots (hs : MeshEffect mesh event mesh')
    (h : SlotsInj mesh.server.clientFds) :
    SlotsInj mesh'.server.clientFds ∧
      mesh'.server.clientFds.length = mesh.server.clientFds.length := by
  have hclose : ∀ {ctx : ServerContext} (i : ℕ), ctx.clientFds = mesh.server.clientFds →
      SlotsInj (setSlot ctx i (-1)).clientFds ∧
        (setSlot ctx i (-1)).clientFds.length = mesh.server.clientFds.length := by
    intro ctx i hsame
    rw [← hsame] at h ⊢
    exact ⟨h.close i, List.length_set⟩
  cases hs with
  | @accept c fd env server sent _ hrun =>
    obtain ⟨⟨-, -, hnew⟩, hrun⟩ := Option.ite_none_right_eq_some.mp hrun
    rcases acceptClient_cases env mesh.server fd with ⟨i, x, hslot, hx, heq⟩ | ⟨-, heq⟩
    · obtain ⟨rfl, -⟩ := Prod.mk.inj ((Option.some.inj hrun).symm.trans heq)
      exact ⟨h.take hslot hx hnew, List.length_set⟩
    · obtain ⟨rfl, -⟩ := Prod.mk.inj ((Option.some.inj hrun).symm.trans heq)
      exact ⟨h, rfl⟩
  | @serve c env msg m fd server sent _ _ _ hrun =>
    obtain ⟨-, hrun⟩ := Option.ite_none_right_eq_some.mp hrun
    have hsame := (dispatchMessage_sameLoop env mesh.server fd msg).clientFds
    obtain rfl : (serveClient env mesh.server
        (findSlot mesh.server.clientFds fun c => decide (c = fd)) fd msg).1 = server :=
      congrArg Prod.fst (Option.some.inj hrun)
    rw [serveClient]
    split
    · exact hclose _ hsame
    · rw [Mesh.update, hsame]
      exact ⟨h, rfl⟩
  | @eof c env fd server sent _ _ hrun =>
    obtain ⟨-, hrun⟩ := Option.ite_none_right_eq_some.mp hrun
    obtain ⟨rfl, -⟩ := Prod.mk.inj (Option.some.inj hrun)
    exact hclose _ (cleanupClient_sameLoop env mesh.server fd).clientFds
  | _ => exact ⟨h, rfl⟩

end Effects

/-- What holds in every round: the lists of the loop name the connections they are
about, each once. -/
structure RoundsOk (s : Rounds) : Prop where
  mesh : MeshInv s.mesh
  slots : SlotsInj s.mesh.server.clientFds
  room : s.mesh.server.clientFds.length = maxClients
  started : ∀ c, (s.mesh.peers c).link ≠ .off → c ∈ s.started
  backlog : ∀ c, c ∈ s.backlog ↔ (s.mesh.peers c).link = .backlog
  backlog_nodup : s.backlog.Nodup
  accepts : s.accepts = true → s.backlog ≠ []
  reported : ∀ c ∈ s.reported,
    (∃ fd, (s.mesh.peers c).link = .accepted fd) ∧ (s.mesh.peers c).ready = true
  reported_nodup : s.reported.Nodup
  reported_length : s.reported.length ≤ maxClients

section Ok
variable {s s' : Rounds} {c : ℕ}

theorem Rounds.clientOn_eq_some (h : RoundsOk s) {fd : Int} :
    s.clientOn fd = some c ↔ (s.mesh.peers c).link = .accepted fd := by
  rw [Rounds.clientOn]
  have hfound : ∀ c', s.started.find? (fun c => decide ((s.mesh.peers c).link = .accepted fd)) =
      some c' → (s.mesh.peers c').link = .accepted fd := by
    intro c' hfind
    simpa using List.find?_some hfind
  constructor
  · exact hfound c
  · intro hlink
    have hin : c ∈ s.started := h.started c (by simp [hlink])
    obtain ⟨c', hfind⟩ := Option.isSome_iff_exists.mp (List.find?_isSome
      (p := fun c => decide ((s.mesh.peers c).link = .accepted fd)).mpr ⟨c, hin, by simpa using hlink⟩)
    rw [hfind, h.mesh.apart c' c fd (hfound c' hfind) hlink]

theorem Rounds.mem_readyClients (h : RoundsOk s) :
    c ∈ s.readyClients ↔
      (∃ fd, (s.mesh.peers c).link = .accepted fd) ∧ (s.mesh.peers c).ready = true := by
  rw [Rounds.readyClients, List.mem_filter, List.mem_filterMap]
  refine and_congr_left fun _ => ⟨?_, ?_⟩
  · rintro ⟨fd, -, hon⟩
    exact ⟨fd, (Rounds.clientOn_eq_some h).mp hon⟩
  · rintro ⟨fd, hlink⟩
    exact ⟨fd, (h.mesh.held c fd hlink).2, (Rounds.clientOn_eq_some h).mpr hlink⟩

theorem Rounds.readyClients_nodup (h : RoundsOk s) : s.readyClients.Nodup := by
  have hopen : s.mesh.server.clientFds.filterMap s.clientOn =
      (s.mesh.server.clientFds.filter fun fd => decide (0 ≤ fd)).filterMap s.clientOn := by
    rw [List.filterMap_filter]
    refine List.filterMap_congr fun fd _ => ?_
    by_cases hfd : 0 ≤ fd
    · simp [hfd]
    · rw [decide_eq_false hfd]
      refine Option.eq_none_iff_forall_ne_some.mpr fun c hon => hfd ?_
      exact (h.mesh.held c fd ((Rounds.clientOn_eq_some h).mp hon)).1
  rw [Rounds.readyClients, hopen]
  refine (List.Nodup.filterMap (fun fd fd' c hc hc' => ?_) h.slots.nodup).filter _
  have hlink := (Rounds.clientOn_eq_some h).mp hc
  have hlink' := (Rounds.clientOn_eq_some h).mp hc'
  exact Link.accepted.inj (hlink.symm.trans hlink')

theorem Rounds.readyClients_length (h : RoundsOk s) : s.readyClients.length ≤ maxClients :=
  (List.length_filter_le ..).trans ((List.length_filterMap_le ..).trans h.room.le)

end Ok

section Steps
variable {s : Rounds} {mesh : Mesh}

@[simp] theorem Rounds.serving_client (s : Rounds) (c : ℕ) (env : Env) (msg : TLVMessage) :
    (s.serving c env msg).client = c := by
  unfold Rounds.serving
  split <;> rfl

/-- Serving a connection does not change the clients of the others. -/
theorem MeshEffect.serving_frame {c c' : ℕ} {env : Env} {msg : TLVMessage}
    (hs : MeshEffect s.mesh (s.serving c env msg) mesh) (hc : c' ≠ c) :
    mesh.peers c' = s.mesh.peers c' := by
  rw [← s.serving_client c env msg] at hc
  exact hs.frame hc

theorem RoundsOk.client (h : RoundsOk s) {event : MeshEvent} (hclient : event.ofClient = true)
    (hs : MeshEffect s.mesh event mesh) (hmesh : MeshInv mesh) :
    RoundsOk (s.afterClient event mesh) := by
  obtain ⟨hslots, hroom⟩ := hs.slots h.slots
  have hcases := hs.ofClient_cases hclient
  refine ⟨hmesh, hslots, hroom.trans h.room, fun c hc => ?_, fun c => ?_, ?_, fun haccepts => ?_,
    fun c hc => ?_, h.reported_nodup, h.reported_length⟩
  · show c ∈ s.started ++ event.starts
    rw [List.mem_append]
    rcases hcases c with ⟨hstarts, -⟩ | ⟨-, hlink, -⟩
    · exact Or.inr hstarts
    · exact Or.inl (h.started c (hlink ▸ hc))
  · show c ∈ s.backlog ++ event.starts ↔ (mesh.peers c).link = .backlog
    rw [List.mem_append, h.backlog c]
    rcases hcases c with ⟨hstarts, -, hlink⟩ | ⟨hstarts, hlink, -⟩
    · exact iff_of_true (Or.inr hstarts) hlink
    · rw [hlink, or_iff_left hstarts]
  · show (s.backlog ++ event.starts).Nodup
    refine h.backlog_nodup.append (event.starts_nodup) fun c hc hstarts => ?_
    rcases hcases c with ⟨-, hoff, -⟩ | ⟨hnot, -⟩
    · rw [h.backlog c, hoff] at hc
      cases hc
    · exact hnot hstarts
  · exact List.append_ne_nil_of_left_ne_nil (h.accepts haccepts) _
  · obtain ⟨⟨fd, hfd⟩, hready⟩ := h.reported c hc
    rcases hcases c with ⟨-, hoff, -⟩ | ⟨-, hlink, hkept⟩
    · rw [hoff] at hfd
      cases hfd
    · exact ⟨⟨fd, hlink.trans hfd⟩, hkept hready⟩

theorem RoundsOk.select (h : RoundsOk s) : RoundsOk s.afterSelect := by
  have haccepts : (!s.backlog.isEmpty) = true → s.backlog ≠ [] := by
    intro hwaiting hnil
    rw [hnil] at hwaiting
    cases hwaiting
  exact ⟨h.mesh, h.slots, h.room, h.started, h.backlog, h.backlog_nodup, haccepts,
    fun c hc => (Rounds.mem_readyClients h).mp hc, Rounds.readyClients_nodup h,
    Rounds.readyClients_length h⟩

theorem RoundsOk.accept (h : RoundsOk s) {c : ℕ} {backlog : List ℕ} {fd : Int} {env : Env}
    (hbacklog : s.backlog = c :: backlog) (hs : MeshEffect s.mesh (.accept c fd env) mesh)
    (hmesh : MeshInv mesh) : RoundsOk { s with mesh, backlog, accepts := false } := by
  obtain ⟨hslots, hroom⟩ := hs.slots h.slots
  obtain ⟨hlink, hown, -⟩ := hs.accepted
  have hnodup := h.backlog_nodup
  rw [hbacklog, List.nodup_cons] at hnodup
  refine ⟨hmesh, hslots, hroom.trans h.room, fun c' hc' => ?_, fun c' => ?_, hnodup.2, nofun,
    fun c' hc' => ?_, h.reported_nodup, h.reported_length⟩
  · by_cases hne : c' = c
    · exact h.started c' (by simp [hne, hlink])
    · exact h.started c' (hs.frame hne ▸ hc')
  · by_cases hne : c' = c
    · subst hne
      refine iff_of_false hnodup.1 fun hwaits => ?_
      rcases hown.link with ⟨fd', hlink'⟩ | hlink' <;> exact nomatch hwaits.symm.trans hlink'
    · rw [hs.frame hne, ← h.backlog c', hbacklog, List.mem_cons, or_iff_right hne]
  · have hne : c' ≠ c := by
      rintro rfl
      obtain ⟨⟨fd', hfd'⟩, -⟩ := h.reported c' hc'
      exact nomatch hlink.symm.trans hfd'
    rw [hs.frame hne]
    exact h.reported c' hc'

theorem RoundsOk.serve (h : RoundsOk s) {c : ℕ} {reported : List ℕ} {env : Env} {msg : TLVMessage}
    (hreported : s.reported = c :: reported) (hs : MeshEffect s.mesh (s.serving c env msg) mesh)
    (hmesh : MeshInv mesh) : RoundsOk { s with mesh, reported } := by
  obtain ⟨hslots, hroom⟩ := hs.slots h.slots
  obtain ⟨⟨fd, hfd⟩, hown, -⟩ := hs.served
  have hnodup := h.reported_nodup
  have hlength := h.reported_length
  rw [hreported, List.nodup_cons] at hnodup
  rw [hreported, List.length_cons] at hlength
  refine ⟨hmesh, hslots, hroom.trans h.room, fun c' hc' => ?_, fun c' => ?_, h.backlog_nodup,
    h.accepts, fun c' hc' => ?_, hnodup.2, Nat.le_of_succ_le hlength⟩
  · by_cases hne : c' = c
    · exact h.started c' (by simp [hne, hfd])
    · exact h.started c' (hs.serving_frame hne ▸ hc')
  · refine (h.backlog c').trans ?_
    by_cases hne : c' = c
    · subst hne
      refine iff_of_false (fun hwaits => nomatch hwaits.symm.trans hfd) fun hwaits => ?_
      rcases hown.link with ⟨fd', hlink'⟩ | hlink' <;> exact nomatch hwaits.symm.trans hlink'
    · rw [hs.serving_frame hne]
  · have hne : c' ≠ c := by
      rintro rfl
      exact hnodup.1 hc'
    rw [hs.serving_frame hne]
    exact h.reported c' (hreported ▸ List.mem_cons_of_mem c hc')

/-- A step of the free system, or one of the loop's control. -/
theorem RoundEffect.meshStep {s s' : Rounds} {e : RoundEvent} (hs : RoundEffect s e s')
    (hok : e.AllocOk) :
    s'.mesh = s.mesh ∨ ∃ event : MeshEvent, event.AllocOk ∧ MeshStep s.mesh event s'.mesh := by
  cases hs with
  | @client event mesh hclient hs =>
    refine Or.inr ⟨event, ?_, meshStep_iff.mpr hs⟩
    cases event <;> trivial
  | select => exact Or.inl rfl
  | @accept fd env c _ _ _ _ hs => exact Or.inr ⟨.accept c fd env, hok, meshStep_iff.mpr hs⟩
  | @serve env msg c _ _ _ _ hs =>
    refine Or.inr ⟨_, ?_, meshStep_iff.mpr hs⟩
    unfold Rounds.serving
    split <;> exact hok

theorem RoundsOk.step (h : RoundsOk s) {s' : Rounds} {e : RoundEvent} (hok : e.AllocOk)
    (hs : RoundStep s e s') : RoundsOk s' := by
  have heffect := roundStep_iff.mp hs
  have hmesh : MeshInv s'.mesh := by
    rcases heffect.meshStep hok with heq | ⟨event, hevent, hstep⟩
    · exact heq ▸ h.mesh
    · exact h.mesh.step hevent hstep
  cases heffect with
  | client hclient hevent => exact h.client hclient hevent hmesh
  | select => exact h.select
  | accept _ hbacklog hevent => exact h.accept hbacklog hevent hmesh
  | serve _ hreported hevent => exact h.serve hreported hevent hmesh

end Steps

theorem Server.Initial.roundsOk {ctx : ServerContext} (h : Initial ctx) (listenFd : Int) :
    RoundsOk (.start (listening ctx listenFd)) := by
  refine ⟨h.meshInv listenFd, ?_, ?_, fun c hc => absurd rfl hc, fun c => ?_, List.nodup_nil,
    nofun, nofun, List.nodup_nil, Nat.zero_le _⟩
  · intro i j fd hfd hi _
    have hmem : fd ∈ ctx.clientFds := List.mem_of_getElem? hi
    rw [h.clientFds] at hmem
    have hneg := List.eq_of_mem_replicate hmem
    omega
  · show ctx.clientFds.length = maxClients
    rw [h.clientFds, List.length_replicate]
  · exact iff_of_false List.not_mem_nil nofun

end MeshChat
