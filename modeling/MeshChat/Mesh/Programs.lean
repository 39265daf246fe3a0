import MeshChat.Client.Console
import MeshChat.Mesh.System

/-!
# Client programs in the mesh

A client of the mesh is a process that takes commands from its screen. The program at
its console is such a process, on the commands that it reads out of its input.
-/
namespace MeshChat
open Server Client Runs

/-- A command with what comes from outside while its handler runs, and whether the `send`
of its request ends the process. -/
structure Errand where
  cmd : Command
  pids : ℕ × ℕ
  response : Option TLVMessage
  killed : Bool

/-- The two steps of the mesh that a command takes, with nothing between them. -/
def Peer.perform (errand : Errand) (p : Peer) : Peer :=
  let asked := p.ask errand.cmd .blank
  match asked.pending with
  | none => asked
  | some _ =>
      if errand.killed = true then { asked with up := false }
      else asked.finish errand.cmd errand.pids errand.response

/-- A peer that waits for no reply takes a command of its screen. -/
def PeerStep (p : Peer) (errand : Errand) (p' : Peer) : Prop :=
  (p.up = true ∧ p.pending = none ∧ errand.cmd.screen = p.screen) ∧ p' = p.perform errand

namespace Client.Memory

/-- The program has not ended. -/
def Control.running : Control → Bool
  | .menu _ | .flushing => true
  | .exited _ | .killed => false

/-- The program is at the menu of the peer's screen, with the same context in its memory. -/
structure Reflects (p : Program) (q : Peer) : Prop where
  ctx : LaysOut p.ctx q.ctx
  pending : p.control ≠ .killed → q.pending = none
  up : q.up = p.control.running
  screen : ∀ screen, p.control = .menu screen → q.screen = screen

/-- The commands of a turn. -/
def commands (m : Move Program Turn) : List Command :=
  match m.label.ran with
  | some input => [input.op.command]
  | none => if m.post.control.running = true then [] else [.exit]

theorem reflects_clientMain (sock : Int) (stdin : List UInt8) :
    Reflects (clientMain (some sock) stdin) (Peer.idle.connect sock) where
  ctx := laysOut_start sock
  pending _ := rfl
  up := rfl
  screen screen h := by
    cases h
    rfl

/-- An operation of the program, as an errand. -/
def Input.errand (input : Input) (c : Client.ClientContext) : Errand where
  cmd := input.op.command
  pids := (input.answer.pids.1.toNat, input.answer.pids.2.toNat)
  response := if c.serverFd < 0 then none else input.answer.response
  killed := false

/-- Where a handler fails before its request, the screen stays. -/
theorem next_failed (cmd : Command) (screen : Screen) : cmd.next (-1) screen = screen := by
  cases cmd <;> rfl

theorem command_ne_exit (op : Operation) : op.command ≠ .exit := by
  cases op <;> nofun

/-- The request does not depend on the PIDs that the windows report. -/
theorem handler_request (input : Input) (c : Client.ClientContext) (msg : TLVMessage) :
    input.handler.request c msg = input.op.command.request c msg := by
  obtain ⟨op, answer⟩ := input
  cases op <;> rfl

/-- A peer on an errand does what the handler does with the response. -/
theorem perform_errand (input : Input) {q : Peer} (hup : q.up = true) (hpending : q.pending = none) :
    (q.perform (input.errand q.ctx)).ctx = (input.runHandler q.ctx).1 ∧
      (q.perform (input.errand q.ctx)).screen =
        input.op.command.next (input.runHandler q.ctx).2 q.screen ∧
      (q.perform (input.errand q.ctx)).pending = none ∧
      (q.perform (input.errand q.ctx)).up = true := by
  have hcmd : (input.errand q.ctx).cmd = input.op.command := rfl
  have hkilled : (input.errand q.ctx).killed = false := rfl
  unfold Peer.perform Input.runHandler Handler.respond Peer.ask
  rw [handler_request, hcmd]
  cases input.op.command.request q.ctx .blank with
  | none =>
    simp only [if_neg (command_ne_exit input.op), hpending, hup, next_failed, and_self]
  | some m =>
    simp only [hkilled, Bool.false_eq_true, if_false, Peer.finish,
      decide_eq_true (command_ne_exit input.op), and_true]
    exact ⟨rfl, rfl⟩

/-- The errand that the exit is. -/
def exitErrand : Errand := ⟨.exit, (0, 0), none, false⟩

theorem perform_exit {q : Peer} (hstate : q.ctx.state ≠ .disconnected) (hfd : 0 ≤ q.ctx.serverFd) :
    (q.perform exitErrand).ctx = Client.clearClientContext (Client.netDisconnect q.ctx) ∧
      (q.perform exitErrand).pending = none ∧ (q.perform exitErrand).up = false := by
  have hbuild : (buildSimpleMsg .blank .exit).isSome = true := by decide
  obtain ⟨m, hm⟩ := Option.isSome_iff_exists.mp hbuild
  have hrequest : Command.exit.request q.ctx .blank = some m := by
    change (if _ then _ else _) = _
    rw [if_pos ⟨hstate, hfd⟩, hm]
  unfold Peer.perform Peer.ask exitErrand
  rw [hrequest]
  exact ⟨rfl, rfl, rfl⟩

theorem laysOut_clientExit {ctx : ClientContext} {c : Client.ClientContext} (h : LaysOut ctx c)
    (hfd : 0 ≤ ctx.serverFd) :
    LaysOut (clientExit ctx).1 (Client.clearClientContext (Client.netDisconnect c)) := by
  obtain ⟨sessions, hkeeps, -⟩ := h.sessions
  obtain ⟨⟨hstate, hclosed, hempty⟩, -⟩ := clientExit_spec hkeeps hfd
  have hdisconnect : Client.netDisconnect c = { c with serverFd := -1, state := .disconnected } :=
    if_neg (not_lt.mpr (h.serverFd ▸ hfd))
  rw [hdisconnect]
  exact ⟨hclosed, hstate, rfl, [], hempty, .nil⟩

/-- The command of a choice. -/
def Choice.command : Choice → Option Command
  | operation op => some op.command
  | exit => some .exit
  | nothing => none

/-- The request of a choice is that of its command. -/
theorem Reflects.command {p : Program} {q : Peer} (h : Reflects p q) {chosen : Choice}
    (hsends : chosen.sends p.ctx = true) :
    ∃ cmd m, chosen.command = some cmd ∧ cmd.request q.ctx .blank = some m := by
  obtain ⟨-, hrequest⟩ := Bool.and_eq_true_iff.mp hsends
  obtain ⟨m, hm⟩ := Option.isSome_iff_exists.mp hrequest
  cases chosen with
  | operation op => exact ⟨op.command, m, rfl, (h.ctx.request_eq op).symm.trans hm⟩
  | exit =>
    refine ⟨.exit, m, rfl, ?_⟩
    rw [Choice.request, h.ctx.serverFd, h.ctx.state] at hm
    exact hm
  | nothing => cases hm

/-- A peer whose `send` ends it. -/
theorem perform_killed {q : Peer} {errand : Errand} (hkilled : errand.killed = true)
    {m : TLVMessage} (hrequest : errand.cmd.request q.ctx .blank = some m) :
    q.perform errand =
      { q with pending := some errand.cmd, toServer := some m, up := false } := by
  unfold Peer.perform Peer.ask
  rw [hrequest]
  exact if_pos hkilled

/-- A turn is what the peer does on the errands that were read in it. -/
theorem Reflects.step {sock : Int} (hsock : 0 ≤ sock) {p p' : Program} {turn : Turn} {q : Peer}
    (h : Reflects p q) (hsettled : Settled sock p) (hs : Turns p turn p') :
    ∃ moves q', Run PeerStep q moves q' ∧ Reflects p' q' ∧
      moves.map (·.label.cmd) = commands ⟨p, turn, p'⟩ := by
  obtain ⟨screen, hmenu⟩ := hs.at_menu
  have hup : q.up = true := by rw [h.up, hmenu, Control.running]
  have hpending : q.pending = none := h.pending (by rw [hmenu]; nofun)
  cases hs with
  | hung hcontrol => exact ⟨[], q, .start, ⟨h.ctx, fun _ => hpending, hup, nofun⟩, rfl⟩
  | idled hcontrol _ =>
    refine ⟨[], q, .start, ⟨h.ctx, fun _ => hpending, hup, fun screen hscreen => ?_⟩, rfl⟩
    cases hscreen
    exact h.screen _ hcontrol
  | @operated screen rest op answer hcontrol hscreen _ =>
    obtain ⟨hctx, hnext, hpending', hup'⟩ := perform_errand ⟨op, answer⟩ hup hpending
    obtain ⟨hlays, hret⟩ := h.ctx.run ⟨op, answer⟩
    have hsame := h.screen screen hcontrol
    refine ⟨_, _, Run.start.snoc (e := Input.errand ⟨op, answer⟩ q.ctx) ⟨⟨hup, hpending, ?_⟩, rfl⟩,
      ⟨?_, fun _ => hpending', hup', fun screen' hscreen' => ?_⟩, rfl⟩
    · exact hscreen.trans hsame.symm
    · rw [hctx]
      exact hlays
    · cases hscreen'
      rw [hnext, hsame, ← hret]
  | quit hcontrol _ =>
    obtain ⟨hstate, hfd, -⟩ := hsettled.menu hcontrol
    have hfd' : 0 ≤ q.ctx.serverFd := by
      rw [← h.ctx.serverFd, hfd]
      exact hsock
    have hstate' : q.ctx.state ≠ .disconnected := by
      rw [← h.ctx.state, hstate]
      nofun
    obtain ⟨hctx, hpending', hdown⟩ := perform_exit hstate' hfd'
    refine ⟨_, _, Run.start.snoc (e := exitErrand) ⟨⟨hup, hpending, (h.screen .one hcontrol).symm⟩, rfl⟩,
      ⟨?_, fun _ => hpending', hdown, nofun⟩, rfl⟩
    rw [hctx]
    exact laysOut_clientExit h.ctx (hfd ▸ hsock)
  | @killed screen rest chosen answer hcontrol hoffered hsends _ =>
    obtain ⟨cmd, m, hcmd, hrequest⟩ := h.command hsends
    have hperform : q.perform ⟨cmd, (0, 0), none, true⟩ = _ := perform_killed rfl hrequest
    refine ⟨_, _, Run.start.snoc (e := ⟨cmd, (0, 0), none, true⟩) ⟨⟨hup, hpending, ?_⟩, rfl⟩,
      ⟨?_, fun hne => absurd rfl hne, ?_, nofun⟩, ?_⟩
    · rw [h.screen screen hcontrol]
      cases chosen <;> cases hcmd <;> first | exact hoffered | exact hoffered.symm
    · rw [hperform]
      exact h.ctx
    · rw [hperform]
      rfl
    · cases chosen <;> cases hcmd <;> rfl

/-- Over every run the program is a peer of the mesh that performs, one after another,
the commands that it reads. -/
theorem console_is_peer {sock : Int} (hsock : 0 ≤ sock) {stdin : List UInt8}
    {moves : List (Move Program Turn)} {p : Program}
    (hr : Run TurnStep (clientMain (some sock) stdin) moves p) :
    ∃ moves' q, Run PeerStep (Peer.idle.connect sock) moves' q ∧ Reflects p q ∧
      moves'.map (·.label.cmd) = moves.flatMap commands := by
  induction hr with
  | start => exact ⟨[], _, .start, reflects_clientMain sock stdin, rfl⟩
  | @snoc moves p p' turn hr' hs ih =>
    obtain ⟨moves', q, hrun, hreflects, hcmds⟩ := ih
    obtain ⟨more, q', hmore, hreflects', hcmds'⟩ :=
      hreflects.step hsock (settled_of_run hsock hr') hs.turns
    refine ⟨_, q', hrun.append hmore, hreflects', ?_⟩
    rw [List.map_append, List.flatMap_append, hcmds, hcmds', List.flatMap_singleton]

theorem console_is_peer_visit : ∃ moves q, Run PeerStep (Peer.idle.connect 3) moves q ∧
    q.up = false ∧ moves.map (·.label.cmd) =
      visit.map (fun input => input.op.command) ++ [.exit] := by
  have hturns : (takeTurns visitSurroundings typedVisit).map
      (fun r => (r.1.flatMap commands, r.2.control)) =
        some (visit.map (fun input => input.op.command) ++ [.exit], .exited 0) := by decide +kernel
  obtain ⟨⟨moves, p⟩, h, heq⟩ := Option.map_eq_some_iff.mp hturns
  obtain ⟨hcommands, hcontrol⟩ := Prod.mk.inj heq
  obtain ⟨moves', q, hrun, hreflects, hcmds⟩ := console_is_peer (by decide) (run_of_takeTurns h)
  have hdown : q.up = false := by rw [hreflects.up, hcontrol, Control.running]
  exact ⟨moves', q, hrun, hdown, hcmds.trans hcommands⟩

end Client.Memory

end MeshChat
