import MeshChat.Client.CommandLine
import MeshChat.Client.Layout

/-!
# The program at its console

`main` of `client_main.c` and the two menu loops of `client_ui.c`, over whatever is
typed and whatever the server answers. A turn of a loop reads a choice and the rest
of its line, then what the choice asks for, and runs its handler.
-/
namespace MeshChat.Client.Memory
open Server Runs

/-- Where the program is: at a menu, in a flush that has met the end of the input, at its
end, or ended by `SIGPIPE`. -/
inductive Control where
  | menu (screen : Screen)
  | flushing
  | exited (code : Int)
  | killed
  deriving DecidableEq

structure Program where
  control : Control
  ctx : ClientContext
  stdin : List UInt8

/-- What a turn meets: the value `scanf` stores for a number that is no `int`, whether the
server has closed the connection so that a `send` raises `SIGPIPE`, what the server and the
windows answer, and what the stack left in the handlers' buffers. -/
structure Surroundings where
  wide : Int
  broken : Bool
  answer : Answer
  username : Username
  password : Password
  groupName : GroupName

/-- Surroundings in which every request succeeds. -/
def Surroundings.quiet : Surroundings :=
  ⟨0, false, succeeds, nameOf 0, strncpy (nameOf 0).toCStr, nameOf 0⟩

/-- What a turn does besides changing the program: the operation it runs, the processes
it signals and opens, and the sockets it closes. -/
structure Turn where
  ran : Option Input
  signalled : List Int
  opened : List Int
  closed : List Int

/-- A turn that only prints. -/
def Turn.idle : Turn := ⟨none, [], [], []⟩

/-- `main` up to the first menu; without a connection it returns 1. -/
def clientMain (sock : Option Int) (stdin : List UInt8) : Program :=
  match sock with
  | none => ⟨.exited 1, startContext, stdin⟩
  | some sock => ⟨.menu .one, netConnect sock startContext, stdin⟩

/-- `net_disconnect`, and what it closes. -/
def netDisconnect (ctx : ClientContext) : ClientContext × List Int :=
  if ctx.serverFd < 0 then (ctx, [])
  else ({ ctx with serverFd := -1, state := .disconnected }, [ctx.serverFd])

/-- `client_exit` up to its `exit(0)`. The answer to its request is not looked at. -/
def clientExit (ctx : ClientContext) : ClientContext × Turn :=
  let closed := closeAllGroupSessions ctx
  let disconnected := netDisconnect closed.1
  (clearClientContext disconnected.1, ⟨none, closed.2, [], disconnected.2⟩)

/-- `read_input` into a buffer in which the stack left a string. -/
def readLine {maxLen : ℕ} [NeZero maxLen] (left : CharArray maxLen) (stdin : List UInt8) :
    CharArray maxLen × List UInt8 :=
  (readInput maxLen stdin).getD (left, stdin)

/-- The head of both loops: the choice, unless `scanf` reads no number, and the input
behind its line. There is no result where the flush does not end. -/
def readChoice (wide : Int) (stdin : List UInt8) : Option (Option Int × List UInt8) :=
  let scanned := scanfInt wide stdin
  (flushLine scanned.2).map fun rest => (scanned.1, rest)

/-- What a choice leads to, once its handler has read what it asks for. -/
inductive Choice where
  | operation (op : Operation)
  | exit
  | nothing

/-- The first screen's choices. -/
def chooseOne (s : Surroundings) (stdin : List UInt8) (choice : Int) : Choice × List UInt8 :=
  if choice = 1 ∨ choice = 2 then
    let username := readLine s.username stdin
    let password := readLine s.password username.2
    (.operation (if choice = 1 then .register username.1 password.1
      else .login username.1 password.1), password.2)
  else if choice = 3 then (.exit, stdin)
  else (.nothing, stdin)

/-- The second screen's choices. Create and join do not ask for a name where the table
of sessions is full. -/
def chooseTwo (s : Surroundings) (ctx : ClientContext) (stdin : List UInt8) (choice : Int) :
    Choice × List UInt8 :=
  if choice = 1 ∨ choice = 2 then
    if ctx.activeGroupCount ≥ maxGroups then (.nothing, stdin)
    else
      let name := readLine s.groupName stdin
      (.operation (if choice = 1 then .createGroup name.1 else .joinGroup name.1), name.2)
  else if choice = 3 then
    let name := readLine s.groupName stdin
    (.operation (.leaveGroup name.1), name.2)
  else if choice = 4 then (.operation .logout, stdin)
  else (.nothing, stdin)

def choose (screen : Screen) (s : Surroundings) (ctx : ClientContext) (stdin : List UInt8)
    (choice : Int) : Choice × List UInt8 :=
  match screen with
  | .one => chooseOne s stdin choice
  | .two => chooseTwo s ctx stdin choice

/-- The request that a choice leads to, unless a local check fails. -/
def Choice.request (ctx : ClientContext) : Choice → Option TLVMessage
  | operation op => op.request ctx
  | exit =>
      if ctx.state ≠ .disconnected ∧ ctx.serverFd ≥ 0 then buildSimpleMsg .blank .exit else none
  | nothing => none

/-- Its handler gets to a `send`. -/
def Choice.sends (ctx : ClientContext) (chosen : Choice) : Bool :=
  decide (0 ≤ ctx.serverFd) && (chosen.request ctx).isSome

def Choice.input (answer : Answer) : Choice → Option Input
  | operation op => some ⟨op, answer⟩
  | exit | nothing => none

/-- The turn of an operation, and the program behind it. -/
def afterOperation (screen : Screen) (ctx : ClientContext) (input : Input) (stdin : List UInt8) :
    Turn × Program :=
  let out := input.op.run ctx input.answer
  (⟨some input, out.signalled, out.opened, []⟩,
    ⟨.menu (input.op.command.next out.ret screen), out.ctx, stdin⟩)

/-- The handler of the choice; `stdin` is what it leaves of the input. It has changed
nothing yet when a `send` on a broken connection ends the process. -/
def carryOut (screen : Screen) (s : Surroundings) (ctx : ClientContext) (stdin : List UInt8)
    (chosen : Choice) : Turn × Program :=
  if s.broken = true ∧ chosen.sends ctx = true then
    (⟨chosen.input s.answer, [], [], []⟩, ⟨.killed, ctx, stdin⟩)
  else
    match chosen with
    | .operation op => afterOperation screen ctx ⟨op, s.answer⟩ stdin
    | .exit => ((clientExit ctx).2, ⟨.exited 0, (clientExit ctx).1, stdin⟩)
    | .nothing => (.idle, ⟨.menu screen, ctx, stdin⟩)

/-- One pass of the loop that the program is in. -/
def takeTurn (s : Surroundings) (p : Program) : Option (Turn × Program) :=
  match p.control with
  | .menu screen =>
      match readChoice s.wide p.stdin with
      | none => some (.idle, ⟨.flushing, p.ctx, []⟩)
      | some (none, rest) => some (.idle, ⟨.menu screen, p.ctx, rest⟩)
      | some (some choice, rest) =>
          let chosen := choose screen s p.ctx rest choice
          some (carryOut screen s p.ctx chosen.2 chosen.1)
  | .flushing | .exited _ | .killed => none

/-- A step of the program. -/
def TurnStep (p : Program) (turn : Turn) (p' : Program) : Prop :=
  ∃ s, takeTurn s p = some (turn, p')

/-- Turn after turn, in these surroundings. -/
def takeTurns : List Surroundings → Program → Option (List (Move Program Turn) × Program)
  | [], p => some ([], p)
  | s :: ss, p =>
      (takeTurn s p).bind fun r =>
        (takeTurns ss r.2).map fun rest => (⟨p, r.1, r.2⟩ :: rest.1, rest.2)

theorem run_of_takeTurns {ss : List Surroundings} {p p' : Program}
    {moves : List (Move Program Turn)} (h : takeTurns ss p = some (moves, p')) :
    Run TurnStep p moves p' := by
  induction ss generalizing p moves with
  | nil =>
    obtain ⟨rfl, rfl⟩ := Prod.mk.inj (Option.some.inj h)
    exact .start
  | cons s ss ih =>
    simp only [takeTurns, Option.bind_eq_some_iff, Option.map_eq_some_iff, Prod.mk.injEq] at h
    obtain ⟨⟨turn, q⟩, hturn, ⟨after, _⟩, hafter, rfl, rfl⟩ := h
    exact (Run.start.snoc ⟨s, hturn⟩).append (ih hafter)

theorem readInput_suffix {maxLen : ℕ} [NeZero maxLen] {stdin rest : List UInt8}
    {buf : CharArray maxLen} (h : readInput maxLen stdin = some (buf, rest)) : rest <:+ stdin := by
  simp only [readInput, fgets, Option.map_eq_some_iff, Option.ite_none_left_eq_some] at h
  obtain ⟨r, ⟨-, hr⟩, heq⟩ := h
  obtain ⟨-, rfl⟩ := Prod.mk.inj heq
  rw [← Option.some.inj hr]
  exact ⟨_, takeLine_append _ _⟩

theorem readLine_suffix {maxLen : ℕ} [NeZero maxLen] (left : CharArray maxLen)
    (stdin : List UInt8) : (readLine left stdin).2 <:+ stdin := by
  unfold readLine
  cases h : readInput maxLen stdin with
  | none => exact List.suffix_rfl
  | some r => exact readInput_suffix h

/-- The screen offers what it leads to, and nothing is typed twice. -/
def Choice.Offered (screen : Screen) : Choice → Prop
  | .operation op => op.command.screen = screen
  | .exit => screen = .one
  | .nothing => True

theorem chooseOne_spec (s : Surroundings) (stdin : List UInt8) (choice : Int) :
    (chooseOne s stdin choice).1.Offered .one ∧ (chooseOne s stdin choice).2 <:+ stdin := by
  unfold chooseOne
  split
  · refine ⟨?_, (readLine_suffix _ _).trans (readLine_suffix _ _)⟩
    split <;> rfl
  · split
    · exact ⟨rfl, List.suffix_rfl⟩
    · exact ⟨trivial, List.suffix_rfl⟩

theorem chooseTwo_spec (s : Surroundings) (ctx : ClientContext) (stdin : List UInt8)
    (choice : Int) : (chooseTwo s ctx stdin choice).1.Offered .two ∧
      (chooseTwo s ctx stdin choice).2 <:+ stdin := by
  unfold chooseTwo
  split
  · split
    · exact ⟨trivial, List.suffix_rfl⟩
    · refine ⟨?_, readLine_suffix _ _⟩
      dsimp only
      split <;> rfl
  · split
    · exact ⟨rfl, readLine_suffix _ _⟩
    · split
      · exact ⟨rfl, List.suffix_rfl⟩
      · exact ⟨trivial, List.suffix_rfl⟩

theorem choose_spec (screen : Screen) (s : Surroundings) (ctx : ClientContext)
    (stdin : List UInt8) (choice : Int) : (choose screen s ctx stdin choice).1.Offered screen ∧
      (choose screen s ctx stdin choice).2 <:+ stdin := by
  cases screen with
  | one => exact chooseOne_spec s stdin choice
  | two => exact chooseTwo_spec s ctx stdin choice

/-- A choice takes a newline. -/
theorem readChoice_count {wide : Int} {stdin rest : List UInt8} {choice : Option Int}
    (h : readChoice wide stdin = some (choice, rest)) : rest.count 10 < stdin.count 10 := by
  simp only [readChoice, Option.map_eq_some_iff, Prod.mk.injEq] at h
  obtain ⟨_, hflush, -, rfl⟩ := h
  obtain ⟨line, -, hscan⟩ := flushLine_eq_some hflush
  have hle := (scanfInt_suffix wide stdin).sublist.count_le 10
  rw [hscan, List.count_append, List.count_cons_self] at hle
  omega

/-- The turns of a program: with the input at its end, without an operation, with one
that the screen offers, the last, and one that its `send` ends. -/
inductive Turns (p : Program) : Turn → Program → Prop
  | hung {screen : Screen} : p.control = .menu screen → Turns p .idle ⟨.flushing, p.ctx, []⟩
  | idled {screen : Screen} {rest : List UInt8} : p.control = .menu screen →
      rest.count 10 < p.stdin.count 10 → Turns p .idle ⟨.menu screen, p.ctx, rest⟩
  | operated {screen : Screen} {rest : List UInt8} {op : Operation} (answer : Answer) :
      p.control = .menu screen → op.command.screen = screen → rest.count 10 < p.stdin.count 10 →
      Turns p (afterOperation screen p.ctx ⟨op, answer⟩ rest).1
        (afterOperation screen p.ctx ⟨op, answer⟩ rest).2
  | quit {rest : List UInt8} : p.control = .menu .one → rest.count 10 < p.stdin.count 10 →
      Turns p (clientExit p.ctx).2 ⟨.exited 0, (clientExit p.ctx).1, rest⟩
  | killed {screen : Screen} {rest : List UInt8} {chosen : Choice} (answer : Answer) :
      p.control = .menu screen → chosen.Offered screen → chosen.sends p.ctx = true →
      rest.count 10 < p.stdin.count 10 →
      Turns p ⟨chosen.input answer, [], [], []⟩ ⟨.killed, p.ctx, rest⟩

theorem Turns.at_menu {p p' : Program} {turn : Turn} (h : Turns p turn p') :
    ∃ screen, p.control = .menu screen := by
  cases h with
  | hung hcontrol | idled hcontrol _ | operated _ hcontrol _ _ | quit hcontrol _
  | killed _ hcontrol _ _ _ => exact ⟨_, hcontrol⟩

theorem carryOut_turns {p : Program} {screen : Screen} (hcontrol : p.control = .menu screen)
    {chosen : Choice} (hoffered : chosen.Offered screen) (s : Surroundings) {rest : List UInt8}
    (hcount : rest.count 10 < p.stdin.count 10) :
    Turns p (carryOut screen s p.ctx rest chosen).1 (carryOut screen s p.ctx rest chosen).2 := by
  unfold carryOut
  split
  · exact .killed s.answer hcontrol hoffered (And.right ‹_›) hcount
  · cases chosen with
    | operation op => exact .operated s.answer hcontrol hoffered hcount
    | exit =>
      obtain rfl : screen = .one := hoffered
      exact .quit hcontrol hcount
    | nothing => exact .idled hcontrol hcount

theorem TurnStep.turns {p p' : Program} {turn : Turn} (h : TurnStep p turn p') :
    Turns p turn p' := by
  obtain ⟨s, h⟩ := h
  unfold takeTurn at h
  cases hcontrol : p.control with
  | menu screen =>
    rw [hcontrol] at h
    dsimp only at h
    cases hread : readChoice s.wide p.stdin with
    | none =>
      rw [hread] at h
      cases h
      exact .hung hcontrol
    | some r =>
      obtain ⟨choice, rest⟩ := r
      have hcount := readChoice_count hread
      rw [hread] at h
      cases choice with
      | none =>
        cases h
        exact .idled hcontrol hcount
      | some choice =>
        obtain ⟨hoffered, hsuffix⟩ := choose_spec screen s p.ctx rest choice
        have hturns := carryOut_turns hcontrol hoffered s
          ((hsuffix.sublist.count_le 10).trans_lt hcount)
        rw [Option.some.inj h] at hturns
        exact hturns
  | flushing | exited | killed => rw [hcontrol] at h; cases h

/-- Only a turn on a broken connection ends the process. -/
theorem broken_of_killed {s : Surroundings} {p p' : Program} {turn : Turn}
    (h : takeTurn s p = some (turn, p')) (hkilled : p'.control = .killed) : s.broken = true := by
  have hcarried : ∀ {screen : Screen} {rest : List UInt8} {chosen : Choice},
      (carryOut screen s p.ctx rest chosen).2.control = .killed → s.broken = true := by
    intro screen rest chosen hcontrol
    unfold carryOut at hcontrol
    split at hcontrol
    · exact And.left ‹_›
    · cases chosen <;> cases hcontrol
  unfold takeTurn at h
  split at h
  · split at h
    · cases h
      cases hkilled
    · cases h
      cases hkilled
    · have hturn : carryOut _ s p.ctx _ _ = (turn, p') := Option.some.inj h
      exact hcarried ((congrArg (fun r => r.2.control) hturn).trans hkilled)
  all_goals cases h

/-- The state of the context that goes with a screen. -/
def screenState : Screen → ClientState
  | .one => .connected
  | .two => .loggedIn

/-- What an operation keeps of the context besides the sessions. -/
structure Frames (ctx ctx' : ClientContext) : Prop where
  serverFd : ctx'.serverFd = ctx.serverFd
  state : ctx'.state = ctx.state

theorem Frames.refl (ctx : ClientContext) : Frames ctx ctx := ⟨rfl, rfl⟩

section Frames
variable (ctx : ClientContext) (answer : Answer)

theorem frames_register (username : Username) (password : Password) :
    Frames ctx (handleRegister ctx username password answer).ctx := by
  rcases handleRegister_spec ctx username password answer with h | h <;> rw [h] <;> exact .refl ctx

theorem frames_saveSession (name : GroupName) : Frames ctx (saveSession ctx name answer).ctx := by
  unfold saveSession
  split
  · exact .refl ctx
  · split
    · exact .refl ctx
    · split
      · exact .refl ctx
      · exact ⟨rfl, rfl⟩

theorem frames_createGroup (name : GroupName) :
    Frames ctx (handleCreateGroup ctx name answer).ctx := by
  unfold handleCreateGroup
  split
  · exact .refl ctx
  · split
    · exact .refl ctx
    · exact frames_saveSession ctx answer name

theorem frames_joinGroup (name : GroupName) :
    Frames ctx (handleJoinGroup ctx name answer).ctx := by
  unfold handleJoinGroup
  split
  · exact .refl ctx
  · split
    · exact .refl ctx
    · split
      · exact .refl ctx
      · exact frames_saveSession ctx answer name

theorem frames_leaveGroup (name : GroupName) :
    Frames ctx (handleLeaveGroup ctx name answer).ctx := by
  unfold handleLeaveGroup
  split
  · exact .refl ctx
  · split
    · exact .refl ctx
    · split
      · exact .refl ctx
      · split
        · exact .refl ctx
        · exact ⟨rfl, rfl⟩

end Frames

theorem handleLogin_state (ctx : ClientContext) (answer : Answer) (username : Username)
    (password : Password) : (handleLogin ctx username password answer).ctx.serverFd = ctx.serverFd ∧
      (handleLogin ctx username password answer).ctx.state =
        if (handleLogin ctx username password answer).ret = 0 then .loggedIn else ctx.state := by
  unfold handleLogin
  split
  · exact ⟨rfl, rfl⟩
  · split
    · exact ⟨rfl, rfl⟩
    · split
      · exact ⟨rfl, rfl⟩
      · exact ⟨rfl, rfl⟩

/-- A logout of a user who is logged in succeeds. -/
theorem clientLogout_succeeds {ctx : ClientContext} (hstate : ctx.state = .loggedIn) :
    (clientLogout ctx).ret = 0 ∧ (clientLogout ctx).ctx.serverFd = ctx.serverFd ∧
      (clientLogout ctx).ctx.state = .connected := by
  have hbuild : buildSimpleMsg .blank .logout ≠ none := by decide
  unfold clientLogout
  rw [if_neg (not_not.mpr hstate)]
  split
  · next h => exact absurd h hbuild
  · exact ⟨rfl, rfl, rfl⟩

/-- An operation keeps the connection, and changes the state as the screen. -/
theorem run_state {ctx : ClientContext} (op : Operation) (answer : Answer)
    (hstate : ctx.state = screenState op.command.screen) :
    (op.run ctx answer).ctx.serverFd = ctx.serverFd ∧ (op.run ctx answer).ctx.state =
      screenState (op.command.next (op.run ctx answer).ret op.command.screen) := by
  cases op with
  | register username password =>
    have h := frames_register ctx answer username password
    exact ⟨h.serverFd, h.state.trans hstate⟩
  | login username password =>
    obtain ⟨hfd, hlogin⟩ := handleLogin_state ctx answer username password
    refine ⟨hfd, hlogin.trans ?_⟩
    change _ = screenState (if (handleLogin ctx username password answer).ret = 0 then .two else .one)
    by_cases hret : (handleLogin ctx username password answer).ret = 0
    · rw [if_pos hret, if_pos hret]
      rfl
    · rw [if_neg hret, if_neg hret]
      exact hstate
  | createGroup name =>
    have h := frames_createGroup ctx answer name
    exact ⟨h.serverFd, h.state.trans hstate⟩
  | joinGroup name =>
    have h := frames_joinGroup ctx answer name
    exact ⟨h.serverFd, h.state.trans hstate⟩
  | leaveGroup name =>
    have h := frames_leaveGroup ctx answer name
    exact ⟨h.serverFd, h.state.trans hstate⟩
  | logout =>
    obtain ⟨hret, hfd, hout⟩ := clientLogout_succeeds hstate
    refine ⟨hfd, hout.trans ?_⟩
    rw [Operation.run, hret]
    rfl

/-- The screen, the state, the connection and the sessions go together: there are
sessions on the second screen only, and at the end nothing is open. -/
def Settled (sock : Int) (p : Program) : Prop :=
  match p.control with
  | .menu screen => p.ctx.state = screenState screen ∧ p.ctx.serverFd = sock ∧ Sound p.ctx ∧
      (screen = .one → Keeps p.ctx [])
  | .flushing | .killed => p.ctx.serverFd = sock ∧ Sound p.ctx
  | .exited _ => p.ctx.state = .disconnected ∧ p.ctx.serverFd = -1 ∧ Keeps p.ctx []

theorem settled_clientMain (sock : Int) (stdin : List UInt8) :
    Settled sock (clientMain (some sock) stdin) :=
  ⟨rfl, rfl, startContext_sound sock, fun _ => ⟨FrontArray.holds_nil _ _, rfl⟩⟩

theorem Settled.menu {sock : Int} {p : Program} (h : Settled sock p) {screen : Screen}
    (hcontrol : p.control = .menu screen) : p.ctx.state = screenState screen ∧
      p.ctx.serverFd = sock ∧ Sound p.ctx ∧ (screen = .one → Keeps p.ctx []) := by
  rwa [Settled, hcontrol] at h

theorem Settled.sound {sock : Int} {p : Program} (h : Settled sock p) : Sound p.ctx := by
  unfold Settled at h
  split at h
  · exact h.2.2.1
  · exact h.2
  · exact h.2
  · exact ⟨[], h.2.2⟩

/-- The exit signals what is open and closes the connection. -/
theorem clientExit_spec {ctx : ClientContext} {sessions : List GroupSession}
    (h : Keeps ctx sessions) (hfd : 0 ≤ ctx.serverFd) :
    ((clientExit ctx).1.state = .disconnected ∧ (clientExit ctx).1.serverFd = -1 ∧
      Keeps (clientExit ctx).1 []) ∧
    (clientExit ctx).2 = ⟨none, sessions.flatMap (·.positivePids), [], [ctx.serverFd]⟩ := by
  obtain ⟨free, hcells⟩ := h.cells
  have hloop := closeLoop_signalled [] sessions (List.replicate free .zero)
  rw [List.nil_append, ← hcells] at hloop
  have hsignalled : (closeAllGroupSessions ctx).2 = sessions.flatMap (·.positivePids) := by
    simp only [closeAllGroupSessions, h.count, Int.toNat_natCast]
    exact hloop
  have hdisconnect : netDisconnect (closeAllGroupSessions ctx).1 =
      ({ (closeAllGroupSessions ctx).1 with serverFd := -1, state := .disconnected },
        [ctx.serverFd]) := if_neg (not_lt.mpr hfd)
  rw [clientExit, hdisconnect, hsignalled]
  exact ⟨⟨rfl, rfl, FrontArray.holds_nil _ _, rfl⟩, rfl⟩

/-- Behind an operation that leads to the first screen there is no session. -/
theorem keeps_nil_of_next {ctx : ClientContext} (op : Operation) (answer : Answer)
    (hstate : ctx.state = screenState op.command.screen)
    (hkeeps : op.command.screen = .one → Keeps ctx [])
    (hnext : op.command.next (op.run ctx answer).ret op.command.screen = .one)
    (hsound : Sound ctx) : Keeps (op.run ctx answer).ctx [] := by
  cases op with
  | register username password =>
    rw [Operation.run]
    rcases handleRegister_spec ctx username password answer with hrun | hrun <;> rw [hrun] <;>
      exact hkeeps rfl
  | login username password =>
    rw [Operation.run]
    rcases handleLogin_spec (hkeeps rfl) username password answer with hrun | ⟨ctx', hnew, hrun⟩
    · rw [hrun]
      exact hkeeps rfl
    · rw [hrun]
      exact hnew
  | createGroup name | joinGroup name | leaveGroup name => cases hnext
  | logout =>
    obtain ⟨sessions, hold⟩ := hsound
    rcases clientLogout_spec hold with hfail | hdone
    · have hret := (clientLogout_succeeds hstate).1
      rw [hfail] at hret
      cases hret
    · exact hdone.1

/-- An operation that the screen offers leads to the next one. -/
theorem Settled.operated {sock : Int} {p : Program} (h : Settled sock p) {op : Operation}
    (hcontrol : p.control = .menu op.command.screen) (answer : Answer) (rest : List UInt8) :
    Settled sock ⟨.menu (op.command.next (op.run p.ctx answer).ret op.command.screen),
      (op.run p.ctx answer).ctx, rest⟩ := by
  obtain ⟨hstate, hfd, hsound, hkeeps⟩ := h.menu hcontrol
  obtain ⟨hfd', hstate'⟩ := run_state op answer hstate
  have hsound' : Sound (op.run p.ctx answer).ctx :=
    (hsound.step (m := ⟨p.ctx, ⟨op, answer⟩, (op.run p.ctx answer).ctx⟩) rfl).1
  exact ⟨hstate', hfd'.trans hfd, hsound', fun hnext =>
    keeps_nil_of_next op answer hstate hkeeps hnext hsound⟩

theorem Settled.step {sock : Int} (hsock : 0 ≤ sock) {p p' : Program} {turn : Turn}
    (h : Settled sock p) (hs : Turns p turn p') : Settled sock p' := by
  cases hs with
  | hung hcontrol | killed _ hcontrol _ _ _ => exact ⟨(h.menu hcontrol).2.1, h.sound⟩
  | idled hcontrol _ => exact h.menu hcontrol
  | operated answer hcontrol hscreen _ =>
    subst hscreen
    exact h.operated hcontrol answer _
  | quit hcontrol _ =>
    obtain ⟨-, hfd, -, hkeeps⟩ := h.menu hcontrol
    exact (clientExit_spec (hkeeps rfl) (hfd ▸ hsock)).1

/-- The windows of the sessions. -/
def windows (sessions : List GroupSession) : List Int := sessions.flatMap (·.positivePids)

theorem windows_append (sessions sessions' : List GroupSession) :
    windows (sessions ++ sessions') = windows sessions ++ windows sessions' :=
  List.flatMap_append

/-- A window is a session's before or is opened, and is a session's then or was one of a
session taken out. -/
theorem SessionsStep.perm {sessions sessions' gone : List GroupSession} {op : Operation}
    {opened : List Int} (h : SessionsStep sessions op sessions' gone opened) :
    (opened ++ windows sessions).Perm (windows gone ++ windows sessions') := by
  cases h with
  | registered | loggedIn => exact .refl _
  | created session | joined session =>
    rw [windows_append, windows, windows, windows, List.flatMap_singleton]
    exact List.perm_append_comm
  | @left name session hfind =>
    obtain ⟨hnamed, before, after, hsplit, hbefore⟩ := List.find?_eq_some_iff_append.mp hfind
    rw [hsplit, List.eraseP_append_right _ fun x hx => by simpa using hbefore x hx,
      List.eraseP_cons_of_pos hnamed, ← windows_append]
    exact List.perm_middle.flatMap_right _
  | loggedOut => simp [windows]

/-- A turn signals the windows of the sessions that it takes out of the table. -/
theorem Turns.windows_perm {sock : Int} (hsock : 0 ≤ sock) {p p' : Program} {turn : Turn}
    (h : Settled sock p) (hs : Turns p turn p') :
    (turn.opened ++ windows p.ctx.sessions).Perm (turn.signalled ++ windows p'.ctx.sessions) := by
  cases hs with
  | hung _ | idled _ _ | killed _ _ _ _ _ => exact .refl _
  | @operated screen rest op answer hcontrol _ _ =>
    obtain ⟨sessions, hkeeps⟩ := h.sound
    simp only [afterOperation, hkeeps.sessions_eq]
    rcases run_spec hkeeps op answer with hfail | ⟨sessions', gone, hnew, hstep, -, hsignalled⟩
    · simp [hfail, failed, hkeeps.sessions_eq]
    · rw [hnew.sessions_eq, hsignalled]
      exact hstep.perm
  | quit hcontrol _ =>
    obtain ⟨-, hfd, -, hkeeps⟩ := h.menu hcontrol
    obtain ⟨⟨-, -, hnew⟩, hturn⟩ := clientExit_spec (hkeeps rfl) (hfd ▸ hsock)
    simp [hturn, (hkeeps rfl).sessions_eq, hnew.sessions_eq, windows]

/-- The connection is closed by the last turn only. -/
theorem Turns.closed_eq {sock : Int} (hsock : 0 ≤ sock) {p p' : Program} {turn : Turn}
    (h : Settled sock p) (hs : Turns p turn p') :
    turn.closed = if p'.control = .exited 0 then [sock] else [] := by
  cases hs with
  | hung | idled | operated | killed => rfl
  | quit hcontrol _ =>
    obtain ⟨-, hfd, -, hkeeps⟩ := h.menu hcontrol
    rw [(clientExit_spec (hkeeps rfl) (hfd ▸ hsock)).2, hfd]
    rfl

/-- Text of a line and its newline. -/
def lineOf {cap : ℕ} (s : CharArray cap) : List UInt8 := s.bytes ++ [10]

/-- The number of an operation in its menu. -/
def Operation.number : Operation → UInt8
  | register _ _ | createGroup _ => 1
  | login _ _ | joinGroup _ => 2
  | leaveGroup _ => 3
  | logout => 4

/-- The lines that its handler reads. -/
def Operation.fields : Operation → List UInt8
  | register username password | login username password => lineOf username ++ lineOf password
  | createGroup name | joinGroup name | leaveGroup name => lineOf name
  | logout => []

/-- No `send` of the operation meets a broken connection. -/
def Operation.Survives (s : Surroundings) (ctx : ClientContext) (op : Operation) : Prop :=
  ¬ (s.broken = true ∧ (Choice.operation op).sends ctx = true)

/-- What a user types for an operation. -/
def Operation.typed (op : Operation) : List UInt8 := (48 + op.number) :: 10 :: op.fields

/-- Every field of an operation has the property. -/
def Operation.AllFields (P : ∀ {cap : ℕ}, CharArray cap → Prop) : Operation → Prop
  | register username password | login username password => P username ∧ P password
  | createGroup name | joinGroup name | leaveGroup name => P name
  | logout => True

/-- There is room for the session that an operation would add. -/
def Operation.HasRoom (ctx : ClientContext) : Operation → Prop
  | createGroup _ | joinGroup _ => ctx.activeGroupCount < maxGroups
  | _ => True

/-- A string that stands on a line of its own. -/
def OneLine {cap : ℕ} (s : CharArray cap) : Prop := 10 ∉ s.bytes

/-- A line that one `read_input` takes: it leaves room for the newline too. -/
def FitsLine {cap : ℕ} (s : CharArray cap) : Prop := s.bytes.length + 2 ≤ cap

instance {cap : ℕ} (s : CharArray cap) : Decidable (OneLine s) :=
  inferInstanceAs (Decidable (10 ∉ s.bytes))

instance {cap : ℕ} (s : CharArray cap) : Decidable (FitsLine s) :=
  inferInstanceAs (Decidable (_ ≤ _))

instance {P : ∀ {cap : ℕ}, CharArray cap → Prop} [∀ cap (s : CharArray cap), Decidable (P s)]
    (op : Operation) : Decidable (op.AllFields P) :=
  match op with
  | .register _ _ | .login _ _ => inferInstanceAs (Decidable (_ ∧ _))
  | .createGroup name | .joinGroup name | .leaveGroup name => inferInstanceAs (Decidable (P name))
  | .logout => inferInstanceAs (Decidable True)

instance (ctx : ClientContext) (op : Operation) : Decidable (op.HasRoom ctx) :=
  match op with
  | .createGroup _ | .joinGroup _ => inferInstanceAs (Decidable (_ < _))
  | .register _ _ | .login _ _ | .leaveGroup _ | .logout => inferInstanceAs (Decidable True)

instance (s : Surroundings) (ctx : ClientContext) (op : Operation) : Decidable (op.Survives s ctx) :=
  inferInstanceAs (Decidable (¬ (_ ∧ _)))

section Lines
variable {cap : ℕ} [NeZero cap]

theorem readLine_line {s : CharArray cap} (hs : OneLine s) (hfits : FitsLine s)
    (left : CharArray cap) (rest : List UInt8) :
    readLine left (s.bytes ++ 10 :: rest) = (s, rest) := by
  obtain ⟨buf, hbuf, hbytes⟩ := fgets_line hs s.nul_free hfits rest
  have hchomp : chomp buf = s := by
    apply CharArray.ext
    rw [chomp, if_pos (by rw [hbytes, List.getLast?_append]; rfl)]
    simp [hbytes]
  rw [readLine, readInput, hbuf, Option.map_some, Option.getD_some, hchomp]

/-- Of a longer line the newline is left. -/
theorem readLine_cut {s : CharArray cap} (hs : OneLine s) (hlong : ¬ FitsLine s)
    (left : CharArray cap) (rest : List UInt8) :
    (readLine left (s.bytes ++ 10 :: rest)).2 = 10 :: rest := by
  have hcap : cap - 1 = s.bytes.length := by
    have := s.fits
    rw [FitsLine] at hlong
    omega
  have hline := takeLine_cut hs hcap.le (10 :: rest)
  rw [hcap, List.drop_length, List.nil_append] at hline
  unfold readLine readInput fgets
  rw [if_neg (by simp)]
  simp only [hcap, hline, Option.map_some, Option.getD_some]

/-- A line is read as it was typed exactly if it fits. -/
theorem readLine_line_iff {s : CharArray cap} (hs : OneLine s) (left : CharArray cap)
    (rest : List UInt8) : readLine left (s.bytes ++ 10 :: rest) = (s, rest) ↔ FitsLine s := by
  refine ⟨fun h => ?_, fun hfits => readLine_line hs hfits left rest⟩
  by_contra hlong
  have hcut := readLine_cut hs hlong left rest
  rw [h] at hcut
  exact List.cons_ne_self _ _ hcut.symm

omit [NeZero cap] in
theorem lineOf_append (s : CharArray cap) (rest : List UInt8) :
    lineOf s ++ rest = s.bytes ++ 10 :: rest := List.append_assoc _ _ _

/-- Two lines, one behind the other. -/
theorem readLine_lines_iff {cap' : ℕ} [NeZero cap'] (hcap : 2 ≤ cap') {s : CharArray cap}
    {s' : CharArray cap'} (hs : OneLine s) (hs' : OneLine s') (left : CharArray cap)
    (left' : CharArray cap') (rest : List UInt8) :
    (readLine left (lineOf s ++ (lineOf s' ++ rest))).1 = s ∧
        readLine left' (readLine left (lineOf s ++ (lineOf s' ++ rest))).2 = (s', rest) ↔
      FitsLine s ∧ FitsLine s' := by
  rw [lineOf_append, lineOf_append]
  constructor
  · rintro ⟨-, h⟩
    by_cases hfits : FitsLine s
    · rw [readLine_line hs hfits, readLine_line_iff hs'] at h
      exact ⟨hfits, h⟩
    · rw [readLine_cut hs hfits] at h
      let empty : CharArray cap' := ⟨⟨[], List.not_mem_nil⟩, Nat.zero_lt_of_lt hcap⟩
      have hempty : OneLine empty ∧ FitsLine empty := ⟨List.not_mem_nil, hcap⟩
      have hread := readLine_line hempty.1 hempty.2 left' (s'.bytes ++ 10 :: rest)
      rw [List.nil_append] at hread
      rw [hread, Prod.mk.injEq] at h
      have hlength := congrArg List.length h.2
      simp at hlength
      omega
  · rintro ⟨hfits, hfits'⟩
    rw [readLine_line hs hfits]
    exact ⟨rfl, readLine_line hs' hfits' left' rest⟩

end Lines

theorem readChoice_typed (wide : Int) (op : Operation) (rest : List UInt8) :
    readChoice wide (op.typed ++ rest) =
      some (some (op.number.toNat : Int), op.fields ++ rest) := by
  cases op <;> rfl

/-- The menu of the screen makes the operation of what was typed for it, and reads no
more and no less, exactly if the screen offers it and every field of it fits. -/
theorem choose_typed_iff (screen : Screen) (s : Surroundings) (ctx : ClientContext)
    {op : Operation} (hlines : op.AllFields OneLine) (rest : List UInt8) :
    choose screen s ctx (op.fields ++ rest) op.number.toNat = (.operation op, rest) ↔
      op.command.screen = screen ∧ op.AllFields FitsLine ∧ op.HasRoom ctx := by
  by_cases hscreen : op.command.screen = screen
  · subst hscreen
    cases op with
    | register username password =>
      have hiff := readLine_lines_iff (by decide) hlines.1 hlines.2 s.username s.password rest
      rw [← List.append_assoc, Prod.ext_iff, ← and_assoc] at hiff
      change (Choice.operation (.register _ _), _) = _ ↔ _
      rw [Prod.mk.injEq, Choice.operation.injEq, Operation.register.injEq]
      exact hiff.trans ⟨fun h => ⟨rfl, h, trivial⟩, fun h => h.2.1⟩
    | login username password =>
      have hiff := readLine_lines_iff (by decide) hlines.1 hlines.2 s.username s.password rest
      rw [← List.append_assoc, Prod.ext_iff, ← and_assoc] at hiff
      change (Choice.operation (.login _ _), _) = _ ↔ _
      rw [Prod.mk.injEq, Choice.operation.injEq, Operation.login.injEq]
      exact hiff.trans ⟨fun h => ⟨rfl, h, trivial⟩, fun h => h.2.1⟩
    | createGroup name =>
      have hiff := readLine_line_iff hlines s.groupName rest
      rw [← lineOf_append, Prod.ext_iff] at hiff
      change (if ctx.activeGroupCount ≥ maxGroups then (Choice.nothing, _)
        else (Choice.operation (.createGroup _), _)) = _ ↔ _
      by_cases hfull : ctx.activeGroupCount ≥ maxGroups
      · rw [if_pos hfull]
        exact iff_of_false nofun fun h => absurd h.2.2 (not_lt.mpr hfull)
      · rw [if_neg hfull, Prod.mk.injEq, Choice.operation.injEq, Operation.createGroup.injEq]
        exact hiff.trans ⟨fun h => ⟨rfl, h, not_le.mp hfull⟩, fun h => h.2.1⟩
    | joinGroup name =>
      have hiff := readLine_line_iff hlines s.groupName rest
      rw [← lineOf_append, Prod.ext_iff] at hiff
      change (if ctx.activeGroupCount ≥ maxGroups then (Choice.nothing, _)
        else (Choice.operation (.joinGroup _), _)) = _ ↔ _
      by_cases hfull : ctx.activeGroupCount ≥ maxGroups
      · rw [if_pos hfull]
        exact iff_of_false nofun fun h => absurd h.2.2 (not_lt.mpr hfull)
      · rw [if_neg hfull, Prod.mk.injEq, Choice.operation.injEq, Operation.joinGroup.injEq]
        exact hiff.trans ⟨fun h => ⟨rfl, h, not_le.mp hfull⟩, fun h => h.2.1⟩
    | leaveGroup name =>
      have hiff := readLine_line_iff hlines s.groupName rest
      rw [← lineOf_append, Prod.ext_iff] at hiff
      change (Choice.operation (.leaveGroup _), _) = _ ↔ _
      rw [Prod.mk.injEq, Choice.operation.injEq, Operation.leaveGroup.injEq]
      exact hiff.trans ⟨fun h => ⟨rfl, h, trivial⟩, fun h => h.2.1⟩
    | logout => exact iff_of_true rfl ⟨rfl, trivial, trivial⟩
  · refine iff_of_false (fun h => hscreen ?_) fun h => hscreen h.1
    have hoffered := (choose_spec screen s ctx (op.fields ++ rest) op.number.toNat).1
    rwa [h] at hoffered

/-- The turn tells the operation, and the program what was left of the input. -/
theorem carryOut_eq_iff {screen : Screen} {s : Surroundings} {ctx : ClientContext}
    {stdin rest : List UInt8} {chosen : Choice} {op : Operation} :
    carryOut screen s ctx stdin chosen = afterOperation screen ctx ⟨op, s.answer⟩ rest ↔
      (chosen, stdin) = (.operation op, rest) ∧ op.Survives s ctx := by
  unfold carryOut Operation.Survives
  split
  · rename_i hkilled
    refine iff_of_false (fun h => nomatch congrArg (fun r => r.2.control) h) ?_
    rintro ⟨hchosen, hsurvives⟩
    obtain ⟨rfl, -⟩ := Prod.mk.inj hchosen
    exact hsurvives hkilled
  · rename_i hlives
    constructor
    · intro h
      cases chosen with
      | operation op' =>
        have hran : some (⟨op', s.answer⟩ : Input) = some ⟨op, s.answer⟩ :=
          congrArg (fun r => r.1.ran) h
        have hrest : stdin = rest := congrArg (fun r => r.2.stdin) h
        obtain rfl := (Input.mk.inj (Option.some.inj hran)).1
        exact ⟨congrArg _ hrest, hlives⟩
      | exit | nothing => exact nomatch congrArg (fun r => r.1.ran) h
    · rintro ⟨hchosen, -⟩
      obtain ⟨rfl, rfl⟩ := Prod.mk.inj hchosen
      rfl

/-- A turn carries out what was typed for an operation exactly if the menu makes the
operation of it, and no `send` of it ends the process. -/
theorem takeTurn_typed_iff (screen : Screen) (s : Surroundings) (ctx : ClientContext)
    {op : Operation} (hlines : op.AllFields OneLine) (rest : List UInt8) :
    takeTurn s ⟨.menu screen, ctx, op.typed ++ rest⟩ =
        some (afterOperation screen ctx ⟨op, s.answer⟩ rest) ↔
      (op.command.screen = screen ∧ op.AllFields FitsLine ∧ op.HasRoom ctx) ∧ op.Survives s ctx := by
  have hturn : takeTurn s ⟨.menu screen, ctx, op.typed ++ rest⟩ =
      some (carryOut screen s ctx (choose screen s ctx (op.fields ++ rest) op.number.toNat).2
        (choose screen s ctx (op.fields ++ rest) op.number.toNat).1) := by
    simp only [takeTurn, readChoice_typed]
  rw [hturn, Option.some.injEq, carryOut_eq_iff, choose_typed_iff screen s ctx hlines rest]

/-- Operations to be typed, each with what its turn meets. -/
abbrev Script : Type := List (Surroundings × Operation)

/-- The text of a script. -/
def scriptText (script : Script) : List UInt8 := script.flatMap fun line => line.2.typed

/-- The turns of a script that runs as it is meant. -/
def meant (rest : List UInt8) : Screen → ClientContext → Script → List (Turn × Program)
  | _, _, [] => []
  | screen, ctx, (s, op) :: script =>
      let out := op.run ctx s.answer
      afterOperation screen ctx ⟨op, s.answer⟩ (scriptText script ++ rest) ::
        meant rest (op.command.next out.ret screen) out.ctx script

/-- Each operation is offered by the screen that the ones before it lead to, its fields
fit their buffers, there is room for its session, and its request can be sent. -/
def Proper : Screen → ClientContext → Script → Prop
  | _, _, [] => True
  | screen, ctx, (s, op) :: script =>
      let out := op.run ctx s.answer
      ((op.command.screen = screen ∧ op.AllFields FitsLine ∧ op.HasRoom ctx) ∧ op.Survives s ctx) ∧
        Proper (op.command.next out.ret screen) out.ctx script

instance decidableProper : ∀ (screen : Screen) (ctx : ClientContext) (script : Script),
    Decidable (Proper screen ctx script)
  | _, _, [] => inferInstanceAs (Decidable True)
  | screen, ctx, (s, op) :: script =>
      have := decidableProper (op.command.next (op.run ctx s.answer).ret screen)
        (op.run ctx s.answer).ctx script
      inferInstanceAs (Decidable (((_ ∧ _ ∧ _) ∧ _) ∧ _))

/-- The visit as a script. -/
def visitScript : Script :=
  visit.map fun input => ({ Surroundings.quiet with answer := input.answer }, input.op)

/-- The visit, typed ahead, with the choice of the exit behind it. -/
def typedVisit : Program := clientMain (some 3) (scriptText visitScript ++ [51, 10])

/-- The turns of the visit and of the exit. -/
def visitSurroundings : List Surroundings := visitScript.map Prod.fst ++ [.quiet]

/-- The turns a program has left: one for each newline of its input, and one that finds
none. -/
def turnsLeft (p : Program) : ℕ :=
  match p.control with
  | .menu _ => p.stdin.count 10 + 1
  | _ => 0

theorem Turns.turnsLeft_lt {p p' : Program} {turn : Turn} (hs : Turns p turn p') :
    turnsLeft p' + 1 ≤ turnsLeft p := by
  cases hs with
  | hung hcontrol => simp [turnsLeft, hcontrol]
  | idled hcontrol hcount | operated _ hcontrol _ hcount =>
    simp only [turnsLeft, afterOperation, hcontrol]
    omega
  | quit hcontrol _ | killed _ hcontrol _ _ _ => simp [turnsLeft, hcontrol]

/-- The ways in which a program stops. -/
structure Halts (p : Program) : Prop where
  code : ∀ code, p.control = .exited code → code = 0
  flushed : p.control = .flushing → p.stdin = []

theorem halts_clientMain {sock : Int} {stdin : List UInt8} :
    Halts (clientMain (some sock) stdin) := ⟨nofun, nofun⟩

theorem Turns.halts {p p' : Program} {turn : Turn} (hs : Turns p turn p') : Halts p' := by
  cases hs with
  | hung => exact ⟨nofun, fun _ => rfl⟩
  | idled | operated | killed => exact ⟨nofun, nofun⟩
  | quit =>
    refine ⟨fun code hcode => ?_, nofun⟩
    cases hcode
    rfl

/-- At a menu the program goes on. -/
theorem takeTurn_of_menu (s : Surroundings) {p : Program} {screen : Screen}
    (hcontrol : p.control = .menu screen) : (takeTurn s p).isSome = true := by
  simp only [takeTurn, hcontrol]
  split <;> rfl

section Runs
variable {sock : Int} {stdin : List UInt8} {moves : List (Move Program Turn)} {p : Program}

theorem settled_of_run (hsock : 0 ≤ sock) (hr : Run TurnStep (clientMain (some sock) stdin) moves p) :
    Settled sock p := by
  refine hr.invariant (G := fun _ _ => True) (settled_clientMain sock stdin) ?_ fun _ _ => trivial
  exact fun p turn p' h _ hs => h.step hsock hs.turns

/-- The accounts of every run, whatever is typed and answered: each window that was opened
was signalled once or belongs to a session that is open, and the connection is closed once,
at the exit. At a menu the screen tells the state, and there are no sessions on the first
one and after the exit. -/
theorem console_accounts (hsock : 0 ≤ sock)
    (hr : Run TurnStep (clientMain (some sock) stdin) moves p) :
    Settled sock p ∧
      (moves.flatMap (·.label.opened)).Perm
        (moves.flatMap (·.label.signalled) ++ windows p.ctx.sessions) ∧
      moves.flatMap (·.label.closed) = if p.control = .exited 0 then [sock] else [] := by
  induction hr with
  | start =>
    obtain ⟨-, -, -, hkeeps⟩ := settled_clientMain sock stdin
    refine ⟨settled_clientMain sock stdin, ?_, rfl⟩
    simp [(hkeeps rfl).sessions_eq, windows]
  | @snoc moves p turn p' hr' hs ih =>
    obtain ⟨hsettled, hwindows, hclosed⟩ := ih
    have hturns := hs.turns
    refine ⟨hsettled.step hsock hturns, ?_, ?_⟩
    · have hstep := hturns.windows_perm hsock hsettled
      simp only [List.flatMap_append, List.flatMap_singleton]
      refine (hwindows.append_right _).trans ?_
      rw [List.append_assoc, List.append_assoc]
      exact (List.perm_append_comm.trans hstep).append_left _
    · obtain ⟨screen, hmenu⟩ := hturns.at_menu
      rw [hmenu, if_neg nofun] at hclosed
      rw [List.flatMap_append, hclosed, List.nil_append, List.flatMap_singleton]
      exact hturns.closed_eq hsock hsettled

/-- What the visit signals and closes. -/
theorem typedVisit_turns : ∃ moves p,
    takeTurns visitSurroundings typedVisit = some (moves, p) ∧
      moves.flatMap (·.label.signalled) = [11, 12, 21, 22] ∧ p.control = .exited 0 := by
  have hturns : (takeTurns visitSurroundings typedVisit).map
      (fun r => (r.1.flatMap (·.label.signalled), r.2.control)) =
        some ([11, 12, 21, 22], .exited 0) := by decide +kernel
  obtain ⟨⟨moves, p⟩, h, heq⟩ := Option.map_eq_some_iff.mp hturns
  obtain ⟨hsignalled, hcontrol⟩ := Prod.mk.inj heq
  exact ⟨moves, p, h, hsignalled, hcontrol⟩

theorem console_accounts_visit : ∃ moves p,
    takeTurns visitSurroundings typedVisit = some (moves, p) ∧
      (moves.flatMap (·.label.opened)).Perm [11, 12, 21, 22] ∧
      moves.flatMap (·.label.closed) = [3] := by
  obtain ⟨moves, p, h, hsignalled, hcontrol⟩ := typedVisit_turns
  obtain ⟨hsettled, hwindows, hclosed⟩ := console_accounts (by decide) (run_of_takeTurns h)
  rw [Settled, hcontrol] at hsettled
  rw [hcontrol, if_pos rfl] at hclosed
  rw [hsignalled, hsettled.2.2.sessions_eq] at hwindows
  exact ⟨moves, p, h, hwindows, hclosed⟩

/-- Every run stops, whatever is typed: there is a turn for each newline at most, and one
more. It stops with the exit, or a `send` on a broken connection ends it, or it hangs with
its connection open where the input has ended; at a menu it always goes on. -/
theorem console_stops (hsock : 0 ≤ sock)
    (hr : Run TurnStep (clientMain (some sock) stdin) moves p) :
    moves.length ≤ stdin.count 10 + 1 ∧
      ((∀ s, takeTurn s p = none) ↔
        p.control = .exited 0 ∨ p.control = .killed ∨ p.control = .flushing) ∧
      (p.control = .killed → ∃ m ∈ moves, ∃ s, m.post = p ∧ s.broken = true ∧
        takeTurn s m.pre = some (m.label, m.post)) ∧
      (p.control = .flushing → p.stdin = [] ∧ p.ctx.serverFd = sock) := by
  have hstep : ∀ p turn p', Halts p → True → TurnStep p turn p' →
      Halts p' ∧ (if true = true then 1 else 0) + turnsLeft p' ≤ turnsLeft p := by
    intro p turn p' _ _ hs
    have hlt := hs.turns.turnsLeft_lt
    exact ⟨hs.turns.halts, by rw [if_pos rfl]; omega⟩
  obtain ⟨⟨hexit, hflush⟩, hrank⟩ := hr.countP_add_rank_le (G := fun _ _ => True) (fun _ => true)
    turnsLeft halts_clientMain hstep fun _ _ => trivial
  have hlength : moves.length + turnsLeft p ≤ stdin.count 10 + 1 := by
    rwa [List.countP_true] at hrank
  refine ⟨by omega, ⟨fun hnone => ?_, ?_⟩, fun hkilled => ?_, fun hcontrol => ⟨hflush hcontrol, ?_⟩⟩
  · cases hcontrol : p.control with
    | menu screen =>
      have hsome := takeTurn_of_menu .quiet hcontrol
      rw [hnone .quiet] at hsome
      cases hsome
    | flushing => exact Or.inr (Or.inr rfl)
    | killed => exact Or.inr (Or.inl rfl)
    | exited code => exact Or.inl (congrArg _ (hexit code hcontrol))
  · rintro (hcontrol | hcontrol | hcontrol) s <;> rw [takeTurn, hcontrol]
  · cases hr with
    | start => cases hkilled
    | @snoc moves p' p turn _ hs =>
      obtain ⟨s, hturn⟩ := hs
      exact ⟨_, List.mem_append_right _ List.mem_cons_self, s, rfl, broken_of_killed hturn hkilled,
        hturn⟩
  · have hsettled := settled_of_run hsock hr
    rw [Settled, hcontrol] at hsettled
    exact hsettled.1

theorem console_stops_visit : ∃ moves p,
    takeTurns visitSurroundings typedVisit = some (moves, p) ∧
      moves.length ≤ typedVisit.stdin.count 10 + 1 ∧ ∀ s, takeTurn s p = none := by
  obtain ⟨moves, p, h, -, hcontrol⟩ := typedVisit_turns
  obtain ⟨hlength, hstops, -⟩ := console_stops (by decide) (run_of_takeTurns h)
  exact ⟨moves, p, h, hlength, hstops.mpr (Or.inl hcontrol)⟩

end Runs

end MeshChat.Client.Memory
