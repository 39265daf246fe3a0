import MeshChat.Server.Descriptors

/-!
# The process refines the loop

System call by system call the process does what the loop of events does: between two
events of the loop it takes steps that the loop does not see. The flag that a signal
clears is the process's own; no handler looks at it.
-/
namespace MeshChat.Server
open Runs

def ServerContext.withRunning (ctx : ServerContext) (running : Bool) : ServerContext :=
  { ctx with running }

section Running
variable (env : Env) (ctx : ServerContext) (fd : Int) (msg : TLVMessage) (running : Bool)

theorem closeEmptyGroup_running (closing : ℕ) (name : CharArray maxGroupNameLen) :
    closeEmptyGroup env closing (ctx.withRunning running) name =
      ((closeEmptyGroup env closing ctx name).1.withRunning running,
        (closeEmptyGroup env closing ctx name).2) := by
  unfold closeEmptyGroup ServerContext.withRunning
  dsimp only
  split
  · rfl
  · split <;> rfl

theorem closeEmptyGroups_running (closing : ℕ) (names : List (CharArray maxGroupNameLen)) :
    closeEmptyGroups env closing (ctx.withRunning running) names =
      (closeEmptyGroups env closing ctx names).withRunning running := by
  induction names generalizing closing ctx with
  | nil => rfl
  | cons name names ih =>
    rw [closeEmptyGroups, closeEmptyGroup_running, ih]
    rfl

theorem deactivateUser_running :
    deactivateUser (ctx.withRunning running) fd = (deactivateUser ctx fd).withRunning running := by
  have hfind : findUserByFd (ctx.withRunning running) fd = findUserByFd ctx fd := rfl
  unfold deactivateUser
  rw [hfind]
  split <;> rfl

theorem cleanupClient_running :
    cleanupClient env (ctx.withRunning running) fd =
      (cleanupClient env ctx fd).withRunning running := by
  have hleave : leaveAllGroups (ctx.withRunning running) fd =
      ((leaveAllGroups ctx fd).1.withRunning running, (leaveAllGroups ctx fd).2) := rfl
  unfold cleanupClient
  rw [hleave]
  dsimp only
  rw [closeEmptyGroups_running, deactivateUser_running]

theorem handleRegister_running :
    handleRegister env (ctx.withRunning running) fd msg =
      ((handleRegister env ctx fd msg).1.withRunning running, (handleRegister env ctx fd msg).2) := by
  unfold handleRegister ServerContext.withRunning
  split
  · rfl
  · dsimp only
    split
    · rfl
    · split
      · rfl
      · split <;> rfl

theorem handleLogin_running :
    handleLogin env (ctx.withRunning running) fd msg =
      ((handleLogin env ctx fd msg).1.withRunning running, (handleLogin env ctx fd msg).2) := by
  unfold handleLogin ServerContext.withRunning
  split
  · rfl
  · dsimp only
    split
    · rfl
    · split
      · rfl
      · split <;> rfl

theorem joinAndReply_running (grp : GroupRecord) :
    joinAndReply env (ctx.withRunning running) fd grp =
      ((joinAndReply env ctx fd grp).1.withRunning running, (joinAndReply env ctx fd grp).2) := by
  unfold joinAndReply ServerContext.withRunning
  dsimp only
  split <;> rfl

theorem handleCreateGroup_running :
    handleCreateGroup env (ctx.withRunning running) fd msg =
      ((handleCreateGroup env ctx fd msg).1.withRunning running,
        (handleCreateGroup env ctx fd msg).2) := by
  have hauth : notLoggedIn (ctx.withRunning running) fd = notLoggedIn ctx fd := rfl
  have hgroups : (ctx.withRunning running).groupMap = ctx.groupMap := rfl
  have hqueue : (ctx.withRunning running).mcastQueue = ctx.mcastQueue := rfl
  unfold handleCreateGroup
  rw [hauth, hgroups, hqueue]
  split
  · rfl
  · split
    · rfl
    · split
      · rfl
      · split
        · rfl
        · split
          · rfl
          · dsimp only
            split
            · rfl
            · split
              · rfl
              · split
                · rfl
                · exact joinAndReply_running env { ctx with groupMap := _, mcastQueue := _ } fd
                    running _

theorem handleJoinGroup_running :
    handleJoinGroup env (ctx.withRunning running) fd msg =
      ((handleJoinGroup env ctx fd msg).1.withRunning running,
        (handleJoinGroup env ctx fd msg).2) := by
  have hauth : notLoggedIn (ctx.withRunning running) fd = notLoggedIn ctx fd := rfl
  have hgroups : (ctx.withRunning running).groupMap = ctx.groupMap := rfl
  unfold handleJoinGroup
  rw [hauth, hgroups]
  split
  · rfl
  · split
    · rfl
    · split
      · rfl
      · exact joinAndReply_running env ctx fd running _

theorem handleLeaveGroup_running :
    handleLeaveGroup env (ctx.withRunning running) fd msg =
      ((handleLeaveGroup env ctx fd msg).1.withRunning running,
        (handleLeaveGroup env ctx fd msg).2) := by
  have hgroups : (ctx.withRunning running).groupMap = ctx.groupMap := rfl
  have hremove : ∀ grp itr, removeMember (ctx.withRunning running) grp itr =
      (removeMember ctx grp itr).withRunning running := fun _ _ => rfl
  unfold handleLeaveGroup
  rw [hgroups]
  split
  · rfl
  · split
    · rfl
    · dsimp only
      split
      · rfl
      · rw [hremove]
        split
        · rw [closeEmptyGroup_running]
        · rfl

/-- No handler looks at the flag. -/
theorem dispatchMessage_running :
    dispatchMessage env (ctx.withRunning running) fd msg =
      ((dispatchMessage env ctx fd msg).1.withRunning running,
        (dispatchMessage env ctx fd msg).2) := by
  unfold dispatchMessage
  cases MessageTag.ofCode msg.tag with
  | none => rfl
  | some tag =>
    cases tag with
    | register => rw [returning, handleRegister_running]; rfl
    | login => rw [returning, handleLogin_running]; rfl
    | logout => rw [returning, handleLogout, cleanupClient_running]; rfl
    | exit => rw [returning, handleExit, cleanupClient_running]; rfl
    | createGroup => rw [returning, handleCreateGroup_running]; rfl
    | joinGroup => rw [returning, handleJoinGroup_running]; rfl
    | leaveGroup => rw [returning, handleLeaveGroup_running]; rfl
    | success => rfl
    | error => rfl
    | groupInfo => rfl

end Running

theorem acceptClient_running (env : Env) (ctx : ServerContext) (fd : Int) (running : Bool) :
    acceptClient env (ctx.withRunning running) fd =
      ((acceptClient env ctx fd).1.withRunning running, (acceptClient env ctx fd).2) := by
  unfold acceptClient ServerContext.withRunning
  dsimp only
  split <;> rfl

theorem serveClient_running (env : Env) (ctx : ServerContext) (slot : ℕ) (fd : Int)
    (msg : TLVMessage) (running : Bool) :
    (serveClient env (ctx.withRunning running) slot fd msg).1 =
      (serveClient env ctx slot fd msg).1.withRunning running := by
  unfold serveClient
  dsimp only
  rw [dispatchMessage_running]
  split <;> rfl

theorem dropClient_running (env : Env) (ctx : ServerContext) (slot : ℕ) (fd : Int)
    (running : Bool) :
    dropClient env (ctx.withRunning running) slot fd =
      (dropClient env ctx slot fd).withRunning running := by
  unfold dropClient clientDisconnected
  rw [cleanupClient_running]
  rfl

/-- A session that has ended leaves its slot. -/
def AfterSend.leave (ctx : ServerContext) : AfterSend → ServerContext
  | .reject _ => ctx
  | .reply i _ ret => if ret < 0 then setSlot ctx i (-1) else ctx

/-- The context as the loop has it: the slot of a session that has ended is free. -/
def Process.loopCtx (p : Process) : ServerContext :=
  match p.stage with
  | .sending _ _ after => after.leave p.ctx
  | _ => p.ctx

/-- What the environment decides in an event. -/
def OsEvent.env : OsEvent → Option Env
  | .accept env _ | .readFails env | .dispatch env _ => some env
  | _ => none

/-- The slot of a descriptor is the first that holds it. -/
theorem SlotsInj.findSlot_eq {l : List Int} (h : SlotsInj l) {i : ℕ} {fd : Int}
    (hslot : l[i]? = some fd) (hpos : 0 ≤ fd) : findSlot l (fun c => decide (c = fd)) = i := by
  have hlt : findSlot l (fun c => decide (c = fd)) < l.length :=
    List.findIdx_lt_length_of_exists ⟨fd, List.mem_of_getElem? hslot, decide_eq_true rfl⟩
  have hget := List.getElem?_eq_getElem hlt
  have hfound := of_decide_eq_true (getElem?_findSlot _ hget)
  rw [hfound] at hget
  exact h _ _ fd hpos hget hslot

/-- A descriptor that `accept` can return is neither the listener's nor in a slot. -/
theorem Wf.not_open {p : Process} (h : Wf p) {fd : Int} (hpos : 0 ≤ fd) (hfree : p.files fd = none) :
    fd ≠ p.ctx.listenFd ∧ fd ∉ p.ctx.clientFds := by
  constructor
  · intro he
    rw [(h.listener fd).mpr ⟨hpos, he.symm⟩] at hfree
    cases hfree
  · intro hmem
    exact Process.files_ne_none ((h.conns fd).mpr (Or.inl ⟨hpos, hmem⟩)) hfree

/-- A signal clears the flag and nothing else. -/
theorem Process.loopCtx_stopped (p : Process) :
    ({ p with ctx := { p.ctx with running := false } } : Process).loopCtx =
      p.loopCtx.withRunning false := by
  unfold Process.loopCtx
  dsimp only
  split
  · rename_i after _
    cases after with
    | reject fd => rfl
    | reply i fd ret =>
      simp only [AfterSend.leave]
      split <;> rfl
  · rfl

theorem Process.loopCtx_accepted (p : Process) (env : Env) (ready : List Int) (fd : Int)
    (c : Conn) : (p.accepted env ready fd c).loopCtx = (acceptClient env p.ctx fd).1 := by
  unfold Process.loopCtx Process.accepted
  by_cases hnone : (acceptClient env p.ctx fd).2 = []
  · simp [hnone]
  · simp [hnone, AfterSend.leave]

/-- When `dispatch_message` returns -1 the loop has already cleared the slot. -/
theorem leave_dispatched (env : Env) (ctx : ServerContext) (i : ℕ) (fd : Int) (msg : TLVMessage) :
    (AfterSend.reply i fd (dispatchMessage env ctx fd msg).2.2).leave
        (dispatchMessage env ctx fd msg).1 = (serveClient env ctx i fd msg).1 := by
  rw [AfterSend.leave, serveClient]
  split <;> rfl

theorem Control.loopCtx {p : Process} {e : OsEvent} {stage : ServerStage} (h : Control p e stage)
    (hended : stage.ended = false) : ({ p with stage } : Process).loopCtx = p.loopCtx := by
  cases h with
  | killed => cases hended
  | kept hstage hret => simp [Process.loopCtx, hstage, AfterSend.leave, not_lt.mpr hret]
  | wrote hstage _ _ _ _ => simp only [Process.loopCtx, hstage]
  | gaveUp hstage => simp only [Process.loopCtx, hstage]
  | _ => simp_all [Process.loopCtx]

/-- The descriptor that is being served is the one in its slot. -/
theorem Wf.served {p : Process} (h : Wf p) {ctx : ServerContext} {running : Bool}
    (hown : p.ctx = ctx.withRunning running) {i : ℕ} {fd : Int}
    (hserving : p.stage.serving = some (i, fd)) :
    0 ≤ fd ∧ fd ∈ ctx.clientFds ∧ findSlot ctx.clientFds (fun c => decide (c = fd)) = i := by
  obtain ⟨hpos, hslot⟩ := h.serving i fd hserving
  have hslots := h.slots
  rw [hown] at hslot hslots
  exact ⟨hpos, List.mem_of_getElem? hslot, hslots.findSlot_eq hslot hpos⟩

/-- A step of the process is a step of the loop or none. -/
theorem ProcessEffect.loop {p p' : Process} {e : OsEvent} (hs : ProcessEffect p e p') (hwf : Wf p)
    (hstage : p.stage ≠ .socket) (he : e.failsSetUp = false) (hended : p'.stage.ended = false)
    {ctx : ServerContext} {running : Bool} (hctx : p.loopCtx = ctx.withRunning running) :
    ∃ moves ctx' running', Run LoopStep ctx moves ctx' ∧
      (∀ m ∈ moves, e.env = some m.label.env) ∧ p'.loopCtx = ctx'.withRunning running' := by
  have hstutter : ∀ running', p'.loopCtx = ctx.withRunning running' →
      ∃ moves ctx' running', Run LoopStep ctx moves ctx' ∧
        (∀ m ∈ moves, e.env = some m.label.env) ∧ p'.loopCtx = ctx'.withRunning running' :=
    fun running' h => ⟨[], ctx, running', .start, List.forall_mem_nil _, h⟩
  have hstep : ∀ (label : LoopLabel) (ctx' : ServerContext), LoopStep ctx label ctx' →
      e.env = some label.env → p'.loopCtx = ctx'.withRunning running →
      ∃ moves ctx' running', Run LoopStep ctx moves ctx' ∧
        (∀ m ∈ moves, e.env = some m.label.env) ∧ p'.loopCtx = ctx'.withRunning running' :=
    fun label ctx' hl henv h =>
      ⟨_, ctx', running, .snoc .start hl, List.forall_mem_singleton.mpr henv, h⟩
  cases hs with
  | moves hc => exact hstutter running ((hc.loopCtx hended).trans hctx)
  | signal =>
    refine hstutter false ?_
    rw [p.loopCtx_stopped, hctx]
    rfl
  | client _ _ => exact hstutter running hctx
  | noSocket h => exact absurd h hstage
  | socket h _ _ => exact absurd h hstage
  | setUpFails hfails => rcases hfails with ⟨-, rfl⟩ | ⟨-, rfl⟩ <;> cases he
  | @accepts ready env fd c hstage hpos hfree =>
    have hown : p.ctx = ctx.withRunning running := by simpa [Process.loopCtx, hstage] using hctx
    have hnew := hwf.not_open hpos hfree
    rw [hown] at hnew
    refine hstep ⟨env, .accept fd, (acceptClient env ctx fd).2⟩ (acceptClient env ctx fd).1
      (if_pos ⟨hpos, hnew⟩) rfl ?_
    rw [p.loopCtx_accepted, hown, acceptClient_running]
  | reads hstage _ _ _ _ =>
    refine hstutter running ?_
    rw [← hctx]
    simp [Process.loopCtx, hstage, Process.setConn]
  | @drops ready i fd got env hstage hwant =>
    have hown : p.ctx = ctx.withRunning running := by simpa [Process.loopCtx, hstage] using hctx
    obtain ⟨hpos, hslot, hfind⟩ := hwf.served hown (by rw [hstage]; rfl)
    refine hstep ⟨env, .eof fd, []⟩ (dropClient env ctx i fd) ?_ rfl ?_
    · change runEvent env ctx (.eof fd) = some (dropClient env ctx i fd, [])
      rw [runEvent, if_pos ⟨hpos, hslot⟩, hfind]
    · change dropClient env p.ctx i fd = _
      rw [hown, dropClient_running]
  | @dispatches ready i fd got env into hstage hwant =>
    have hown : p.ctx = ctx.withRunning running := by simpa [Process.loopCtx, hstage] using hctx
    obtain ⟨hpos, hslot, hfind⟩ := hwf.served hown (by rw [hstage]; rfl)
    refine hstep ⟨env, .request fd (assemble into got),
      (serveClient env ctx i fd (assemble into got)).2⟩
      (serveClient env ctx i fd (assemble into got)).1 ?_ rfl ?_
    · change runEvent env ctx (.request fd (assemble into got)) =
        some (serveClient env ctx i fd (assemble into got))
      rw [runEvent, if_pos ⟨hpos, hslot⟩, hfind]
    · have hserved := serveClient_running env ctx i fd (assemble into got) running
      rw [← hown] at hserved
      exact (leave_dispatched env p.ctx i fd _).trans hserved
  | rejected hstage =>
    refine hstutter running ?_
    rw [← hctx]
    simp [Process.loopCtx, hstage, Process.closeFd, AfterSend.leave]
  | exits hstage hret =>
    refine hstutter running ?_
    rw [← hctx]
    simp [Process.loopCtx, hstage, AfterSend.leave, hret]
  | destroys _ => cases hended

/-- Once the socket is there, `listen_fd` stays as it is. -/
theorem ProcessEffect.listenFd {p p' : Process} {e : OsEvent} (hs : ProcessEffect p e p')
    (hstage : p.stage ≠ .socket) : p'.stage ≠ .socket ∧ p'.ctx.listenFd = p.ctx.listenFd := by
  cases hs with
  | moves hc => exact ⟨hc.stage_ne, rfl⟩
  | signal => exact ⟨hstage, rfl⟩
  | client _ _ => exact ⟨hstage, rfl⟩
  | noSocket h => exact absurd h hstage
  | socket h _ _ => exact absurd h hstage
  | @accepts ready env fd c _ _ _ =>
    rcases p.accepted_cases env ready fd c with ⟨i, x, -, -, heq⟩ | ⟨-, heq⟩ <;> rw [heq] <;>
      exact ⟨ServerStage.noConfusion, rfl⟩
  | @drops ready i fd got env _ _ =>
    exact ⟨ServerStage.noConfusion, (cleanupClient_sameLoop env p.ctx fd).listenFd⟩
  | @dispatches ready i fd got env into _ _ =>
    exact ⟨ServerStage.noConfusion, (dispatchMessage_sameLoop env p.ctx fd _).listenFd⟩
  | destroys _ =>
    exact ⟨ServerStage.noConfusion, congrArg ServerContext.listenFd (Process.ctx_closeAll p _)⟩
  | _ => exact ⟨ServerStage.noConfusion, rfl⟩

/-- The context of the loop that belongs to a process. Before there is a socket it is
the one with which the loop starts. -/
structure Refines (ctx₀ : ServerContext) (listenFd : Int) (p : Process) (ctx : ServerContext) :
    Prop where
  descr : DescriptorsOk p
  reached : p.ctx.listenFd = listenFd → p.stage ≠ .socket → p.stage.ended = false →
    ∃ running, p.loopCtx = ctx.withRunning running
  fresh : p.stage = .socket →
    ctx = listening ctx₀ listenFd ∧ ∃ running, p.ctx = ctx₀.withRunning running

theorem booted_refines {alloc : ℕ → Bool} {ctx₀ : ServerContext}
    (h0 : serverCreate alloc = some ctx₀) (listenFd : Int) :
    Refines ctx₀ listenFd (booted ctx₀) (listening ctx₀ listenFd) where
  descr := descriptorsOk_of_run h0 .start (List.forall_mem_nil _)
  reached _ hstage := absurd rfl hstage
  fresh _ := ⟨rfl, ctx₀.running, rfl⟩

section Refines
variable {ctx₀ ctx : ServerContext} {listenFd : Int} {p p' : Process} {e : OsEvent}

/-- The steps before there is a socket. -/
theorem Refines.of_socket (h : Refines ctx₀ listenFd p ctx) (hs : ProcessEffect p e p')
    (hdescr : DescriptorsOk p') (hstage : p.stage = .socket) : Refines ctx₀ listenFd p' ctx := by
  obtain ⟨rfl, running, hctx⟩ := h.fresh hstage
  refine ⟨hdescr, ?_, ?_⟩
  · intro hfd hstage' _
    cases hs with
    | moves hc => cases hc <;> simp_all
    | signal => exact absurd hstage hstage'
    | client _ _ => exact absurd hstage hstage'
    | noSocket _ =>
      refine ⟨running, ?_⟩
      change listening p.ctx (-1) = _
      rw [hctx, ← hfd]
      rfl
    | @socket fd _ _ _ =>
      refine ⟨running, ?_⟩
      change listening p.ctx fd = _
      rw [hctx, ← hfd]
      rfl
    | setUpFails hfails => rcases hfails with ⟨h, -⟩ | ⟨h, -⟩ <;> simp [hstage] at h
    | _ => simp_all
  · intro hstage'
    cases hs with
    | moves hc => exact absurd hstage' hc.stage_ne
    | signal =>
      refine ⟨rfl, false, ?_⟩
      rw [hctx]
      rfl
    | client _ _ => exact ⟨rfl, running, hctx⟩
    | setUpFails hfails => rcases hfails with ⟨h, -⟩ | ⟨h, -⟩ <;> simp [hstage] at h
    | _ => simp_all

theorem Refines.step (h : Refines ctx₀ listenFd p ctx) (he : e.failsSetUp = false) {P : Env → Prop}
    (hP : ∀ env, e.env = some env → P env) (hs : ProcessStep p e p') :
    ∃ moves ctx', Run LoopStep ctx moves ctx' ∧ (∀ m ∈ moves, P m.label.env) ∧
      Refines ctx₀ listenFd p' ctx' := by
  have heffect := processStep_effect hs
  have hdescr := h.descr.step he hs
  by_cases hsocket : p.stage = .socket
  · exact ⟨[], ctx, .start, List.forall_mem_nil _, h.of_socket heffect hdescr hsocket⟩
  obtain ⟨hsocket', hfd⟩ := heffect.listenFd hsocket
  by_cases hgo : p.ctx.listenFd = listenFd ∧ p'.stage.ended = false
  · have hbefore := heffect.ended_before hgo.2
    obtain ⟨running, hctx⟩ := h.reached hgo.1 hsocket hbefore
    obtain ⟨moves, ctx', running', hmoves, henv, hctx'⟩ :=
      heffect.loop (h.descr.wf hbefore) hsocket he hgo.2 hctx
    exact ⟨moves, ctx', hmoves, fun m hm => hP _ (henv m hm), hdescr,
      fun _ _ _ => ⟨running', hctx'⟩, fun h => absurd h hsocket'⟩
  · exact ⟨[], ctx, .start, List.forall_mem_nil _, hdescr,
      fun hfd' _ hended => absurd ⟨hfd ▸ hfd', hended⟩ hgo, fun h => absurd h hsocket'⟩

end Refines

/-- The process refines the loop: in a run whose set-up does not fail, the context is
one that the loop gets to from the listening socket, up to the flag and a slot that
is about to be cleared. What the environment decides in the loop's events it decided
in those of the process. -/
theorem process_refines_loop {alloc : ℕ → Bool} {ctx₀ : ServerContext} {p : Process}
    {moves : List ProcessMove} (h0 : serverCreate alloc = some ctx₀)
    (hr : Run ProcessStep (booted ctx₀) moves p)
    (hset : ∀ m ∈ moves, m.label.failsSetUp = false) (hstage : p.stage ≠ .socket)
    (hended : p.stage.ended = false) {P : Env → Prop}
    (hP : ∀ m ∈ moves, ∀ env, m.label.env = some env → P env) :
    ∃ moves' ctx running, Run LoopStep (listening ctx₀ p.ctx.listenFd) moves' ctx ∧
      (∀ m ∈ moves', P m.label.env) ∧ p.loopCtx = ctx.withRunning running := by
  generalize hlisten : p.ctx.listenFd = listenFd
  have hsim : ∃ moves' ctx, Run LoopStep (listening ctx₀ listenFd) moves' ctx ∧
      (∀ m ∈ moves', P m.label.env) ∧ Refines ctx₀ listenFd p ctx :=
    hr.simulated (G := fun _ e => e.failsSetUp = false ∧ ∀ env, e.env = some env → P env)
      (booted_refines h0 listenFd) (fun p e p' ctx hi he hs => hi.step he.1 he.2 hs)
      fun m hm => ⟨hset m hm, hP m hm⟩
  obtain ⟨moves', ctx, hloop, henv, hrefines⟩ := hsim
  obtain ⟨running, hrunning⟩ := hrefines.reached hlisten hstage hended
  exact ⟨moves', ctx, running, hloop, henv, hrunning⟩

/-- The loop behind a server that has read a whole request. -/
theorem process_refines_loop_registering :
    ∃ moves ctx, Run LoopStep (listening started 3) moves ctx ∧ 4 ∈ ctx.clientFds ∧
      ctx.users.map (·.username) = [nameOf 0] := by
  have hlisten : (processAfter registering).ctx.listenFd = 3 := by decide +kernel
  have haccepted : 4 ∈ (processAfter registering).loopCtx.clientFds := by decide +kernel
  have husers : (processAfter registering).loopCtx.users.map (·.username) = [nameOf 0] := by
    decide +kernel
  obtain ⟨moves, ctx, running, hloop, -, hctx⟩ := process_refines_loop (P := fun _ => True)
    serverCreate_started (run_process registering (by decide +kernel)) (by decide)
    (by decide +kernel) (by decide +kernel) fun _ _ _ _ => trivial
  rw [hlisten] at hloop
  rw [hctx] at haccepted husers
  exact ⟨moves, ctx, hloop, haccepted, husers⟩

end MeshChat.Server
