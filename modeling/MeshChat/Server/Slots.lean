import MeshChat.Server.Process

/-!
# Slots and descriptors

The slots of `client_fds` against the open descriptors: while the process runs, no
descriptor is in two slots, and what is open is the listener, the connections in
the slots, and one that is being rejected.
-/
namespace MeshChat.Server
open Runs Resources

/-- The loop's own part of the context is the same. -/
structure SameLoop (ctx ctx' : ServerContext) : Prop where
  listenFd : ctx'.listenFd = ctx.listenFd
  clientFds : ctx'.clientFds = ctx.clientFds
  running : ctx'.running = ctx.running

namespace SameLoop
variable {ctx ctx' ctx'' : ServerContext}

theorem refl (ctx : ServerContext) : SameLoop ctx ctx := ⟨rfl, rfl, rfl⟩

theorem trans (h : SameLoop ctx ctx') (h' : SameLoop ctx' ctx'') : SameLoop ctx ctx'' :=
  ⟨h'.listenFd.trans h.listenFd, h'.clientFds.trans h.clientFds, h'.running.trans h.running⟩

theorem of_sameSessions (h : SameSessions ctx ctx') : SameLoop ctx ctx' :=
  ⟨h.listenFd, h.clientFds, by rw [h]⟩

end SameLoop

theorem deactivateUser_sameLoop (ctx : ServerContext) (fd : Int) :
    SameLoop ctx (deactivateUser ctx fd) := by
  unfold deactivateUser
  split <;> exact ⟨rfl, rfl, rfl⟩

theorem cleanupClient_sameLoop (env : Env) (ctx : ServerContext) (fd : Int) :
    SameLoop ctx (cleanupClient env ctx fd) :=
  (SameLoop.of_sameSessions
    ((leaveAllGroups_same ctx fd).trans (closeEmptyGroups_same env 0 _ _))).trans
    (deactivateUser_sameLoop _ fd)

theorem handleRegister_sameLoop (env : Env) (ctx : ServerContext) (fd : Int) (msg : TLVMessage) :
    SameLoop ctx (handleRegister env ctx fd msg).1 := by
  unfold handleRegister
  split
  · exact .refl ctx
  · split
    · exact .refl ctx
    · split
      · exact .refl ctx
      · dsimp only
        split <;> exact ⟨rfl, rfl, rfl⟩

theorem handleLogin_sameLoop (env : Env) (ctx : ServerContext) (fd : Int) (msg : TLVMessage) :
    SameLoop ctx (handleLogin env ctx fd msg).1 := by
  unfold handleLogin
  split
  · exact .refl ctx
  · split
    · exact .refl ctx
    · split
      · exact .refl ctx
      · split
        · exact .refl ctx
        · exact ⟨rfl, rfl, rfl⟩

/-- No handler touches `listen_fd`, `client_fds` or `running`. -/
theorem dispatchMessage_sameLoop (env : Env) (ctx : ServerContext) (fd : Int) (msg : TLVMessage) :
    SameLoop ctx (dispatchMessage env ctx fd msg).1 := by
  unfold dispatchMessage
  cases MessageTag.ofCode msg.tag with
  | none => exact .refl ctx
  | some tag =>
    cases tag with
    | register => exact handleRegister_sameLoop env ctx fd msg
    | login => exact handleLogin_sameLoop env ctx fd msg
    | logout => exact cleanupClient_sameLoop env ctx fd
    | exit => exact cleanupClient_sameLoop env ctx fd
    | createGroup => exact .of_sameSessions (handleCreateGroup_same env ctx fd msg)
    | joinGroup => exact .of_sameSessions (handleJoinGroup_same env ctx fd msg)
    | leaveGroup => exact .of_sameSessions (handleLeaveGroup_same env ctx fd msg)
    | success => exact .refl ctx
    | error => exact .refl ctx
    | groupInfo => exact .refl ctx

/-- No descriptor is in two slots. -/
def SlotsInj (clientFds : List Int) : Prop :=
  ∀ (i j : ℕ) (fd : Int), 0 ≤ fd → clientFds[i]? = some fd → clientFds[j]? = some fd → i = j

namespace SlotsInj
variable {l : List Int} {i : ℕ} {fd fd' : Int}

theorem getElem?_close (hfd' : 0 ≤ fd') {j : ℕ} :
    (l.set i (-1))[j]? = some fd' ↔ j ≠ i ∧ l[j]? = some fd' := by
  rw [List.getElem?_set]
  split
  · rename_i hij
    constructor
    · intro h
      split at h
      · obtain rfl := Option.some.inj h
        omega
      · cases h
    · exact fun h => absurd hij.symm h.1
  · rename_i hij
    exact ⟨fun h => ⟨Ne.symm hij, h⟩, And.right⟩

/-- After a slot was cleared. -/
theorem close (h : SlotsInj l) (i : ℕ) : SlotsInj (l.set i (-1)) := by
  intro j k fd hfd hj hk
  exact h j k fd hfd ((getElem?_close hfd).mp hj).2 ((getElem?_close hfd).mp hk).2

theorem mem_close (h : SlotsInj l) (hslot : l[i]? = some fd) (hfd : 0 ≤ fd) (hfd' : 0 ≤ fd') :
    fd' ∈ l.set i (-1) ↔ fd' ∈ l ∧ fd' ≠ fd := by
  rw [List.mem_iff_getElem?, List.mem_iff_getElem?]
  constructor
  · rintro ⟨j, hj⟩
    obtain ⟨hji, hj⟩ := (getElem?_close hfd').mp hj
    refine ⟨⟨j, hj⟩, ?_⟩
    rintro rfl
    exact hji (h j i fd' hfd hj hslot)
  · rintro ⟨⟨j, hj⟩, hne⟩
    refine ⟨j, (getElem?_close hfd').mpr ⟨?_, hj⟩⟩
    rintro rfl
    rw [hslot, Option.some.injEq] at hj
    exact hne hj.symm

theorem getElem?_open {x : Int} (hslot : l[i]? = some x) (hx : x < 0) (hfd' : 0 ≤ fd') {j : ℕ} :
    (l.set i fd)[j]? = some fd' ↔ l[j]? = some fd' ∨ j = i ∧ fd = fd' := by
  rw [List.getElem?_set]
  split
  · rename_i hij
    subst hij
    rw [if_pos (List.getElem?_eq_some_iff.mp hslot).1, hslot, Option.some.injEq, Option.some.injEq]
    exact ⟨fun h => Or.inr ⟨rfl, h⟩, fun h => h.elim (fun h => by omega) And.right⟩
  · rename_i hij
    exact ⟨Or.inl, fun h => h.elim id fun h => absurd h.1.symm hij⟩

/-- After a free slot was taken by a new descriptor. -/
theorem take (h : SlotsInj l) {x : Int} (hslot : l[i]? = some x) (hx : x < 0) (hnew : fd ∉ l) :
    SlotsInj (l.set i fd) := by
  have hat : ∀ {j : ℕ}, l[j]? ≠ some fd := fun hj => hnew (List.mem_of_getElem? hj)
  intro j k fd' hfd' hj hk
  rw [getElem?_open hslot hx hfd'] at hj hk
  rcases hj with hj | ⟨rfl, rfl⟩
  · rcases hk with hk | ⟨rfl, rfl⟩
    · exact h j k fd' hfd' hj hk
    · exact absurd hj hat
  · rcases hk with hk | ⟨rfl, -⟩
    · exact absurd hk hat
    · rfl

theorem mem_take {x : Int} (hslot : l[i]? = some x) (hx : x < 0) (hfd' : 0 ≤ fd') :
    fd' ∈ l.set i fd ↔ fd' ∈ l ∨ fd' = fd := by
  rw [List.mem_iff_getElem?, List.mem_iff_getElem?]
  constructor
  · rintro ⟨j, hj⟩
    rcases (getElem?_open hslot hx hfd').mp hj with hj | ⟨-, rfl⟩
    · exact Or.inl ⟨j, hj⟩
    · exact Or.inr rfl
  · rintro (⟨j, hj⟩ | rfl)
    · exact ⟨j, (getElem?_open hslot hx hfd').mpr (Or.inl hj)⟩
    · exact ⟨i, (getElem?_open hslot hx hfd').mpr (Or.inr ⟨rfl, rfl⟩)⟩

theorem nodup (h : SlotsInj l) : (l.filter fun fd => decide (0 ≤ fd)).Nodup := by
  rw [List.Nodup, List.pairwise_filter, List.pairwise_iff_getElem]
  intro i j hi hj hij hpos _ heq
  have hsame := h i j l[i] (of_decide_eq_true hpos) (List.getElem?_eq_getElem hi)
    (by rw [List.getElem?_eq_getElem hj, heq])
  omega

end SlotsInj

/-- A new connection gets a free slot, or there is none. -/
theorem acceptClient_cases (env : Env) (ctx : ServerContext) (fd : Int) :
    (∃ i x, ctx.clientFds[i]? = some x ∧ x < 0 ∧
        acceptClient env ctx fd = (setSlot ctx i fd, [])) ∨
      (∀ x ∈ ctx.clientFds, 0 ≤ x) ∧
        acceptClient env ctx fd = (ctx, sendError env fd .serverFull) := by
  unfold acceptClient
  dsimp only
  by_cases hslot : findSlot ctx.clientFds (fun fd => decide (fd < 0)) < ctx.clientFds.length
  · have hget := List.getElem?_eq_getElem hslot
    have hneg := getElem?_findSlot _ hget
    exact Or.inl ⟨_, _, hget, of_decide_eq_true hneg, if_pos hslot⟩
  · refine Or.inr ⟨fun x hx => ?_, if_neg hslot⟩
    by_contra hneg
    exact hslot (List.findIdx_lt_length_of_exists ⟨x, hx, decide_eq_true (not_le.mp hneg)⟩)

namespace Process

/-- A new connection is put into a free slot, or rejected because there is none. -/
theorem accepted_cases (p : Process) (env : Env) (ready : List Int) (fd : Int) (c : Conn) :
    (∃ i x, p.ctx.clientFds[i]? = some x ∧ x < 0 ∧
        p.accepted env ready fd c = { p.openFd (.accept fd) fd (.conn c) with
          ctx := setSlot p.ctx i fd, stage := .slots ready 0 }) ∨
      (∀ x ∈ p.ctx.clientFds, 0 ≤ x) ∧
        p.accepted env ready fd c = { p.openFd (.accept fd) fd (.conn c) with
          stage := .sending ready (wires (sendError env fd .serverFull)) (.reject fd) } := by
  unfold accepted
  rcases acceptClient_cases env p.ctx fd with ⟨i, x, hslot, hx, heq⟩ | ⟨hfull, heq⟩
  · refine Or.inl ⟨i, x, hslot, hx, ?_⟩
    simp only [heq, if_true]
  · have hne : ¬ sendError env fd .serverFull = [] := List.cons_ne_nil _ _
    refine Or.inr ⟨hfull, ?_⟩
    simp only [heq, if_neg hne]
    rfl

theorem conn_eq_some {p : Process} {fd : Int} {c : Conn} :
    p.conn fd = some c ↔ p.files fd = some (.conn c) := by
  unfold conn
  split
  · rename_i c' hfile
    rw [hfile]
    simp
  · rename_i hfile
    exact ⟨nofun, fun h => absurd h (hfile c)⟩

theorem files_ne_none {p : Process} {fd : Int} (h : (p.conn fd).isSome = true) :
    p.files fd ≠ none := by
  obtain ⟨c, hc⟩ := Option.isSome_iff_exists.mp h
  rw [conn_eq_some.mp hc]
  nofun

theorem conn_openFd (p : Process) (call : FdCall) (fd : Int) (c : Conn) (fd' : Int) :
    (p.openFd call fd (.conn c)).conn fd' = if fd' = fd then some c else p.conn fd' := by
  by_cases h : fd' = fd
  · subst h
    simp [conn, openFd]
  · simp [conn, openFd, h]

/-- A listener is no connection. -/
theorem conn_openFd_listener {p : Process} {call : FdCall} {fd : Int} (hfree : p.files fd = none)
    (fd' : Int) : (p.openFd call fd .listener).conn fd' = p.conn fd' := by
  by_cases h : fd' = fd
  · subst h
    simp [conn, openFd, hfree]
  · simp [conn, openFd, h]

theorem conn_closeFd (p : Process) (fd fd' : Int) :
    (p.closeFd fd).conn fd' = if fd' = fd then none else p.conn fd' := by
  by_cases h : fd' = fd
  · subst h
    simp [conn, closeFd]
  · simp [conn, closeFd, h]

theorem conn_of_closeFd {p : Process} {fd fd' : Int} {c : Conn}
    (h : (p.closeFd fd).conn fd' = some c) : fd' ≠ fd ∧ p.conn fd' = some c := by
  rw [conn_closeFd] at h
  split at h
  · cases h
  · exact ⟨‹_›, h⟩

/-- Closing descriptors leaves the context alone. -/
theorem ctx_closeAll (p : Process) (fds : List Int) : (fds.foldl closeFd p).ctx = p.ctx := by
  induction fds generalizing p with
  | nil => rfl
  | cons fd fds ih => exact ih (p.closeFd fd)

theorem conn_setConn (p : Process) (fd : Int) (c : Conn) (fd' : Int) :
    (p.setConn fd c).conn fd' = if fd' = fd then some c else p.conn fd' := by
  by_cases h : fd' = fd
  · subst h
    simp [conn, setConn]
  · simp [conn, setConn, h]

end Process

def AfterSend.serving : AfterSend → Option (ℕ × Int)
  | .reject _ => none
  | .reply i fd _ => some (i, fd)

def AfterSend.rejecting : AfterSend → Option Int
  | .reject fd => some fd
  | .reply _ _ _ => none

def AfterSend.nextSlot : AfterSend → ℕ
  | .reject _ => 0
  | .reply i _ _ => i + 1

namespace ServerStage

/-- The slot that is being served, with its descriptor. -/
def serving : ServerStage → Option (ℕ × Int)
  | .reading _ i fd _ => some (i, fd)
  | .sending _ _ after => after.serving
  | _ => none

/-- The connection that is being rejected. -/
def rejecting : ServerStage → Option Int
  | .sending _ _ after => after.rejecting
  | _ => none

/-- What `select` reported, and the first slot that is still to be looked at. -/
def toVisit : ServerStage → Option (List Int × ℕ)
  | .accept ready => some (ready, 0)
  | .slots ready i => some (ready, i)
  | .reading ready i _ _ => some (ready, i + 1)
  | .sending ready _ after => some (ready, after.nextSlot)
  | _ => none

/-- Before the loop. -/
def settingUp : ServerStage → Bool
  | .socket | .bind | .listen => true
  | _ => false

/-- Between two slots, or in what follows from one. -/
def passing : ServerStage → Bool
  | .slots _ _ | .sending _ _ _ => true
  | _ => false

/-- After the loop, in `server_destroy` or behind it. -/
def leftLoop : ServerStage → Bool
  | .destroy | .done => true
  | _ => false

/-- The process has ended. -/
def ended : ServerStage → Bool
  | .done | .killed => true
  | _ => false

theorem of_passing {stage : ServerStage} (h : stage.passing = true) :
    stage.settingUp = false ∧ stage.leftLoop = false ∧ stage.ended = false := by
  cases stage <;> first | exact ⟨rfl, rfl, rfl⟩ | cases h

end ServerStage

theorem Process.accepted_passing (p : Process) (env : Env) (ready : List Int) (fd : Int) (c : Conn) :
    (p.accepted env ready fd c).stage.passing = true := by
  rcases p.accepted_cases env ready fd c with ⟨i, x, -, -, heq⟩ | ⟨-, heq⟩ <;> rw [heq] <;> rfl

/-- What holds of the descriptors while the process runs: the slots are distinct,
and the open descriptors are the listener, the connections in the slots, and one
that is being rejected. -/
structure Wf (p : Process) : Prop where
  slots : SlotsInj p.ctx.clientFds
  listener : ∀ fd, p.files fd = some .listener ↔ 0 ≤ fd ∧ p.ctx.listenFd = fd
  conns : ∀ fd, (p.conn fd).isSome = true ↔
    0 ≤ fd ∧ fd ∈ p.ctx.clientFds ∨ p.stage.rejecting = some fd
  fresh : p.stage = .socket → p.ctx.listenFd < 0
  serving : ∀ i fd, p.stage.serving = some (i, fd) → 0 ≤ fd ∧ p.ctx.clientFds[i]? = some fd
  rejecting : ∀ fd, p.stage.rejecting = some fd → 0 ≤ fd ∧ fd ∉ p.ctx.clientFds

theorem Control.ended {p : Process} {e : OsEvent} {stage : ServerStage} (h : Control p e stage) :
    p.stage.ended = false := by
  cases h <;> simp_all [ServerStage.ended]

/-- Until it ends the process goes on rejecting whom it rejects. -/
theorem Control.rejecting {p : Process} {e : OsEvent} {stage : ServerStage}
    (h : Control p e stage) (hended : stage.ended = false) :
    stage.rejecting = p.stage.rejecting := by
  cases h <;> simp_all [ServerStage.rejecting, AfterSend.rejecting, ServerStage.ended]

theorem Control.serving {p : Process} {e : OsEvent} {stage : ServerStage}
    (h : Control p e stage) {i : ℕ} {fd : Int} (hs : stage.serving = some (i, fd)) :
    p.stage.serving = some (i, fd) ∨ 0 ≤ fd ∧ p.ctx.clientFds[i]? = some fd := by
  cases h <;> simp_all [ServerStage.serving]

theorem Control.stage_ne {p : Process} {e : OsEvent} {stage : ServerStage}
    (h : Control p e stage) : stage ≠ .socket := by
  cases h <;> nofun

/-- A process that has ended stays so. -/
theorem ProcessEffect.ended_before {p p' : Process} {e : OsEvent} (h : ProcessEffect p e p')
    (hended : p'.stage.ended = false) : p.stage.ended = false := by
  cases h with
  | moves hc => exact hc.ended
  | signal => exact hended
  | client _ _ => exact hended
  | setUpFails hfails => rcases hfails with ⟨hstage, -⟩ | ⟨hstage, -⟩ <;> rw [hstage] <;> rfl
  | _ => simp_all [ServerStage.ended]

/-- `bind` or `listen` fails. -/
def OsEvent.failsSetUp : OsEvent → Bool
  | .bind ok | .listen ok => !ok
  | _ => false

namespace Wf
variable {p : Process}

theorem conn_ne_listener (h : Wf p) {fd : Int} {c : Conn} (hc : p.conn fd = some c) :
    ¬ (0 ≤ fd ∧ p.ctx.listenFd = fd) := by
  rw [← h.listener fd, Process.conn_eq_some.mp hc]
  nofun

theorem restage (h : Wf p) {stage : ServerStage} (hne : stage ≠ .socket)
    (hrej : stage.rejecting = p.stage.rejecting)
    (hserv : ∀ i fd, stage.serving = some (i, fd) → 0 ≤ fd ∧ p.ctx.clientFds[i]? = some fd) :
    Wf { p with stage } where
  slots := h.slots
  listener := h.listener
  conns fd := hrej ▸ h.conns fd
  fresh he := absurd he hne
  serving := hserv
  rejecting fd hfd := h.rejecting fd (hrej ▸ hfd)

theorem setConn (h : Wf p) {fd : Int} {c : Conn} (hc : p.conn fd = some c) (c' : Conn) :
    Wf (p.setConn fd c') where
  slots := h.slots
  listener fd' := by
    change (p.setConn fd c').files fd' = some .listener ↔ 0 ≤ fd' ∧ p.ctx.listenFd = fd'
    rw [← h.listener fd']
    by_cases hfd : fd' = fd
    · subst hfd
      simp [Process.setConn, Process.conn_eq_some.mp hc]
    · simp [Process.setConn, hfd]
  conns fd' := by
    rw [Process.conn_setConn]
    change _ ↔ 0 ≤ fd' ∧ fd' ∈ p.ctx.clientFds ∨ p.stage.rejecting = some fd'
    rw [← h.conns fd']
    split
    · rename_i hfd
      simp [hfd, hc]
    · rfl
  fresh := h.fresh
  serving := h.serving
  rejecting := h.rejecting

theorem sameFds (h : Wf p) (ctx : ServerContext) (hlisten : ctx.listenFd = p.ctx.listenFd)
    (hfds : ctx.clientFds = p.ctx.clientFds) : Wf { p with ctx } where
  slots := hfds ▸ h.slots
  listener fd := hlisten ▸ h.listener fd
  conns fd := hfds ▸ h.conns fd
  fresh hs := hlisten ▸ h.fresh hs
  serving i fd hs := hfds ▸ h.serving i fd hs
  rejecting fd hs := hfds ▸ h.rejecting fd hs

theorem listener_closeFd (h : Wf p) {fd : Int} (hfd : (p.conn fd).isSome = true) (fd' : Int) :
    (p.closeFd fd).files fd' = some .listener ↔ 0 ≤ fd' ∧ p.ctx.listenFd = fd' := by
  rw [← h.listener fd']
  obtain ⟨c, hc⟩ := Option.isSome_iff_exists.mp hfd
  by_cases he : fd' = fd
  · subst he
    simp [Process.closeFd, Process.conn_eq_some.mp hc]
  · simp [Process.closeFd, he]

/-- The connection of the slot that is being served is open. -/
theorem serving_open (h : Wf p) {i : ℕ} {fd : Int} (hs : p.stage.serving = some (i, fd)) :
    (p.conn fd).isSome = true :=
  (h.conns fd).mpr (Or.inl ⟨(h.serving i fd hs).1, List.mem_of_getElem? (h.serving i fd hs).2⟩)

/-- A served connection is closed and its slot cleared. -/
theorem closeSlot (h : Wf p) {i : ℕ} {fd : Int} (hs : p.stage.serving = some (i, fd))
    (hrej : p.stage.rejecting = none) (ctx : ServerContext) (hlisten : ctx.listenFd = p.ctx.listenFd)
    (hfds : ctx.clientFds = p.ctx.clientFds.set i (-1)) (ready : List Int) :
    Wf { p.closeFd fd with ctx, stage := .slots ready (i + 1) } where
  slots := hfds ▸ h.slots.close i
  listener fd' := hlisten ▸ h.listener_closeFd (h.serving_open hs) fd'
  conns fd' := by
    obtain ⟨hpos, hslot⟩ := h.serving i fd hs
    have hconn := h.conns fd'
    rw [hrej] at hconn
    change ((p.closeFd fd).conn fd').isSome = true ↔ 0 ≤ fd' ∧ fd' ∈ ctx.clientFds ∨ none = some fd'
    rw [Process.conn_closeFd, hfds]
    by_cases hfd' : 0 ≤ fd'
    · rw [h.slots.mem_close hslot hpos hfd']
      by_cases he : fd' = fd
      · simp [he]
      · simpa [he] using hconn
    · by_cases he : fd' = fd
      · exact absurd (he ▸ hpos) hfd'
      · simpa [he, hfd'] using hconn
  fresh he := nomatch he
  serving _ _ he := nomatch he
  rejecting _ he := nomatch he

theorem rejected (h : Wf p) {fd : Int} (hs : p.stage.rejecting = some fd) (ready : List Int) :
    Wf { p.closeFd fd with stage := .slots ready 0 } where
  slots := h.slots
  listener := h.listener_closeFd ((h.conns fd).mpr (Or.inr hs))
  conns fd' := by
    obtain ⟨-, hnot⟩ := h.rejecting fd hs
    have hconn := h.conns fd'
    rw [hs] at hconn
    change ((p.closeFd fd).conn fd').isSome = true ↔
      0 ≤ fd' ∧ fd' ∈ p.ctx.clientFds ∨ none = some fd'
    rw [Process.conn_closeFd]
    by_cases he : fd' = fd
    · simp [he, hnot]
    · simpa [he, Ne.symm he] using hconn
  fresh he := nomatch he
  serving _ _ he := nomatch he
  rejecting _ he := nomatch he

theorem socket (h : Wf p) (hs : p.stage = .socket) {fd : Int} (hpos : 0 ≤ fd)
    (hfree : p.files fd = none) :
    Wf { p.openFd (.socket fd) fd .listener with ctx := listening p.ctx fd, stage := .bind } where
  slots := h.slots
  listener fd' := by
    have hold := h.listener fd'
    have hneg := h.fresh hs
    by_cases he : fd' = fd
    · subst he
      simp [Process.openFd, listening, hpos]
    · have hne : ¬ (0 ≤ fd' ∧ p.ctx.listenFd = fd') := by omega
      simpa [Process.openFd, listening, he, hne, Ne.symm he] using hold
  conns fd' := by
    have hconn := h.conns fd'
    rw [hs] at hconn
    change ((p.openFd (.socket fd) fd .listener).conn fd').isSome = true ↔
      0 ≤ fd' ∧ fd' ∈ p.ctx.clientFds ∨ none = some fd'
    rw [Process.conn_openFd_listener hfree]
    exact hconn
  fresh he := nomatch he
  serving _ _ he := nomatch he
  rejecting _ he := nomatch he

theorem noSocket (h : Wf p) (hs : p.stage = .socket) :
    Wf { p with ctx := listening p.ctx (-1), stage := .destroy } where
  slots := h.slots
  listener fd := by
    have hold := h.listener fd
    have hneg := h.fresh hs
    rw [hold]
    change _ ↔ 0 ≤ fd ∧ -1 = fd
    omega
  conns fd := by
    have hconn := h.conns fd
    rwa [hs] at hconn
  fresh he := nomatch he
  serving _ _ he := nomatch he
  rejecting _ he := nomatch he

theorem accepted (h : Wf p) (hrej : p.stage.rejecting = none) (env : Env) (ready : List Int) {fd : Int}
    (hpos : 0 ≤ fd) (hfree : p.files fd = none) (c : Conn) : Wf (p.accepted env ready fd c) := by
  have hnone : p.conn fd = none := by simp [Process.conn, hfree]
  have hconns : ∀ fd', (p.conn fd').isSome = true ↔ 0 ≤ fd' ∧ fd' ∈ p.ctx.clientFds := by
    intro fd'
    rw [h.conns fd', hrej]
    simp
  have hnew : fd ∉ p.ctx.clientFds := by
    intro hmem
    have hopen := (hconns fd).mpr ⟨hpos, hmem⟩
    rw [hnone] at hopen
    cases hopen
  have hlisten : ∀ fd', (p.openFd (.accept fd) fd (.conn c)).files fd' = some .listener ↔
      0 ≤ fd' ∧ p.ctx.listenFd = fd' := by
    intro fd'
    rw [← h.listener fd']
    by_cases he : fd' = fd
    · subst he
      simp [Process.openFd, hfree]
    · simp [Process.openFd, he]
  rcases p.accepted_cases env ready fd c with ⟨i, x, hslot, hx, heq⟩ | ⟨hfull, heq⟩
  · rw [heq]
    refine ⟨h.slots.take hslot hx hnew, hlisten, fun fd' => ?_, nofun, nofun, nofun⟩
    change ((p.openFd (.accept fd) fd (.conn c)).conn fd').isSome = true ↔
      0 ≤ fd' ∧ fd' ∈ p.ctx.clientFds.set i fd ∨ none = some fd'
    rw [Process.conn_openFd]
    by_cases he : fd' = fd
    · subst he
      simp [hpos, SlotsInj.mem_take hslot hx hpos]
    · by_cases hfd' : 0 ≤ fd'
      · simp [he, hfd', SlotsInj.mem_take hslot hx hfd', hconns]
      · simp [he, hfd', hconns]
  · rw [heq]
    refine ⟨h.slots, hlisten, fun fd' => ?_, nofun, nofun, fun fd' he => ?_⟩
    · change ((p.openFd (.accept fd) fd (.conn c)).conn fd').isSome = true ↔
        0 ≤ fd' ∧ fd' ∈ p.ctx.clientFds ∨ some fd = some fd'
      rw [Process.conn_openFd]
      by_cases he : fd' = fd
      · simp [he]
      · simp [he, Ne.symm he, hconns]
    · obtain rfl := Option.some.inj he
      exact ⟨hpos, hnew⟩

/-- Every step that neither ends the process nor fails to set it up. -/
theorem step (h : Wf p) {e : OsEvent} {p' : Process} (hs : ProcessEffect p e p')
    (he : e.failsSetUp = false) (hended : p'.stage.ended = false) : Wf p' := by
  cases hs with
  | moves hc =>
    refine h.restage hc.stage_ne (hc.rejecting hended) fun i fd hserv => ?_
    exact (hc.serving hserv).elim (h.serving i fd) id
  | signal => exact h.sameFds _ rfl rfl
  | client hconn _ => exact h.setConn hconn _
  | noSocket hstage => exact h.noSocket hstage
  | socket hstage hpos hfree => exact h.socket hstage hpos hfree
  | setUpFails hfails => rcases hfails with ⟨-, rfl⟩ | ⟨-, rfl⟩ <;> cases he
  | accepts hstage hpos hfree => exact h.accepted (by rw [hstage]; rfl) _ _ hpos hfree _
  | reads hstage hconn _ _ _ =>
    have hserv := h.serving
    have hrej : p.stage.rejecting = none := by rw [hstage]; rfl
    rw [hstage] at hserv
    exact (h.setConn hconn _).restage (fun he => by cases he) hrej.symm hserv
  | @drops ready i fd got env hstage hwant =>
    have hloop := cleanupClient_sameLoop env p.ctx fd
    refine h.closeSlot (by rw [hstage]; rfl) (by rw [hstage]; rfl) (dropClient env p.ctx i fd)
      hloop.listenFd ?_ ready
    rw [dropClient, setSlot, clientDisconnected, hloop.clientFds]
  | @dispatches ready i fd got env into hstage hwant =>
    have hloop := dispatchMessage_sameLoop env p.ctx fd (assemble into got)
    have hserv := h.serving
    have hrej : p.stage.rejecting = none := by rw [hstage]; rfl
    rw [hstage] at hserv
    refine (h.sameFds _ hloop.listenFd hloop.clientFds).restage (fun he => by cases he) hrej.symm
      fun i' fd' he => ?_
    rw [hloop.clientFds]
    exact hserv i' fd' he
  | rejected hstage => exact h.rejected (by rw [hstage]; rfl) _
  | @exits ready i fd ret hstage hret =>
    exact h.closeSlot (by rw [hstage]; rfl) (by rw [hstage]; rfl) (setSlot p.ctx i (-1)) rfl rfl ready
  | destroys _ => cases hended

end Wf

/-- What `select` reported is still open when `accept` is called. -/
def ReadyOpen (p : Process) : Prop :=
  ∀ ready, p.stage = .accept ready → ∀ fd ∈ ready, 0 ≤ fd → p.files fd ≠ none

theorem ReadyOpen.of_reportable {p : Process} (hwf : Wf p) {ready : List Int}
    (hready : p.Reportable ready) : ∀ fd ∈ ready, 0 ≤ fd → p.files fd ≠ none := by
  intro fd hfd hpos
  rcases hready fd hfd with hlisten | ⟨-, hconn⟩
  · have hfile := (hwf.listener fd).mpr ⟨hpos, hlisten.symm⟩
    rw [hfile]
    exact Option.some_ne_none _
  · obtain ⟨c, hc, -⟩ := (Option.any_eq_true _ _).mp hconn
    exact Process.files_ne_none (Option.isSome_iff_exists.mpr ⟨c, hc⟩)

theorem ReadyOpen.setConn {p : Process} (h : ReadyOpen p) (fd : Int) (c : Conn) :
    ReadyOpen (p.setConn fd c) := by
  intro ready hs fd' hfd' hpos
  have hopen := h ready hs fd' hfd' hpos
  by_cases he : fd' = fd
  · simp [Process.setConn, he]
  · simpa [Process.setConn, he] using hopen

theorem ReadyOpen.step {p p' : Process} {e : OsEvent} (h : ReadyOpen p)
    (hwf : p.stage.ended = false → Wf p) (hs : ProcessEffect p e p') : ReadyOpen p' := by
  cases hs with
  | moves hc =>
    cases hc with
    | connection hstage hreport _ =>
      intro ready hs
      cases hs
      exact ReadyOpen.of_reportable (hwf (by rw [hstage]; rfl)) hreport
    | _ =>
      intro ready hs
      cases hs
  | signal => exact h
  | client _ _ => exact h.setConn _ _
  | @accepts ready env fd c _ _ _ =>
    intro ready' hs
    have hpass := p.accepted_passing env ready fd c
    rw [hs] at hpass
    cases hpass
  | _ =>
    intro ready hs
    cases hs

end MeshChat.Server
