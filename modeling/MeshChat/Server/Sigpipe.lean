import MeshChat.Server.Descriptors

/-!
# Writing to a connection that was reset

`net_send_msg` gives up on a `write` that fails, but a `write` to a connection that
the client has reset does not fail: `SIGPIPE` is not ignored and terminates the
process. As long as a client resets its connection only when no write to it is due,
the process lives on, and the loop ends only for the reasons it has.
-/
namespace MeshChat.Server
open Runs

/-- Everything goes to this descriptor. -/
def SentTo (fd : Int) (sent : List Sent) : Prop := ∀ s ∈ sent, s.fd = fd

section SentTo
variable {env : Env} {ctx : ServerContext} {fd : Int}

@[simp] theorem sentTo_nil : SentTo fd [] := List.forall_mem_nil _

@[simp] theorem sentTo_append {a b : List Sent} :
    SentTo fd (a ++ b) ↔ SentTo fd a ∧ SentTo fd b := List.forall_mem_append

@[simp] theorem sendError_sentTo (code : ErrorCode) : SentTo fd (sendError env fd code) := by
  simp [SentTo, sendError]

@[simp] theorem sendSuccess_sentTo : SentTo fd (sendSuccess env fd) := by
  simp [SentTo, sendSuccess]

@[simp] theorem sendGroupInfo_sentTo (grp : GroupRecord) :
    SentTo fd (sendGroupInfo env fd grp) := by
  simp [SentTo, sendGroupInfo]

theorem handleRegister_sentTo (msg : TLVMessage) : SentTo fd (handleRegister env ctx fd msg).2 := by
  unfold handleRegister
  repeat' split
  all_goals first | exact sendError_sentTo _ | skip
  dsimp only
  split
  · exact sendError_sentTo _
  · exact sendSuccess_sentTo

theorem handleLogin_sentTo (msg : TLVMessage) : SentTo fd (handleLogin env ctx fd msg).2 := by
  unfold handleLogin
  repeat' split
  all_goals first | exact sendError_sentTo _ | exact sendSuccess_sentTo

theorem addMember_sentTo (grp : GroupRecord) : SentTo fd (addMember env fd grp).2.1 := by
  unfold addMember
  dsimp only
  repeat' split
  all_goals first | exact sentTo_nil | exact sendError_sentTo _

theorem joinAndReply_sentTo (grp : GroupRecord) : SentTo fd (joinAndReply env ctx fd grp).2 := by
  have hadd : SentTo fd (addMember env fd grp).2.1 := addMember_sentTo grp
  unfold joinAndReply
  dsimp only
  split
  · exact hadd
  · exact sentTo_append.mpr ⟨hadd, sendGroupInfo_sentTo _⟩

theorem handleCreateGroup_sentTo (msg : TLVMessage) :
    SentTo fd (handleCreateGroup env ctx fd msg).2 := by
  unfold handleCreateGroup
  repeat' split
  all_goals first | exact sendError_sentTo _ | exact sentTo_nil | skip
  dsimp only
  repeat' split
  all_goals first | exact sendError_sentTo _ | exact joinAndReply_sentTo _

theorem handleJoinGroup_sentTo (msg : TLVMessage) :
    SentTo fd (handleJoinGroup env ctx fd msg).2 := by
  unfold handleJoinGroup
  repeat' split
  all_goals first | exact sendError_sentTo _ | exact joinAndReply_sentTo _

theorem handleLeaveGroup_sentTo (msg : TLVMessage) :
    SentTo fd (handleLeaveGroup env ctx fd msg).2 := by
  unfold handleLeaveGroup
  split
  · exact sendError_sentTo _
  · split
    · exact sendError_sentTo _
    · dsimp only
      split
      · exact sendError_sentTo _
      · split <;> exact sendSuccess_sentTo

/-- A request is answered on the descriptor it came from. -/
theorem dispatchMessage_sentTo (msg : TLVMessage) :
    SentTo fd (dispatchMessage env ctx fd msg).2.1 := by
  unfold dispatchMessage
  cases MessageTag.ofCode msg.tag with
  | none => exact sendError_sentTo _
  | some tag =>
    cases tag with
    | register => exact handleRegister_sentTo msg
    | login => exact handleLogin_sentTo msg
    | logout => exact sendSuccess_sentTo
    | exit => exact sendSuccess_sentTo
    | createGroup => exact handleCreateGroup_sentTo msg
    | joinGroup => exact handleJoinGroup_sentTo msg
    | leaveGroup => exact handleLeaveGroup_sentTo msg
    | success => exact sendError_sentTo _
    | error => exact sendError_sentTo _
    | groupInfo => exact sendError_sentTo _

theorem SentTo.wires {sent : List Sent} (h : SentTo fd sent) {out : Int × List UInt8}
    (hout : out ∈ MeshChat.Server.wires sent) : out.1 = fd := by
  obtain ⟨s, hs, rfl⟩ := List.mem_map.mp (List.mem_of_mem_filter hout)
  exact h s hs

end SentTo

def AfterSend.closing : AfterSend → Option Int
  | .reject fd => some fd
  | .reply _ fd ret => if ret < 0 then some fd else none

namespace ServerStage

/-- The bytes of the message that is being read from a connection. -/
def taken (fd : Int) : ServerStage → List UInt8
  | .reading _ _ fd' got => if fd' = fd then got else []
  | _ => []

/-- Where there is something left to write. -/
def targets : ServerStage → List Int
  | .sending _ out _ => out.map Prod.fst
  | _ => []

/-- The connection that a message is being read from. -/
def source : ServerStage → Option Int
  | .reading _ _ fd _ => some fd
  | _ => none

/-- The connection that is closed after the last `write`. -/
def closing : ServerStage → Option Int
  | .sending _ _ after => after.closing
  | _ => none

/-- The loop comes to another `select`, unless `running` changes. -/
def goesOn (running : Bool) : ServerStage → Bool
  | .socket | .bind | .listen | .select => true
  | .destroy | .done | .killed => false
  | _ => running

end ServerStage

namespace Process

/-- The connections that `select` reported and whose slots are still to be looked at. -/
def ahead (p : Process) : List Int :=
  match p.stage.toVisit with
  | some (ready, k) => (p.ctx.clientFds.drop k).filter fun fd => decide (fd ∈ ready)
  | none => []

/-- The server may read from the connection before it closes it. -/
def MayRead (p : Process) (fd : Int) : Prop :=
  p.stage.closing ≠ some fd ∧
    (p.stage.source = some fd ∨ fd ∈ p.ahead ∨ p.stage.goesOn p.ctx.running = true)

instance (p : Process) (fd : Int) : Decidable (p.MayRead fd) :=
  inferInstanceAs (Decidable (_ ∧ _))

/-- The server is to write to the connection: it has begun to, or a whole message
has arrived that it may read and answer. -/
def Owes (p : Process) (fd : Int) (c : Conn) : Prop :=
  fd ∈ p.stage.targets ∨ p.MayRead fd ∧ hasMessage (p.stage.taken fd ++ c.pending) = true

instance (p : Process) (fd : Int) (c : Conn) : Decidable (p.Owes fd c) :=
  inferInstanceAs (Decidable (_ ∨ _))

end Process

/-- A client resets its connection only when the server owes it no write. One that
was reset before it is accepted finds a free slot, and has sent no whole message
while the server goes on. -/
def HarmlessReset (p : Process) : OsEvent → Prop
  | .client fd .reset => ∀ c ∈ p.conn fd, ¬ p.Owes fd c
  | .accept _ (some (_, c)) =>
      c.reset = true → (∃ x ∈ p.ctx.clientFds, x < 0) ∧
        (p.ctx.running = true → hasMessage c.pending = false)
  | _ => True

instance (p : Process) (e : OsEvent) : Decidable (HarmlessReset p e) := by
  unfold HarmlessReset
  split <;> infer_instance

/-- No connection that was reset is owed a write. -/
def NoneOwed (p : Process) : Prop :=
  ∀ fd c, p.conn fd = some c → c.reset = true → ¬ p.Owes fd c

theorem ServerStage.goesOn_of_stopped {stage : ServerStage} (h : stage.goesOn false = true)
    (running : Bool) : stage.goesOn running = true := by
  cases stage <;> first | rfl | cases h

theorem ServerStage.goesOn_of_toVisit {stage : ServerStage} {ready : List Int} {k : ℕ}
    (h : stage.toVisit = some (ready, k)) (running : Bool) : stage.goesOn running = running := by
  cases stage <;> first | rfl | cases h

namespace Process
variable {p p' : Process} {fd : Int}

theorem mem_ahead {ready : List Int} {k : ℕ} (h : p.stage.toVisit = some (ready, k)) :
    fd ∈ p.ahead ↔ fd ∈ p.ctx.clientFds.drop k ∧ fd ∈ ready := by
  rw [ahead, h, List.mem_filter, decide_eq_true_eq]

theorem not_mem_ahead (h : p.stage.toVisit = none) : fd ∉ p.ahead := by
  rw [ahead, h]
  exact List.not_mem_nil

namespace MayRead

/-- Where `select` is still to come, everything may be read. -/
theorem of_goesOn (hclosing : p.stage.closing = none)
    (hgoes : p.stage.goesOn p.ctx.running = true) : p.MayRead fd :=
  ⟨fun h => Option.some_ne_none _ (h.symm.trans hclosing), Or.inr (Or.inr hgoes)⟩

/-- Behind the loop nothing is read. -/
theorem not_left (h : p.stage.leftLoop = true) : ¬ p.MayRead fd := by
  rintro ⟨-, hread⟩
  rcases hread with hsource | hahead | hgoes
  · cases hstage : p.stage <;> simp_all [ServerStage.leftLoop, ServerStage.source]
  · refine not_mem_ahead ?_ hahead
    cases hstage : p.stage <;> simp_all [ServerStage.leftLoop, ServerStage.toVisit]
  · cases hstage : p.stage <;> simp_all [ServerStage.leftLoop, ServerStage.goesOn]

/-- The pass over the slots goes on. -/
theorem of_onward (h : p'.MayRead fd) {ready : List Int} {k k' : ℕ}
    (hvisit : p.stage.toVisit = some (ready, k)) (hvisit' : p'.stage.toVisit = some (ready, k'))
    (hclosing : p.stage.closing ≠ some fd)
    (hsource : p'.stage.source = some fd → p.stage.source = some fd ∨ fd ∈ p.ahead)
    (hslots : fd ∈ ready → fd ∈ p'.ctx.clientFds.drop k' → fd ∈ p.ctx.clientFds.drop k)
    (hrun : p'.ctx.running = p.ctx.running) : p.MayRead fd := by
  refine ⟨hclosing, ?_⟩
  rcases h.2 with hread | hahead | hgoes
  · exact (hsource hread).imp_right Or.inl
  · obtain ⟨hslot, hready⟩ := (mem_ahead hvisit').mp hahead
    exact Or.inr (Or.inl ((mem_ahead hvisit).mpr ⟨hslots hready hslot, hready⟩))
  · rw [ServerStage.goesOn_of_toVisit hvisit', hrun] at hgoes
    rw [ServerStage.goesOn_of_toVisit hvisit]
    exact Or.inr (Or.inr hgoes)

end MayRead
end Process

/-- What may be read later may be read now. -/
theorem Control.mayRead {p : Process} {e : OsEvent} {stage : ServerStage} (h : Control p e stage)
    {fd : Int} (hread : { p with stage }.MayRead fd) : p.MayRead fd := by
  cases h with
  | bound hstage => exact .of_goesOn (by rw [hstage]; rfl) (by rw [hstage]; rfl)
  | listens hstage => exact .of_goesOn (by rw [hstage]; rfl) (by rw [hstage]; rfl)
  | looks hstage hrun => exact .of_goesOn (by rw [hstage]; rfl) (by rw [hstage]; exact hrun)
  | stops _ _ => exact absurd hread (Process.MayRead.not_left rfl)
  | connection hstage _ _ => exact .of_goesOn (by rw [hstage]; rfl) (by rw [hstage]; rfl)
  | selected hstage _ _ => exact .of_goesOn (by rw [hstage]; rfl) (by rw [hstage]; rfl)
  | interrupted hstage => exact .of_goesOn (by rw [hstage]; rfl) (by rw [hstage]; rfl)
  | selectFailed _ => exact absurd hread (Process.MayRead.not_left rfl)
  | noClient hstage =>
    exact hread.of_onward (by rw [hstage]; rfl) rfl (by rw [hstage]; nofun) nofun (fun _ => id) rfl
  | wraps hstage hslot =>
    refine .of_goesOn (by rw [hstage]; rfl) ?_
    rw [hstage]
    rcases hread.2 with hsource | hahead | hgoes
    · cases hsource
    · exact absurd hahead (Process.not_mem_ahead rfl)
    · exact hgoes
  | skips hstage _ _ =>
    exact hread.of_onward (by rw [hstage]; rfl) rfl (by rw [hstage]; nofun) nofun
      (fun _ hmem => List.drop_subset_drop_left _ (Nat.le_succ _) hmem) rfl
  | @turns ready i fd' hstage hslot _ hfd =>
    have hvisit : p.stage.toVisit = some (ready, i) := by rw [hstage]; rfl
    refine hread.of_onward hvisit rfl (by rw [hstage]; nofun) (fun hsource => ?_)
      (fun _ hmem => List.drop_subset_drop_left _ (Nat.le_succ _) hmem) rfl
    obtain rfl := Option.some.inj hsource
    refine Or.inr ((Process.mem_ahead hvisit).mpr ⟨?_, hfd⟩)
    rw [List.mem_iff_getElem?]
    exact ⟨0, by rwa [List.getElem?_drop]⟩
  | wrote hstage _ _ _ _ =>
    refine hread.of_onward (by rw [hstage]; rfl) rfl ?_ nofun (fun _ => id) rfl
    rw [hstage]
    exact hread.1
  | gaveUp hstage =>
    refine hread.of_onward (by rw [hstage]; rfl) rfl ?_ nofun (fun _ => id) rfl
    rw [hstage]
    exact hread.1
  | killed _ _ _ =>
    rcases hread.2 with hsource | hahead | hgoes
    · cases hsource
    · exact absurd hahead (Process.not_mem_ahead rfl)
    · cases hgoes
  | kept hstage hret =>
    refine hread.of_onward (by rw [hstage]; rfl) rfl ?_ nofun (fun _ => id) rfl
    rw [hstage, ServerStage.closing, AfterSend.closing, if_neg (not_lt.mpr hret)]
    exact (Option.some_ne_none _).symm

theorem Control.taken {p : Process} {e : OsEvent} {stage : ServerStage} (h : Control p e stage)
    (fd : Int) : stage.taken fd = p.stage.taken fd := by
  cases h <;> simp_all [ServerStage.taken]

theorem Control.targets {p : Process} {e : OsEvent} {stage : ServerStage} (h : Control p e stage) :
    ∀ fd ∈ stage.targets, fd ∈ p.stage.targets := by
  intro fd hfd
  cases h with
  | wrote hstage _ _ _ _ =>
    rw [hstage]
    simp only [ServerStage.targets] at hfd ⊢
    split at hfd
    · exact List.mem_cons_of_mem _ hfd
    · exact hfd
  | gaveUp hstage =>
    rw [hstage]
    exact List.mem_cons_of_mem _ hfd
  | _ => cases hfd

namespace NoneOwed
variable {p p' : Process}

/-- Nothing new is owed, and no connection is opened or reset. -/
theorem mono (h : NoneOwed p) (hconn : ∀ fd c, p'.conn fd = some c → p.conn fd = some c)
    (htargets : ∀ fd ∈ p'.stage.targets, fd ∈ p.stage.targets)
    (htaken : ∀ fd c, p'.conn fd = some c → p'.stage.taken fd = p.stage.taken fd)
    (hread : ∀ fd c, p'.conn fd = some c → p'.MayRead fd → p.MayRead fd) : NoneOwed p' := by
  intro fd c hc hreset howes
  refine h fd c (hconn fd c hc) hreset ?_
  rw [Process.Owes, htaken fd c hc] at howes
  exact howes.imp (htargets fd) (And.imp_left (hread fd c hc))

/-- After the loop nothing is owed. -/
theorem left (h : p'.stage.leftLoop = true) : NoneOwed p' := by
  intro fd c _ _ howes
  rcases howes with htarget | hmsg
  · cases hstage : p'.stage <;> simp_all [ServerStage.leftLoop, ServerStage.targets]
  · exact Process.MayRead.not_left h hmsg.1

/-- The connection that was read from or answered is closed, and the pass goes on. -/
theorem closeFd (h : NoneOwed p) {fd : Int} {ready : List Int} {k : ℕ} {ctx : ServerContext}
    (hvisit : p.stage.toVisit = some (ready, k))
    (htaken : ∀ fd', fd' ≠ fd → p.stage.taken fd' = [])
    (hclosing : ∀ fd', fd' ≠ fd → p.stage.closing ≠ some fd')
    (hslots : ctx.clientFds.drop k = p.ctx.clientFds.drop k) (hrun : ctx.running = p.ctx.running) :
    NoneOwed { p.closeFd fd with ctx, stage := .slots ready k } := by
  refine h.mono (fun fd' c hc => (Process.conn_of_closeFd hc).2) nofun (fun fd' c hc => ?_)
    fun fd' c hc hread => ?_
  · exact (htaken fd' (Process.conn_of_closeFd hc).1).symm
  · exact hread.of_onward hvisit rfl (hclosing fd' (Process.conn_of_closeFd hc).1) nofun
      (fun _ hmem => hslots ▸ hmem) hrun

/-- What a client does to its end, unless it resets it too early. -/
theorem client (h : NoneOwed p) {fd : Int} {act : ClientAct} {c c' : Conn}
    (hc : p.conn fd = some c) (hact : c.after act = some c')
    (he : HarmlessReset p (.client fd act)) : NoneOwed (p.setConn fd c') := by
  intro fd' d hd hreset howes
  rw [Process.conn_setConn] at hd
  split at hd
  · rename_i hfd
    obtain rfl := Option.some.inj hd
    subst hfd
    cases act with
    | send bytes =>
      obtain ⟨hopen, hact⟩ := Option.ite_none_left_eq_some.mp hact
      rw [← Option.some.inj hact] at hreset
      have hlost : c.reset = true := hreset
      simp [hlost] at hopen
    | close =>
      rw [← Option.some.inj hact] at hreset howes
      exact h fd' c hc hreset howes
    | reset =>
      rw [← Option.some.inj hact] at howes
      exact he c hc howes
  · exact h fd' d hd hreset howes

/-- A connection that was reset before it is accepted gets a slot and no answer. -/
theorem accepted (h : NoneOwed p) (hready : ReadyOpen p) {ready : List Int}
    (hstage : p.stage = .accept ready) {env : Env} {fd : Int} {c : Conn} (hpos : 0 ≤ fd)
    (hfree : p.files fd = none) (he : HarmlessReset p (.accept env (some (fd, c)))) :
    NoneOwed (p.accepted env ready fd c) := by
  have hnew : fd ∉ ready := fun hfd => hready ready hstage fd hfd hpos hfree
  have hvisit : p.stage.toVisit = some (ready, 0) := by rw [hstage]; rfl
  have hclosing : ∀ fd', p.stage.closing ≠ some fd' := by
    rw [hstage]
    nofun
  intro fd' d hd hreset howes
  change (p.openFd (.accept fd) fd (.conn c)).conn fd' = some d at hd
  rw [Process.conn_openFd] at hd
  rcases p.accepted_cases env ready fd c with ⟨i, x, -, -, heq⟩ | ⟨hfull, heq⟩
  · rw [heq] at howes
    rcases howes with htarget | ⟨hread, hmsg⟩
    · cases htarget
    split at hd
    · rename_i hfd
      obtain rfl := Option.some.inj hd
      rcases hread.2 with hsource | hahead | hgoes
      · cases hsource
      · exact hnew (hfd ▸ ((Process.mem_ahead rfl).mp hahead).2)
      · exact Bool.false_ne_true (((he hreset).2 hgoes).symm.trans hmsg)
    · rename_i hfd
      refine h fd' d hd hreset (Or.inr ⟨?_, ?_⟩)
      · exact hread.of_onward hvisit rfl (hclosing fd') nofun
          (fun _ hmem => (List.mem_or_eq_of_mem_set hmem).resolve_right hfd) rfl
      · rwa [hstage]
  · rw [heq] at howes
    split at hd
    · obtain rfl := Option.some.inj hd
      obtain ⟨x, hx, hneg⟩ := (he hreset).1
      exact absurd (hfull x hx) (not_le.mpr hneg)
    · rename_i hfd
      rcases howes with htarget | ⟨hread, hmsg⟩
      · obtain ⟨out, hout, rfl⟩ := List.mem_map.mp htarget
        exact hfd ((sendError_sentTo _).wires hout)
      · refine h fd' d hd hreset (Or.inr ⟨?_, ?_⟩)
        · exact hread.of_onward hvisit rfl (hclosing fd') nofun (fun _ => id) rfl
        · rwa [hstage]

/-- A message that was read whole is answered on a connection that was not reset. -/
theorem dispatched (h : NoneOwed p) {ready : List Int} {i : ℕ} {fd : Int} {got : List UInt8}
    (hstage : p.stage = .reading ready i fd got) (hwant : wanted got = 0) {sent : List Sent}
    (hsent : SentTo fd sent) {ctx : ServerContext} (hloop : SameLoop p.ctx ctx) (ret : Int) :
    NoneOwed { p with ctx, stage := .sending ready (wires sent) (.reply i fd ret) } := by
  have hclosing : ∀ fd', p.stage.closing ≠ some fd' := by
    rw [hstage]
    nofun
  intro fd' c hc hreset howes
  change p.conn fd' = some c at hc
  refine h fd' c hc hreset (Or.inr ?_)
  by_cases hfd : fd' = fd
  · subst hfd
    refine ⟨⟨hclosing fd', Or.inl (by rw [hstage]; rfl)⟩, ?_⟩
    rw [hstage, ServerStage.taken, if_pos rfl]
    exact hasMessage_append (wanted_eq_zero_iff.mp hwant) _
  · rcases howes with htarget | ⟨hread, hmsg⟩
    · obtain ⟨out, hout, rfl⟩ := List.mem_map.mp htarget
      exact absurd (hsent.wires hout) hfd
    · refine ⟨hread.of_onward (by rw [hstage]; rfl) rfl (hclosing fd') nofun (fun _ hmem => ?_)
        hloop.running, ?_⟩
      · exact hloop.clientFds ▸ hmem
      · rwa [hstage, ServerStage.taken, if_neg (Ne.symm hfd)]

/-- Bytes move from the connection into the message that is being read. -/
theorem read (h : NoneOwed p) {ready : List Int} {i : ℕ} {fd : Int} {got : List UInt8} {c : Conn}
    (hstage : p.stage = .reading ready i fd got) (hc : p.conn fd = some c) (n : ℕ) :
    NoneOwed { p.setConn fd { c with pending := c.pending.drop n } with
      stage := .reading ready i fd (got ++ c.pending.take n) } := by
  intro fd' d hd hreset howes
  change (p.setConn fd { c with pending := c.pending.drop n }).conn fd' = some d at hd
  rw [Process.conn_setConn] at hd
  rcases howes with htarget | ⟨hread, hmsg⟩
  · cases htarget
  have hread' : p.MayRead fd' := by
    refine hread.of_onward (by rw [hstage]; rfl) rfl (by rw [hstage]; nofun) (fun hsource => ?_)
      (fun _ => id) rfl
    rw [hstage]
    exact Or.inl hsource
  split at hd
  · rename_i hfd
    obtain rfl := Option.some.inj hd
    subst hfd
    refine h fd' c hc hreset (Or.inr ⟨hread', ?_⟩)
    rw [hstage, ServerStage.taken, if_pos rfl]
    rwa [ServerStage.taken, if_pos rfl, List.append_assoc, List.take_append_drop] at hmsg
  · rename_i hfd
    refine h fd' d hd hreset (Or.inr ⟨hread', ?_⟩)
    rw [hstage, ServerStage.taken, if_neg (Ne.symm hfd)]
    rwa [ServerStage.taken, if_neg (Ne.symm hfd)] at hmsg

theorem step (h : NoneOwed p) (hready : ReadyOpen p) {e : OsEvent} (he : HarmlessReset p e)
    (hs : ProcessEffect p e p') : NoneOwed p' := by
  cases hs with
  | moves hc =>
    exact h.mono (fun _ _ => id) hc.targets (fun fd _ _ => hc.taken fd) fun _ _ _ => hc.mayRead
  | signal =>
    refine h.mono (fun _ _ => id) (fun _ => id) (fun _ _ _ => rfl) fun fd c _ hread => ?_
    refine ⟨hread.1, hread.2.imp_right (Or.imp_right fun hgoes => ?_)⟩
    exact ServerStage.goesOn_of_stopped hgoes _
  | client hconn hact => exact h.client hconn hact he
  | noSocket _ => exact .left rfl
  | @socket fd hstage hpos hfree =>
    refine h.mono (fun fd' c hc => ?_) nofun (fun fd' _ _ => ?_) fun _ _ _ _ => ?_
    · change (p.openFd (.socket fd) fd .listener).conn fd' = some c at hc
      rwa [Process.conn_openFd_listener hfree] at hc
    · rw [hstage]
      rfl
    · exact .of_goesOn (by rw [hstage]; rfl) (by rw [hstage]; rfl)
  | setUpFails _ => exact .left rfl
  | accepts hstage hpos hfree => exact h.accepted hready hstage hpos hfree he
  | reads hstage hconn _ _ _ => exact h.read hstage hconn _
  | @drops ready i fd got env hstage hwant =>
    have hloop := cleanupClient_sameLoop env p.ctx fd
    refine h.closeFd (by rw [hstage]; rfl) (fun fd' hne => ?_) (fun fd' _ => ?_) ?_ hloop.running
    · rw [hstage, ServerStage.taken, if_neg (Ne.symm hne)]
    · rw [hstage]
      nofun
    · rw [dropClient, setSlot, clientDisconnected, hloop.clientFds]
      exact List.drop_set_of_lt (Nat.lt_succ_self i)
  | @dispatches ready i fd got env into hstage hwant =>
    exact h.dispatched hstage hwant (dispatchMessage_sentTo _) (dispatchMessage_sameLoop env _ _ _) _
  | @rejected ready fd hstage =>
    refine h.closeFd (by rw [hstage]; rfl) (fun fd' _ => ?_) (fun fd' hne => ?_) rfl rfl
    · rw [hstage]
      rfl
    · rw [hstage]
      exact fun he => hne (Option.some.inj he).symm
  | @exits ready i fd ret hstage hret =>
    refine h.closeFd (by rw [hstage]; rfl) (fun fd' _ => ?_) (fun fd' hne => ?_) ?_ rfl
    · rw [hstage]
      rfl
    · rw [hstage, ServerStage.closing, AfterSend.closing, if_pos hret]
      exact fun he => hne (Option.some.inj he).symm
    · exact List.drop_set_of_lt (Nat.lt_succ_self i)
  | destroys _ => exact .left rfl

end NoneOwed

/-- A write kills the process only where it was owed to a connection that was reset. -/
theorem ProcessEffect.alive {p p' : Process} {e : OsEvent} (hs : ProcessEffect p e p')
    (h : NoneOwed p) (hlive : p.stage ≠ .killed) : p'.stage ≠ .killed := by
  cases hs with
  | moves hc =>
    cases hc with
    | killed hstage hconn hreset =>
      refine absurd (Or.inl ?_) (h _ _ hconn hreset)
      rw [hstage]
      exact List.mem_cons_self
    | _ => nofun
  | signal => exact hlive
  | client _ _ => exact hlive
  | @accepts ready env fd c _ _ _ =>
    intro hkilled
    have hpass := p.accepted_passing env ready fd c
    rw [hkilled] at hpass
    cases hpass
  | _ => nofun

theorem alive_of_run {alloc : ℕ → Bool} {ctx₀ : ServerContext} {p : Process}
    {moves : List ProcessMove} (h0 : serverCreate alloc = some ctx₀)
    (hr : Run ProcessStep (booted ctx₀) moves p)
    (hmoves : ∀ m ∈ moves, HarmlessReset m.pre m.label ∧ m.label.failsSetUp = false) :
    DescriptorsOk p ∧ ReadyOpen p ∧ NoneOwed p ∧ p.stage ≠ .killed := by
  have hlisten : ctx₀.listenFd < 0 := by
    rw [serverCreate_listenFd h0]
    decide
  refine hr.invariant (I := fun p => DescriptorsOk p ∧ ReadyOpen p ∧ NoneOwed p ∧ p.stage ≠ .killed)
    (G := fun p e => HarmlessReset p e ∧ e.failsSetUp = false)
    ⟨booted_descriptorsOk (serverCreate_initial h0).clientFds_neg hlisten, ?_, ?_, ?_⟩
    (fun p e p' hi he hs => ?_) hmoves
  · intro ready hstage
    cases hstage
  · intro fd c hc
    rw [booted_conn] at hc
    cases hc
  · intro hkilled
    cases hkilled
  · obtain ⟨hdescr, hready, hnone, hlive⟩ := hi
    have heffect := processStep_effect hs
    exact ⟨hdescr.step he.2 hs, hready.step hdescr.wf heffect, hnone.step hready he.1 heffect,
      heffect.alive hnone hlive⟩

section Ending
variable {p p' : Process} {e : OsEvent}

theorem ProcessEffect.settingUp (h : ProcessEffect p e p') (hset : p'.stage.settingUp = true) :
    p.stage.settingUp = true ∧ e ≠ .listen true := by
  cases h with
  | moves hc => cases hc <;> simp_all [ServerStage.settingUp]
  | signal => exact ⟨hset, nofun⟩
  | client _ _ => exact ⟨hset, nofun⟩
  | socket hstage _ _ => exact ⟨by rw [hstage]; rfl, nofun⟩
  | accepts _ _ _ =>
    rw [(ServerStage.of_passing (p.accepted_passing _ _ _ _)).1] at hset
    cases hset
  | _ => cases hset

/-- How a step gets to the end of `main`: it was there before, the set-up failed, the
flag was cleared, or `select` failed. -/
theorem ProcessEffect.leftLoop (h : ProcessEffect p e p') (hleft : p'.stage.leftLoop = true) :
    p.stage.leftLoop = true ∧ (p.ctx.running = false → p'.ctx.running = false) ∧ e ≠ .listen true ∨
      p.stage.settingUp = true ∧ e ≠ .listen true ∨
      p'.ctx.running = false ∨ e = .selectFails false := by
  cases h with
  | moves hc => cases hc <;> simp_all [ServerStage.leftLoop]
  | signal => exact Or.inr (Or.inr (Or.inl rfl))
  | client _ _ => exact Or.inl ⟨hleft, id, nofun⟩
  | noSocket hstage => exact Or.inr (Or.inl ⟨by rw [hstage]; rfl, nofun⟩)
  | setUpFails hfails =>
    rcases hfails with ⟨hstage, rfl⟩ | ⟨hstage, rfl⟩
    · exact Or.inr (Or.inl ⟨by rw [hstage]; rfl, nofun⟩)
    · exact Or.inr (Or.inl ⟨by rw [hstage]; rfl, nofun⟩)
  | accepts _ _ _ =>
    rw [(ServerStage.of_passing (p.accepted_passing _ _ _ _)).2.1] at hleft
    cases hleft
  | destroys hstage =>
    refine Or.inl ⟨by rw [hstage]; rfl, fun hrun => ?_, nofun⟩
    exact (congrArg ServerContext.running (Process.ctx_closeAll p _)).trans hrun
  | _ => cases hleft

end Ending

/-- What the past says about the end of the loop. -/
structure LoopEnds (moves : List ProcessMove) (p : Process) : Prop where
  before : p.stage.settingUp = true → ∀ m ∈ moves, m.label ≠ .listen true
  after : p.stage.leftLoop = true → (∃ m ∈ moves, m.label = .listen true) →
    p.ctx.running = false ∨ ∃ m ∈ moves, m.label = .selectFails false

theorem loopEnds_of_run {ctx : ServerContext} {p : Process} {moves : List ProcessMove}
    (hr : Run ProcessStep (booted ctx) moves p) : LoopEnds moves p := by
  have h0 : LoopEnds [] (booted ctx) :=
    ⟨fun _ => List.forall_mem_nil _, fun hleft => absurd hleft Bool.false_ne_true⟩
  refine hr.history (I := LoopEnds) (G := fun _ _ => True) h0
    (fun moves p e p' hi _ hs => ?_) fun _ _ => trivial
  have heffect := processStep_effect hs
  constructor
  · intro hset
    obtain ⟨hset, he⟩ := heffect.settingUp hset
    exact List.forall_mem_append.mpr ⟨hi.before hset, List.forall_mem_singleton.mpr he⟩
  · rintro hleft ⟨m, hm, hlisten⟩
    have hpast : e ≠ .listen true → ∃ m ∈ moves, m.label = .listen true := by
      intro he
      rcases List.mem_append.mp hm with hm | hm
      · exact ⟨m, hm, hlisten⟩
      · rw [List.mem_singleton.mp hm] at hlisten
        exact absurd hlisten he
    rcases heffect.leftLoop hleft with ⟨hleft, hrun, he⟩ | ⟨hset, he⟩ | hrun | he
    · refine (hi.after hleft (hpast he)).imp hrun ?_
      rintro ⟨m, hm, hfail⟩
      exact ⟨m, List.mem_append_left _ hm, hfail⟩
    · obtain ⟨m, hm, hlisten⟩ := hpast he
      exact absurd hlisten (hi.before hset m hm)
    · exact Or.inl hrun
    · exact Or.inr ⟨_, List.mem_append_right _ List.mem_cons_self, he⟩

/-- As long as clients reset their connections only when no write to them is due, no
write terminates the process, and the loop ends only when `running` is 0 or `select`
failed for another reason than a signal. -/
theorem server_survives {alloc : ℕ → Bool} {ctx₀ : ServerContext} {p : Process}
    {moves : List ProcessMove} (h0 : serverCreate alloc = some ctx₀)
    (hr : Run ProcessStep (booted ctx₀) moves p)
    (hreset : ∀ m ∈ moves, HarmlessReset m.pre m.label) :
    p.stage ≠ .killed ∧
      ((∃ m ∈ moves, m.label = .listen true) → p.stage = .destroy ∨ p.stage = .done →
        p.ctx.running = false ∨ ∃ m ∈ moves, m.label = .selectFails false) := by
  constructor
  · rcases setUp_of_run (serverCreate_initial h0).clientFds_neg hr with ⟨hset, -⟩ | ⟨-, hfailed⟩
    · exact (alive_of_run h0 hr fun m hm => ⟨hreset m hm, hset m hm⟩).2.2.2
    · intro hkilled
      cases hfailed with
      | closed hstage _ _ _ => cases hstage.symm.trans hkilled
      | done hstage _ => cases hstage.symm.trans hkilled
  · intro hlisten hstage
    refine (loopEnds_of_run hr).after ?_ hlisten
    rcases hstage with hstage | hstage <;> rw [hstage] <;> rfl

/-- A client that resets its connection in the middle of a message, and one that does
so when it has been let go, with a request left that nobody reads. -/
def resetClient : List OsEvent :=
  List.flatten [listeningEvents, .accept .quiet (some (4, ⟨[3], false, false⟩)) :: idleSlots,
    [.client 4 .reset, .next, .select [4], .next, .read 1, .readFails .quiet], idleSlots,
    [.select [3], .accept .quiet (some (4, ⟨[4, 0, 3, 0], false, false⟩))], idleSlots,
    [.next, .select [4], .next, .read 2, .dispatch .quiet .blank, .write 3, .client 4 .reset, .next]]

theorem server_survives_resetClient : (processAfter resetClient).stage ≠ .killed :=
  (server_survives serverCreate_started (run_process resetClient (by decide +kernel))
    (by decide +kernel)).1

/-- Two logouts at once, and the client is gone when the first reply arrives. -/
def pipelined : List OsEvent :=
  List.flatten [listeningEvents,
    .accept .quiet (some (4, ⟨[3, 0, 3, 0], true, false⟩)) :: idleSlots,
    [.next, .select [4], .next, .read 2, .dispatch .quiet .blank, .write 3, .client 4 .reset],
    idleSlots, [.next, .select [4], .next, .read 2, .dispatch .quiet .blank, .sigpipe]]

theorem server_survives_fails :
    ¬ ∀ (alloc : ℕ → Bool) (ctx : ServerContext) (p : Process) (moves : List ProcessMove),
      serverCreate alloc = some ctx → Run ProcessStep (booted ctx) moves p → p.stage ≠ .killed := by
  intro h
  exact h _ _ _ _ serverCreate_started (run_process pipelined (by decide +kernel))
    (by decide +kernel)

end MeshChat.Server
