import MeshChat.Server.Slots

/-!
# Descriptor accounting

What the server acquires and closes, from `server_create` to `server_destroy`. As
long as `bind` and `listen` succeed, only what is open is closed, and at the end
nothing is left open. A failed `bind` or `listen` closes the listening socket, and
`server_destroy` closes it once more.
-/
namespace MeshChat.Server
open Runs Resources

/-- `accept` returned the descriptor and it was not closed since. -/
def Accepted (log : List FdCall) (fd : Int) : Prop :=
  Since (fun call => call ≠ .close fd) (fun call => call = .accept fd) log

/-- The log says which descriptors are open and which of them are connections. -/
structure Logged (p : Process) : Prop where
  ledger : Ledger (p.log.map FdCall.use) {fd | p.files fd ≠ none}
  accepted : ∀ fd, (p.conn fd).isSome = true ↔ Accepted p.log fd

namespace Logged
variable {p : Process}

theorem setConn (h : Logged p) {fd : Int} {c : Conn} (hc : p.conn fd = some c) (c' : Conn) :
    Logged (p.setConn fd c') where
  ledger := by
    have hopen : {fd' | (p.setConn fd c').files fd' ≠ none} = {fd' | p.files fd' ≠ none} := by
      ext fd'
      by_cases he : fd' = fd
      · subst he
        simp [Process.setConn, Process.conn_eq_some.mp hc]
      · simp [Process.setConn, he]
    rw [hopen]
    exact h.ledger
  accepted fd' := by
    rw [Process.conn_setConn]
    refine Iff.trans ?_ (h.accepted fd')
    split
    · rename_i he
      simp [he, hc]
    · rfl

theorem ledger_openFd (h : Logged p) {call : FdCall} {fd : Int} (hcall : call.use = .acquire fd)
    (file : File) (hfree : p.files fd = none) :
    Ledger ((p.openFd call fd file).log.map FdCall.use)
      {fd' | (p.openFd call fd file).files fd' ≠ none} := by
  have hopen : {fd' | (p.openFd call fd file).files fd' ≠ none} =
      insert fd {fd' | p.files fd' ≠ none} := by
    ext fd'
    by_cases he : fd' = fd
    · subst he
      simp [Process.openFd]
    · simp [Process.openFd, he]
  rw [hopen, Process.openFd, List.map_append, List.map_singleton, hcall]
  exact h.ledger.acquire fun hmem => hmem hfree

theorem openConn (h : Logged p) {fd : Int} (hfree : p.files fd = none) (c : Conn) :
    Logged (p.openFd (.accept fd) fd (.conn c)) where
  ledger := h.ledger_openFd rfl _ hfree
  accepted fd' := by
    rw [Process.conn_openFd]
    change _ ↔ Accepted (p.log ++ [.accept fd]) fd'
    rw [Accepted, since_snoc_iff, ← Accepted, ← h.accepted fd']
    by_cases he : fd' = fd
    · simp [he]
    · simp [he, Ne.symm he]

theorem openListener (h : Logged p) {fd : Int} (hfree : p.files fd = none) :
    Logged (p.openFd (.socket fd) fd .listener) where
  ledger := h.ledger_openFd rfl _ hfree
  accepted fd' := by
    rw [Process.conn_openFd_listener hfree]
    change _ ↔ Accepted (p.log ++ [.socket fd]) fd'
    rw [Accepted, since_snoc_iff, ← Accepted, ← h.accepted fd']
    simp

theorem closeFd (h : Logged p) {fd : Int} (hopen : p.files fd ≠ none) : Logged (p.closeFd fd) where
  ledger := by
    have hleft : {fd' | (p.closeFd fd).files fd' ≠ none} = {fd' | p.files fd' ≠ none} \ {fd} := by
      ext fd'
      by_cases he : fd' = fd
      · subst he
        simp [Process.closeFd]
      · simp [Process.closeFd, he]
    rw [hleft, Process.closeFd, List.map_append]
    exact h.ledger.release hopen
  accepted fd' := by
    rw [Process.conn_closeFd]
    change _ ↔ Accepted (p.log ++ [.close fd]) fd'
    rw [Accepted, since_snoc_iff, ← Accepted, ← h.accepted fd']
    by_cases he : fd' = fd
    · simp [he]
    · simp [he, Ne.symm he]

/-- The descriptors of a list are closed one after another. -/
theorem closeAll (h : Logged p) {fds : List Int} (hnd : fds.Nodup)
    (hopen : ∀ fd ∈ fds, p.files fd ≠ none) :
    Logged (fds.foldl Process.closeFd p) ∧
      ∀ fd, (fds.foldl Process.closeFd p).files fd = if fd ∈ fds then none else p.files fd := by
  induction fds generalizing p with
  | nil => exact ⟨h, fun _ => rfl⟩
  | cons fd fds ih =>
    obtain ⟨hnot, hnd⟩ := List.nodup_cons.mp hnd
    have hstill : ∀ fd' ∈ fds, (p.closeFd fd).files fd' ≠ none := by
      intro fd' hfd'
      have hne : fd' ≠ fd := fun he => hnot (he ▸ hfd')
      simpa [Process.closeFd, hne] using hopen fd' (List.mem_cons_of_mem _ hfd')
    obtain ⟨hlogged, hfiles⟩ := ih (h.closeFd (hopen fd List.mem_cons_self)) hnd hstill
    refine ⟨hlogged, fun fd' => ?_⟩
    rw [List.foldl_cons, hfiles fd']
    by_cases hmem : fd' ∈ fds
    · simp [hmem]
    · by_cases he : fd' = fd
      · simp [he, hnot, Process.closeFd]
      · simp [hmem, he, Process.closeFd]

end Logged

/-- `server_destroy` closes distinct descriptors, and these are the open ones. -/
theorem Wf.destroyed {p : Process} (h : Wf p) (hstage : p.stage = .destroy) :
    (Process.destroyed p.ctx).Nodup ∧ ∀ fd, fd ∈ Process.destroyed p.ctx ↔ p.files fd ≠ none := by
  have hmem : ∀ fd, fd ∈ Process.destroyed p.ctx ↔
      0 ≤ fd ∧ p.ctx.listenFd = fd ∨ 0 ≤ fd ∧ fd ∈ p.ctx.clientFds := by
    intro fd
    rw [Process.destroyed, List.mem_append, List.mem_filter, decide_eq_true_eq]
    refine or_congr ?_ and_comm
    split <;> simp <;> omega
  have hconns : ∀ fd, (p.conn fd).isSome = true ↔ 0 ≤ fd ∧ fd ∈ p.ctx.clientFds := by
    intro fd
    rw [h.conns fd, hstage]
    simp [ServerStage.rejecting]
  constructor
  · rw [Process.destroyed, List.nodup_append]
    refine ⟨by split <;> simp, h.slots.nodup, fun fd hfd fd' hfd' he => ?_⟩
    subst he
    split at hfd
    · rename_i hpos
      rw [List.mem_singleton] at hfd
      obtain ⟨c, hc⟩ := Option.isSome_iff_exists.mp ((hconns fd).mpr
        ⟨hfd ▸ hpos, (List.mem_filter.mp hfd').1⟩)
      exact h.conn_ne_listener hc ⟨hfd ▸ hpos, hfd.symm⟩
    · cases hfd
  · intro fd
    rw [hmem, ← h.listener fd, ← hconns fd, Option.isSome_iff_exists]
    simp only [Process.conn_eq_some]
    constructor
    · rintro (hfile | ⟨c, hfile⟩) <;> simp [hfile]
    · intro hfile
      obtain ⟨file, hfile⟩ := Option.ne_none_iff_exists'.mp hfile
      cases file with
      | listener => exact Or.inl hfile
      | conn c => exact Or.inr ⟨c, hfile⟩

/-- What holds of the descriptors throughout a run that is set up. -/
structure DescriptorsOk (p : Process) : Prop where
  wf : p.stage.ended = false → Wf p
  logged : Logged p
  done : p.stage = .done → ∀ fd, p.files fd = none

theorem Control.ne_done {p : Process} {e : OsEvent} {stage : ServerStage}
    (h : Control p e stage) : stage ≠ .done := by
  cases h <;> nofun

theorem DescriptorsOk.step {p p' : Process} {e : OsEvent} (h : DescriptorsOk p)
    (he : e.failsSetUp = false) (hs : ProcessStep p e p') : DescriptorsOk p' := by
  have heffect := processStep_effect hs
  refine ⟨fun hended => ?_, ?_, ?_⟩
  · exact (h.wf (heffect.ended_before hended)).step heffect he hended
  · have hserved : ∀ {i : ℕ} {fd : Int}, p.stage.ended = false → p.stage.serving = some (i, fd) →
        p.files fd ≠ none :=
      fun hended hserv => Process.files_ne_none ((h.wf hended).serving_open hserv)
    cases heffect with
    | moves _ => exact ⟨h.logged.ledger, h.logged.accepted⟩
    | signal => exact ⟨h.logged.ledger, h.logged.accepted⟩
    | client hconn _ => exact h.logged.setConn hconn _
    | noSocket _ => exact ⟨h.logged.ledger, h.logged.accepted⟩
    | socket _ _ hfree =>
      have hlogged := h.logged.openListener hfree
      exact ⟨hlogged.ledger, hlogged.accepted⟩
    | setUpFails hfails => rcases hfails with ⟨-, rfl⟩ | ⟨-, rfl⟩ <;> cases he
    | accepts _ _ hfree =>
      have hlogged := h.logged.openConn hfree
      exact ⟨(hlogged _).ledger, (hlogged _).accepted⟩
    | reads _ hconn _ _ _ =>
      have hlogged := h.logged.setConn hconn
      exact ⟨(hlogged _).ledger, (hlogged _).accepted⟩
    | drops hstage _ =>
      have hlogged := h.logged.closeFd (hserved (by rw [hstage]; rfl) (by rw [hstage]; rfl))
      exact ⟨hlogged.ledger, hlogged.accepted⟩
    | dispatches _ _ => exact ⟨h.logged.ledger, h.logged.accepted⟩
    | rejected hstage =>
      have hended : p.stage.ended = false := by rw [hstage]; rfl
      have hopen := ((h.wf hended).conns _).mpr (Or.inr (by rw [hstage]; rfl))
      have hlogged := h.logged.closeFd (Process.files_ne_none hopen)
      exact ⟨hlogged.ledger, hlogged.accepted⟩
    | exits hstage _ =>
      have hlogged := h.logged.closeFd (hserved (by rw [hstage]; rfl) (by rw [hstage]; rfl))
      exact ⟨hlogged.ledger, hlogged.accepted⟩
    | destroys hstage =>
      obtain ⟨hnd, hopen⟩ := (h.wf (by rw [hstage]; rfl)).destroyed hstage
      have hlogged := (h.logged.closeAll hnd fun fd hfd => (hopen fd).mp hfd).1
      exact ⟨hlogged.ledger, hlogged.accepted⟩
  · intro hdone
    cases heffect with
    | moves hc => exact absurd hdone hc.ne_done
    | signal => exact h.done hdone
    | client hconn _ =>
      rw [Process.conn_eq_some, h.done hdone] at hconn
      cases hconn
    | destroys hstage =>
      obtain ⟨hnd, hopen⟩ := (h.wf (by rw [hstage]; rfl)).destroyed hstage
      have hfiles := (h.logged.closeAll hnd fun fd hfd => (hopen fd).mp hfd).2
      intro fd
      refine (hfiles fd).trans ?_
      split
      · rfl
      · rename_i hnot
        exact not_not.mp (mt (hopen fd).mpr hnot)
    | @accepts ready env fd c _ _ _ =>
      have hpass := p.accepted_passing env ready fd c
      rw [hdone] at hpass
      cases hpass
    | reads hstage _ _ _ _ => cases hdone
    | _ => cases hdone

theorem Initial.clientFds_neg {ctx : ServerContext} (h : Initial ctx) :
    ∀ fd ∈ ctx.clientFds, fd < 0 := by
  rw [h.clientFds]
  intro fd hfd
  rw [List.eq_of_mem_replicate hfd]
  decide

theorem booted_conn (ctx : ServerContext) (fd : Int) : (booted ctx).conn fd = none := rfl

/-- Before the first step nothing is open. -/
theorem booted_descriptorsOk {ctx : ServerContext} (hneg : ∀ fd ∈ ctx.clientFds, fd < 0)
    (hlisten : ctx.listenFd < 0) : DescriptorsOk (booted ctx) where
  wf _ :=
    { slots i j fd hfd hi _ := by
        have := hneg fd (List.mem_of_getElem? hi)
        omega
      listener fd := by
        refine iff_of_false (fun hfile => Option.some_ne_none _ hfile.symm) ?_
        rintro ⟨hfd, rfl⟩
        exact absurd hfd (not_le.mpr hlisten)
      conns fd := by
        rw [booted_conn]
        refine iff_of_false Bool.false_ne_true ?_
        rintro (⟨hfd, hmem⟩ | hrej)
        · exact absurd hfd (not_le.mpr (hneg fd hmem))
        · exact Option.some_ne_none _ hrej.symm
      fresh _ := hlisten
      serving i fd hs := absurd hs.symm (Option.some_ne_none _)
      rejecting fd hs := absurd hs.symm (Option.some_ne_none _) }
  logged :=
    { ledger := by
        have hnone : {fd | (booted ctx).files fd ≠ none} = ∅ := by simp [booted]
        rw [hnone]
        exact .nil
      accepted fd := by
        rw [booted_conn]
        exact iff_of_false Bool.false_ne_true not_since_nil }
  done hdone := by cases hdone

theorem serverCreate_listenFd {alloc : ℕ → Bool} {ctx : ServerContext}
    (h : serverCreate alloc = some ctx) : ctx.listenFd = -1 := by
  unfold serverCreate at h
  repeat' split at h
  all_goals first | contradiction | exact Option.some.inj h ▸ rfl

theorem descriptorsOk_of_run {alloc : ℕ → Bool} {ctx₀ : ServerContext} {p : Process}
    {moves : List ProcessMove} (h0 : serverCreate alloc = some ctx₀)
    (hr : Run ProcessStep (booted ctx₀) moves p)
    (hset : ∀ m ∈ moves, m.label.failsSetUp = false) : DescriptorsOk p := by
  refine hr.invariant (I := DescriptorsOk) (G := fun _ e => e.failsSetUp = false)
    (booted_descriptorsOk (serverCreate_initial h0).clientFds_neg ?_)
    (fun p e p' hi he hs => hi.step he hs) hset
  rw [serverCreate_listenFd h0]
  decide

/-- Nothing is accepted yet, and only the listening socket was opened. -/
structure SettingUp (p : Process) : Prop where
  fresh : p.stage = .socket → p.log = [] ∧ ∀ fd ∈ p.ctx.clientFds, fd < 0
  opened : p.stage = .bind ∨ p.stage = .listen →
    p.log = [.socket p.ctx.listenFd] ∧ 0 ≤ p.ctx.listenFd ∧ ∀ fd ∈ p.ctx.clientFds, fd < 0

/-- After a failed `bind` or `listen`: the socket was closed, and `listen_fd` still
holds it until `server_destroy` has closed it again. -/
inductive FailedSetUp (p : Process) : Prop
  | closed : p.stage = .destroy → 0 ≤ p.ctx.listenFd → (∀ fd ∈ p.ctx.clientFds, fd < 0) →
      p.log = [.socket p.ctx.listenFd, .close p.ctx.listenFd] → FailedSetUp p
  | done {fd : Int} : p.stage = .done → p.log = [.socket fd, .close fd, .close fd] → FailedSetUp p

theorem SettingUp.of_over {p : Process} (h : p.stage.settingUp = false) : SettingUp p where
  fresh hs := by
    rw [hs] at h
    cases h
  opened hs := by
    rcases hs with hs | hs <;> (rw [hs] at h; cases h)

theorem SettingUp.step {p p' : Process} {e : OsEvent} (h : SettingUp p)
    (hs : ProcessEffect p e p') :
    e.failsSetUp = false ∧ SettingUp p' ∨ e.failsSetUp = true ∧ FailedSetUp p' := by
  cases hs with
  | moves hc =>
    refine Or.inl ⟨by cases hc <;> rfl, fun he => absurd he hc.stage_ne, fun he => ?_⟩
    cases hc with
    | bound hstage => exact h.opened (Or.inl hstage)
    | _ => simp at he
  | signal => exact Or.inl ⟨rfl, h.fresh, h.opened⟩
  | client _ _ => exact Or.inl ⟨rfl, h.fresh, h.opened⟩
  | noSocket _ => exact Or.inl ⟨rfl, .of_over rfl⟩
  | socket hstage hpos _ =>
    obtain ⟨hlog, hneg⟩ := h.fresh hstage
    refine Or.inl ⟨rfl, ⟨fun hs => ?_, fun _ => ⟨?_, hpos, hneg⟩⟩⟩
    · cases hs
    · simp only [Process.openFd, hlog]
      rfl
  | setUpFails hfails =>
    obtain ⟨hlog, hpos, hneg⟩ := h.opened (hfails.imp And.left And.left)
    refine Or.inr ⟨by rcases hfails with ⟨-, rfl⟩ | ⟨-, rfl⟩ <;> rfl, .closed rfl hpos hneg ?_⟩
    simp only [Process.closeFd, hlog]
    rfl
  | accepts hstage _ _ =>
    exact Or.inl ⟨rfl, .of_over (ServerStage.of_passing (p.accepted_passing _ _ _ _)).1⟩
  | reads _ _ _ _ _ => exact Or.inl ⟨rfl, .of_over rfl⟩
  | drops _ _ => exact Or.inl ⟨rfl, .of_over rfl⟩
  | dispatches _ _ => exact Or.inl ⟨rfl, .of_over rfl⟩
  | rejected _ => exact Or.inl ⟨rfl, .of_over rfl⟩
  | exits _ _ => exact Or.inl ⟨rfl, .of_over rfl⟩
  | destroys _ => exact Or.inl ⟨rfl, .of_over rfl⟩

/-- On its way out the process only closes what it has. -/
theorem ProcessEffect.of_leaving {p p' : Process} {e : OsEvent} (h : ProcessEffect p e p')
    (hstage : p.stage = .destroy ∨ p.stage = .done) :
    p'.stage = p.stage ∧ p'.log = p.log ∧ p'.ctx.listenFd = p.ctx.listenFd ∧
        p'.ctx.clientFds = p.ctx.clientFds ∨
      p.stage = .destroy ∧ p'.stage = .done ∧
        p'.log = ((Process.destroyed p.ctx).foldl Process.closeFd p).log := by
  cases h with
  | moves hc => cases hc <;> rename_i h' <;> simp [*] at hstage
  | signal => exact Or.inl ⟨rfl, rfl, rfl, rfl⟩
  | client _ _ => exact Or.inl ⟨rfl, rfl, rfl, rfl⟩
  | noSocket h' => simp [h'] at hstage
  | socket h' _ _ => simp [h'] at hstage
  | setUpFails h' => rcases h' with ⟨h', -⟩ | ⟨h', -⟩ <;> simp [h'] at hstage
  | accepts h' _ _ => simp [h'] at hstage
  | reads h' _ _ _ _ => simp [h'] at hstage
  | drops h' _ => simp [h'] at hstage
  | dispatches h' _ => simp [h'] at hstage
  | rejected h' => simp [h'] at hstage
  | exits h' _ => simp [h'] at hstage
  | destroys h' => exact Or.inr ⟨h', rfl, rfl⟩

theorem FailedSetUp.step {p p' : Process} {e : OsEvent} (h : FailedSetUp p)
    (hs : ProcessEffect p e p') : FailedSetUp p' := by
  cases h with
  | closed hstage hpos hneg hlog =>
    rcases hs.of_leaving (Or.inl hstage) with ⟨hstage', hlog', hlisten, hfds⟩ | ⟨-, hdone, hlog'⟩
    · rw [← hlisten] at hpos hlog
      exact .closed (hstage'.trans hstage) hpos (hfds ▸ hneg) (hlog'.trans hlog)
    · have hclosed : Process.destroyed p.ctx = [p.ctx.listenFd] := by
        rw [Process.destroyed, if_pos hpos, List.filter_eq_nil_iff.mpr, List.append_nil]
        intro fd hfd
        have := hneg fd hfd
        simpa using this
      rw [hclosed, List.foldl_cons, List.foldl_nil, Process.closeFd, hlog] at hlog'
      exact .done hdone hlog'
  | done hstage hlog =>
    rcases hs.of_leaving (Or.inr hstage) with ⟨hstage', hlog', -, -⟩ | ⟨hdestroy, -, -⟩
    · exact .done (hstage'.trans hstage) (hlog'.trans hlog)
    · rw [hstage] at hdestroy
      cases hdestroy

/-- A run either never failed to set up, or it is on its way out. -/
theorem setUp_of_run {ctx : ServerContext} (hneg : ∀ fd ∈ ctx.clientFds, fd < 0) {p : Process}
    {moves : List ProcessMove} (hr : Run ProcessStep (booted ctx) moves p) :
    (∀ m ∈ moves, m.label.failsSetUp = false) ∧ SettingUp p ∨
      ¬ (∀ m ∈ moves, m.label.failsSetUp = false) ∧ FailedSetUp p := by
  refine hr.history (G := fun _ _ => True)
    (I := fun moves p => (∀ m ∈ moves, m.label.failsSetUp = false) ∧ SettingUp p ∨
      ¬ (∀ m ∈ moves, m.label.failsSetUp = false) ∧ FailedSetUp p)
    (Or.inl ⟨List.forall_mem_nil _, fun _ => ⟨rfl, hneg⟩, fun he => by simp [booted] at he⟩)
    (fun moves p e p' hi _ hs => ?_) fun _ _ => trivial
  have heffect := processStep_effect hs
  have hall : (∀ m ∈ moves ++ [⟨p, e, p'⟩], m.label.failsSetUp = false) ↔
      (∀ m ∈ moves, m.label.failsSetUp = false) ∧ e.failsSetUp = false := by
    rw [List.forall_mem_append, List.forall_mem_singleton]
  rw [hall]
  rcases hi with ⟨hset, hi⟩ | ⟨hset, hi⟩
  · rcases hi.step heffect with ⟨he, hi⟩ | ⟨he, hi⟩
    · exact Or.inl ⟨⟨hset, he⟩, hi⟩
    · exact Or.inr ⟨by simp [he], hi⟩
  · exact Or.inr ⟨fun h => hset h.1, hi.step heffect⟩

/-- A socket that is closed twice is not accounted for. -/
theorem not_accounted_closed_twice (fd : Int) :
    ¬ ReleasesHeld ([.socket fd, .close fd, .close fd].map FdCall.use) := by
  intro h
  have hheld := h [.acquire fd, .release fd] fd [] rfl
  rw [Holds, show [Use.acquire fd, .release fd] = [.acquire fd] ++ [.release fd] from rfl,
    since_snoc_iff] at hheld
  simp at hheld

/-- Descriptor accounting. As long as neither `bind` nor `listen` fails, no descriptor
is closed that is not owned. When the process has ended, every descriptor was closed
exactly once for each time it was acquired, and no other, exactly if neither failed. -/
theorem descriptors_accounted {alloc : ℕ → Bool} {ctx₀ : ServerContext} {p : Process}
    {moves : List ProcessMove} (h0 : serverCreate alloc = some ctx₀)
    (hr : Run ProcessStep (booted ctx₀) moves p) :
    ((∀ m ∈ moves, m.label.failsSetUp = false) → ReleasesHeld (p.log.map FdCall.use)) ∧
      (p.stage = .done →
        (Accounted (p.log.map FdCall.use) ↔ ∀ m ∈ moves, m.label.failsSetUp = false)) := by
  refine ⟨fun hset => (descriptorsOk_of_run h0 hr hset).logged.ledger.releasesHeld, fun hdone => ?_⟩
  constructor
  · intro haccounted
    rcases setUp_of_run (serverCreate_initial h0).clientFds_neg hr with ⟨hset, -⟩ | ⟨-, hfailed⟩
    · exact hset
    · cases hfailed with
      | closed hstage _ _ _ =>
        rw [hstage] at hdone
        cases hdone
      | done _ hlog =>
        rw [hlog] at haccounted
        exact absurd haccounted.held (not_accounted_closed_twice _)
  · intro hset
    have hok := descriptorsOk_of_run h0 hr hset
    have hnone : {fd | p.files fd ≠ none} = ∅ := by simp [hok.done hdone]
    have hledger := hok.logged.ledger
    rw [hnone] at hledger
    exact hledger.accounted

/-- The process takes these events as far as they are possible. -/
def processMoves (events : List OsEvent) : List ProcessMove :=
  play (attempt Process.step) (booted started) events

def processAfter (events : List OsEvent) : Process :=
  playEnd (attempt Process.step) (booted started) events

/-- Events that are all possible make a run of the process. -/
theorem run_process (events : List OsEvent)
    (h : ∀ m ∈ processMoves events, (m.pre.step m.label).isSome = true) :
    Run ProcessStep (booted started) (processMoves events) (processAfter events) :=
  run_attempts Process.step (booted started) events h

/-- The server listens on descriptor 3 and `select` reports a connection. -/
def listeningEvents : List OsEvent :=
  [.socket (some 3), .bind true, .listen true, .next, .select [3]]

/-- The `for` loop when no slot is ready. -/
def idleSlots : List OsEvent := List.replicate (maxClients + 1) .next

/-- One client, and then a signal. -/
def oneClient : List OsEvent :=
  listeningEvents ++ .accept .quiet (some (4, ⟨[], false, false⟩)) :: idleSlots ++
    [.signal, .next, .next]

/-- A client registers a user, with a request that is read in pieces. -/
def registering : List OsEvent :=
  List.flatten [listeningEvents,
    .accept .quiet (some (4, ⟨(authMsg .register 0).frame, false, false⟩)) :: idleSlots,
    [.next, .select [4], .next, .read 1, .read 1, .read 3, .read 1, .dispatch .quiet .blank]]

theorem descriptors_accounted_one_client :
    (processAfter oneClient).log = [.socket 3, .accept 4, .close 3, .close 4] ∧
      Accounted ((processAfter oneClient).log.map FdCall.use) :=
  ⟨by decide +kernel, ((descriptors_accounted serverCreate_started
    (run_process oneClient (by decide))).2 (by decide +kernel)).mpr (by decide)⟩

/-- `bind` fails: the listening socket is closed twice. -/
theorem descriptors_accounted_fails :
    ¬ ∀ (alloc : ℕ → Bool) (ctx₀ : ServerContext) (p : Process) (moves : List ProcessMove),
      serverCreate alloc = some ctx₀ → Run ProcessStep (booted ctx₀) moves p → p.stage = .done →
      Accounted (p.log.map FdCall.use) := by
  intro h
  have hrun := run_process [.socket (some 3), .bind false, .next] (by decide)
  have haccounted := h _ _ _ _ serverCreate_started hrun (by decide)
  have hlog : (processAfter [.socket (some 3), .bind false, .next]).log =
      [.socket 3, .close 3, .close 3] := by decide
  rw [hlog] at haccounted
  exact not_accounted_closed_twice 3 haccounted.held

end MeshChat.Server
