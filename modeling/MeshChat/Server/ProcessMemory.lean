import MeshChat.Server.Conversations
import MeshChat.Server.Ledger

/-!
# The memory of the whole program

The process of `server_main.c` allocates and frees where it dispatches a request,
drops a connection and destroys its context. In every run exactly the blocks reached
from the context are allocated until `server_destroy`, and none is left when `main`
returns; a process that `SIGPIPE` killed leaves them all.
-/
namespace MeshChat.Server
open Resources Runs

/-- What a step of the process allocates and frees. -/
def processUses (m : ProcessMove) : List (Use Block) :=
  match m.label, m.pre.stage with
  | .dispatch env into, .reading _ _ fd got =>
      dispatchMessageUses env m.pre.ctx fd (assemble into got)
  | .readFails env, .reading _ _ fd _ => cleanupClientUses env m.pre.ctx fd
  | .next, .destroy =>
      serverDestroyUses (some m.pre.ctx.userMap) (some m.pre.ctx.groupMap)
        (some m.pre.ctx.mcastQueue)
  | _, _ => []

/-- The blocks reached from the context, as long as there is one. -/
def Process.blocks (p : Process) : Set Block := {b | p.stage ≠ .done ∧ b ∈ p.ctx.blocks}

section Step
variable {p p' : Process} {e : OsEvent}

theorem Process.blocks_of_live (h : p.stage ≠ .done) : p.blocks = p.ctx.blocks :=
  Set.ext fun _ => and_iff_right h

theorem Process.blocks_of_done (h : p.stage = .done) : p.blocks = ∅ :=
  Set.ext fun _ => ⟨fun hb => hb.1 h, nofun⟩

theorem MemoryOk.of_same {ctx ctx' : ServerContext} (h : MemoryOk ctx)
    (husers : ctx'.userMap = ctx.userMap) (hgroups : ctx'.groupMap = ctx.groupMap)
    (hqueue : ctx'.mcastQueue = ctx.mcastQueue) : MemoryOk ctx' ∧ ctx'.blocks = ctx.blocks := by
  have hsame : ctx'.groups = ctx.groups := by rw [ServerContext.groups, hgroups]; rfl
  refine ⟨⟨h.addresses.of_same husers hgroups hqueue, hsame ▸ h.members⟩, ?_⟩
  rw [ServerContext.blocks, ServerContext.blocks, hsame, ServerContext.users, husers,
    ServerContext.pool, hqueue]
  rfl

/-- A step that keeps the containers. -/
theorem MemoryOk.keeps (h : MemoryOk p.ctx) (husers : p'.ctx.userMap = p.ctx.userMap)
    (hgroups : p'.ctx.groupMap = p.ctx.groupMap) (hqueue : p'.ctx.mcastQueue = p.ctx.mcastQueue)
    (hdone : p'.stage = .done ↔ p.stage = .done) (huses : processUses ⟨p, e, p'⟩ = []) :
    MemoryOk p'.ctx ∧ Leads p.blocks (processUses ⟨p, e, p'⟩) p'.blocks := by
  obtain ⟨hok, hblocks⟩ := h.of_same husers hgroups hqueue
  have hsame : p'.blocks = p.blocks := by
    rw [Process.blocks, Process.blocks, hblocks, Ne, Ne, hdone]
  rw [huses, hsame]
  exact ⟨hok, .nil _⟩

theorem MemoryOk.step (h : MemoryOk p.ctx) (hs : ProcessEffect p e p') :
    MemoryOk p'.ctx ∧ Leads p.blocks (processUses ⟨p, e, p'⟩) p'.blocks := by
  cases hs with
  | moves hcontrol =>
    exact h.keeps rfl rfl rfl (by cases hcontrol <;> simp_all)
      (by cases hcontrol <;> simp_all [processUses])
  | signal => exact h.keeps rfl rfl rfl Iff.rfl rfl
  | client _ _ => exact h.keeps rfl rfl rfl Iff.rfl rfl
  | noSocket hstage => exact h.keeps rfl rfl rfl (by simp [hstage]) rfl
  | socket hstage _ _ => exact h.keeps rfl rfl rfl (by simp [hstage]) rfl
  | setUpFails hstage =>
    rcases hstage with ⟨hstage, rfl⟩ | ⟨hstage, rfl⟩
    · exact h.keeps rfl rfl rfl (by simp [hstage]) rfl
    · exact h.keeps rfl rfl rfl (by simp [hstage]) rfl
  | @accepts ready env fd c hstage _ _ =>
    rcases p.accepted_cases env ready fd c with ⟨i, x, -, -, heq⟩ | ⟨-, heq⟩
    · rw [heq]
      exact h.keeps rfl rfl rfl (by simp [hstage]) rfl
    · rw [heq]
      exact h.keeps rfl rfl rfl (by simp [hstage]) rfl
  | reads hstage _ _ _ _ => exact h.keeps rfl rfl rfl (by simp [hstage]) rfl
  | rejected hstage => exact h.keeps rfl rfl rfl (by simp [hstage]) (by simp [processUses, hstage])
  | exits hstage _ => exact h.keeps rfl rfl rfl (by simp [hstage]) (by simp [processUses, hstage])
  | @drops ready i fd got env hstage _ =>
    obtain ⟨hok, hleads⟩ := h.call ⟨env, .disconnect fd⟩
    have hdropped : MemoryOk (dropClient env p.ctx i fd) ∧ (dropClient env p.ctx i fd).blocks =
        (afterCall p.ctx ⟨env, .disconnect fd⟩).blocks := hok.of_same rfl rfl rfl
    have huses : ∀ p', processUses ⟨p, .readFails env, p'⟩ = cleanupClientUses env p.ctx fd := by
      intro p'
      simp only [processUses, hstage]
    refine ⟨hdropped.1, ?_⟩
    rw [huses, Process.blocks_of_live (by simp [hstage]), Process.blocks_of_live (by simp),
      hdropped.2]
    exact hleads
  | @dispatches ready i fd got env into hstage _ =>
    obtain ⟨hok, hleads⟩ := h.call ⟨env, .dispatch fd (assemble into got)⟩
    refine ⟨hok, ?_⟩
    have huses : ∀ p', processUses ⟨p, .dispatch env into, p'⟩ =
        dispatchMessageUses env p.ctx fd (assemble into got) := by
      intro p'
      simp only [processUses, hstage]
    rw [huses, Process.blocks_of_live (by simp [hstage]), Process.blocks_of_live (by simp)]
    exact hleads
  | destroys hstage =>
    have huses : ∀ p', processUses ⟨p, .next, p'⟩ = serverDestroyUses (some p.ctx.userMap)
        (some p.ctx.groupMap) (some p.ctx.mcastQueue) := by
      intro p'
      simp only [processUses, hstage]
    rw [huses, Process.blocks_of_live (by simp [hstage]), Process.blocks_of_done rfl]
    refine ⟨?_, h.serverDestroy⟩
    change MemoryOk ((Process.destroyed p.ctx).foldl Process.closeFd p).ctx
    rwa [Process.ctx_closeAll]

end Step

/-- At any time exactly the blocks reached from the context are allocated, until
`server_destroy` has run; and everything allocated was freed, each block once, exactly when
`main` has returned. -/
theorem process_memory_accounted {alloc : ℕ → Bool} {ctx₀ : ServerContext} {p : Process}
    {moves : List ProcessMove} (h0 : serverCreate alloc = some ctx₀)
    (hr : Run ProcessStep (booted ctx₀) moves p) :
    (∀ b, Holds (serverCreateUses alloc ++ moves.flatMap processUses) b ↔
      p.stage ≠ .done ∧ b ∈ owned p.ctx.users p.ctx.groups p.ctx.pool) ∧
    (Accounted (serverCreateUses alloc ++ moves.flatMap processUses) ↔ p.stage = .done) := by
  have hcreate : Leads ∅ (serverCreateUses alloc) (booted ctx₀).blocks := by
    rw [Process.blocks_of_live (by simp [booted])]
    exact serverCreate_blocks h0
  obtain ⟨-, hsteps⟩ := Leads.run (I := fun p => MemoryOk p.ctx) Process.blocks processUses
    (serverCreate_initial h0).memoryOk (fun p e p' hp hs => hp.step (processStep_effect hs)) hr
  have hledger := (hcreate.append hsteps).ledger
  refine ⟨fun b => (hledger.mem_iff_holds b).symm, hledger.accounted_iff.trans ?_⟩
  constructor
  · intro hempty
    by_contra hlive
    have hcontext : Block.context ∈ p.blocks := ⟨hlive, trivial⟩
    rw [hempty] at hcontext
    exact hcontext
  · exact fun hdone => Process.blocks_of_done hdone

/-- The user gets the reply, and a signal ends the server. -/
def registered : List OsEvent :=
  List.flatten [registering, [.write 3], List.replicate (maxClients + 1) .next,
    [.signal, .next, .next]]

theorem process_memory_accounted_registered :
    Accounted (serverCreateUses (fun _ => true) ++ (processMoves registered).flatMap processUses) ∧
      Holds (serverCreateUses (fun _ => true) ++
        (processMoves registering).flatMap processUses) (.userRecord (nameOf 0)) := by
  have hended := process_memory_accounted serverCreate_started
    (run_process registered (by decide +kernel))
  have hregistering := process_memory_accounted serverCreate_started
    (run_process registering (by decide +kernel))
  have huser : nameOf 0 ∈ (processAfter registering).ctx.users.map (·.username) := by decide +kernel
  exact ⟨hended.2.mpr (by decide +kernel),
    (hregistering.1 _).mpr ⟨by decide +kernel, List.mem_map.mp huser⟩⟩

end MeshChat.Server
