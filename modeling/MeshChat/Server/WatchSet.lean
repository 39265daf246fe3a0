import MeshChat.Server.Passes

/-!
# The watched descriptors

`FD_SET` has room for `FD_SETSIZE` descriptors and checks nothing. The loop puts the
listener and every slot into the set, so all of them have to stay below that number.
They do: the kernel hands out the lowest number that is free, and the server never has
more open than the listener, its slots, and a connection that it is about to reject.
-/
namespace MeshChat.Server
open Runs Resources

/-- `FD_SETSIZE`. -/
def fdSetSize : ℤ := 1024

/-- The loop's body for one slot: `FD_SET`, and `max_fd` if it is larger. -/
def watchSlot (acc : List Int × Int) (fd : Int) : List Int × Int :=
  if fd ≥ 0 then (acc.1 ++ [fd], if fd > acc.2 then fd else acc.2) else acc

/-- `read_fds` and `max_fd` before `select`. -/
def watch (ctx : ServerContext) : List Int × Int :=
  ctx.clientFds.foldl watchSlot ([ctx.listenFd], ctx.listenFd)

/-- The kernel hands out the lowest number from `inherited` on that is free; those
below it were open when the program started. -/
def LowestFree (inherited : ℤ) (p : Process) : OsEvent → Prop
  | .socket (some fd) | .accept _ (some (fd, _)) => ∀ b, inherited ≤ b → b < fd → p.files b ≠ none
  | _ => True

instance (inherited : ℤ) (p : Process) (e : OsEvent) : Decidable (LowestFree inherited p e) :=
  match e with
  | .socket (some _) | .accept _ (some (_, _)) => Int.decidableLELT _ _ _
  | .socket none | .accept _ none | .bind _ | .listen _ | .signal | .next | .select _
  | .selectFails _ | .read _ | .readFails _ | .dispatch _ _ | .write _ | .writeFails | .sigpipe
  | .client _ _ => instDecidableTrue

theorem watchSlots_spec (l : List Int) (acc : List Int × Int) (hmax : acc.2 ∈ acc.1)
    (hle : ∀ fd ∈ acc.1, fd ≤ acc.2) :
    (l.foldl watchSlot acc).2 ∈ (l.foldl watchSlot acc).1 ∧
      (∀ fd ∈ (l.foldl watchSlot acc).1, fd ≤ (l.foldl watchSlot acc).2) ∧
      ∀ fd, fd ∈ (l.foldl watchSlot acc).1 ↔ fd ∈ acc.1 ∨ 0 ≤ fd ∧ fd ∈ l := by
  induction l generalizing acc with
  | nil => exact ⟨hmax, hle, fun fd => by simp⟩
  | cons x l ih =>
    rw [List.foldl_cons]
    by_cases hx : x ≥ 0
    · have hslot : watchSlot acc x = (acc.1 ++ [x], if x > acc.2 then x else acc.2) := if_pos hx
      rw [hslot]
      have hmax' : (if x > acc.2 then x else acc.2) ∈ acc.1 ++ [x] := by
        split
        · exact List.mem_append_right _ (List.mem_singleton_self x)
        · exact List.mem_append_left _ hmax
      have hle' : ∀ fd ∈ acc.1 ++ [x], fd ≤ if x > acc.2 then x else acc.2 := by
        intro fd hfd
        rcases List.mem_append.mp hfd with hfd | hfd
        · have := hle fd hfd
          split <;> omega
        · rw [List.mem_singleton.mp hfd]
          split <;> omega
      obtain ⟨hin, hall, hmem⟩ := ih (acc.1 ++ [x], if x > acc.2 then x else acc.2) hmax' hle'
      have hnew : ∀ fd, 0 ≤ fd ∧ fd = x ↔ fd = x :=
        fun fd => and_iff_right_of_imp fun he => he ▸ hx
      refine ⟨hin, hall, fun fd => (hmem fd).trans ?_⟩
      rw [List.mem_append, List.mem_singleton, List.mem_cons, and_or_left, hnew, or_assoc]
    · have hslot : watchSlot acc x = acc := if_neg hx
      rw [hslot]
      obtain ⟨hin, hall, hmem⟩ := ih _ hmax hle
      have hold : ∀ fd, ¬ (0 ≤ fd ∧ fd = x) := fun fd h => hx (h.2 ▸ h.1)
      refine ⟨hin, hall, fun fd => (hmem fd).trans ?_⟩
      rw [List.mem_cons, and_or_left, or_iff_right (hold fd)]

/-- `max_fd` is the largest descriptor of the set, which is the listener and the slots. -/
theorem watch_spec (ctx : ServerContext) :
    (watch ctx).2 ∈ (watch ctx).1 ∧ (∀ fd ∈ (watch ctx).1, fd ≤ (watch ctx).2) ∧
      ∀ fd, fd ∈ (watch ctx).1 ↔ fd = ctx.listenFd ∨ 0 ≤ fd ∧ fd ∈ ctx.clientFds := by
  obtain ⟨hin, hall, hmem⟩ := watchSlots_spec ctx.clientFds
    ([ctx.listenFd], ctx.listenFd) (List.mem_singleton_self _)
    (fun fd hfd => (List.mem_singleton.mp hfd).le)
  exact ⟨hin, hall, fun fd => (hmem fd).trans (or_congr_left List.mem_singleton)⟩

section Run
variable {alloc : ℕ → Bool} {ctx₀ : ServerContext} {p p' : Process} {moves : List ProcessMove}
  {inherited : ℤ}

/-- A number that is handed out exceeds the inherited ones by at most the listener and
the slots. -/
theorem lowest_le (hwf : Wf p) (hslots : p.ctx.clientFds.length = maxClients)
    (hrej : p.stage.rejecting = none) {fd : Int}
    (hlow : ∀ b, inherited ≤ b → b < fd → p.files b ≠ none) : fd ≤ inherited + (maxClients + 1) := by
  have htaken : ∀ b, inherited ≤ b → b < fd → b ∈ p.ctx.listenFd :: p.ctx.clientFds := by
    intro b hb hlt
    obtain ⟨file, hfile⟩ := Option.ne_none_iff_exists'.mp (hlow b hb hlt)
    cases file with
    | listener => exact ((hwf.listener b).mp hfile).2 ▸ List.mem_cons_self
    | conn c =>
      have hconn := Option.isSome_iff_exists.mpr ⟨c, Process.conn_eq_some.mpr hfile⟩
      rcases (hwf.conns b).mp hconn with ⟨-, hmem⟩ | hreject
      · exact List.mem_cons_of_mem _ hmem
      · rw [hrej] at hreject
        cases hreject
  have hle := le_base_add_length htaken
  rw [List.length_cons, hslots] at hle
  exact hle

/-- A descriptor that a step opens was handed out by `socket` or `accept`. -/
theorem ProcessEffect.opened {e : OsEvent} (hs : ProcessEffect p e p') {fd : Int}
    (hfile : p'.files fd ≠ none) (hnew : p.files fd = none) :
    p.stage = .socket ∧ e = .socket (some fd) ∨
      ∃ ready env c, p.stage = .accept ready ∧ e = .accept env (some (fd, c)) := by
  have hclosed : ∀ fd', (p.closeFd fd').files fd = none := by
    intro fd'
    by_cases h : fd = fd' <;> simp [Process.closeFd, h, hnew]
  have hopened : ∀ call fd' file, fd ≠ fd' → (p.openFd call fd' file).files fd = none := by
    intro call fd' file hne
    simp [Process.openFd, hne, hnew]
  have hset : ∀ fd' c c', p.conn fd' = some c → (p.setConn fd' c').files fd = none := by
    intro fd' c c' hc
    have hne : fd ≠ fd' := by
      rintro rfl
      rw [Process.conn_eq_some, hnew] at hc
      cases hc
    simp [Process.setConn, hne, hnew]
  cases hs with
  | @socket fd' hstage _ _ =>
    by_cases h : fd = fd'
    · exact Or.inl ⟨hstage, h ▸ rfl⟩
    · exact absurd (hopened (.socket fd') _ _ h) hfile
  | @accepts ready env fd' c hstage _ _ =>
    by_cases h : fd = fd'
    · exact Or.inr ⟨ready, env, c, hstage, h ▸ rfl⟩
    · refine absurd ?_ hfile
      rcases p.accepted_cases env ready fd' c with ⟨i, x, -, -, heq⟩ | ⟨-, heq⟩ <;> rw [heq] <;>
        exact hopened (.accept fd') _ _ h
  | client hconn _ => exact absurd (hset _ _ _ hconn) hfile
  | reads _ hconn _ _ _ => exact absurd (hset _ _ _ hconn) hfile
  | setUpFails _ => exact absurd (hclosed _) hfile
  | drops _ _ => exact absurd (hclosed _) hfile
  | rejected _ => exact absurd (hclosed _) hfile
  | exits _ _ => exact absurd (hclosed _) hfile
  | destroys _ =>
    have hall : ∀ (fds : List Int) (p : Process), p.files fd = none →
        (fds.foldl Process.closeFd p).files fd = none := by
      intro fds
      induction fds with
      | nil => exact fun _ h => h
      | cons fd' fds ih =>
        intro p h
        refine ih _ ?_
        by_cases he : fd = fd' <;> simp [Process.closeFd, he, h]
    exact absurd (hall _ _ hnew) hfile
  | _ => exact absurd hnew hfile

/-- Every open descriptor stays within the listener, the slots and one more, whatever
the clients do. -/
theorem files_lt_of_run (h0 : serverCreate alloc = some ctx₀)
    (hr : Run ProcessStep (booted ctx₀) moves p)
    (hlow : ∀ m ∈ moves, LowestFree inherited m.pre m.label) :
    ∀ fd, p.files fd ≠ none → fd ≤ inherited + (maxClients + 1) := by
  have hall := hr.history (G := fun p e => LowestFree inherited p e)
    (I := fun moves p => Run ProcessStep (booted ctx₀) moves p ∧
      ∀ fd, p.files fd ≠ none → fd ≤ inherited + (maxClients + 1))
    ⟨.start, fun fd hfile => absurd rfl hfile⟩ (fun moves p e p' hi he hs => ?_) hlow
  · exact hall.2
  · refine ⟨hi.1.snoc hs, fun fd hfile => ?_⟩
    by_cases hnew : p.files fd = none
    · have hbound := bounded_of_run h0 hi.1
      rcases (processStep_effect hs).opened hfile hnew with
        ⟨hstage, rfl⟩ | ⟨ready, env, c, hstage, rfl⟩
      · have hok := descriptorsOk_in_loop h0 hi.1 (by rw [hstage]; rfl)
        exact lowest_le (hok.wf (by rw [hstage]; rfl)) hbound.slots (by rw [hstage]; rfl) he
      · have hok := descriptorsOk_in_loop h0 hi.1 (by rw [hstage]; rfl)
        exact lowest_le (hok.wf (by rw [hstage]; rfl)) hbound.slots (by rw [hstage]; rfl) he
    · exact hi.2 fd hnew

/-- Whenever the loop gets to `select`, the set that it has built is the listener and the
connections in the slots, all open, the first argument covers every one of them, and
none reaches `FD_SETSIZE`, if the kernel hands out the lowest free number and the
program was started with no more than 958 open files. -/
theorem fd_set_in_range (h0 : serverCreate alloc = some ctx₀)
    (hr : Run ProcessStep (booted ctx₀) moves p)
    (hlow : ∀ m ∈ moves, LowestFree inherited m.pre m.label)
    (hfew : inherited + (maxClients + 1) < fdSetSize) (hstage : p.stage = .select) :
    (∀ fd, fd ∈ (watch p.ctx).1 ↔ p.files fd ≠ none) ∧
      (∀ fd ∈ (watch p.ctx).1, 0 ≤ fd ∧ fd < (watch p.ctx).2 + 1) ∧
      (watch p.ctx).2 + 1 ≤ fdSetSize := by
  obtain ⟨hin, hall, hmem⟩ := watch_spec p.ctx
  have hlisten := listenFd_in_loop hr (by rw [hstage]; nofun) (by rw [hstage]; rfl)
  have hwf : Wf p := (descriptorsOk_in_loop h0 hr (by rw [hstage]; rfl)).wf (by rw [hstage]; rfl)
  have hopen : ∀ fd, fd ∈ (watch p.ctx).1 ↔ p.files fd ≠ none := by
    intro fd
    have hconns := hwf.conns fd
    rw [hstage] at hconns
    rw [hmem fd]
    constructor
    · rintro (rfl | hslot)
      · rw [(hwf.listener _).mpr ⟨hlisten, rfl⟩]
        exact Option.some_ne_none _
      · exact Process.files_ne_none (hconns.mpr (Or.inl hslot))
    · intro hfile
      obtain ⟨file, hfile⟩ := Option.ne_none_iff_exists'.mp hfile
      cases file with
      | listener => exact Or.inl ((hwf.listener fd).mp hfile).2.symm
      | conn c =>
        have hconn := Option.isSome_iff_exists.mpr ⟨c, Process.conn_eq_some.mpr hfile⟩
        exact Or.inr ((hconns.mp hconn).resolve_right nofun)
  refine ⟨hopen, fun fd hfd => ⟨?_, Int.lt_add_one_of_le (hall fd hfd)⟩, ?_⟩
  · rcases (hmem fd).mp hfd with rfl | ⟨hpos, -⟩
    · exact hlisten
    · exact hpos
  · have hle := files_lt_of_run h0 hr hlow _ ((hopen _).mp hin)
    omega

end Run

/-- A client that connected while the numbers 0 to 2 were open from the start. -/
def watchedClient : List OsEvent :=
  listeningEvents ++ .accept .quiet (some (4, ⟨[], false, false⟩)) :: idleSlots ++ [.next]

theorem fd_set_in_range_one_client :
    (∀ fd ∈ (watch (processAfter watchedClient).ctx).1, 0 ≤ fd ∧
        fd < (watch (processAfter watchedClient).ctx).2 + 1) ∧
      (watch (processAfter watchedClient).ctx).2 + 1 ≤ fdSetSize := by
  have hlow : ∀ m ∈ processMoves watchedClient, LowestFree 3 m.pre m.label := by decide
  exact (fd_set_in_range serverCreate_started (run_process watchedClient (by decide)) hlow
    (by decide) (by decide +kernel)).2

end MeshChat.Server
