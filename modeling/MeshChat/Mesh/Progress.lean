import MeshChat.Mesh.Rounds

/-!
# Nobody waits in vain

A client that waits has its request or the reply on the way, or a connection that is
closed. Until the reply is there or will not come, every step of the server brings it
nearer, no step of another client puts it off, and the server has a step to take.
-/
namespace MeshChat
open Server Client Runs

namespace Peer

/-- The client runs and waits for a reply. -/
structure Waits (p : Peer) : Prop where
  up : p.up = true
  pending : p.pending.isSome = true

/-- The reply is there, or the connection is closed. -/
def Answered (p : Peer) : Prop := p.toClient.isSome = true ∨ p.link = .closed

end Peer

/-- A descriptor that is free. -/
theorem exists_free (ctx : ServerContext) :
    ∃ fd : Int, 0 ≤ fd ∧ fd ≠ ctx.listenFd ∧ fd ∉ ctx.clientFds := by
  obtain ⟨n, hn⟩ := Infinite.exists_notMem_finset
    ((ctx.listenFd :: ctx.clientFds).map Int.toNat).toFinset
  rw [List.mem_toFinset, List.mem_map] at hn
  refine ⟨n, Int.natCast_nonneg n, fun heq => hn ⟨n, ?_, Int.toNat_natCast n⟩,
    fun hmem => hn ⟨n, List.mem_cons_of_mem _ hmem, Int.toNat_natCast n⟩⟩
  rw [heq]
  exact List.mem_cons_self

section Waiting
variable {mesh : Mesh} {c : ℕ}

/-- Before the answer the request is on its way, on a connection that waits to be
accepted or was. -/
theorem MeshInv.asked (h : MeshInv mesh) (hwaits : (mesh.peers c).Waits)
    (hnot : ¬ (mesh.peers c).Answered) :
    (mesh.peers c).toServer.isSome = true ∧ ((mesh.peers c).link = .backlog ∨
      ∃ fd, (mesh.peers c).link = .accepted fd) := by
  have hasked : ∀ {v : View}, InStep v (mesh.peers c) → (mesh.peers c).toServer.isSome = true := by
    intro v hv
    cases hv with
    | settled hnone =>
      have hsome := hwaits.pending
      rw [hnone] at hsome
      cases hsome
    | asked _ hserver => rw [hserver, Option.isSome_some]
    | answered _ _ hclient => exact absurd (Or.inl (by rw [hclient, Option.isSome_some])) hnot
    | gone hdown => exact absurd (hwaits.up.symm.trans hdown) (by decide)
  cases hlink : (mesh.peers c).link with
  | off =>
    have hidle := h.peers c
    have hup := hwaits.up
    rw [PeerInv, hlink] at hidle
    rw [show mesh.peers c = .idle from hidle] at hup
    cases hup
  | backlog => exact ⟨hasked ((PeerInv.backlog hlink).mp (h.peers c)), Or.inl rfl⟩
  | accepted fd => exact ⟨hasked ((PeerInv.accepted hlink).mp (h.peers c)), Or.inr ⟨fd, rfl⟩⟩
  | closed => exact absurd (Or.inr hlink) hnot

/-- Once it is answered, a step of the client's own ends its wait. -/
theorem Peer.Waits.ends (hwaits : (mesh.peers c).Waits) (hanswered : (mesh.peers c).Answered) :
    ∃ event mesh', event.client = c ∧ event.ofClient = true ∧ MeshStep mesh event mesh' ∧
      (mesh'.peers c).pending = none := by
  obtain ⟨cmd, hpending⟩ := Option.isSome_iff_exists.mp hwaits.pending
  rcases hanswered with hclient | hclosed
  · obtain ⟨m, hm⟩ := Option.isSome_iff_exists.mp hclient
    have hs : MeshStep mesh (.answer c m (0, 0)) _ :=
      meshStep_iff.mpr (.answer hpending hm hwaits.up ⟨rfl, rfl, rfl⟩)
    exact ⟨_, _, rfl, rfl, hs, by rw [mesh.update_self]; rfl⟩
  · have hs : MeshStep mesh (.fail c (0, 0)) _ := meshStep_iff.mpr (.fail hpending hwaits.up hclosed)
    exact ⟨_, _, rfl, rfl, hs, by rw [mesh.update_self]; rfl⟩

end Waiting

namespace Rounds

/-- The steps of the server that a round takes at most. -/
def roundLength : ℕ := maxClients + 2

/-- The connections to be accepted before the one of client `c`. -/
def ahead (s : Rounds) (c : ℕ) : ℕ := if c ∈ s.backlog then s.backlog.idxOf c else 0

/-- The steps of the server up to the next call of `select`. -/
def left (s : Rounds) : ℕ := s.accepts.toNat + s.reported.length

/-- The steps of the server after which client `c` is answered, at most. -/
def rank (s : Rounds) (c : ℕ) : ℕ :=
  if c ∈ s.backlog then s.left + roundLength * (s.backlog.idxOf c + 2 - s.accepts.toNat)
  else if c ∈ s.reported then s.left
  else s.left + roundLength

end Rounds

section Ranks
open Rounds
variable {s : Rounds} {c : ℕ}

theorem RoundsOk.left_lt (h : RoundsOk s) : s.left < roundLength := by
  have hlength := h.reported_length
  have haccepts := Bool.toNat_le s.accepts
  rw [left, roundLength]
  omega

theorem RoundsOk.rank_lt (h : RoundsOk s) (c : ℕ) : s.rank c < roundLength * (s.ahead c + 3) := by
  have hleft := h.left_lt
  rw [rank, ahead]
  split
  · have hle : roundLength * (s.backlog.idxOf c + 2 - s.accepts.toNat) ≤
        roundLength * (s.backlog.idxOf c + 2) := Nat.mul_le_mul_left _ (Nat.sub_le ..)
    rw [Nat.mul_add] at hle ⊢
    omega
  · split <;> omega

/-- Another client's step does not put the answer off. -/
theorem rank_afterClient {event : MeshEvent} {mesh : Mesh} (hnew : c ∉ event.starts) :
    (s.afterClient event mesh).rank c = s.rank c := by
  have hmem : c ∈ s.backlog ++ event.starts ↔ c ∈ s.backlog := by
    rw [List.mem_append, or_iff_left hnew]
  by_cases hwaits : c ∈ s.backlog
  · have hidx : (s.backlog ++ event.starts).idxOf c = s.backlog.idxOf c :=
      List.idxOf_append_of_mem hwaits
    simp only [rank, afterClient, left, if_pos hwaits, if_pos (hmem.mpr hwaits), hidx]
  · exact (if_neg (hmem.not.mpr hwaits)).trans (if_neg hwaits).symm

/-- A client that `select` finds is nearer to its answer. -/
theorem RoundsOk.rank_afterSelect (h : RoundsOk s) (haccepts : s.accepts = false)
    (hreported : s.reported = []) (hc : c ∈ s.backlog ∨ c ∈ s.readyClients) :
    s.afterSelect.rank c < s.rank c := by
  have hlength := Rounds.readyClients_length h
  by_cases hwaits : c ∈ s.backlog
  · have hnonempty : s.backlog.isEmpty = false := List.isEmpty_eq_false_iff_exists_mem.mpr ⟨c, hwaits⟩
    have hone : s.backlog.idxOf c + 2 - 1 = s.backlog.idxOf c + 1 := rfl
    simp only [rank, afterSelect, left, if_pos hwaits, haccepts, hreported, hnonempty, hone,
      Bool.not_false, Bool.toNat_true, Bool.toNat_false, Nat.sub_zero, List.length_nil,
      Nat.mul_add, roundLength]
    omega
  · have hready := hc.resolve_left hwaits
    have hrank : s.rank c = s.left + roundLength :=
      (if_neg hwaits).trans (if_neg (hreported ▸ List.not_mem_nil))
    have hrank' : s.afterSelect.rank c = s.afterSelect.left := (if_neg hwaits).trans (if_pos hready)
    rw [hrank, hrank']
    exact h.select.left_lt.trans_le (Nat.le_add_left ..)

/-- And so is one when a connection is accepted, its own or another. -/
theorem RoundsOk.rank_accept (h : RoundsOk s) (haccepts : s.accepts = true) {c' : ℕ}
    {backlog : List ℕ} (hbacklog : s.backlog = c' :: backlog) (mesh : Mesh) (c : ℕ) :
    ({ s with mesh, backlog, accepts := false } : Rounds).rank c < s.rank c := by
  have hnodup := h.backlog_nodup
  rw [hbacklog, List.nodup_cons] at hnodup
  simp only [rank, left, haccepts, hbacklog, List.mem_cons, Bool.toNat_true, Bool.toNat_false]
  by_cases hc : c = c'
  · subst hc
    simp only [hnodup.1, true_or, if_true, if_false, List.idxOf_cons_self]
    split <;> omega
  · rw [List.idxOf_cons_ne _ (Ne.symm hc)]
    by_cases hwaits : c ∈ backlog
    · simp only [hwaits, or_true, if_true, Nat.succ_eq_add_one]
      have hsame : backlog.idxOf c + 1 + 2 - 1 = backlog.idxOf c + 2 - 0 := rfl
      rw [hsame]
      omega
    · simp only [hc, hwaits, or_self, if_false]
      split <;> omega

/-- And when another connection that was reported is served. -/
theorem rank_serve (haccepts : s.accepts = false) {c' : ℕ} {reported : List ℕ}
    (hreported : s.reported = c' :: reported) (mesh : Mesh) (hc : c ≠ c') :
    ({ s with mesh, reported } : Rounds).rank c < s.rank c := by
  have hmem : c ∈ c' :: reported ↔ c ∈ reported := by rw [List.mem_cons, or_iff_right hc]
  simp only [rank, left, haccepts, hreported, hmem, List.length_cons, Bool.toNat_false]
  split
  · omega
  · split <;> omega

end Ranks

section Steps
variable {s s' : Rounds} {e : RoundEvent} {c : ℕ}

/-- A client that takes no step goes on waiting. -/
theorem RoundEffect.waits (hs : RoundEffect s e s') (hnot : ¬ e.isOf c)
    (hwaits : (s.mesh.peers c).Waits) :
    (s'.mesh.peers c).pending = (s.mesh.peers c).pending ∧ (s'.mesh.peers c).Waits := by
  have hattended : ∀ {q : Peer}, Attended (s.mesh.peers c) q →
      q.pending = (s.mesh.peers c).pending ∧ q.Waits := by
    intro q hq
    exact ⟨hq.pending, hq.up.trans hwaits.up, hq.pending ▸ hwaits.pending⟩
  cases hs with
  | @client event mesh _ hevent =>
    have hne : c ≠ event.client := fun heq => hnot heq.symm
    show (mesh.peers c).pending = _ ∧ (mesh.peers c).Waits
    rw [hevent.frame hne]
    exact ⟨rfl, hwaits⟩
  | select => exact ⟨rfl, hwaits⟩
  | @accept fd env c' backlog mesh _ _ hevent =>
    show (mesh.peers c).pending = _ ∧ (mesh.peers c).Waits
    by_cases hc : c = c'
    · subst hc
      exact hattended hevent.accepted.2.1
    · rw [hevent.frame hc]
      exact ⟨rfl, hwaits⟩
  | @serve env msg c' reported mesh _ _ hevent =>
    show (mesh.peers c).pending = _ ∧ (mesh.peers c).Waits
    by_cases hc : c = c'
    · subst hc
      exact hattended hevent.served.2.1
    · rw [hevent.serving_frame hc]
      exact ⟨rfl, hwaits⟩

/-- A client that still waits when it has been served is answered. -/
theorem MeshInv.answered_of_served {mesh : Mesh} (h' : MeshInv mesh) {env : Env} {msg : TLVMessage}
    (hs : MeshEffect s.mesh (s.serving c env msg) mesh) (hup : (s.mesh.peers c).up = true)
    (hwaits' : (mesh.peers c).Waits) : (mesh.peers c).Answered := by
  by_contra hunanswered
  have hasked := (h'.asked hwaits' hunanswered).1
  rw [hs.served.2.2 hup] at hasked
  cases hasked

/-- An answer is not lost before the client takes it. -/
theorem RoundEffect.answered (hs : RoundEffect s e s') (h' : RoundsOk s') (hnot : ¬ e.isOf c)
    (hwaits : (s.mesh.peers c).Waits) (hanswered : (s.mesh.peers c).Answered) :
    (s'.mesh.peers c).Answered := by
  obtain ⟨-, hwaits'⟩ := hs.waits hnot hwaits
  cases hs with
  | @client event mesh _ hevent =>
    have hne : c ≠ event.client := fun heq => hnot heq.symm
    show (mesh.peers c).Answered
    rwa [hevent.frame hne]
  | select => exact hanswered
  | @accept fd env c' backlog mesh _ _ hevent =>
    show (mesh.peers c).Answered
    by_cases hc : c = c'
    · subst hc
      obtain ⟨hbacklog, -, hclosed | hclient⟩ := hevent.accepted
      · exact Or.inr hclosed
      · rw [Peer.Answered, hbacklog] at hanswered
        exact Or.inl (hclient ▸ hanswered.resolve_right nofun)
    · rwa [hevent.frame hc]
  | @serve env msg c' reported mesh _ _ hevent =>
    by_cases hc : c = c'
    · subst hc
      exact h'.mesh.answered_of_served hevent hwaits.up hwaits'
    · show (mesh.peers c).Answered
      rwa [hevent.serving_frame hc]

/-- The request that is on its way waits to be accepted, or is found by `select`. -/
theorem RoundsOk.awaited (h : RoundsOk s) (hwaits : (s.mesh.peers c).Waits)
    (hnot : ¬ (s.mesh.peers c).Answered) : c ∈ s.backlog ∨ c ∈ s.readyClients := by
  obtain ⟨hserver, hlink | hlink⟩ := h.mesh.asked hwaits hnot
  · exact Or.inl ((h.backlog c).mpr hlink)
  · refine Or.inr ((Rounds.mem_readyClients h).mpr ⟨hlink, ?_⟩)
    rw [Peer.ready, hserver, Bool.true_or]

/-- A step answers the client, or brings it nearer if it is one of the server. -/
theorem RoundsOk.answer_nearer (h : RoundsOk s) (hok : e.AllocOk) (hs : RoundStep s e s')
    (hnot : ¬ e.isOf c) (hwaits : (s.mesh.peers c).Waits) :
    (s'.mesh.peers c).Answered ∨ ¬ (s.mesh.peers c).Answered ∧
      (if e.ofServer = true then 1 else 0) + s'.rank c ≤ s.rank c := by
  have h' := h.step hok hs
  have heffect := roundStep_iff.mp hs
  obtain ⟨-, hwaits'⟩ := heffect.waits hnot hwaits
  by_cases hanswered : (s.mesh.peers c).Answered
  · exact Or.inl (heffect.answered h' hnot hwaits hanswered)
  by_cases hanswered' : (s'.mesh.peers c).Answered
  · exact Or.inl hanswered'
  refine Or.inr ⟨hanswered, ?_⟩
  have hless : s'.rank c < s.rank c → 1 + s'.rank c ≤ s.rank c := by omega
  cases heffect with
  | @client event mesh _ _ =>
    have hnew : c ∉ event.starts := fun hc => hnot (MeshEvent.eq_client_of_mem_starts hc).symm
    rw [rank_afterClient hnew]
    exact (Nat.zero_add _).le
  | select haccepts hreported =>
    exact hless (h.rank_afterSelect haccepts hreported (h.awaited hwaits hanswered))
  | @accept _ _ _ _ mesh haccepts hbacklog _ =>
    exact hless (h.rank_accept haccepts hbacklog mesh c)
  | @serve env msg c' reported mesh haccepts hreported hevent =>
    have hc : c ≠ c' := by
      rintro rfl
      exact hanswered' (h'.mesh.answered_of_served hevent hwaits.up hwaits')
    exact hless (rank_serve haccepts hreported mesh hc)

/-- While somebody is to be answered, the server has a step to take. -/
theorem RoundsOk.server_step (h : RoundsOk s) (hc : c ∈ s.backlog ∨ c ∈ s.readyClients) :
    ∃ e s', e.ofServer = true ∧ e.AllocOk ∧ RoundStep s e s' := by
  cases haccepts : s.accepts with
  | true =>
    obtain ⟨c', backlog, hbacklog⟩ := List.exists_cons_of_ne_nil (h.accepts haccepts)
    have hlink : (s.mesh.peers c').link = .backlog := by
      rw [← h.backlog c', hbacklog]
      exact List.mem_cons_self
    obtain ⟨fd, hfree⟩ := exists_free s.mesh.server
    obtain ⟨r, hr⟩ : ∃ r, runEvent .quiet s.mesh.server (.accept fd) = some r := ⟨_, if_pos hfree⟩
    exact ⟨.accept fd .quiet, _, rfl, Env.quiet_allocOk,
      roundStep_iff.mpr (.accept haccepts hbacklog (.accept hlink hr))⟩
  | false =>
    cases hreported : s.reported with
    | nil =>
      have hready : s.backlog ≠ [] ∨ s.readyClients ≠ [] :=
        hc.imp List.ne_nil_of_mem List.ne_nil_of_mem
      exact ⟨.select, _, rfl, trivial, roundStep_iff.mpr (.select haccepts hreported hready)⟩
    | cons c' reported =>
      obtain ⟨⟨fd, hlink⟩, hready⟩ := h.reported c' (hreported ▸ List.mem_cons_self)
      obtain ⟨hpos, hheld⟩ := h.mesh.held c' fd hlink
      cases hserver : (s.mesh.peers c').toServer with
      | some m =>
        obtain ⟨r, hr⟩ : ∃ r, runEvent .quiet s.mesh.server (.request fd m) = some r :=
          ⟨_, if_pos ⟨hpos, hheld⟩⟩
        have hserve : s.serving c' .quiet m = .serve c' .quiet m := if_pos (by rw [hserver]; rfl)
        have heffect : MeshEffect s.mesh (.serve c' .quiet m) _ :=
          .serve hlink hserver ⟨rfl, rfl, rfl⟩ hr
        rw [← hserve] at heffect
        exact ⟨.serve .quiet m, _, rfl, Env.quiet_allocOk,
          roundStep_iff.mpr (.serve haccepts hreported heffect)⟩
      | none =>
        obtain ⟨r, hr⟩ : ∃ r, runEvent .quiet s.mesh.server (.eof fd) = some r :=
          ⟨_, if_pos ⟨hpos, hheld⟩⟩
        have hdown : (s.mesh.peers c').up = false := by simpa [Peer.ready, hserver] using hready
        have hserve : s.serving c' .quiet .blank = .eof c' .quiet := if_neg (by simp [hserver])
        have heffect : MeshEffect s.mesh (.eof c' .quiet) _ := .eof hlink hdown hr
        rw [← hserve] at heffect
        exact ⟨.serve .quiet .blank, _, rfl, Env.quiet_allocOk,
          roundStep_iff.mpr (.serve haccepts hreported heffect)⟩

end Steps

/-- The server in its own order: after any run of it and its clients without failing
allocations, a client waits for a reply, takes no step, and everybody else goes on. Then
it still waits, and it can end its wait with its next step, or the server has taken fewer
steps than the rounds for the connections that were ahead need, and has one to take. -/
theorem waiting_client_served {alloc : ℕ → Bool} {ctx₀ : ServerContext} {listenFd : Int}
    {moves later : List (Move Rounds RoundEvent)} {s s' : Rounds}
    (h0 : serverCreate alloc = some ctx₀)
    (hr : Run RoundStep (.start (listening ctx₀ listenFd)) moves s)
    (hok : ∀ m ∈ moves, m.label.AllocOk) {c : ℕ} {cmd : Command}
    (hup : (s.mesh.peers c).up = true) (hpending : (s.mesh.peers c).pending = some cmd)
    (hr' : Run RoundStep s later s') (hok' : ∀ m ∈ later, m.label.AllocOk)
    (hothers : ∀ m ∈ later, ¬ m.label.isOf c) :
    (s'.mesh.peers c).pending = some cmd ∧
      ((∃ event s'', event.client = c ∧ RoundStep s' (.client event) s'' ∧
          (s''.mesh.peers c).pending = none) ∨
        (later.countP fun m => m.label.ofServer) < Rounds.roundLength * (s.ahead c + 3) ∧
          ∃ e s'', e.ofServer = true ∧ e.AllocOk ∧ RoundStep s' e s'') := by
  have h : RoundsOk s := hr.invariant (I := RoundsOk) (G := fun _ e => e.AllocOk)
    ((serverCreate_initial h0).roundsOk listenFd) (fun _ _ _ hi => hi.step) hok
  have hwaits : (s.mesh.peers c).Waits := ⟨hup, by rw [hpending, Option.isSome_some]⟩
  obtain ⟨⟨h', hwaits', hpending'⟩, hgoal⟩ := hr'.goal_or_countP_add_rank_le
    (I := fun s' => RoundsOk s' ∧ (s'.mesh.peers c).Waits ∧ (s'.mesh.peers c).pending = some cmd)
    (Q := fun s' => (s'.mesh.peers c).Answered) (G := fun _ e => e.AllocOk ∧ ¬ e.isOf c)
    RoundEvent.ofServer (Rounds.rank · c) ⟨h, hwaits, hpending⟩
    (fun s₁ e s₂ hi he hs => by
      obtain ⟨h₁, hwaits₁, hpending₁⟩ := hi
      obtain ⟨hkept, hwaits₂⟩ := (roundStep_iff.mp hs).waits he.2 hwaits₁
      exact ⟨⟨h₁.step he.1 hs, hwaits₂, hkept.trans hpending₁⟩,
        h₁.answer_nearer he.1 hs he.2 hwaits₁⟩)
    fun m hm => ⟨hok' m hm, hothers m hm⟩
  refine ⟨hpending', ?_⟩
  by_cases hanswered : (s'.mesh.peers c).Answered
  · obtain ⟨event, mesh, hclient, hof, hs, hdone⟩ := hwaits'.ends hanswered
    exact Or.inl ⟨event, s'.afterClient event mesh, hclient,
      roundStep_iff.mpr (.client hof (meshStep_iff.mp hs)), hdone⟩
  · have hcount := hgoal.resolve_left hanswered
    refine Or.inr ⟨?_, h'.server_step (h'.awaited hwaits' hanswered)⟩
    exact ((Nat.le_add_right ..).trans hcount).trans_lt (h.rank_lt c)

/-- Two clients have connected and asked for something. -/
def bothAsked : List RoundEvent :=
  let password : Password := strncpy (nameOf 0).toCStr
  [.client (.connect 0 3), .client (.connect 1 3),
    .client (.ask 0 (.register (nameOf 0) password) .blank),
    .client (.ask 1 (.login (nameOf 1) password) .blank)]

/-- The first one is accepted and served, and the second one accepted. -/
def firstServed : List RoundEvent :=
  let password : Password := strncpy (nameOf 0).toCStr
  let request := ((Command.register (nameOf 0) password).built.build .blank).getD .blank
  [.select, .accept 5 .quiet, .select, .accept 6 .quiet, .serve .quiet request,
    .client (.answer 0 (buildSuccessMsg .blank) (0, 0))]

theorem waiting_client_served_second :
    let s := playEnd (attempt runRound) (.start (listening started 3)) bothAsked
    let s' := playEnd (attempt runRound) s firstServed
    s.ahead 1 = 1 ∧ (s'.mesh.peers 0).pending = none ∧
      (s'.mesh.peers 1).pending = (s.mesh.peers 1).pending ∧
      ((∃ event s'', event.client = 1 ∧ RoundStep s' (.client event) s'' ∧
          (s''.mesh.peers 1).pending = none) ∨
        ∃ e s'', e.ofServer = true ∧ e.AllocOk ∧ RoundStep s' e s'') := by
  have hr := run_attempts runRound (.start (listening started 3)) bothAsked (by decide)
  have hr' := run_attempts runRound
    (playEnd (attempt runRound) (.start (listening started 3)) bothAsked) firstServed
    (by decide +kernel)
  have hok : ∀ e ∈ bothAsked, e.AllocOk := by simp [bothAsked, RoundEvent.AllocOk]
  have hok' : ∀ e ∈ firstServed, e.AllocOk ∧ ¬ e.isOf 1 := by
    simp [firstServed, RoundEvent.AllocOk, RoundEvent.isOf, MeshEvent.client, Env.quiet_allocOk]
  obtain ⟨cmd, hpending⟩ : ∃ cmd, ((playEnd (attempt runRound) (.start (listening started 3))
      bothAsked).mesh.peers 1).pending = some cmd := Option.isSome_iff_exists.mp (by decide)
  obtain ⟨hpending', hends⟩ := waiting_client_served serverCreate_started hr
    (fun m hm => hok _ (label_mem_of_attempts m hm)) (by decide) hpending hr'
    (fun m hm => (hok' _ (label_mem_of_attempts m hm)).1)
    fun m hm => (hok' _ (label_mem_of_attempts m hm)).2
  exact ⟨by decide, by decide +kernel, hpending'.trans hpending.symm,
    hends.imp id And.right⟩

end MeshChat
