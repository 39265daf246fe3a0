import MeshChat.Server.Blocking
import MeshChat.Server.Conversations

/-!
# Passes of the loop

What the loop does between two returns of `select`. It turns to every connection
that was reported once, in the order of the slots, and to no other; a pass is over
after a bounded number of steps, whatever the clients do; and after a signal there
is at most one more pass, so that the server comes to its end unless it waits in a
call.
-/
namespace MeshChat.Server
open Runs

/-- The program's own steps; the others happen to it. -/
def OsEvent.ours : OsEvent → Bool
  | .signal | .client _ _ => false
  | _ => true

def OsEvent.selectReturns : OsEvent → Bool
  | .select _ | .selectFails _ => true
  | _ => false

/-- No reply is longer than an address of 15 bytes makes it. -/
def replySteps : ℕ := 21

/-- The loop turns to a slot, reads a message byte by byte, dispatches it, writes the
reply byte by byte, and goes on. -/
def slotSteps : ℕ := 1 + (2 + 255) + 1 + replySteps + 1

/-- Every write takes a call for each byte, or fails. -/
def outSteps (out : List (Int × List UInt8)) : ℕ := (out.map fun w => w.2.length + 1).sum

def slotsLeft (i : ℕ) : ℕ := (maxClients - i) * slotSteps + 3

/-- No more steps than these are left before the next return of `select`. -/
def ServerStage.stepsLeft : ServerStage → ℕ
  | .socket => 5
  | .bind => 4
  | .listen => 3
  | .top => 2
  | .select => 0
  | .accept _ => 6 + slotsLeft 0
  | .slots _ i => slotsLeft i
  | .reading _ i _ got => (257 - got.length) + 1 + replySteps + 1 + slotsLeft (i + 1)
  | .sending _ out after => outSteps out + 1 + slotsLeft after.nextSlot
  | .destroy => 1
  | .done | .killed => 0

/-- No more steps than these are in a pass. -/
def passSteps : ℕ := 6 + slotsLeft 0

theorem slotsLeft_succ {i : ℕ} (hi : i < maxClients) :
    slotsLeft i = slotSteps + slotsLeft (i + 1) := by
  have hsub : maxClients - i = (maxClients - (i + 1)) + 1 := by omega
  rw [slotsLeft, slotsLeft, hsub, Nat.add_one_mul]
  omega

theorem Reply.frame_length_le (reply : Reply) : reply.frame.length ≤ 20 := by
  cases reply with
  | success => decide
  | error code => exact (by decide : 3 ≤ 20)
  | groupInfo addr =>
    have hip : addr.ip.bytes.length < 16 := addr.ip.fits
    simp only [frame, payload, groupInfoPayload, portBytes, List.length_append, List.length_cons,
      List.length_nil]
    omega

theorem outSteps_cons (w : Int × List UInt8) (out : List (Int × List UInt8)) :
    outSteps (w :: out) = w.2.length + 1 + outSteps out := List.sum_cons

theorem outSteps_sends {fd : Int} {reply : Reply} {sent : List Sent} (h : Sends fd reply sent) :
    outSteps (wires sent) ≤ replySteps := by
  have := reply.frame_length_le
  rw [h.wires, outSteps_cons]
  change reply.frame.length + 1 + 0 ≤ 21
  omega

/-- The connection that is written to. -/
def AfterSend.fd : AfterSend → Int
  | .reject fd | .reply _ fd _ => fd

/-- What the bound on the steps rests on. -/
structure Bounded (p : Process) : Prop where
  addresses : AddressesOk p.ctx
  slots : p.ctx.clientFds.length = maxClients
  inFrame : ∀ ready i fd got, p.stage = .reading ready i fd got → InFrame got
  writes : ∀ ready out after, p.stage = .sending ready out after →
    ∀ w ∈ out, w.2 ≠ [] ∧ w.1 = after.fd

theorem ProcessEffect.clientFds_length {p p' : Process} {e : OsEvent} (hs : ProcessEffect p e p') :
    p'.ctx.clientFds.length = p.ctx.clientFds.length := by
  cases hs with
  | @accepts ready env fd c _ _ _ =>
    rcases p.accepted_cases env ready fd c with ⟨i, x, -, -, heq⟩ | ⟨-, heq⟩
    · rw [heq]
      exact List.length_set
    · rw [heq]
      rfl
  | @drops ready i fd got env _ _ =>
    refine List.length_set.trans ?_
    exact congrArg List.length (cleanupClient_sameLoop env p.ctx fd).clientFds
  | @dispatches ready i fd got env into _ _ =>
    exact congrArg List.length (dispatchMessage_sameLoop env p.ctx fd (assemble into got)).clientFds
  | exits _ _ => exact List.length_set
  | destroys _ =>
    change ((Process.destroyed p.ctx).foldl Process.closeFd p).ctx.clientFds.length = _
    rw [Process.ctx_closeAll]
  | _ => rfl

/-- A message without bytes takes no write. -/
theorem wires_spec {fd : Int} {reply : Reply} {sent : List Sent} (h : Sends fd reply sent) :
    ∀ w ∈ wires sent, w.2 ≠ [] ∧ w.1 = fd := by
  rw [h.wires]
  intro w hw
  rw [List.mem_singleton.mp hw]
  exact ⟨List.cons_ne_nil _ _, rfl⟩

theorem Control.writes {p : Process} {e : OsEvent} {stage : ServerStage} (hc : Control p e stage)
    (h : ∀ ready out after, p.stage = .sending ready out after →
      ∀ w ∈ out, w.2 ≠ [] ∧ w.1 = after.fd) :
    ∀ ready out after, stage = .sending ready out after → ∀ w ∈ out, w.2 ≠ [] ∧ w.1 = after.fd := by
  intro ready' out' after' hstage'
  cases hc with
  | @wrote ready fd bytes out after c n hstage _ _ hpos hn =>
    obtain ⟨rfl, hout, rfl⟩ := ServerStage.sending.inj hstage'
    have hall := h _ _ _ hstage
    rw [List.forall_mem_cons] at hall
    subst hout
    split
    · exact hall.2
    · refine List.forall_mem_cons.mpr ⟨⟨?_, hall.1.2⟩, hall.2⟩
      rw [Ne, List.drop_eq_nil_iff]
      omega
  | gaveUp hstage =>
    cases hstage'
    exact (List.forall_mem_cons.mp (h _ _ _ hstage)).2
  | _ => cases hstage'

theorem Bounded.step {p p' : Process} {e : OsEvent} (h : Bounded p) (hs : ProcessEffect p e p') :
    Bounded p' where
  addresses := h.addresses.step hs
  slots := hs.clientFds_length.trans h.slots
  inFrame := hs.inFrame h.inFrame
  writes := by
    intro ready out after hstage
    cases hs with
    | moves hc => exact hc.writes h.writes ready out after hstage
    | signal => exact h.writes ready out after hstage
    | client _ _ => exact h.writes ready out after hstage
    | @accepts ready' env fd c _ _ _ =>
      rcases p.accepted_cases env ready' fd c with ⟨i, x, -, -, heq⟩ | ⟨-, heq⟩
      · rw [heq] at hstage
        cases hstage
      · rw [heq] at hstage
        cases hstage
        exact wires_spec (sends_error env fd .serverFull)
    | @dispatches ready' i fd got env into _ _ =>
      cases hstage
      obtain ⟨reply, hsends⟩ := h.addresses.sends env fd (assemble into got)
      exact wires_spec hsends
    | _ => cases hstage

/-- A step of the program brings it nearer to the next `select`. -/
theorem Control.stepsLeft_lt {p : Process} {e : OsEvent} {stage : ServerStage}
    (h : Control p e stage) (hslots : p.ctx.clientFds.length = maxClients)
    (he : e.selectReturns = false) : stage.stepsLeft < p.stage.stepsLeft := by
  cases h with
  | bound hstage | listens hstage | looks hstage _ | stops hstage _ =>
    rw [hstage]
    decide
  | connection _ _ _ | selected _ _ _ | interrupted _ | selectFailed _ => cases he
  | noClient hstage =>
    rw [hstage]
    simp only [ServerStage.stepsLeft]
    omega
  | wraps hstage _ =>
    rw [hstage]
    simp only [ServerStage.stepsLeft, slotsLeft]
    omega
  | @skips ready i fd hstage hslot _ | @turns ready i fd hstage hslot _ _ =>
    have hi : i < maxClients := hslots ▸ (List.getElem?_eq_some_iff.mp hslot).1
    rw [hstage]
    simp only [ServerStage.stepsLeft, slotsLeft_succ hi, slotSteps, List.length_nil]
    omega
  | @wrote ready fd bytes out after c n hstage _ _ hpos hn =>
    rw [hstage]
    simp only [ServerStage.stepsLeft, outSteps_cons]
    split
    · omega
    · rw [outSteps_cons, List.length_drop]
      omega
  | gaveUp hstage =>
    rw [hstage]
    simp only [ServerStage.stepsLeft, outSteps_cons]
    omega
  | killed hstage _ _ =>
    rw [hstage]
    simp only [ServerStage.stepsLeft]
    omega
  | kept hstage _ =>
    rw [hstage]
    simp only [ServerStage.stepsLeft, AfterSend.nextSlot]
    omega

theorem ProcessEffect.stepsLeft_lt {p p' : Process} {e : OsEvent} (hs : ProcessEffect p e p')
    (h : Bounded p) (hours : e.ours = true) (he : e.selectReturns = false) :
    p'.stage.stepsLeft < p.stage.stepsLeft := by
  cases hs with
  | moves hc => exact hc.stepsLeft_lt h.slots he
  | signal => cases hours
  | client _ _ => cases hours
  | noSocket hstage =>
    rw [hstage]
    exact (by decide : 1 < 5)
  | socket hstage _ _ =>
    rw [hstage]
    exact (by decide : 4 < 5)
  | setUpFails hfails =>
    rcases hfails with ⟨hstage, -⟩ | ⟨hstage, -⟩
    · rw [hstage]
      exact (by decide : 1 < 4)
    · rw [hstage]
      exact (by decide : 1 < 3)
  | @accepts ready env fd c hstage _ _ =>
    rw [hstage]
    rcases p.accepted_cases env ready fd c with ⟨i, x, -, -, heq⟩ | ⟨-, heq⟩
    · rw [heq]
      simp only [ServerStage.stepsLeft]
      omega
    · have hout : outSteps (wires (sendError env fd .serverFull)) = 4 := by
        rw [(sends_error env fd .serverFull).wires]
        rfl
      rw [heq]
      simp only [ServerStage.stepsLeft, AfterSend.nextSlot, hout]
      omega
  | @reads ready i fd got c n hstage _ hpos hwant hlen =>
    have hframe : InFrame (got ++ c.pending.take n) :=
      (h.inFrame _ _ _ _ hstage).read hwant (by rw [List.length_take]; exact Nat.min_le_left _ _)
    have hbyte := ((got ++ c.pending.take n).getD 1 0).toNat_lt
    unfold InFrame at hframe
    rw [hstage]
    simp only [ServerStage.stepsLeft]
    rw [List.length_append, List.length_take] at hframe ⊢
    omega
  | @drops ready i fd got env hstage _ =>
    rw [hstage]
    simp only [ServerStage.stepsLeft]
    omega
  | @dispatches ready i fd got env into hstage _ =>
    obtain ⟨reply, hsends⟩ := h.addresses.sends env fd (assemble into got)
    have hout := outSteps_sends hsends
    rw [hstage]
    simp only [ServerStage.stepsLeft, AfterSend.nextSlot]
    omega
  | rejected hstage =>
    rw [hstage]
    simp only [ServerStage.stepsLeft, AfterSend.nextSlot]
    omega
  | exits hstage _ =>
    rw [hstage]
    simp only [ServerStage.stepsLeft, AfterSend.nextSlot]
    omega
  | destroys hstage =>
    rw [hstage]
    exact Nat.zero_lt_one

/-- What happens to the program leaves it where it is. -/
theorem ProcessEffect.stage_eq {p p' : Process} {e : OsEvent} (hs : ProcessEffect p e p')
    (hours : e.ours = false) : p'.stage = p.stage := by
  cases hs with
  | moves hc => cases hc <;> cases hours
  | signal => rfl
  | client _ _ => rfl
  | setUpFails hfails => rcases hfails with ⟨-, rfl⟩ | ⟨-, rfl⟩ <;> cases hours
  | _ => cases hours

theorem ProcessEffect.steps_le {p p' : Process} {e : OsEvent} (hs : ProcessEffect p e p')
    (h : Bounded p) (he : e.selectReturns = false) :
    (if e.ours = true then 1 else 0) + p'.stage.stepsLeft ≤ p.stage.stepsLeft := by
  by_cases hours : e.ours = true
  · have hlt := hs.stepsLeft_lt h hours he
    rw [if_pos hours]
    omega
  · rw [if_neg hours, hs.stage_eq (Bool.eq_false_iff.mpr hours), Nat.zero_add]

/-- The connection that the loop turns to in a step. -/
def turnOf (m : ProcessMove) : Option Int :=
  match m.label, m.post.stage with
  | .next, .reading _ _ fd _ => some fd
  | _, _ => none

/-- The connections that were served, in order. -/
def turnsIn (moves : List ProcessMove) : List Int := moves.filterMap turnOf

/-- What `select` reported is not negative, and what is not accepted yet is open. -/
structure Reported (p : Process) : Prop where
  opened : ReadyOpen p
  nonneg : ∀ ready k, p.stage.toVisit = some (ready, k) → ∀ fd ∈ ready, 0 ≤ fd

theorem Process.ahead_eq {p : Process} {ready : List Int} {k : ℕ}
    (h : p.stage.toVisit = some (ready, k)) :
    p.ahead = (p.ctx.clientFds.drop k).filter fun fd => decide (fd ∈ ready) := by
  rw [ahead, h]

theorem Process.ahead_eq_nil {p : Process} (h : p.stage.toVisit = none) : p.ahead = [] := by
  rw [ahead, h]

theorem ahead_cons {p : Process} {ready : List Int} {i : ℕ} {fd : Int}
    (hslot : p.ctx.clientFds[i]? = some fd) :
    ((p.ctx.clientFds.drop i).filter fun fd => decide (fd ∈ ready)) =
      (if fd ∈ ready then [fd] else []) ++
        (p.ctx.clientFds.drop (i + 1)).filter fun fd => decide (fd ∈ ready) := by
  obtain ⟨hi, rfl⟩ := List.getElem?_eq_some_iff.mp hslot
  rw [List.drop_eq_getElem_cons hi, List.filter_cons]
  split <;> simp_all

/-- A new connection goes into a slot that holds none, and is not reported yet. -/
theorem filter_take {l ready : List Int} {i : ℕ} {x fd : Int} (hslot : l[i]? = some x)
    (hx : x ∉ ready) (hfd : fd ∉ ready) :
    ((l.set i fd).filter fun fd => decide (fd ∈ ready)) = l.filter fun fd => decide (fd ∈ ready) := by
  induction l generalizing i with
  | nil => rfl
  | cons y l ih =>
    cases i with
    | zero =>
      obtain rfl := Option.some.inj hslot
      rw [List.set_cons_zero, List.filter_cons_of_neg (by simpa using hfd),
        List.filter_cons_of_neg (by simpa using hx)]
    | succ i =>
      rw [List.set_cons_succ, List.filter_cons, List.filter_cons, ih hslot]

namespace Reported
variable {p p' : Process} {e : OsEvent}

theorem step (h : Reported p) (hwf : p.stage.ended = false → Wf p) (hs : ProcessEffect p e p')
    (he : e.selectReturns = false) : Reported p' := by
  refine ⟨h.opened.step hwf hs, fun ready k hk => ?_⟩
  cases hs with
  | moves hc =>
    have hselect : e.selects = false := by cases e <;> first | rfl | cases he
    obtain ⟨k₀, -, hv⟩ := (hc.pass hselect).2.1 ready k hk
    exact h.nonneg ready k₀ hv
  | signal => exact h.nonneg ready k hk
  | client _ _ => exact h.nonneg ready k hk
  | @accepts ready' env fd c hstage _ _ =>
    have hready : (p.accepted env ready' fd c).stage.toVisit = some (ready', 0) := by
      rcases p.accepted_cases env ready' fd c with ⟨i, x, -, -, heq⟩ | ⟨-, heq⟩ <;> rw [heq] <;> rfl
    obtain ⟨rfl, rfl⟩ := Prod.mk.inj (Option.some.inj (hready.symm.trans hk))
    exact h.nonneg ready' 0 (by rw [hstage]; rfl)
  | reads hstage _ _ _ _ | drops hstage _ | dispatches hstage _ | rejected hstage | exits hstage _ =>
    cases hk
    exact h.nonneg _ _ (by rw [hstage]; rfl)
  | _ => cases hk

/-- The turns and the connections that are still ahead. -/
theorem turn (h : Reported p) (hs : ProcessEffect p e p') (he : e.selectReturns = false)
    (hended : p'.stage.ended = false) : (turnOf ⟨p, e, p'⟩).toList ++ p'.ahead = p.ahead := by
  cases hs with
  | moves hc =>
    cases hc with
    | connection _ _ _ | selected _ _ _ | interrupted _ | selectFailed _ => cases he
    | bound hstage | listens hstage | looks hstage _ | stops hstage _ =>
      rw [p.ahead_eq_nil (by rw [hstage]; rfl)]
      rfl
    | noClient hstage =>
      rw [p.ahead_eq (by rw [hstage]; rfl)]
      rfl
    | wraps hstage hslot =>
      rw [p.ahead_eq (by rw [hstage]; rfl), List.drop_eq_nil_of_le (List.getElem?_eq_none_iff.mp hslot)]
      rfl
    | @skips ready i fd hstage hslot hskip =>
      have hnot : fd ∉ ready := by
        intro hfd
        have hpos := h.nonneg ready i (by rw [hstage]; rfl) fd hfd
        exact hskip.elim (not_lt.mpr hpos) fun hnot => hnot hfd
      rw [p.ahead_eq (by rw [hstage]; rfl), ahead_cons hslot, if_neg hnot]
      rfl
    | @turns ready i fd hstage hslot _ hfd =>
      rw [p.ahead_eq (by rw [hstage]; rfl), ahead_cons hslot, if_pos hfd]
      rfl
    | wrote hstage _ _ _ _ | gaveUp hstage | kept hstage _ =>
      rw [p.ahead_eq (by rw [hstage]; rfl)]
      rfl
    | killed _ _ _ => cases hended
  | signal => rfl
  | client _ _ => rfl
  | noSocket hstage | socket hstage _ _ =>
    rw [p.ahead_eq_nil (by rw [hstage]; rfl)]
    rfl
  | setUpFails hfails =>
    have hnone : p.stage.toVisit = none := by rcases hfails with ⟨hs, -⟩ | ⟨hs, -⟩ <;> rw [hs] <;> rfl
    rw [p.ahead_eq_nil hnone]
    rcases hfails with ⟨-, rfl⟩ | ⟨-, rfl⟩ <;> rfl
  | @accepts ready env fd c hstage hpos hfree =>
    have hnew : fd ∉ ready := fun hfd => h.opened ready hstage fd hfd hpos hfree
    have hnone : turnOf ⟨p, .accept env (some (fd, c)), p.accepted env ready fd c⟩ = none := rfl
    have hvisit : p.stage.toVisit = some (ready, 0) := by rw [hstage]; rfl
    rw [hnone, p.ahead_eq hvisit]
    rcases p.accepted_cases env ready fd c with ⟨i, x, hslot, hx, heq⟩ | ⟨-, heq⟩
    · have hold : x ∉ ready := fun hmem => absurd (h.nonneg ready 0 hvisit x hmem) (not_le.mpr hx)
      rw [heq]
      exact filter_take hslot hold hnew
    · rw [heq]
      rfl
  | reads hstage _ _ _ _ =>
    rw [p.ahead_eq (by rw [hstage]; rfl)]
    rfl
  | @drops ready i fd got env hstage _ =>
    have hdrop : ((cleanupClient env p.ctx fd).clientFds.set i (-1)).drop (i + 1) =
        p.ctx.clientFds.drop (i + 1) := by
      rw [(cleanupClient_sameLoop env p.ctx fd).clientFds, List.drop_set_of_lt (Nat.lt_succ_self i)]
    rw [p.ahead_eq (by rw [hstage]; rfl), Process.ahead_eq rfl]
    exact congrArg (List.filter fun fd => decide (fd ∈ ready)) hdrop
  | @dispatches ready i fd got env into hstage _ =>
    rw [p.ahead_eq (by rw [hstage]; rfl), Process.ahead_eq rfl]
    exact congrArg (fun fds : List Int => (fds.drop (i + 1)).filter fun fd => decide (fd ∈ ready))
      (dispatchMessage_sameLoop env p.ctx fd (assemble into got)).clientFds
  | rejected hstage =>
    rw [p.ahead_eq (by rw [hstage]; rfl)]
    rfl
  | @exits ready i fd ret hstage _ =>
    have hdrop : (p.ctx.clientFds.set i (-1)).drop (i + 1) = p.ctx.clientFds.drop (i + 1) :=
      List.drop_set_of_lt (Nat.lt_succ_self i)
    rw [p.ahead_eq (by rw [hstage]; rfl), Process.ahead_eq rfl]
    exact congrArg (List.filter fun fd => decide (fd ∈ ready)) hdrop
  | destroys hstage => cases hended

end Reported

/-- After the set-up neither `bind` nor `listen` is called. -/
theorem ProcessEffect.failsSetUp_eq {p p' : Process} {e : OsEvent} (hs : ProcessEffect p e p')
    (hset : p.stage.settingUp = false) : e.failsSetUp = false := by
  cases hs with
  | moves hc => cases hc <;> rfl
  | setUpFails hfails =>
    rcases hfails with ⟨hstage, -⟩ | ⟨hstage, -⟩ <;> (rw [hstage] at hset; cases hset)
  | _ => rfl

theorem Control.in_loop {p : Process} {e : OsEvent} {stage : ServerStage} (h : Control p e stage) :
    p.stage ≠ .socket ∧ p.stage.leftLoop = false := by
  cases h <;> simp_all [ServerStage.leftLoop]

/-- Between the set-up and the end `listen_fd` holds a descriptor. -/
theorem ProcessEffect.listens {p p' : Process} {e : OsEvent} (hs : ProcessEffect p e p')
    (h : p.stage = .socket ∨ p.stage.leftLoop = true ∨ 0 ≤ p.ctx.listenFd) :
    p'.stage = .socket ∨ p'.stage.leftLoop = true ∨ 0 ≤ p'.ctx.listenFd := by
  have hkeep : p.stage ≠ .socket → p.stage.leftLoop = false → p'.ctx.listenFd = p.ctx.listenFd →
      p'.stage = .socket ∨ p'.stage.leftLoop = true ∨ 0 ≤ p'.ctx.listenFd := by
    intro hsocket hloop hsame
    rw [hsame]
    refine Or.inr (Or.inr ((h.resolve_left hsocket).resolve_left ?_))
    rw [hloop]
    exact Bool.false_ne_true
  cases hs with
  | moves hc => exact hkeep hc.in_loop.1 hc.in_loop.2 rfl
  | signal => exact h
  | client _ _ => exact h
  | noSocket _ => exact Or.inr (Or.inl rfl)
  | socket _ hpos _ => exact Or.inr (Or.inr hpos)
  | setUpFails _ => exact Or.inr (Or.inl rfl)
  | @accepts ready env fd c hstage _ _ =>
    refine hkeep (by rw [hstage]; nofun) (by rw [hstage]; rfl) ?_
    rcases p.accepted_cases env ready fd c with ⟨i, x, -, -, heq⟩ | ⟨-, heq⟩ <;> rw [heq] <;> rfl
  | reads hstage _ _ _ _ | rejected hstage | exits hstage _ =>
    exact hkeep (by rw [hstage]; nofun) (by rw [hstage]; rfl) rfl
  | @drops ready i fd got env hstage _ =>
    exact hkeep (by rw [hstage]; nofun) (by rw [hstage]; rfl)
      (cleanupClient_sameLoop env p.ctx fd).listenFd
  | @dispatches ready i fd got env into hstage _ =>
    exact hkeep (by rw [hstage]; nofun) (by rw [hstage]; rfl)
      (dispatchMessage_sameLoop env p.ctx fd (assemble into got)).listenFd
  | destroys _ => exact Or.inr (Or.inl rfl)

section Run
variable {alloc : ℕ → Bool} {ctx₀ : ServerContext} {p p' q : Process}
  {moves moves' : List ProcessMove} {ready : List Int}

theorem bounded_of_run (h0 : serverCreate alloc = some ctx₀)
    (hr : Run ProcessStep (booted ctx₀) moves p) : Bounded p := by
  have hlen : ctx₀.clientFds.length = maxClients := by
    rw [(serverCreate_initial h0).clientFds, List.length_replicate]
  refine hr.invariant (I := Bounded) (G := fun _ _ => True)
    ⟨addressesOk_of_run h0 .start, hlen, fun _ _ _ _ hstage => by simp [booted] at hstage,
      fun _ _ _ hstage => by simp [booted] at hstage⟩
    (fun p e p' hi _ hs => hi.step (processStep_effect hs)) fun _ _ => trivial

/-- While the loop runs, the set-up has not failed. -/
theorem descriptorsOk_in_loop (h0 : serverCreate alloc = some ctx₀)
    (hr : Run ProcessStep (booted ctx₀) moves p) (hloop : p.stage.leftLoop = false) :
    DescriptorsOk p := by
  rcases setUp_of_run (serverCreate_initial h0).clientFds_neg hr with ⟨hset, -⟩ | ⟨-, hfailed⟩
  · exact descriptorsOk_of_run h0 hr hset
  · cases hfailed with
    | closed hstage _ _ _ | done hstage _ =>
      rw [hstage] at hloop
      cases hloop

theorem listenFd_in_loop (hr : Run ProcessStep (booted ctx₀) moves p) (hsocket : p.stage ≠ .socket)
    (hloop : p.stage.leftLoop = false) : 0 ≤ p.ctx.listenFd := by
  have hlistens : p.stage = .socket ∨ p.stage.leftLoop = true ∨ 0 ≤ p.ctx.listenFd := by
    refine hr.invariant (G := fun _ _ => True)
      (I := fun p => p.stage = .socket ∨ p.stage.leftLoop = true ∨ 0 ≤ p.ctx.listenFd)
      (Or.inl rfl) (fun p e p' hi _ hs => (processStep_effect hs).listens hi) fun _ _ => trivial
  refine (hlistens.resolve_left hsocket).resolve_left ?_
  rw [hloop]
  exact Bool.false_ne_true

/-- The state in which `select` has returned. -/
structure Selected (p p' : Process) (ready : List Int) : Prop where
  left : p'.stage.leftLoop = false
  setUp : p'.stage.settingUp = false
  reported : Reported p'
  visits : p'.stage.toVisit = some (ready, 0)
  ahead : p'.ahead = p.ctx.clientFds.filter fun fd => decide (fd ∈ ready)
  steps : p'.stage.stepsLeft ≤ passSteps

theorem selected_of_step (hwf : Wf p) (hlisten : 0 ≤ p.ctx.listenFd)
    (hs : ProcessStep p (.select ready) p') : Selected p p' ready := by
  have hnonneg : p.Reportable ready → p.stage = .select → ∀ fd ∈ ready, 0 ≤ fd := by
    intro hreport hstage fd hfd
    rcases hreport fd hfd with rfl | ⟨-, hconn⟩
    · exact hlisten
    · obtain ⟨c, hc, -⟩ := (Option.any_eq_true _ _).mp hconn
      rcases (hwf.conns fd).mp (Option.isSome_iff_exists.mpr ⟨c, hc⟩) with ⟨hpos, -⟩ | hrej
      · exact hpos
      · rw [hstage] at hrej
        cases hrej
  cases processStep_effect hs with
  | moves hc =>
    cases hc with
    | connection hstage hreport _ =>
      refine ⟨rfl, rfl, ⟨fun ready' he => ?_, fun ready' k hk => ?_⟩, rfl, rfl, le_rfl⟩
      · cases he
        exact ReadyOpen.of_reportable hwf hreport
      · cases hk
        exact hnonneg hreport hstage
    | selected hstage hreport _ =>
      refine ⟨rfl, rfl, ⟨nofun, fun ready' k hk => ?_⟩, rfl, rfl, Nat.le_add_left _ _⟩
      cases hk
      exact hnonneg hreport hstage
  | setUpFails hfails => rcases hfails with ⟨-, he⟩ | ⟨-, he⟩ <;> cases he

theorem select_stage {e : OsEvent} (hs : ProcessEffect p e p') (he : e.selectReturns = true) :
    p.stage = .select := by
  cases hs with
  | moves hc => cases hc <;> first | assumption | cases he
  | setUpFails hfails => rcases hfails with ⟨-, rfl⟩ | ⟨-, rfl⟩ <;> cases he
  | _ => cases he

/-- What holds of the process in a pass. -/
structure OnPass (p : Process) : Prop where
  descriptors : DescriptorsOk p
  bounded : Bounded p
  reported : Reported p
  setUp : p.stage.settingUp = false

theorem OnPass.step {e : OsEvent} (h : OnPass p) (he : e.selectReturns = false)
    (hs : ProcessStep p e p') : OnPass p' := by
  have heffect := processStep_effect hs
  refine ⟨h.descriptors.step (heffect.failsSetUp_eq h.setUp) hs, h.bounded.step heffect,
    h.reported.step h.descriptors.wf heffect he, ?_⟩
  by_contra hset
  have hbefore := (heffect.settingUp (Bool.not_eq_false _ ▸ hset)).1
  rw [h.setUp] at hbefore
  cases hbefore

/-- One pass of the loop. The connections that `select` reported in a slot are distinct,
and while the pass lasts, those to which the loop has turned and those that are still
ahead are together exactly these, in the order of the slots, whatever is accepted and
closed meanwhile; when the pass is over, each has had one turn. A pass has at most
`passSteps` steps of the program. -/
theorem pass_serves_reported (h0 : serverCreate alloc = some ctx₀)
    (hr : Run ProcessStep (booted ctx₀) moves p) (hselect : ProcessStep p (.select ready) p')
    (hr' : Run ProcessStep p' moves' q)
    (hpass : ∀ m ∈ moves', m.label.selectReturns = false) :
    (p.ctx.clientFds.filter fun fd => decide (fd ∈ ready)).Nodup ∧
      (q.stage.ended = false →
        turnsIn moves' ++ q.ahead = p.ctx.clientFds.filter fun fd => decide (fd ∈ ready)) ∧
      (q.stage = .top → turnsIn moves' = p.ctx.clientFds.filter fun fd => decide (fd ∈ ready)) ∧
      (moves'.countP fun m => m.label.ours) ≤ passSteps := by
  have hstage : p.stage = .select := select_stage (processStep_effect hselect) rfl
  have hwf : Wf p :=
    (descriptorsOk_in_loop h0 hr (by rw [hstage]; rfl)).wf (by rw [hstage]; rfl)
  have hsel := selected_of_step hwf
    (listenFd_in_loop hr (by rw [hstage]; nofun) (by rw [hstage]; rfl)) hselect
  have hstart : OnPass p' := ⟨descriptorsOk_in_loop h0 (hr.snoc hselect) hsel.left,
    bounded_of_run h0 (hr.snoc hselect), hsel.reported, hsel.setUp⟩
  have hturns : q.stage.ended = false →
      turnsIn moves' ++ q.ahead = p.ctx.clientFds.filter fun fd => decide (fd ∈ ready) := by
    have hall := hr'.history (G := fun _ e => e.selectReturns = false)
      (I := fun moves' q => OnPass q ∧ (q.stage.ended = false → turnsIn moves' ++ q.ahead = p'.ahead))
      ⟨hstart, fun _ => rfl⟩ (fun moves' s e t hi he hs => ?_) hpass
    · rw [← hsel.ahead]
      exact hall.2
    · have heffect := processStep_effect hs
      refine ⟨hi.1.step he hs, fun hended => ?_⟩
      have hone : turnsIn [⟨s, e, t⟩] = (turnOf ⟨s, e, t⟩).toList := by
        rw [turnsIn, List.filterMap_cons, List.filterMap_nil]
        cases turnOf ⟨s, e, t⟩ <;> rfl
      have hturn := hi.1.reported.turn heffect he hended
      rw [← hone] at hturn
      rw [turnsIn, List.filterMap_append, List.append_assoc]
      exact (congrArg (turnsIn moves' ++ ·) hturn).trans (hi.2 (heffect.ended_before hended))
  refine ⟨?_, hturns, fun htop => ?_, ?_⟩
  · refine hwf.slots.nodup.sublist (List.monotone_filter_right _ fun fd hfd => ?_)
    exact decide_eq_true (hsel.reported.nonneg ready 0 hsel.visits fd (of_decide_eq_true hfd))
  · have hdone := hturns (by rw [htop]; rfl)
    rwa [q.ahead_eq_nil (by rw [htop]; rfl), List.append_nil] at hdone
  · have hcount := hr'.countP_add_rank_le (I := OnPass) (G := fun _ e => e.selectReturns = false)
      OsEvent.ours (fun s => s.stage.stepsLeft) hstart
      (fun s e t hi he hs => ⟨hi.step he hs, (processStep_effect hs).steps_le hi.bounded he⟩) hpass
    exact (le_of_add_le_left hcount.2).trans hsel.steps

end Run

/-- Two clients that log out in one pass. -/
def twoTurns : List OsEvent :=
  let turn : List OsEvent := [.next, .read 2, .dispatch .quiet .blank, .write 3, .next]
  turn ++ turn ++ List.replicate (maxClients - 1) .next

theorem pass_serves_reported_two :
    turnsIn (play (attempt Process.step) twoLogouts twoTurns) = [4, 5] := by
  have hpass := pass_serves_reported serverCreate_started
    (run_process (twoClients [3, 0]) (by decide +kernel))
    (attempt_of_isSome Process.step _ (.select [4, 5]) (by decide +kernel))
    (run_attempts Process.step _ twoTurns (by decide +kernel)) (by decide)
  rw [twoLogouts, hpass.2.2.1 (by decide +kernel)]
  decide +kernel

section Stop
variable {alloc : ℕ → Bool} {ctx₀ : ServerContext} {p p' q : Process}
  {moves moves' : List ProcessMove} {ready : List Int}

/-- Once cleared, the flag stays cleared. -/
theorem ProcessEffect.running_eq {e : OsEvent} (hs : ProcessEffect p e p')
    (h : p.ctx.running = false) : p'.ctx.running = false := by
  cases hs with
  | signal => rfl
  | @accepts ready env fd c _ _ _ =>
    rcases p.accepted_cases env ready fd c with ⟨i, x, -, -, heq⟩ | ⟨-, heq⟩ <;> (rw [heq]; exact h)
  | @drops ready i fd got env _ _ => exact (cleanupClient_sameLoop env p.ctx fd).running.trans h
  | @dispatches ready i fd got env into _ _ =>
    exact (dispatchMessage_sameLoop env p.ctx fd (assemble into got)).running.trans h
  | destroys _ => exact (congrArg ServerContext.running (Process.ctx_closeAll p _)).trans h
  | _ => exact h

/-- Without the flag the loop does not come to `select` again. -/
theorem ProcessEffect.ne_select {e : OsEvent} (hs : ProcessEffect p e p')
    (h : p.ctx.running = false) (hours : e.ours = true) : p'.stage ≠ .select := by
  cases hs with
  | moves hc =>
    cases hc with
    | looks _ hrun => rw [h] at hrun; cases hrun
    | _ => nofun
  | signal => cases hours
  | client _ _ => cases hours
  | @accepts ready env fd c _ _ _ =>
    intro hselect
    have hpass := p.accepted_passing env ready fd c
    rw [hselect] at hpass
    cases hpass
  | _ => nofun

/-- `select` returns into a pass, or leaves none. -/
theorem ProcessEffect.stepsLeft_le {e : OsEvent} (hs : ProcessEffect p e p')
    (he : e.selectReturns = true) : p'.stage.stepsLeft ≤ passSteps := by
  have hmany : 2 ≤ passSteps := by decide
  cases hs with
  | moves hc =>
    cases hc with
    | connection _ _ _ => exact le_rfl
    | selected _ _ _ => exact Nat.le_add_left _ _
    | interrupted _ => exact hmany
    | selectFailed _ => exact (Nat.le_succ 1).trans hmany
    | _ => cases he
  | setUpFails hfails => rcases hfails with ⟨-, rfl⟩ | ⟨-, rfl⟩ <;> cases he
  | _ => cases he

theorem stepsLeft_le_of_run (h0 : serverCreate alloc = some ctx₀)
    (hr : Run ProcessStep (booted ctx₀) moves p) : p.stage.stepsLeft ≤ passSteps := by
  have hall : Bounded p ∧ p.stage.stepsLeft ≤ passSteps := by
    refine hr.invariant (I := fun p => Bounded p ∧ p.stage.stepsLeft ≤ passSteps)
      (G := fun _ _ => True)
      ⟨bounded_of_run h0 .start, show 5 ≤ passSteps by decide⟩ (fun p e p' hi _ hs => ?_)
      fun _ _ => trivial
    have heffect := processStep_effect hs
    refine ⟨hi.1.step heffect, ?_⟩
    cases he : e.selectReturns with
    | true => exact heffect.stepsLeft_le he
    | false => exact (le_of_add_le_right (heffect.steps_le hi.1 he)).trans hi.2
  exact hall.2

/-- No more steps than these are left when the flag is cleared. -/
def stopSteps (p : Process) : ℕ := if p.stage = .select then passSteps + 1 else p.stage.stepsLeft

theorem ProcessEffect.stopSteps_le {e : OsEvent} (hs : ProcessEffect p e p') (h : Bounded p)
    (hrun : p.ctx.running = false) :
    (if e.ours = true then 1 else 0) + stopSteps p' ≤ stopSteps p := by
  by_cases hours : e.ours = true
  · rw [if_pos hours, stopSteps, if_neg (hs.ne_select hrun hours), stopSteps]
    cases he : e.selectReturns with
    | true =>
      have hsteps := hs.stepsLeft_le he
      rw [if_pos (select_stage hs he)]
      omega
    | false =>
      have hlt := hs.stepsLeft_lt h hours he
      by_cases hstage : p.stage = .select
      · rw [hstage] at hlt
        exact absurd hlt (Nat.not_lt_zero _)
      · rw [if_neg hstage]
        omega
  · rw [if_neg hours, stopSteps, hs.stage_eq (Bool.eq_false_iff.mpr hours), stopSteps, Nat.zero_add]

theorem ProcessEffect.selects_le {e : OsEvent} (hs : ProcessEffect p e p')
    (hrun : p.ctx.running = false) :
    (if e.selectReturns = true then 1 else 0) + (if p'.stage = .select then 1 else 0) ≤
      if p.stage = .select then 1 else 0 := by
  by_cases hours : e.ours = true
  · rw [if_neg (hs.ne_select hrun hours)]
    split
    · rename_i he
      rw [if_pos (select_stage hs he)]
    · exact Nat.zero_le _
  · have he : e.selectReturns = false := by cases e <;> first | rfl | exact absurd rfl hours
    rw [hs.stage_eq (Bool.eq_false_iff.mpr hours), if_neg (by rw [he]; exact Bool.false_ne_true),
      Nat.zero_add]

/-- A `read` fails only at the end of a connection, and a `write` does not. -/
def Process.Expected (p : Process) : OsEvent → Prop
  | .readFails _ => ∃ fd c, p.stage.source = some fd ∧ p.conn fd = some c ∧
      (c.eof = true ∨ c.reset = true)
  | .writeFails => False
  | _ => True

/-- The program can take a step of its own. -/
def Process.GoesOn (p : Process) : Prop :=
  ∃ e, e.ours = true ∧ p.Expected e ∧ (p.step e).isSome = true

/-- The program gets on with a connection, unless it waits in a `read`. -/
theorem goesOn_reading {i : ℕ} {fd : Int} {got : List UInt8}
    (hstage : p.stage = .reading ready i fd got) (hwf : Wf p) : p.blocked = true ∨ p.GoesOn := by
  obtain ⟨c, hc⟩ := Option.isSome_iff_exists.mp (hwf.serving_open (by rw [hstage]; rfl))
  by_cases hwant : wanted got = 0
  · exact Or.inr ⟨.dispatch .quiet .blank, rfl, trivial, by simp [Process.step, hstage, hwant]⟩
  · by_cases hnil : c.pending = []
    · by_cases hend : c.eof = true ∨ c.reset = true
      · refine Or.inr ⟨.readFails .quiet, rfl, ⟨fd, c, by rw [hstage]; rfl, hc, hend⟩, ?_⟩
        simp [Process.step, hstage, hwant]
      · refine Or.inl (Process.blocked_eq_true.mpr ⟨_, _, _, _, c, hstage, hwant, hc, ?_⟩)
        rw [not_or, Bool.not_eq_true, Bool.not_eq_true] at hend
        rw [Conn.readable, hnil, hend.1, hend.2]
        rfl
    · have hpos : 1 ≤ c.pending.length := List.length_pos_iff.mpr hnil
      have hwant' : 1 ≤ wanted got := Nat.one_le_iff_ne_zero.mpr hwant
      exact Or.inr ⟨.read 1, rfl, trivial, by simp [Process.step, hstage, hc, hwant', hpos]⟩

theorem goesOn_sending {out : List (Int × List UInt8)} {after : AfterSend}
    (hstage : p.stage = .sending ready out after) (hwf : Wf p) (h : Bounded p) : p.GoesOn := by
  have hopen : (p.conn after.fd).isSome = true := by
    cases after with
    | reject fd => exact (hwf.conns fd).mpr (Or.inr (by rw [hstage]; rfl))
    | reply i fd ret => exact hwf.serving_open (by rw [hstage]; rfl)
  obtain ⟨c, hc⟩ := Option.isSome_iff_exists.mp hopen
  cases out with
  | nil =>
    refine ⟨.next, rfl, trivial, ?_⟩
    rw [Process.step, Process.next, hstage]
    cases after with
    | reject fd => rfl
    | reply i fd ret =>
      dsimp only
      split <;> rfl
  | cons w out =>
    obtain ⟨fd, bytes⟩ := w
    obtain ⟨hne, rfl⟩ := h.writes _ _ _ hstage _ List.mem_cons_self
    cases hreset : c.reset with
    | true => exact ⟨.sigpipe, rfl, trivial, by simp [Process.step, hstage, hc, hreset]⟩
    | false =>
      have hpos : 0 < bytes.length := List.length_pos_iff.mpr hne
      exact ⟨.write bytes.length, rfl, trivial, by simp [Process.step, hstage, hc, hreset, hpos]⟩

/-- Wherever the process is, it has ended, it waits in `select` or in a `read`, or it
goes on. -/
theorem waits_or_goesOn (hwf : p.stage.leftLoop = false → p.stage.ended = false → Wf p)
    (h : Bounded p) :
    p.stage.ended = true ∨ p.stage = .select ∨ p.blocked = true ∨ p.GoesOn := by
  cases hstage : p.stage with
  | done => exact Or.inl rfl
  | killed => exact Or.inl rfl
  | select => exact Or.inr (Or.inl rfl)
  | reading ready i fd got =>
    have hwf' := hwf (by rw [hstage]; rfl) (by rw [hstage]; rfl)
    exact Or.inr (Or.inr (goesOn_reading hstage hwf'))
  | sending ready out after =>
    have hwf' := hwf (by rw [hstage]; rfl) (by rw [hstage]; rfl)
    exact Or.inr (Or.inr (Or.inr (goesOn_sending hstage hwf' h)))
  | socket =>
    exact Or.inr (Or.inr (Or.inr ⟨.socket none, rfl, trivial, by simp [Process.step, hstage]⟩))
  | bind =>
    exact Or.inr (Or.inr (Or.inr ⟨.bind true, rfl, trivial, by simp [Process.step, hstage]⟩))
  | listen =>
    exact Or.inr (Or.inr (Or.inr ⟨.listen true, rfl, trivial, by simp [Process.step, hstage]⟩))
  | accept ready =>
    exact Or.inr (Or.inr (Or.inr
      ⟨.accept .quiet none, rfl, trivial, by simp [Process.step, hstage]⟩))
  | top =>
    exact Or.inr (Or.inr (Or.inr
      ⟨.next, rfl, trivial, by simp [Process.step, Process.next, hstage]⟩))
  | destroy =>
    exact Or.inr (Or.inr (Or.inr
      ⟨.next, rfl, trivial, by simp [Process.step, Process.next, hstage]⟩))
  | slots ready i =>
    refine Or.inr (Or.inr (Or.inr ⟨.next, rfl, trivial, ?_⟩))
    rw [Process.step, Process.next, hstage]
    dsimp only
    split
    · rfl
    · split <;> rfl

/-- Shutting down. When the flag has been cleared, which is all that the handler of
`SIGINT` and `SIGTERM` does, the program takes at most `passSteps + 1` more steps and
returns from `select` at most once more, whatever the clients do; and unless it has
ended it goes on, or it waits in `select` or in a `read`. -/
theorem shutdown_bounded (h0 : serverCreate alloc = some ctx₀)
    (hr : Run ProcessStep (booted ctx₀) moves p) (hrun : p.ctx.running = false)
    (hr' : Run ProcessStep p moves' q) :
    (moves'.countP fun m => m.label.ours) ≤ passSteps + 1 ∧
      (moves'.countP fun m => m.label.selectReturns) ≤ 1 ∧
      (q.stage.ended = true ∨ q.stage = .select ∨ q.blocked = true ∨ q.GoesOn) := by
  have hstart : Bounded p ∧ p.ctx.running = false := ⟨bounded_of_run h0 hr, hrun⟩
  have hkeep : ∀ s e t, Bounded s ∧ s.ctx.running = false → ProcessStep s e t →
      Bounded t ∧ t.ctx.running = false := fun s e t hi hs =>
    ⟨hi.1.step (processStep_effect hs), (processStep_effect hs).running_eq hi.2⟩
  refine ⟨?_, ?_, ?_⟩
  · have hcount := (hr'.countP_add_rank_le (I := fun s => Bounded s ∧ s.ctx.running = false)
      (G := fun _ _ => True) OsEvent.ours stopSteps hstart
      (fun s e t hi _ hs => ⟨hkeep s e t hi hs, (processStep_effect hs).stopSteps_le hi.1 hi.2⟩)
      fun _ _ => trivial).2
    have hfirst : stopSteps p ≤ passSteps + 1 := by
      have := stepsLeft_le_of_run h0 hr
      unfold stopSteps
      split <;> omega
    exact (le_of_add_le_left hcount).trans hfirst
  · have hcount := (hr'.countP_add_rank_le (I := fun s => Bounded s ∧ s.ctx.running = false)
      (G := fun _ _ => True) OsEvent.selectReturns
      (fun s => if s.stage = .select then 1 else 0) hstart
      (fun s e t hi _ hs => ⟨hkeep s e t hi hs, (processStep_effect hs).selects_le hi.2⟩)
      fun _ _ => trivial).2
    have hfirst : (if p.stage = .select then 1 else 0) ≤ 1 := by split <;> omega
    exact (le_of_add_le_left hcount).trans hfirst
  · refine waits_or_goesOn (fun hloop hended => ?_) (bounded_of_run h0 (hr.append hr'))
    exact (descriptorsOk_in_loop h0 (hr.append hr') hloop).wf hended

end Stop

/-- The signal arrives when `select` has just reported a client's logout. -/
def signalled : List OsEvent :=
  List.flatten [listeningEvents, .accept .quiet (some (4, ⟨[3, 0], false, false⟩)) :: idleSlots,
    [.next, .select [4], .signal]]

/-- The rest of the pass, in which the client is served, and then the end. -/
def lastPass : List OsEvent :=
  List.flatten [[.next, .read 2, .dispatch .quiet .blank, .write 3, .next],
    List.replicate maxClients .next, [.next, .next]]

theorem shutdown_bounded_last_pass :
    ((play (attempt Process.step) (processAfter signalled) lastPass).countP fun m => m.label.ours) ≤
        passSteps + 1 ∧
      (playEnd (attempt Process.step) (processAfter signalled) lastPass).stage = .done := by
  have hstop := shutdown_bounded serverCreate_started (run_process signalled (by decide +kernel))
    (by decide) (run_attempts Process.step _ lastPass (by decide +kernel))
  exact ⟨hstop.1, by decide +kernel⟩

end MeshChat.Server
