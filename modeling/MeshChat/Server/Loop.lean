import MeshChat.Server.Calls

/-!
# The server loop

The events of the `select` loop of `server_run`, one at a time and in any
order: a connection is accepted, a message is read from a connection in
`client_fds`, or a read fails. The operating system may hand out any descriptor
that is not open.
-/
namespace MeshChat.Server
open Runs

inductive Event where
  | accept (fd : Int)
  | request (fd : Int) (msg : TLVMessage)
  | eof (fd : Int)

/-- The first entry of `client_fds` that passes a test; the length if none does. -/
def findSlot (clientFds : List Int) (p : Int → Bool) : ℕ := clientFds.findIdx p

def setSlot (ctx : ServerContext) (slot : ℕ) (fd : Int) : ServerContext :=
  { ctx with clientFds := ctx.clientFds.set slot fd }

/-- A new connection takes the first free slot, or is told that there is none. -/
def acceptClient (env : Env) (ctx : ServerContext) (newFd : Int) : ServerContext × List Sent :=
  let slot := findSlot ctx.clientFds fun fd => decide (fd < 0)
  if slot < ctx.clientFds.length then (setSlot ctx slot newFd, [])
  else (ctx, sendError env newFd .serverFull)

/-- A message read from the connection in a slot. -/
def serveClient (env : Env) (ctx : ServerContext) (slot : ℕ) (fd : Int) (msg : TLVMessage) :
    ServerContext × List Sent :=
  let r := dispatchMessage env ctx fd msg
  if r.2.2 < 0 then (setSlot r.1 slot (-1), r.2.1) else (r.1, r.2.1)

/-- A failed read from the connection in a slot. -/
def dropClient (env : Env) (ctx : ServerContext) (slot : ℕ) (fd : Int) : ServerContext :=
  setSlot (clientDisconnected env ctx fd) slot (-1)

/-- One event of the loop, where it is possible. -/
def runEvent (env : Env) (ctx : ServerContext) : Event → Option (ServerContext × List Sent)
  | .accept fd =>
      if 0 ≤ fd ∧ fd ≠ ctx.listenFd ∧ fd ∉ ctx.clientFds then some (acceptClient env ctx fd)
      else none
  | .request fd msg =>
      if 0 ≤ fd ∧ fd ∈ ctx.clientFds then
        some (serveClient env ctx (findSlot ctx.clientFds fun c => decide (c = fd)) fd msg)
      else none
  | .eof fd =>
      if 0 ≤ fd ∧ fd ∈ ctx.clientFds then
        some (dropClient env ctx (findSlot ctx.clientFds fun c => decide (c = fd)) fd, [])
      else none

/-- An event with what the environment decided during it and what was sent. -/
structure LoopLabel where
  env : Env
  event : Event
  sent : List Sent

def LoopStep (ctx : ServerContext) (label : LoopLabel) (ctx' : ServerContext) : Prop :=
  runEvent label.env ctx label.event = some (ctx', label.sent)

/-- The context when the loop starts: `server_create` and then the listening socket. -/
def listening (ctx : ServerContext) (listenFd : Int) : ServerContext := { ctx with listenFd }

abbrev LoopMove := Move ServerContext LoopLabel

namespace Event

/-- The event makes the server end the session on `fd`. -/
def ends (fd : Int) : Event → Prop
  | .request fd' msg => fd' = fd ∧ (Request.ofMsg msg).endsSession
  | .eof fd' => fd' = fd
  | .accept _ => False

/-- The event is the acceptance of a connection as `fd`. -/
def accepts (fd : Int) : Event → Prop
  | .accept fd' => fd' = fd
  | _ => False

theorem ends_unique {event : Event} {fd fd' : Int} (h : event.ends fd) (h' : event.ends fd') :
    fd = fd' := by
  cases event with
  | accept => cases h
  | request => exact h.1.symm.trans h'.1
  | eof => exact h.symm.trans h'

end Event

section Slots
variable {clientFds : List Int} {fd fd' : Int} {slot : ℕ}

/-- Overwriting another slot does not drop a descriptor. -/
theorem mem_set_of_ne (h : fd ∈ clientFds) (hne : clientFds[slot]? ≠ some fd) :
    fd ∈ clientFds.set slot fd' := by
  obtain ⟨i, hi, rfl⟩ := List.getElem_of_mem h
  have his : slot ≠ i := by
    rintro rfl
    exact hne (List.getElem?_eq_getElem hi)
  refine List.mem_of_getElem? (i := i) ?_
  rw [List.getElem?_set_ne his, List.getElem?_eq_getElem hi]

theorem getElem?_findSlot (p : Int → Bool) {x : Int}
    (h : clientFds[findSlot clientFds p]? = some x) : p x = true := by
  rw [findSlot, KeyedList.getElem?_findIdx] at h
  exact List.find?_some h

/-- Accepting keeps every connection. -/
theorem mem_acceptClient {env : Env} {ctx : ServerContext} (h : fd ∈ ctx.clientFds) (hfd : 0 ≤ fd)
    (newFd : Int) : fd ∈ (acceptClient env ctx newFd).1.clientFds := by
  unfold acceptClient
  dsimp only
  split
  · apply mem_set_of_ne h
    intro he
    have hneg := getElem?_findSlot _ he
    simp only [decide_eq_true_eq] at hneg
    omega
  · exact h

/-- Closing one connection keeps the others. -/
theorem mem_closeSlot (h : fd ∈ clientFds) (hne : fd ≠ fd') :
    fd ∈ clientFds.set (findSlot clientFds fun c => decide (c = fd')) (-1) := by
  refine mem_set_of_ne h fun he => hne ?_
  simpa using getElem?_findSlot _ he

end Slots

/-- What an event does to the user records. -/
inductive SessionEvent (label : LoopLabel) (users : List UserRecord) : List UserRecord → Prop
  | quiet : (∀ fd, ¬ label.event.ends fd) → SessionEvent label users users
  | registered {name : Username} {pass : Password} {front back : List UserRecord} :
      (∀ fd, ¬ label.event.ends fd) → (∀ u ∈ users, u.username ≠ name) → users = front ++ back →
      SessionEvent label users (front ++ .fresh name pass :: back)
  | loggedIn {fd : Int} {msg : TLVMessage} {name : Username} {pass : Password} {u : UserRecord} :
      label.event = .request fd msg → Request.ofMsg msg = .login (some (name, pass)) →
      Sends fd .success label.sent →
      u ∈ users → u.username = name → u.password = pass → u.loggedIn = 0 →
      SessionEvent label users (editUser users name (.bound fd))
  | ended {fd : Int} : label.event.ends fd →
      SessionEvent label users (clearHolder users fd)

/-- What one event means for sessions and connections. -/
structure EventEffect (ctx : ServerContext) (label : LoopLabel) (ctx' : ServerContext) : Prop where
  keyed : Keyed UserRecord.username ctx'.userMap
  users : SessionEvent label ctx.users ctx'.users
  open_kept : ∀ fd ∈ ctx.clientFds, 0 ≤ fd → ¬ label.event.ends fd → fd ∈ ctx'.clientFds
  accepted : ∀ fd, label.event.accepts fd → fd ∉ ctx.clientFds
  ended : ∀ fd, label.event.ends fd → 0 ≤ fd
  requested : ∀ fd msg, label.event = .request fd msg → 0 ≤ fd ∧ fd ∈ ctx.clientFds
  informed : ∀ fd msg, label.event = .request fd msg →
    (∃ sent ∈ label.sent, sent.msg.tag = MessageTag.groupInfo.code) →
    authenticated ctx.users fd = true
  served : ∀ fd msg, label.event = .request fd msg → ¬ (Request.ofMsg msg).leavesSessions →
    ∃ reply, Sends fd reply label.sent ∧
      SessionStep label.env fd ctx.users (.ofMsg msg) reply ctx'.users

theorem serveClient_sent (env : Env) (ctx : ServerContext) (slot : ℕ) (fd : Int) (msg : TLVMessage) :
    (serveClient env ctx slot fd msg).2 = (dispatchMessage env ctx fd msg).2.1 := by
  unfold serveClient
  dsimp only
  split <;> rfl

theorem serveClient_userMap (env : Env) (ctx : ServerContext) (slot : ℕ) (fd : Int)
    (msg : TLVMessage) : (serveClient env ctx slot fd msg).1.userMap =
      (dispatchMessage env ctx fd msg).1.userMap := by
  unfold serveClient
  dsimp only
  split <;> rfl

/-- A session step that is not the end of a session, as an event. -/
theorem SessionStep.toEvent {label : LoopLabel} {fd : Int} {msg : TLVMessage}
    {users users' : List UserRecord} {reply : Reply} (hevent : label.event = .request fd msg)
    (hsent : Sends fd reply label.sent)
    (h : SessionStep label.env fd users (.ofMsg msg) reply users') :
    SessionEvent label users users' := by
  have hquiet : ¬ (Request.ofMsg msg).endsSession → ∀ fd', ¬ label.event.ends fd' := by
    rw [hevent]
    exact fun hreq fd' hends => hreq hends.2
  generalize hreq : Request.ofMsg msg = req at h hquiet
  cases h with
  | registered hnew hsplit => exact .registered (hquiet id) hnew hsplit
  | loggedIn hu hname hpass hin => exact .loggedIn hevent hreq hsent hu hname hpass hin
  | ended hends =>
    have hend : label.event.ends fd := hevent ▸ ⟨rfl, hreq ▸ hends⟩
    exact .ended hend
  | other hleaves =>
    refine .quiet (hquiet fun hends => ?_)
    cases req <;> first | exact hends | exact hleaves
  | _ => exact .quiet (hquiet id)

/-- The descriptors after a request: a closed connection is the one that exited. -/
theorem mem_serveClient {env : Env} {ctx : ServerContext} {fd fd' : Int} {msg : TLVMessage}
    (hfds : (dispatchMessage env ctx fd msg).1.clientFds = ctx.clientFds)
    (hfd' : fd' ∈ ctx.clientFds) (hends : ¬ (Event.request fd msg).ends fd') :
    fd' ∈ (serveClient env ctx (findSlot ctx.clientFds fun c => decide (c = fd)) fd msg).1.clientFds := by
  unfold serveClient
  dsimp only
  split
  · rename_i hret
    have hexit : msg.tag = MessageTag.exit.code := by
      rw [← dispatch_returns env ctx fd msg]
      rcases dispatch_returns_range env ctx fd msg with h | h <;> omega
    have hreq : (Request.ofMsg msg).endsSession := by
      rw [Request.ofMsg, hexit, MessageTag.ofCode_code]
      trivial
    rw [setSlot, hfds]
    exact mem_closeSlot hfd' fun he => hends ⟨he.symm, hreq⟩
  · rwa [hfds]

theorem loopStep_effect {ctx ctx' : ServerContext} {label : LoopLabel}
    (hk : Keyed UserRecord.username ctx.userMap) (h : LoopStep ctx label ctx') :
    EventEffect ctx label ctx' := by
  obtain ⟨env, event, sent⟩ := label
  cases event with
  | accept newFd =>
    obtain ⟨hfree, h⟩ := Option.ite_none_right_eq_some.mp h
    have hctx : (acceptClient env ctx newFd).1 = ctx' := congrArg Prod.fst (Option.some.inj h)
    have husers : ctx'.userMap = ctx.userMap := by
      rw [← hctx]
      unfold acceptClient
      dsimp only
      split <;> rfl
    have hother : ∀ fd msg, Event.accept newFd ≠ .request fd msg := by simp
    refine ⟨husers ▸ hk, ?_, fun fd hfd hpos _ => hctx ▸ mem_acceptClient hfd hpos newFd, ?_,
      fun _ hend => hend.elim, fun _ _ he => absurd he (hother _ _),
      fun _ _ he => absurd he (hother _ _), fun _ _ he => absurd he (hother _ _)⟩
    · rw [ServerContext.users, ServerContext.users, husers]
      exact .quiet fun _ => id
    · rintro fd rfl
      exact hfree.2.2
  | request fd msg =>
    obtain ⟨hheld, h⟩ := Option.ite_none_right_eq_some.mp h
    have hctx : (serveClient env ctx (findSlot ctx.clientFds fun c => decide (c = fd)) fd msg).1 =
        ctx' := congrArg Prod.fst (Option.some.inj h)
    have hsent : (dispatchMessage env ctx fd msg).2.1 = sent :=
      (serveClient_sent ..).symm.trans (congrArg Prod.snd (Option.some.inj h))
    have husers : ctx'.userMap = (dispatchMessage env ctx fd msg).1.userMap := by
      rw [← hctx]
      exact serveClient_userMap ..
    obtain ⟨⟨hk', hfds, _⟩, hsession⟩ := dispatch_sessions hk env fd msg
    refine ⟨husers ▸ hk', ?_, fun fd' hfd' _ hends => hctx ▸ mem_serveClient hfds hfd' hends,
      fun _ haccepts => haccepts.elim, fun fd' hends => hends.1 ▸ hheld.1, ?_, ?_, ?_⟩
    · rw [ServerContext.users, ServerContext.users, husers]
      rcases hsession with ⟨_, reply, hreply, hstep⟩ | ⟨hleaves, hsame, _⟩
      · exact hstep.toEvent rfl (hsent ▸ hreply)
      · rw [hsame]
        exact .quiet fun fd' hends => hleaves.not_endsSession hends.2
    · rintro fd' msg' he
      obtain ⟨rfl, rfl⟩ := Event.request.inj he
      exact hheld
    · rintro fd' msg' he ⟨s, hs, htag⟩
      obtain ⟨rfl, rfl⟩ := Event.request.inj he
      exact dispatch_groupInfo_authenticated hk (hsent ▸ hs) htag
    · rintro fd' msg' he hreq
      obtain ⟨rfl, rfl⟩ := Event.request.inj he
      rcases hsession with ⟨_, reply, hreply, hstep⟩ | ⟨hleaves, _, _⟩
      · refine ⟨reply, hsent ▸ hreply, ?_⟩
        rw [ServerContext.users, ServerContext.users, husers]
        exact hstep
      · exact absurd hleaves hreq
  | eof fd =>
    obtain ⟨hheld, h⟩ := Option.ite_none_right_eq_some.mp h
    have hctx : dropClient env ctx (findSlot ctx.clientFds fun c => decide (c = fd)) fd = ctx' :=
      congrArg Prod.fst (Option.some.inj h)
    obtain ⟨hk', husers, hfds, _⟩ := cleanupClient_users hk env fd
    have hother : ∀ fd' msg, Event.eof fd ≠ .request fd' msg := by simp
    refine ⟨hctx ▸ hk', ?_, fun fd' hfd' _ hends => ?_, fun _ haccepts => haccepts.elim,
      fun fd' hends => hends ▸ hheld.1, fun _ _ he => absurd he (hother _ _),
      fun _ _ he => absurd he (hother _ _), fun _ _ he => absurd he (hother _ _)⟩
    · rw [← hctx]
      change SessionEvent _ _ (cleanupClient env ctx fd).users
      rw [husers]
      exact .ended (show Event.ends fd (.eof fd) from rfl)
    · rw [← hctx]
      change fd' ∈ (cleanupClient env ctx fd).clientFds.set _ _
      rw [hfds]
      exact mem_closeSlot hfd' (Ne.symm hends)

/-- An event in a quiet environment; where it is not possible nothing happens. -/
def quietEvent (ctx : ServerContext) (event : Event) : LoopLabel × ServerContext :=
  let r := (runEvent .quiet ctx event).getD (ctx, [])
  (⟨.quiet, event, r.2⟩, r.1)

def quietEvents : ServerContext → List Event → List LoopMove := play quietEvent

def afterQuietEvents : ServerContext → List Event → ServerContext := playEnd quietEvent

/-- Events that are all possible make a run. -/
theorem run_quietEvents (ctx : ServerContext) (events : List Event)
    (h : ∀ m ∈ quietEvents ctx events, (runEvent .quiet m.pre m.label.event).isSome = true) :
    Run LoopStep ctx (quietEvents ctx events) (afterQuietEvents ctx events) := by
  refine Run.of_play (fun ctx event hsome => ?_) h
  obtain ⟨r, hr⟩ : ∃ r, runEvent .quiet ctx event = some r := Option.isSome_iff_exists.mp hsome
  simp only [LoopStep, quietEvent, hr, Option.getD_some]

end MeshChat.Server
