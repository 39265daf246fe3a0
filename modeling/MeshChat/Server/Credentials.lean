import MeshChat.Server.Conservation

/-!
# Credentials

Which names are registered, and with which passwords, is a function of the
history: it is what the `REGISTER` requests said that were answered with
`MSG_SUCCESS`. The replies to `REGISTER` and `LOGIN` depend on nothing else but
the record's `logged_in`.
-/
namespace MeshChat.Server
open Runs

abbrev CallMove := Move ServerContext CallLabel

/-- The messages say `MSG_SUCCESS`. -/
def answersSuccess (sent : List Sent) : Bool :=
  sent.any fun s => decide (s.msg.tag = MessageTag.success.code)

/-- What a call registered: the request was a well-formed `REGISTER`, and it was
answered with `MSG_SUCCESS`. -/
def registration (m : CallMove) : Option (Username × Password) :=
  match m.label.call.request with
  | .register auth =>
      if answersSuccess (runCall m.label.env m.pre m.label.call).2 then auth else none
  | _ => none

/-- What was registered in the course of a run, oldest first. -/
def registrations (moves : List CallMove) : List (Username × Password) :=
  moves.filterMap registration

/-- The password that a name was registered with. -/
def registeredPassword (moves : List CallMove) (name : Username) : Option Password :=
  ((registrations moves).find? fun r => decide (r.1 = name)).map (·.2)

/-- The answer to a well-formed `REGISTER`, given the name's registration. -/
def registerReply : Option Password → Reply
  | none => .success
  | some _ => .error .userExists

/-- The answer to a well-formed `LOGIN` with `pass`, given the name's registration
and whether its record is logged in. -/
def loginReply (pass : Password) (active : Bool) : Option Password → Reply
  | none => .error .userNotFound
  | some registered =>
      if registered ≠ pass then .error .wrongPassword
      else if active then .error .alreadyLoggedIn
      else .success

/-- The names and passwords in the records. -/
def credentials (users : List UserRecord) : List (Username × Password) :=
  users.map fun u => (u.username, u.password)

/-- The record of this name is logged in. -/
def isActive (ctx : ServerContext) (name : Username) : Bool :=
  (ctx.userMap.find name).any fun u => decide (u.loggedIn ≠ 0)

section Step
variable {env : Env} {fd : Int} {users users' : List UserRecord} {req : Request} {reply : Reply}

theorem credentials_edit (name : Username) {f : UserRecord → UserRecord}
    (hname : ∀ u, (f u).username = u.username) (hpass : ∀ u, (f u).password = u.password) :
    credentials (editUser users name f) = credentials users :=
  KeyedList.map_edit fun u _ _ => by rw [hname, hpass]

/-- The end of a session leaves every name and password as it is. -/
theorem credentials_clearHolder (users : List UserRecord) (fd : Int) :
    credentials (clearHolder users fd) = credentials users := by
  unfold clearHolder
  cases holder users fd with
  | none => rfl
  | some u => exact credentials_edit u.username (fun _ => rfl) fun _ => rfl

/-- A successful registration adds its name and password, and nothing else
changes any. -/
theorem SessionStep.credentials (h : SessionStep env fd users req reply users') :
    (∃ name pass, req = .register (some (name, pass)) ∧ reply = .success ∧
        (∀ u ∈ users, u.username ≠ name) ∧
        (Server.credentials users').Perm ((name, pass) :: Server.credentials users)) ∨
      (∀ auth, req = .register (some auth) → reply ≠ .success) ∧
        Server.credentials users' = Server.credentials users := by
  cases h with
  | registered hnew hsplit =>
    rename_i name pass front back
    refine Or.inl ⟨name, pass, rfl, rfl, hnew, ?_⟩
    rw [hsplit]
    exact List.perm_middle.map _
  | loggedIn =>
    exact Or.inr ⟨nofun, credentials_edit _ (fun _ => rfl) fun _ => rfl⟩
  | ended hends =>
    refine Or.inr ⟨fun auth hreq => ?_, credentials_clearHolder users fd⟩
    rw [hreq] at hends
    cases hends
  | other hleaves =>
    refine Or.inr ⟨fun auth hreq => ?_, rfl⟩
    rw [hreq] at hleaves
    cases hleaves
  | _ => exact Or.inr ⟨nofun, rfl⟩

end Step

theorem Sends.answersSuccess_iff {fd : Int} {reply : Reply} {sent : List Sent}
    (h : Sends fd reply sent) : answersSuccess sent = true ↔ reply = .success := by
  obtain ⟨m, rfl, hm⟩ := h
  simp only [answersSuccess, List.any_cons, List.any_nil, Bool.or_false, decide_eq_true_eq]
  rw [hm.1, MessageTag.code_injective.eq_iff]
  cases reply <;> simp [Reply.tag]

/-- One call, on the credentials: what it registers is added, under a new name. -/
theorem registration_spec {ctx : ServerContext} (hk : Keyed UserRecord.username ctx.userMap)
    (label : CallLabel) :
    (∃ name pass, registration ⟨ctx, label, afterCall ctx label⟩ = some (name, pass) ∧
        (∀ u ∈ ctx.users, u.username ≠ name) ∧
        (credentials (afterCall ctx label).users).Perm ((name, pass) :: credentials ctx.users)) ∨
      registration ⟨ctx, label, afterCall ctx label⟩ = none ∧
        credentials (afterCall ctx label).users = credentials ctx.users := by
  obtain ⟨env, call⟩ := label
  cases call with
  | dispatch fd msg =>
    have hnone : (∀ auth, Request.ofMsg msg ≠ .register auth) →
        registration ⟨ctx, ⟨env, .dispatch fd msg⟩, afterCall ctx ⟨env, .dispatch fd msg⟩⟩ =
          none := by
      intro hother
      cases hreq : Request.ofMsg msg with
      | register auth => exact absurd hreq (hother auth)
      | _ => simp only [registration, Call.request, hreq]
    obtain ⟨-, ⟨-, reply, hsent, hsession⟩ | ⟨hleaves, hsame, -⟩⟩ := dispatch_sessions hk env fd msg
    · have hreg : ∀ auth, Request.ofMsg msg = .register auth →
          registration ⟨ctx, ⟨env, .dispatch fd msg⟩, afterCall ctx ⟨env, .dispatch fd msg⟩⟩ =
            if reply = .success then auth else none := by
        intro auth hreq
        simp only [registration, Call.request, runCall, hreq, hsent.answersSuccess_iff]
      rcases hsession.credentials with ⟨name, pass, hreq, rfl, hnew, hperm⟩ | ⟨hno, hsame⟩
      · exact Or.inl ⟨name, pass, by rw [hreg _ hreq, if_pos rfl], hnew, hperm⟩
      · refine Or.inr ⟨?_, hsame⟩
        by_cases hother : ∀ auth, Request.ofMsg msg ≠ .register auth
        · exact hnone hother
        · obtain ⟨auth, hreq⟩ := not_forall_not.mp hother
          rw [hreg auth hreq]
          cases auth with
          | none => exact ite_self _
          | some auth => exact if_neg (hno auth hreq)
    · refine Or.inr ⟨hnone fun auth hreq => ?_, ?_⟩
      · rw [hreq] at hleaves
        exact hleaves
      · have husers : (afterCall ctx ⟨env, .dispatch fd msg⟩).userMap = ctx.userMap := hsame
        rw [ServerContext.users, husers]
        rfl
  | disconnect fd =>
    refine Or.inr ⟨rfl, ?_⟩
    have husers : (afterCall ctx ⟨env, .disconnect fd⟩).users = clearHolder ctx.users fd :=
      (cleanupClient_users hk env fd).2.1
    rw [husers, credentials_clearHolder]

section Calls
variable {ctx : ServerContext} (h : ServerOk ctx) {env : Env}
include h

/-- A name's registration is the password of its record. -/
theorem registeredPassword_eq {moves : List CallMove}
    (hperm : (credentials ctx.users).Perm (registrations moves)) (name : Username) :
    registeredPassword moves name = (ctx.userMap.find name).map (·.password) := by
  have hnames : ((registrations moves).map Prod.fst).Nodup := by
    rw [← (hperm.map Prod.fst).nodup_iff, credentials, List.map_map]
    exact h.keyed.nodup
  cases hfind : ctx.userMap.find name with
  | none =>
    have hnew := h.keyed.find_eq_none.mp hfind
    rw [registeredPassword, KeyedList.find?_eq_none_iff.mpr]
    · rfl
    · intro r hr
      obtain ⟨u, hu, rfl⟩ := List.mem_map.mp (hperm.mem_iff.mpr hr)
      exact hnew u hu
  | some u =>
    obtain ⟨hu, hname⟩ := h.keyed.find_eq_some.mp hfind
    have hmem : (u.username, u.password) ∈ registrations moves :=
      hperm.mem_iff.mp (List.mem_map_of_mem hu)
    rw [registeredPassword, (KeyedList.find?_eq_some_iff hnames).mpr ⟨hmem, hname⟩]
    rfl

theorem register_answered (henv : env.AllocOk) (fd : Int) {msg : TLVMessage} {name : Username}
    {pass : Password} (hreq : Request.ofMsg msg = .register (some (name, pass))) :
    Sends fd (registerReply ((ctx.userMap.find name).map (·.password)))
      (dispatchMessage env ctx fd msg).2.1 := by
  obtain ⟨reply, _, _, _, _, hsent, _, hsession, _⟩ :=
    dispatch_spec h.groups h.table h.keyed env fd msg
  suffices hreply : reply = registerReply ((ctx.userMap.find name).map (·.password)) by
    rwa [← hreply]
  rw [hreq] at hsession
  generalize (dispatchMessage env ctx fd msg).1.users = users' at hsession
  cases hsession with
  | registerTaken hu hname => rw [h.keyed.find_eq_some.mpr ⟨hu, hname⟩]; rfl
  | registerFailed _ hfault => exact absurd henv hfault
  | registered hnew => rw [h.keyed.find_eq_none.mpr hnew]; rfl
  | ended hends => cases hends
  | other hleaves => cases hleaves

theorem login_answered (env : Env) (fd : Int) {msg : TLVMessage} {name : Username}
    {pass : Password} (hreq : Request.ofMsg msg = .login (some (name, pass))) :
    Sends fd (loginReply pass (isActive ctx name) ((ctx.userMap.find name).map (·.password)))
      (dispatchMessage env ctx fd msg).2.1 := by
  obtain ⟨reply, _, _, _, _, hsent, _, hsession, _⟩ :=
    dispatch_spec h.groups h.table h.keyed env fd msg
  suffices hreply : reply =
      loginReply pass (isActive ctx name) ((ctx.userMap.find name).map (·.password)) by
    rwa [← hreply]
  rw [hreq] at hsession
  generalize (dispatchMessage env ctx fd msg).1.users = users' at hsession
  cases hsession with
  | loginUnknown hnew => rw [h.keyed.find_eq_none.mpr hnew]; rfl
  | loginWrong hu hname hpass =>
    rw [isActive, h.keyed.find_eq_some.mpr ⟨hu, hname⟩]
    exact (if_pos hpass).symm
  | loginActive hu hname hpass hin =>
    rw [isActive, h.keyed.find_eq_some.mpr ⟨hu, hname⟩]
    simp [loginReply, hpass, hin]
  | loggedIn hu hname hpass hin =>
    rw [isActive, h.keyed.find_eq_some.mpr ⟨hu, hname⟩]
    simp [loginReply, hpass, hin]
  | ended hends => cases hends
  | other hleaves => cases hleaves

end Calls

/-- Throughout a run the records' credentials are what was registered. -/
theorem credentials_perm {alloc : ℕ → Bool} {ctx₀ ctx : ServerContext} {moves : List CallMove}
    (h0 : serverCreate alloc = some ctx₀) (hr : Run CallStep ctx₀ moves ctx)
    (hok : AllAllocOk moves) :
    ServerOk ctx ∧ (credentials ctx.users).Perm (registrations moves) := by
  have hinit := serverCreate_initial h0
  refine hr.history (I := fun past ctx => ServerOk ctx ∧
      (credentials ctx.users).Perm (registrations past)) (G := fun _ label => label.env.AllocOk)
    ⟨hinit.serverOk, ?_⟩ (fun past ctx label ctx' hi henv hs => ?_) hok
  · rw [hinit.users]
    exact List.Perm.refl _
  · refine ⟨hi.1.step (callNoLoss_of_allocOk henv ctx) hs, ?_⟩
    obtain rfl : ctx' = afterCall ctx label := hs
    rw [registrations, List.filterMap_append]
    rcases registration_spec hi.1.keyed label with ⟨name, pass, hreg, _, hperm⟩ | ⟨hreg, hsame⟩
    · rw [List.filterMap_cons_some hreg]
      exact (hperm.trans (hi.2.cons _)).trans (List.perm_append_singleton _ _).symm
    · rw [List.filterMap_cons_none hreg, hsame]
      simpa [registrations] using hi.2

/-- Credential history: a name is registered once at most; a `REGISTER` succeeds
exactly for a name that is not, a `LOGIN` is answered by what was registered and
by the record's `logged_in`; and every other call keeps all names and passwords. -/
theorem credential_history {alloc : ℕ → Bool} {ctx₀ ctx : ServerContext} {moves : List CallMove}
    (h0 : serverCreate alloc = some ctx₀) (hr : Run CallStep ctx₀ moves ctx)
    (hok : AllAllocOk moves) :
    ((registrations moves).map Prod.fst).Nodup ∧
      (∀ env fd msg name pass, env.AllocOk → Request.ofMsg msg = .register (some (name, pass)) →
        Sends fd (registerReply (registeredPassword moves name))
          (dispatchMessage env ctx fd msg).2.1) ∧
      (∀ env fd msg name pass, Request.ofMsg msg = .login (some (name, pass)) →
        Sends fd (loginReply pass (isActive ctx name) (registeredPassword moves name))
          (dispatchMessage env ctx fd msg).2.1) ∧
      (credentials ctx.users).Perm (registrations moves) ∧
      ∀ label, registration ⟨ctx, label, afterCall ctx label⟩ = none →
        credentials (afterCall ctx label).users = credentials ctx.users := by
  obtain ⟨h, hperm⟩ := credentials_perm h0 hr hok
  refine ⟨?_, fun env fd msg name pass henv hreq => ?_, fun env fd msg name pass hreq => ?_, hperm,
    fun label hnone => ?_⟩
  · rw [← (hperm.map Prod.fst).nodup_iff, credentials, List.map_map]
    exact h.keyed.nodup
  · rw [registeredPassword_eq h hperm]
    exact register_answered h henv fd hreq
  · rw [registeredPassword_eq h hperm]
    exact login_answered h env fd hreq
  · rcases registration_spec h.keyed label with ⟨name, pass, hreg, _⟩ | ⟨_, hsame⟩
    · rw [hnone] at hreg
      cases hreg
    · exact hsame

/-- The password in `authMsg`. -/
def passOf (i : ℕ) : Password :=
  CharArray.ofBytes (nameOf i).bytes (lt_trans (nameOf i).fits (by decide))

theorem credential_history_crowd :
    Sends 7 (.error .userExists) (dispatchMessage .quiet (afterQuietCalls started (crowd 2)) 7
        (authMsg .register 0)).2.1 ∧
      Sends 7 (.error .alreadyLoggedIn) (dispatchMessage .quiet (afterQuietCalls started (crowd 2)) 7
        (authMsg .login 1)).2.1 := by
  obtain ⟨_, hregister, hlogin, _⟩ := credential_history serverCreate_started
    (run_quietCalls started (crowd 2)) quietCalls_allocOk
  have htaken : registerReply (registeredPassword (quietCalls started (crowd 2)) (nameOf 0)) =
      .error .userExists := by decide +kernel
  have hactive : loginReply (passOf 1) (isActive (afterQuietCalls started (crowd 2)) (nameOf 1))
      (registeredPassword (quietCalls started (crowd 2)) (nameOf 1)) = .error .alreadyLoggedIn := by
    decide +kernel
  exact ⟨htaken ▸ hregister .quiet 7 _ (nameOf 0) (passOf 0) Env.quiet_allocOk (by decide +kernel),
    hactive ▸ hlogin .quiet 7 _ (nameOf 1) (passOf 1) (by decide +kernel)⟩

end MeshChat.Server
