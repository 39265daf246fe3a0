import MeshChat.Client.Ui
import MeshChat.Server.Views

/-!
# The client's own view

The sessions and the state of a client context are a view too, and the handlers
change it as the abstract protocol says, for the reply the response describes.
-/
namespace MeshChat
open Server Client

namespace Client.ClientContext

/-- The groups the client has sessions for. -/
def groups (ctx : ClientContext) : Set (GroupName × McastEntry) :=
  {x | ∃ session ∈ ctx.activeGroups,
    x = (session.groupName, ⟨session.multicastIp, session.multicastPort⟩)}

/-- The user the client believes to be logged in. -/
def users (ctx : ClientContext) : Set Username :=
  {name | ctx.state = .loggedIn ∧ ctx.username = name}

def view (ctx : ClientContext) : View := ⟨ctx.groups, ctx.users⟩

/-- What every handler keeps: one session a group, and the screen goes with the
state. -/
structure Coherent (ctx : ClientContext) (screen : Screen) : Prop where
  names : (ctx.activeGroups.map (·.groupName)).Nodup
  screen : ctx.state = .loggedIn ↔ screen = .two

end Client.ClientContext

/-- An address is only given for a group the client has no session for. -/
def FreshInfo (ctx : ClientContext) (req : Request) (reply : Reply) : Prop :=
  ∀ name addr, (req = .createGroup (some name) ∨ req = .joinGroup (some name)) →
    reply = .groupInfo addr → ∀ session ∈ ctx.activeGroups, session.groupName ≠ name

section Handlers
variable {ctx : ClientContext} {screen : Screen} {response : TLVMessage} {reply : Reply}

/-- The tag test of a handler is a test of the reply. -/
theorem tag_ne_success_iff (hr : reply.Describes response) :
    response.tag ≠ MessageTag.success.code ↔ reply ≠ .success := by
  rw [hr.1, not_iff_not]
  constructor
  · intro h
    have htag := MessageTag.code_injective h
    cases reply <;> first | rfl | cases htag
  · rintro rfl
    rfl

/-- Create and join save a session for an address, and nothing else. -/
theorem saveSession_spec (ctx : ClientContext) (pids : ℕ × ℕ) (name : GroupName)
    (hr : reply.Describes response) :
    (∃ addr session, reply = .groupInfo addr ∧ session.groupName = name ∧
        (⟨session.multicastIp, session.multicastPort⟩ : McastEntry) = addr ∧
        saveSession pids name ctx (some response) =
          ({ ctx with activeGroups := ctx.activeGroups ++ [session] }, 0)) ∨
      (∀ addr, reply ≠ .groupInfo addr) ∧ saveSession pids name ctx (some response) = (ctx, -1) := by
  have hother : reply.tag ≠ .groupInfo → response.tag ≠ MessageTag.groupInfo.code :=
    fun hne h => hne (MessageTag.code_injective (hr.1.symm.trans h))
  cases reply with
  | groupInfo addr =>
    have htag : response.tag = MessageTag.groupInfo.code := hr.1
    rw [saveSession, if_neg (not_not.mpr htag), hr.parseGroupInfo]
    refine Or.inl ⟨addr, _, rfl, ?_, ?_, rfl⟩ <;> simp [GroupSession.opened]
  | success => exact Or.inr ⟨by simp, if_pos (hother (by simp [Reply.tag]))⟩
  | error code => exact Or.inr ⟨by simp, if_pos (hother (by simp [Reply.tag]))⟩

/-- One session more. -/
theorem view_saved (hcoh : ctx.Coherent screen) {session : GroupSession}
    (hnew : ∀ s ∈ ctx.activeGroups, s.groupName ≠ session.groupName) :
    let ctx' := { ctx with activeGroups := ctx.activeGroups ++ [session] }
    ctx'.view = ⟨insert (session.groupName, ⟨session.multicastIp, session.multicastPort⟩) ctx.groups,
        ctx.users⟩ ∧ ctx'.Coherent screen := by
  refine ⟨View.mk.injEq .. ▸ ⟨?_, rfl⟩, ?_, hcoh.screen⟩
  · ext x
    constructor
    · rintro ⟨s, hs, rfl⟩
      rcases List.mem_append.mp hs with hs | hs
      · exact Or.inr ⟨s, hs, rfl⟩
      · rw [List.mem_singleton.mp hs]
        exact Or.inl rfl
    · rintro (rfl | ⟨s, hs, rfl⟩)
      · exact ⟨session, List.mem_append_right _ (List.mem_singleton_self _), rfl⟩
      · exact ⟨s, List.mem_append_left _ hs, rfl⟩
  · rw [List.map_append, List.nodup_append]
    refine ⟨hcoh.names, List.nodup_singleton _, fun a ha b hb => ?_⟩
    obtain ⟨s, hs, rfl⟩ := List.mem_map.mp ha
    obtain rfl := List.mem_singleton.mp hb
    exact hnew s hs

/-- One session less. -/
theorem view_left (hcoh : ctx.Coherent screen) (name : GroupName) :
    let ctx' := { ctx with
      activeGroups := ctx.activeGroups.eraseIdx (ctx.activeGroups.findIdx (isNamed name)) }
    ctx'.view = ⟨{x ∈ ctx.groups | x.1 ≠ name}, ctx.users⟩ ∧ ctx'.Coherent screen := by
  have hnamed : isNamed name = fun session => decide (session.groupName = name) := by
    funext session
    rw [Bool.eq_iff_iff, isNamed_iff, decide_eq_true_iff]
  have herase : ctx.activeGroups.eraseIdx (ctx.activeGroups.findIdx (isNamed name)) =
      ctx.activeGroups.filter fun session => decide (session.groupName ≠ name) := by
    rw [hnamed, KeyedList.eraseIdx_findIdx (KeyedList.unique_key hcoh.names name)]
    simp
  rw [herase]
  refine ⟨View.mk.injEq .. ▸ ⟨?_, rfl⟩, (List.filter_sublist.map _).nodup hcoh.names, hcoh.screen⟩
  ext x
  constructor
  · rintro ⟨s, hs, rfl⟩
    obtain ⟨hold, hne⟩ := List.mem_filter.mp hs
    exact ⟨⟨s, hold, rfl⟩, of_decide_eq_true hne⟩
  · rintro ⟨⟨s, hs, rfl⟩, hne⟩
    exact ⟨s, List.mem_filter.mpr ⟨hs, decide_eq_true hne⟩, rfl⟩

theorem view_loggedIn (hcoh : ctx.Coherent .one) (name : Username) :
    let ctx' := { ctx with username := name, state := .loggedIn }
    ctx'.view = ⟨ctx.groups, insert name ctx.users⟩ ∧ ctx'.Coherent .two := by
  have hout : ctx.state ≠ .loggedIn := fun h => nomatch hcoh.screen.mp h
  refine ⟨View.mk.injEq .. ▸ ⟨rfl, ?_⟩, hcoh.names, by simp⟩
  ext name'
  simp [ClientContext.users, hout, eq_comm]

theorem view_loggedOut :
    let ctx' := { clearClientContext ctx with state := .connected }
    ctx'.view = .empty ∧ ctx'.Coherent .one := by
  refine ⟨View.mk.injEq .. ▸ ⟨?_, ?_⟩, List.nodup_nil, by simp⟩
  · simp [ClientContext.groups, clearClientContext]
  · simp [ClientContext.users]

theorem saveSession_view (pids : ℕ × ℕ) {name : GroupName} {req : Request}
    (hreq : req = .createGroup (some name) ∨ req = .joinGroup (some name))
    (hcoh : ctx.Coherent screen) (hr : reply.Describes response) (hfresh : FreshInfo ctx req reply)
    {ctx' : ClientContext} {ret : Int}
    (hfin : saveSession pids name ctx (some response) = (ctx', ret)) :
    ctx'.view = ctx.view.after req reply ∧ ctx'.Coherent screen := by
  rcases saveSession_spec ctx pids name hr with
    ⟨addr, session, rfl, rfl, rfl, hsaved⟩ | ⟨hother, hsaved⟩
  · obtain ⟨rfl, rfl⟩ := Prod.mk.inj (hsaved.symm.trans hfin)
    obtain ⟨hview, hcoh'⟩ := view_saved hcoh (hfresh _ _ hreq rfl)
    refine ⟨hview.trans ?_, hcoh'⟩
    rcases hreq with rfl | rfl <;> rfl
  · obtain ⟨rfl, rfl⟩ := Prod.mk.inj (hsaved.symm.trans hfin)
    refine ⟨?_, hcoh⟩
    rcases hreq with rfl | rfl <;> cases reply <;> first | rfl | exact absurd rfl (hother _)

/-- A handler that stays in the program takes the view where the protocol does. -/
theorem Client.Command.finish_view {cmd : Command} (pids : ℕ × ℕ) (hcoh : ctx.Coherent cmd.screen)
    (hexit : cmd ≠ .exit) (hr : reply.Describes response) (hfresh : FreshInfo ctx cmd.asks reply)
    {ctx' : ClientContext} {ret : Int}
    (hfin : (cmd.handler pids).finish ctx (some response) = (ctx', ret)) :
    ctx'.view = ctx.view.after cmd.asks reply ∧ ctx'.Coherent (cmd.next ret cmd.screen) := by
  have htag := tag_ne_success_iff hr
  cases cmd with
  | register username password =>
    have hsame : ctx = ctx' := by
      simp only [handler, handleRegister] at hfin
      split at hfin <;> exact congrArg Prod.fst hfin
    subst hsame
    exact ⟨rfl, hcoh⟩
  | login username password =>
    simp only [handler, handleLogin, strncpy_self, htag] at hfin
    by_cases hreply : reply = .success
    · subst hreply
      rw [if_neg (not_not.mpr rfl)] at hfin
      obtain ⟨rfl, rfl⟩ := Prod.mk.inj hfin
      exact view_loggedIn hcoh username
    · rw [if_pos hreply] at hfin
      obtain ⟨rfl, rfl⟩ := Prod.mk.inj hfin
      refine ⟨?_, hcoh⟩
      cases reply <;> first | rfl | exact absurd rfl hreply
  | exit => exact absurd rfl hexit
  | createGroup name => exact saveSession_view pids (Or.inl rfl) hcoh hr hfresh hfin
  | joinGroup name => exact saveSession_view pids (Or.inr rfl) hcoh hr hfresh hfin
  | leaveGroup name =>
    simp only [handler, handleLeaveGroup, htag] at hfin
    by_cases hreply : reply = .success
    · subst hreply
      rw [if_neg (not_not.mpr rfl)] at hfin
      obtain ⟨rfl, rfl⟩ := Prod.mk.inj hfin
      exact view_left hcoh name
    · rw [if_pos hreply] at hfin
      obtain ⟨rfl, rfl⟩ := Prod.mk.inj hfin
      refine ⟨?_, hcoh⟩
      cases reply <;> first | rfl | exact absurd rfl hreply
  | logout =>
    obtain ⟨rfl, rfl⟩ := Prod.mk.inj hfin
    exact view_loggedOut

end Handlers

end MeshChat
