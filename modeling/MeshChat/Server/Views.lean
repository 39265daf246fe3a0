import MeshChat.Server.Conservation
import MeshChat.Server.Binding

/-!
# What both sides know about a connection

A view says, for one connection, which groups it is in, at which addresses, and
which users are logged in on it. The abstract protocol says how a request and
its reply change a view. The server's handlers change the view of the
descriptor that asks in exactly this way and no other view; so do the client's
handlers with the client's own view.
-/
namespace MeshChat
open Server

structure View where
  groups : Set (GroupName × McastEntry)
  users : Set Username

namespace View

/-- Nobody is logged in, and there are no groups. -/
def empty : View := ⟨∅, ∅⟩

/-- What a request and its reply mean for the groups. -/
def groupsAfter (groups : Set (GroupName × McastEntry)) :
    Request → Reply → Set (GroupName × McastEntry)
  | .createGroup (some name), .groupInfo addr => insert (name, addr) groups
  | .joinGroup (some name), .groupInfo addr => insert (name, addr) groups
  | .leaveGroup (some name), .success => {x ∈ groups | x.1 ≠ name}
  | .logout, _ => ∅
  | .exit, _ => ∅
  | _, _ => groups

/-- What they mean for the logged-in users. -/
def usersAfter (users : Set Username) : Request → Reply → Set Username
  | .login (some (name, _)), .success => insert name users
  | .logout, _ => ∅
  | .exit, _ => ∅
  | _, _ => users

def after (v : View) (req : Request) (reply : Reply) : View :=
  ⟨groupsAfter v.groups req reply, usersAfter v.users req reply⟩

variable {groups : Set (GroupName × McastEntry)} {users : Set Username} {req : Request}
  {reply : Reply}

@[simp] theorem groupsAfter_of_endsSession (h : req.endsSession) :
    groupsAfter groups req reply = ∅ := by
  cases req <;> first | rfl | cases h

@[simp] theorem usersAfter_of_endsSession (h : req.endsSession) :
    usersAfter users req reply = ∅ := by
  cases req <;> first | rfl | cases h

theorem groupsAfter_of_asksGroup_error (h : req.asksGroup) (code : ErrorCode) :
    groupsAfter groups req (.error code) = groups := by
  cases req with
  | createGroup name => cases name <;> rfl
  | joinGroup name => cases name <;> rfl
  | _ => cases h

theorem groupsAfter_of_leavesGroups (h : req.leavesGroups) :
    groupsAfter groups req reply = groups := by
  cases req <;> first | rfl | cases h

theorem usersAfter_of_leavesSessions (h : req.leavesSessions) :
    usersAfter users req reply = users := by
  cases req <;> first | rfl | cases h

end View

/-- The groups that have `fd` as a member. -/
def memberships (groups : List GroupRecord) (fd : Int) : Set (GroupName × McastEntry) :=
  {x | ∃ grp ∈ groups, fd ∈ grp.members ∧ x = (grp.name, grp.addr)}

/-- The users whose active record carries `fd`. -/
def sessions (users : List UserRecord) (fd : Int) : Set Username :=
  {name | ∃ u ∈ users, u.loggedIn ≠ 0 ∧ u.socketFd = fd ∧ u.username = name}

def serverView (ctx : ServerContext) (fd : Int) : View :=
  ⟨memberships ctx.groups fd, sessions ctx.users fd⟩

section Memberships
variable {groups : List GroupRecord} {fd fd' : Int} {grp : GroupRecord}

theorem memberships_edit {name : GroupName} {f : GroupRecord → GroupRecord}
    (hname : ∀ g, (f g).name = g.name) (haddr : ∀ g, (f g).addr = g.addr) :
    memberships (editGroup groups name f) fd =
      {x | ∃ g ∈ groups, fd ∈ (if g.name = name then f g else g).members ∧
        x = (g.name, g.addr)} := by
  ext x
  constructor
  · rintro ⟨g', hg', hfd, rfl⟩
    obtain ⟨g, hg, rfl⟩ := KeyedList.mem_edit.mp hg'
    refine ⟨g, hg, hfd, ?_⟩
    split <;> simp [hname, haddr]
  · rintro ⟨g, hg, hfd, rfl⟩
    refine ⟨_, KeyedList.mem_edit.mpr ⟨g, hg, rfl⟩, hfd, ?_⟩
    split <;> simp [hname, haddr]

/-- A member more in one group. -/
theorem memberships_enrol (hnames : (groups.map (·.name)).Nodup) (hg : grp ∈ groups) {env : Env}
    (hnode : env.alloc .memberNode = true) :
    memberships (editGroup groups grp.name (.enrol env fd)) fd =
        insert (grp.name, grp.addr) (memberships groups fd) ∧
      ∀ fd', fd' ≠ fd →
        memberships (editGroup groups grp.name (.enrol env fd)) fd' = memberships groups fd' := by
  have hmem : ∀ (g : GroupRecord) fd', fd' ∈ (if g.name = grp.name then g.enrol env fd else g).members ↔
      fd' ∈ g.members ∨ g.name = grp.name ∧ fd' = fd := by
    intro g fd'
    split <;> simp_all [GroupRecord.enrol_members]
  simp only [memberships_edit (f := .enrol env fd) (fun _ => rfl) (fun _ => rfl), hmem]
  constructor
  · ext x
    constructor
    · rintro ⟨g, hg', hfd | ⟨hname, -⟩, rfl⟩
      · exact Or.inr ⟨g, hg', hfd, rfl⟩
      · obtain rfl := List.inj_on_of_nodup_map hnames hg' hg hname
        exact Or.inl rfl
    · rintro (rfl | ⟨g, hg', hfd, rfl⟩)
      · exact ⟨grp, hg, Or.inr ⟨rfl, trivial⟩, rfl⟩
      · exact ⟨g, hg', Or.inl hfd, rfl⟩
  · intro fd' hne
    simp only [hne, and_false, or_false, memberships]

/-- A member less in one group. -/
theorem memberships_without (hsound : ∀ g ∈ groups, g.Sound) (name : GroupName) :
    memberships (editGroup groups name (.without fd)) fd =
        {x ∈ memberships groups fd | x.1 ≠ name} ∧
      ∀ fd', fd' ≠ fd →
        memberships (editGroup groups name (.without fd)) fd' = memberships groups fd' := by
  have hmem : ∀ g ∈ groups, ∀ fd', fd' ∈ (if g.name = name then g.without fd else g).members ↔
      fd' ∈ g.members ∧ ¬ (g.name = name ∧ fd' = fd) := by
    intro g hg fd'
    split <;> simp_all [GroupRecord.mem_without (hsound g hg).nodup]
  simp only [memberships_edit (GroupRecord.without_name fd) (GroupRecord.without_addr fd)]
  constructor
  · ext x
    constructor
    · rintro ⟨g, hg, hfd, rfl⟩
      obtain ⟨hold, hne⟩ := (hmem g hg fd).mp hfd
      exact ⟨⟨g, hg, hold, rfl⟩, fun hname => hne ⟨hname, rfl⟩⟩
    · rintro ⟨⟨g, hg, hfd, rfl⟩, hne⟩
      exact ⟨g, hg, (hmem g hg fd).mpr ⟨hfd, fun h => hne h.1⟩, rfl⟩
  · intro fd' hne
    ext x
    constructor
    · rintro ⟨g, hg, hfd, rfl⟩
      exact ⟨g, hg, ((hmem g hg fd').mp hfd).1, rfl⟩
    · rintro ⟨g, hg, hfd, rfl⟩
      exact ⟨g, hg, (hmem g hg fd').mpr ⟨hfd, fun h => hne h.2⟩, rfl⟩

/-- `fd` leaves every group. -/
theorem memberships_evict (hsound : ∀ g ∈ groups, g.Sound) :
    memberships (evict fd groups) fd = ∅ ∧
      ∀ fd', fd' ≠ fd → memberships (evict fd groups) fd' = memberships groups fd' := by
  have hmem : ∀ fd' x, x ∈ memberships (evict fd groups) fd' ↔
      fd' ≠ fd ∧ x ∈ memberships groups fd' := by
    intro fd' x
    constructor
    · rintro ⟨g', hg', hfd, rfl⟩
      obtain ⟨g, hg, rfl⟩ := List.mem_map.mp (List.mem_of_mem_filter hg')
      obtain ⟨hold, hne⟩ := (GroupRecord.mem_without (hsound g hg).nodup).mp hfd
      exact ⟨hne, g, hg, hold, by simp⟩
    · rintro ⟨hne, g, hg, hfd, rfl⟩
      have hkept : fd' ∈ (g.without fd).members :=
        (GroupRecord.mem_without (hsound g hg).nodup).mpr ⟨hfd, hne⟩
      exact ⟨g.without fd, List.mem_filter.mpr ⟨List.mem_map_of_mem hg,
        decide_eq_true (List.ne_nil_of_mem hkept)⟩, hkept, by simp⟩
  constructor
  · ext x
    simp [hmem]
  · intro fd' hne
    ext x
    simp [hmem, hne]

/-- The only member left, and the group is gone. -/
theorem memberships_close (hnames : (groups.map (·.name)).Nodup) (hsound : ∀ g ∈ groups, g.Sound)
    (hg : grp ∈ groups) (hfd : fd ∈ grp.members) (hone : grp.memberCount = 1) :
    memberships (groups.filter fun g => decide (g.name ≠ grp.name)) fd =
        {x ∈ memberships groups fd | x.1 ≠ grp.name} ∧
      ∀ fd', fd' ≠ fd → memberships (groups.filter fun g => decide (g.name ≠ grp.name)) fd' =
        memberships groups fd' := by
  have hmem : ∀ fd' x, x ∈ memberships (groups.filter fun g => decide (g.name ≠ grp.name)) fd' ↔
      x ∈ memberships groups fd' ∧ x.1 ≠ grp.name := by
    intro fd' x
    constructor
    · rintro ⟨g, hg', hin, rfl⟩
      obtain ⟨hold, hne⟩ := List.mem_filter.mp hg'
      exact ⟨⟨g, hold, hin, rfl⟩, of_decide_eq_true hne⟩
    · rintro ⟨⟨g, hold, hin, rfl⟩, hne⟩
      exact ⟨g, List.mem_filter.mpr ⟨hold, decide_eq_true hne⟩, hin, rfl⟩
  constructor
  · ext x
    exact hmem fd x
  · intro fd' hne
    ext x
    rw [hmem, and_iff_left_iff_imp]
    rintro ⟨g, hg', hin, rfl⟩ hname
    obtain rfl := List.inj_on_of_nodup_map hnames hg' hg hname
    have hlen := (hsound g hg).count
    rw [hone] at hlen
    obtain ⟨a, ha⟩ := List.length_eq_one_iff.mp (show g.members.length = 1 by omega)
    rw [ha, List.mem_singleton] at hfd hin
    exact hne (hin.trans hfd.symm)

theorem memberships_insert {front back : List GroupRecord} (hsplit : groups = front ++ back)
    (hmembers : grp.members = [fd]) :
    memberships (front ++ grp :: back) fd = insert (grp.name, grp.addr) (memberships groups fd) ∧
      ∀ fd', fd' ≠ fd → memberships (front ++ grp :: back) fd' = memberships groups fd' := by
  have hmem : ∀ fd' x, x ∈ memberships (front ++ grp :: back) fd' ↔
      fd' = fd ∧ x = (grp.name, grp.addr) ∨ x ∈ memberships groups fd' := by
    intro fd' x
    constructor
    · rintro ⟨g, hg, hfd, rfl⟩
      rcases List.mem_cons.mp (List.perm_middle.mem_iff.mp hg) with rfl | hg
      · rw [hmembers, List.mem_singleton] at hfd
        exact Or.inl ⟨hfd, rfl⟩
      · exact Or.inr ⟨g, hsplit ▸ hg, hfd, rfl⟩
    · rintro (⟨rfl, rfl⟩ | ⟨g, hg, hfd, rfl⟩)
      · exact ⟨grp, List.mem_append_right _ List.mem_cons_self, hmembers ▸ List.mem_singleton_self _,
          rfl⟩
      · exact ⟨g, List.perm_middle.mem_iff.mpr (List.mem_cons_of_mem _ (hsplit ▸ hg)), hfd, rfl⟩
  constructor
  · ext x
    simp [hmem]
  · intro fd' hne
    ext x
    simp [hmem, hne]

end Memberships

/-- One request changes the groups of the descriptor that asks as the abstract
protocol says, and no other descriptor's. -/
theorem Server.GroupStep.memberships {env : Env} {stores : GroupName → Bool} {fd : Int} {auth : Bool}
    {groups groups' : List GroupRecord} {pool pool' : List McastEntry} {req : Request}
    {reply : Reply} (h : GroupStep env stores fd auth groups pool req reply groups' pool')
    (hok : TableOk groups pool) (hnode : env.alloc .memberNode = true) :
    MeshChat.memberships groups' fd =
        View.groupsAfter (MeshChat.memberships groups fd) req reply ∧
      ∀ fd', fd' ≠ fd → MeshChat.memberships groups' fd' = MeshChat.memberships groups fd' := by
  cases h with
  | denied hreq => exact ⟨(View.groupsAfter_of_asksGroup_error hreq _).symm, fun _ _ => rfl⟩
  | created _ _ _ _ hsplit =>
    exact memberships_insert hsplit (GroupRecord.enrol_members hnode)
  | @joinAgain grp _ hg hfd =>
    have hin : (grp.name, grp.addr) ∈ MeshChat.memberships groups fd := ⟨grp, hg, hfd, rfl⟩
    exact ⟨(Set.insert_eq_of_mem hin).symm, fun _ _ => rfl⟩
  | joined _ hg _ _ => exact memberships_enrol hok.names hg hnode
  | left => exact memberships_without hok.sound _
  | leftLast hg hfd hone => exact memberships_close hok.names hok.sound hg hfd hone
  | ended hreq =>
    rw [View.groupsAfter_of_endsSession hreq]
    exact memberships_evict hok.sound
  | other hreq => exact ⟨(View.groupsAfter_of_leavesGroups hreq).symm, fun _ _ => rfl⟩
  | _ => exact ⟨rfl, fun _ _ => rfl⟩

/-- A new group is not yet in the view of who creates it. -/
theorem Server.GroupStep.created_new {env : Env} {stores : GroupName → Bool} {fd : Int} {auth : Bool}
    {groups groups' : List GroupRecord} {pool pool' : List McastEntry} {name : GroupName}
    {addr : McastEntry} (h : GroupStep env stores fd auth groups pool (.createGroup (some name))
      (.groupInfo addr) groups' pool') : ∀ x ∈ MeshChat.memberships groups fd, x.1 ≠ name := by
  cases h with
  | created _ hnew =>
    rintro x ⟨g, hg, -, rfl⟩
    exact hnew g hg
  | other hreq => cases hreq

section Sessions
variable {users : List UserRecord} {fd fd' : Int}

theorem sessions_register {front back : List UserRecord} (hsplit : users = front ++ back)
    (name : Username) (pass : Password) (fd : Int) :
    sessions (front ++ .fresh name pass :: back) fd = sessions users fd := by
  ext name'
  constructor
  · rintro ⟨u, hu, hactive, hfd, rfl⟩
    rcases List.mem_cons.mp (List.perm_middle.mem_iff.mp hu) with rfl | hu
    · exact absurd rfl hactive
    · exact ⟨u, hsplit ▸ hu, hactive, hfd, rfl⟩
  · rintro ⟨u, hu, hactive, hfd, rfl⟩
    exact ⟨u, List.perm_middle.mem_iff.mpr (List.mem_cons_of_mem _ (hsplit ▸ hu)), hactive, hfd, rfl⟩

theorem sessions_login {u : UserRecord} (hnames : (users.map (·.username)).Nodup) (hu : u ∈ users)
    (hin : u.loggedIn = 0) :
    sessions (editUser users u.username (.bound fd)) fd = insert u.username (sessions users fd) ∧
      ∀ fd', fd' ≠ fd →
        sessions (editUser users u.username (.bound fd)) fd' = sessions users fd' := by
  have hkept : ∀ v ∈ users, v.loggedIn ≠ 0 → v ∈ editUser users u.username (.bound fd) := by
    intro v hv hactive
    refine KeyedList.mem_edit.mpr ⟨v, hv, (if_neg fun hname => hactive ?_).symm⟩
    rw [List.inj_on_of_nodup_map hnames hv hu hname, hin]
  have hmem : ∀ v ∈ editUser users u.username (.bound fd),
      v.socketFd = fd ∧ v.username = u.username ∨ v ∈ users := by
    intro v hv
    obtain ⟨w, hw, rfl⟩ := KeyedList.mem_edit.mp hv
    split
    · exact Or.inl ⟨rfl, ‹_›⟩
    · exact Or.inr hw
  constructor
  · ext name
    constructor
    · rintro ⟨v, hv, hactive, hfd, rfl⟩
      rcases hmem v hv with ⟨_, hname⟩ | hv
      · exact Or.inl hname
      · exact Or.inr ⟨v, hv, hactive, hfd, rfl⟩
    · rintro (rfl | ⟨v, hv, hactive, hfd, rfl⟩)
      · exact ⟨u.bound fd, KeyedList.mem_edit.mpr ⟨u, hu, (if_pos rfl).symm⟩, one_ne_zero, rfl, rfl⟩
      · exact ⟨v, hkept v hv hactive, hactive, hfd, rfl⟩
  · intro fd' hne
    ext name
    constructor
    · rintro ⟨v, hv, hactive, hfd, rfl⟩
      rcases hmem v hv with ⟨hfd', _⟩ | hv
      · exact absurd (hfd.symm.trans hfd') hne
      · exact ⟨v, hv, hactive, hfd, rfl⟩
    · rintro ⟨v, hv, hactive, hfd, rfl⟩
      exact ⟨v, hkept v hv hactive, hactive, hfd, rfl⟩

/-- A record on another descriptor survives the end of a session. -/
theorem mem_clearHolder_of_ne {u : UserRecord} (hnames : (users.map (·.username)).Nodup)
    (hu : u ∈ users) (hne : u.socketFd ≠ fd) : u ∈ clearHolder users fd := by
  unfold clearHolder
  cases hholder : holder users fd with
  | none => exact hu
  | some w =>
    obtain ⟨hw, hwfd⟩ := holder_eq_some hholder
    refine KeyedList.mem_edit.mpr ⟨u, hu, (if_neg fun hname => hne ?_).symm⟩
    rw [List.inj_on_of_nodup_map hnames hu hw hname, hwfd]

theorem sessions_clear (hnames : (users.map (·.username)).Nodup) (honce : CarriedOnce users fd)
    (hfd : fd ≠ -1) :
    sessions (clearHolder users fd) fd = ∅ ∧
      ∀ fd', fd' ≠ fd → sessions (clearHolder users fd) fd' = sessions users fd' := by
  constructor
  · rw [Set.eq_empty_iff_forall_notMem]
    rintro name ⟨u, hu, _, hufd, _⟩
    exact socketFd_ne_of_mem_clearHolder honce hfd hu hufd
  · intro fd' hne
    ext name
    constructor
    · rintro ⟨u, hu, hactive, hufd, rfl⟩
      rcases mem_clearHolder hu with hu | ⟨w, _, rfl⟩
      · exact ⟨u, hu, hactive, hufd, rfl⟩
      · exact absurd rfl hactive
    · rintro ⟨u, hu, hactive, rfl, rfl⟩
      exact ⟨u, mem_clearHolder_of_ne hnames hu hne, hactive, rfl, rfl⟩

end Sessions

/-- The same for the logged-in users. -/
theorem Server.SessionStep.sessions {env : Env} {fd : Int} {users users' : List UserRecord}
    {req : Request} {reply : Reply} (h : SessionStep env fd users req reply users')
    (hnames : (users.map (·.username)).Nodup)
    (hends : req.endsSession → CarriedOnce users fd ∧ fd ≠ -1) :
    MeshChat.sessions users' fd = View.usersAfter (MeshChat.sessions users fd) req reply ∧
      ∀ fd', fd' ≠ fd → MeshChat.sessions users' fd' = MeshChat.sessions users fd' := by
  cases h with
  | registered _ hsplit =>
    exact ⟨sessions_register hsplit _ _ fd, fun fd' _ => sessions_register hsplit _ _ fd'⟩
  | loggedIn hu hname _ hin =>
    subst hname
    exact sessions_login hnames hu hin
  | ended hreq =>
    rw [View.usersAfter_of_endsSession hreq]
    exact sessions_clear hnames (hends hreq).1 (hends hreq).2
  | other hreq => exact ⟨(View.usersAfter_of_leavesSessions hreq).symm, fun _ _ => rfl⟩
  | _ => exact ⟨rfl, fun _ _ => rfl⟩

end MeshChat
