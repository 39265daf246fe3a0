import MeshChat.Server.Addresses

/-!
# The order in which addresses are reused

The pool is a queue: a group takes the address at the front and gives it back at
the end. An address that comes back is therefore the last one to be given out
again, and a window that still uses it meets another group as late as possible.
-/
namespace MeshChat.Server
open Runs

/-- The groups of `groups` that have no namesake in `others`. -/
def missingFrom (others groups : List GroupRecord) : List GroupRecord :=
  groups.filter fun grp => decide (grp.name ∉ others.map (·.name))

/-- The addresses of the groups a call opens. -/
def openedAddrs (m : Move ServerContext CallLabel) : List McastEntry :=
  (missingFrom m.pre.groups m.post.groups).map (·.addr)

/-- The addresses of the groups a call closes. -/
def closedAddrs (m : Move ServerContext CallLabel) : List McastEntry :=
  (missingFrom m.post.groups m.pre.groups).map (·.addr)

theorem missingFrom_eq_nil {others groups : List GroupRecord}
    (h : ∀ grp ∈ groups, grp.name ∈ others.map (·.name)) : missingFrom others groups = [] := by
  apply List.filter_eq_nil_iff.mpr
  intro grp hg
  simpa using h grp hg

/-- Where the names that stay are those of the groups that fail `p`, the groups that
meet it are missing and no group is new. -/
theorem missingFrom_kept {groups : List GroupRecord} (hnames : (groups.map (·.name)).Nodup)
    (groups' : List GroupRecord) (p : GroupRecord → Bool)
    (hstays : ∀ name, name ∈ groups'.map (·.name) ↔
      ∃ grp ∈ groups, grp.name = name ∧ p grp = false) :
    missingFrom groups groups' = [] ∧ missingFrom groups' groups = groups.filter p := by
  constructor
  · apply missingFrom_eq_nil
    intro grp' hg'
    obtain ⟨grp, hg, hname, _⟩ := (hstays grp'.name).mp (List.mem_map_of_mem hg')
    rw [← hname]
    exact List.mem_map_of_mem hg
  · apply List.filter_congr
    intro grp hg
    have hkept : grp.name ∈ groups'.map (·.name) ↔ p grp = false := by
      rw [hstays]
      constructor
      · rintro ⟨g, hg', hname, hp⟩
        obtain rfl := List.inj_on_of_nodup_map hnames hg' hg hname
        exact hp
      · intro hp
        exact ⟨grp, hg, rfl, hp⟩
    cases hp : p grp with
    | true => simpa [hp] using hkept
    | false => simpa [hp] using hkept

/-- The names stay, so no group is missing or new. -/
theorem missingFrom_names {groups groups' : List GroupRecord}
    (h : groups'.map (·.name) = groups.map (·.name)) :
    missingFrom groups groups' = [] ∧ missingFrom groups' groups = [] := by
  constructor
  · apply missingFrom_eq_nil
    intro grp hg
    rw [← h]
    exact List.mem_map_of_mem hg
  · apply missingFrom_eq_nil
    intro grp hg
    rw [h]
    exact List.mem_map_of_mem hg

/-- With one group more, that group is what is missing. -/
theorem missingFrom_insert {front back : List GroupRecord} (grp : GroupRecord)
    (hnew : ∀ g ∈ front ++ back, g.name ≠ grp.name) :
    missingFrom (front ++ back) (front ++ grp :: back) = [grp] ∧
      missingFrom (front ++ grp :: back) (front ++ back) = [] := by
  have hkept : ∀ l : List GroupRecord, l ⊆ front ++ back → missingFrom (front ++ back) l = [] :=
    fun l hl => missingFrom_eq_nil fun g hg => List.mem_map_of_mem (hl hg)
  have hmissing : grp.name ∉ (front ++ back).map (·.name) := by
    intro hmem
    obtain ⟨g, hg, hname⟩ := List.mem_map.mp hmem
    exact hnew g hg hname
  constructor
  · calc missingFrom (front ++ back) (front ++ grp :: back)
        = missingFrom (front ++ back) front ++
            (grp :: missingFrom (front ++ back) back) := by
          rw [missingFrom, List.filter_append, List.filter_cons, if_pos (decide_eq_true hmissing)]
          rfl
      _ = [grp] := by
          rw [hkept front (List.subset_append_left _ _), hkept back (List.subset_append_right _ _)]
          rfl
  · apply missingFrom_eq_nil
    intro g hg
    have hsub : (front ++ back).Sublist (front ++ grp :: back) :=
      (List.sublist_cons_self grp back).append_left front
    exact List.mem_map_of_mem (hsub.subset hg)

section Step
variable {env : Env} {stores : GroupName → Bool} {fd : Int} {auth : Bool}
  {groups groups' : List GroupRecord} {pool pool' : List McastEntry} {req : Request} {reply : Reply}

/-- What ends a session closes the groups it leaves empty. -/
theorem missingFrom_closed (hnames : (groups.map (·.name)).Nodup) (fd : Int) :
    missingFrom groups ((groups.map (.without fd)).filter
        fun g => decide (g.name ∉ (emptiedBy fd groups).map (·.name))) = [] ∧
      missingFrom ((groups.map (.without fd)).filter
        fun g => decide (g.name ∉ (emptiedBy fd groups).map (·.name))) groups =
          emptiedBy fd groups := by
  refine missingFrom_kept hnames _ _ fun name => ?_
  constructor
  · intro hmem
    obtain ⟨g, hg, rfl⟩ := List.mem_map.mp hmem
    obtain ⟨hin, hstays⟩ := List.mem_filter.mp hg
    obtain ⟨grp, hgrp, rfl⟩ := List.mem_map.mp hin
    have hout : (grp.without fd).name ∉ (emptiedBy fd groups).map (·.name) :=
      of_decide_eq_true hstays
    rw [grp.without_name fd] at hout
    refine ⟨grp, hgrp, (grp.without_name fd).symm, decide_eq_false fun hlast => hout ?_⟩
    exact List.mem_map_of_mem (mem_emptiedBy.mpr ⟨hgrp, hlast⟩)
  · rintro ⟨grp, hgrp, rfl, hstays⟩
    refine List.mem_map.mpr ⟨grp.without fd, List.mem_filter.mpr ⟨List.mem_map_of_mem hgrp, ?_⟩,
      grp.without_name fd⟩
    refine decide_eq_true fun hmem => ?_
    rw [grp.without_name fd] at hmem
    obtain ⟨g, hg, hname⟩ := List.mem_map.mp hmem
    obtain ⟨hin, hlast⟩ := mem_emptiedBy.mp hg
    obtain rfl := List.inj_on_of_nodup_map hnames hin hgrp hname
    exact of_decide_eq_false hstays hlast

/-- A request that keeps its session takes from the front and gives back at the end. -/
theorem GroupStep.queued (h : GroupStep env stores fd auth groups pool req reply groups' pool')
    (hreq : ¬ req.endsSession) (hnames : (groups.map (·.name)).Nodup) (hok : env.AllocOk)
    (hstores : ∀ name, stores name = true) :
    pool ++ (missingFrom groups' groups).map (·.addr) =
      (missingFrom groups groups').map (·.addr) ++ pool' := by
  have hsame : ∀ groups' : List GroupRecord, groups'.map (·.name) = groups.map (·.name) →
      pool ++ (missingFrom groups' groups).map (·.addr) =
        (missingFrom groups groups').map (·.addr) ++ pool := by
    intro groups' hkept
    rw [(missingFrom_names hkept).1, (missingFrom_names hkept).2]
    simp
  cases h with
  | createFailed hauth hnew hpool hfails => simp [hstores] at hfails
  | created hauth hnew hpool hstored hsplit =>
    subst hsplit
    rename_i name addr front back
    have hone := missingFrom_insert ((GroupRecord.opened name addr).enrol env fd) hnew
    rw [hone.1, hone.2, hpool]
    exact List.append_nil _
  | joined hauth hg hfd hroom =>
    exact hsame _ (KeyedList.map_edit fun g _ _ => show (g.enrol env fd).name = g.name from rfl)
  | left hg hfd hmore =>
    exact hsame _ (KeyedList.map_edit fun g _ _ => g.without_name fd)
  | leftLast hg hfd hone =>
    rename_i grp
    have hkept := missingFrom_kept hnames (groups.filter fun g => decide (g.name ≠ grp.name))
      (fun g => decide (g.name = grp.name)) (by
        intro name
        simp only [List.mem_map, List.mem_filter, decide_eq_true_eq, decide_eq_false_iff_not]
        exact exists_congr fun g => by tauto)
    have hclosed : groups.filter (fun g => decide (g.name = grp.name)) = [grp] := by
      have hin : grp ∈ groups.filter fun g => decide (g.name = grp.name) :=
        List.mem_filter.mpr ⟨hg, decide_eq_true rfl⟩
      have hle := KeyedList.length_le_one GroupRecord.name
        (hnames.sublist (List.filter_sublist.map _)) (k := grp.name)
        fun g hg' => of_decide_eq_true (List.mem_filter.mp hg').2
      obtain ⟨g, hone⟩ := List.length_eq_one_iff.mp (le_antisymm hle (List.length_pos_of_mem hin))
      rw [hone] at hin ⊢
      rw [List.mem_singleton.mp hin]
    rw [hkept.1, hkept.2, hclosed, handBack_of_ok fun k _ => hok _]
    rfl
  | ended hends => exact absurd hends hreq
  | _ => exact hsame groups rfl

end Step

theorem CallStep.queued {ctx ctx' : ServerContext} {label : CallLabel} (h : AddressesOk ctx)
    (hok : label.env.AllocOk) (hs : CallStep ctx label ctx') :
    ctx.pool ++ closedAddrs ⟨ctx, label, ctx'⟩ = openedAddrs ⟨ctx, label, ctx'⟩ ++ ctx'.pool := by
  have hnames := h.groups.names
  have hcleaned : ∀ env fd, env.AllocOk → ctx' = cleanupClient env ctx fd →
      ctx.pool ++ closedAddrs ⟨ctx, label, ctx'⟩ =
        openedAddrs ⟨ctx, label, ctx'⟩ ++ ctx'.pool := by
    intro env fd hok hctx
    obtain ⟨hgroups, hpool⟩ :=
      (cleanupClient_closed h.groups h.addressed.length_le env fd).1.contents
    have hgone := missingFrom_closed hnames fd
    rw [closedAddrs, openedAddrs, hctx, hgroups, hpool, hgone.1, hgone.2,
      handBack_of_ok fun k _ => hok _]
    rfl
  obtain ⟨env, call⟩ := label
  cases call with
  | dispatch fd msg =>
    by_cases hreq : (Request.ofMsg msg).endsSession
    · exact hcleaned env fd hok (hs.trans (dispatch_ending env ctx fd hreq).1)
    · obtain ⟨reply, groups', pool', hgroups, -, -, hstep⟩ :=
        dispatch_running h.groups h.addressed h.keyed env fd msg hreq
      obtain ⟨hgroups', hpool'⟩ := hgroups.contents
      have hq := hstep.queued hreq hnames hok (storesGroup_of_allocOk hok ctx)
      rw [← hgroups', ← hpool'] at hq
      rw [closedAddrs, openedAddrs, hs]
      exact hq
  | disconnect fd => exact hcleaned env fd hok hs

/-- Addresses are reused first in, first out. Whatever calls follow on a reachable
context, without a failing allocation: the addresses that were free and those given
back since are, in this order, those given out since and those that are free. So an
address with `k` others before it stays free, and no group has it, until more than `k`
groups were opened. -/
theorem addresses_reused_in_order {alloc : ℕ → Bool} {ctx₀ ctx ctx' : ServerContext}
    {past moves : List (Move ServerContext CallLabel)} (h0 : serverCreate alloc = some ctx₀)
    (hpast : Run CallStep ctx₀ past ctx) (hr : Run CallStep ctx moves ctx')
    (hok : AllAllocOk moves) :
    ctx.pool ++ moves.flatMap closedAddrs = moves.flatMap openedAddrs ++ ctx'.pool ∧
      ∀ k addr, ctx.pool[k]? = some addr → (moves.flatMap openedAddrs).length ≤ k →
        ctx'.pool[k - (moves.flatMap openedAddrs).length]? = some addr ∧
          ∀ grp ∈ ctx'.groups, grp.addr ≠ addr := by
  have hstart := addressesOk_of_run h0 hpast
  obtain ⟨hend, hqueue⟩ := hr.queued ServerContext.pool closedAddrs openedAddrs
    (I := AddressesOk) (G := fun _ label => label.env.AllocOk) hstart
    (fun s label t hi he hs => ⟨by rw [hs]; exact hi.call label, hs.queued hi he⟩) hok
  refine ⟨hqueue, fun k addr hk hle => ?_⟩
  have hfront : (ctx.pool ++ moves.flatMap closedAddrs)[k]? = some addr := by
    rw [List.getElem?_append_left (List.getElem?_eq_some_iff.mp hk).1]
    exact hk
  rw [hqueue, List.getElem?_append_right hle] at hfront
  refine ⟨hfront, fun grp hg heq => ?_⟩
  have hapart := (List.nodup_append.mp hend.addressed.nodup).2.2
  exact hapart _ (List.mem_map_of_mem hg) _ (List.mem_of_getElem? hfront) heq

/-- The only user closes its group and opens it anew. -/
def reopening : List Call :=
  [.dispatch 0 (groupMsg .leaveGroup 0), .dispatch 0 (groupMsg .createGroup 0)]

/-- The new group gets the second address, and the first one waits behind all others. -/
theorem addresses_reused_in_order_reopening :
    let ctx := afterQuietCalls started (crowd 1)
    let moves := quietCalls ctx reopening
    ctx.pool ++ moves.flatMap closedAddrs =
        moves.flatMap openedAddrs ++ (afterQuietCalls ctx reopening).pool ∧
      (afterQuietCalls ctx reopening).pool[2]? = some (poolEntry 4) ∧
      (afterQuietCalls ctx reopening).pool[14]? = some (poolEntry 0) := by
  intro ctx moves
  have hreused := addresses_reused_in_order serverCreate_started
    (run_quietCalls started (crowd 1)) (run_quietCalls ctx reopening) quietCalls_allocOk
  have hone : (moves.flatMap openedAddrs).length = 1 := by decide +kernel
  have hfourth := (hreused.2 3 (poolEntry 4) (by decide +kernel) (by rw [hone]; decide)).1
  rw [hone] at hfourth
  exact ⟨hreused.1, hfourth, by decide +kernel⟩

end MeshChat.Server
