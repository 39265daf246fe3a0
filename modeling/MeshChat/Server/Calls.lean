import MeshChat.Lib.Runs
import MeshChat.Server.GroupRequests

/-!
# Runs of calls

The network layer drives the business logic through `dispatch_message` and
`client_disconnected`. A run is any sequence of such calls from the context
that `server_create` returns, each with its own allocation outcomes. `NoLoss`
is the condition on one call under which the group table stays sound; every
call without a failing allocation meets it.
-/
namespace MeshChat.Server
open Runs

inductive Call where
  | dispatch (fd : Int) (msg : TLVMessage)
  | disconnect (fd : Int)

/-- The context after a call, and the messages it sent. -/
def runCall (env : Env) (ctx : ServerContext) : Call → ServerContext × List Sent
  | .dispatch fd msg =>
      let r := dispatchMessage env ctx fd msg
      (r.1, r.2.1)
  | .disconnect fd => (clientDisconnected env ctx fd, [])

namespace Call

def fd : Call → Int
  | .dispatch fd _ | .disconnect fd => fd

/-- What the call asks for; a disconnect ends the session as an exit does. -/
def request : Call → Request
  | .dispatch _ msg => .ofMsg msg
  | .disconnect _ => .exit

end Call

/-- A call with what the environment decided during it. -/
structure CallLabel where
  env : Env
  call : Call

/-- The context after a labelled call. -/
def afterCall (ctx : ServerContext) (label : CallLabel) : ServerContext :=
  (runCall label.env ctx label.call).1

def CallStep (ctx : ServerContext) (label : CallLabel) (ctx' : ServerContext) : Prop :=
  ctx' = afterCall ctx label

theorem preload_spec (alloc : ℕ → Bool) (left i : ℕ) {queue queue' : Queue McastEntry}
    (hq : queue.Represents ((List.range i).map poolEntry)) (hsize : queue.size = multicastPoolSize)
    (hi : i + left ≤ multicastPoolSize) (h : preload alloc left i queue = some queue') :
    queue'.Represents ((List.range (i + left)).map poolEntry) ∧
      queue'.size = multicastPoolSize := by
  induction left generalizing i queue with
  | zero =>
    obtain rfl := Option.some.inj h
    exact ⟨hq, hsize⟩
  | succ left ih =>
    obtain ⟨hs, hsize', hq'⟩ := hq.insert (by
      rw [List.length_map, List.length_range, hsize]
      omega) (poolEntry i)
    rw [preload] at h
    split at h
    · contradiction
    · rw [if_pos hs] at h
      have hnext : (List.range i).map poolEntry ++ [poolEntry i] =
          (List.range (i + 1)).map poolEntry := by
        rw [List.range_succ, List.map_append]
        rfl
      rw [hnext] at hq'
      have hdone := ih (i + 1) hq' (hsize'.trans hsize) (by omega) h
      rwa [Nat.add_right_comm, Nat.add_assoc] at hdone

theorem userMap_capacity : nextPrime (UInt64.ofNat maxClients) = some 67 := by decide

theorem groupMap_capacity : nextPrime (UInt64.ofNat maxGroups) = some 17 := by decide

/-- A created string map is empty. -/
theorem stringMap_create {cap : ℕ} {V : Type} (name : V → CharArray cap)
    {allocMap allocBuckets : Bool} {capacity prime : UInt64} {map : StringMap cap V}
    (hmin : ¬ capacity < minCapacity) (hprime : nextPrime capacity = some prime)
    (hpos : 0 < prime.toNat) (h : HashMap.create allocMap allocBuckets capacity = some map) :
    Keyed name map ∧ records map = [] := by
  obtain ⟨hwf, hempty⟩ := HashMap.create_wf hpos (by rwa [if_neg hmin]) h
  refine ⟨⟨hwf, fun pair hp => ?_⟩, by rw [records, hempty]; rfl⟩
  rw [hempty] at hp
  cases hp

/-- A context as the server starts with: no user, no group, no connection, and
every address free. -/
structure Initial (ctx : ServerContext) : Prop where
  keyed : Keyed UserRecord.username ctx.userMap
  users : ctx.users = []
  groups : HasGroups ctx [] poolEntries
  clientFds : ctx.clientFds = List.replicate maxClients (-1)

theorem serverCreate_initial {alloc : ℕ → Bool} {ctx : ServerContext}
    (h : serverCreate alloc = some ctx) : Initial ctx := by
  unfold serverCreate at h
  split at h
  · contradiction
  split at h
  · contradiction
  rename_i userMap huser
  split at h
  · contradiction
  rename_i groupMap hgroup
  split at h
  · contradiction
  rename_i queue hqueue
  split at h
  · contradiction
  rename_i mcastQueue hpre
  obtain rfl := Option.some.inj h
  obtain ⟨hku, hru⟩ := stringMap_create UserRecord.username (by decide) userMap_capacity
    (by decide) huser
  obtain ⟨hkg, hrg⟩ := stringMap_create GroupRecord.name (by decide) groupMap_capacity
    (by decide) hgroup
  obtain ⟨hsize, hempty⟩ := Queue.create_represents (by decide) hqueue
  obtain ⟨hrep, hsize'⟩ := preload_spec alloc multicastPoolSize 0 hempty hsize (by decide) hpre
  rw [Nat.zero_add] at hrep
  exact ⟨hku, hru, ⟨hkg, hrg, hrep, hsize'⟩, rfl⟩

/-- The server starts when no allocation fails. -/
theorem serverCreate_isSome : (serverCreate fun _ => true).isSome = true := by decide

/-- The context of a start without failing allocations. -/
def started : ServerContext := (serverCreate fun _ => true).get serverCreate_isSome

theorem serverCreate_started : serverCreate (fun _ => true) = some started :=
  (Option.some_get serverCreate_isSome).symm

/-- The full effect of one call on both tables. Every message it sends goes to
its descriptor and says what the reply says. -/
theorem runCall_spec {ctx : ServerContext} {groups : List GroupRecord} {pool : List McastEntry}
    (h : HasGroups ctx groups pool) (hok : TableOk groups pool)
    (hk : Keyed UserRecord.username ctx.userMap) (env : Env) (call : Call) :
    ∃ reply groups' pool', Keyed UserRecord.username (runCall env ctx call).1.userMap ∧
      HasGroups (runCall env ctx call).1 groups' pool' ∧
      (∀ sent ∈ (runCall env ctx call).2, sent.fd = call.fd ∧ reply.Describes sent.msg) ∧
      SessionStep env call.fd ctx.users call.request reply (runCall env ctx call).1.users ∧
      GroupStep env (storesGroup env ctx) call.fd (authenticated ctx.users call.fd) groups pool
        call.request reply groups' pool' := by
  cases call with
  | dispatch fd msg =>
    obtain ⟨reply, groups', pool', hk', hgroups, ⟨m, hsent, hm⟩, _, hsession, hstep⟩ :=
      dispatch_spec h hok hk env fd msg
    refine ⟨reply, groups', pool', hk', hgroups, fun sent hs => ?_, hsession, hstep⟩
    rw [runCall, hsent, List.mem_singleton] at hs
    subst hs
    exact ⟨rfl, hm⟩
  | disconnect fd =>
    obtain ⟨hk', husers, _⟩ := cleanupClient_users hk env fd
    refine ⟨.success, _, _, hk', (cleanupClient_groups h hok env fd).1, fun sent hs => ?_, ?_,
      .ended trivial⟩
    · cases hs
    · change SessionStep env fd ctx.users .exit .success (cleanupClient env ctx fd).users
      rw [husers]
      exact .ended trivial

/-- One-letter names. -/
def nameOf (i : ℕ) : CharArray maxGroupNameLen :=
  CharArray.ofBytes [UInt8.ofNat (65 + i)] (by rw [List.length_singleton]; decide)

/-- The auth request of the `i`-th user, as the client builds it. -/
def authMsg (tag : MessageTag) (i : ℕ) : TLVMessage :=
  (buildAuthMsg .blank tag (nameOf i).toCStr (nameOf i).toCStr).getD .blank

/-- A request for the group named `nameOf i`. -/
def groupMsg (tag : MessageTag) (i : ℕ) : TLVMessage :=
  (buildGroupMsg .blank tag (nameOf i).toCStr).getD .blank

/-- A logout or exit request. -/
def simpleMsg (tag : MessageTag) : TLVMessage := (buildSimpleMsg .blank tag).getD .blank

/-- Users `0` to `n - 1`, each on a descriptor of its own, in one group. -/
def crowd (n : ℕ) : List Call :=
  (List.range n).flatMap fun i : ℕ =>
    [.dispatch i (authMsg .register i), .dispatch i (authMsg .login i),
      .dispatch i (groupMsg (if i = 0 then .createGroup else .joinGroup) 0)]

/-- A call in a quiet environment. -/
def quietCall (ctx : ServerContext) (call : Call) : CallLabel × ServerContext :=
  (⟨.quiet, call⟩, afterCall ctx ⟨.quiet, call⟩)

/-- Calls one after another in a quiet environment. -/
def quietCalls : ServerContext → List Call → List (Move ServerContext CallLabel) := play quietCall

def afterQuietCalls : ServerContext → List Call → ServerContext := playEnd quietCall

theorem run_quietCalls (ctx : ServerContext) (calls : List Call) :
    Run CallStep ctx (quietCalls ctx calls) (afterQuietCalls ctx calls) :=
  Run.start.play calls (forall_mem_play fun _ _ => rfl)

theorem quietCalls_allocOk {ctx : ServerContext} {calls : List Call} :
    ∀ m ∈ quietCalls ctx calls, m.label.env.AllocOk :=
  forall_mem_play fun _ _ => Env.quiet_allocOk

/-- The environment in which one allocation fails. -/
def Env.without (site : AllocSite) : Env := ⟨fun s => decide (s ≠ site), .blank⟩

/-- Calls one after another, each in its own environment. -/
def labelledCalls : ServerContext → List CallLabel → List (Move ServerContext CallLabel) :=
  play (attempt fun ctx label => some (afterCall ctx label))

def afterLabelledCalls : ServerContext → List CallLabel → ServerContext :=
  playEnd (attempt fun ctx label => some (afterCall ctx label))

theorem run_labelledCalls (ctx : ServerContext) (labels : List CallLabel) :
    Run CallStep ctx (labelledCalls ctx labels) (afterLabelledCalls ctx labels) :=
  Run.start.play labels (forall_mem_play fun _ _ => rfl)

/-- Two users are in a group, and one of them finds no memory to open another. -/
def scarceCrowd : List CallLabel :=
  (crowd 2).map (⟨.quiet, ·⟩) ++
    [⟨.without .groupRecord, .dispatch 0 (groupMsg .createGroup 1)⟩]

/-- A third user joins them, without memory for the node of the member list. -/
def scarceJoin : List CallLabel :=
  scarceCrowd ++ [⟨.quiet, .dispatch 2 (authMsg .register 2)⟩,
    ⟨.quiet, .dispatch 2 (authMsg .login 2)⟩,
    ⟨.without .memberNode, .dispatch 2 (groupMsg .joinGroup 0)⟩]

end MeshChat.Server
