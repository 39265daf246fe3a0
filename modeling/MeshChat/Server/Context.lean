import MeshChat.Protocol
import MeshChat.Ds.GenQueue
import MeshChat.Ds.HashMap

/-!
# Server state

The records of `server.h`, the hash and equality of its two maps, and
`server_create`. A record lives in exactly one map entry, so maps hold records
by value and a record pointer is the key that finds it.
-/
namespace MeshChat.Server

abbrev maxClients : ℕ := 64
abbrev maxGroups : ℕ := 16
abbrev maxMembersPerGroup : ℕ := 32
abbrev multicastPoolSize : ℕ := 16
abbrev multicastBasePort : UInt16 := 5000

/-- The ASCII bytes of `MULTICAST_BASE_IP`. -/
def multicastBaseIp : List UInt8 :=
  ['2', '2', '4', '.', '0', '.', '0', '.', '1'].map fun c => UInt8.ofNat c.toNat

structure McastEntry where
  ip : CharArray mcastIpLen
  port : UInt16
  deriving DecidableEq

structure UserRecord where
  username : CharArray maxUsernameLen
  password : CharArray maxPasswordLen
  loggedIn : Int
  socketFd : Int
  deriving DecidableEq

structure GroupRecord where
  name : CharArray maxGroupNameLen
  mcastIp : CharArray mcastIpLen
  mcastPort : UInt16
  members : List Int
  memberCount : Int
  deriving DecidableEq

/-- The djb2 variant `hash_string`, modulo 2^64. -/
def hashString {cap : ℕ} (key : CharArray cap) : UInt64 :=
  key.bytes.foldl (fun hash c => ((hash <<< 5) + hash) ^^^ c.toUInt64) 5381

def equalString {cap : ℕ} (a b : CharArray cap) : Bool := strcmpEq a.toCStr b.toCStr

theorem equalString_iff {cap : ℕ} {a b : CharArray cap} : equalString a b = true ↔ a = b :=
  strcmpEq_iff a b

theorem equalString_eq_decide {cap : ℕ} (a b : CharArray cap) :
    equalString a b = decide (a = b) := by
  rw [Bool.eq_iff_iff, equalString_iff, decide_eq_true_eq]

theorem string_laws (cap : ℕ) : HashMap.KeyLaws (@hashString cap) equalString where
  refl _ := equalString_iff.mpr rfl
  symm _ _ h := equalString_iff.mpr (equalString_iff.mp h).symm
  trans _ _ _ h h' := equalString_iff.mpr ((equalString_iff.mp h).trans (equalString_iff.mp h'))
  hash_eq _ _ h := congrArg hashString (equalString_iff.mp h)

abbrev UserMap := HashMap (@hashString maxUsernameLen) equalString UserRecord
abbrev GroupMap := HashMap (@hashString maxGroupNameLen) equalString GroupRecord

structure ServerContext where
  listenFd : Int
  clientFds : List Int
  running : Bool
  userMap : UserMap
  groupMap : GroupMap
  mcastQueue : Queue McastEntry

/-- The allocations one request or disconnect may make. Each runs at most once
in it, except that `close_empty_group` allocates anew for every group it closes. -/
inductive AllocSite where
  | userRecord | groupRecord | memberList | bucketList | pair | pairNode | memberNode
  | mcastEntry (closing : ℕ)
  deriving DecidableEq

/-- What the environment decides in one event: the outcome of every allocation
and the old bytes of the handlers' uninitialised replies. -/
structure Env where
  alloc : AllocSite → Bool
  stack : TLVMessage

def Env.insertAlloc (env : Env) : InsertAlloc :=
  ⟨env.alloc .bucketList, env.alloc .pair, env.alloc .pairNode⟩

/-- No allocation fails. -/
def Env.AllocOk (env : Env) : Prop := ∀ site, env.alloc site = true

/-- No allocation fails and the stack is zeroed. -/
def Env.quiet : Env := ⟨fun _ => true, .blank⟩

theorem Env.quiet_allocOk : Env.quiet.AllocOk := fun _ => rfl

/-- `ntohl(inet_addr(s))` for a dotted quad. -/
def inetAddr (s : List UInt8) : UInt32 :=
  let r := s.foldl (fun (acc : UInt32 × UInt32) c =>
    if c = 46 then (acc.1 * 256 + acc.2, 0) else (acc.1, acc.2 * 10 + (c.toUInt32 - 48))) (0, 0)
  r.1 * 256 + r.2

def digit (d : ℕ) : UInt8 := UInt8.ofNat (48 + d % 10)

/-- The decimal digits of a byte, without leading zeros. -/
def octetDigits (n : ℕ) : List UInt8 :=
  if n < 10 then [digit n]
  else if n < 100 then [digit (n / 10), digit n]
  else [digit (n / 100), digit (n / 10), digit n]

theorem digit_ne_zero (d : ℕ) : digit d ≠ 0 := by
  intro h
  have := congrArg UInt8.toNat h
  rw [digit, toNat_ofNat_lt (by omega)] at this
  change 48 + d % 10 = 0 at this
  omega

theorem octetDigits_nul_free (n : ℕ) : 0 ∉ octetDigits n := by
  unfold octetDigits
  split_ifs <;> simp [(digit_ne_zero _).symm]

theorem octetDigits_length_le (n : ℕ) : (octetDigits n).length ≤ 3 := by
  unfold octetDigits
  split_ifs <;> simp

/-- `inet_ntop(AF_INET, ..)` of an address given in host byte order. -/
def inetNtop (addr : UInt32) : CharArray mcastIpLen where
  bytes := octetDigits (addr.toNat / 2 ^ 24) ++ 46 :: octetDigits (addr.toNat / 2 ^ 16 % 256) ++
    46 :: octetDigits (addr.toNat / 2 ^ 8 % 256) ++ 46 :: octetDigits (addr.toNat % 256)
  nul_free := by simp [octetDigits_nul_free]
  fits := by
    have h1 := octetDigits_length_le (addr.toNat / 2 ^ 24)
    have h2 := octetDigits_length_le (addr.toNat / 2 ^ 16 % 256)
    have h3 := octetDigits_length_le (addr.toNat / 2 ^ 8 % 256)
    have h4 := octetDigits_length_le (addr.toNat % 256)
    simp only [List.length_append, List.length_cons]
    change _ < 16
    omega

/-- The `i`-th address preloaded into the pool. -/
def poolEntry (i : ℕ) : McastEntry :=
  ⟨inetNtop (inetAddr multicastBaseIp + UInt32.ofNat i), multicastBasePort⟩

/-- The preloading loop, from entry `i` on; entry `i` is allocation `7 + i`. -/
def preload (alloc : ℕ → Bool) : ℕ → ℕ → Queue McastEntry → Option (Queue McastEntry)
  | 0, _, queue => some queue
  | left + 1, i, queue =>
      if !alloc (7 + i) then none
      else
        let r := queue.insert (poolEntry i)
        if r.1 = .success then preload alloc left (i + 1) r.2 else none

/-- `server_create`; `alloc n` is the outcome of its `n`-th allocation. -/
def serverCreate (alloc : ℕ → Bool) : Option ServerContext :=
  if !alloc 0 then none
  else
    match HashMap.create (alloc 1) (alloc 2) (UInt64.ofNat maxClients) with
    | none => none
    | some userMap =>
        match HashMap.create (alloc 3) (alloc 4) (UInt64.ofNat maxGroups) with
        | none => none
        | some groupMap =>
            match Queue.create (alloc 5) (alloc 6) multicastPoolSize with
            | none => none
            | some queue =>
                match preload alloc multicastPoolSize 0 queue with
                | none => none
                | some mcastQueue =>
                    some { listenFd := -1, clientFds := List.replicate maxClients (-1),
                           running := true, userMap, groupMap, mcastQueue }

/-- The addresses preloaded by `server_create`. -/
def poolEntries : List McastEntry := (List.range multicastPoolSize).map poolEntry

theorem poolEntries_nodup : poolEntries.Nodup := by decide

/-- Every pool address is a non-empty string. -/
theorem poolEntries_ip_pos : ∀ e ∈ poolEntries, 0 < strlen e.ip.toCStr := by decide

namespace ServerContext

/-- The user records in iteration order. -/
def users (ctx : ServerContext) : List UserRecord := ctx.userMap.entries.map (·.value)

/-- The group records in iteration order. -/
def groups (ctx : ServerContext) : List GroupRecord := ctx.groupMap.entries.map (·.value)

/-- The free addresses, next one first. -/
def pool (ctx : ServerContext) : List McastEntry := ctx.mcastQueue.toList

end ServerContext

/-- The address a group uses. -/
def GroupRecord.addr (grp : GroupRecord) : McastEntry := ⟨grp.mcastIp, grp.mcastPort⟩

end MeshChat.Server
