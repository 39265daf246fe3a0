import Mathlib.Data.List.GetD
import Mathlib.Data.List.Pairwise
import MeshChat.Ds.DList
import MeshChat.Lib.KeyedList

/-!
# The chained hash map

`HashMap.c` on the sequence level: an array of lazily allocated chains, searched
and edited in the bucket the hash selects. The hash and equality functions are
fixed when a map is created, so they are parameters of its type. A pointer to a
stored value is the key that finds it: `modify` is a write through one.
-/
namespace MeshChat

structure KeyValuePair (K V : Type*) where
  key : K
  value : V
  deriving DecidableEq

inductive MapResult where
  | success | uninitializedError | keyNullError | keyDuplicateError | keyNotFoundError
  | allocationError
  deriving DecidableEq, Repr

/-- A map whose bucket is `none` until a list is allocated for it. -/
structure HashMap {K : Type*} (hashFunc : K → UInt64) (keysEqualFunc : K → K → Bool)
    (V : Type*) where
  buckets : List (Option (List (KeyValuePair K V)))
  size : ℕ

/-- Outcomes of the allocations in one `HashMap_Insert`. -/
structure InsertAlloc where
  list : Bool
  pair : Bool
  node : Bool

/-- The trial division of `IsPrime` from `i` on, with `i * i` modulo 2^64.
`none` is a loop that has not ended when the fuel has. -/
def isPrimeLoop (n : UInt64) : ℕ → UInt64 → Option Bool
  | 0, _ => none
  | fuel + 1, i =>
      if i * i ≤ n then
        if n % i = 0 then some false else isPrimeLoop n fuel (i + 2)
      else some true

/-- `IsPrime`; an odd 64-bit counter takes fewer than 2^63 values. -/
def isPrime (n : UInt64) : Option Bool :=
  if n < 2 then some false
  else if n = 2 then some true
  else if n % 2 = 0 then some false
  else isPrimeLoop n (2 ^ 63) 3

def nextPrimeLoop : ℕ → UInt64 → Option UInt64
  | 0, _ => none
  | fuel + 1, n =>
      match isPrime n with
      | none => none
      | some true => some n
      | some false => nextPrimeLoop fuel (n + 1)

/-- `NextPrime`: counts up, modulo 2^64, to the next prime. -/
def nextPrime (n : UInt64) : Option UInt64 :=
  nextPrimeLoop (2 ^ 64) (if n < 2 then 2 else n)

abbrev minCapacity : UInt64 := 4

namespace HashMap
variable {K V : Type*} {hashFunc : K → UInt64} {keysEqualFunc : K → K → Bool}

/-- `HashMap_Create` with the outcomes of its two allocations. -/
def create (allocMap allocBuckets : Bool) (capacity : UInt64) :
    Option (HashMap hashFunc keysEqualFunc V) :=
  match nextPrime (if capacity < minCapacity then minCapacity else capacity) with
  | none => none
  | some primeCapacity =>
      if !allocMap then none
      else if !allocBuckets then none
      else some { buckets := List.replicate primeCapacity.toNat none, size := 0 }

def bucketIndex (map : HashMap hashFunc keysEqualFunc V) (key : K) : ℕ :=
  (hashFunc key).toNat % map.buckets.length

/-- The list of a bucket, if one has been allocated. -/
def bucket (map : HashMap hashFunc keysEqualFunc V) (idx : ℕ) :
    Option (List (KeyValuePair K V)) :=
  map.buckets.getD idx none

/-- `FindPairAction`; the context is `foundPair`. -/
def findPairAction (keysEqualFunc : K → K → Bool) (searchKey : K) (pair : KeyValuePair K V)
    (foundPair : Option (KeyValuePair K V)) :
    KeyValuePair K V × Option (KeyValuePair K V) × Bool :=
  if keysEqualFunc pair.key searchKey then (pair, some pair, false) else (pair, foundPair, true)

def searchList (keysEqualFunc : K → K → Bool) (searchKey : K) (list : List (KeyValuePair K V)) :
    Option (KeyValuePair K V) :=
  (listItrForEach (findPairAction keysEqualFunc searchKey) list none).2.1

/-- `HashMap_Insert`. A bucket list allocated for an insert that then fails stays. -/
def insert (alloc : InsertAlloc) (map : HashMap hashFunc keysEqualFunc V) (key : K) (value : V) :
    MapResult × HashMap hashFunc keysEqualFunc V :=
  let idx := map.bucketIndex key
  match (map.bucket idx).or (if alloc.list then some [] else none) with
  | none => (.allocationError, map)
  | some list =>
      let map := { map with buckets := map.buckets.set idx (some list) }
      match searchList keysEqualFunc key list with
      | some _ => (.keyDuplicateError, map)
      | none =>
          if !alloc.pair then (.allocationError, map)
          else
            match listPushHead alloc.node list ⟨key, value⟩ with
            | none => (.allocationError, map)
            | some list =>
                (.success, { buckets := map.buckets.set idx (some list), size := map.size + 1 })

/-- Every allocation that an insert under an absent key makes succeeds. -/
def insertAllocOk (alloc : InsertAlloc) (map : HashMap hashFunc keysEqualFunc V) (key : K) : Bool :=
  ((map.bucket (map.bucketIndex key)).isSome || alloc.list) && alloc.pair && alloc.node

/-- `HashMap_Remove`: the pair handed back on success and the map. -/
def remove (map : HashMap hashFunc keysEqualFunc V) (searchKey : K) :
    Option (KeyValuePair K V) × HashMap hashFunc keysEqualFunc V :=
  let idx := map.bucketIndex searchKey
  match map.bucket idx with
  | none => (none, map)
  | some list =>
      let itr := list.findIdx fun pair => keysEqualFunc pair.key searchKey
      match list[itr]? with
      | none => (none, map)
      | some pair =>
          (some pair, { buckets := map.buckets.set idx (some (listItrRemove list itr)),
                        size := map.size - 1 })

/-- `HashMap_Find`; `none` is `MAP_KEY_NOT_FOUND_ERROR`. -/
def find (map : HashMap hashFunc keysEqualFunc V) (key : K) : Option V :=
  match map.bucket (map.bucketIndex key) with
  | none => none
  | some list => (searchList keysEqualFunc key list).map (·.value)

/-- A write through the value pointer that `find` returns for `key`. -/
def modify (map : HashMap hashFunc keysEqualFunc V) (key : K) (f : V → V) :
    HashMap hashFunc keysEqualFunc V :=
  { map with
    buckets := map.buckets.modify (map.bucketIndex key) fun bucket =>
      bucket.map fun list => list.map fun pair =>
        if keysEqualFunc pair.key key then { pair with value := f pair.value } else pair }

structure ForEachContext (σ : Type*) where
  userContext : σ
  invokeCount : ℕ
  stopped : Bool

/-- `ForEachAction`: the user action may write to the value it is given. -/
def forEachAction {σ : Type*} (userAction : K → V → σ → V × σ × Bool) (pair : KeyValuePair K V)
    (ctx : ForEachContext σ) : KeyValuePair K V × ForEachContext σ × Bool :=
  let r := userAction pair.key pair.value ctx.userContext
  ({ pair with value := r.1 },
    { userContext := r.2.1, invokeCount := ctx.invokeCount + 1, stopped := ctx.stopped || !r.2.2 },
    r.2.2)

/-- The loop of `HashMap_ForEach` over the buckets from some index on. -/
def forEachBuckets {σ : Type*} (userAction : K → V → σ → V × σ × Bool) :
    List (Option (List (KeyValuePair K V))) → ForEachContext σ →
      List (Option (List (KeyValuePair K V))) × ForEachContext σ
  | [], ctx => ([], ctx)
  | none :: buckets, ctx =>
      let rest := forEachBuckets userAction buckets ctx
      (none :: rest.1, rest.2)
  | some list :: buckets, ctx =>
      let r := listItrForEach (forEachAction userAction) list ctx
      if r.2.1.stopped then (some r.1 :: buckets, r.2.1)
      else
        let rest := forEachBuckets userAction buckets r.2.1
        (some r.1 :: rest.1, rest.2)

/-- `HashMap_ForEach`: the map as the action left it, the user context and the
number of invocations. -/
def forEach {σ : Type*} (map : HashMap hashFunc keysEqualFunc V)
    (action : K → V → σ → V × σ × Bool) (context : σ) :
    HashMap hashFunc keysEqualFunc V × σ × ℕ :=
  let r := forEachBuckets action map.buckets ⟨context, 0, false⟩
  ({ map with buckets := r.1 }, r.2.userContext, r.2.invokeCount)

/-- The stored pairs in iteration order. -/
def entries (map : HashMap hashFunc keysEqualFunc V) : List (KeyValuePair K V) :=
  (map.buckets.map (·.getD [])).flatten

def chain (map : HashMap hashFunc keysEqualFunc V) (i : ℕ) : List (KeyValuePair K V) :=
  (map.bucket i).getD []

/-- What a caller promises of its functions: equality is an equivalence and
equal keys hash equally. -/
structure KeyLaws (hashFunc : K → UInt64) (keysEqualFunc : K → K → Bool) : Prop where
  refl : ∀ a, keysEqualFunc a a = true
  symm : ∀ a b, keysEqualFunc a b = true → keysEqualFunc b a = true
  trans : ∀ a b c, keysEqualFunc a b = true → keysEqualFunc b c = true →
    keysEqualFunc a c = true
  hash_eq : ∀ a b, keysEqualFunc a b = true → hashFunc a = hashFunc b

structure Wf (map : HashMap hashFunc keysEqualFunc V) : Prop where
  capacity_pos : 0 < map.buckets.length
  placed : ∀ i, ∀ pair ∈ map.chain i, map.bucketIndex pair.key = i
  distinct : (map.entries.map (·.key)).Pairwise fun a b => keysEqualFunc a b = false
  size_eq : map.size = map.entries.length

/-- The pairs in the buckets before and after bucket `idx`. -/
def before (map : HashMap hashFunc keysEqualFunc V) (idx : ℕ) : List (KeyValuePair K V) :=
  ((map.buckets.take idx).map (·.getD [])).flatten

def after (map : HashMap hashFunc keysEqualFunc V) (idx : ℕ) : List (KeyValuePair K V) :=
  ((map.buckets.drop (idx + 1)).map (·.getD [])).flatten

/-- Replacing one bucket replaces its chain in the contents. -/
theorem entries_set (map : HashMap hashFunc keysEqualFunc V) {idx : ℕ}
    (h : idx < map.buckets.length) (bucket : Option (List (KeyValuePair K V))) (n : ℕ) :
    (⟨map.buckets.set idx bucket, n⟩ : HashMap hashFunc keysEqualFunc V).entries =
      map.before idx ++ bucket.getD [] ++ map.after idx := by
  simp [entries, before, after, List.set_eq_take_append_cons_drop, h]

theorem entries_eq (map : HashMap hashFunc keysEqualFunc V) {idx : ℕ}
    (h : idx < map.buckets.length) :
    map.entries = map.before idx ++ map.chain idx ++ map.after idx := by
  have hset := map.entries_set h map.buckets[idx] map.size
  rw [List.set_getElem_self] at hset
  rw [hset, chain, bucket, List.getD_eq_getElem _ _ h]

theorem mem_entries_iff {map : HashMap hashFunc keysEqualFunc V} {pair : KeyValuePair K V} :
    pair ∈ map.entries ↔ ∃ i, pair ∈ map.chain i := by
  simp only [entries, chain, bucket, List.mem_flatten, List.mem_map]
  constructor
  · rintro ⟨_, ⟨bucket, hb, rfl⟩, hp⟩
    obtain ⟨i, hi, rfl⟩ := List.mem_iff_getElem.mp hb
    exact ⟨i, by rwa [List.getD_eq_getElem _ _ hi]⟩
  · rintro ⟨i, hp⟩
    by_cases hi : i < map.buckets.length
    · rw [List.getD_eq_getElem _ _ hi] at hp
      exact ⟨_, ⟨_, List.getElem_mem hi, rfl⟩, hp⟩
    · rw [List.getD_eq_default _ _ (not_lt.mp hi)] at hp
      simp at hp

section Spec
variable {map : HashMap hashFunc keysEqualFunc V}

theorem bucketIndex_lt (h : map.Wf) (key : K) : map.bucketIndex key < map.buckets.length :=
  Nat.mod_lt _ h.capacity_pos

theorem bucketIndex_congr (laws : KeyLaws hashFunc keysEqualFunc) {a b : K}
    (h : keysEqualFunc a b = true) : map.bucketIndex a = map.bucketIndex b := by
  rw [bucketIndex, laws.hash_eq a b h, bucketIndex]

theorem mem_before {idx : ℕ} {pair : KeyValuePair K V} (h : pair ∈ map.before idx) :
    ∃ i, i < idx ∧ pair ∈ map.chain i := by
  simp only [before, List.mem_flatten, List.mem_map] at h
  obtain ⟨_, ⟨bucket, hb, rfl⟩, hp⟩ := h
  obtain ⟨i, hi, rfl⟩ := List.mem_iff_getElem.mp hb
  rw [List.length_take] at hi
  refine ⟨i, by omega, ?_⟩
  rw [chain, bucket, List.getD_eq_getElem _ _ (by omega)]
  rwa [List.getElem_take] at hp

theorem mem_after {idx : ℕ} {pair : KeyValuePair K V} (h : pair ∈ map.after idx) :
    ∃ i, idx < i ∧ pair ∈ map.chain i := by
  simp only [after, List.mem_flatten, List.mem_map] at h
  obtain ⟨_, ⟨bucket, hb, rfl⟩, hp⟩ := h
  obtain ⟨i, hi, rfl⟩ := List.mem_iff_getElem.mp hb
  rw [List.length_drop] at hi
  refine ⟨idx + 1 + i, by omega, ?_⟩
  rw [chain, bucket, List.getD_eq_getElem _ _ (by omega)]
  rwa [List.getElem_drop] at hp

/-- No pair before the bucket of `key` matches it. -/
theorem before_no_match (laws : KeyLaws hashFunc keysEqualFunc) (h : map.Wf) (key : K) :
    ∀ pair ∈ map.before (map.bucketIndex key), keysEqualFunc pair.key key = false := by
  intro pair hp
  obtain ⟨i, hi, hchain⟩ := mem_before hp
  by_contra hne
  have hsame : map.bucketIndex pair.key = map.bucketIndex key :=
    bucketIndex_congr laws (Bool.eq_true_of_not_eq_false hne)
  have := h.placed i pair hchain
  omega

theorem after_no_match (laws : KeyLaws hashFunc keysEqualFunc) (h : map.Wf) (key : K) :
    ∀ pair ∈ map.after (map.bucketIndex key), keysEqualFunc pair.key key = false := by
  intro pair hp
  obtain ⟨i, hi, hchain⟩ := mem_after hp
  by_contra hne
  have hsame : map.bucketIndex pair.key = map.bucketIndex key :=
    bucketIndex_congr laws (Bool.eq_true_of_not_eq_false hne)
  have := h.placed i pair hchain
  omega

theorem searchList_eq (key : K) (list : List (KeyValuePair K V)) :
    searchList keysEqualFunc key list = list.find? fun pair => keysEqualFunc pair.key key := by
  unfold searchList
  induction list with
  | nil => rfl
  | cons pair list ih =>
    cases hk : keysEqualFunc pair.key key <;>
      simp [listItrForEach, findPairAction, hk, ih]

theorem find?_eq_none_of_no_match {key : K} {list : List (KeyValuePair K V)}
    (h : ∀ pair ∈ list, keysEqualFunc pair.key key = false) :
    list.find? (fun pair => keysEqualFunc pair.key key) = none := by
  simpa using h

theorem filter_eq_self_of_no_match {key : K} {list : List (KeyValuePair K V)}
    (h : ∀ pair ∈ list, keysEqualFunc pair.key key = false) :
    list.filter (fun pair => !keysEqualFunc pair.key key) = list := by
  simpa using h

theorem map_eq_self_of_no_match {key : K} {list : List (KeyValuePair K V)}
    (h : ∀ pair ∈ list, keysEqualFunc pair.key key = false)
    (f : KeyValuePair K V → KeyValuePair K V) :
    list.map (fun pair => if keysEqualFunc pair.key key then f pair else pair) = list := by
  calc
    _ = list.map id := List.map_congr_left fun pair hp => by simp [h pair hp]
    _ = list := List.map_id list

/-- The first matching pair of the contents is the first in the key's bucket. -/
theorem find?_entries (laws : KeyLaws hashFunc keysEqualFunc) (h : map.Wf) (key : K) :
    map.entries.find? (fun pair => keysEqualFunc pair.key key) =
      (map.chain (map.bucketIndex key)).find? fun pair => keysEqualFunc pair.key key := by
  rw [map.entries_eq (bucketIndex_lt h key), List.find?_append, List.find?_append,
    find?_eq_none_of_no_match (before_no_match laws h key),
    find?_eq_none_of_no_match (after_no_match laws h key)]
  simp

/-- `find` reads the value of the first pair with an equal key. -/
theorem find_eq (laws : KeyLaws hashFunc keysEqualFunc) (h : map.Wf) (key : K) :
    map.find key =
      (map.entries.find? fun pair => keysEqualFunc pair.key key).map (·.value) := by
  rw [find?_entries laws h, find, chain]
  cases map.bucket (map.bucketIndex key) with
  | none => rfl
  | some list => simp only [searchList_eq, Option.getD_some]

/-- Keeping every bucket's keys keeps the representation. -/
theorem Wf.of_keys (h : map.Wf) (map' : HashMap hashFunc keysEqualFunc V)
    (hkeys : map'.buckets.map (Option.map (List.map (·.key))) =
      map.buckets.map (Option.map (List.map (·.key))))
    (hsize : map'.size = map.size) : map'.Wf ∧
      map'.entries.map (·.key) = map.entries.map (·.key) := by
  have hlen : map'.buckets.length = map.buckets.length := by
    simpa using congrArg List.length hkeys
  have hchain : ∀ i, (map'.chain i).map (·.key) = (map.chain i).map (·.key) := by
    intro i
    have hi := congrArg (fun l => l[i]?) hkeys
    simp only [List.getElem?_map] at hi
    simp only [chain, bucket, List.getD_eq_getElem?_getD]
    cases h1 : map'.buckets[i]? with
    | none => cases h2 : map.buckets[i]? with
      | none => rfl
      | some b => simp [h1, h2] at hi
    | some b' => cases h2 : map.buckets[i]? with
      | none => simp [h1, h2] at hi
      | some b =>
        simp only [h1, h2, Option.map_some, Option.some.injEq] at hi
        cases b' <;> cases b <;> simp_all
  have hentries : map'.entries.map (·.key) = map.entries.map (·.key) := by
    have hflat : ∀ m : HashMap hashFunc keysEqualFunc V, m.entries.map (·.key) =
        ((m.buckets.map (Option.map (List.map (·.key)))).map (·.getD [])).flatten := by
      intro m
      simp only [entries, List.map_flatten, List.map_map]
      congr 2
      ext1 b
      cases b <;> rfl
    rw [hflat, hflat, hkeys]
  refine ⟨⟨hlen ▸ h.capacity_pos, ?_, hentries ▸ h.distinct, ?_⟩, hentries⟩
  · intro i pair hp
    have hk : pair.key ∈ (map.chain i).map (·.key) := hchain i ▸ List.mem_map_of_mem hp
    obtain ⟨q, hq, hkey⟩ := List.mem_map.mp hk
    have := h.placed i q hq
    rwa [bucketIndex, hkey, ← hlen] at this
  · rw [hsize, h.size_eq, ← List.length_map (f := (·.key)), ← hentries, List.length_map]

/-- Replacing the chain of one bucket by pairs that belong there. -/
theorem Wf.set (h : map.Wf) {idx : ℕ} (hidx : idx < map.buckets.length)
    {list : List (KeyValuePair K V)} (hplaced : ∀ pair ∈ list, map.bucketIndex pair.key = idx)
    (hdistinct : ((map.before idx ++ list ++ map.after idx).map (·.key)).Pairwise
      fun a b => keysEqualFunc a b = false) {n : ℕ}
    (hn : n = (map.before idx ++ list ++ map.after idx).length) :
    (⟨map.buckets.set idx (some list), n⟩ : HashMap hashFunc keysEqualFunc V).Wf := by
  have hentries := map.entries_set hidx (some list) n
  refine ⟨by simpa using h.capacity_pos, ?_, by rw [hentries]; exact hdistinct,
    by rw [hentries]; exact hn⟩
  intro i pair hp
  have hbucket : ∀ key, (⟨map.buckets.set idx (some list), n⟩ :
      HashMap hashFunc keysEqualFunc V).bucketIndex key = map.bucketIndex key := by
    intro key
    simp [bucketIndex]
  rw [hbucket]
  by_cases hi : i = idx
  · subst hi
    apply hplaced pair
    simpa [chain, bucket, List.getD_eq_getElem?_getD, hidx] using hp
  · apply h.placed i pair
    simpa [chain, bucket, List.getD_eq_getElem?_getD, List.getElem?_set_ne (Ne.symm hi)] using hp

/-- A present key is refused and nothing changes. -/
theorem insert_present (laws : KeyLaws hashFunc keysEqualFunc) (h : map.Wf) (alloc : InsertAlloc)
    {key : K} (value : V)
    (hp : (map.entries.find? fun pair => keysEqualFunc pair.key key).isSome) :
    map.insert alloc key value = (.keyDuplicateError, map) := by
  rw [find?_entries laws h, chain] at hp
  have hidx := bucketIndex_lt h key
  cases hb : map.bucket (map.bucketIndex key) with
  | none => simp [hb] at hp
  | some list =>
    rw [hb, Option.getD_some] at hp
    obtain ⟨pair, hpair⟩ := Option.isSome_iff_exists.mp hp
    have hsame : map.buckets.set (map.bucketIndex key) (some list) = map.buckets := by
      rw [bucket, List.getD_eq_getElem _ _ hidx] at hb
      rw [← hb, List.set_getElem_self]
    simp only [insert, hb, Option.some_or, searchList_eq, hpair, hsame]

/-- The list an insertion searches is the bucket's chain, also where it is new. -/
theorem searched_eq (map : HashMap hashFunc keysEqualFunc V) {idx : Nat} {listAlloc : Bool}
    {list : List (KeyValuePair K V)}
    (h : (map.bucket idx).or (if listAlloc then some [] else none) = some list) :
    list = map.chain idx ∧ ((map.bucket idx).isSome || listAlloc) = true := by
  unfold chain
  cases hb : map.bucket idx with
  | some l =>
    rw [hb, Option.some_or] at h
    exact ⟨(Option.some.inj h).symm, rfl⟩
  | none =>
    rw [hb, Option.none_or] at h
    split_ifs at h with hl
    exact ⟨(Option.some.inj h).symm, by simp [hl]⟩

/-- A pair with an absent key keeps the map well formed at the head of its chain. -/
theorem Wf.pushHead (laws : KeyLaws hashFunc keysEqualFunc) (h : map.Wf) {key : K} (value : V)
    (hn : map.entries.find? (fun pair => keysEqualFunc pair.key key) = none) :
    (⟨map.buckets.set (map.bucketIndex key)
      (some (⟨key, value⟩ :: map.chain (map.bucketIndex key))), map.size + 1⟩ :
        HashMap hashFunc keysEqualFunc V).Wf := by
  have hidx := bucketIndex_lt h key
  have hsplit := map.entries_eq hidx
  refine h.set hidx ?_ ?_ ?_
  · simp only [List.mem_cons, forall_eq_or_imp, true_and]
    exact h.placed _
  · have hd := h.distinct
    have hnm : ∀ pair ∈ map.entries, keysEqualFunc pair.key key = false := by
      simpa using hn
    have hmk : ∀ pair ∈ map.entries, keysEqualFunc key pair.key = false := by
      intro pair hp
      by_contra hc
      have := laws.symm _ _ (Bool.eq_true_of_not_eq_false hc)
      rw [hnm pair hp] at this
      contradiction
    rw [hsplit] at hd hnm hmk
    simp only [List.append_assoc, List.map_append, List.map_cons, List.pairwise_append,
      List.cons_append, List.pairwise_cons, List.mem_append, List.mem_map, List.mem_cons]
      at hd hnm hmk ⊢
    grind
  · rw [h.size_eq, hsplit]
    simp only [List.length_append, List.length_cons]
    omega

/-- An absent key is stored at the head of its bucket's chain, or an allocation
fails and the contents stay as they are. -/
theorem insert_absent (laws : KeyLaws hashFunc keysEqualFunc) (h : map.Wf) (alloc : InsertAlloc)
    {key : K} (value : V)
    (hn : map.entries.find? (fun pair => keysEqualFunc pair.key key) = none) :
    (map.insert alloc key value).2.Wf ∧
      ((map.insert alloc key value).1 = .success ∧ map.insertAllocOk alloc key = true ∧
          (∃ front back, map.entries = front ++ back ∧
            (map.insert alloc key value).2.entries = front ++ ⟨key, value⟩ :: back) ∨
        (map.insert alloc key value).1 = .allocationError ∧
          map.insertAllocOk alloc key = false ∧
          (map.insert alloc key value).2.entries = map.entries) := by
  have hidx := bucketIndex_lt h key
  have hsplit := map.entries_eq hidx
  cases hor : (map.bucket (map.bucketIndex key)).or
      (if alloc.list then some [] else none) with
  | none =>
    simp only [insert, hor]
    refine ⟨h, Or.inr ⟨trivial, ?_, trivial⟩⟩
    obtain ⟨hb, hl⟩ := Option.or_eq_none_iff.mp hor
    have hl : alloc.list = false := by simpa using hl
    simp [insertAllocOk, hb, hl]
  | some list =>
    obtain ⟨rfl, hready⟩ := map.searched_eq hor
    have hsearch : searchList keysEqualFunc key (map.chain (map.bucketIndex key)) = none := by
      rw [searchList_eq, ← find?_entries laws h, hn]
    have hkept : (⟨map.buckets.set (map.bucketIndex key)
        (some (map.chain (map.bucketIndex key))), map.size⟩ : HashMap hashFunc keysEqualFunc V).Wf :=
      h.set hidx (h.placed _) (hsplit ▸ h.distinct) (hsplit ▸ h.size_eq)
    have hsame := map.entries_set hidx (some (map.chain (map.bucketIndex key))) map.size
    simp only [Option.getD_some, ← hsplit] at hsame
    simp only [insert, hor, hsearch]
    cases hpair : alloc.pair with
    | false => exact ⟨hkept, Or.inr ⟨rfl, by simp [insertAllocOk, hpair], hsame⟩⟩
    | true =>
      cases hnode : alloc.node with
      | false => exact ⟨hkept, Or.inr ⟨rfl, by simp [insertAllocOk, hnode], hsame⟩⟩
      | true =>
        simp only [listPushHead, Bool.not_true, Bool.false_eq_true, if_false, if_true,
          List.set_set]
        have hnew := map.entries_set hidx
          (some (⟨key, value⟩ :: map.chain (map.bucketIndex key))) (map.size + 1)
        refine ⟨h.pushHead laws value hn, Or.inl ⟨trivial,
          by simp [insertAllocOk, hready, hpair, hnode], map.before (map.bucketIndex key),
          map.chain (map.bucketIndex key) ++ map.after (map.bucketIndex key), ?_, ?_⟩⟩
        · rw [hsplit, List.append_assoc]
        · rw [hnew]
          simp

/-- Distinct keys: at most one stored pair has a key equal to `key`. -/
theorem Wf.unique (laws : KeyLaws hashFunc keysEqualFunc) (h : map.Wf) (key : K) :
    KeyedList.Unique (fun pair => keysEqualFunc pair.key key) map.entries := by
  refine (List.pairwise_map.mp h.distinct).imp fun {a b} hab hk => ?_
  have := laws.trans _ _ _ hk.1 (laws.symm _ _ hk.2)
  rw [hab] at this
  contradiction

/-- A search that fails leaves the map alone. -/
theorem remove_absent (laws : KeyLaws hashFunc keysEqualFunc) (h : map.Wf) {key : K}
    (hn : map.entries.find? (fun pair => keysEqualFunc pair.key key) = none) :
    map.remove key = (none, map) := by
  rw [find?_entries laws h, chain] at hn
  cases hb : map.bucket (map.bucketIndex key) with
  | none => simp only [remove, hb]
  | some list =>
    rw [hb, Option.getD_some] at hn
    simp only [remove, hb, KeyedList.getElem?_findIdx, hn]

/-- A stored pair is handed back and exactly it is gone. -/
theorem remove_present (laws : KeyLaws hashFunc keysEqualFunc) (h : map.Wf) {key : K}
    {pair : KeyValuePair K V}
    (hp : map.entries.find? (fun pair => keysEqualFunc pair.key key) = some pair) :
    (map.remove key).1 = some pair ∧ (map.remove key).2.Wf ∧
      (map.remove key).2.entries = map.entries.filter fun pair => !keysEqualFunc pair.key key := by
  have hidx := bucketIndex_lt h key
  have hsplit := map.entries_eq hidx
  have huniq := h.unique laws key
  have hmem := List.mem_of_find?_eq_some hp
  rw [find?_entries laws h] at hp
  have hchain : map.chain (map.bucketIndex key) =
      (map.bucket (map.bucketIndex key)).getD [] := rfl
  cases hb : map.bucket (map.bucketIndex key) with
  | none => simp [hchain, hb] at hp
  | some list =>
    rw [hb, Option.getD_some] at hchain
    rw [hchain] at hp hsplit
    rw [hsplit] at huniq
    have huniq' : KeyedList.Unique (fun pair => keysEqualFunc pair.key key) list :=
      (List.pairwise_append.mp (List.pairwise_append.mp huniq).1).2.1
    have hkept : (map.before (map.bucketIndex key) ++
        list.filter (fun pair => !keysEqualFunc pair.key key) ++
        map.after (map.bucketIndex key)) =
        map.entries.filter fun pair => !keysEqualFunc pair.key key := by
      rw [hsplit, List.filter_append, List.filter_append,
        filter_eq_self_of_no_match (before_no_match laws h key),
        filter_eq_self_of_no_match (after_no_match laws h key)]
    have hset := map.entries_set hidx
      (some (list.filter fun pair => !keysEqualFunc pair.key key)) (map.size - 1)
    rw [Option.getD_some, hkept] at hset
    simp only [remove, hb, KeyedList.getElem?_findIdx, hp, listItrRemove,
      KeyedList.eraseIdx_findIdx huniq', true_and]
    refine ⟨h.set hidx ?_ ?_ ?_, hset⟩
    · intro pair hpair
      exact h.placed _ pair (hchain ▸ List.mem_of_mem_filter hpair)
    · rw [hkept]
      exact h.distinct.sublist (List.filter_sublist.map _)
    · rw [hkept, h.size_eq]
      have herase := KeyedList.eraseIdx_findIdx (h.unique laws key)
      rw [← herase, List.length_eraseIdx_of_lt]
      exact List.findIdx_lt_length_of_exists ⟨pair, hmem, by simpa using List.find?_some hp⟩

/-- A write through a value pointer edits the value under that key only. -/
theorem modify_spec (laws : KeyLaws hashFunc keysEqualFunc) (h : map.Wf) (key : K) (f : V → V) :
    (map.modify key f).Wf ∧ (map.modify key f).entries = map.entries.map fun pair =>
      if keysEqualFunc pair.key key then { pair with value := f pair.value } else pair := by
  have hidx := bucketIndex_lt h key
  constructor
  · refine (h.of_keys (map.modify key f) ?_ rfl).1
    apply List.ext_getElem?
    intro i
    simp only [modify, List.getElem?_map, List.getElem?_modify]
    cases map.buckets[i]? with
    | none => rfl
    | some b =>
      by_cases hi : map.bucketIndex key = i
      · cases b with
        | none => simp [hi]
        | some list =>
          simp only [hi, if_true, Option.map_some, Option.map_eq_map, Option.some.injEq,
            List.map_map]
          apply List.map_congr_left
          intro pair _
          simp only [Function.comp_apply]
          split_ifs <;> rfl
      · simp [hi]
  · have hset : (map.modify key f).buckets = map.buckets.set (map.bucketIndex key)
        ((map.bucket (map.bucketIndex key)).map (List.map fun pair =>
          if keysEqualFunc pair.key key then { pair with value := f pair.value } else pair)) := by
      rw [modify, List.modify_eq_take_cons_drop hidx,
        List.set_eq_take_append_cons_drop, if_pos hidx, bucket, List.getD_eq_getElem _ _ hidx]
    have hentries := map.entries_set hidx ((map.bucket (map.bucketIndex key)).map
      (List.map fun pair =>
        if keysEqualFunc pair.key key then { pair with value := f pair.value } else pair)) map.size
    rw [← hset] at hentries
    apply hentries.trans
    rw [map.entries_eq hidx, List.map_append, List.map_append,
      map_eq_self_of_no_match (before_no_match laws h key),
      map_eq_self_of_no_match (after_no_match laws h key), chain]
    cases map.bucket (map.bucketIndex key) <;> rfl

/-- A write of what is there already changes nothing. -/
theorem modify_of_fixed {key : K} {f : V → V}
    (hf : ∀ pair ∈ map.entries, keysEqualFunc pair.key key = true → f pair.value = pair.value) :
    map.modify key f = map := by
  have hlist : ∀ list : List (KeyValuePair K V), (∀ pair ∈ list, pair ∈ map.entries) →
      list.map (fun pair =>
        if keysEqualFunc pair.key key then { pair with value := f pair.value } else pair) =
        list := by
    intro list hsub
    refine (List.map_congr_left fun pair hp => ?_).trans (List.map_id list)
    split
    · rename_i hk
      rw [hf pair (hsub pair hp) hk, id]
    · rfl
  have hbuckets : (map.modify key f).buckets = map.buckets := by
    refine List.ext_getElem? fun i => ?_
    simp only [modify, List.getElem?_modify]
    cases hb : map.buckets[i]? with
    | none => rfl
    | some bucket =>
      cases bucket with
      | none => simp
      | some list =>
        have hmem : ∀ pair ∈ list, pair ∈ map.entries := fun pair hp =>
          mem_entries_iff.mpr ⟨i, by
            simpa [chain, bucket, List.getD_eq_getElem?_getD, hb] using hp⟩
        simp [hlist list hmem]
  exact congrArg (fun buckets => (⟨buckets, map.size⟩ : HashMap hashFunc keysEqualFunc V)) hbuckets

section ForEach
variable {σ : Type*} (action : K → V → σ → V × σ × Bool)

/-- `stopped` is set exactly when the iteration of a list halts early. -/
theorem forEachAction_stopped (list : List (KeyValuePair K V)) (ctx : ForEachContext σ)
    (hctx : ctx.stopped = false) :
    let r := listItrForEach (forEachAction action) list ctx
    (r.2.1.stopped = true → r.2.2 < list.length) ∧
      (r.2.1.stopped = false → r.2.2 = list.length) := by
  induction list generalizing ctx with
  | nil => simp [listItrForEach, hctx]
  | cons pair list ih =>
    cases hgo : (action pair.key pair.value ctx.userContext).2.2 with
    | false => simp [listItrForEach, forEachAction, hgo]
    | true =>
      have hr := ih (forEachAction action pair ctx).2.1 (by simp [forEachAction, hctx, hgo])
      simp only [listItrForEach, forEachAction, hgo, if_true, List.length_cons,
        Nat.add_lt_add_iff_right, Nat.add_right_cancel_iff] at hr ⊢
      exact hr

/-- The loop over buckets is one iteration of their concatenated chains. -/
theorem forEachBuckets_eq (buckets : List (Option (List (KeyValuePair K V))))
    (ctx : ForEachContext σ) (hctx : ctx.stopped = false) :
    let r := listItrForEach (forEachAction action) (buckets.map (·.getD [])).flatten ctx
    ((forEachBuckets action buckets ctx).1.map (·.getD [])).flatten = r.1 ∧
      (forEachBuckets action buckets ctx).2 = r.2.1 := by
  induction buckets generalizing ctx with
  | nil => exact ⟨rfl, rfl⟩
  | cons bucket buckets ih =>
    cases bucket with
    | none => simpa [forEachBuckets] using ih ctx hctx
    | some list =>
      have hstop := forEachAction_stopped action list ctx hctx
      simp only [forEachBuckets, List.map_cons, List.flatten_cons, Option.getD_some]
      cases hs : (listItrForEach (forEachAction action) list ctx).2.1.stopped with
      | true =>
        rw [listItrForEach_append_of_halt _ _ _ _ (hstop.1 hs)]
        simp
      | false =>
        rw [listItrForEach_append_of_end _ _ _ _ (hstop.2 hs)]
        have hrest := ih _ hs
        simp only [Bool.false_eq_true, if_false, List.map_cons, List.flatten_cons,
          Option.getD_some]
        exact ⟨by rw [hrest.1], hrest.2⟩

theorem listItrForEach_keys (list : List (KeyValuePair K V)) (ctx : ForEachContext σ) :
    (listItrForEach (forEachAction action) list ctx).1.map (·.key) = list.map (·.key) := by
  induction list generalizing ctx with
  | nil => rfl
  | cons pair list ih =>
    simp only [listItrForEach]
    split_ifs
    · simp only [List.map_cons, ih]
      rfl
    · rfl

theorem forEachBuckets_keys (buckets : List (Option (List (KeyValuePair K V))))
    (ctx : ForEachContext σ) :
    (forEachBuckets action buckets ctx).1.map (Option.map (List.map (·.key))) =
      buckets.map (Option.map (List.map (·.key))) := by
  induction buckets generalizing ctx with
  | nil => rfl
  | cons bucket buckets ih =>
    cases bucket with
    | none => simp [forEachBuckets, ih]
    | some list =>
      simp only [forEachBuckets]
      split_ifs <;> simp [listItrForEach_keys, ih]

/-- `forEach` iterates the contents as one list. -/
theorem forEach_spec (h : map.Wf) (context : σ) :
    let r := listItrForEach (forEachAction action) map.entries ⟨context, 0, false⟩
    (map.forEach action context).1.Wf ∧ (map.forEach action context).1.entries = r.1 ∧
      (map.forEach action context).2 = (r.2.1.userContext, r.2.1.invokeCount) := by
  have hr := forEachBuckets_eq action map.buckets ⟨context, 0, false⟩ rfl
  refine ⟨(h.of_keys (map.forEach action context).1
    (forEachBuckets_keys action _ _) rfl).1, hr.1, ?_⟩
  simp only [forEach, hr.2]
  rfl

end ForEach

end Spec

/-- A created map is empty and well formed. -/
theorem create_wf {allocMap allocBuckets : Bool} {capacity primeCapacity : UInt64}
    {map : HashMap hashFunc keysEqualFunc V} (hpos : 0 < primeCapacity.toNat)
    (hprime : nextPrime (if capacity < minCapacity then minCapacity else capacity) =
      some primeCapacity)
    (h : create allocMap allocBuckets capacity = some map) : map.Wf ∧ map.entries = [] := by
  simp only [create, hprime] at h
  split at h
  · contradiction
  split at h
  · contradiction
  obtain rfl := Option.some.inj h
  have hentries : (⟨List.replicate primeCapacity.toNat none, 0⟩ :
      HashMap hashFunc keysEqualFunc V).entries = [] := by
    simp [entries]
  refine ⟨?_, hentries⟩
  constructor
  · simpa using hpos
  · intro i pair hp
    have hmem := mem_entries_iff.mpr ⟨i, hp⟩
    rw [hentries] at hmem
    cases hmem
  · simp [hentries]
  · simp [hentries]

end HashMap
end MeshChat
