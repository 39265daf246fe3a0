import MeshChat.Ds.FiniteMap
import MeshChat.Ds.ListMemory

/-!
# The hash map in memory

`HashMap.c` with its blocks: the `struct HashMap`, its array of bucket lists, the
lists with their nodes, and the `KeyValuePair` that each node points to. Blocks
of one kind have a heap of their own. A function is `none` where it follows a
pointer to no live block, frees one, reads past the array, or needs more turns
of a loop than the map has pairs.
-/
namespace MeshChat

open Links Frames

/-- `struct HashMap`, less its two functions. -/
structure MapBlock where
  buckets : ℕ
  capacity : ℕ
  size : ℕ

@[ext]
structure Store (K V : Type*) where
  nodes : Heap (Option ℕ)
  pairs : ℕ → Option (KeyValuePair K V)
  arrays : ℕ → Option (List (Option DList))
  maps : ℕ → Option MapBlock

namespace Store
variable {K V : Type*}

/-- `free` of a `KeyValuePair`. -/
def freePair (store : Store K V) (pair : ℕ) : Option (Store K V) :=
  (store.pairs pair).map fun _ => { store with pairs := Function.update store.pairs pair none }

/-- A write to `map->buckets[idx]`. -/
def setBucket (store : Store K V) (map : MapBlock) (idx : ℕ) (bucket : Option DList) :
    Option (Store K V) :=
  (store.arrays map.buckets).bind fun buckets =>
    if idx < buckets.length then
      some { store with
        arrays := Function.update store.arrays map.buckets (some (buckets.set idx bucket)) }
    else none

/-- `map->buckets[idx]`. -/
def bucket (store : Store K V) (map : MapBlock) (idx : ℕ) : Option (Option DList) :=
  (store.arrays map.buckets).bind fun buckets => buckets[idx]?

/-- A write to `map->size`. -/
def setSize (store : Store K V) (m : ℕ) (map : MapBlock) (size : ℕ) : Store K V :=
  { store with maps := Function.update store.maps m (some { map with size }) }

end Store

/-- What the allocations in one `HashMap_Insert` return. -/
structure InsertMallocs where
  list : Option ℕ
  pair : Option ℕ
  node : Option ℕ

namespace InsertMallocs

/-- Whether the allocations succeed. -/
def alloc (mallocs : InsertMallocs) : InsertAlloc :=
  ⟨mallocs.list.isSome, mallocs.pair.isSome, mallocs.node.isSome⟩

/-- Every allocation gives an address that is free when it is made. -/
structure Fresh {K V : Type*} (mallocs : InsertMallocs) (store : Store K V) : Prop where
  list : ∀ a, mallocs.list = some a → store.nodes a = none ∧ store.nodes (a + 24) = none
  pair : ∀ a, mallocs.pair = some a → store.pairs a = none
  node : ∀ a, mallocs.node = some a → store.nodes a = none ∧
    ∀ b, mallocs.list = some b → a ≠ b ∧ a ≠ b + 24

end InsertMallocs

/-- `Map_Stats` -/
structure MapStats where
  numberOfBuckets : ℕ
  numberOfChains : ℕ
  maxChainLength : ℕ
  averageChainLength : ℕ
  deriving DecidableEq

namespace HashMapHeap

variable {K V : Type*} (hashFunc : K → UInt64) (keysEqualFunc : K → K → Bool)

/-- `HashMap_Create` for non-null functions, with what `malloc` and `calloc` return. -/
def create (malloc calloc : Option ℕ) (capacity : UInt64) (store : Store K V) :
    Option (Option ℕ × Store K V) :=
  (nextPrime (if capacity < minCapacity then minCapacity else capacity)).map fun primeCapacity =>
    match malloc with
    | none => (none, store)
    | some m =>
        match calloc with
        | none => (none, { store with maps := Function.update store.maps m none })
        | some array =>
            (some m, { store with
              arrays := Function.update store.arrays array
                (some (List.replicate primeCapacity.toNat none))
              maps := Function.update store.maps m (some ⟨array, primeCapacity.toNat, 0⟩) })

/-- `BucketIndex` -/
def bucketIndex (map : MapBlock) (key : K) : ℕ := (hashFunc key).toNat % map.capacity

/-- How often a loop over a bucket may turn: once a pair and once to end. -/
def turns (map : MapBlock) : ℕ := map.size + 1

/-- `FindPairAction` on the pair a node points to; the context is `foundPair`, or
`none` once a pointer was followed to no live pair. -/
def findPairAction (store : Store K V) (searchKey : K) (element : Option ℕ)
    (foundPair : Option (Option ℕ)) : Option (Option ℕ) × Bool :=
  match element.bind store.pairs with
  | none => (none, false)
  | some pair => if keysEqualFunc pair.key searchKey then (some element, false) else (foundPair, true)

/-- The search in `HashMap_Insert` and `HashMap_Find`: the address of the pair. -/
def search (store : Store K V) (map : MapBlock) (list : DList) (key : K) : Option (Option ℕ) :=
  (list.itrBegin store.nodes).bind fun itr =>
    (DList.forEach store.nodes list.itrEnd (findPairAction keysEqualFunc store key) (turns map) itr
      (some none)).bind fun r => r.1

/-- The end of `HashMap_Insert`, when the bucket has a list. -/
def insertInto (mallocs : InsertMallocs) (store : Store K V) (m : ℕ) (map : MapBlock)
    (list : DList) (key : K) (value : V) : Option (MapResult × Store K V) :=
  (search keysEqualFunc store map list key).bind fun foundPair =>
    if foundPair ≠ none then some (.keyDuplicateError, store)
    else
      match mallocs.pair with
      | none => some (.allocationError, store)
      | some pair =>
          let store := { store with pairs := Function.update store.pairs pair (some ⟨key, value⟩) }
          (list.pushHead store.nodes mallocs.node (some pair)).bind fun r =>
            let store := { store with nodes := r.2 }
            if r.1 = none then (store.freePair pair).map fun store => (.allocationError, store)
            else some (.success, store.setSize m map (map.size + 1))

/-- `HashMap_Insert` -/
def insert (mallocs : InsertMallocs) (store : Store K V) (map : Option ℕ) (key : Option K)
    (value : V) : Option (MapResult × Store K V) :=
  match map, key with
  | none, _ => some (.uninitializedError, store)
  | some _, none => some (.keyNullError, store)
  | some m, some key =>
      (store.maps m).bind fun map =>
        let idx := bucketIndex hashFunc map key
        (store.bucket map idx).bind fun bucket =>
          match bucket with
          | some list => insertInto keysEqualFunc mallocs store m map list key value
          | none =>
              let created := DList.createIn store.nodes mallocs.list
              ({ store with nodes := created.2 }.setBucket map idx created.1).bind fun store =>
                match created.1 with
                | none => some (.allocationError, store)
                | some list => insertInto keysEqualFunc mallocs store m map list key value

/-- The loop of `HashMap_Remove`. -/
def removeLoop (m : ℕ) (map : MapBlock) (list : DList) (searchKey : K) (store : Store K V) :
    ℕ → ℕ → Option (Option (KeyValuePair K V) × Store K V)
  | 0, _ => none
  | fuel + 1, itr =>
      if itr = list.itrEnd then some (none, store)
      else
        (DList.itrGet store.nodes itr).bind fun element =>
          element.bind fun address => (store.pairs address).bind fun pair =>
            if keysEqualFunc pair.key searchKey then
              (DList.itrRemove store.nodes itr).bind fun r =>
                (Store.freePair { store with nodes := r.2 } address).map fun store =>
                  (some pair, store.setSize m map (map.size - 1))
            else
              (DList.itrNext store.nodes itr).bind fun next =>
                next.bind fun itr => removeLoop m map list searchKey store fuel itr

/-- `HashMap_Remove`: the result and the pair that went to `_pKey` and `_pValue`. -/
def remove (store : Store K V) (map : Option ℕ) (searchKey : Option K) :
    Option ((MapResult × Option (KeyValuePair K V)) × Store K V) :=
  match map, searchKey with
  | none, _ => some ((.uninitializedError, none), store)
  | some _, none => some ((.keyNullError, none), store)
  | some m, some searchKey =>
      (store.maps m).bind fun map =>
        (store.bucket map (bucketIndex hashFunc map searchKey)).bind fun bucket =>
          match bucket with
          | none => some ((.keyNotFoundError, none), store)
          | some list =>
              (list.itrBegin store.nodes).bind fun itr => itr.bind fun itr =>
                (removeLoop keysEqualFunc m map list searchKey store (turns map) itr).map fun r =>
                  match r.1 with
                  | none => ((.keyNotFoundError, none), r.2)
                  | some pair => ((.success, some pair), r.2)

/-- `HashMap_Find`: the result and what went to `_pValue`. -/
def find (store : Store K V) (map : Option ℕ) (key : Option K) : Option (MapResult × Option V) :=
  match map, key with
  | none, _ => some (.uninitializedError, none)
  | some _, none => some (.keyNullError, none)
  | some m, some key =>
      (store.maps m).bind fun map =>
        (store.bucket map (bucketIndex hashFunc map key)).bind fun bucket =>
          match bucket with
          | none => some (.keyNotFoundError, none)
          | some list =>
              (search keysEqualFunc store map list key).bind fun foundPair =>
                match foundPair with
                | none => some (.keyNotFoundError, none)
                | some pair => (store.pairs pair).map fun pair => (.success, some pair.value)

/-- `HashMap_Size` -/
def size (store : Store K V) (map : Option ℕ) : Option ℕ :=
  match map with
  | none => some 0
  | some m => (store.maps m).map (·.size)

/-- `ForEachAction` on the pair a node points to; the context is `none` once a
pointer was followed to no live pair. -/
def forEachAction {σ : Type*} (store : Store K V) (userAction : K → V → σ → σ × Bool)
    (element : Option ℕ) (ctx : Option (HashMap.ForEachContext σ)) :
    Option (HashMap.ForEachContext σ) × Bool :=
  match element.bind store.pairs, ctx with
  | some pair, some ctx =>
      let r := HashMap.forEachAction (fun key value s => (value, userAction key value s)) pair ctx
      (some r.2.1, r.2.2)
  | _, _ => (none, false)

/-- The loop of `HashMap_ForEach` over the `n` buckets from bucket `i` on. -/
def forEachBuckets {σ : Type*} (store : Store K V) (map : MapBlock)
    (userAction : K → V → σ → σ × Bool) :
    ℕ → ℕ → HashMap.ForEachContext σ → Option (HashMap.ForEachContext σ)
  | 0, _, ctx => some ctx
  | n + 1, i, ctx =>
      (store.bucket map i).bind fun bucket =>
        match bucket with
        | none => forEachBuckets store map userAction n (i + 1) ctx
        | some list =>
            (list.itrBegin store.nodes).bind fun itr =>
              (DList.forEach store.nodes list.itrEnd (forEachAction store userAction) (turns map)
                itr (some ctx)).bind fun r =>
                r.1.bind fun ctx =>
                  if ctx.stopped then some ctx
                  else forEachBuckets store map userAction n (i + 1) ctx

/-- `HashMap_ForEach` with an action that leaves the map alone: its context and
the number of invocations. -/
def forEach {σ : Type*} (store : Store K V) (map : Option ℕ) (action : K → V → σ → σ × Bool)
    (context : σ) : Option (σ × ℕ) :=
  match map with
  | none => some (context, 0)
  | some m =>
      (store.maps m).bind fun map =>
        (forEachBuckets store map action map.capacity 0 ⟨context, 0, false⟩).map fun ctx =>
          (ctx.userContext, ctx.invokeCount)

/-- The loop of `HashMap_GetStatistics`, with `totalChainLen`. -/
def statisticsLoop (store : Store K V) (map : MapBlock) :
    ℕ → ℕ → MapStats × ℕ → Option (MapStats × ℕ)
  | 0, _, acc => some acc
  | n + 1, i, (stats, totalChainLen) =>
      (store.bucket map i).bind fun bucket =>
        match bucket with
        | none => statisticsLoop store map n (i + 1) (stats, totalChainLen)
        | some list =>
            (list.size (turns map) store.nodes).bind fun chainLen =>
              if chainLen = 0 then statisticsLoop store map n (i + 1) (stats, totalChainLen)
              else
                statisticsLoop store map n (i + 1)
                  ({ stats with
                      numberOfChains := stats.numberOfChains + 1
                      maxChainLength :=
                        if chainLen > stats.maxChainLength then chainLen else stats.maxChainLength },
                    totalChainLen + chainLen)

/-- `HashMap_GetStatistics` -/
def getStatistics (store : Store K V) (map : Option ℕ) : Option MapStats :=
  match map with
  | none => some ⟨0, 0, 0, 0⟩
  | some m =>
      (store.maps m).bind fun map =>
        (statisticsLoop store map map.capacity 0 (⟨map.capacity, 0, 0, 0⟩, 0)).map fun r =>
          { r.1 with averageChainLength :=
              if r.1.numberOfChains > 0 then r.2 / r.1.numberOfChains else 0 }

/-- The `while` loop of `HashMap_Destroy` over one bucket; a NULL destroyer does nothing. -/
def destroyPairs {σ : Type*} (keyDestroy : K → σ → σ) (valDestroy : V → σ → σ) (list : DList) :
    ℕ → Store K V → σ → Option (σ × Store K V)
  | 0, _, _ => none
  | fuel + 1, store, s =>
      (list.isEmpty store.nodes).bind fun empty =>
        if empty then some (s, store)
        else
          (list.popHead store.nodes).bind fun r =>
            let store := { store with nodes := r.2 }
            match r.1 with
            | none => some (s, store)
            | some address =>
                (store.pairs address).bind fun pair =>
                  (store.freePair address).bind fun store =>
                    destroyPairs keyDestroy valDestroy list fuel store
                      (valDestroy pair.value (keyDestroy pair.key s))

/-- The `for` loop of `HashMap_Destroy` over the `n` buckets from bucket `i` on. -/
def destroyBuckets {σ : Type*} (keyDestroy : K → σ → σ) (valDestroy : V → σ → σ) (map : MapBlock) :
    ℕ → ℕ → Store K V → σ → Option (σ × Store K V)
  | 0, _, store, s => some (s, store)
  | n + 1, i, store, s =>
      (store.bucket map i).bind fun bucket =>
        match bucket with
        | none => destroyBuckets keyDestroy valDestroy map n (i + 1) store s
        | some list =>
            (destroyPairs keyDestroy valDestroy list (turns map) store s).bind fun r =>
              (list.destroy (fun _ s => s) (turns map) r.2.nodes r.1).bind fun r' =>
                ({ r.2 with nodes := r'.2 }.setBucket map i none).bind fun store =>
                  destroyBuckets keyDestroy valDestroy map n (i + 1) store r'.1

/-- `HashMap_Destroy` of a map that is not NULL: what the destroyers make of their
state, and the store without the map. -/
def destroy {σ : Type*} (keyDestroy : K → σ → σ) (valDestroy : V → σ → σ) (store : Store K V)
    (m : ℕ) (s : σ) : Option (σ × Store K V) :=
  (store.maps m).bind fun map =>
    (destroyBuckets keyDestroy valDestroy map map.capacity 0 store s).bind fun r =>
      (r.2.arrays map.buckets).map fun _ =>
        (r.1, { r.2 with
          arrays := Function.update r.2.arrays map.buckets none
          maps := Function.update r.2.maps m none })

end HashMapHeap
end MeshChat
