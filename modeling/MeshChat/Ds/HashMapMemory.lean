import MeshChat.Ds.HashMapHeap

/-!
# The hash map in memory is the hash map

A store is laid out as a map beside a frame when every block of the map lies where
the map's pointers lead and everything else is the frame's. Each function finds
this layout, does on it what it does on the sequences of `MeshChat.Ds.HashMap`,
and leaves it; `HashMap_Destroy` leaves the frame.
-/
namespace MeshChat
namespace HashMapHeap

open Links Frames DList

variable {K V : Type*}

/-- A pair in a chain: the node that points to it, its address, and the pair. -/
structure Slot (K V : Type*) where
  node : ℕ
  address : ℕ
  pair : KeyValuePair K V

def Slot.cell (slot : Slot K V) : ℕ × Option ℕ := (slot.node, some slot.address)

/-- A bucket that has a list. -/
structure Chain (K V : Type*) where
  list : DList
  slots : List (Slot K V)

namespace Chain

def cells (chain : Chain K V) : List (ℕ × Option ℕ) := chain.slots.map Slot.cell

def nodes (bucket : Option (Chain K V)) : List ℕ :=
  bucket.elim [] fun chain => addrs (chain.list.whole chain.cells)

def addresses (bucket : Option (Chain K V)) : List ℕ :=
  bucket.elim [] fun chain => chain.slots.map (·.address)

def pairs (chain : Chain K V) : List (KeyValuePair K V) := chain.slots.map (·.pair)

/-- The nodes of the list and the pairs they point to are in the store. -/
structure In (chain : Chain K V) (store : Store K V) : Prop where
  lies : Lies store.nodes chain.list chain.cells
  stored : ∀ slot ∈ chain.slots, store.pairs slot.address = some slot.pair

theorem In.congr {chain : Chain K V} {store store' : Store K V} (h : chain.In store)
    (hnodes : ∀ a ∈ nodes (some chain), store'.nodes a = store.nodes a)
    (hpairs : ∀ a ∈ addresses (some chain), store'.pairs a = store.pairs a) : chain.In store' where
  lies := h.lies.congr hnodes
  stored slot hslot := (hpairs _ (List.mem_map_of_mem hslot)).trans (h.stored slot hslot)

end Chain

/-- The blocks of a map whose buckets are `chains`, beside those of the frame. -/
structure Laid (frame store : Store K V) (m : ℕ) (block : MapBlock)
    (chains : List (Option (Chain K V))) : Prop where
  here : store.maps m = some block
  array : store.arrays block.buckets = some (chains.map (Option.map Chain.list))
  pos : 0 < chains.length
  capacity : block.capacity = chains.length
  size : (chains.flatMap Chain.addresses).length ≤ block.size
  buckets : ∀ chain, some chain ∈ chains → chain.In store
  nodes : Owns store.nodes frame.nodes (chains.flatMap Chain.nodes)
  pairs : Owns store.pairs frame.pairs (chains.flatMap Chain.addresses)
  maps : Owns store.maps frame.maps [m]
  arrays : Owns store.arrays frame.arrays [block.buckets]

/-- The map on the sequence level. -/
def shape {hashFunc : K → UInt64} {keysEqualFunc : K → K → Bool} (block : MapBlock)
    (chains : List (Option (Chain K V))) : HashMap hashFunc keysEqualFunc V :=
  ⟨chains.map (Option.map Chain.pairs), block.size⟩

section Laid
variable {frame store : Store K V} {m : ℕ} {block : MapBlock}
  {before after : List (Option (Chain K V))} {bucket : Option (Chain K V)}

theorem flatMap_around {β : Type*} (f : Option (Chain K V) → List β) :
    (before ++ bucket :: after).flatMap f = before.flatMap f ++ f bucket ++ after.flatMap f := by
  simp

/-- What a function does to one bucket it does to the map. -/
theorem Laid.replace (h : Laid frame store m block (before ++ bucket :: after))
    (bucket' : Option (Chain K V)) (store' : Store K V) (block' : MapBlock)
    (hnodes : Trades store.nodes store'.nodes (Chain.nodes bucket) (Chain.nodes bucket'))
    (hpairs : Trades store.pairs store'.pairs (Chain.addresses bucket) (Chain.addresses bucket'))
    (hbucket : ∀ chain, bucket' = some chain → chain.In store')
    (hmaps : store'.maps = Function.update store.maps m (some block'))
    (harrays : store'.arrays = Function.update store.arrays block.buckets
      (some ((before ++ bucket' :: after).map (Option.map Chain.list))))
    (hblock : block'.buckets = block.buckets ∧ block'.capacity = block.capacity)
    (hsize : ((before ++ bucket' :: after).flatMap Chain.addresses).length ≤ block'.size) :
    Laid frame store' m block' (before ++ bucket' :: after) := by
  have hown := h.nodes
  have hown' := h.pairs
  rw [flatMap_around] at hown hown'
  have hlength : (before ++ bucket' :: after).length = (before ++ bucket :: after).length := by simp
  refine ⟨by rw [hmaps, Function.update_self], by rw [harrays, hblock.1, Function.update_self],
    hlength ▸ h.pos, by rw [hblock.2, h.capacity, hlength], hsize, fun chain hchain => ?_, ?_, ?_, ?_, ?_⟩
  · by_cases hside : some chain ∈ before ∨ some chain ∈ after
    · have hold : chain.In store := h.buckets chain (by
        simp only [List.mem_append, List.mem_cons]
        tauto)
      have hmem : ∀ (f : Option (Chain K V) → List ℕ) a, a ∈ f (some chain) →
          a ∈ before.flatMap f ∨ a ∈ after.flatMap f := fun f a ha =>
        hside.imp (fun hb => List.mem_flatMap.mpr ⟨_, hb, ha⟩) fun hb => List.mem_flatMap.mpr ⟨_, hb, ha⟩
      exact hold.congr
        (fun a ha => hnodes.unchanged hown.nodup hown.live (hmem _ a ha))
        (fun a ha => hpairs.unchanged hown'.nodup hown'.live (hmem _ a ha))
    · refine hbucket chain ?_
      simp only [List.mem_append, List.mem_cons] at hchain
      tauto
  · rw [flatMap_around]
    exact hown.trade hnodes
  · rw [flatMap_around]
    exact hown'.trade hpairs
  · rw [hmaps]
    exact h.maps.exchange (.overwrite _ _ _)
  · rw [harrays, hblock.1]
    exact h.arrays.exchange (.overwrite _ _ _)

/-- The bucket that a key selects. -/
theorem Laid.select {chains : List (Option (Chain K V))} (h : Laid frame store m block chains)
    {i : ℕ} (hi : i < block.capacity) :
    ∃ before bucket after, chains = before ++ bucket :: after ∧ before.length = i := by
  rw [h.capacity] at hi
  refine ⟨chains.take i, chains[i], chains.drop (i + 1), ?_, by simp; omega⟩
  rw [List.getElem_cons_drop, List.take_append_drop]

theorem Laid.bucket_eq (h : Laid frame store m block (before ++ bucket :: after)) :
    store.bucket block before.length = some (bucket.map Chain.list) := by
  simp [Store.bucket, h.array]

theorem Laid.chain_in {chain : Chain K V}
    (h : Laid frame store m block (before ++ some chain :: after)) : chain.In store :=
  h.buckets chain (by simp)

theorem Laid.chain_addresses {chain : Chain K V}
    (h : Laid frame store m block (before ++ some chain :: after)) :
    (Chain.addresses (some chain)).Nodup ∧
      ∀ a ∈ Chain.addresses (some chain), store.pairs a ≠ none := by
  have hown := h.pairs
  rw [flatMap_around] at hown
  exact hown.part

/-- Writing the array of lists that is there. -/
theorem Laid.update_array (h : Laid frame store m block (before ++ bucket :: after))
    (bucket' : Option (Chain K V)) (hlist : bucket'.map Chain.list = bucket.map Chain.list) :
    Function.update store.arrays block.buckets
      (some ((before ++ bucket' :: after).map (Option.map Chain.list))) = store.arrays := by
  have hsame : (before ++ bucket' :: after).map (Option.map Chain.list) =
      (before ++ bucket :: after).map (Option.map Chain.list) := by simp [hlist]
  rw [hsame, ← h.array, Function.update_eq_self]

/-- A loop over one bucket ends within its turns. -/
theorem Laid.turns_lt {chain : Chain K V}
    (h : Laid frame store m block (before ++ some chain :: after)) :
    chain.slots.length < turns block := by
  have hsize := h.size
  rw [flatMap_around] at hsize
  simp only [List.length_append, Chain.addresses, Option.elim, List.length_map] at hsize
  rw [turns]
  omega

end Laid

section Search
variable {keysEqualFunc : K → K → Bool} {frame store : Store K V} {m : ℕ} {block : MapBlock}
  {before after : List (Option (Chain K V))} {chain : Chain K V}

theorem findPairAction_cells (searchKey : K) {slots : List (Slot K V)}
    (h : ∀ slot ∈ slots, store.pairs slot.address = some slot.pair) :
    (listItrForEach (fun cell s => (cell, findPairAction keysEqualFunc store searchKey cell.2 s))
        (slots.map Slot.cell) (some none)).2.1 =
      some ((slots.find? fun slot => keysEqualFunc slot.pair.key searchKey).map (·.address)) := by
  induction slots with
  | nil => rfl
  | cons slot slots ih =>
    obtain ⟨hslot, hslots⟩ := List.forall_mem_cons.mp h
    have haction : findPairAction keysEqualFunc store searchKey slot.cell.2 (some none) =
        if keysEqualFunc slot.pair.key searchKey then (some (some slot.address), false)
        else (some none, true) := by
      simp [findPairAction, Slot.cell, hslot]
    cases hkey : keysEqualFunc slot.pair.key searchKey with
    | true => simp [listItrForEach, haction, hkey]
    | false => simpa [listItrForEach, haction, hkey] using ih hslots

/-- The search yields the address of the first pair with an equal key. -/
theorem Laid.search_eq (h : Laid frame store m block (before ++ some chain :: after)) (key : K) :
    search keysEqualFunc store block chain.list key =
      some ((chain.slots.find? fun slot => keysEqualFunc slot.pair.key key).map (·.address)) := by
  have hlies := h.chain_in.lies
  have hfuel : chain.cells.length < turns block := by simpa [Chain.cells] using h.turns_lt
  obtain ⟨itr, hloop⟩ := hlies.forEach (findPairAction keysEqualFunc store key) (some none) hfuel
  rw [search, hlies.itrBegin, Option.bind_some, hloop, Option.bind_some]
  exact findPairAction_cells key h.chain_in.stored

theorem searchList_pairs (key : K) (chain : Chain K V) :
    HashMap.searchList keysEqualFunc key chain.pairs =
      (chain.slots.find? fun slot => keysEqualFunc slot.pair.key key).map (·.pair) := by
  rw [HashMap.searchList_eq, Chain.pairs, List.find?_map]
  rfl

end Search

section Insert
variable {keysEqualFunc : K → K → Bool} {frame store : Store K V} {m : ℕ} {block : MapBlock}
  {before after : List (Option (Chain K V))} {chain : Chain K V} {mallocs : InsertMallocs}
  (h : Laid frame store m block (before ++ some chain :: after)) (key : K) (value : V)
include h

theorem Laid.insertInto_present
    (hfind : (chain.slots.find? fun slot => keysEqualFunc slot.pair.key key) ≠ none) :
    insertInto keysEqualFunc mallocs store m block chain.list key value =
      some (.keyDuplicateError, store) := by
  rw [insertInto, h.search_eq, Option.bind_some, if_pos (by simpa using hfind)]

/-- A pair whose node cannot be allocated is freed again. -/
theorem Laid.insertInto_fails
    (hfind : (chain.slots.find? fun slot => keysEqualFunc slot.pair.key key) = none)
    (hpair : ∀ a, mallocs.pair = some a → store.pairs a = none)
    (hfail : mallocs.pair = none ∨ mallocs.node = none) :
    insertInto keysEqualFunc mallocs store m block chain.list key value =
      some (.allocationError, store) := by
  rw [insertInto, h.search_eq, hfind, Option.map_none, Option.bind_some, if_neg (not_not.mpr rfl)]
  cases hp : mallocs.pair with
  | none => rfl
  | some a =>
    have hnode : mallocs.node = none := hfail.resolve_left (by simp [hp])
    obtain ⟨part, rest, hparts, hholds⟩ := h.chain_in.lies
    have hpush : chain.list.pushHead store.nodes none (some a) = some (none, store.nodes) := by
      rw [DList.pushHead, hparts.read hholds.head]
      rfl
    have hrestored : Function.update store.pairs a none = store.pairs := by
      rw [← hpair a hp, Function.update_eq_self]
    simp only [hnode, hpush, Option.bind_some, if_true, Store.freePair, Function.update_self,
      Option.map_some, Function.update_idem, hrestored]

theorem Laid.insertInto_absent
    (hfind : (chain.slots.find? fun slot => keysEqualFunc slot.pair.key key) = none)
    {a n : ℕ} (hpair : mallocs.pair = some a) (hnode : mallocs.node = some n)
    (ha : store.pairs a = none) (hn : store.nodes n = none) :
    ∃ store', insertInto keysEqualFunc mallocs store m block chain.list key value =
        some (.success, store') ∧
      Laid frame store' m { block with size := block.size + 1 }
        (before ++ some ⟨chain.list, ⟨n, a, ⟨key, value⟩⟩ :: chain.slots⟩ :: after) := by
  have hin := h.chain_in
  have hout : n ∉ addrs (chain.list.whole chain.cells) := fun hmem => hin.lies.live hmem hn
  have hlocal : Local {n} fun heap => chain.list.pushHead heap (some n) (some a) :=
    chain.list.pushHead_local (by simp) (some a)
  obtain ⟨r, nodes', cells', hpush, ⟨rfl, rfl⟩, hlies, htrade⟩ :=
    hin.lies.act (P := fun r cells' => r = some n ∧ cells' = (n, some a) :: chain.cells) hlocal
      (by simpa using hn) fun part hpart => by
        obtain ⟨part', hpush, hholds⟩ := hpart.pushHead hout (some a)
        exact ⟨_, part', _, hpush, ⟨rfl, rfl⟩, hholds⟩
  refine ⟨_, ?_, h.replace (some ⟨chain.list, ⟨n, a, ⟨key, value⟩⟩ :: chain.slots⟩)
    (Store.setSize { store with
      nodes := nodes', pairs := Function.update store.pairs a (some ⟨key, value⟩) } m block
      (block.size + 1)) { block with size := block.size + 1 } htrade ?_ ?_ rfl ?_ ⟨rfl, rfl⟩ ?_⟩
  · rw [insertInto, h.search_eq, hfind, Option.map_none, Option.bind_some, if_neg (not_not.mpr rfl)]
    simp only [hpair, hnode, hpush, Option.bind_some]
    rfl
  · obtain ⟨hnodup, hlive⟩ := h.chain_addresses
    have hstored : Trades store.pairs (Function.update store.pairs a (some ⟨key, value⟩))
        ([] ++ [] ++ Chain.addresses (some chain)) ([] ++ [a] ++ Chain.addresses (some chain)) :=
      (Trades.alloc ha _).widen hnodup hlive
    exact hstored
  · intro _ heq
    obtain rfl := Option.some.inj heq
    refine ⟨hlies, List.forall_mem_cons.mpr ⟨Function.update_self .., fun slot hslot => ?_⟩⟩
    have hne : slot.address ≠ a := by
      rintro rfl
      rw [hin.stored slot hslot] at ha
      contradiction
    exact (Function.update_of_ne hne ..).trans (hin.stored slot hslot)
  · exact (h.update_array (some ⟨chain.list, ⟨n, a, ⟨key, value⟩⟩ :: chain.slots⟩) rfl).symm
  · rw [flatMap_around, List.length_append, List.length_append]
    have hsize := h.size
    rw [flatMap_around, List.length_append, List.length_append] at hsize
    simp only [Chain.addresses, Option.elim, List.map_cons, List.length_cons] at hsize ⊢
    omega

end Insert
/-- The store holds the map beside the frame. -/
def Stores {hashFunc : K → UInt64} {keysEqualFunc : K → K → Bool} (frame store : Store K V) (m : ℕ)
    (map : HashMap hashFunc keysEqualFunc V) : Prop :=
  ∃ block chains, Laid frame store m block chains ∧ map = shape block chains

/-- The end of `HashMap_Insert` on the sequence level, when bucket `idx` has a list. -/
def insertList {hashFunc : K → UInt64} {keysEqualFunc : K → K → Bool} (alloc : InsertAlloc)
    (map : HashMap hashFunc keysEqualFunc V) (idx : ℕ) (list : List (KeyValuePair K V)) (key : K)
    (value : V) : MapResult × HashMap hashFunc keysEqualFunc V :=
  match HashMap.searchList keysEqualFunc key list with
  | some _ => (.keyDuplicateError, map)
  | none =>
      if !alloc.pair then (.allocationError, map)
      else
        match listPushHead alloc.node list ⟨key, value⟩ with
        | none => (.allocationError, map)
        | some list =>
            (.success, { buckets := map.buckets.set idx (some list), size := map.size + 1 })

section Stores
variable {hashFunc : K → UInt64} {keysEqualFunc : K → K → Bool} {frame store : Store K V} {m : ℕ}
  {block : MapBlock} {before after : List (Option (Chain K V))} {bucket : Option (Chain K V)}
  {map : HashMap hashFunc keysEqualFunc V} {mallocs : InsertMallocs}

theorem set_around {β γ : Type*} (f : β → γ) (before after : List β) (b b' : β) :
    ((before ++ b :: after).map f).set before.length (f b') = (before ++ b' :: after).map f := by
  simp [List.set_append_right]

theorem shape_bucket :
    (shape block (before ++ bucket :: after) : HashMap hashFunc keysEqualFunc V).bucket
      before.length = bucket.map Chain.pairs := by
  simp [shape, HashMap.bucket, List.getD_eq_getElem?_getD]

/-- An insertion into a bucket that has, or is given, the list of `chain`. -/
theorem insert_shape (alloc : InsertAlloc) {key : K} (value : V) (chain : Chain K V)
    (hidx : (shape block (before ++ bucket :: after) : HashMap hashFunc keysEqualFunc V).bucketIndex
      key = before.length)
    (hchain : (bucket.map Chain.pairs).or (if alloc.list then some [] else none) =
      some chain.pairs) :
    (shape block (before ++ bucket :: after) : HashMap hashFunc keysEqualFunc V).insert alloc key
        value =
      insertList alloc (shape block (before ++ some chain :: after)) before.length chain.pairs key
        value := by
  have hset := set_around (Option.map Chain.pairs) before after bucket (some chain)
  rw [Option.map_some] at hset
  rw [HashMap.insert, hidx, shape_bucket, hchain]
  simp only [shape, hset]
  rfl

theorem Laid.bucketIndex_eq {chains : List (Option (Chain K V))}
    (h : Laid frame store m block chains) (key : K) :
    (shape block chains : HashMap hashFunc keysEqualFunc V).bucketIndex key =
      bucketIndex hashFunc block key := by
  simp [shape, HashMap.bucketIndex, bucketIndex, h.capacity]

/-- The bucket of a key, in the store and on the sequence level. -/
theorem Stores.selected (h : Stores frame store m map) (key : K) :
    ∃ block before bucket after, Laid frame store m block (before ++ bucket :: after) ∧
      map = shape block (before ++ bucket :: after) ∧ store.maps m = some block ∧
      bucketIndex hashFunc block key = before.length ∧ map.bucketIndex key = before.length ∧
      store.bucket block before.length = some (bucket.map Chain.list) ∧
      map.bucket before.length = bucket.map Chain.pairs := by
  obtain ⟨block, chains, hlaid, rfl⟩ := h
  have hlt : bucketIndex hashFunc block key < block.capacity :=
    Nat.mod_lt _ (hlaid.capacity ▸ hlaid.pos)
  obtain ⟨before, bucket, after, rfl, hlength⟩ := hlaid.select hlt
  exact ⟨block, before, bucket, after, hlaid, rfl, hlaid.here, hlength.symm,
    (hlaid.bucketIndex_eq key).trans hlength.symm, hlaid.bucket_eq, shape_bucket⟩

theorem Laid.insertInto {chain : Chain K V}
    (h : Laid frame store m block (before ++ some chain :: after)) (key : K) (value : V)
    (hpair : ∀ a, mallocs.pair = some a → store.pairs a = none)
    (hnode : ∀ a, mallocs.node = some a → store.nodes a = none) :
    let r := insertList mallocs.alloc (shape block (before ++ some chain :: after) :
      HashMap hashFunc keysEqualFunc V) before.length chain.pairs key value
    ∃ store', insertInto keysEqualFunc mallocs store m block chain.list key value =
      some (r.1, store') ∧ Stores frame store' m r.2 := by
  intro r
  have hstores : Stores frame store m (shape block (before ++ some chain :: after) :
      HashMap hashFunc keysEqualFunc V) := ⟨block, _, h, rfl⟩
  cases hfind : chain.slots.find? fun slot => keysEqualFunc slot.pair.key key with
  | some slot =>
    have hr : r = (.keyDuplicateError, shape block (before ++ some chain :: after)) := by
      simp [r, insertList, searchList_pairs, hfind]
    rw [hr]
    exact ⟨store, h.insertInto_present key value (by simp [hfind]), hstores⟩
  | none =>
    by_cases hfail : mallocs.pair = none ∨ mallocs.node = none
    · have hr : r = (.allocationError, shape block (before ++ some chain :: after)) := by
        simp only [r, insertList, searchList_pairs, hfind, Option.map_none, InsertMallocs.alloc]
        rcases hfail with hfail | hfail
        · simp [hfail]
        · simp [hfail, listPushHead]
      rw [hr]
      exact ⟨store, h.insertInto_fails key value hfind hpair hfail, hstores⟩
    · obtain ⟨⟨a, ha⟩, ⟨n, hn⟩⟩ := (not_or.mp hfail).imp Option.ne_none_iff_exists'.mp
        Option.ne_none_iff_exists'.mp
      obtain ⟨store', hinsert, hlaid⟩ :=
        h.insertInto_absent key value hfind ha hn (hpair a ha) (hnode n hn)
      have hr : r = (.success, shape { block with size := block.size + 1 }
          (before ++ some ⟨chain.list, ⟨n, a, ⟨key, value⟩⟩ :: chain.slots⟩ :: after)) := by
        have hsearch : HashMap.searchList keysEqualFunc key chain.pairs = none := by
          rw [searchList_pairs, hfind, Option.map_none]
        simp only [r, insertList, hsearch, InsertMallocs.alloc, ha, hn, listPushHead]
        simp [shape, Chain.pairs, List.set_append_right]
      rw [hr]
      exact ⟨store', hinsert, _, _, hlaid, rfl⟩

/-- A list is created for a bucket that has none. -/
theorem Laid.createList (h : Laid frame store m block (before ++ none :: after)) {l : ℕ}
    (hl : store.nodes l = none) (hl' : store.nodes (l + 24) = none) :
    ∃ nodes' store', DList.createIn store.nodes (some l) = (some ⟨l, l + 24⟩, nodes') ∧
      Store.setBucket { store with nodes := nodes' } block before.length (some ⟨l, l + 24⟩) =
        some store' ∧
      Laid frame store' m block (before ++ some ⟨⟨l, l + 24⟩, []⟩ :: after) ∧
      store'.pairs = store.pairs ∧
      ∀ a, a ≠ l → a ≠ l + 24 → store'.nodes a = store.nodes a := by
  obtain ⟨nodes', hcreate, hlies, htrade⟩ := createIn_lies store.nodes hl hl'
  have hset := set_around (Option.map Chain.list) before after none
    (some (⟨⟨l, l + 24⟩, []⟩ : Chain K V))
  refine ⟨nodes', _, hcreate, ?_, h.replace (some ⟨⟨l, l + 24⟩, []⟩)
    { store with
      nodes := nodes'
      arrays := Function.update store.arrays block.buckets
        (some ((before ++ some ⟨⟨l, l + 24⟩, []⟩ :: after).map (Option.map Chain.list))) }
      block htrade (.refl List.nodup_nil nofun) ?_ ?_ rfl ⟨rfl, rfl⟩ ?_, rfl, fun a ha ha' => ?_⟩
  · rw [Store.setBucket, h.array, Option.bind_some, if_pos (by simp), ← hset]
    rfl
  · intro _ heq
    obtain rfl := Option.some.inj heq
    exact ⟨hlies, nofun⟩
  · rw [← h.here, Function.update_eq_self]
  · simpa [Chain.addresses] using h.size
  · exact htrade.keep a List.not_mem_nil (by simp [whole, ha, ha'])

/-- `HashMap_Insert` does what it does on the sequences, whatever its allocations yield. -/
theorem Stores.insert (h : Stores frame store m map) (hfresh : mallocs.Fresh store) (key : K)
    (value : V) :
    ∃ store', insert hashFunc keysEqualFunc mallocs store (some m) (some key) value =
        some ((map.insert mallocs.alloc key value).1, store') ∧
      Stores frame store' m (map.insert mallocs.alloc key value).2 := by
  obtain ⟨block, before, bucket, after, hlaid, rfl, hhere, hidx, hidx', hbucket, hbucket'⟩ :=
    h.selected key
  simp only [HashMapHeap.insert, hhere, Option.bind_some, hidx, hbucket]
  cases bucket with
  | some chain =>
    rw [insert_shape mallocs.alloc value chain hidx' rfl]
    exact hlaid.insertInto key value hfresh.pair fun a ha => (hfresh.node a ha).1
  | none =>
    cases hl : mallocs.list with
    | none =>
      have hstays : Store.setBucket { store with nodes := store.nodes } block before.length none =
          some store := by
        have hset := set_around (Option.map Chain.list) before after (none : Option (Chain K V)) none
        rw [Option.map_none] at hset
        rw [Store.setBucket, hlaid.array, Option.bind_some, if_pos (by simp), hset,
          ← hlaid.array, Function.update_eq_self]
      have hfails : (shape block (before ++ none :: after) :
          HashMap hashFunc keysEqualFunc V).insert mallocs.alloc key value =
          (.allocationError, shape block (before ++ none :: after)) := by
        rw [HashMap.insert, hidx', shape_bucket]
        simp [InsertMallocs.alloc, hl]
      rw [hfails]
      simp only [Option.map_none, DList.createIn, hstays, Option.bind_some]
      exact ⟨store, rfl, h⟩
    | some l =>
      obtain ⟨nodes', store', hcreate, hset, hlaid', hpairs, hnodes⟩ :=
        hlaid.createList (hfresh.list l hl).1 (hfresh.list l hl).2
      have hchain : ((none : Option (Chain K V)).map Chain.pairs).or
          (if mallocs.alloc.list then some [] else none) =
          some (⟨⟨l, l + 24⟩, []⟩ : Chain K V).pairs := by
        simp [InsertMallocs.alloc, hl, Chain.pairs]
      rw [insert_shape mallocs.alloc value ⟨⟨l, l + 24⟩, []⟩ hidx' hchain]
      simp only [Option.map_none, hcreate, hset, Option.bind_some]
      refine hlaid'.insertInto key value (fun a ha => hpairs ▸ hfresh.pair a ha) fun a ha => ?_
      obtain ⟨hfree, hne⟩ := hfresh.node a ha
      rw [hnodes a (hne l hl).1 (hne l hl).2]
      exact hfree

/-- What `HashMap_Find` returns for the value it finds. -/
def foundResult (value : Option V) : MapResult × Option V :=
  (if value.isSome then .success else .keyNotFoundError, value)

theorem Stores.find (h : Stores frame store m map) (key : K) :
    find hashFunc keysEqualFunc store (some m) (some key) = some (foundResult (map.find key)) := by
  obtain ⟨block, before, bucket, after, hlaid, rfl, hhere, hidx, hidx', hbucket, hbucket'⟩ :=
    h.selected key
  simp only [HashMapHeap.find, hhere, Option.bind_some, hidx, hbucket, HashMap.find, hidx', hbucket']
  cases bucket with
  | none => rfl
  | some chain =>
    simp only [Option.map_some, hlaid.search_eq, Option.bind_some, searchList_pairs]
    cases hfind : chain.slots.find? fun slot => keysEqualFunc slot.pair.key key with
    | none => rfl
    | some slot =>
      have hstored := hlaid.chain_in.stored slot (List.mem_of_find?_eq_some hfind)
      simp [hstored, foundResult]

/-- What the loop of `HashMap_Remove` does once it is at the pair. -/
def removeAt (m : ℕ) (block : MapBlock) (store : Store K V) (slot : Slot K V) :
    Option (Option (KeyValuePair K V) × Store K V) :=
  (itrRemove store.nodes slot.node).bind fun r =>
    (Store.freePair { store with nodes := r.2 } slot.address).map fun store =>
      (some slot.pair, store.setSize m block (block.size - 1))

/-- The loop of `HashMap_Remove` stops at the first pair with an equal key. -/
theorem removeLoop_eq {list : DList} (searchKey : K) (front : List (Slot K V))
    {rest : List (Slot K V)}
    (hlies : Lies store.nodes list ((front ++ rest).map Slot.cell))
    (hstored : ∀ slot ∈ rest, store.pairs slot.address = some slot.pair) {fuel itr : ℕ}
    (hfuel : rest.length < fuel) (hitr : first (rest.map Slot.cell) (some list.tail) = some itr) :
    removeLoop keysEqualFunc m block list searchKey store fuel itr =
      (rest.find? fun slot => keysEqualFunc slot.pair.key searchKey).elim (some (none, store))
        (removeAt m block store) := by
  induction rest generalizing front fuel itr with
  | nil =>
    obtain ⟨fuel, rfl⟩ := Nat.exists_eq_succ_of_ne_zero (by omega : fuel ≠ 0)
    obtain rfl := Option.some.inj hitr
    simp [removeLoop, itrEnd]
  | cons slot rest ih =>
    obtain ⟨fuel, rfl⟩ := Nat.exists_eq_succ_of_ne_zero (by omega : fuel ≠ 0)
    obtain rfl : slot.node = itr := Option.some.inj hitr
    obtain ⟨hslot, hrest⟩ := List.forall_mem_cons.mp hstored
    rw [List.map_append, List.map_cons] at hlies
    have hnode := hlies.node
    obtain ⟨next, hnext⟩ := Option.ne_none_iff_exists'.mp
      (first_ne_none (rest.map Slot.cell) list.tail)
    have hget : itrGet store.nodes slot.node = some (some slot.address) := by
      rw [itrGet, hnode, Option.map_some, if_neg (first_ne_none _ _)]
    have hgo : itrNext store.nodes slot.node = some (some next) := by
      rw [itrNext, hnode, Option.map_some, hnext, Option.some_or]
    simp only [removeLoop, if_neg hlies.itr_ne_end, hget, Option.bind_some, hslot]
    cases hkey : keysEqualFunc slot.pair.key searchKey with
    | true => simp [hkey, removeAt]
    | false =>
      have hlies' : Lies store.nodes list (((front ++ [slot]) ++ rest).map Slot.cell) := by
        simpa using hlies
      simpa [hkey, hgo] using ih _ hlies' hrest (by simpa using hfuel) hnext

/-- A pair whose node was taken out of its chain is freed. -/
theorem Laid.take {list : DList} (front : List (Slot K V)) {back : List (Slot K V)} {slot : Slot K V}
    (h : Laid frame store m block (before ++ some ⟨list, front ++ slot :: back⟩ :: after))
    {nodes' : Heap (Option ℕ)} (hlies : Lies nodes' list (front.map Slot.cell ++ back.map Slot.cell))
    (htrade : Trades store.nodes nodes'
      (addrs (list.whole (front.map Slot.cell ++ slot.cell :: back.map Slot.cell)))
      (addrs (list.whole (front.map Slot.cell ++ back.map Slot.cell))))
    {size : ℕ} (hsize : block.size - 1 ≤ size) :
    Laid frame { store with
        nodes := nodes'
        pairs := Function.update store.pairs slot.address none
        maps := Function.update store.maps m (some { block with size }) }
      m { block with size } (before ++ some ⟨list, front ++ back⟩ :: after) := by
  have hin := h.chain_in
  obtain ⟨hnodup, hlive⟩ := h.chain_addresses
  have haddresses : Chain.addresses (some ⟨list, front ++ slot :: back⟩) =
      front.map (·.address) ++ [slot.address] ++ back.map (·.address) := by
    simp [Chain.addresses]
  rw [haddresses] at hnodup hlive
  have hfree := (Trades.free store.pairs slot.address).widen hnodup hlive
  refine h.replace _ _ { block with size } ?_ ?_ ?_ rfl ?_ ⟨rfl, rfl⟩ ?_
  · simpa [Chain.nodes, Chain.cells] using htrade
  · simpa [Chain.addresses] using hfree
  · intro _ heq
    obtain rfl := Option.some.inj heq
    refine ⟨by simpa [Chain.cells] using hlies, fun other hother => ?_⟩
    have hne : other.address ≠ slot.address := by
      simp only [List.nodup_append, List.mem_map, List.mem_append, List.mem_singleton] at hnodup
      rcases List.mem_append.mp hother with hfront | hback
      · exact hnodup.1.2.2 _ ⟨other, hfront, rfl⟩ _ rfl
      · exact (hnodup.2.2 _ (Or.inr rfl) _ ⟨other, hback, rfl⟩).symm
    refine (Function.update_of_ne hne ..).trans (hin.stored other ?_)
    rcases List.mem_append.mp hother with hfront | hback
    · exact List.mem_append_left _ hfront
    · exact List.mem_append_right _ (List.mem_cons_of_mem _ hback)
  · exact (h.update_array (some ⟨list, front ++ back⟩) rfl).symm
  · have hold := h.size
    rw [flatMap_around, List.length_append, List.length_append] at hold ⊢
    simp only [Chain.addresses, Option.elim, List.length_map, List.length_append,
      List.length_cons] at hold ⊢
    omega

/-- The end of `HashMap_Remove`: a pair is taken out of its chain and freed with its node. -/
theorem Laid.removeAt {list : DList} {front back : List (Slot K V)} {slot : Slot K V}
    (h : Laid frame store m block (before ++ some ⟨list, front ++ slot :: back⟩ :: after)) :
    ∃ store', removeAt m block store slot = some (some slot.pair, store') ∧
      Laid frame store' m { block with size := block.size - 1 }
        (before ++ some ⟨list, front ++ back⟩ :: after) := by
  have hlies : Lies store.nodes list (front.map Slot.cell ++ slot.cell :: back.map Slot.cell) := by
    simpa [Chain.cells] using h.chain_in.lies
  obtain ⟨r, nodes', cells', hremove, rfl, hlies', htrade⟩ :=
    hlies.actInPlace (P := fun _ cells' => cells' = front.map Slot.cell ++ back.map Slot.cell)
      (itrRemove_local slot.node) fun part hpart => by
        obtain ⟨part', hremove, hholds⟩ := hpart.remove
        exact ⟨_, part', _, hremove, rfl, hholds⟩
  have hslot : store.pairs slot.address = some slot.pair := h.chain_in.stored slot (by simp)
  refine ⟨_, ?_, h.take front hlies' htrade le_rfl⟩
  simp only [HashMapHeap.removeAt, hremove, Option.bind_some, Store.freePair, hslot, Option.map_some]
  rfl

/-- What `HashMap_Remove` returns with the pair it hands back. -/
def removedResult (pair : Option (KeyValuePair K V)) : MapResult × Option (KeyValuePair K V) :=
  (if pair.isSome then .success else .keyNotFoundError, pair)

theorem remove_shape {list : DList} {front back : List (Slot K V)} {slot : Slot K V} {key : K}
    (hidx : (shape block (before ++ some ⟨list, front ++ slot :: back⟩ :: after) :
      HashMap hashFunc keysEqualFunc V).bucketIndex key = before.length)
    (hslot : keysEqualFunc slot.pair.key key = true)
    (hfront : ∀ other ∈ front, keysEqualFunc other.pair.key key = false) :
    (shape block (before ++ some ⟨list, front ++ slot :: back⟩ :: after) :
        HashMap hashFunc keysEqualFunc V).remove key =
      (some slot.pair, shape { block with size := block.size - 1 }
        (before ++ some ⟨list, front ++ back⟩ :: after)) := by
  have hpairs : Chain.pairs ⟨list, front ++ slot :: back⟩ =
      front.map (·.pair) ++ slot.pair :: back.map (·.pair) := by
    simp [Chain.pairs]
  have hfind : (front.map (·.pair) ++ slot.pair :: back.map (·.pair)).findIdx
      (fun pair => keysEqualFunc pair.key key) = (front.map (·.pair)).length := by
    rw [List.findIdx_append, if_neg, List.findIdx_cons, hslot, cond_true, Nat.zero_add]
    simpa using hfront
  have hset := set_around (Option.map Chain.pairs) before after
    (some ⟨list, front ++ slot :: back⟩) (some ⟨list, front ++ back⟩)
  rw [HashMap.remove, hidx, shape_bucket, Option.map_some, hpairs]
  simp only [hfind, List.getElem?_append_right le_rfl, Nat.sub_self, List.getElem?_cons_zero,
    listItrRemove, List.eraseIdx_append_of_length_le le_rfl, List.eraseIdx_cons_zero]
  refine Prod.ext rfl ?_
  simp only [shape, ← hset]
  simp [Chain.pairs]

theorem Stores.remove (h : Stores frame store m map) (key : K) :
    ∃ store', remove hashFunc keysEqualFunc store (some m) (some key) =
        some (removedResult (map.remove key).1, store') ∧
      Stores frame store' m (map.remove key).2 := by
  obtain ⟨block, before, bucket, after, hlaid, rfl, hhere, hidx, hidx', hbucket, hbucket'⟩ :=
    h.selected key
  simp only [HashMapHeap.remove, hhere, Option.bind_some, hidx, hbucket]
  cases bucket with
  | none =>
    refine ⟨store, ?_, ?_⟩
    · rw [HashMap.remove, hidx', hbucket']
      rfl
    · rw [HashMap.remove, hidx', hbucket']
      exact h
  | some chain =>
    obtain ⟨itr, hitr⟩ := Option.ne_none_iff_exists'.mp (first_ne_none chain.cells chain.list.tail)
    have hloop : removeLoop keysEqualFunc m block chain.list key store (turns block) itr = _ :=
      removeLoop_eq key [] hlaid.chain_in.lies hlaid.chain_in.stored hlaid.turns_lt hitr
    simp only [Option.map_some, hlaid.chain_in.lies.itrBegin, Option.bind_some, hitr, hloop]
    cases hfind : chain.slots.find? fun slot => keysEqualFunc slot.pair.key key with
    | none =>
      have hfails : (shape block (before ++ some chain :: after) :
          HashMap hashFunc keysEqualFunc V).remove key =
          (none, shape block (before ++ some chain :: after)) := by
        have hnone : chain.pairs[chain.pairs.findIdx fun pair => keysEqualFunc pair.key key]? = none := by
          rw [KeyedList.getElem?_findIdx, ← HashMap.searchList_eq, searchList_pairs, hfind,
            Option.map_none]
        rw [HashMap.remove, hidx', hbucket']
        simp [hnone]
      rw [hfails]
      exact ⟨store, rfl, h⟩
    | some slot =>
      obtain ⟨hslot, front, back, hslots, hfront⟩ := List.find?_eq_some_iff_append.mp hfind
      obtain ⟨list, slots⟩ := chain
      obtain rfl : slots = front ++ slot :: back := hslots
      obtain ⟨store', hremove, hlaid'⟩ := hlaid.removeAt
      rw [remove_shape hidx' hslot (by simpa using hfront)]
      exact ⟨store', by simp [hremove, removedResult], _, _, hlaid', rfl⟩

end Stores

section Buckets
variable {σ : Type*} {hashFunc : K → UInt64} {keysEqualFunc : K → K → Bool} {frame store : Store K V}
  {m : ℕ} {block : MapBlock} {before after rest : List (Option (Chain K V))} {chain : Chain K V}
  {map : HashMap hashFunc keysEqualFunc V}

/-- The user action sees the pairs of the chain. -/
theorem forEachAction_cells (action : K → V → σ → σ × Bool) {slots : List (Slot K V)}
    (h : ∀ slot ∈ slots, store.pairs slot.address = some slot.pair)
    (ctx : HashMap.ForEachContext σ) :
    (listItrForEach (fun cell s => (cell, forEachAction store action cell.2 s))
        (slots.map Slot.cell) (some ctx)).2.1 =
      some (listItrForEach (HashMap.forEachAction fun key value s => (value, action key value s))
        (slots.map (·.pair)) ctx).2.1 := by
  induction slots generalizing ctx with
  | nil => rfl
  | cons slot slots ih =>
    obtain ⟨hslot, hslots⟩ := List.forall_mem_cons.mp h
    have haction : forEachAction store action slot.cell.2 (some ctx) =
        (some (HashMap.forEachAction (fun key value s => (value, action key value s)) slot.pair ctx).2.1,
          (action slot.pair.key slot.pair.value ctx.userContext).2) := by
      simp [forEachAction, HashMap.forEachAction, Slot.cell, hslot]
    simp only [List.map_cons, listItrForEach, haction]
    cases hgo : (action slot.pair.key slot.pair.value ctx.userContext).2 with
    | false => simp [HashMap.forEachAction, hgo]
    | true =>
      have hgo' : (HashMap.forEachAction (fun key value s => (value, action key value s)) slot.pair
          ctx).2.2 = true := hgo
      simp only [if_true, hgo']
      exact ih hslots _

theorem Laid.forEachBuckets (before : List (Option (Chain K V)))
    (h : Laid frame store m block (before ++ rest))
    (action : K → V → σ → σ × Bool) (ctx : HashMap.ForEachContext σ) :
    forEachBuckets store block action rest.length before.length ctx =
      some (HashMap.forEachBuckets (fun key value s => (value, action key value s))
        (rest.map (Option.map Chain.pairs)) ctx).2 := by
  induction rest generalizing before ctx with
  | nil => rfl
  | cons bucket rest ih =>
    have hnext := ih (before ++ [bucket]) (by simpa using h)
    rw [List.length_append, List.length_singleton] at hnext
    simp only [List.length_cons, HashMapHeap.forEachBuckets, h.bucket_eq, Option.bind_some]
    cases bucket with
    | none => exact hnext ctx
    | some chain =>
      have hlies := h.chain_in.lies
      have hfuel : chain.cells.length < turns block := by simpa [Chain.cells] using h.turns_lt
      obtain ⟨itr, hloop⟩ := hlies.forEach (forEachAction store action) (some ctx) hfuel
      have hcells := forEachAction_cells action h.chain_in.stored ctx
      rw [Chain.cells] at hloop
      rw [hcells] at hloop
      simp only [Option.map_some, hlies.itrBegin, Chain.cells, Option.bind_some, hloop,
        List.map_cons, HashMap.forEachBuckets, Chain.pairs]
      split
      · rfl
      · exact hnext _

theorem Stores.forEach (h : Stores frame store m map) (action : K → V → σ → σ × Bool)
    (context : σ) :
    forEach store (some m) action context =
      some (map.forEach (fun key value s => (value, action key value s)) context).2 := by
  obtain ⟨block, chains, hlaid, rfl⟩ := h
  have hloop := Laid.forEachBuckets [] hlaid action ⟨context, 0, false⟩
  rw [HashMapHeap.forEach, hlaid.here, Option.bind_some, hlaid.capacity]
  rw [List.length_nil] at hloop
  rw [hloop]
  rfl

theorem Stores.size (h : Stores frame store m map) : size store (some m) = some map.size := by
  obtain ⟨block, chains, hlaid, rfl⟩ := h
  rw [HashMapHeap.size, hlaid.here]
  rfl

/-- The lengths of the chains that are not empty. -/
def chainLengths (buckets : List (Option (List (KeyValuePair K V)))) : List ℕ :=
  (buckets.map fun bucket => (bucket.getD []).length).filter fun n => decide (n ≠ 0)

/-- What the statistics are of: the buckets, the chains, the longest and the average. -/
def statistics (map : HashMap hashFunc keysEqualFunc V) : MapStats :=
  let lengths := chainLengths map.buckets
  ⟨map.buckets.length, lengths.length, lengths.foldl max 0,
    if lengths.length > 0 then map.entries.length / lengths.length else 0⟩

theorem sum_chainLengths (buckets : List (Option (List (KeyValuePair K V)))) :
    (chainLengths buckets).sum = (buckets.map (·.getD [])).flatten.length := by
  induction buckets with
  | nil => rfl
  | cons bucket buckets ih =>
    rw [List.map_cons, List.flatten_cons, List.length_append, ← ih]
    by_cases hempty : (bucket.getD []).length = 0
    · simp [chainLengths, hempty]
    · simp [chainLengths, hempty]

theorem Laid.statisticsLoop (before : List (Option (Chain K V)))
    (h : Laid frame store m block (before ++ rest)) (stats : MapStats)
    (totalChainLen : ℕ) :
    let lengths := chainLengths (rest.map (Option.map Chain.pairs))
    statisticsLoop store block rest.length before.length (stats, totalChainLen) =
      some ({ stats with
          numberOfChains := stats.numberOfChains + lengths.length
          maxChainLength := lengths.foldl max stats.maxChainLength },
        totalChainLen + lengths.sum) := by
  induction rest generalizing before stats totalChainLen with
  | nil => rfl
  | cons bucket rest ih =>
    have hnext := ih (before ++ [bucket]) (by simpa using h)
    rw [List.length_append, List.length_singleton] at hnext
    simp only [List.length_cons, HashMapHeap.statisticsLoop, h.bucket_eq, Option.bind_some]
    cases bucket with
    | none => simpa [chainLengths] using hnext stats totalChainLen
    | some chain =>
      have hsize : chain.list.size (turns block) store.nodes = some chain.slots.length := by
        rw [← List.length_map (f := Slot.cell)]
        exact h.chain_in.lies.read (size_local _ _) fun part hpart =>
          hpart.size (by simpa [Chain.cells] using h.turns_lt)
      simp only [Option.map_some, hsize, Option.bind_some]
      by_cases hempty : chain.slots.length = 0
      · rw [if_pos hempty, hnext]
        simp [chainLengths, Chain.pairs, hempty]
      · have hmax : (if chain.slots.length > stats.maxChainLength then chain.slots.length
            else stats.maxChainLength) = max stats.maxChainLength chain.slots.length := by
          split <;> omega
        rw [if_neg hempty, hnext, hmax]
        simp [chainLengths, Chain.pairs, hempty]
        omega

/-- `HashMap_GetStatistics` counts the chains that are not empty and their pairs. -/
theorem Stores.getStatistics (h : Stores frame store m map) :
    getStatistics store (some m) = some (statistics map) := by
  obtain ⟨block, chains, hlaid, rfl⟩ := h
  have hloop := Laid.statisticsLoop [] hlaid ⟨block.capacity, 0, 0, 0⟩ 0
  rw [HashMapHeap.getStatistics, hlaid.here, Option.bind_some, hlaid.capacity]
  rw [List.length_nil, hlaid.capacity] at hloop
  have htotal : (shape block chains : HashMap hashFunc keysEqualFunc V).entries.length =
      (chainLengths (chains.map (Option.map Chain.pairs))).sum := (sum_chainLengths _).symm
  rw [hloop, statistics, htotal]
  simp [shape]

theorem Laid.keepBlock (h : Laid frame store m block (before ++ after)) :
    Function.update store.maps m (some block) = store.maps := by
  rw [← h.here, Function.update_eq_self]

/-- The `while` loop of `HashMap_Destroy` empties a chain. -/
theorem Laid.destroyPairs {list : DList} {slots : List (Slot K V)}
    (h : Laid frame store m block (before ++ some ⟨list, slots⟩ :: after))
    (keyDestroy : K → σ → σ) (valDestroy : V → σ → σ) {fuel : ℕ} (hfuel : slots.length < fuel)
    (s : σ) :
    ∃ store', destroyPairs keyDestroy valDestroy list fuel store s =
        some (HashMap.destroyList keyDestroy valDestroy (slots.map (·.pair)) s, store') ∧
      Laid frame store' m block (before ++ some ⟨list, []⟩ :: after) := by
  induction slots generalizing store fuel s with
  | nil =>
    obtain ⟨fuel, rfl⟩ := Nat.exists_eq_succ_of_ne_zero (by omega : fuel ≠ 0)
    have hempty : list.isEmpty store.nodes = some true :=
      h.chain_in.lies.read (isEmpty_local list) fun part hpart => hpart.isEmpty
    exact ⟨store, by simp [HashMapHeap.destroyPairs, hempty, HashMap.destroyList], h⟩
  | cons slot slots ih =>
    obtain ⟨fuel, rfl⟩ := Nat.exists_eq_succ_of_ne_zero (by omega : fuel ≠ 0)
    have hlies : Lies store.nodes list (slot.cell :: slots.map Slot.cell) := h.chain_in.lies
    have hempty : list.isEmpty store.nodes = some false :=
      hlies.read (isEmpty_local list) fun part hpart => hpart.isEmpty
    obtain ⟨r, nodes', cells', hpop, ⟨rfl, rfl⟩, hlies', htrade⟩ :=
      hlies.actInPlace (P := fun r cells' => r = some slot.address ∧ cells' = slots.map Slot.cell)
        (popHead_local list) fun part hpart => by
          obtain ⟨part', hpop, hholds⟩ := hpart.popHead
          exact ⟨_, part', _, hpop, ⟨rfl, rfl⟩, hholds⟩
    have hslot : store.pairs slot.address = some slot.pair := h.chain_in.stored slot (by simp)
    have htaken := Laid.take [] h hlies' htrade (Nat.sub_le block.size 1)
    rw [Laid.keepBlock h] at htaken
    obtain ⟨store', hrest, hlaid⟩ := ih htaken (by simpa using hfuel)
      (valDestroy slot.pair.value (keyDestroy slot.pair.key s))
    refine ⟨store', ?_, hlaid⟩
    simp only [HashMapHeap.destroyPairs, hempty, Option.bind_some, hpop, hslot, Store.freePair,
      Option.map_some, hrest]
    rfl

/-- The empty list shell is destroyed and its bucket set to NULL. -/
theorem Laid.destroyList {list : DList}
    (h : Laid frame store m block (before ++ some ⟨list, []⟩ :: after)) (s : σ) :
    ∃ nodes' store', list.destroy (fun _ s => s) (turns block) store.nodes s = some (s, nodes') ∧
      Store.setBucket { store with nodes := nodes' } block before.length none = some store' ∧
      Laid frame store' m block (before ++ none :: after) := by
  have hturns : (Chain.cells (⟨list, []⟩ : Chain K V)).length < turns block := Nat.succ_pos _
  obtain ⟨nodes', hdestroy, htrade⟩ :=
    h.chain_in.lies.destroy (fun (_ : ℕ) (s : σ) => s) hturns s
  have hset := set_around (Option.map Chain.list) before after
    (some (⟨list, []⟩ : Chain K V)) none
  refine ⟨nodes', _, hdestroy, ?_, h.replace none
    { store with
      nodes := nodes'
      arrays := Function.update store.arrays block.buckets
        (some ((before ++ none :: after).map (Option.map Chain.list))) }
      block htrade (.refl List.nodup_nil nofun) nofun (Laid.keepBlock h).symm rfl ⟨rfl, rfl⟩ ?_⟩
  · rw [Store.setBucket, h.array, Option.bind_some, if_pos (by simp), ← hset]
    rfl
  · simpa [Chain.addresses] using h.size

theorem Laid.destroyBuckets (before : List (Option (Chain K V)))
    (h : Laid frame store m block (before ++ rest))
    (keyDestroy : K → σ → σ) (valDestroy : V → σ → σ) (s : σ) :
    ∃ store', destroyBuckets keyDestroy valDestroy block rest.length before.length store s =
        some (HashMap.destroyBuckets keyDestroy valDestroy (rest.map (Option.map Chain.pairs)) s,
          store') ∧
      Laid frame store' m block (before ++ rest.map fun _ => none) := by
  induction rest generalizing before store s with
  | nil => exact ⟨store, rfl, h⟩
  | cons bucket rest ih =>
    have hnext : ∀ {store : Store K V} (_ : Laid frame store m block (before ++ none :: rest)) (s : σ),
        ∃ store', HashMapHeap.destroyBuckets keyDestroy valDestroy block rest.length
            (before.length + 1) store s =
          some (HashMap.destroyBuckets keyDestroy valDestroy (rest.map (Option.map Chain.pairs)) s,
            store') ∧
          Laid frame store' m block (before ++ none :: rest.map fun _ => none) := by
      intro store hlaid s
      have hnone := ih (before ++ [none]) (show Laid frame store m block _ by simpa using hlaid) s
      simpa using hnone
    simp only [List.length_cons, HashMapHeap.destroyBuckets, h.bucket_eq, Option.bind_some]
    cases bucket with
    | none => exact hnext h s
    | some chain =>
      obtain ⟨list, slots⟩ := chain
      obtain ⟨store₁, hpairs, hlaid₁⟩ := h.destroyPairs keyDestroy valDestroy h.turns_lt s
      obtain ⟨nodes₂, store₂, hlist, hset, hlaid₂⟩ := hlaid₁.destroyList
        (HashMap.destroyList keyDestroy valDestroy (slots.map (·.pair)) s)
      obtain ⟨store₃, hrest, hlaid₃⟩ := hnext hlaid₂
        (HashMap.destroyList keyDestroy valDestroy (slots.map (·.pair)) s)
      exact ⟨store₃, by simpa [hpairs, hlist, hset, Chain.pairs, HashMap.destroyBuckets] using hrest,
        hlaid₃⟩

/-- A map without lists owns its two blocks alone. -/
theorem Laid.eq_frame {chains : List (Option (Chain K V))}
    (h : Laid frame store m block chains) (hnone : ∀ bucket ∈ chains, bucket = none) :
    { store with
      arrays := Function.update store.arrays block.buckets none
      maps := Function.update store.maps m none } = frame := by
  have hempty : ∀ f : Option (Chain K V) → List ℕ, f none = [] → chains.flatMap f = [] := by
    intro f hf
    refine List.flatMap_eq_nil_iff.mpr fun bucket hbucket => ?_
    rw [hnone bucket hbucket, hf]
  have hnodes := h.nodes
  have hpairs := h.pairs
  rw [hempty _ rfl] at hnodes hpairs
  exact Store.ext hnodes.eq_frame hpairs.eq_frame
    (h.arrays.exchange (.free _ _)).eq_frame (h.maps.exchange (.free _ _)).eq_frame

/-- `HashMap_Destroy` hands over the pairs in order and leaves the frame. -/
theorem Stores.destroy (h : Stores frame store m map) (keyDestroy : K → σ → σ)
    (valDestroy : V → σ → σ) (s : σ) :
    destroy keyDestroy valDestroy store m s =
      some (map.destroy keyDestroy valDestroy s, frame) := by
  obtain ⟨block, chains, hlaid, rfl⟩ := h
  obtain ⟨store', hloop, hlaid'⟩ :=
    Laid.destroyBuckets [] hlaid keyDestroy valDestroy s
  rw [HashMapHeap.destroy, hlaid.here, Option.bind_some, hlaid.capacity]
  rw [List.length_nil] at hloop
  rw [hloop, Option.bind_some, hlaid'.array, Option.map_some]
  exact congrArg some (Prod.ext rfl (hlaid'.eq_frame (by simp)))

/-- A created map is empty. -/
theorem create_stores {malloc calloc : Option ℕ} {capacity : UInt64}
    (hcreate : create malloc calloc capacity frame = some (some m, store))
    (hmalloc : ∀ a, malloc = some a → frame.maps a = none)
    (hcalloc : ∀ a, calloc = some a → frame.arrays a = none) :
    ∃ map : HashMap hashFunc keysEqualFunc V, HashMap.create true true capacity = some map ∧
      Stores frame store m map := by
  obtain ⟨primeCapacity, hprime, hblocks⟩ := Option.map_eq_some_iff.mp hcreate
  cases hm : malloc with
  | none => simp [hm] at hblocks
  | some a =>
    cases hc : calloc with
    | none => simp [hm, hc] at hblocks
    | some array =>
      simp only [hm, hc] at hblocks
      obtain ⟨ha, rfl⟩ := Prod.mk.inj hblocks
      obtain rfl := Option.some.inj ha
      have hpos : 0 < primeCapacity.toNat := (nextPrime_prime hprime).pos
      have hnone : ∀ f : Option (Chain K V) → List ℕ, f none = [] →
          (List.replicate primeCapacity.toNat none).flatMap f = [] := by
        intro f hf
        simp [List.flatMap_replicate, hf]
      refine ⟨_, by rw [HashMap.create, hprime]; rfl, ⟨array, primeCapacity.toNat, 0⟩,
        List.replicate primeCapacity.toNat none, ⟨Function.update_self .., ?_, by simpa using hpos,
          by simp, ?_, ?_, ?_, ?_, ?_, ?_⟩, ?_⟩
      · simp
      · rw [hnone _ rfl]
        exact Nat.zero_le 0
      · intro chain hchain
        cases (List.mem_replicate.mp hchain).2
      · rw [hnone _ rfl]
        exact .of_empty frame.nodes
      · rw [hnone _ rfl]
        exact .of_empty frame.pairs
      · exact (Owns.of_empty frame.maps).exchange (.alloc (hmalloc a hm) _)
      · exact (Owns.of_empty frame.arrays).exchange (.alloc (hcalloc array hc) _)
      · simp [shape]

/-- A map that cannot be created leaves nothing. -/
theorem create_fails {malloc calloc : Option ℕ} {capacity : UInt64}
    (hcreate : create malloc calloc capacity frame = some (none, store))
    (hmalloc : ∀ a, malloc = some a → frame.maps a = none) : store = frame := by
  obtain ⟨primeCapacity, -, hblocks⟩ := Option.map_eq_some_iff.mp hcreate
  cases hm : malloc with
  | none => simpa [hm] using hblocks.symm
  | some a =>
    cases hc : calloc with
    | some array => simp [hm, hc] at hblocks
    | none =>
      have hsame : Function.update frame.maps a none = frame.maps := by
        rw [← hmalloc a hm, Function.update_eq_self]
      simpa [hm, hc, hsame] using hblocks.symm

inductive Call (K V σ : Type*) where
  | insert (mallocs : InsertMallocs) (key : Option K) (value : V)
  | remove (searchKey : Option K)
  | find (key : Option K)
  | size
  | forEach (action : K → V → σ → σ × Bool) (context : σ)
  | getStatistics

inductive Answer (K V σ : Type*) where
  | insert (result : MapResult)
  | remove (result : MapResult × Option (KeyValuePair K V))
  | find (result : MapResult × Option V)
  | size (size : ℕ)
  | forEach (context : σ) (count : ℕ)
  | getStatistics (stats : MapStats)

/-- One call on the map at `m`. -/
def exec (hashFunc : K → UInt64) (keysEqualFunc : K → K → Bool) (m : ℕ) (store : Store K V) :
    Call K V σ → Option (Answer K V σ × Store K V)
  | .insert mallocs key value =>
      (insert hashFunc keysEqualFunc mallocs store (some m) key value).map fun r => (.insert r.1, r.2)
  | .remove searchKey =>
      (remove hashFunc keysEqualFunc store (some m) searchKey).map fun r => (.remove r.1, r.2)
  | .find key => (find hashFunc keysEqualFunc store (some m) key).map fun r => (.find r, store)
  | .size => (size store (some m)).map fun n => (.size n, store)
  | .forEach action context =>
      (forEach store (some m) action context).map fun r => (.forEach r.1 r.2, store)
  | .getStatistics => (getStatistics store (some m)).map fun stats => (.getStatistics stats, store)

/-- The same call on the sequences; a NULL key is refused. -/
def execList (map : HashMap hashFunc keysEqualFunc V) :
    Call K V σ → Answer K V σ × HashMap hashFunc keysEqualFunc V
  | .insert _ none _ => (.insert .keyNullError, map)
  | .insert mallocs (some key) value =>
      (.insert (map.insert mallocs.alloc key value).1, (map.insert mallocs.alloc key value).2)
  | .remove none => (.remove (.keyNullError, none), map)
  | .remove (some searchKey) =>
      (.remove (removedResult (map.remove searchKey).1), (map.remove searchKey).2)
  | .find none => (.find (.keyNullError, none), map)
  | .find (some key) => (.find (foundResult (map.find key)), map)
  | .size => (.size map.size, map)
  | .forEach action context =>
      let r := (map.forEach (fun key value s => (value, action key value s)) context).2
      (.forEach r.1 r.2, map)
  | .getStatistics => (.getStatistics (statistics map), map)

/-- What a call allocates is free. -/
def Call.MayMake (store : Store K V) : Call K V σ → Prop
  | .insert mallocs _ _ => mallocs.Fresh store
  | _ => True

theorem Stores.exec (h : Stores frame store m map) (call : Call K V σ) (hmay : call.MayMake store) :
    ∃ store', exec hashFunc keysEqualFunc m store call = some ((execList map call).1, store') ∧
      Stores frame store' m (execList map call).2 := by
  cases call with
  | insert mallocs key value =>
    cases key with
    | none => exact ⟨store, rfl, h⟩
    | some key =>
      obtain ⟨store', hinsert, hstores⟩ := h.insert hmay key value
      exact ⟨store', by rw [HashMapHeap.exec, hinsert]; rfl, hstores⟩
  | remove searchKey =>
    cases searchKey with
    | none => exact ⟨store, rfl, h⟩
    | some key =>
      obtain ⟨store', hremove, hstores⟩ := h.remove key
      exact ⟨store', by rw [HashMapHeap.exec, hremove]; rfl, hstores⟩
  | find key =>
    cases key with
    | none => exact ⟨store, rfl, h⟩
    | some key => exact ⟨store, by rw [HashMapHeap.exec, h.find]; rfl, h⟩
  | size => exact ⟨store, by rw [HashMapHeap.exec, h.size]; rfl, h⟩
  | forEach action context => exact ⟨store, by rw [HashMapHeap.exec, h.forEach]; rfl, h⟩
  | getStatistics => exact ⟨store, by rw [HashMapHeap.exec, h.getStatistics]; rfl, h⟩

/-- The live blocks of the frame are as they were. -/
structure Keeps (frame store : Store K V) : Prop where
  nodes : ∀ a, frame.nodes a ≠ none → store.nodes a = frame.nodes a
  pairs : ∀ a, frame.pairs a ≠ none → store.pairs a = frame.pairs a
  arrays : ∀ a, frame.arrays a ≠ none → store.arrays a = frame.arrays a
  maps : ∀ a, frame.maps a ≠ none → store.maps a = frame.maps a

theorem Stores.keeps (h : Stores frame store m map) : Keeps frame store := by
  obtain ⟨block, chains, hlaid, -⟩ := h
  exact ⟨fun a ha => hlaid.nodes.same a fun hmem => ha (hlaid.nodes.free a hmem),
    fun a ha => hlaid.pairs.same a fun hmem => ha (hlaid.pairs.free a hmem),
    fun a ha => hlaid.arrays.same a fun hmem => ha (hlaid.arrays.free a hmem),
    fun a ha => hlaid.maps.same a fun hmem => ha (hlaid.maps.free a hmem)⟩

/-- Whatever is called on a map that was created among other data, and whichever of
its allocations fail: no call touches a dead block or loops on, the answers are those
of the sequences, the other data stays, and `HashMap_Destroy` hands over the stored
pairs and leaves exactly the blocks there were before the map. -/
theorem calls_refine_and_restore {malloc calloc : Option ℕ} {capacity : UInt64}
    (hcreate : create malloc calloc capacity frame = some (some m, store))
    (hmalloc : ∀ a, malloc = some a → frame.maps a = none)
    (hcalloc : ∀ a, calloc = some a → frame.arrays a = none) {calls : List (Call K V σ)}
    (hlegal : Objects.Legal (fun store call answer store' =>
      HashMapHeap.exec hashFunc keysEqualFunc m store call = some (answer, store'))
      (fun store call => call.MayMake store) store calls) :
    ∃ (map : HashMap hashFunc keysEqualFunc V) (answers : _) (store' : _)
      (map' : HashMap hashFunc keysEqualFunc V), HashMap.create true true capacity = some map ∧
      Objects.serve (HashMapHeap.exec hashFunc keysEqualFunc m) store calls =
        some (answers, store') ∧
      Objects.serve (fun map call => some (execList map call)) map calls = some (answers, map') ∧
      Keeps frame store' ∧
      ∀ (keyDestroy : K → σ → σ) (valDestroy : V → σ → σ) (s : σ),
        destroy keyDestroy valDestroy store' m s =
          some (map'.destroy keyDestroy valDestroy s, frame) := by
  obtain ⟨map, hmap, hstores⟩ := create_stores hcreate hmalloc hcalloc
  obtain ⟨answers, store', map', hserve, hlist, hstores'⟩ :=
    Objects.serve_agrees (f := execList) (R := fun store map => Stores frame store m map)
      (fun _ _ call h hmay => h.exec call hmay) hstores hlegal
  exact ⟨map, answers, store', map', hmap, hserve, hlist, hstores'.keeps, hstores'.destroy⟩

end Buckets

/-- A pair that is none of the map's. -/
def elsewhere : Store ℕ ℕ :=
  ⟨fun _ => none, fun a => if a = 999 then some ⟨1, 2⟩ else none, fun _ => none, fun _ => none⟩

theorem insert_find_restores :
    let hash : ℕ → UInt64 := UInt64.ofNat
    let equal : ℕ → ℕ → Bool := fun a b => decide (a = b)
    let calls : List (Call ℕ ℕ (List ℕ)) :=
      [.insert ⟨some 100, some 200, some 300⟩ (some 7) 70, .find (some 7), .remove none, .getStatistics]
    ∃ store, create (some 8) (some 16) 4 elsewhere = some (some 8, store) ∧
      ∃ (map : HashMap hash equal ℕ) (answers : _) (store' : _) (map' : HashMap hash equal ℕ),
        HashMap.create true true 4 = some map ∧
        Objects.serve (exec hash equal 8) store calls = some (answers, store') ∧
        Objects.serve (fun map call => some (execList map call)) map calls = some (answers, map') ∧
        Keeps elsewhere store' ∧
        ∀ (keyDestroy valDestroy : ℕ → List ℕ → List ℕ) (s : List ℕ),
          destroy keyDestroy valDestroy store' 8 s =
            some (map'.destroy keyDestroy valDestroy s, elsewhere) := by
  intro hash equal calls
  have hprime : nextPrime (if (4 : UInt64) < minCapacity then minCapacity else 4) = some 5 := by
    decide
  have hcreate : create (some 8) (some 16) 4 elsewhere = some (some 8, { elsewhere with
      arrays := Function.update elsewhere.arrays 16 (some (List.replicate 5 none))
      maps := Function.update elsewhere.maps 8 (some ⟨16, 5, 0⟩) }) := by
    rw [create, hprime]
    rfl
  refine ⟨_, hcreate, calls_refine_and_restore hcreate (fun _ _ => rfl) (fun _ _ => rfl) ?_⟩
  refine ⟨⟨?_, ?_, ?_⟩, fun _ _ _ => ⟨trivial, fun _ _ _ => ⟨trivial, fun _ _ _ =>
    ⟨trivial, fun _ _ _ => trivial⟩⟩⟩⟩
  · exact fun _ _ => ⟨rfl, rfl⟩
  · rintro a ha
    obtain rfl := Option.some.inj ha
    rfl
  · rintro a ha
    obtain rfl := Option.some.inj ha
    refine ⟨rfl, fun b hb => ?_⟩
    obtain rfl := Option.some.inj hb
    decide

end HashMapHeap
end MeshChat
