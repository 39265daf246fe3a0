import Mathlib.Data.Finmap
import MeshChat.Ds.PrimeSize
import MeshChat.Lib.Objects

/-!
# The hash map as a finite map

A caller's equality divides the keys into classes. A hash map stands for the
finite map from key classes to stored pairs, and every sequence of calls on it
does what it does there. Allocations succeed in this part.
-/
namespace MeshChat
namespace HashMap

variable {K V : Type*} {hashFunc : K → UInt64} {keysEqualFunc : K → K → Bool}

/-- The keys up to the caller's equality. -/
def keySetoid (laws : KeyLaws hashFunc keysEqualFunc) : Setoid K where
  r a b := keysEqualFunc a b = true
  iseqv := ⟨laws.refl, laws.symm _ _, laws.trans _ _ _⟩

abbrev KeyClass (laws : KeyLaws hashFunc keysEqualFunc) := Quotient (keySetoid laws)

instance (laws : KeyLaws hashFunc keysEqualFunc) : DecidableEq (KeyClass laws) :=
  @Quotient.decidableEq _ (keySetoid laws) fun a b =>
    inferInstanceAs (Decidable (keysEqualFunc a b = true))

/-- A key class holds the pair it was stored with. -/
abbrev FiniteMap (laws : KeyLaws hashFunc keysEqualFunc) (V : Type*) :=
  Finmap fun _ : KeyClass laws => KeyValuePair K V

def keyClass (laws : KeyLaws hashFunc keysEqualFunc) (key : K) : KeyClass laws :=
  Quotient.mk (keySetoid laws) key

theorem keyClass_eq_iff {laws : KeyLaws hashFunc keysEqualFunc} {a b : K} :
    keyClass laws a = keyClass laws b ↔ keysEqualFunc a b = true :=
  ⟨Quotient.exact, Quotient.sound (s := keySetoid laws)⟩

/-- The pairs of a finite map, each once. -/
structure Lists (laws : KeyLaws hashFunc keysEqualFunc) (pairs : List (KeyValuePair K V))
    (m : FiniteMap laws V) : Prop where
  nodup : pairs.Nodup
  entries_eq : m.entries = ↑(pairs.map fun pair =>
    (⟨keyClass laws pair.key, pair⟩ : Sigma fun _ : KeyClass laws => KeyValuePair K V))

/-- The map is well formed and its stored pairs are those of `m`. -/
structure Represents (laws : KeyLaws hashFunc keysEqualFunc)
    (map : HashMap hashFunc keysEqualFunc V) (m : FiniteMap laws V) : Prop where
  wf : map.Wf
  lookup_iff : ∀ c pair, m.lookup c = some pair ↔ pair ∈ map.entries ∧ keyClass laws pair.key = c

section Represents
variable {laws : KeyLaws hashFunc keysEqualFunc} {map : HashMap hashFunc keysEqualFunc V}
  {m : FiniteMap laws V}

theorem Wf.nodup_classes (laws : KeyLaws hashFunc keysEqualFunc) (h : map.Wf) :
    (map.entries.map fun pair => keyClass laws pair.key).Nodup := by
  refine List.pairwise_map.mpr ((List.pairwise_map.mp h.distinct).imp fun {a b} hab hclass => ?_)
  rw [keyClass_eq_iff, hab] at hclass
  contradiction

/-- What a search of the contents finds is what is looked up. -/
theorem Represents.lookup_eq (h : Represents laws map m) (key : K) :
    m.lookup (keyClass laws key) =
      map.entries.find? fun pair => keysEqualFunc pair.key key := by
  have htest : (fun pair : KeyValuePair K V => keysEqualFunc pair.key key) =
      fun pair => decide (keyClass laws pair.key = keyClass laws key) := by
    funext pair
    rw [Bool.eq_iff_iff, decide_eq_true_iff, keyClass_eq_iff]
  refine Option.ext fun pair => ?_
  rw [htest]
  exact (h.lookup_iff _ pair).trans (KeyedList.find?_eq_some_iff (h.wf.nodup_classes laws)).symm

theorem Represents.mem_iff (h : Represents laws map m) (key : K) :
    keyClass laws key ∈ m ↔
      (map.entries.find? fun pair => keysEqualFunc pair.key key).isSome = true := by
  rw [← h.lookup_eq, Finmap.lookup_isSome]

theorem Represents.lists (h : Represents laws map m) : Lists laws map.entries m := by
  have hnodup : map.entries.Nodup := (h.wf.nodup_classes laws).of_map
  refine ⟨hnodup, (Multiset.Nodup.ext m.nodup_entries ?_).mpr ?_⟩
  · refine Multiset.coe_nodup.mpr (hnodup.map fun a b hab => ?_)
    exact eq_of_heq (Sigma.mk.inj hab).2
  · rintro ⟨c, pair⟩
    rw [← Finmap.lookup_eq_some_iff, h.lookup_iff, Multiset.mem_coe, List.mem_map]
    constructor
    · rintro ⟨hpair, rfl⟩
      exact ⟨pair, hpair, rfl⟩
    · rintro ⟨other, hother, heq⟩
      obtain ⟨rfl, hsame⟩ := Sigma.mk.inj heq
      obtain rfl := eq_of_heq hsame
      exact ⟨hother, rfl⟩

theorem Represents.size_eq (h : Represents laws map m) : map.size = m.keys.card := by
  have hcard : m.keys.card = m.entries.card := Multiset.card_map _ _
  rw [hcard, h.lists.entries_eq, Multiset.coe_card, List.length_map, h.wf.size_eq]

/-- Every allocation of an insert succeeds. -/
def InsertAlloc.ok : InsertAlloc := ⟨true, true, true⟩

theorem Represents.insert (h : Represents laws map m) {key : K} (hnew : keyClass laws key ∉ m)
    (value : V) :
    (map.insert InsertAlloc.ok key value).1 = .success ∧
      Represents laws (map.insert InsertAlloc.ok key value).2
        (m.insert (keyClass laws key) ⟨key, value⟩) := by
  have hnone : map.entries.find? (fun pair => keysEqualFunc pair.key key) = none := by
    rw [h.mem_iff, Option.isSome_iff_ne_none, not_not] at hnew
    exact hnew
  obtain ⟨hwf, ⟨hresult, -, front, back, hold, hentries⟩ | ⟨-, hfailed, -⟩⟩ :=
    insert_absent laws h.wf InsertAlloc.ok value hnone
  · refine ⟨hresult, hwf, fun c pair => ?_⟩
    have hmem : pair ∈ (map.insert InsertAlloc.ok key value).2.entries ↔
        pair = ⟨key, value⟩ ∨ pair ∈ map.entries := by
      rw [hentries, hold, List.mem_append, List.mem_cons, List.mem_append]
      tauto
    rw [hmem]
    by_cases hc : c = keyClass laws key
    · subst hc
      rw [Finmap.lookup_insert, Option.some_inj]
      refine ⟨fun heq => ⟨Or.inl heq.symm, by rw [← heq]⟩, ?_⟩
      rintro ⟨rfl | hpair, hclass⟩
      · rfl
      · exact absurd (Finmap.mem_of_lookup_eq_some ((h.lookup_iff _ _).mpr ⟨hpair, hclass⟩)) hnew
    · rw [Finmap.lookup_insert_of_ne _ hc, h.lookup_iff]
      refine ⟨fun hpair => ⟨Or.inr hpair.1, hpair.2⟩, ?_⟩
      rintro ⟨rfl | hpair, hclass⟩
      · exact absurd hclass.symm hc
      · exact ⟨hpair, hclass⟩
  · simp [insertAllocOk, InsertAlloc.ok] at hfailed

/-- A present key is refused and the map stays as it is. -/
theorem Represents.insert_present (h : Represents laws map m) {key : K}
    (hkey : keyClass laws key ∈ m) (value : V) :
    map.insert InsertAlloc.ok key value = (.keyDuplicateError, map) :=
  HashMap.insert_present laws h.wf InsertAlloc.ok value ((h.mem_iff key).mp hkey)

theorem remove_spec (laws : KeyLaws hashFunc keysEqualFunc) (h : map.Wf) (key : K) :
    (map.remove key).1 = map.entries.find? (fun pair => keysEqualFunc pair.key key) ∧
      (map.remove key).2.Wf ∧
      (map.remove key).2.entries =
        map.entries.filter fun pair => !keysEqualFunc pair.key key := by
  cases hfind : map.entries.find? (fun pair => keysEqualFunc pair.key key) with
  | none =>
    rw [remove_absent laws h hfind]
    refine ⟨rfl, h, (filter_eq_self_of_no_match fun pair hpair => ?_).symm⟩
    simpa using List.find?_eq_none.mp hfind pair hpair
  | some pair => exact remove_present laws h hfind

/-- The stored pair is handed back and exactly its class is gone. -/
theorem Represents.remove (h : Represents laws map m) (key : K) :
    (map.remove key).1 = m.lookup (keyClass laws key) ∧
      Represents laws (map.remove key).2 (m.erase (keyClass laws key)) := by
  obtain ⟨hpair, hwf, hentries⟩ := remove_spec laws h.wf key
  refine ⟨hpair.trans (h.lookup_eq key).symm, hwf, fun c pair => ?_⟩
  have hmem : pair ∈ (map.remove key).2.entries ↔
      pair ∈ map.entries ∧ keyClass laws pair.key ≠ keyClass laws key := by
    rw [hentries, List.mem_filter, Ne, keyClass_eq_iff]
    simp
  rw [hmem]
  by_cases hc : c = keyClass laws key
  · subst hc
    rw [Finmap.lookup_erase]
    refine ⟨fun hnone => by contradiction, ?_⟩
    rintro ⟨⟨-, hne⟩, hclass⟩
    exact absurd hclass hne
  · rw [Finmap.lookup_erase_ne hc, h.lookup_iff]
    refine ⟨fun ⟨hin, hclass⟩ => ⟨⟨hin, hclass ▸ hc⟩, hclass⟩, ?_⟩
    rintro ⟨⟨hin, -⟩, hclass⟩
    exact ⟨hin, hclass⟩

theorem Represents.find (h : Represents laws map m) (key : K) :
    map.find key = (m.lookup (keyClass laws key)).map (·.value) := by
  rw [find_eq laws h.wf, h.lookup_eq]

/-- An action that leaves the values alone visits the pairs. -/
theorem listItrForEach_visit {σ : Type*} (action : K → V → σ → σ × Bool)
    (pairs : List (KeyValuePair K V)) (ctx : ForEachContext σ) :
    let r := listItrForEach (forEachAction fun key value s => (value, action key value s)) pairs ctx
    let visited := Objects.visit (fun pair => action pair.key pair.value) pairs ctx.userContext
    r.1 = pairs ∧ r.2.1.userContext = visited.1 ∧
      r.2.1.invokeCount = ctx.invokeCount + visited.2 := by
  induction pairs generalizing ctx with
  | nil => exact ⟨rfl, rfl, rfl⟩
  | cons pair pairs ih =>
    cases hgo : (action pair.key pair.value ctx.userContext).2 with
    | false => simp [listItrForEach, forEachAction, Objects.visit, hgo]
    | true =>
      obtain ⟨hpairs, hcontext, hcount⟩ := ih
        (forEachAction (fun key value s => (value, action key value s)) pair ctx).2.1
      simp only [forEachAction, hgo] at hpairs hcontext hcount
      simp only [listItrForEach, forEachAction, Objects.visit, hgo, if_true, hpairs, hcontext,
        hcount, true_and]
      omega

theorem Represents.forEach {σ : Type*} (h : Represents laws map m)
    (action : K → V → σ → σ × Bool) (context : σ) :
    Represents laws (map.forEach (fun key value s => (value, action key value s)) context).1 m ∧
      (map.forEach (fun key value s => (value, action key value s)) context).2 =
        Objects.visit (fun pair => action pair.key pair.value) map.entries context := by
  obtain ⟨hwf, hentries, hanswer⟩ :=
    forEach_spec (fun key value s => (value, action key value s)) h.wf context
  obtain ⟨hpairs, hcontext, hcount⟩ :=
    listItrForEach_visit action map.entries (⟨context, 0, false⟩ : ForEachContext σ)
  refine ⟨⟨hwf, fun c pair => ?_⟩, ?_⟩
  · rw [hentries, hpairs]
    exact h.lookup_iff c pair
  · rw [hanswer, hcontext, hcount, Nat.zero_add]

end Represents

/-- A created map is empty. -/
theorem create_represents (laws : KeyLaws hashFunc keysEqualFunc) {allocMap allocBuckets : Bool}
    {capacity : UInt64} {map : HashMap hashFunc keysEqualFunc V}
    (h : create allocMap allocBuckets capacity = some map) : Represents laws map ∅ := by
  cases hprime : nextPrime (if capacity < minCapacity then minCapacity else capacity) with
  | none => simp [create, hprime] at h
  | some primeCapacity =>
    obtain ⟨hwf, hempty⟩ := create_wf (nextPrime_prime hprime).pos hprime h
    refine ⟨hwf, fun c pair => ?_⟩
    simp [hempty]

/-- The loop of `HashMap_Destroy` over one bucket: it pops the pairs and hands
key and value to their destroy functions. -/
def destroyList {σ : Type*} (keyDestroy : K → σ → σ) (valDestroy : V → σ → σ) :
    List (KeyValuePair K V) → σ → σ
  | [], s => s
  | pair :: list, s =>
      destroyList keyDestroy valDestroy list (valDestroy pair.value (keyDestroy pair.key s))

def destroyBuckets {σ : Type*} (keyDestroy : K → σ → σ) (valDestroy : V → σ → σ) :
    List (Option (List (KeyValuePair K V))) → σ → σ
  | [], s => s
  | none :: buckets, s => destroyBuckets keyDestroy valDestroy buckets s
  | some list :: buckets, s =>
      destroyBuckets keyDestroy valDestroy buckets (destroyList keyDestroy valDestroy list s)

/-- `HashMap_Destroy`: what its callbacks make of their state. -/
def destroy {σ : Type*} (map : HashMap hashFunc keysEqualFunc V) (keyDestroy : K → σ → σ)
    (valDestroy : V → σ → σ) (s : σ) : σ :=
  destroyBuckets keyDestroy valDestroy map.buckets s

theorem destroyList_eq {σ : Type*} (keyDestroy : K → σ → σ) (valDestroy : V → σ → σ)
    (list : List (KeyValuePair K V)) (s : σ) :
    destroyList keyDestroy valDestroy list s =
      list.foldl (fun s pair => valDestroy pair.value (keyDestroy pair.key s)) s := by
  induction list generalizing s with
  | nil => rfl
  | cons pair list ih => exact ih _

/-- The callbacks get the contents, pair by pair. -/
theorem destroy_eq {σ : Type*} (map : HashMap hashFunc keysEqualFunc V) (keyDestroy : K → σ → σ)
    (valDestroy : V → σ → σ) (s : σ) :
    map.destroy keyDestroy valDestroy s =
      map.entries.foldl (fun s pair => valDestroy pair.value (keyDestroy pair.key s)) s := by
  rw [destroy, entries]
  induction map.buckets generalizing s with
  | nil => rfl
  | cons bucket buckets ih =>
    cases bucket with
    | none => exact ih s
    | some list =>
      rw [destroyBuckets, ih, destroyList_eq, List.map_cons, List.flatten_cons, List.foldl_append]
      rfl

inductive Call (K V σ : Type*) where
  | insert (key : K) (value : V)
  | remove (searchKey : K)
  | find (key : K)
  | size
  | forEach (action : K → V → σ → σ × Bool) (context : σ)

inductive Answer (K V σ : Type*) where
  | insert (result : MapResult)
  | remove (pair : Option (KeyValuePair K V))
  | find (value : Option V)
  | size (size : ℕ)
  | forEach (context : σ) (count : ℕ)

/-- One call; its allocations succeed and its action leaves the map alone. -/
def exec {σ : Type*} (map : HashMap hashFunc keysEqualFunc V) :
    Call K V σ → Option (Answer K V σ × HashMap hashFunc keysEqualFunc V)
  | .insert key value =>
      some (.insert (map.insert InsertAlloc.ok key value).1,
        (map.insert InsertAlloc.ok key value).2)
  | .remove searchKey => some (.remove (map.remove searchKey).1, (map.remove searchKey).2)
  | .find key => some (.find (map.find key), map)
  | .size => some (.size map.size, map)
  | .forEach action context =>
      let r := map.forEach (fun key value s => (value, action key value s)) context
      some (.forEach r.2.1 r.2.2, r.1)

/-- What the calls answer and do on a finite map. -/
inductive MapStep {σ : Type*} (laws : KeyLaws hashFunc keysEqualFunc) :
    FiniteMap laws V → Call K V σ → Answer K V σ → FiniteMap laws V → Prop
  | insert {m key value} : keyClass laws key ∉ m →
      MapStep laws m (.insert key value) (.insert .success)
        (m.insert (keyClass laws key) ⟨key, value⟩)
  | insertPresent {m key value} : keyClass laws key ∈ m →
      MapStep laws m (.insert key value) (.insert .keyDuplicateError) m
  | remove {m searchKey} :
      MapStep laws m (.remove searchKey) (.remove (m.lookup (keyClass laws searchKey)))
        (m.erase (keyClass laws searchKey))
  | find {m key} :
      MapStep laws m (.find key) (.find ((m.lookup (keyClass laws key)).map (·.value))) m
  | size {m} : MapStep laws m .size (.size m.keys.card) m
  | forEach {m action context pairs} : Lists laws pairs m →
      MapStep laws m (.forEach action context)
        (.forEach (Objects.visit (fun pair => action pair.key pair.value) pairs context).1
          (Objects.visit (fun pair => action pair.key pair.value) pairs context).2) m

theorem Represents.exec {σ : Type*} {laws : KeyLaws hashFunc keysEqualFunc}
    {map : HashMap hashFunc keysEqualFunc V} {m : FiniteMap laws V} (h : Represents laws map m)
    (call : Call K V σ) :
    ∃ answer map' m', map.exec call = some (answer, map') ∧ MapStep laws m call answer m' ∧
      Represents laws map' m' := by
  cases call with
  | insert key value =>
    by_cases hkey : keyClass laws key ∈ m
    · rw [HashMap.exec, h.insert_present hkey]
      exact ⟨_, _, m, rfl, .insertPresent hkey, h⟩
    · obtain ⟨hresult, hrep⟩ := h.insert hkey value
      rw [HashMap.exec, hresult]
      exact ⟨_, _, _, rfl, .insert hkey, hrep⟩
  | remove searchKey =>
    obtain ⟨hpair, hrep⟩ := h.remove searchKey
    rw [HashMap.exec, hpair]
    exact ⟨_, _, _, rfl, .remove, hrep⟩
  | find key =>
    rw [HashMap.exec, h.find]
    exact ⟨_, _, m, rfl, .find, h⟩
  | size =>
    rw [HashMap.exec, h.size_eq]
    exact ⟨_, _, m, rfl, .size, h⟩
  | forEach action context =>
    obtain ⟨hrep, hvisit⟩ := h.forEach action context
    simp only [HashMap.exec, hvisit]
    exact ⟨_, _, m, rfl, .forEach h.lists, hrep⟩

/-- Whatever is called on a created map, it answers as a finite map from key
classes to stored pairs does, and it is destroyed pair by pair. -/
theorem calls_refine_finite_map (σ : Type*) (laws : KeyLaws hashFunc keysEqualFunc)
    {allocMap allocBuckets : Bool} {capacity : UInt64} {map : HashMap hashFunc keysEqualFunc V}
    (hcreate : create allocMap allocBuckets capacity = some map) (calls : List (Call K V σ)) :
    ∃ answers map' m, Objects.serve exec map calls = some (answers, map') ∧
      Objects.Allowed (MapStep laws) ∅ calls answers m ∧
      (∀ c pair, m.lookup c = some pair ↔ pair ∈ map'.entries ∧ keyClass laws pair.key = c) ∧
      map'.size = m.keys.card ∧
      (∀ key value, keyClass laws key ∈ m →
        map'.insert InsertAlloc.ok key value = (.keyDuplicateError, map')) ∧
      ∀ (keyDestroy : K → σ → σ) (valDestroy : V → σ → σ) s, ∃ pairs, Lists laws pairs m ∧
        map'.destroy keyDestroy valDestroy s =
          pairs.foldl (fun s pair => valDestroy pair.value (keyDestroy pair.key s)) s := by
  have hstep : ∀ (map : HashMap hashFunc keysEqualFunc V) (m : FiniteMap laws V)
      (call : Call K V σ), Represents laws map m → True →
      ∃ answer map' m', map.exec call = some (answer, map') ∧ MapStep laws m call answer m' ∧
        Represents laws map' m' := fun _ _ call h _ => h.exec call
  obtain ⟨answers, map', m, hserve, hallowed, hrep⟩ :=
    Objects.serve_refines hstep (create_represents laws hcreate)
      (Objects.legal_of_forall (fun _ _ => trivial) _ calls)
  exact ⟨answers, map', m, hserve, hallowed, hrep.lookup_iff, hrep.size_eq,
    fun _ value hkey => hrep.insert_present hkey value,
    fun keyDestroy valDestroy s => ⟨_, hrep.lists, map'.destroy_eq keyDestroy valDestroy s⟩⟩

theorem number_laws : KeyLaws (fun key : UInt64 => key) fun a b => decide (a = b) where
  refl _ := decide_eq_true rfl
  symm _ _ h := decide_eq_true (of_decide_eq_true h).symm
  trans _ _ _ h h' := decide_eq_true ((of_decide_eq_true h).trans (of_decide_eq_true h'))
  hash_eq _ _ h := of_decide_eq_true h

/-- A map of five buckets with numbers for keys. -/
theorem number_map_refines_finite_map :
    ∃ answers map' m,
      Objects.serve exec (⟨List.replicate 5 none, 0⟩ : HashMap (fun key : UInt64 => key)
          (fun a b => decide (a = b)) ℕ)
        [Call.insert (σ := ℕ) 1 10, .insert 1 11, .insert 6 12, .remove 1] =
          some (answers, map') ∧
      Objects.Allowed (MapStep number_laws) ∅
        [Call.insert (σ := ℕ) 1 10, .insert 1 11, .insert 6 12, .remove 1] answers m ∧
      map'.size = m.keys.card := by
  have hprime : nextPrime minCapacity = some 5 := by decide
  have hcreate : create true true 4 = some (⟨List.replicate 5 none, 0⟩ :
      HashMap (fun key : UInt64 => key) (fun a b => decide (a = b)) ℕ) := by
    have hmin : (if (4 : UInt64) < minCapacity then minCapacity else 4) = minCapacity := rfl
    simp only [create, hmin, hprime]
    rfl
  obtain ⟨answers, map', m, hserve, hallowed, -, hsize, -⟩ :=
    calls_refine_finite_map ℕ number_laws hcreate _
  exact ⟨answers, map', m, hserve, hallowed, hsize⟩

end HashMap
end MeshChat
