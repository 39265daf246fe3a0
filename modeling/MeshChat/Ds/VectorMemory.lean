import MeshChat.Ds.Vector

/-!
# The vector in a shared heap

`vector.c` through the pointer to a vector, whose `struct` is a block of the heap as
its items are: creation, calls, the two readers, the iteration and the destruction. A
vector touches no block but its own two, and destroying it leaves the heap it was
created in. The gap of two blocks before a shrink makes the cost of resizing
amortise: a full vector does not resize on every other call.
-/
namespace MeshChat

open Blocks Runs

namespace Vector
variable {α σ : Type*}

/-- `VectorSize` of a vector that is there. -/
def vectorSize (vector : Vector) : UInt64 := vector.size

def vectorCapacity (vector : Vector) : UInt64 := vector.capacity

/-- The loop of `VectorForEach` from index `i` on with `left` elements to come; it
returns the index it stopped at. -/
def forEachLoop (vector : Vector) (heap : Heap α) (action : α → ℕ → σ → σ × Bool) :
    ℕ → ℕ → σ → Option (σ × ℕ)
  | 0, i, context => some (context, i)
  | left + 1, i, context =>
      (load heap vector.items i).bind fun item =>
        let r := action item i context
        if r.2 then forEachLoop vector heap action left (i + 1) r.1 else some (r.1, i)

/-- `VectorForEach`: the context and the value returned. -/
def forEach (vector : Vector) (heap : Heap α) (action : α → ℕ → σ → σ × Bool) (context : σ) :
    Option (σ × ℕ) :=
  vector.forEachLoop heap action vector.size.toNat 0 context

/-- The loop of `VectorDestroy` over the elements. -/
def destroyLoop (vector : Vector) (heap : Heap α) (elementDestroy : α → σ → σ) :
    ℕ → ℕ → σ → Option σ
  | 0, _, s => some s
  | left + 1, i, s =>
      (load heap vector.items i).bind fun item =>
        destroyLoop vector heap elementDestroy left (i + 1) (elementDestroy item s)

/-- The heap of the program: the `struct Vector` blocks and the blocks of items, each
kind in a heap of its own. -/
structure Store (α : Type*) where
  vectors : ℕ → Option Vector
  blocks : Heap α

namespace Store

/-- `VectorCreate` with what its two `malloc` calls return. -/
def create (mallocVector : Option ℕ) (outcome : Outcome) (initialCapacity blockSize : UInt64)
    (store : Store α) : Option ℕ × Store α :=
  if initialCapacity = 0 ∧ blockSize = 0 then (none, store)
  else
    match mallocVector with
    | none => (none, store)
    | some vector =>
        let r := malloc store.blocks (initialCapacity * sizeofPtr) outcome
        if r.1 = none ∧ initialCapacity > 0 then
          (none, { store with vectors := Function.update store.vectors vector none })
        else
          (some vector, {
            vectors := Function.update store.vectors vector (some {
              items := r.1, originalCapacity := initialCapacity, capacity := initialCapacity,
              size := 0, blockSize })
            blocks := r.2 })

/-- A call with the pointer `vector`; `none` where it points to no live block. -/
def exec (store : Store α) (vector : ℕ) (outcome : Outcome) (call : Call α) :
    Option (Answer α × Store α) :=
  (store.vectors vector).bind fun header =>
    (header.exec store.blocks outcome call).map fun r =>
      (r.1, ⟨Function.update store.vectors vector (some r.2.1), r.2.2⟩)

/-- `VectorDestroy`; a NULL destroyer (`none`) is handed nothing. -/
def destroy (elementDestroy : Option (α → σ → σ)) (store : Store α) (vector : ℕ) (s : σ) :
    Option (σ × Store α) :=
  (store.vectors vector).bind fun header =>
    (elementDestroy.elim (some s) fun elementDestroy =>
      header.destroyLoop store.blocks elementDestroy header.size.toNat 0 s).bind fun s =>
        (free store.blocks header.items).map fun blocks =>
          (s, ⟨Function.update store.vectors vector none, blocks⟩)

end Store

namespace Stack

/-- The loop that `vector.h` gives for `VectorForEach`: the elements in order, up to and
including the first one for which the action returns 0, and the index at the end. -/
def walk (action : α → ℕ → σ → σ × Bool) : ℕ → List α → σ → σ × ℕ
  | i, [], context => (context, i)
  | i, x :: xs, context =>
      let r := action x i context
      if r.2 then walk action (i + 1) xs r.1 else (r.1, i)

end Stack

section Holds
variable {c0 b : UInt64} {vector : Vector} {heap : Heap α} {stack : Stack α}

theorem Holds.load_drop (h : vector.Holds c0 b heap stack) {left i : ℕ}
    (hleft : i + (left + 1) = stack.items.length) :
    ∃ x, load heap vector.items i = some x ∧ stack.items.drop i = x :: stack.items.drop (i + 1) := by
  have hlt : i < stack.items.length := by omega
  exact ⟨stack.items[i], h.backs.load hlt, List.drop_eq_getElem_cons hlt⟩

theorem Holds.forEach (h : vector.Holds c0 b heap stack) (action : α → ℕ → σ → σ × Bool)
    (context : σ) : vector.forEach heap action context = some (Stack.walk action 0 stack.items context) := by
  have hloop : ∀ left i context, i + left = stack.items.length →
      vector.forEachLoop heap action left i context =
        some (Stack.walk action i (stack.items.drop i) context) := by
    intro left
    induction left with
    | zero =>
      intro i context hleft
      rw [List.drop_eq_nil_of_le (by omega)]
      rfl
    | succ left ih =>
      intro i context hleft
      obtain ⟨x, hload, hdrop⟩ := h.load_drop hleft
      rw [forEachLoop, hload, hdrop, Option.bind_some, Stack.walk]
      dsimp only
      split_ifs with hgoes
      · exact ih (i + 1) _ (by omega)
      · rfl
  rw [Vector.forEach, h.size_eq]
  exact hloop _ 0 context (Nat.zero_add _)

theorem Holds.destroyLoop (h : vector.Holds c0 b heap stack) (elementDestroy : α → σ → σ) (s : σ) :
    vector.destroyLoop heap elementDestroy vector.size.toNat 0 s =
      some (stack.items.foldl (fun s item => elementDestroy item s) s) := by
  have hloop : ∀ left i s, i + left = stack.items.length →
      vector.destroyLoop heap elementDestroy left i s =
        some ((stack.items.drop i).foldl (fun s item => elementDestroy item s) s) := by
    intro left
    induction left with
    | zero =>
      intro i s hleft
      rw [List.drop_eq_nil_of_le (by omega)]
      rfl
    | succ left ih =>
      intro i s hleft
      obtain ⟨x, hload, hdrop⟩ := h.load_drop hleft
      rw [Vector.destroyLoop, hload, hdrop, Option.bind_some, ih (i + 1) _ (by omega),
        List.foldl_cons]
  rw [h.size_eq]
  exact hloop _ 0 s (Nat.zero_add _)

end Holds

section Beside
variable {vector vector' : Vector} {heap heap' : Heap α} {outcome : Outcome}

theorem push_beside {item : α} {result : VectorResult}
    (h : vector.push heap item = some (result, vector', heap')) :
    beside heap' vector'.items = beside heap vector.items := by
  obtain ⟨heap₁, hstore, hmade⟩ := Option.map_eq_some_iff.mp h
  obtain ⟨-, rfl, rfl⟩ := hmade
  exact beside_store hstore

theorem append_beside {item : α} {result : VectorResult}
    (hperm : ∀ bytes, vector.request (.append item) = some bytes →
      Permits heap vector.items bytes outcome)
    (h : vector.append heap outcome item = some (result, vector', heap')) :
    beside heap' vector'.items = beside heap vector.items := by
  rw [append] at h
  split_ifs at h with hfull hfixed
  · obtain ⟨-, rfl, rfl⟩ := Option.some.inj h
    rfl
  · obtain ⟨⟨items', heap₁⟩, hrealloc, hrest⟩ := Option.bind_eq_some_iff.mp h
    have hgrown := beside_realloc hrealloc (hperm _ (if_pos ⟨hfull, hfixed⟩))
    cases items' with
    | none =>
      obtain ⟨-, rfl, rfl⟩ := Option.some.inj hrest
      exact hgrown
    | some temp =>
      rw [Option.some_or] at hgrown
      exact (push_beside hrest).trans hgrown
  · exact push_beside h

theorem shrink_beside
    (hperm : ∀ n, vector.newCapacity = some n →
      Permits heap vector.items (n * sizeofPtr) outcome)
    (h : vector.shrink heap outcome = some (vector', heap')) :
    beside heap' vector'.items = beside heap vector.items := by
  rw [shrink] at h
  split at h
  · obtain ⟨rfl, rfl⟩ := Option.some.inj h
    rfl
  · rename_i n hn
    obtain ⟨⟨items', heap₁⟩, hrealloc, hmade⟩ := Option.map_eq_some_iff.mp h
    have hgrown := beside_realloc hrealloc (hperm n hn)
    cases items' with
    | none =>
      obtain ⟨rfl, rfl⟩ := hmade
      exact hgrown
    | some temp =>
      rw [Option.some_or] at hgrown
      obtain ⟨rfl, rfl⟩ := hmade
      exact hgrown

/-- No call touches a block that is not the vector's. -/
theorem exec_beside {call : Call α} {answer : Answer α}
    (hperm : ∀ bytes, vector.request call = some bytes → Permits heap vector.items bytes outcome)
    (h : vector.exec heap outcome call = some (answer, vector', heap')) :
    beside heap' vector'.items = beside heap vector.items := by
  cases call with
  | append item =>
    obtain ⟨⟨result, made⟩, happend, hmade⟩ := Option.map_eq_some_iff.mp h
    obtain ⟨-, rfl⟩ := Prod.mk.inj hmade
    exact append_beside hperm happend
  | remove =>
    rw [exec, remove] at h
    split_ifs at h with hempty
    · obtain ⟨-, rfl, rfl⟩ := Option.some.inj h
      rfl
    · obtain ⟨value, hload, hrest⟩ := Option.bind_eq_some_iff.mp h
      obtain ⟨made, hshrink, hmade⟩ := Option.map_eq_some_iff.mp hrest
      obtain ⟨-, rfl⟩ := Prod.mk.inj hmade
      have hsmaller : ∀ n, ({ vector with size := vector.size - 1 } : Vector).newCapacity = some n →
          Permits heap vector.items (n * sizeofPtr) outcome :=
        fun n hn => hperm _ (by rw [request, if_neg hempty, hn]; rfl)
      have hkept := shrink_beside hsmaller hshrink
      exact hkept
  | get index =>
    obtain ⟨got, hget, hmade⟩ := Option.map_eq_some_iff.mp h
    obtain ⟨-, rfl, rfl⟩ := hmade
    rfl
  | set index value =>
    obtain ⟨⟨result, heap₁⟩, hset, hmade⟩ := Option.map_eq_some_iff.mp h
    obtain ⟨-, rfl, rfl⟩ := hmade
    rw [set] at hset
    split_ifs at hset
    · obtain ⟨-, rfl⟩ := Option.some.inj hset
      rfl
    · obtain ⟨heap₂, hstore, hmade⟩ := Option.map_eq_some_iff.mp hset
      obtain ⟨-, rfl⟩ := Prod.mk.inj hmade
      exact beside_store hstore

end Beside

/-- One call with the pointer to a vector; what the allocator does is something it may
do. After a fault (`none`) there are no steps. -/
def StoreStep (p : ℕ) (s : Option (Store α)) (e : Event α) (t : Option (Store α)) : Prop :=
  ∃ store, s = some store ∧
    (∀ vector, store.vectors p = some vector → ∀ bytes, vector.request e.call = some bytes →
      Permits store.blocks vector.items bytes e.outcome) ∧
    e.answer = (store.exec p e.outcome e.call).map (·.1) ∧
    t = (store.exec p e.outcome e.call).map (·.2)

/-- No size computation of the step wraps around. -/
def StoreNoWrap (p : ℕ) (s : Option (Store α)) (e : Event α) : Prop :=
  ∀ store vector, s = some store → store.vectors p = some vector → vector.Fits e.outcome e.call

/-- The store is the frame and a vector that holds the list, in its two blocks. -/
structure Lives (c0 b : UInt64) (frame : Store α) (p : ℕ) (store : Store α) (vector : Vector)
    (stack : Stack α) : Prop where
  header : store.vectors p = some vector
  holds : vector.Holds c0 b store.blocks stack
  free : frame.vectors p = none
  others : ∀ a, a ≠ p → store.vectors a = frame.vectors a
  blocks : beside store.blocks vector.items = frame.blocks

section Lives
variable {c0 b : UInt64} {frame store : Store α} {p : ℕ} {vector : Vector} {stack : Stack α}

/-- Where one of the two blocks is not to be had, the other one is not kept. -/
theorem create_fails {mallocVector : Option ℕ} {outcome : Outcome}
    (hvector : ∀ p, mallocVector = some p → frame.vectors p = none)
    (h : Store.create mallocVector outcome c0 b frame = (none, store)) : store = frame := by
  unfold Store.create at h
  split_ifs at h
  · exact (Prod.mk.inj h).2.symm
  cases mallocVector with
  | none => exact (Prod.mk.inj h).2.symm
  | some p =>
    dsimp only at h
    split_ifs at h
    · obtain rfl := (Prod.mk.inj h).2
      rw [Function.update_eq_self_iff.mpr (hvector p rfl).symm]
    · cases (Prod.mk.inj h).1

theorem create_lives {mallocVector : Option ℕ} {outcome : Outcome}
    (hvector : ∀ p, mallocVector = some p → frame.vectors p = none)
    (hitems : ∀ addr, outcome = .gives addr → frame.blocks addr = none)
    (hfit : c0.toNat * 8 < 2 ^ 64)
    (h : Store.create mallocVector outcome c0 b frame = (some p, store)) :
    ∃ vector, Lives c0 b frame p store vector (⟨[], c0.toNat⟩ : Stack α) := by
  unfold Store.create at h
  split_ifs at h with hboth
  · cases (Prod.mk.inj h).1
  cases mallocVector with
  | none => cases (Prod.mk.inj h).1
  | some p' =>
    dsimp only at h
    split_ifs at h with hnull
    · cases (Prod.mk.inj h).1
    · obtain ⟨hp, rfl⟩ := Prod.mk.inj h
      obtain rfl := Option.some.inj hp
      have hcreate : Vector.create true outcome frame.blocks c0 b =
          some (⟨(malloc frame.blocks (c0 * sizeofPtr) outcome).1, c0, c0, 0, b⟩,
            (malloc frame.blocks (c0 * sizeofPtr) outcome).2) := by
        simp only [Vector.create, if_neg hboth, if_neg hnull, Bool.not_true, Bool.false_eq_true,
          if_false]
      exact ⟨_, Function.update_self .., create_holds hfit hcreate, hvector p' rfl,
        fun a ha => Function.update_of_ne ha .., beside_malloc hitems⟩

theorem Lives.exec (h : Lives c0 b frame p store vector stack) {outcome : Outcome} (call : Call α)
    (hperm : ∀ bytes, vector.request call = some bytes →
      Permits store.blocks vector.items bytes outcome)
    (hfit : vector.Fits outcome call) :
    ∃ store' vector', store.exec p outcome call =
        some ((stack.exec c0.toNat b.toNat outcome.succeeds call).1, store') ∧
      Lives c0 b frame p store' vector'
        (stack.exec c0.toNat b.toNat outcome.succeeds call).2 := by
  obtain ⟨answer, vector', heap', hexec, rfl, hholds, -⟩ := h.holds.exec call hperm hfit
  refine ⟨⟨Function.update store.vectors p (some vector'), heap'⟩, vector', ?_,
    Function.update_self .., hholds, h.free, fun a ha => ?_,
    (exec_beside hperm hexec).trans h.blocks⟩
  · rw [Store.exec, h.header, Option.bind_some, hexec, Option.map_some]
  · exact (Function.update_of_ne ha ..).trans (h.others a ha)

/-- Both blocks go, and with them all that there was beyond the frame. -/
theorem Lives.destroy (h : Lives c0 b frame p store vector stack)
    (elementDestroy : Option (α → σ → σ)) (s : σ) :
    store.destroy elementDestroy p s =
      some (elementDestroy.elim s fun f => stack.items.foldl (fun s item => f item s) s, frame) := by
  have hvectors : Function.update store.vectors p none = frame.vectors := by
    funext a
    by_cases ha : a = p
    · rw [ha, Function.update_self, h.free]
    · rw [Function.update_of_ne ha, h.others a ha]
  rw [Store.destroy, h.header, Option.bind_some]
  cases elementDestroy with
  | none =>
    rw [Option.elim_none, Option.bind_some, h.holds.backs.free, Option.map_some, h.blocks, hvectors]
    rfl
  | some f =>
    rw [Option.elim_some, h.holds.destroyLoop, Option.bind_some, h.holds.backs.free,
      Option.map_some, h.blocks, hvectors]
    rfl

/-- Calls on a vector, in runs that do not wrap around. -/
theorem Lives.run (h : Lives c0 b frame p store vector (⟨[], c0.toNat⟩ : Stack α))
    {moves : List (Move (Option (Store α)) (Event α))} {s : Option (Store α)}
    (hr : Run (StoreStep p) (some store) moves s)
    (hg : ∀ m ∈ moves, StoreNoWrap p m.pre m.label) :
    ∃ store' vector' stack, s = some store' ∧ Lives c0 b frame p store' vector' stack ∧
      Objects.Allowed (StackStep c0 b) ⟨[], c0.toNat⟩
        (moves.map fun m => (m.label.call, m.label.outcome)) (moves.map (·.label.answer)) stack := by
  refine hr.history (G := StoreNoWrap p) (I := fun moves s => ∃ store' vector' stack,
    s = some store' ∧ Lives c0 b frame p store' vector' stack ∧
      Objects.Allowed (StackStep c0 b) ⟨[], c0.toNat⟩
        (moves.map fun m => (m.label.call, m.label.outcome)) (moves.map (·.label.answer)) stack)
    ⟨store, vector, _, rfl, h, .nil _⟩ ?_ hg
  rintro moves _ e t ⟨store, vector, stack, rfl, hlives, hallowed⟩ hguard
    ⟨store₁, hpre, hperm, hanswer, rfl⟩
  obtain rfl := Option.some.inj hpre
  obtain ⟨store', vector', hexec, hlives'⟩ :=
    hlives.exec e.call (hperm vector hlives.header) (hguard _ _ rfl hlives.header)
  rw [hexec] at hanswer ⊢
  refine ⟨store', vector', _, rfl, hlives', ?_⟩
  simpa using hallowed.snoc ⟨hanswer, rfl⟩

end Lives

/-- The life of a vector in a heap with other blocks. A creation that fails leaves the
heap as it was. After any calls on a created vector, whatever the allocator does as long
as no size computation wraps around, the blocks of others are as they were, its readers
say what the list of its elements says, and `VectorDestroy` hands out each element once,
in order, and leaves the heap from before `VectorCreate`. -/
theorem lifetime_restores (σ : Type*) {c0 b : UInt64} {mallocVector : Option ℕ}
    {outcome : Outcome} {frame store : Store α} {created : Option ℕ}
    (hcreate : Store.create mallocVector outcome c0 b frame = (created, store))
    (hvector : ∀ p, mallocVector = some p → frame.vectors p = none)
    (hitems : ∀ addr, outcome = .gives addr → frame.blocks addr = none) :
    (created = none → store = frame) ∧
      ∀ p moves s, created = some p → c0.toNat * 8 < 2 ^ 64 →
        Run (StoreStep p) (some store) moves s → (∀ m ∈ moves, StoreNoWrap p m.pre m.label) →
        ∃ store' vector stack, s = some store' ∧ store'.vectors p = some vector ∧
          Objects.Allowed (StackStep c0 b) ⟨[], c0.toNat⟩
            (moves.map fun m => (m.label.call, m.label.outcome)) (moves.map (·.label.answer)) stack ∧
          (∀ a, a ≠ p → store'.vectors a = frame.vectors a) ∧
          (∀ addr, vector.items ≠ some addr → store'.blocks addr = frame.blocks addr) ∧
          vector.vectorSize.toNat = stack.items.length ∧
          vector.vectorCapacity.toNat = stack.capacity ∧
          (∀ (action : α → ℕ → σ → σ × Bool) (context : σ),
            vector.forEach store'.blocks action context =
              some (Stack.walk action 0 stack.items context)) ∧
          ∀ (elementDestroy : Option (α → σ → σ)) (s : σ),
            store'.destroy elementDestroy p s = some (elementDestroy.elim s fun f =>
              stack.items.foldl (fun s item => f item s) s, frame) := by
  refine ⟨?_, ?_⟩
  · rintro rfl
    exact create_fails hvector hcreate
  · rintro p moves s rfl hfit hr hg
    obtain ⟨vector, hlives⟩ := create_lives hvector hitems hfit hcreate
    obtain ⟨store', vector', stack, rfl, hlives', hallowed⟩ := hlives.run hr hg
    refine ⟨store', vector', stack, rfl, hlives'.header, hallowed, hlives'.others,
      fun addr hother => ?_, hlives'.holds.size_eq, hlives'.holds.capacity_eq,
      fun action context => hlives'.holds.forEach action context, hlives'.destroy⟩
    rw [← hlives'.blocks]
    cases hown : vector'.items with
    | none => rfl
    | some own =>
      rw [hown, Ne, Option.some_inj] at hother
      exact (Function.update_of_ne (Ne.symm hother) ..).symm

/-- A heap with a vector and a block of someone else's. -/
def sharedStore : Store ℕ := ⟨Function.update (fun _ => none) 50 (some ⟨none, 0, 0, 0, 1⟩), sharedHeap⟩

/-- The heap with a vector of one slot in it. -/
def createdStore : Store ℕ := (Store.create (some 40) (.gives 0) 1 1 sharedStore).2

/-- A vector through its pointer: two appends, the second of which moves the items. -/
def storeCall (s : Option (Store ℕ)) (input : Call ℕ × Outcome) : Event ℕ × Option (Store ℕ) :=
  let r := s.bind fun store => store.exec 40 input.2 input.1
  (⟨input.1, input.2, r.map (·.1)⟩, r.map (·.2))

theorem lifetime_restores_two :
    let inputs : List (Call ℕ × Outcome) := [(.append 5, .fails), (.append 6, .gives 1)]
    ∃ store' stack, playEnd storeCall (some createdStore) inputs = some store' ∧
      Objects.Allowed (StackStep 1 1) ⟨[], 1⟩ inputs
        [some (.success, none), some (.success, none)] stack ∧
      store'.vectors 50 = sharedStore.vectors 50 ∧ store'.blocks 7 = some [some 9] ∧
      store'.destroy (some List.cons) 40 [] = some ([6, 5], sharedStore) ∧
      (Store.create (some 40) .fails 1 1 sharedStore).2 = sharedStore := by
  intro inputs
  have hrun : Run (StoreStep 40) (some createdStore) (play storeCall (some createdStore) inputs)
      (playEnd storeCall (some createdStore) inputs) := by
    refine Run.start.play inputs ?_
    simp only [inputs, play, List.forall_mem_cons]
    refine ⟨⟨_, rfl, ?_, rfl, rfl⟩, ⟨_, rfl, ?_, rfl, rfl⟩, List.forall_mem_nil _⟩
    · rintro _ ⟨⟩ _ _
      trivial
    · rintro _ ⟨⟩ _ _
      exact Or.inl rfl
  have hwrap : ∀ m ∈ play storeCall (some createdStore) inputs, StoreNoWrap 40 m.pre m.label := by
    simp only [inputs, play, List.forall_mem_cons]
    refine ⟨?_, ?_, List.forall_mem_nil _⟩
    · rintro _ _ ⟨⟩ ⟨⟩ hfull
      exact absurd hfull (by decide)
    · rintro _ _ ⟨⟩ ⟨⟩ _ _ _
      decide
  have hfree : ∀ p, some 40 = some p → sharedStore.vectors p = none := by
    rintro _ ⟨⟩
    rfl
  have hfails : Store.create (some 40) .fails 1 1 sharedStore = (none, _) := rfl
  have hcreate : Store.create (some 40) (.gives 0) 1 1 sharedStore = (some 40, createdStore) := rfl
  obtain ⟨store', vector, stack, hend, hheader, hallowed, hvectors, hblocks, -, -, -, hdestroy⟩ :=
    (lifetime_restores (List ℕ) hcreate hfree (by rintro _ ⟨⟩; rfl)).2 40 _ _ rfl (by decide) hrun
      hwrap
  obtain rfl := Option.some.inj hend
  have hown : ((playEnd storeCall (some createdStore) inputs).bind fun store =>
      (store.vectors 40).bind Vector.items) = some 1 := rfl
  have hitems : ((playEnd storeCall (some createdStore) inputs).bind fun store =>
      (store.destroy (some List.cons) 40 []).map (·.1)) = some [6, 5] := rfl
  rw [hend, Option.bind_some, hheader, Option.bind_some] at hown
  rw [hend, Option.bind_some, hdestroy, Option.map_some, Option.some_inj] at hitems
  refine ⟨_, stack, hend, hallowed, hvectors 50 (by decide), hblocks 7 (by simp [hown]), ?_,
    (lifetime_restores (List ℕ) hfails hfree (by rintro _ ⟨⟩)).1 rfl⟩
  rw [hdestroy]
  exact congrArg (fun items => some (items, sharedStore)) hitems

/-- The step moves the elements to a block of another size: it makes a `realloc`, which
succeeds. -/
def resizes (m : Move (Option (Vector × Heap α)) (Event α)) : Bool :=
  match m.pre with
  | none => false
  | some (vector, _) => (vector.request m.label.call).isSome && m.label.outcome.succeeds

namespace Stack

/-- The calls that make a `realloc`. -/
def Asks (floor block : ℕ) (stack : Stack α) : Call α → Prop
  | .append _ => stack.items.length = stack.capacity ∧ block ≠ 0
  | .remove => stack.items ≠ [] ∧ stack.Shrinks floor block (stack.items.length - 1)
  | _ => False

instance (floor block : ℕ) (stack : Stack α) : (call : Call α) →
    Decidable (stack.Asks floor block call)
  | .append _ => inferInstanceAs (Decidable (_ ∧ _))
  | .remove => inferInstanceAs (Decidable (_ ∧ _))
  | .get _ => instDecidableFalse
  | .set _ _ => instDecidableFalse

/-- How far the room is from one block. -/
def imbalance (block : ℕ) (stack : Stack α) : ℕ :=
  (stack.capacity - stack.items.length - block) + (block - (stack.capacity - stack.items.length))

variable {floor block : ℕ} {stack : Stack α}

theorem imbalance_push (item : α) :
    imbalance block { stack with items := stack.items ++ [item] } ≤ stack.imbalance block + 1 := by
  simp only [imbalance, List.length_append, List.length_singleton]
  omega

/-- Growing a full stack leaves it a block of room less the slot it grew for. -/
theorem imbalance_grow (block : ℕ) (hfull : stack.items.length = stack.capacity) (item : α) :
    block + imbalance block ⟨stack.items ++ [item], stack.capacity + block⟩ ≤
      stack.imbalance block + 1 := by
  simp only [imbalance, List.length_append, List.length_singleton]
  omega

/-- A pop adds a slot of room; one that shrinks finds two blocks of it and leaves one. -/
theorem imbalance_pop (floor : ℕ) {xs : List α} (hlen : stack.items.length = xs.length + 1)
    (hbounded : stack.items.length ≤ stack.capacity) (shrinks : Bool)
    (htwo : shrinks = true → stack.Shrinks floor block xs.length) :
    (if shrinks = true then block else 0) +
        imbalance block ⟨xs, if shrinks = true then stack.capacity - block else stack.capacity⟩ ≤
      stack.imbalance block + 1 := by
  cases shrinks with
  | false =>
    simp only [imbalance, Bool.false_eq_true, if_false]
    omega
  | true =>
    obtain ⟨hb, _, hgap⟩ := htwo rfl
    simp only [imbalance, if_true]
    omega

/-- A call moves the room by a slot, and a resize that a call makes pays a block back. -/
theorem exec_imbalance (floor block : ℕ) (hbounded : stack.items.length ≤ stack.capacity)
    (ok : Bool) (call : Call α) :
    (if stack.Asks floor block call ∧ ok = true then block else 0) +
        (stack.exec floor block ok call).2.imbalance block ≤ stack.imbalance block + 1 := by
  cases call with
  | append item =>
    rw [exec]
    by_cases hroom : stack.items.length < stack.capacity
    · rw [if_pos hroom, if_neg fun hasks => hroom.ne hasks.1.1, Nat.zero_add]
      exact imbalance_push item
    · have hfull : stack.items.length = stack.capacity := le_antisymm hbounded (not_lt.mp hroom)
      rw [if_neg hroom]
      by_cases hrefused : block = 0 ∨ ok = false
      · rw [if_pos hrefused, if_neg, Nat.zero_add]
        · exact Nat.le_succ _
        · rintro ⟨⟨_, hblock⟩, hok⟩
          exact hrefused.elim hblock fun hfails => by simp [hok] at hfails
      · obtain ⟨hblock, hok⟩ := not_or.mp hrefused
        rw [if_neg hrefused, if_pos ⟨⟨hfull, hblock⟩, by simpa using hok⟩]
        exact imbalance_grow block hfull item
  | remove =>
    rcases List.eq_nil_or_concat stack.items with hnil | ⟨xs, x, hitems⟩
    · rw [exec, hnil, if_neg fun hasks => hasks.1.1 hnil, Nat.zero_add]
      exact Nat.le_succ _
    rw [List.concat_eq_append] at hitems
    have hlast : stack.items.getLast? = some x := by rw [hitems, List.getLast?_concat]
    have hlen : stack.items.length = xs.length + 1 := by simp [hitems]
    have hne : stack.items ≠ [] := by simp [hitems]
    have hinit : stack.items.dropLast = xs := by rw [hitems, List.dropLast_concat]
    have hasks : stack.Asks floor block .remove ∧ ok = true ↔
        stack.Shrinks floor block xs.length ∧ ok = true := by
      rw [Asks, hlen, Nat.add_sub_cancel]
      simp [hne]
    have hpop := imbalance_pop floor hlen hbounded
      (decide (stack.Shrinks floor block xs.length ∧ ok = true)) fun hs => (of_decide_eq_true hs).1
    simp only [decide_eq_true_eq] at hpop
    rw [exec, hlast]
    simp only [hasks, hlen, hinit, Nat.add_sub_cancel]
    exact hpop
  | get index =>
    rw [exec, if_neg fun hasks => hasks.1, Nat.zero_add]
    split <;> exact Nat.le_succ _
  | set index value =>
    rw [exec, if_neg fun hasks => hasks.1, Nat.zero_add]
    split_ifs
    · simp [imbalance]
    · exact Nat.le_succ _

end Stack

/-- The `realloc` calls of the vector are those of its list. -/
theorem Holds.request_isSome {c0 b : UInt64} {vector : Vector} {heap : Heap α} {stack : Stack α}
    (h : vector.Holds c0 b heap stack) (call : Call α) :
    (vector.request call).isSome = decide (stack.Asks c0.toNat b.toNat call) := by
  cases call with
  | append item =>
    have hfull : vector.size = vector.capacity ↔ stack.items.length = stack.capacity := by
      rw [← UInt64.toNat_inj, h.size_eq, h.capacity_eq]
    have hblock : vector.blockSize ≠ 0 ↔ b.toNat ≠ 0 := by
      rw [h.block_eq, Ne, ← UInt64.toNat_inj]
      rfl
    rw [request, Bool.eq_iff_iff, decide_eq_true_eq, Stack.Asks, ← hfull, ← hblock]
    split_ifs with hasks
    · exact iff_of_true rfl hasks
    · exact iff_of_false (by simp) hasks
  | remove =>
    rw [request, Bool.eq_iff_iff, decide_eq_true_eq, Stack.Asks]
    rcases List.eq_nil_or_concat stack.items with hnil | ⟨xs, x, hitems⟩
    · have hzero : vector.size = 0 := by
        rw [← UInt64.toNat_inj, h.size_eq, hnil]
        rfl
      rw [if_pos hzero]
      exact iff_of_false (by simp) fun hasks => hasks.1 hnil
    · rw [List.concat_eq_append] at hitems
      obtain ⟨hsize, -, hpopped⟩ := h.popped hitems
      have hlen : stack.items.length - 1 = xs.length := by simp [hitems]
      have hne : stack.items ≠ [] := by simp [hitems]
      rw [if_neg hsize, hpopped.newCapacity, hlen]
      by_cases hshrinks : (⟨xs, stack.capacity⟩ : Stack α).Shrinks c0.toNat b.toNat xs.length
      · rw [if_pos hshrinks]
        exact iff_of_true rfl ⟨hne, hshrinks⟩
      · rw [if_neg hshrinks]
        exact iff_of_false (by simp) fun hasks => hshrinks hasks.2
  | get index => rfl
  | set index value => rfl

/-- What `imbalance` is of the list that a vector holds. -/
def potential (b : UInt64) : Option (Vector × Heap α) → ℕ
  | none => 0
  | some (vector, _) =>
      (vector.capacity.toNat - vector.size.toNat - b.toNat) +
        (b.toNat - (vector.capacity.toNat - vector.size.toNat))

theorem Holds.potential {c0 b : UInt64} {vector : Vector} {heap : Heap α} {stack : Stack α}
    (h : vector.Holds c0 b heap stack) :
    potential b (some (vector, heap)) = stack.imbalance b.toNat := by
  rw [Vector.potential, Stack.imbalance, h.capacity_eq, h.size_eq]

/-- Resizing is amortised, whatever is called and whatever the allocator does: in a run of
`n` calls the vector moves its elements at most `(n + |c0 - b|) / b` times, so the gap of two
blocks before a shrink keeps a vector at the edge from resizing on every other call. -/
theorem resizes_amortised {c0 b : UInt64} {allocVector : Bool} {outcome : Outcome}
    {heap₀ heap : Heap α} {vector : Vector}
    (hcreate : create allocVector outcome heap₀ c0 b = some (vector, heap))
    (hfit : c0.toNat * 8 < 2 ^ 64)
    {moves : List (Move (Option (Vector × Heap α)) (Event α))} {s : Option (Vector × Heap α)}
    (hr : Run Step (some (vector, heap)) moves s) (hg : ∀ m ∈ moves, NoWrap m.pre m.label) :
    moves.countP resizes * b.toNat ≤
      moves.length + ((c0.toNat - b.toNat) + (b.toNat - c0.toNat)) := by
  have hstart : vector.Holds c0 b heap (⟨[], c0.toNat⟩ : Stack α) := create_holds hfit hcreate
  have hrun := hr.amortised (fun m => if resizes m = true then b.toNat else 0) (potential b) 1
    (I := fun s => ∃ vector heap stack, s = some (vector, heap) ∧ vector.Holds c0 b heap stack)
    ⟨vector, heap, _, rfl, hstart⟩ (by
      rintro _ e t ⟨vector, heap, stack, rfl, hholds⟩ hguard ⟨vector₁, heap₁, hpre, hperm, -, rfl⟩
      obtain ⟨rfl, rfl⟩ := Prod.mk.inj (Option.some.inj hpre)
      obtain ⟨answer, vector', heap', hexec, -, hholds', -⟩ :=
        hholds.exec e.call hperm (hguard _ _ rfl)
      refine ⟨⟨vector', heap', _, by rw [hexec]; rfl, hholds'⟩, ?_⟩
      have hcall := Stack.exec_imbalance c0.toNat b.toNat hholds.bounded e.outcome.succeeds
        e.call
      have hasks : resizes (⟨some (vector, heap), e, some (vector', heap')⟩ :
          Move (Option (Vector × Heap α)) (Event α)) = true ↔
            stack.Asks c0.toNat b.toNat e.call ∧ e.outcome.succeeds = true := by
        simp [resizes, hholds.request_isSome]
      rw [hexec, hholds.potential]
      simp only [Option.map_some, hasks, hholds'.potential]
      exact hcall) hg
  have hsum : ∀ moves : List (Move (Option (Vector × Heap α)) (Event α)),
      (moves.map fun m => if resizes m = true then b.toNat else 0).sum =
        moves.countP resizes * b.toNat := by
    intro moves
    induction moves with
    | nil => simp
    | cons m moves ih =>
      rw [List.map_cons, List.sum_cons, ih, List.countP_cons, Nat.add_mul]
      split_ifs <;> omega
  have hle := hrun.2
  rw [hsum, hstart.potential, Stack.imbalance] at hle
  simp only [List.length_nil, Nat.sub_zero, Nat.one_mul] at hle
  omega

theorem resizes_amortised_two :
    twoAppendMoves.countP resizes = 1 ∧ twoAppendMoves.countP resizes * 1 ≤ 2 + 0 :=
  ⟨by decide, resizes_amortised (show create true (.gives 0) sharedHeap 1 1 = twoAppends[0]? from rfl)
    (by decide) run_twoAppends twoAppends_noWrap⟩

end Vector
end MeshChat
