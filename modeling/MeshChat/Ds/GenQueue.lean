import MeshChat.Lib.Objects

/-!
# The bounded circular queue

`genqueue.c` keeps a slot array with separate head, tail and count. A slot is
`none` until something is stored in it, as `malloc` leaves it. `Represents`
relates the slots to the queued sequence; each operation moves it as the
sequence operation of the same name. The last part is about all sequences of
calls: a queue is a bounded FIFO as long as its byte count did not wrap.
-/
namespace MeshChat

inductive QueueResult where
  | success | uninitializedError | overflowError | dataNotFoundError | dataUninitializedError
  deriving DecidableEq, Repr

structure Queue (α : Type*) where
  items : List (Option α)
  size : ℕ
  head : ℕ
  tail : ℕ
  nItems : ℕ

namespace Queue
variable {α : Type*}

def getNextIndex (current size : ℕ) : ℕ := (current + 1) % size

/-- The items that fit in the block of `malloc(_size * sizeof(void*))`, whose
argument is a `size_t`. -/
def blockSlots (size : ℕ) : ℕ := size * 8 % 2 ^ 64 / 8

/-- `QueueCreate` with the outcomes of its two allocations. -/
def create (allocQueue allocItems : Bool) (size : ℕ) : Option (Queue α) :=
  if size = 0 then none
  else if !allocQueue then none
  else if !allocItems then none
  else some { items := List.replicate (blockSlots size) none, size,
              head := 0, tail := 0, nItems := 0 }

/-- `QueueInsert` of a non-null item. -/
def insert (queue : Queue α) (item : α) : QueueResult × Queue α :=
  if queue.nItems = queue.size then (.overflowError, queue)
  else
    (.success, { queue with
      items := queue.items.set queue.tail (some item)
      tail := getNextIndex queue.tail queue.size
      nItems := queue.nItems + 1 })

/-- `QueueRemove`: the result, what `*_item` receives on success (`none` for a
slot nothing was stored in), and the queue. -/
def remove (queue : Queue α) : QueueResult × Option α × Queue α :=
  if queue.nItems = 0 then (.dataNotFoundError, none, queue)
  else
    (.success, queue.items.getD queue.head none, { queue with
      head := getNextIndex queue.head queue.size
      nItems := queue.nItems - 1 })

def isEmpty (queue : Queue α) : Bool := decide (queue.nItems = 0)

/-- The slot of the element `i` places behind the head. -/
def slot (queue : Queue α) (i : ℕ) : ℕ := (queue.head + i) % queue.size

/-- The queued elements from head to tail. -/
def toList (queue : Queue α) : List α :=
  (List.range queue.nItems).filterMap fun i => queue.items.getD (queue.slot i) none

/-- The slot array holds exactly `xs`, starting at the head and wrapping. -/
structure Represents (queue : Queue α) (xs : List α) : Prop where
  size_pos : 0 < queue.size
  slots : queue.items.length = queue.size
  head_lt : queue.head < queue.size
  tail_eq : queue.tail = queue.slot xs.length
  count : queue.nItems = xs.length
  bounded : xs.length ≤ queue.size
  stored : ∀ i (h : i < xs.length), queue.items.getD (queue.slot i) none = some xs[i]

theorem Represents.toList_eq {queue : Queue α} {xs : List α} (h : queue.Represents xs) :
    queue.toList = xs := by
  have hmap : (List.range xs.length).filterMap
      (fun i => queue.items.getD (queue.slot i) none) =
      (List.range xs.length).filterMap (fun i => xs[i]?) := by
    apply List.filterMap_congr
    intro i hi
    have hlt := List.mem_range.mp hi
    rw [h.stored i hlt, List.getElem?_eq_getElem hlt]
  rw [toList, h.count, hmap]
  clear hmap h
  induction xs with
  | nil => rfl
  | cons x xs ih => simpa [List.range_succ_eq_map, List.filterMap_map, Function.comp_def] using ih

/-- Different places within one turn are different slots. -/
theorem slot_ne (queue : Queue α) {i j : ℕ} (hi : i < queue.size) (hj : j < queue.size)
    (hij : i ≠ j) : queue.slot i ≠ queue.slot j := by
  intro h
  have hmod : i ≡ j [MOD queue.size] := Nat.ModEq.add_left_cancel' queue.head h
  exact hij (hmod.eq_of_lt_of_lt hi hj)

theorem create_eq {allocQueue allocItems : Bool} {size : ℕ} {queue : Queue α}
    (h : create allocQueue allocItems size = some queue) :
    0 < size ∧ queue = ⟨List.replicate (blockSlots size) none, size, 0, 0, 0⟩ := by
  rw [create] at h
  split_ifs at h with hzero
  exact ⟨Nat.pos_of_ne_zero hzero, (Option.some.inj h).symm⟩

theorem create_represents {allocQueue allocItems : Bool} {size : ℕ} {queue : Queue α}
    (hfit : size * 8 < 2 ^ 64) (h : create allocQueue allocItems size = some queue) :
    queue.size = size ∧ queue.Represents [] := by
  obtain ⟨hpos, rfl⟩ := create_eq h
  have hslots : blockSlots size = size := by
    rw [blockSlots, Nat.mod_eq_of_lt hfit, Nat.mul_div_cancel _ (by decide)]
  refine ⟨rfl, ?_⟩
  constructor <;> simp [slot, hpos, hslots]

/-- Below capacity an insert appends. -/
theorem Represents.insert {queue : Queue α} {xs : List α} (h : queue.Represents xs)
    (hlt : xs.length < queue.size) (item : α) :
    (queue.insert item).1 = .success ∧ (queue.insert item).2.size = queue.size ∧
      (queue.insert item).2.Represents (xs ++ [item]) := by
  have hne : queue.nItems ≠ queue.size := by rw [h.count]; omega
  have hslot : queue.slot xs.length < queue.items.length := by
    rw [h.slots]
    exact Nat.mod_lt _ h.size_pos
  simp only [Queue.insert, if_neg hne, true_and]
  refine ⟨h.size_pos, by simp [h.slots], h.head_lt, ?_, by simp [h.count],
    by simpa using hlt, ?_⟩
  · simp only [slot, getNextIndex, h.tail_eq, Nat.mod_add_mod, List.length_append,
      List.length_singleton, Nat.add_assoc]
  · intro i hi
    change (queue.items.set queue.tail (some item)).getD (queue.slot i) none = _
    rw [h.tail_eq, List.getD_eq_getElem?_getD]
    by_cases hold : i < xs.length
    · rw [List.getElem?_set_ne (queue.slot_ne hlt (by omega) (by omega)),
        ← List.getD_eq_getElem?_getD, h.stored i hold, List.getElem_append_left hold]
    · have hlast : i = xs.length := by
        simp only [List.length_append, List.length_singleton] at hi
        omega
      subst hlast
      simp [List.getElem?_set_self hslot]

/-- A full queue refuses and is not changed. -/
theorem Represents.insert_full {queue : Queue α} {xs : List α} (h : queue.Represents xs)
    (hfull : xs.length = queue.size) (item : α) :
    queue.insert item = (.overflowError, queue) := by
  rw [Queue.insert, if_pos (h.count.trans hfull)]

/-- A non-empty queue gives its first element. -/
theorem Represents.remove {queue : Queue α} {x : α} {xs : List α}
    (h : queue.Represents (x :: xs)) :
    (queue.remove).1 = .success ∧ (queue.remove).2.1 = some x ∧
      (queue.remove).2.2.size = queue.size ∧ (queue.remove).2.2.Represents xs := by
  have hne : queue.nItems ≠ 0 := by rw [h.count]; simp
  have hslot : ∀ i, (getNextIndex queue.head queue.size + i) % queue.size =
      queue.slot (i + 1) := by
    intro i
    simp only [slot, getNextIndex, Nat.mod_add_mod]
    congr 1
    omega
  have hfirst := h.stored 0 (by simp)
  simp only [slot, Nat.add_zero, Nat.mod_eq_of_lt h.head_lt] at hfirst
  simp only [Queue.remove, if_neg hne, hfirst, List.getElem_cons_zero, true_and]
  refine ⟨h.size_pos, h.slots, Nat.mod_lt _ h.size_pos, ?_, by simp [h.count],
    Nat.le_of_succ_le h.bounded, ?_⟩
  · simpa only [slot, hslot, List.length_cons] using h.tail_eq
  · intro i hi
    have := h.stored (i + 1) (by simpa using hi)
    simpa only [slot, hslot, List.getElem_cons_succ] using this

theorem Represents.remove_empty {queue : Queue α} (h : queue.Represents []) :
    queue.remove = (.dataNotFoundError, none, queue) := by
  exact if_pos h.count

theorem Represents.isEmpty_iff {queue : Queue α} {xs : List α} (h : queue.Represents xs) :
    queue.isEmpty = true ↔ xs = [] := by
  simp [isEmpty, h.count]

/-- The loop of `QueueForEach` from slot `curr` on with `left` elements to come;
`none` where it reads a slot outside the block or one nothing was stored in. -/
def forEachLoop {σ : Type*} (queue : Queue α) (action : α → σ → σ × Bool) :
    ℕ → ℕ → σ → Option (σ × ℕ)
  | 0, _, context => some (context, 0)
  | left + 1, curr, context =>
      (queue.items.getD curr none).bind fun item =>
        let r := action item context
        if r.2 then
          (queue.forEachLoop action left (getNextIndex curr queue.size) r.1).map
            fun rest => (rest.1, rest.2 + 1)
        else some (r.1, 1)

/-- `QueueForEach`: the context and the number of invocations. -/
def forEach {σ : Type*} (queue : Queue α) (action : α → σ → σ × Bool) (context : σ) :
    Option (σ × ℕ) :=
  queue.forEachLoop action queue.nItems queue.head context

def destroyLoop (queue : Queue α) : ℕ → ℕ → Option (List α)
  | 0, _ => some []
  | left + 1, curr =>
      (queue.items.getD curr none).bind fun item =>
        (queue.destroyLoop left (getNextIndex curr queue.size)).map (item :: ·)

/-- `QueueDestroy`: the items given to the destroyer, in the order it gets them. -/
def destroy (queue : Queue α) : Option (List α) := queue.destroyLoop queue.nItems queue.head

inductive Call (α σ : Type*) where
  | insert (item : α)
  | remove
  | isEmpty
  | forEach (action : α → σ → σ × Bool) (context : σ)

inductive Answer (α σ : Type*) where
  | insert (result : QueueResult)
  | remove (result : QueueResult) (item : Option α)
  | isEmpty (answer : Bool)
  | forEach (context : σ) (count : ℕ)

/-- One call. An access outside the block of items and a read of a slot nothing
was stored in are faults. -/
def exec {σ : Type*} (queue : Queue α) : Call α σ → Option (Answer α σ × Queue α)
  | .insert item =>
      if queue.nItems ≠ queue.size ∧ queue.items.length ≤ queue.tail then none
      else some (.insert (queue.insert item).1, (queue.insert item).2)
  | .remove =>
      if queue.nItems ≠ 0 ∧ queue.items.getD queue.head none = none then none
      else some (.remove queue.remove.1 queue.remove.2.1, queue.remove.2.2)
  | .isEmpty => some (.isEmpty queue.isEmpty, queue)
  | .forEach action context =>
      (queue.forEach action context).map fun r => (.forEach r.1 r.2, queue)

/-- What the calls answer and do on a FIFO list that holds at most `n` items. -/
inductive FifoStep {σ : Type*} (n : ℕ) : List α → Call α σ → Answer α σ → List α → Prop
  | insert {xs item} : xs.length < n → FifoStep n xs (.insert item) (.insert .success) (xs ++ [item])
  | insertFull {xs item} : xs.length = n → FifoStep n xs (.insert item) (.insert .overflowError) xs
  | remove {x xs} : FifoStep n (x :: xs) .remove (.remove .success (some x)) xs
  | removeEmpty : FifoStep n [] .remove (.remove .dataNotFoundError none) []
  | isEmpty {xs} : FifoStep n xs .isEmpty (.isEmpty xs.isEmpty) xs
  | forEach {xs action context} :
      FifoStep n xs (.forEach action context)
        (.forEach (Objects.visit action xs context).1 (Objects.visit action xs context).2) xs

section Represents
variable {queue : Queue α} {xs : List α}

/-- The slot behind a slot of the queue. -/
theorem getNextIndex_slot (queue : Queue α) (i : ℕ) :
    getNextIndex (queue.slot i) queue.size = queue.slot (i + 1) := by
  simp only [getNextIndex, slot, Nat.mod_add_mod, Nat.add_assoc]

theorem Represents.slot_zero (h : queue.Represents xs) : queue.slot 0 = queue.head := by
  rw [slot, Nat.add_zero, Nat.mod_eq_of_lt h.head_lt]

/-- The loop over the last elements visits them. -/
theorem Represents.forEachLoop {σ : Type*} (h : queue.Represents xs)
    (action : α → σ → σ × Bool) (left : ℕ) (hleft : left ≤ xs.length) (context : σ) :
    queue.forEachLoop action left (queue.slot (xs.length - left)) context =
      some (Objects.visit action (xs.drop (xs.length - left)) context) := by
  induction left generalizing context with
  | zero => simp [Queue.forEachLoop, Objects.visit]
  | succ left ih =>
    have hlt : xs.length - (left + 1) < xs.length := by omega
    have hnext : xs.length - (left + 1) + 1 = xs.length - left := by omega
    rw [Queue.forEachLoop, h.stored _ hlt, List.drop_eq_getElem_cons hlt, getNextIndex_slot, hnext]
    simp only [Option.bind_some, Objects.visit]
    split_ifs
    · rw [ih (by omega)]
      rfl
    · rfl

theorem Represents.forEach {σ : Type*} (h : queue.Represents xs) (action : α → σ → σ × Bool)
    (context : σ) : queue.forEach action context = some (Objects.visit action xs context) := by
  have := h.forEachLoop action xs.length le_rfl context
  rwa [Nat.sub_self, h.slot_zero, List.drop_zero, ← h.count] at this

theorem Represents.destroyLoop (h : queue.Represents xs) (left : ℕ) (hleft : left ≤ xs.length) :
    queue.destroyLoop left (queue.slot (xs.length - left)) =
      some (xs.drop (xs.length - left)) := by
  induction left with
  | zero => simp [Queue.destroyLoop]
  | succ left ih =>
    have hlt : xs.length - (left + 1) < xs.length := by omega
    have hnext : xs.length - (left + 1) + 1 = xs.length - left := by omega
    rw [Queue.destroyLoop, h.stored _ hlt, List.drop_eq_getElem_cons hlt, getNextIndex_slot, hnext,
      ih (by omega)]
    rfl

/-- The destroyer gets exactly the queued elements, in order. -/
theorem Represents.destroy (h : queue.Represents xs) : queue.destroy = some xs := by
  have := h.destroyLoop xs.length le_rfl
  rwa [Nat.sub_self, h.slot_zero, List.drop_zero, ← h.count] at this

/-- No call faults, and every call does what it does on the list. -/
theorem Represents.exec {σ : Type*} (h : queue.Represents xs) (call : Call α σ) :
    ∃ answer queue' xs', queue.exec call = some (answer, queue') ∧
      FifoStep queue.size xs call answer xs' ∧
      queue'.size = queue.size ∧ queue'.Represents xs' := by
  cases call with
  | insert item =>
    have hblock : queue.tail < queue.items.length := by
      rw [h.tail_eq, h.slots]
      exact Nat.mod_lt _ h.size_pos
    rw [Queue.exec, if_neg fun hc => absurd hc.2 (not_le.mpr hblock)]
    rcases h.bounded.lt_or_eq with hlt | hfull
    · obtain ⟨hresult, hsize, hrep⟩ := h.insert hlt item
      rw [hresult]
      exact ⟨_, _, _, rfl, .insert hlt, hsize, hrep⟩
    · rw [h.insert_full hfull]
      exact ⟨_, _, _, rfl, .insertFull hfull, rfl, h⟩
  | remove =>
    cases xs with
    | nil =>
      rw [Queue.exec, if_neg fun hc => hc.1 h.count, h.remove_empty]
      exact ⟨_, _, _, rfl, .removeEmpty, rfl, h⟩
    | cons x xs =>
      have hfirst := h.stored 0 (by simp)
      rw [h.slot_zero] at hfirst
      obtain ⟨hresult, hitem, hsize, hrep⟩ := h.remove
      rw [Queue.exec, if_neg fun hc => Option.some_ne_none _ (hfirst.symm.trans hc.2),
        hresult, hitem]
      exact ⟨_, _, _, rfl, .remove, hsize, hrep⟩
  | isEmpty =>
    have hempty : queue.isEmpty = xs.isEmpty := by
      rw [Bool.eq_iff_iff, h.isEmpty_iff, List.isEmpty_iff]
    rw [Queue.exec, hempty]
    exact ⟨_, _, _, rfl, .isEmpty, rfl, h⟩
  | forEach action context =>
    rw [Queue.exec, h.forEach]
    exact ⟨_, _, _, rfl, .forEach, rfl, h⟩

end Represents

/-- Whatever is called, the answers are those of a FIFO list of at most `n`
items, refused calls change nothing, and in the end that list is destroyed. -/
def IsFifo (σ : Type*) (n : ℕ) (queue : Queue α) : Prop :=
  ∀ calls : List (Call α σ), ∃ answers queue' xs,
    Objects.serve exec queue calls = some (answers, queue') ∧
      Objects.Allowed (FifoStep n) [] calls answers xs ∧
      queue'.nItems = xs.length ∧ xs.length ≤ n ∧
      (∀ item, xs.length = n → queue'.insert item = (.overflowError, queue')) ∧
      (xs = [] → queue'.remove = (.dataNotFoundError, none, queue')) ∧
      queue'.destroy = some xs

theorem Represents.isFifo (σ : Type*) {queue : Queue α} (h : queue.Represents []) :
    queue.IsFifo σ queue.size := by
  intro calls
  have hstep : ∀ (q : Queue α) (xs : List α) (call : Call α σ),
      q.size = queue.size ∧ q.Represents xs → True →
      ∃ answer q' xs', q.exec call = some (answer, q') ∧ FifoStep queue.size xs call answer xs' ∧
        q'.size = queue.size ∧ q'.Represents xs' := by
    rintro q xs call ⟨hsize, hrep⟩ -
    obtain ⟨answer, q', xs', hexec, hspec, hsize', hrep'⟩ := hrep.exec call
    exact ⟨answer, q', xs', hexec, hsize ▸ hspec, hsize'.trans hsize, hrep'⟩
  obtain ⟨answers, queue', xs, hserve, hallowed, hsize, hrep⟩ :=
    Objects.serve_refines hstep ⟨rfl, h⟩ (Objects.legal_of_forall (fun _ _ => trivial) [] calls)
  refine ⟨answers, queue', xs, hserve, hallowed, hrep.count, hsize ▸ hrep.bounded,
    fun item hfull => hrep.insert_full (hfull.trans hsize.symm) item, ?_, hrep.destroy⟩
  rintro rfl
  exact hrep.remove_empty

/-- Inserts into a block that is smaller than the recorded size get to its end
before the queue is full. -/
theorem serve_inserts_fault {σ : Type*} (item : α) (left : ℕ) {queue : Queue α}
    (hsmall : queue.items.length < queue.size) (htail : queue.tail = queue.nItems)
    (hleft : queue.nItems + left = queue.items.length) :
    Objects.serve exec queue (List.replicate (left + 1) (Call.insert (σ := σ) item)) = none := by
  have hne : queue.nItems ≠ queue.size := by omega
  induction left generalizing queue with
  | zero =>
    have hfault : queue.exec (Call.insert (σ := σ) item) = none :=
      if_pos ⟨hne, by omega⟩
    simp [Objects.serve, hfault]
  | succ left ih =>
    have hroom : ¬(queue.nItems ≠ queue.size ∧ queue.items.length ≤ queue.tail) := by omega
    have hnext : getNextIndex queue.tail queue.size = queue.nItems + 1 := by
      rw [getNextIndex, htail, Nat.mod_eq_of_lt (by omega)]
    have hpushed : (queue.insert item).2 = { queue with
        items := queue.items.set queue.tail (some item)
        tail := queue.nItems + 1
        nItems := queue.nItems + 1 } := by
      rw [insert, if_neg hne, hnext]
    have hrest := @ih (queue.insert item).2 (by simpa [hpushed] using hsmall) (by rw [hpushed])
      (by simp only [hpushed, List.length_set]; omega) (by simp only [hpushed]; omega)
    rw [List.replicate_succ, Objects.serve, exec, if_neg hroom]
    simp [hrest]

/-- A created queue is a FIFO of its size exactly when the byte count of its
block did not wrap around. -/
theorem create_isFifo_iff (σ : Type*) [Inhabited α] {allocQueue allocItems : Bool} {n : ℕ}
    {queue : Queue α} (h : create allocQueue allocItems n = some queue) :
    queue.IsFifo σ n ↔ n * 8 < 2 ^ 64 := by
  constructor
  · intro hfifo
    by_contra hwrap
    obtain ⟨-, rfl⟩ := create_eq h
    have hsmall : blockSlots n < n := by
      rw [blockSlots]
      omega
    obtain ⟨answers, queue', xs, hserve, -⟩ :=
      hfifo (List.replicate (blockSlots n + 1) (.insert default))
    rw [serve_inserts_fault default (blockSlots n) (by simpa using hsmall) rfl (by simp)] at hserve
    contradiction
  · intro hfit
    obtain ⟨rfl, hrep⟩ := create_represents hfit h
    exact hrep.isFifo σ

/-- The queue of the server's address pool. -/
theorem sixteen_isFifo :
    (⟨List.replicate 16 none, 16, 0, 0, 0⟩ : Queue ℕ).IsFifo Unit 16 :=
  (create_isFifo_iff Unit
    (show create true true 16 = some ⟨List.replicate 16 none, 16, 0, 0, 0⟩ from rfl)).mpr
    (by decide)

/-- For this size `malloc` is asked for 8 bytes: the second insert is outside. -/
theorem wrapped_not_isFifo :
    create true true (2 ^ 61 + 1) = some (⟨[none], 2 ^ 61 + 1, 0, 0, 0⟩ : Queue ℕ) ∧
      Objects.serve exec (⟨[none], 2 ^ 61 + 1, 0, 0, 0⟩ : Queue ℕ)
        [Call.insert (σ := Unit) 7, Call.insert 8] = none ∧
      ¬ (⟨[none], 2 ^ 61 + 1, 0, 0, 0⟩ : Queue ℕ).IsFifo Unit (2 ^ 61 + 1) := by
  have hfault : Objects.serve exec (⟨[none], 2 ^ 61 + 1, 0, 0, 0⟩ : Queue ℕ)
      [Call.insert (σ := Unit) 7, Call.insert 8] = none := rfl
  refine ⟨rfl, hfault, fun hfifo => ?_⟩
  obtain ⟨answers, queue', xs, hserve, -⟩ := hfifo [Call.insert 7, Call.insert 8]
  rw [hfault] at hserve
  contradiction

end Queue
end MeshChat
