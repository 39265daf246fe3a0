import MeshChat.Lib.Blocks
import MeshChat.Lib.Objects
import MeshChat.Lib.Runs

/-!
# The growable vector

`vector.c` over a heap of blocks. Sizes are `size_t`, so the byte counts passed
to the allocator are computed modulo 2^64; what the allocator does with them is
an input of each call. Above it a vector is a list that is pushed and popped at
its back, with a capacity that moves in steps of the block size.
-/
namespace MeshChat

open Blocks

inductive VectorResult where
  | success | unitializedError | allocationError | indexOutOfBoundsError
  deriving DecidableEq, Repr

structure Vector where
  items : Option ℕ
  originalCapacity : UInt64
  capacity : UInt64
  size : UInt64
  blockSize : UInt64
  deriving DecidableEq

namespace Vector
variable {α : Type*}

/-- `sizeof(void*)`. -/
abbrev sizeofPtr : UInt64 := 8

/-- `VectorCreate` with the outcomes of its two allocations. -/
def create (allocVector : Bool) (outcome : Outcome) (heap : Heap α)
    (initialCapacity blockSize : UInt64) : Option (Vector × Heap α) :=
  if initialCapacity = 0 ∧ blockSize = 0 then none
  else if !allocVector then none
  else
    let r := malloc heap (initialCapacity * sizeofPtr) outcome
    if r.1 = none ∧ initialCapacity > 0 then none
    else
      some ({ items := r.1, originalCapacity := initialCapacity, capacity := initialCapacity,
              size := 0, blockSize }, r.2)

/-- The store behind the last element, with which `VectorAppend` ends. -/
def push (vector : Vector) (heap : Heap α) (item : α) :
    Option (VectorResult × Vector × Heap α) :=
  (store heap vector.items vector.size.toNat item).map fun heap =>
    (.success, { vector with size := vector.size + 1 }, heap)

/-- `VectorAppend`; `none` is an access that the heap does not allow. -/
def append (vector : Vector) (heap : Heap α) (outcome : Outcome) (item : α) :
    Option (VectorResult × Vector × Heap α) :=
  if vector.size = vector.capacity then
    if vector.blockSize = 0 then some (.allocationError, vector, heap)
    else
      (realloc heap vector.items ((vector.capacity + vector.blockSize) * sizeofPtr) outcome).bind
        fun r =>
          match r.1 with
          | none => some (.allocationError, vector, r.2)
          | some temp =>
              push { vector with
                items := some temp, capacity := vector.capacity + vector.blockSize } r.2 item
  else push vector heap item

/-- The capacity `VectorRemove` shrinks to, if it does. -/
def newCapacity (vector : Vector) : Option UInt64 :=
  if vector.blockSize > 0 ∧ vector.capacity > vector.originalCapacity ∧
      vector.capacity - vector.size ≥ vector.blockSize * 2 then
    let newCapacity := vector.capacity - vector.blockSize
    let newCapacity :=
      if newCapacity < vector.originalCapacity then vector.originalCapacity else newCapacity
    if newCapacity ≠ vector.capacity then some newCapacity else none
  else none

/-- The shrink step of `VectorRemove`. A shrink that fails is left at that. -/
def shrink (vector : Vector) (heap : Heap α) (outcome : Outcome) : Option (Vector × Heap α) :=
  match vector.newCapacity with
  | none => some (vector, heap)
  | some newCapacity =>
      (realloc heap vector.items (newCapacity * sizeofPtr) outcome).map fun r =>
        match r.1 with
        | none => (vector, r.2)
        | some temp => ({ vector with items := some temp, capacity := newCapacity }, r.2)

/-- `VectorRemove`: the result, what `*_pValue` receives, the vector and the heap. -/
def remove (vector : Vector) (heap : Heap α) (outcome : Outcome) :
    Option ((VectorResult × Option α) × Vector × Heap α) :=
  if vector.size = 0 then some ((.indexOutOfBoundsError, none), vector, heap)
  else
    (load heap vector.items (vector.size - 1).toNat).bind fun value =>
      (shrink { vector with size := vector.size - 1 } heap outcome).map fun r =>
        ((.success, some value), r)

def get (vector : Vector) (heap : Heap α) (index : UInt64) : Option (VectorResult × Option α) :=
  if index ≥ vector.size then some (.indexOutOfBoundsError, none)
  else (load heap vector.items index.toNat).map fun value => (.success, some value)

def set (vector : Vector) (heap : Heap α) (index : UInt64) (value : α) :
    Option (VectorResult × Heap α) :=
  if index ≥ vector.size then some (.indexOutOfBoundsError, heap)
  else (store heap vector.items index.toNat value).map fun heap => (.success, heap)

inductive Call (α : Type*) where
  | append (item : α)
  | remove
  | get (index : UInt64)
  | set (index : UInt64) (value : α)

/-- A result and what the call hands out. -/
abbrev Answer (α : Type*) := VectorResult × Option α

def exec (vector : Vector) (heap : Heap α) (outcome : Outcome) :
    Call α → Option (Answer α × Vector × Heap α)
  | .append item => (vector.append heap outcome item).map fun r => ((r.1, none), r.2)
  | .remove => vector.remove heap outcome
  | .get index => (vector.get heap index).map fun answer => (answer, vector, heap)
  | .set index value => (vector.set heap index value).map fun r => ((r.1, none), vector, r.2)

/-- The byte count of the `realloc` a call makes, if it makes one. -/
def request (vector : Vector) : Call α → Option UInt64
  | .append _ =>
      if vector.size = vector.capacity ∧ vector.blockSize ≠ 0 then
        some ((vector.capacity + vector.blockSize) * sizeofPtr)
      else none
  | .remove =>
      if vector.size = 0 then none
      else ({ vector with size := vector.size - 1 } : Vector).newCapacity.map (· * sizeofPtr)
  | _ => none

/-- A call with what the allocator did in it and its answer, `none` for a fault. -/
structure Event (α : Type*) where
  call : Call α
  outcome : Outcome
  answer : Option (Answer α)

/-- One call on a vector; what the allocator does is something it may do. After
a fault (`none`) there are no steps. -/
def Step (s : Option (Vector × Heap α)) (e : Event α) (t : Option (Vector × Heap α)) : Prop :=
  ∃ vector heap, s = some (vector, heap) ∧
    (∀ bytes, vector.request e.call = some bytes →
      Permits heap vector.items bytes e.outcome) ∧
    e.answer = (vector.exec heap e.outcome e.call).map (·.1) ∧
    t = (vector.exec heap e.outcome e.call).map (·.2)

/-- What a vector is for: a list and the room there is for it. -/
structure Stack (α : Type*) where
  items : List α
  capacity : ℕ

namespace Stack

/-- A removal that leaves `left` elements gives a block back. -/
def Shrinks (floor block : ℕ) (stack : Stack α) (left : ℕ) : Prop :=
  0 < block ∧ floor < stack.capacity ∧ 2 * block ≤ stack.capacity - left

instance (floor block : ℕ) (stack : Stack α) (left : ℕ) :
    Decidable (stack.Shrinks floor block left) := by
  unfold Shrinks
  infer_instance

/-- The calls on a list whose capacity moves by `block` and not below `floor`;
`ok` says whether a `realloc` succeeds. -/
def exec (floor block : ℕ) (stack : Stack α) (ok : Bool) : Call α → Answer α × Stack α
  | .append item =>
      if stack.items.length < stack.capacity then
        ((.success, none), { stack with items := stack.items ++ [item] })
      else if block = 0 ∨ ok = false then ((.allocationError, none), stack)
      else ((.success, none), ⟨stack.items ++ [item], stack.capacity + block⟩)
  | .remove =>
      match stack.items.getLast? with
      | none => ((.indexOutOfBoundsError, none), stack)
      | some item =>
          ((.success, some item), {
            items := stack.items.dropLast
            capacity :=
              if stack.Shrinks floor block (stack.items.length - 1) ∧ ok = true
              then stack.capacity - block else stack.capacity })
  | .get index =>
      match stack.items[index.toNat]? with
      | none => ((.indexOutOfBoundsError, none), stack)
      | some item => ((.success, some item), stack)
  | .set index value =>
      if index.toNat < stack.items.length then
        ((.success, none), { stack with items := stack.items.set index.toNat value })
      else ((.indexOutOfBoundsError, none), stack)

end Stack

/-- The vector and its heap hold the list, in a block with room for the capacity,
which is a whole number of steps above the initial one. -/
structure Holds (c0 b : UInt64) (vector : Vector) (heap : Heap α) (stack : Stack α) : Prop where
  floor_eq : vector.originalCapacity = c0
  block_eq : vector.blockSize = b
  capacity_eq : vector.capacity.toNat = stack.capacity
  size_eq : vector.size.toNat = stack.items.length
  fits : stack.capacity * 8 < 2 ^ 64
  bounded : stack.items.length ≤ stack.capacity
  above : ∃ k, stack.capacity = c0.toNat + k * b.toNat
  backs : Backs heap vector.items stack.capacity stack.items

theorem slots_mul {n : UInt64} (h : n.toNat * 8 < 2 ^ 64) : slots (n * sizeofPtr) = n.toNat := by
  have hmul : (n * sizeofPtr).toNat = n.toNat * 8 := by
    rw [UInt64.toNat_mul]
    exact Nat.mod_eq_of_lt h
  rw [slots, hmul, Nat.mul_div_cancel _ (by decide)]

theorem create_holds {allocVector : Bool} {outcome : Outcome} {heap heap' : Heap α}
    {c0 b : UInt64} {vector : Vector} (hfit : c0.toNat * 8 < 2 ^ 64)
    (h : create allocVector outcome heap c0 b = some (vector, heap')) :
    vector.Holds c0 b heap' (⟨[], c0.toNat⟩ : Stack α) := by
  simp only [create] at h
  split_ifs at h with hboth halloc hnull
  obtain ⟨rfl, rfl⟩ := Prod.mk.inj (Option.some.inj h)
  refine ⟨rfl, rfl, rfl, rfl, hfit, Nat.zero_le _, ⟨0, by simp⟩, ?_⟩
  cases outcome with
  | gives addr =>
    refine .block (Function.update_self ..) ?_ List.nil_prefix
    rw [List.length_replicate, slots_mul hfit]
  | fails =>
    have hzero : c0 = 0 := by simpa [malloc] using hnull
    subst hzero
    exact .null
  | frees =>
    have hzero : c0 = 0 := by simpa [malloc] using hnull
    subst hzero
    exact .null

/-- A growing append asks for a byte count that does not wrap around, or its
`realloc` just fails. -/
def Fits (vector : Vector) (outcome : Outcome) : Call α → Prop
  | .append _ =>
      vector.size = vector.capacity → vector.blockSize ≠ 0 → outcome ≠ .fails →
        (vector.capacity.toNat + vector.blockSize.toNat) * 8 < 2 ^ 64
  | _ => True

section Holds
variable {c0 b : UInt64} {vector : Vector} {heap : Heap α} {stack : Stack α}

theorem Holds.size_lt_iff (h : vector.Holds c0 b heap stack) :
    vector.size ≠ vector.capacity ↔ stack.items.length < stack.capacity := by
  have hbounded := h.bounded
  rw [Ne, ← UInt64.toNat_inj, h.size_eq, h.capacity_eq]
  omega

/-- Where there is room the element goes behind the last one. -/
theorem Holds.push (h : vector.Holds c0 b heap stack)
    (hroom : stack.items.length < stack.capacity) (item : α) :
    ∃ heap', vector.push heap item =
        some (.success, { vector with size := vector.size + 1 }, heap') ∧
      ({ vector with size := vector.size + 1 } : Vector).Holds c0 b heap'
        { stack with items := stack.items ++ [item] } := by
  obtain ⟨heap', hstore, hbacks⟩ := h.backs.store_push hroom item
  have hsize : (vector.size + 1).toNat = stack.items.length + 1 := by
    have hfits := h.fits
    rw [UInt64.toNat_add, h.size_eq]
    exact Nat.mod_eq_of_lt (by have : (1 : UInt64).toNat = 1 := rfl; omega)
  refine ⟨heap', by rw [Vector.push, h.size_eq, hstore]; rfl, ?_⟩
  exact ⟨h.floor_eq, h.block_eq, h.capacity_eq, by simpa using hsize, h.fits,
    by simpa using hroom, h.above, hbacks⟩

/-- A block with room for the elements in place of the old one. -/
theorem Holds.resized (h : vector.Holds c0 b heap stack) {capacity : UInt64} {addr : ℕ}
    {heap' : Heap α} (hfit : capacity.toNat * 8 < 2 ^ 64)
    (hroom : stack.items.length ≤ capacity.toNat)
    (habove : ∃ k, capacity.toNat = c0.toNat + k * b.toNat)
    (hbacks : Backs heap' (some addr) capacity.toNat stack.items) :
    ({ vector with items := some addr, capacity } : Vector).Holds c0 b heap'
      { stack with capacity := capacity.toNat } :=
  ⟨h.floor_eq, h.block_eq, rfl, h.size_eq, hfit, hroom, habove, hbacks⟩

/-- A capacity larger by a block does not wrap around when its byte count fits. -/
theorem Holds.toNat_grown (h : vector.Holds c0 b heap stack)
    (hgrow : (vector.capacity.toNat + vector.blockSize.toNat) * 8 < 2 ^ 64) :
    (vector.capacity + vector.blockSize).toNat = stack.capacity + b.toNat := by
  rw [UInt64.toNat_add, Nat.mod_eq_of_lt (by omega), h.capacity_eq, h.block_eq]

/-- A `realloc` that gives a larger block makes room for the element. -/
theorem Holds.grow (h : vector.Holds c0 b heap stack) (hbpos : 0 < b.toNat)
    (hgrow : (vector.capacity.toNat + vector.blockSize.toNat) * 8 < 2 ^ 64) (addr : ℕ) (item : α) :
    ∃ (heap' : Heap α) (vector' : Vector) (heap'' : Heap α),
      realloc heap vector.items ((vector.capacity + vector.blockSize) * sizeofPtr) (.gives addr) =
        some (some addr, heap') ∧
      Vector.push { vector with items := some addr, capacity := vector.capacity + vector.blockSize }
        heap' item = some (.success, vector', heap'') ∧
      vector'.Holds c0 b heap'' ⟨stack.items ++ [item], stack.capacity + b.toNat⟩ := by
  have hcap := h.toNat_grown hgrow
  rw [h.capacity_eq, h.block_eq] at hgrow
  have hslots := slots_mul (n := vector.capacity + vector.blockSize) (by rw [hcap]; exact hgrow)
  obtain ⟨heap', block, hrealloc, hlive, hlen, hprefix⟩ := h.backs.realloc_gives
    ((vector.capacity + vector.blockSize) * sizeofPtr)
    (by rw [hslots, hcap]; have := h.bounded; omega) addr
  have hbacks := Backs.block hlive (hlen.trans hslots).ge hprefix
  obtain ⟨k, hk⟩ := h.above
  have hresized := h.resized (by rw [hcap]; exact hgrow)
    (by rw [hcap]; have := h.bounded; omega)
    ⟨k + 1, by rw [hcap, hk, Nat.add_mul]; omega⟩ hbacks
  obtain ⟨heap'', hpush, hholds⟩ := hresized.push
    (by rw [hcap]; exact Nat.lt_of_le_of_lt h.bounded (Nat.lt_add_of_pos_right hbpos)) item
  rw [hcap] at hholds
  exact ⟨heap', _, heap'', hrealloc, hpush, hholds⟩

/-- A growing `realloc` is for more than zero bytes, so it does not free the block. -/
theorem Holds.not_frees (h : vector.Holds c0 b heap stack) (hbpos : 0 < b.toNat)
    (hgrow : (vector.capacity.toNat + vector.blockSize.toNat) * 8 < 2 ^ 64) :
    ¬Permits heap vector.items ((vector.capacity + vector.blockSize) * sizeofPtr) .frees := by
  intro hpermitted
  have hcap := h.toNat_grown hgrow
  rw [h.capacity_eq, h.block_eq] at hgrow
  have hslots := slots_mul (n := vector.capacity + vector.blockSize) (by rw [hcap]; exact hgrow)
  have hnone : slots 0 = 0 := rfl
  rw [hpermitted.2, hnone, hcap] at hslots
  omega

theorem Holds.append (h : vector.Holds c0 b heap stack) {outcome : Outcome} (item : α)
    (hperm : ∀ bytes, vector.request (.append item) = some bytes →
      Permits heap vector.items bytes outcome)
    (hfit : vector.Fits outcome (.append item)) :
    ∃ result vector' heap', vector.append heap outcome item = some (result, vector', heap') ∧
      (result, none) = (stack.exec c0.toNat b.toNat outcome.succeeds (.append item)).1 ∧
      vector'.Holds c0 b heap'
        (stack.exec c0.toNat b.toNat outcome.succeeds (.append item)).2 ∧
      (result ≠ .success → vector' = vector ∧ heap' = heap) := by
  by_cases hroom : stack.items.length < stack.capacity
  · obtain ⟨heap', hpush, hholds⟩ := h.push hroom item
    rw [Vector.append, if_neg (h.size_lt_iff.mpr hroom), Stack.exec, if_pos hroom]
    exact ⟨_, _, _, hpush, rfl, hholds, fun hne => absurd rfl hne⟩
  have hfull : vector.size = vector.capacity := not_not.mp (mt h.size_lt_iff.mp hroom)
  have hzero : vector.blockSize = 0 ↔ b.toNat = 0 := by
    rw [h.block_eq, ← UInt64.toNat_inj]
    rfl
  rw [Vector.append, if_pos hfull, Stack.exec, if_neg hroom]
  by_cases hfixed : vector.blockSize = 0
  · rw [if_pos hfixed, if_pos (Or.inl (hzero.mp hfixed))]
    exact ⟨_, _, _, rfl, rfl, h, fun _ => ⟨rfl, rfl⟩⟩
  rw [if_neg hfixed]
  by_cases hfails : outcome = .fails
  · subst hfails
    have hok : Outcome.succeeds .fails = false := rfl
    rw [h.backs.realloc_fails, if_pos (Or.inr hok)]
    exact ⟨_, _, _, rfl, rfl, h, fun _ => ⟨rfl, rfl⟩⟩
  have hgrow := hfit hfull hfixed hfails
  have hbpos : 0 < b.toNat := Nat.pos_of_ne_zero (mt hzero.mpr hfixed)
  cases outcome with
  | fails => exact absurd rfl hfails
  | frees => exact absurd (hperm _ (if_pos ⟨hfull, hfixed⟩)) (h.not_frees hbpos hgrow)
  | gives addr =>
    obtain ⟨heap', vector', heap'', hrealloc, hpush, hholds⟩ := h.grow hbpos hgrow addr item
    have hok : ¬(b.toNat = 0 ∨ Outcome.succeeds (.gives addr) = false) := by
      simp [Outcome.succeeds, hbpos.ne']
    rw [hrealloc, if_neg hok]
    exact ⟨_, _, _, hpush, rfl, hholds, fun hne => absurd rfl hne⟩

/-- A capacity above the initial one is at least a step above it. -/
theorem Holds.block_le (h : vector.Holds c0 b heap stack) (habove : c0.toNat < stack.capacity) :
    ∃ k, stack.capacity = c0.toNat + k * b.toNat + b.toNat := by
  obtain ⟨k, hk⟩ := h.above
  cases k with
  | zero => omega
  | succ k => exact ⟨k, by rw [hk, Nat.add_mul]; omega⟩

theorem Holds.toNat_twice (h : vector.Holds c0 b heap stack) (habove : c0.toNat < stack.capacity) :
    (vector.blockSize * 2).toNat = b.toNat * 2 := by
  obtain ⟨k, hk⟩ := h.block_le habove
  have hfits := h.fits
  rw [UInt64.toNat_mul, h.block_eq]
  change b.toNat * 2 % 2 ^ 64 = _
  omega

/-- The shrink test, free of wrap-around; the floor test behind it never fires. -/
theorem Holds.newCapacity (h : vector.Holds c0 b heap stack) :
    vector.newCapacity =
      if stack.Shrinks c0.toNat b.toNat stack.items.length
      then some (vector.capacity - vector.blockSize) else none := by
  have hpos : vector.blockSize > 0 ↔ 0 < b.toNat := by
    rw [h.block_eq, gt_iff_lt, UInt64.lt_iff_toNat_lt]
    rfl
  have hfloor : vector.capacity > vector.originalCapacity ↔ c0.toNat < stack.capacity := by
    rw [h.floor_eq, gt_iff_lt, UInt64.lt_iff_toNat_lt, h.capacity_eq]
  have hgap : (vector.capacity - vector.size).toNat = stack.capacity - stack.items.length := by
    rw [UInt64.toNat_sub_of_le _ _ (by
      rw [UInt64.le_iff_toNat_le, h.size_eq, h.capacity_eq]; exact h.bounded),
      h.size_eq, h.capacity_eq]
  by_cases hshrinks : stack.Shrinks c0.toNat b.toNat stack.items.length
  · obtain ⟨hb, habove, htwo⟩ := hshrinks
    obtain ⟨k, hk⟩ := h.block_le habove
    have htwice := h.toNat_twice habove
    have hnew : (vector.capacity - vector.blockSize).toNat = stack.capacity - b.toNat := by
      rw [UInt64.toNat_sub_of_le _ _ (by
        rw [UInt64.le_iff_toNat_le, h.block_eq, h.capacity_eq]; omega),
        h.block_eq, h.capacity_eq]
    have hge : vector.capacity - vector.size ≥ vector.blockSize * 2 := by
      rw [ge_iff_le, UInt64.le_iff_toNat_le, hgap, htwice]
      omega
    have hnot : ¬ vector.capacity - vector.blockSize < vector.originalCapacity := by
      rw [UInt64.lt_iff_toNat_lt, hnew, h.floor_eq]
      omega
    have hne : vector.capacity - vector.blockSize ≠ vector.capacity := by
      rw [Ne, ← UInt64.toNat_inj, hnew, h.capacity_eq]
      omega
    have htest := And.intro (hpos.mpr hb) (And.intro (hfloor.mpr habove) hge)
    have hshrinks : stack.Shrinks c0.toNat b.toNat stack.items.length := ⟨hb, habove, htwo⟩
    simp only [Vector.newCapacity, if_pos htest, if_neg hnot, if_pos hne, if_pos hshrinks]
  · rw [Vector.newCapacity, if_neg hshrinks, if_neg]
    rintro ⟨hb, habove, hge⟩
    refine hshrinks ⟨hpos.mp hb, hfloor.mp habove, ?_⟩
    rw [ge_iff_le, UInt64.le_iff_toNat_le, hgap, h.toNat_twice (hfloor.mp habove)] at hge
    omega

/-- A shrink keeps the elements whether its `realloc` succeeds or not. -/
theorem Holds.shrink (h : vector.Holds c0 b heap stack) {outcome : Outcome}
    (hperm : ∀ n, vector.newCapacity = some n →
      Permits heap vector.items (n * sizeofPtr) outcome) :
    ∃ vector' heap', vector.shrink heap outcome = some (vector', heap') ∧
      vector'.Holds c0 b heap' ⟨stack.items,
        if stack.Shrinks c0.toNat b.toNat stack.items.length ∧ outcome.succeeds = true
        then stack.capacity - b.toNat else stack.capacity⟩ := by
  by_cases hshrinks : stack.Shrinks c0.toNat b.toNat stack.items.length
  swap
  · refine ⟨vector, heap, by rw [Vector.shrink, h.newCapacity, if_neg hshrinks], ?_⟩
    rw [if_neg fun hc => hshrinks hc.1]
    exact h
  have hnew := h.newCapacity
  rw [if_pos hshrinks] at hnew
  have hpermitted := hperm _ hnew
  obtain ⟨hb, habove, htwo⟩ := hshrinks
  obtain ⟨k, hk⟩ := h.block_le habove
  have hfits := h.fits
  have hcap : (vector.capacity - vector.blockSize).toNat = stack.capacity - b.toNat := by
    rw [UInt64.toNat_sub_of_le _ _ (by
      rw [UInt64.le_iff_toNat_le, h.block_eq, h.capacity_eq]; omega), h.block_eq, h.capacity_eq]
  have hslots := slots_mul (n := vector.capacity - vector.blockSize) (by rw [hcap]; omega)
  rw [Vector.shrink, hnew]
  cases outcome with
  | fails =>
    refine ⟨vector, heap, by simp only [h.backs.realloc_fails, Option.map_some], ?_⟩
    rw [if_neg (by simp [Outcome.succeeds])]
    exact h
  | frees =>
    have := congrArg slots hpermitted.2
    rw [hslots, hcap] at this
    have hnone : slots 0 = 0 := rfl
    omega
  | gives addr =>
    obtain ⟨heap', block, hrealloc, hlive, hlen, hprefix⟩ := h.backs.realloc_gives
      ((vector.capacity - vector.blockSize) * sizeofPtr) (by rw [hslots, hcap]; omega) addr
    have hbacks := Backs.block hlive (hlen.trans hslots).ge hprefix
    have hresized := h.resized (by rw [hcap]; omega) (by rw [hcap]; omega)
      ⟨k, by rw [hcap]; omega⟩ hbacks
    refine ⟨_, heap', by simp only [hrealloc]; rfl, ?_⟩
    rw [if_pos ⟨⟨hb, habove, htwo⟩, rfl⟩, ← hcap]
    exact hresized

/-- The element count one lower. -/
theorem Holds.popped (h : vector.Holds c0 b heap stack) {xs : List α} {x : α}
    (hitems : stack.items = xs ++ [x]) :
    vector.size ≠ 0 ∧ (vector.size - 1).toNat = xs.length ∧
      ({ vector with size := vector.size - 1 } : Vector).Holds c0 b heap ⟨xs, stack.capacity⟩ := by
  have hlen : vector.size.toNat = xs.length + 1 := by
    rw [h.size_eq, hitems, List.length_append, List.length_singleton]
  have hone : (1 : UInt64).toNat = 1 := rfl
  have hsize : (vector.size - 1).toNat = xs.length := by
    rw [UInt64.toNat_sub_of_le _ _ (by rw [UInt64.le_iff_toNat_le, hone, hlen]; omega), hone, hlen]
    omega
  refine ⟨?_, hsize, ?_⟩
  · rintro hzero
    rw [hzero] at hlen
    have : (0 : UInt64).toNat = 0 := rfl
    omega
  · have hbounded := h.bounded
    rw [hitems, List.length_append, List.length_singleton] at hbounded
    exact ⟨h.floor_eq, h.block_eq, h.capacity_eq, hsize, h.fits, Nat.le_of_succ_le hbounded,
      h.above, h.backs.of_prefix ⟨[x], hitems.symm⟩⟩

theorem Holds.remove (h : vector.Holds c0 b heap stack) {outcome : Outcome}
    (hperm : ∀ bytes, vector.request (.remove : Call α) = some bytes →
      Permits heap vector.items bytes outcome) :
    ∃ answer vector' heap', vector.remove heap outcome = some (answer, vector', heap') ∧
      answer = (stack.exec c0.toNat b.toNat outcome.succeeds .remove).1 ∧
      vector'.Holds c0 b heap' (stack.exec c0.toNat b.toNat outcome.succeeds .remove).2 ∧
      (answer.1 ≠ .success → vector' = vector ∧ heap' = heap) := by
  rcases List.eq_nil_or_concat stack.items with hnil | ⟨xs, x, hitems⟩
  · have hzero : vector.size = 0 := by
      rw [← UInt64.toNat_inj, h.size_eq, hnil]
      rfl
    rw [Vector.remove, if_pos hzero, Stack.exec, hnil]
    exact ⟨_, _, _, rfl, rfl, h, fun _ => ⟨rfl, rfl⟩⟩
  rw [List.concat_eq_append] at hitems
  obtain ⟨hne, hsize, hpopped⟩ := h.popped hitems
  obtain ⟨vector', heap', hshrink, hholds⟩ := hpopped.shrink fun n hn =>
    hperm _ (by rw [request, if_neg hne, hn]; rfl)
  have hload : load heap vector.items (vector.size - 1).toNat = some x := by
    rw [hsize, h.backs.load (by rw [hitems]; simp)]
    simp [hitems]
  have hlast : stack.items.getLast? = some x := by rw [hitems, List.getLast?_concat]
  have hlen : stack.items.length - 1 = xs.length := by simp [hitems]
  have hinit : stack.items.dropLast = xs := by rw [hitems, List.dropLast_concat]
  rw [Vector.remove, if_neg hne, hload, Option.bind_some, hshrink, Stack.exec]
  simp only [hlast, hlen, hinit]
  exact ⟨_, _, _, rfl, rfl, hholds, fun hc => absurd rfl hc⟩

theorem Holds.index_lt_iff (h : vector.Holds c0 b heap stack) (index : UInt64) :
    index ≥ vector.size ↔ stack.items.length ≤ index.toNat := by
  rw [ge_iff_le, UInt64.le_iff_toNat_le, h.size_eq]

theorem Holds.get (h : vector.Holds c0 b heap stack) (ok : Bool) (index : UInt64) :
    vector.get heap index = some (stack.exec c0.toNat b.toNat ok (.get index)).1 ∧
      (stack.exec c0.toNat b.toNat ok (.get index)).2 = stack := by
  by_cases hout : stack.items.length ≤ index.toNat
  · have hnone := List.getElem?_eq_none hout
    rw [Vector.get, if_pos ((h.index_lt_iff index).mpr hout), Stack.exec, hnone]
    exact ⟨rfl, rfl⟩
  · have hsome := List.getElem?_eq_getElem (not_le.mp hout)
    rw [Vector.get, if_neg (mt (h.index_lt_iff index).mp hout), h.backs.load (not_le.mp hout),
      Stack.exec, hsome]
    exact ⟨rfl, rfl⟩

theorem Holds.set (h : vector.Holds c0 b heap stack) (ok : Bool) (index : UInt64) (value : α) :
    ∃ result heap', vector.set heap index value = some (result, heap') ∧
      (result, none) = (stack.exec c0.toNat b.toNat ok (.set index value)).1 ∧
      vector.Holds c0 b heap' (stack.exec c0.toNat b.toNat ok (.set index value)).2 ∧
      (result ≠ .success → heap' = heap) := by
  by_cases hout : stack.items.length ≤ index.toNat
  · rw [Vector.set, if_pos ((h.index_lt_iff index).mpr hout), Stack.exec,
      if_neg (not_lt.mpr hout)]
    exact ⟨_, _, rfl, rfl, h, fun _ => rfl⟩
  · obtain ⟨heap', hstore, hbacks⟩ := h.backs.store_set (not_le.mp hout) value
    rw [Vector.set, if_neg (mt (h.index_lt_iff index).mp hout), hstore, Stack.exec,
      if_pos (not_le.mp hout)]
    refine ⟨_, _, rfl, rfl, ?_, fun hc => absurd rfl hc⟩
    exact ⟨h.floor_eq, h.block_eq, h.capacity_eq, by simpa using h.size_eq, h.fits,
      by simpa using h.bounded, h.above, hbacks⟩

/-- No call faults, and every call does what it does on the list. -/
theorem Holds.exec (h : vector.Holds c0 b heap stack) {outcome : Outcome} (call : Call α)
    (hperm : ∀ bytes, vector.request call = some bytes →
      Permits heap vector.items bytes outcome)
    (hfit : vector.Fits outcome call) :
    ∃ answer vector' heap', vector.exec heap outcome call = some (answer, vector', heap') ∧
      answer = (stack.exec c0.toNat b.toNat outcome.succeeds call).1 ∧
      vector'.Holds c0 b heap' (stack.exec c0.toNat b.toNat outcome.succeeds call).2 ∧
      (answer.1 ≠ .success → vector' = vector ∧ heap' = heap) := by
  cases call with
  | append item =>
    obtain ⟨result, vector', heap', happend, hanswer, hholds, hsame⟩ := h.append item hperm hfit
    exact ⟨_, _, _, by rw [Vector.exec, happend]; rfl, hanswer, hholds, hsame⟩
  | remove => exact h.remove hperm
  | get index =>
    obtain ⟨hget, hstack⟩ := h.get outcome.succeeds index
    exact ⟨_, _, _, by rw [Vector.exec, hget]; rfl, rfl, hstack.symm ▸ h, fun _ => ⟨rfl, rfl⟩⟩
  | set index value =>
    obtain ⟨result, heap', hset, hanswer, hholds, hsame⟩ := h.set outcome.succeeds index value
    exact ⟨_, _, _, by rw [Vector.exec, hset]; rfl, hanswer, hholds, fun hc => ⟨rfl, hsame hc⟩⟩

end Holds

open Runs

namespace Stack
variable {floor block : ℕ} {stack : Stack α}

/-- The room that is left is under two blocks, unless the capacity is the floor. -/
def Slack (floor block : ℕ) (stack : Stack α) : Prop :=
  stack.capacity = floor ∨ stack.capacity - stack.items.length < 2 * block

/-- A pop widens the room by a slot, and where that makes two blocks of it, one
block goes. -/
theorem Slack.pop (h : stack.Slack floor block) (hfloor : floor ≤ stack.capacity) {xs : List α}
    (hlen : stack.items.length = xs.length + 1) {ok : Bool}
    (hok : stack.Shrinks floor block xs.length → ok = true) :
    (⟨xs, if stack.Shrinks floor block xs.length ∧ ok = true then stack.capacity - block
      else stack.capacity⟩ : Stack α).Slack floor block := by
  by_cases hshrinks : stack.Shrinks floor block xs.length
  · rw [if_pos ⟨hshrinks, hok hshrinks⟩]
    obtain ⟨hb, habove, htwo⟩ := hshrinks
    have hgap := h.resolve_left habove.ne'
    refine Or.inr ?_
    dsimp only
    omega
  · rw [if_neg fun hc => hshrinks hc.1]
    refine (eq_or_lt_of_le hfloor).imp Eq.symm fun habove => ?_
    have hgap := h.resolve_left habove.ne'
    by_contra hlarge
    exact hshrinks ⟨by omega, habove, not_lt.mp hlarge⟩

theorem Slack.exec (h : stack.Slack floor block) (hfloor : floor ≤ stack.capacity)
    (hbounded : stack.items.length ≤ stack.capacity) {ok : Bool} (call : Call α)
    (hok : call = .remove → stack.items ≠ [] →
      stack.Shrinks floor block (stack.items.length - 1) → ok = true) :
    (stack.exec floor block ok call).2.Slack floor block := by
  cases call with
  | append item =>
    rw [Stack.exec]
    split_ifs with hroom hrefused
    · refine h.imp_right fun hgap => ?_
      simp only [List.length_append, List.length_singleton]
      omega
    · exact h
    · refine Or.inr ?_
      simp only [List.length_append, List.length_singleton]
      omega
  | remove =>
    rcases List.eq_nil_or_concat stack.items with hnil | ⟨xs, x, hitems⟩
    · rw [Stack.exec, hnil]
      exact h
    rw [List.concat_eq_append] at hitems
    have hlast : stack.items.getLast? = some x := by rw [hitems, List.getLast?_concat]
    have hlen : stack.items.length = xs.length + 1 := by simp [hitems]
    rw [hlen, Nat.add_sub_cancel] at hok
    rw [Stack.exec, hlast, hlen, Nat.add_sub_cancel, hitems, List.dropLast_concat]
    exact h.pop hfloor hlen (hok rfl (by simp [hitems]))
  | get index =>
    rw [Stack.exec]
    split <;> exact h
  | set index value =>
    rw [Stack.exec]
    split_ifs
    · simpa [Slack] using h
    · exact h

end Stack

/-- What a call with its allocations may answer and do on the list. -/
def StackStep (c0 b : UInt64) (stack : Stack α) (input : Call α × Outcome)
    (answer : Option (Answer α)) (stack' : Stack α) : Prop :=
  answer = some (stack.exec c0.toNat b.toNat input.2.succeeds input.1).1 ∧
    stack' = (stack.exec c0.toNat b.toNat input.2.succeeds input.1).2

/-- No size computation of the step wraps around. -/
def NoWrap (s : Option (Vector × Heap α)) (e : Event α) : Prop :=
  ∀ vector heap, s = some (vector, heap) → vector.Fits e.outcome e.call

/-- A `realloc` made in this step returned NULL. -/
def ReallocFails (m : Move (Option (Vector × Heap α)) (Event α)) : Prop :=
  ∃ vector heap bytes, m.pre = some (vector, heap) ∧
    vector.request m.label.call = some bytes ∧ m.label.outcome.succeeds = false

/-- A call that is refused. -/
def Refused (e : Event α) : Prop := ∀ value, e.answer ≠ some (.success, value)

theorem Holds.reallocFails {c0 b : UInt64} {vector : Vector} {heap : Heap α} {stack : Stack α}
    (h : vector.Holds c0 b heap stack) {e : Event α} {t : Option (Vector × Heap α)}
    (hok : ¬ ReallocFails ⟨some (vector, heap), e, t⟩) (hcall : e.call = .remove)
    (hne : stack.items ≠ [])
    (hshrinks : stack.Shrinks c0.toNat b.toNat (stack.items.length - 1)) :
    e.outcome.succeeds = true := by
  by_contra hfails
  obtain hnil | ⟨xs, x, hitems⟩ := List.eq_nil_or_concat stack.items
  · exact hne hnil
  rw [List.concat_eq_append] at hitems
  obtain ⟨hsize, -, hpopped⟩ := h.popped hitems
  have hshrinks' : (⟨xs, stack.capacity⟩ : Stack α).Shrinks c0.toNat b.toNat xs.length := by
    simpa [Stack.Shrinks, hitems] using hshrinks
  have hrequest : vector.request e.call =
      some ((vector.capacity - vector.blockSize) * sizeofPtr) := by
    rw [hcall, request, if_neg hsize, hpopped.newCapacity, if_pos hshrinks']
    rfl
  exact hok ⟨vector, heap, _, rfl, hrequest, by simpa using hfails⟩

/-- What a run of steps that do not wrap around has led to. -/
theorem run_holds {c0 b : UInt64} {vector : Vector} {heap : Heap α}
    (h : vector.Holds c0 b heap (⟨[], c0.toNat⟩ : Stack α))
    {moves : List (Move (Option (Vector × Heap α)) (Event α))} {s : Option (Vector × Heap α)}
    (hr : Run Step (some (vector, heap)) moves s) (hg : ∀ m ∈ moves, NoWrap m.pre m.label) :
    ∃ vector' heap' stack, s = some (vector', heap') ∧ vector'.Holds c0 b heap' stack ∧
      Objects.Allowed (StackStep c0 b) ⟨[], c0.toNat⟩
        (moves.map fun m => (m.label.call, m.label.outcome)) (moves.map (·.label.answer)) stack ∧
      (∀ m ∈ moves, Refused m.label → m.post = m.pre) ∧
      ((∀ m ∈ moves, ¬ ReallocFails m) → stack.Slack c0.toNat b.toNat) := by
  refine hr.history (G := NoWrap) (I := fun moves s => ∃ vector' heap' stack,
    s = some (vector', heap') ∧ vector'.Holds c0 b heap' stack ∧
      Objects.Allowed (StackStep c0 b) ⟨[], c0.toNat⟩
        (moves.map fun m => (m.label.call, m.label.outcome)) (moves.map (·.label.answer)) stack ∧
      (∀ m ∈ moves, Refused m.label → m.post = m.pre) ∧
      ((∀ m ∈ moves, ¬ ReallocFails m) → stack.Slack c0.toNat b.toNat))
    ⟨vector, heap, _, rfl, h, .nil _, List.forall_mem_nil _, fun _ => Or.inl rfl⟩ ?_ hg
  rintro moves _ e t ⟨vector, heap, stack, rfl, hholds, hallowed, hrefused, hslack⟩ hguard
    ⟨vector₁, heap₁, hpre, hperm, hanswer, rfl⟩
  obtain ⟨rfl, rfl⟩ := Prod.mk.inj (Option.some.inj hpre)
  obtain ⟨answer, vector', heap', hexec, hspec, hholds', hsame⟩ :=
    hholds.exec e.call hperm (hguard _ _ rfl)
  rw [hexec] at hanswer ⊢
  have hstep : StackStep c0 b stack (e.call, e.outcome) e.answer
      (stack.exec c0.toNat b.toNat e.outcome.succeeds e.call).2 :=
    ⟨by rw [hanswer, Option.map_some, hspec], rfl⟩
  refine ⟨vector', heap', _, rfl, hholds', ?_, ?_, ?_⟩
  · simpa using hallowed.snoc hstep
  · intro m hm
    rcases List.mem_append.mp hm with hm | hm
    · exact hrefused m hm
    · obtain rfl := List.mem_singleton.mp hm
      intro hrefuse
      obtain ⟨rfl, rfl⟩ := hsame fun hc => hrefuse answer.2 (by rw [hanswer, ← hc]; rfl)
      rfl
  · intro hok
    obtain ⟨k, hk⟩ := hholds.above
    refine (hslack fun m hm => hok m (List.mem_append_left _ hm)).exec (by omega) hholds.bounded
      e.call fun hcall hne hshrinks => ?_
    exact hholds.reallocFails (hok _ (List.mem_append_right _ List.mem_cons_self)) hcall hne hshrinks

/-- A vector is a list with bounded slack in every run in which no size
computation wraps around. -/
theorem run_refines_stack {c0 b : UInt64} {allocVector : Bool} {outcome : Outcome}
    {heap₀ heap : Heap α} {vector : Vector}
    (hcreate : create allocVector outcome heap₀ c0 b = some (vector, heap))
    (hfit : c0.toNat * 8 < 2 ^ 64)
    {moves : List (Move (Option (Vector × Heap α)) (Event α))} {s : Option (Vector × Heap α)}
    (hr : Run Step (some (vector, heap)) moves s) (hg : ∀ m ∈ moves, NoWrap m.pre m.label) :
    ∃ vector' heap' stack, s = some (vector', heap') ∧
      Objects.Allowed (StackStep c0 b) ⟨[], c0.toNat⟩
        (moves.map fun m => (m.label.call, m.label.outcome)) (moves.map (·.label.answer)) stack ∧
      vector'.size.toNat = stack.items.length ∧
      (∀ i (h : i < stack.items.length), load heap' vector'.items i = some stack.items[i]) ∧
      vector'.size ≤ vector'.capacity ∧
      (∃ k, vector'.capacity.toNat = c0.toNat + k * b.toNat) ∧
      (∀ m ∈ moves, Refused m.label → m.post = m.pre) ∧
      ((∀ m ∈ moves, ¬ ReallocFails m) →
        vector'.capacity = c0 ∨
          vector'.capacity.toNat - vector'.size.toNat < 2 * b.toNat) := by
  obtain ⟨vector', heap', stack, hs, hholds, hallowed, hrefused, hslack⟩ :=
    run_holds (create_holds hfit hcreate) hr hg
  refine ⟨vector', heap', stack, hs, hallowed, hholds.size_eq, fun i hi => hholds.backs.load hi,
    ?_, ?_, hrefused, fun hok => ?_⟩
  · rw [UInt64.le_iff_toNat_le, hholds.size_eq, hholds.capacity_eq]
    exact hholds.bounded
  · rw [hholds.capacity_eq]
    exact hholds.above
  · rw [← UInt64.toNat_inj, hholds.capacity_eq, hholds.size_eq]
    exact hslack hok

/-- A vector of one slot that grows by one on its second append. -/
theorem two_appends_refine_stack :
    ∃ (moves : List (Move (Option (Vector × Heap ℕ)) (Event ℕ))) (s : Option (Vector × Heap ℕ)),
      Run Step (some (⟨some 0, 1, 1, 0, 1⟩, Function.update (fun _ => none) 0 (some [none])))
        moves s ∧
      ∃ vector' heap' stack, s = some (vector', heap') ∧
        Objects.Allowed (StackStep 1 1) ⟨[], 1⟩ [(.append 5, .fails), (.append 6, .gives 1)]
          [some (.success, none), some (.success, none)] stack ∧
        vector'.size.toNat = stack.items.length ∧
        (∀ i (h : i < stack.items.length), load heap' vector'.items i = some stack.items[i]) := by
  let heap₀ : Heap ℕ := Function.update (fun _ => none) 0 (some [none])
  let heap₁ : Heap ℕ := Function.update heap₀ 0 (some [some 5])
  have hfirst : Step (some (⟨some 0, 1, 1, 0, 1⟩, heap₀))
      ⟨.append 5, .fails, some (.success, none)⟩ (some (⟨some 0, 1, 1, 1, 1⟩, heap₁)) :=
    ⟨_, _, rfl, fun _ _ => trivial, rfl, rfl⟩
  have hsecond : Step (some (⟨some 0, 1, 1, 1, 1⟩, heap₁))
      ⟨.append 6, .gives 1, some (.success, none)⟩ (some (⟨some 1, 1, 2, 2, 1⟩,
        Function.update (Function.update (Function.update heap₁ 0 none) 1
          (some [some 5, none])) 1 (some [some 5, some 6]))) :=
    ⟨_, _, rfl, fun _ _ => Or.inl rfl, rfl, rfl⟩
  have hrun := (Run.start.snoc hfirst).snoc hsecond
  refine ⟨_, _, hrun, ?_⟩
  obtain ⟨vector', heap', stack, hs, hallowed, hsize, hload, -⟩ :=
    run_refines_stack (show create true (.gives 0) (fun _ => none) 1 1 = some (_, heap₀) from rfl)
      (by decide) hrun (by
        simp only [List.nil_append, List.cons_append, List.forall_mem_cons]
        refine ⟨?_, ?_, List.forall_mem_nil _⟩
        · rintro _ _ ⟨⟩ hfull
          exact absurd hfull (by decide)
        · rintro _ _ ⟨⟩ _ _ _
          decide)
  exact ⟨vector', heap', stack, hs, hallowed, hsize, hload⟩

/-- The vector is there, and its item pointer points to a live block of at least
`capacity * sizeof(void*)` bytes; NULL is a block of no bytes. -/
def Intact (s : Option (Vector × Heap α)) : Prop :=
  ∃ vector heap, s = some (vector, heap) ∧
    Backs heap vector.items vector.capacity.toNat []

/-- Every state reached is intact, so no access has been outside the block, and
an append that reports an allocation error changes nothing. -/
def Sound (init : Option (Vector × Heap α))
    (moves : List (Move (Option (Vector × Heap α)) (Event α))) : Prop :=
  Intact init ∧ ∀ m ∈ moves, Intact m.post ∧
    ∀ item value, m.label.call = .append item →
      m.label.answer = some (.allocationError, value) → m.post = m.pre

theorem Holds.intact {c0 b : UInt64} {vector : Vector} {heap : Heap α} {stack : Stack α}
    (h : vector.Holds c0 b heap stack) : Intact (some (vector, heap)) :=
  ⟨vector, heap, rfl, h.capacity_eq ▸ h.backs.of_prefix List.nil_prefix⟩

/-- A block that creation leaves intact was not cut short by a wrapped count. -/
theorem create_fits {allocVector : Bool} {outcome : Outcome} {heap₀ heap : Heap α}
    {c0 b : UInt64} {vector : Vector}
    (h : create allocVector outcome heap₀ c0 b = some (vector, heap))
    (hintact : Intact (some (vector, heap))) : c0.toNat * 8 < 2 ^ 64 := by
  obtain ⟨vector₁, heap₁, hs, hbacks⟩ := hintact
  obtain ⟨rfl, rfl⟩ := Prod.mk.inj (Option.some.inj hs)
  simp only [create] at h
  split_ifs at h with hboth halloc hnull
  obtain ⟨rfl, rfl⟩ := Prod.mk.inj (Option.some.inj h)
  by_contra hwrap
  have hslots : slots (c0 * sizeofPtr) < c0.toNat := by
    rw [slots, UInt64.toNat_mul]
    change c0.toNat * 8 % 2 ^ 64 / 8 < c0.toNat
    omega
  cases outcome with
  | gives addr =>
    have hle := Backs.le_length hbacks (Function.update_self ..)
    rw [List.length_replicate] at hle
    exact absurd hslots (not_lt.mpr hle)
  | fails =>
    have hzero := Backs.eq_zero hbacks
    exact hwrap (by rw [hzero]; decide)
  | frees =>
    have hzero := Backs.eq_zero hbacks
    exact hwrap (by rw [hzero]; decide)

/-- A block that a growing append got, stored into and left intact is as large
as the new capacity without the wrap. -/
theorem fits_of_gives {vector vector' : Vector} {heap heap' : Heap α} {addr : ℕ} {item : α}
    {result : VectorResult} (hbacks : Backs heap vector.items vector.capacity.toNat [])
    (hfull : vector.size = vector.capacity) (hfixed : vector.blockSize ≠ 0)
    (happend : vector.append heap (.gives addr) item = some (result, vector', heap'))
    (hbacks' : Backs heap' vector'.items vector'.capacity.toNat []) :
    (vector.capacity.toNat + vector.blockSize.toNat) * 8 < 2 ^ 64 := by
  obtain ⟨heap₁, block, hrealloc, hlive, hlen, -⟩ := hbacks.realloc_gives
    ((vector.capacity + vector.blockSize) * sizeofPtr) (Nat.zero_le _) addr
  rw [append, if_pos hfull, if_neg hfixed, hrealloc] at happend
  simp only [Option.bind_some, push, store, hlive, hlen] at happend
  split_ifs at happend with hinside
  · obtain ⟨-, hvector⟩ := Prod.mk.inj (Option.some.inj happend)
    obtain ⟨rfl, rfl⟩ := Prod.mk.inj hvector
    have hle := hbacks'.le_length (Function.update_self ..)
    rw [List.length_set, hlen] at hle
    have hbytes : slots ((vector.capacity + vector.blockSize) * sizeofPtr) =
        (vector.capacity.toNat + vector.blockSize.toNat) % 2 ^ 64 * 8 % 2 ^ 64 / 8 := by
      rw [slots, UInt64.toNat_mul, UInt64.toNat_add]
      rfl
    rw [UInt64.toNat_add] at hle
    rw [hfull] at hinside
    have hc := vector.capacity.toNat_lt
    have hb := vector.blockSize.toNat_lt
    omega
  · contradiction

/-- A growing append whose byte count wraps around, and whose `realloc` does not
just fail, loses the block, cuts it short or stores outside it. -/
theorem fits_of_intact {vector : Vector} {heap : Heap α} (h : Intact (some (vector, heap)))
    {e : Event α} {t : Option (Vector × Heap α)} (hstep : Step (some (vector, heap)) e t)
    (hpost : Intact t) : vector.Fits e.outcome e.call := by
  obtain ⟨vector₁, heap₁, hs, hbacks⟩ := h
  obtain ⟨rfl, rfl⟩ := Prod.mk.inj (Option.some.inj hs)
  obtain ⟨vector₁, heap₁, hs, hperm, -, rfl⟩ := hstep
  obtain ⟨rfl, rfl⟩ := Prod.mk.inj (Option.some.inj hs)
  obtain ⟨vector', heap', hexec, hbacks'⟩ := hpost
  cases hcall : e.call with
  | remove => trivial
  | get index => trivial
  | set index value => trivial
  | append item =>
    intro hfull hfixed hfails
    rw [hcall] at hexec hperm
    have hpermitted := hperm _ (if_pos ⟨hfull, hfixed⟩)
    rw [exec, Option.map_map] at hexec
    obtain ⟨⟨result, made⟩, happend, hmade⟩ := Option.map_eq_some_iff.mp hexec
    obtain rfl : made = (vector', heap') := hmade
    cases hout : e.outcome with
    | fails => exact absurd hout hfails
    | frees =>
      rw [hout] at happend hpermitted
      obtain ⟨addr, hitems⟩ := Option.ne_none_iff_exists'.mp hpermitted.1
      rw [hitems] at hbacks
      rw [append, if_pos hfull, if_neg hfixed, hitems, hbacks.realloc_frees] at happend
      obtain ⟨-, hmade⟩ := Prod.mk.inj (Option.some.inj happend)
      obtain ⟨rfl, rfl⟩ := Prod.mk.inj hmade
      rw [hitems] at hbacks'
      exact absurd hbacks' not_backs_freed
    | gives addr =>
      rw [hout] at happend
      exact fits_of_gives hbacks hfull hfixed happend hbacks'

/-- In every run, exactly as long as no size computation wraps around, the block
is live and large enough for the recorded capacity. -/
theorem sound_iff {c0 b : UInt64} {allocVector : Bool} {outcome : Outcome}
    {heap₀ heap : Heap α} {vector : Vector}
    (hcreate : create allocVector outcome heap₀ c0 b = some (vector, heap))
    {moves : List (Move (Option (Vector × Heap α)) (Event α))} {s : Option (Vector × Heap α)}
    (hr : Run Step (some (vector, heap)) moves s) :
    Sound (some (vector, heap)) moves ↔
      c0.toNat * 8 < 2 ^ 64 ∧ ∀ m ∈ moves, NoWrap m.pre m.label := by
  constructor
  · rintro ⟨hinit, hsound⟩
    refine ⟨create_fits hcreate hinit, ?_⟩
    have hrun : Intact s ∧ ∀ m ∈ moves, NoWrap m.pre m.label := by
      induction hr with
      | start => exact ⟨hinit, List.forall_mem_nil _⟩
      | snoc hr hstep ih =>
        rw [List.forall_mem_append, List.forall_mem_singleton] at hsound
        obtain ⟨hs, hfits⟩ := ih hsound.1
        refine ⟨hsound.2.1, List.forall_mem_append.mpr ⟨hfits, ?_⟩⟩
        rw [List.forall_mem_singleton]
        rintro vector heap rfl
        exact fits_of_intact hs hstep hsound.2.1
    exact hrun.2
  · rintro ⟨hfit, hg⟩
    have hholds : vector.Holds c0 b heap (⟨[], c0.toNat⟩ : Stack α) := create_holds hfit hcreate
    obtain ⟨-, -, -, -, -, -, hrefused, -⟩ := run_holds hholds hr hg
    refine ⟨hholds.intact, fun m hm => ⟨?_, fun item value _ hanswer => hrefused m hm ?_⟩⟩
    · obtain ⟨before, after, rfl⟩ := List.append_of_mem hm
      obtain ⟨hbefore, hstep⟩ := hr.cut
      obtain ⟨vector', heap', stack, hpost, hkept, -⟩ := run_holds hholds (hbefore.snoc hstep)
        fun m' hm' => hg m' (by
          rcases List.mem_append.mp hm' with hm' | hm'
          · exact List.mem_append_left _ hm'
          · simp [List.mem_singleton.mp hm'])
      rw [hpost]
      exact hkept.intact
    · intro other hother
      rw [hanswer] at hother
      simp at hother

/-- A heap with a block of someone else's. -/
def sharedHeap : Heap ℕ := Function.update (fun _ => none) 7 (some [some 9])

/-- The states of a vector of one slot that grows by one on its second append. -/
def twoAppends : List (Vector × Heap ℕ) :=
  let created := Function.update sharedHeap 0 (some [none])
  let pushed := Function.update created 0 (some [some 5])
  let moved := Function.update (Function.update pushed 0 none) 1 (some [some 5, none])
  [(⟨some 0, 1, 1, 0, 1⟩, created), (⟨some 0, 1, 1, 1, 1⟩, pushed),
    (⟨some 1, 1, 2, 2, 1⟩, Function.update moved 1 (some [some 5, some 6]))]

/-- The steps between them. -/
def twoAppendMoves : List (Move (Option (Vector × Heap ℕ)) (Event ℕ)) :=
  [⟨twoAppends[0]?, ⟨.append 5, .fails, some (.success, none)⟩, twoAppends[1]?⟩,
    ⟨twoAppends[1]?, ⟨.append 6, .gives 1, some (.success, none)⟩, twoAppends[2]?⟩]

theorem run_twoAppends : Run Step twoAppends[0]? twoAppendMoves twoAppends[2]? := by
  have hfirst : Step twoAppends[0]? ⟨.append 5, .fails, some (.success, none)⟩ twoAppends[1]? :=
    ⟨_, _, rfl, fun _ _ => trivial, rfl, rfl⟩
  have hsecond : Step twoAppends[1]? ⟨.append 6, .gives 1, some (.success, none)⟩
      twoAppends[2]? :=
    ⟨_, _, rfl, fun _ _ => Or.inl rfl, rfl, rfl⟩
  exact (Run.start.snoc hfirst).snoc hsecond

theorem twoAppends_noWrap : ∀ m ∈ twoAppendMoves, NoWrap m.pre m.label := by
  rw [twoAppendMoves]
  simp only [List.forall_mem_cons]
  refine ⟨?_, ?_, List.forall_mem_nil _⟩
  · rintro _ _ ⟨⟩ hfull
    exact absurd hfull (by decide)
  · rintro _ _ ⟨⟩ _ _ _
    decide

/-- Beside the other block the vector takes both items, the second one in a larger block. -/
theorem two_appends_sound :
    twoAppendMoves.map (fun m => (m.label.call, m.label.outcome)) =
        [(.append 5, .fails), (.append 6, .gives 1)] ∧
      Run Step twoAppends[0]? twoAppendMoves twoAppends[2]? ∧
      Sound twoAppends[0]? twoAppendMoves := by
  have hcreate : create true (.gives 0) sharedHeap 1 1 = twoAppends[0]? := rfl
  exact ⟨rfl, run_twoAppends, (sound_iff hcreate run_twoAppends).mpr
    ⟨by decide, twoAppends_noWrap⟩⟩

/-- With a block size of `2^61` the second append asks `realloc` for `2^61 + 1`
slots, which is 8 bytes modulo 2^64, and stores its item behind that block. -/
theorem wrapped_append_unsound :
    ∃ (moves : List (Move (Option (Vector × Heap ℕ)) (Event ℕ))),
      create true (.gives 0) (fun _ => none) 1 2305843009213693952 =
        some (⟨some 0, 1, 1, 0, 2305843009213693952⟩,
          (Function.update (fun _ => none) 0 (some [none]) : Heap ℕ)) ∧
      moves.map (fun m => (m.label.call, m.label.outcome)) =
        [(.append 5, .fails), (.append 6, .gives 0)] ∧
      Run Step (some (⟨some 0, 1, 1, 0, 2305843009213693952⟩,
        Function.update (fun _ => none) 0 (some [none]))) moves none ∧
      ¬ Sound (some (⟨some 0, 1, 1, 0, 2305843009213693952⟩,
        Function.update (fun _ => none) 0 (some [none]))) moves := by
  let heap₀ : Heap ℕ := Function.update (fun _ => none) 0 (some [none])
  let heap₁ : Heap ℕ := Function.update heap₀ 0 (some [some 5])
  have hfirst : Step (some (⟨some 0, 1, 1, 0, 2305843009213693952⟩, heap₀))
      ⟨.append 5, .fails, some (.success, none)⟩
      (some (⟨some 0, 1, 1, 1, 2305843009213693952⟩, heap₁)) :=
    ⟨_, _, rfl, fun _ _ => trivial, rfl, rfl⟩
  have hsecond : Step (some (⟨some 0, 1, 1, 1, 2305843009213693952⟩, heap₁))
      ⟨.append 6, .gives 0, none⟩ none :=
    ⟨_, _, rfl, fun _ _ => Or.inr rfl, rfl, rfl⟩
  refine ⟨_, rfl, ?_, (Run.start.snoc hfirst).snoc hsecond, fun hsound => ?_⟩
  · rfl
  · obtain ⟨vector, heap, hs, -⟩ :=
      (hsound.2 _ (List.mem_append_right _ List.mem_cons_self)).1
    contradiction

end Vector
end MeshChat
