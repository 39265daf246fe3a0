import Mathlib.Data.List.GetD
import Mathlib.Tactic

/-!
# Heap blocks of pointer-sized slots

A heap gives the live block at an address. A block asked for by its byte count
has a slot for each 8 bytes, `none` until something is stored in it. What the
allocator does with a request is an input; `Permits` says what it may do. An
access through NULL, to a block that is not live, outside a block or of a slot
that was never written is a fault (`none`).
-/
namespace Blocks

abbrev Heap (α : Type*) := ℕ → Option (List (Option α))

/-- What the allocator does with a request: it returns NULL, it returns a block,
or, on a `realloc`, it frees the old block and returns NULL. -/
inductive Outcome where
  | fails
  | gives (addr : ℕ)
  | frees
  deriving DecidableEq

/-- A block is returned. -/
def Outcome.succeeds : Outcome → Bool
  | .gives _ => true
  | .fails | .frees => false

variable {α : Type*}

def slots (bytes : UInt64) : ℕ := bytes.toNat / 8

def malloc (heap : Heap α) (bytes : UInt64) : Outcome → Option ℕ × Heap α
  | .gives addr =>
      (some addr, Function.update heap addr (some (List.replicate (slots bytes) none)))
  | .fails | .frees => (none, heap)

/-- The contents of a block after its size changed to `n` slots. -/
def resize (block : List (Option α)) (n : ℕ) : List (Option α) :=
  (block ++ List.replicate (n - block.length) none).take n

/-- `realloc`; on NULL it is `malloc`, and the block given to it must be live. -/
def realloc (heap : Heap α) (items : Option ℕ) (bytes : UInt64) (outcome : Outcome) :
    Option (Option ℕ × Heap α) :=
  match items with
  | none => some (malloc heap bytes outcome)
  | some addr =>
      (heap addr).map fun block =>
        match outcome with
        | .fails => (none, heap)
        | .frees => (none, Function.update heap addr none)
        | .gives addr' =>
            (some addr', Function.update (Function.update heap addr none) addr'
              (some (resize block (slots bytes))))

/-- A returned block is a new one or, for `realloc`, may be the old one; only a
request for zero bytes may free the block and return NULL. -/
def Permits (heap : Heap α) (items : Option ℕ) (bytes : UInt64) : Outcome → Prop
  | .fails => True
  | .gives addr => heap addr = none ∨ items = some addr
  | .frees => items ≠ none ∧ bytes = 0

def load (heap : Heap α) (items : Option ℕ) (i : ℕ) : Option α :=
  items.bind fun addr => (heap addr).bind fun block => block.getD i none

def store (heap : Heap α) (items : Option ℕ) (i : ℕ) (x : α) : Option (Heap α) :=
  items.bind fun addr => (heap addr).bind fun block =>
    if i < block.length then some (Function.update heap addr (some (block.set i (some x))))
    else none

/-- `free`: nothing for NULL, else the block must be live. -/
def free (heap : Heap α) (items : Option ℕ) : Option (Heap α) :=
  match items with
  | none => some heap
  | some addr => (heap addr).map fun _ => Function.update heap addr none

/-- The heap beside the block that `items` points to. -/
def beside (heap : Heap α) (items : Option ℕ) : Heap α :=
  match items with
  | none => heap
  | some addr => Function.update heap addr none

/-- `items` points to a live block of at least `n` slots, the first of which hold
`xs`; NULL stands for a block without slots. -/
inductive Backs (heap : Heap α) : Option ℕ → ℕ → List α → Prop
  | null : Backs heap none 0 []
  | block {addr n : ℕ} {block : List (Option α)} {xs : List α} :
      heap addr = some block → n ≤ block.length → xs.map some <+: block →
      Backs heap (some addr) n xs

section Backs
variable {heap : Heap α} {items : Option ℕ} {n : ℕ} {xs : List α}

theorem length_resize (block : List (Option α)) (n : ℕ) : (resize block n).length = n := by
  simp only [resize, List.length_take, List.length_append, List.length_replicate]
  omega

theorem prefix_resize {block : List (Option α)} (h : xs.map some <+: block)
    (hn : xs.length ≤ n) : xs.map some <+: resize block n := by
  refine List.prefix_take_iff.mpr ⟨h.trans (List.prefix_append _ _), ?_⟩
  simpa using hn

theorem Backs.of_prefix (h : Backs heap items n xs) {ys : List α} (hys : ys <+: xs) :
    Backs heap items n ys := by
  cases h with
  | null =>
    obtain rfl := List.prefix_nil.mp hys
    exact .null
  | block hlive hn hxs => exact .block hlive hn ((hys.map some).trans hxs)

theorem Backs.eq_zero (h : Backs heap none n xs) : n = 0 := by
  cases h
  rfl

theorem Backs.live {addr : ℕ} (h : Backs heap (some addr) n xs) :
    ∃ block, heap addr = some block := by
  cases h with
  | block hlive _ _ => exact ⟨_, hlive⟩

/-- A block that was freed backs nothing. -/
theorem not_backs_freed {addr : ℕ} : ¬Backs (Function.update heap addr none) (some addr) n xs := by
  intro h
  obtain ⟨block, hlive⟩ := h.live
  exact Option.some_ne_none _ (hlive.symm.trans (Function.update_self ..))

theorem Backs.le_length {addr : ℕ} (h : Backs heap (some addr) n xs)
    {block : List (Option α)} (hlive : heap addr = some block) : n ≤ block.length := by
  cases h with
  | block hlive' hn _ =>
    obtain rfl := Option.some.inj (hlive'.symm.trans hlive)
    exact hn

theorem Backs.load (h : Backs heap items n xs) {i : ℕ} (hi : i < xs.length) :
    load heap items i = some xs[i] := by
  cases h with
  | null => simp at hi
  | block hlive _ hxs =>
    have hslot := hxs.getElem (by simpa using hi : i < (xs.map some).length)
    simp only [Blocks.load, Option.bind_some, hlive]
    rw [List.getD_eq_getElem _ _ (lt_of_lt_of_le (by simpa using hi) hxs.length_le), ← hslot,
      List.getElem_map]

/-- A store of a further element. -/
theorem Backs.store_push (h : Backs heap items n xs) (hlt : xs.length < n) (x : α) :
    ∃ heap', store heap items xs.length x = some heap' ∧ Backs heap' items n (xs ++ [x]) := by
  cases h with
  | null => simp at hlt
  | @block addr _ block _ hlive hn hxs =>
    have hlen : xs.length < block.length := hlt.trans_le hn
    refine ⟨Function.update heap addr (some (block.set xs.length (some x))), ?_, ?_⟩
    · simp [store, hlive, hlen]
    · obtain ⟨rest, rfl⟩ := hxs
      refine .block (Function.update_self ..) (by simpa using hn) ?_
      cases rest with
      | nil => simp at hlen
      | cons y rest => simp

/-- A store to an element that is there. -/
theorem Backs.store_set (h : Backs heap items n xs) {i : ℕ} (hi : i < xs.length) (x : α) :
    ∃ heap', store heap items i x = some heap' ∧ Backs heap' items n (xs.set i x) := by
  cases h with
  | null => simp at hi
  | @block addr _ block _ hlive hn hxs =>
    have hlen : i < block.length := lt_of_lt_of_le (by simpa using hi) hxs.length_le
    refine ⟨Function.update heap addr (some (block.set i (some x))), ?_, ?_⟩
    · simp [store, hlive, hlen]
    · obtain ⟨rest, rfl⟩ := hxs
      refine .block (Function.update_self ..) (by simpa using hn) ⟨rest, ?_⟩
      rw [List.set_append_left _ _ (by simpa using hi), List.map_set]

theorem Backs.realloc_fails (h : Backs heap items n xs) (bytes : UInt64) :
    realloc heap items bytes .fails = some (none, heap) := by
  cases h with
  | null => rfl
  | block hlive _ _ => simp [realloc, hlive]

theorem Backs.realloc_frees {addr : ℕ} (h : Backs heap (some addr) n xs) (bytes : UInt64) :
    realloc heap (some addr) bytes .frees = some (none, Function.update heap addr none) := by
  obtain ⟨block, hlive⟩ := h.live
  simp [realloc, hlive]

/-- A successful `realloc` gives a block of the slots asked for, and keeps the
elements there is room for. -/
theorem Backs.realloc_gives (h : Backs heap items n xs) (bytes : UInt64)
    (hroom : xs.length ≤ slots bytes) (addr : ℕ) :
    ∃ heap' block, realloc heap items bytes (.gives addr) = some (some addr, heap') ∧
      heap' addr = some block ∧ block.length = slots bytes ∧ xs.map some <+: block := by
  cases h with
  | null =>
    exact ⟨_, _, rfl, Function.update_self .., List.length_replicate, List.nil_prefix⟩
  | @block old _ block _ hlive _ hxs =>
    refine ⟨Function.update (Function.update heap old none) addr
        (some (resize block (slots bytes))), _, ?_, Function.update_self .., length_resize .., ?_⟩
    · rw [realloc, hlive]
      rfl
    · exact prefix_resize hxs hroom

/-- A backed block can be freed. -/
theorem Backs.free (h : Backs heap items n xs) : free heap items = some (beside heap items) := by
  cases h with
  | null => rfl
  | block hlive _ _ => simp [Blocks.free, beside, hlive]

end Backs

section Beside
variable {heap heap' : Heap α} {items : Option ℕ}

theorem beside_malloc {bytes : UInt64} {outcome : Outcome}
    (hnew : ∀ addr, outcome = .gives addr → heap addr = none) :
    beside (malloc heap bytes outcome).2 (malloc heap bytes outcome).1 = heap := by
  cases outcome with
  | gives addr =>
    rw [malloc, beside, Function.update_idem, Function.update_eq_self_iff, hnew addr rfl]
  | fails => rfl
  | frees => rfl

theorem beside_store {i : ℕ} {x : α} (h : store heap items i x = some heap') :
    beside heap' items = beside heap items := by
  cases items with
  | none => contradiction
  | some addr =>
    rw [store, Option.bind_some] at h
    obtain ⟨block, _, hstored⟩ := Option.bind_eq_some_iff.mp h
    split_ifs at hstored
    obtain rfl := Option.some.inj hstored
    rw [beside, beside, Function.update_idem]

/-- A `realloc` that is permitted touches no other block, whatever it returns. -/
theorem beside_realloc {bytes : UInt64} {outcome : Outcome} {items' : Option ℕ}
    (h : realloc heap items bytes outcome = some (items', heap'))
    (hperm : Permits heap items bytes outcome) :
    beside heap' (items'.or items) = beside heap items := by
  cases items with
  | none =>
    obtain ⟨rfl, rfl⟩ := Prod.mk.inj (Option.some.inj h)
    rw [Option.or_none]
    exact beside_malloc fun addr hgives => by
      subst hgives
      exact hperm.resolve_right nofun
  | some addr =>
    rw [realloc] at h
    obtain ⟨block, hlive, hmade⟩ := Option.map_eq_some_iff.mp h
    cases outcome with
    | fails =>
      obtain ⟨rfl, rfl⟩ := Prod.mk.inj hmade
      rfl
    | frees =>
      obtain ⟨rfl, rfl⟩ := Prod.mk.inj hmade
      rw [Option.none_or, beside, beside, Function.update_idem]
    | gives addr' =>
      obtain ⟨rfl, rfl⟩ := Prod.mk.inj hmade
      rw [Option.some_or, beside, beside, Function.update_idem, Function.update_eq_self_iff]
      rcases hperm with hnew | hsame
      · rw [Function.update_apply, hnew, ite_self]
      · obtain rfl := Option.some.inj hsame
        rw [Function.update_self]

end Beside
end Blocks
