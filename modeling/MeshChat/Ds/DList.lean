import Mathlib.Tactic

/-!
# Doubly linked lists as the sequences they hold

The operations of `gen_dlist.c` that the rest of the program uses, on the
sequence of elements between the two sentinels. An iterator is a position; the
end iterator is the length. A node is allocated by each push, and the caller
says whether that allocation succeeds.
-/
namespace MeshChat

/-- `ListPushHead`; `none` is the NULL of a failed node allocation. -/
def listPushHead {α : Type*} (alloc : Bool) (list : List α) (item : α) : Option (List α) :=
  if alloc then some (item :: list) else none

/-- `ListPushTail`; `none` is the NULL of a failed node allocation. -/
def listPushTail {α : Type*} (alloc : Bool) (list : List α) (item : α) : Option (List α) :=
  if alloc then some (list ++ [item]) else none

/-- `ListItrForEach` from begin to end. The action may edit the element it is
given and its context; the iteration halts where it returns 0 (`false`). The
result is the list and the context afterwards and the position of the iterator
returned. -/
def listItrForEach {α σ : Type*} (action : α → σ → α × σ × Bool) :
    List α → σ → List α × σ × ℕ
  | [], s => ([], s, 0)
  | x :: xs, s =>
      let r := action x s
      if r.2.2 then
        let rest := listItrForEach action xs r.2.1
        (r.1 :: rest.1, rest.2.1, rest.2.2 + 1)
      else (r.1 :: xs, r.2.1, 0)

/-- `ListItrRemove` at a position; at the end it changes nothing. -/
def listItrRemove {α : Type*} (list : List α) (itr : ℕ) : List α := list.eraseIdx itr

section ForEach
variable {α σ : Type*} (action : α → σ → α × σ × Bool)

/-- A first part that is iterated to its end hands its context to the rest. -/
theorem listItrForEach_append_of_end (xs ys : List α) (s : σ)
    (h : (listItrForEach action xs s).2.2 = xs.length) :
    listItrForEach action (xs ++ ys) s =
      let r := listItrForEach action xs s
      let r' := listItrForEach action ys r.2.1
      (r.1 ++ r'.1, r'.2.1, xs.length + r'.2.2) := by
  induction xs generalizing s with
  | nil => simp [listItrForEach]
  | cons x xs ih =>
    cases hgo : (action x s).2.2 with
    | false => simp [listItrForEach, hgo] at h
    | true =>
      simp only [listItrForEach, hgo, if_true, List.length_cons, Nat.add_right_cancel_iff] at h
      simp only [List.cons_append, listItrForEach, hgo, if_true, ih _ h, List.length_cons,
        Prod.mk.injEq, true_and]
      omega

/-- An iteration that halts in a first part leaves the rest alone. -/
theorem listItrForEach_append_of_halt (xs ys : List α) (s : σ)
    (h : (listItrForEach action xs s).2.2 < xs.length) :
    listItrForEach action (xs ++ ys) s =
      let r := listItrForEach action xs s
      (r.1 ++ ys, r.2.1, r.2.2) := by
  induction xs generalizing s with
  | nil => simp at h
  | cons x xs ih =>
    cases hgo : (action x s).2.2 with
    | false => simp [listItrForEach, hgo]
    | true =>
      simp only [listItrForEach, hgo, if_true, List.length_cons, Nat.add_lt_add_iff_right] at h
      simp [listItrForEach, hgo, ih _ h]

/-- An action that only tests its element stops at the first that passes. -/
theorem listItrForEach_pred {p : α → Bool} (xs : List α) (s : σ)
    (hact : ∀ x s, action x s = (x, s, !p x)) :
    listItrForEach action xs s = (xs, s, xs.findIdx p) := by
  induction xs with
  | nil => rfl
  | cons x xs ih =>
    simp only [listItrForEach, hact, ih, List.findIdx_cons]
    cases p x <;> simp

end ForEach

/-- The position where `ListItrForEach` stops for an action that only tests. -/
def listItrFind {α : Type*} (p : α → Bool) (list : List α) : ℕ :=
  (listItrForEach (fun x (_ : Unit) => (x, (), !p x)) list ()).2.2

@[simp] theorem listItrFind_eq {α : Type*} (p : α → Bool) (list : List α) :
    listItrFind p list = list.findIdx p := by
  rw [listItrFind, listItrForEach_pred _ list () (fun _ _ => rfl)]

end MeshChat
