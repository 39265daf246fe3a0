import Mathlib.Tactic

/-!
# Arrays filled from the front

An array of fixed size keeps a list in its first cells and a blank value in all
the others. Appending writes the first blank cell. Erasing shifts the cells
behind the gap to the left, one by one, and blanks the last of them.
-/
namespace FrontArray
variable {α : Type*} {blank : α} {items cells : List α}

/-- The cells hold the items in order, and blanks behind them. -/
def Holds (blank : α) (items cells : List α) : Prop :=
  ∃ free, cells = items ++ List.replicate free blank

theorem holds_nil (blank : α) (size : ℕ) : Holds blank [] (List.replicate size blank) :=
  ⟨size, (List.nil_append _).symm⟩

namespace Holds

theorem length_le (h : Holds blank items cells) : items.length ≤ cells.length := by
  obtain ⟨free, rfl⟩ := h
  rw [List.length_append]
  exact Nat.le_add_right _ _

theorem take (h : Holds blank items cells) : cells.take items.length = items := by
  obtain ⟨free, rfl⟩ := h
  exact List.take_left

theorem getD (h : Holds blank items cells) (i : ℕ) : cells.getD i blank = items.getD i blank := by
  obtain ⟨free, rfl⟩ := h
  by_cases hi : i < items.length
  · simp [List.getElem?_append_left hi]
  · rw [not_lt] at hi
    simp only [List.getD_eq_getElem?_getD, List.getElem?_append_right hi,
      List.getElem?_eq_none hi, List.getElem?_replicate]
    split <;> rfl

/-- Every cell behind the items is blank. -/
theorem blank_of_le (h : Holds blank items cells) {i : ℕ} (hi : items.length ≤ i)
    (hlt : i < cells.length) : cells[i]? = some blank := by
  obtain ⟨free, rfl⟩ := h
  rw [List.length_append, List.length_replicate] at hlt
  rw [List.getElem?_append_right hi, List.getElem?_replicate, if_pos (by omega)]

/-- Writing the first blank cell appends. -/
theorem append (h : Holds blank items cells) (hroom : items.length < cells.length) (x : α) :
    Holds blank (items ++ [x]) (cells.set items.length x) := by
  obtain ⟨free, rfl⟩ := h
  rw [List.length_append, List.length_replicate] at hroom
  obtain ⟨rest, rfl⟩ : ∃ rest, free = rest + 1 := ⟨free - 1, by omega⟩
  refine ⟨rest, ?_⟩
  rw [List.set_append_right _ _ le_rfl, Nat.sub_self, List.replicate_succ, List.set_cons_zero,
    List.append_assoc, List.singleton_append]

end Holds

/-- `left` cells from `i` on each take the value of the next one. -/
def shift (blank : α) (cells : List α) : ℕ → ℕ → List α
  | 0, _ => cells
  | left + 1, i => shift blank (cells.set i (cells.getD (i + 1) blank)) left (i + 1)

@[simp] theorem shift_length (blank : α) (cells : List α) (left i : ℕ) :
    (shift blank cells left i).length = cells.length := by
  induction left generalizing cells i with
  | zero => rfl
  | succ left ih => rw [shift, ih, List.length_set]

/-- The cells behind a gap move into it, and some value is left behind them. -/
theorem shift_gap (blank : α) (front mid back : List α) (gap : α) :
    ∃ last, shift blank (front ++ gap :: (mid ++ back)) mid.length front.length =
      front ++ mid ++ last :: back := by
  induction mid generalizing front gap with
  | nil => exact ⟨gap, by simp [shift]⟩
  | cons x mid ih =>
    obtain ⟨last, hlast⟩ := ih (front ++ [x]) x
    refine ⟨last, ?_⟩
    have hnext : (front ++ gap :: (x :: mid ++ back)).getD (front.length + 1) blank = x := by
      simp
    have hset : (front ++ gap :: (x :: mid ++ back)).set front.length x =
        front ++ [x] ++ x :: (mid ++ back) := by
      rw [List.set_append_right _ _ le_rfl, Nat.sub_self, List.set_cons_zero]
      simp
    rw [List.length_cons, shift, hnext, hset]
    rw [List.length_append, List.length_singleton] at hlast
    rw [hlast]
    simp

/-- Blanking a cell, shifting the others over it and blanking the last erases. -/
theorem Holds.erase (h : Holds blank items cells) {i : ℕ} (hi : i < items.length) (closed : α) :
    Holds blank (items.eraseIdx i)
      ((shift blank (cells.set i closed) (items.length - 1 - i) i).set (items.length - 1)
        blank) := by
  obtain ⟨free, rfl⟩ := h
  obtain ⟨front, x, mid, rfl, rfl⟩ : ∃ front x mid, items = front ++ x :: mid ∧
      i = front.length := by
    refine ⟨items.take i, items[i], items.drop (i + 1), ?_, ?_⟩
    · rw [← List.drop_eq_getElem_cons hi, List.take_append_drop]
    · rw [List.length_take, min_eq_left hi.le]
  obtain ⟨last, hlast⟩ := shift_gap blank front mid (List.replicate free blank) closed
  refine ⟨free + 1, ?_⟩
  have hset : (front ++ x :: mid ++ List.replicate free blank).set front.length closed =
      front ++ closed :: (mid ++ List.replicate free blank) := by
    rw [List.append_assoc, List.set_append_right _ _ le_rfl, Nat.sub_self, List.cons_append,
      List.set_cons_zero]
  have hleft : (front ++ x :: mid).length - 1 - front.length = mid.length := by
    rw [List.length_append, List.length_cons]
    omega
  have hend : (front ++ x :: mid).length - 1 = (front ++ mid).length := by
    rw [List.length_append, List.length_cons, List.length_append]
    omega
  rw [hset, hleft, hlast, hend, List.set_append_right _ _ le_rfl, Nat.sub_self, List.set_cons_zero,
    List.eraseIdx_append_of_length_le le_rfl, Nat.sub_self, List.eraseIdx_cons_zero,
    List.replicate_succ]

end FrontArray
