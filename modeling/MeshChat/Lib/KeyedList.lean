import Mathlib.Data.List.Perm.Basic
import Mathlib.Data.List.Nodup
import Mathlib.Tactic

/-!
# Lists searched and edited by a test that one element passes

Facts about searching a list for an element and dropping or replacing it there,
when at most one element passes the test, in particular when a key function
takes different values on different positions.
-/
namespace KeyedList
variable {α κ : Type*}

/-- At most one position passes `p`. -/
def Unique (p : α → Bool) (l : List α) : Prop :=
  l.Pairwise fun a b => ¬ (p a = true ∧ p b = true)

theorem getElem?_findIdx (p : α → Bool) (l : List α) : l[l.findIdx p]? = l.find? p := by
  induction l with
  | nil => rfl
  | cons x l ih => cases h : p x <;> simp [List.findIdx_cons, h, ih]

/-- Dropping the first element that passes drops the only one. -/
theorem eraseIdx_findIdx {p : α → Bool} {l : List α} (h : Unique p l) :
    l.eraseIdx (l.findIdx p) = l.filter fun x => !p x := by
  induction l with
  | nil => rfl
  | cons x l ih =>
    obtain ⟨hx, hl⟩ := List.pairwise_cons.mp h
    cases hp : p x with
    | false => simp [List.findIdx_cons, hp, ih hl]
    | true =>
      have hrest : ∀ y ∈ l, p y = false := fun y hy => by simpa [hp] using hx y hy
      simp only [List.findIdx_cons, hp, cond_true, List.eraseIdx_zero, List.tail_cons,
        Bool.not_true, Bool.false_eq_true, not_false_eq_true, List.filter_cons_of_neg]
      exact (List.filter_eq_self.mpr fun y hy => by simp [hrest y hy]).symm

variable {key : α → κ}

/-- Under distinct keys at most one element has key `k`. -/
theorem length_le_one (key : α → κ) {l : List α} (h : (l.map key).Nodup) {k : κ} (hk : ∀ x ∈ l, key x = k) :
    l.length ≤ 1 := by
  match l with
  | [] => exact Nat.zero_le 1
  | [x] => exact le_rfl
  | x :: y :: l =>
    have hxy : key x = key y := (hk x List.mem_cons_self).trans
      (hk y (List.mem_cons_of_mem _ List.mem_cons_self)).symm
    rw [List.map_cons, List.map_cons, List.nodup_cons] at h
    exact absurd (hxy ▸ List.mem_cons_self) h.1

variable [DecidableEq κ]

theorem unique_key {l : List α} (h : (l.map key).Nodup) (k : κ) :
    Unique (fun x => decide (key x = k)) l := by
  refine (List.pairwise_map.mp h).imp fun {a b} hab hk => hab ?_
  simp only [decide_eq_true_eq] at hk
  exact hk.1.trans hk.2.symm

/-- Under distinct keys a search finds exactly the element with the key. -/
theorem find?_eq_some_iff {l : List α} (h : (l.map key).Nodup) {k : κ} {x : α} :
    l.find? (fun y => decide (key y = k)) = some x ↔ x ∈ l ∧ key x = k := by
  constructor
  · intro hf
    exact ⟨List.mem_of_find?_eq_some hf, by simpa using List.find?_some hf⟩
  · rintro ⟨hx, hk⟩
    obtain ⟨y, hy⟩ : ∃ y, l.find? (fun y => decide (key y = k)) = some y := by
      refine Option.isSome_iff_exists.mp (List.find?_isSome.mpr ⟨x, hx, by simpa using hk⟩)
    have hyk : key y = k := by simpa using List.find?_some hy
    rw [hy, List.inj_on_of_nodup_map h (List.mem_of_find?_eq_some hy) hx (hyk.trans hk.symm)]

theorem find?_eq_none_iff {l : List α} {k : κ} :
    l.find? (fun y => decide (key y = k)) = none ↔ ∀ x ∈ l, key x ≠ k := by
  simp

/-- The list is its element with key `k` and the others. -/
theorem perm_cons_filter (key : α → κ) {l : List α} (h : (l.map key).Nodup) {x : α} (hx : x ∈ l) :
    l.Perm (x :: l.filter fun y => decide (key y ≠ key x)) := by
  induction l with
  | nil => cases hx
  | cons y l ih =>
    obtain ⟨hy, hl⟩ := List.nodup_cons.mp h
    by_cases hxy : key y = key x
    · obtain rfl : x = y := List.inj_on_of_nodup_map h hx List.mem_cons_self hxy.symm
      have hrest : l.filter (fun z => decide (key z ≠ key x)) = l := by
        apply List.filter_eq_self.mpr
        intro z hz
        exact decide_eq_true fun hzx => hy (hzx ▸ List.mem_map_of_mem hz)
      rw [List.filter_cons_of_neg (by simp), hrest]
    · have hxl : x ∈ l := (List.mem_cons.mp hx).resolve_left fun he => hxy (he ▸ rfl)
      have hkeep : (y :: l).filter (fun z => decide (key z ≠ key x)) =
          y :: l.filter fun z => decide (key z ≠ key x) := by simp [hxy]
      rw [hkeep]
      exact ((ih hl hxl).cons y).trans (List.Perm.swap _ _ _)

/-- The list with the elements of key `k` edited. -/
def edit (key : α → κ) (k : κ) (f : α → α) (l : List α) : List α :=
  l.map fun x => if key x = k then f x else x

section Edit
variable {k : κ} {f : α → α} {l : List α}

theorem mem_edit {y : α} :
    y ∈ edit key k f l ↔ ∃ x ∈ l, y = if key x = k then f x else x := by
  simp only [edit, List.mem_map, eq_comm]

/-- An edit that keeps a feature of every edited element keeps it everywhere. -/
theorem map_edit {β : Type*} {g : α → β} (h : ∀ x ∈ l, key x = k → g (f x) = g x) :
    (edit key k f l).map g = l.map g := by
  rw [edit, List.map_map]
  apply List.map_congr_left
  intro x hx
  by_cases hk : key x = k
  · simp [hk, h x hx hk]
  · simp [hk]

theorem edit_of_fixed (h : ∀ x ∈ l, key x = k → f x = x) : edit key k f l = l := by
  refine (List.map_congr_left fun x hx => ?_).trans (List.map_id l)
  by_cases hk : key x = k
  · rw [if_pos hk, h x hx hk, id]
  · rw [if_neg hk, id]

theorem edit_of_notMem (h : ∀ x ∈ l, key x ≠ k) : edit key k f l = l :=
  edit_of_fixed fun x hx hk => absurd hk (h x hx)

/-- Under distinct keys an edit depends on the one edited element only. -/
theorem edit_congr (key : α → κ) (h : (l.map key).Nodup) {g : α → α} {x : α} (hx : x ∈ l) (hfg : f x = g x) :
    edit key (key x) f l = edit key (key x) g l := by
  apply List.map_congr_left
  intro y hy
  by_cases hk : key y = key x
  · rw [List.inj_on_of_nodup_map h hy hx hk, hfg]
  · rw [if_neg hk, if_neg hk]

/-- Dropping the edited element forgets the edit. -/
theorem filter_edit (h : ∀ x ∈ l, key x = k → key (f x) = k) :
    (edit key k f l).filter (fun x => decide (key x ≠ k)) =
      l.filter fun x => decide (key x ≠ k) := by
  induction l with
  | nil => rfl
  | cons x l ih =>
    have hrest := ih fun y hy => h y (List.mem_cons_of_mem _ hy)
    rw [edit] at hrest ⊢
    by_cases hk : key x = k
    · simpa [hk, h x List.mem_cons_self hk] using hrest
    · simpa [hk] using hrest

theorem edit_append_cons {front back : List α} {x : α} (hx : key x = k)
    (hf : ∀ y ∈ front, key y ≠ k) (hb : ∀ y ∈ back, key y ≠ k) :
    edit key k f (front ++ x :: back) = front ++ f x :: back := by
  have hfront := edit_of_notMem (f := f) hf
  have hback := edit_of_notMem (f := f) hb
  simp only [edit] at hfront hback ⊢
  rw [List.map_append, List.map_cons, hfront, hback, if_pos hx]

end Edit

end KeyedList
