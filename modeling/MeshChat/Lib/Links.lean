import Mathlib.Tactic

/-!
# Doubly linked cells on a heap

A heap gives the live node at an address. `Linked` says that a list of cells
(address and data) lies on it, linked both ways, between two given neighbours.
Cells can be cut anywhere, a change elsewhere keeps them, and the three local
edits of such lists (link in, unlink, overwrite) are proved once.
-/
namespace Links

structure Node (δ : Type*) where
  data : δ
  next : Option ℕ
  prev : Option ℕ

abbrev Heap (δ : Type*) := ℕ → Option (Node δ)

variable {δ : Type*}

abbrev addrs (cells : List (ℕ × δ)) : List ℕ := cells.map (·.1)

/-- The address of the first cell, or else of what comes after them. -/
def first (cells : List (ℕ × δ)) (next : Option ℕ) : Option ℕ := (addrs cells).head?.or next

/-- The address of the last cell, or else of what comes before them. -/
def last (prev : Option ℕ) (cells : List (ℕ × δ)) : Option ℕ := (addrs cells).getLast?.or prev

@[simp] theorem first_nil (next : Option ℕ) : first ([] : List (ℕ × δ)) next = next := rfl

@[simp] theorem first_cons (a : ℕ) (x : δ) (cells : List (ℕ × δ)) (next : Option ℕ) :
    first ((a, x) :: cells) next = some a := rfl

@[simp] theorem first_append (xs ys : List (ℕ × δ)) (next : Option ℕ) :
    first (xs ++ ys) next = first xs (first ys next) := by
  cases xs <;> simp [first]

@[simp] theorem last_nil (prev : Option ℕ) : last prev ([] : List (ℕ × δ)) = prev := rfl

@[simp] theorem last_cons (a : ℕ) (x : δ) (cells : List (ℕ × δ)) (prev : Option ℕ) :
    last prev ((a, x) :: cells) = last (some a) cells := by
  simp only [last, addrs, List.map_cons, List.getLast?_cons]
  cases (List.map (·.1) cells).getLast? <;> rfl

@[simp] theorem last_append (xs ys : List (ℕ × δ)) (prev : Option ℕ) :
    last prev (xs ++ ys) = last (last prev xs) ys := by
  simp [last, Option.or_assoc]

/-- The cells lie on the heap, linked both ways between `prev` and `next`. -/
def Linked (heap : Heap δ) : Option ℕ → List (ℕ × δ) → Option ℕ → Prop
  | _, [], _ => True
  | prev, (a, x) :: cells, next =>
      heap a = some ⟨x, first cells next, prev⟩ ∧ Linked heap (some a) cells next

variable {heap heap' : Heap δ} {p q : Option ℕ} {xs ys : List (ℕ × δ)}

theorem linked_append :
    Linked heap p (xs ++ ys) q ↔ Linked heap p xs (first ys q) ∧ Linked heap (last p xs) ys q := by
  induction xs generalizing p with
  | nil => simp [Linked]
  | cons cell xs ih =>
    obtain ⟨a, x⟩ := cell
    simp [Linked, ih, and_assoc]

/-- Linked cells read nothing but their own nodes. -/
theorem Linked.frame (h : Linked heap p xs q) (hsame : ∀ a ∈ addrs xs, heap' a = heap a) :
    Linked heap' p xs q := by
  induction xs generalizing p with
  | nil => trivial
  | cons cell xs ih =>
    obtain ⟨a, x⟩ := cell
    obtain ⟨hnode, hrest⟩ := h
    exact ⟨(hsame a List.mem_cons_self).trans hnode,
      ih hrest fun b hb => hsame b (List.mem_cons_of_mem _ hb)⟩

/-- The node of a cell, between its neighbours. -/
theorem Linked.node {a : ℕ} {x : δ} (h : Linked heap p (xs ++ (a, x) :: ys) q) :
    heap a = some ⟨x, first ys q, last p xs⟩ :=
  (linked_append.mp h).2.1

theorem Linked.live (h : Linked heap p xs q) {a : ℕ} (ha : a ∈ addrs xs) : heap a ≠ none := by
  obtain ⟨⟨b, x⟩, hmem, rfl⟩ := List.mem_map.mp ha
  obtain ⟨pre, post, rfl⟩ := List.append_of_mem hmem
  rw [h.node]
  exact Option.some_ne_none _

/-- Linking a new node in between two neighbours. -/
theorem Linked.linkIn {u b new : ℕ} {s y item : δ}
    (h : Linked heap p (xs ++ (u, s) :: (b, y) :: ys) q)
    (hnodup : (addrs (xs ++ (u, s) :: (new, item) :: (b, y) :: ys)).Nodup)
    (hnew : heap' new = some ⟨item, some b, some u⟩)
    (hu : heap' u = some ⟨s, some new, last p xs⟩)
    (hb : heap' b = some ⟨y, first ys q, some new⟩)
    (hsame : ∀ a, a ≠ new → a ≠ u → a ≠ b → heap' a = heap a) :
    Linked heap' p (xs ++ (u, s) :: (new, item) :: (b, y) :: ys) q := by
  obtain ⟨hxs, -, -, hys⟩ := linked_append.mp h
  simp only [addrs, List.map_append, List.map_cons, List.nodup_append, List.nodup_cons,
    List.mem_cons, not_or] at hnodup
  obtain ⟨-, ⟨⟨-, -, hu'⟩, ⟨-, hnew'⟩, hb', -⟩, hout⟩ := hnodup
  refine linked_append.mpr ⟨hxs.frame fun a ha => ?_, hu, hnew, hb, hys.frame fun a ha => ?_⟩
  · have hne := fun c hc => hout a ha c hc
    exact hsame a (hne new (by simp)) (hne u (by simp)) (hne b (by simp))
  · exact hsame a (fun hc => hnew' (hc ▸ ha)) (fun hc => hu' (hc ▸ ha)) (fun hc => hb' (hc ▸ ha))

/-- Unlinking a node from between its neighbours. -/
theorem Linked.unlink {u b v : ℕ} {s y t : δ}
    (h : Linked heap p (xs ++ (u, s) :: (b, y) :: (v, t) :: ys) q)
    (hnodup : (addrs (xs ++ (u, s) :: (b, y) :: (v, t) :: ys)).Nodup)
    (hu : heap' u = some ⟨s, some v, last p xs⟩)
    (hv : heap' v = some ⟨t, first ys q, some u⟩)
    (hsame : ∀ a, a ≠ u → a ≠ b → a ≠ v → heap' a = heap a) :
    Linked heap' p (xs ++ (u, s) :: (v, t) :: ys) q := by
  obtain ⟨hxs, -, -, -, hys⟩ := linked_append.mp h
  simp only [addrs, List.map_append, List.map_cons, List.nodup_append, List.nodup_cons,
    List.mem_cons, not_or] at hnodup
  obtain ⟨-, ⟨⟨-, -, hu'⟩, ⟨-, hb'⟩, hv', -⟩, hout⟩ := hnodup
  refine linked_append.mpr ⟨hxs.frame fun a ha => ?_, hu, hv, hys.frame fun a ha => ?_⟩
  · have hne := fun c hc => hout a ha c hc
    exact hsame a (hne u (by simp)) (hne b (by simp)) (hne v (by simp))
  · exact hsame a (fun hc => hu' (hc ▸ ha)) (fun hc => hb' (hc ▸ ha)) (fun hc => hv' (hc ▸ ha))

/-- Overwriting the data of a node. -/
theorem Linked.overwrite {b : ℕ} {y z : δ} (h : Linked heap p (xs ++ (b, y) :: ys) q)
    (hnodup : (addrs (xs ++ (b, y) :: ys)).Nodup)
    (hb : heap' b = some ⟨z, first ys q, last p xs⟩)
    (hsame : ∀ a, a ≠ b → heap' a = heap a) :
    Linked heap' p (xs ++ (b, z) :: ys) q := by
  obtain ⟨hxs, -, hys⟩ := linked_append.mp h
  simp only [addrs, List.map_append, List.map_cons, List.nodup_append, List.nodup_cons] at hnodup
  obtain ⟨-, ⟨hb', -⟩, hout⟩ := hnodup
  refine linked_append.mpr ⟨hxs.frame fun a ha => ?_, hb, hys.frame fun a ha => ?_⟩
  · exact hsame a (hout a ha b (by simp))
  · exact hsame a fun hc => hb' (hc ▸ ha)

/-- The addresses met when a link is followed until it is NULL; `none` when that
takes more steps than the fuel or leaves the live nodes. -/
def follow (link : Node δ → Option ℕ) (heap : Heap δ) : ℕ → Option ℕ → Option (List ℕ)
  | _, none => some []
  | 0, some _ => none
  | fuel + 1, some a =>
      (heap a).bind fun node => (follow link heap fuel (link node)).map (a :: ·)

theorem Linked.follow_next (h : Linked heap p xs none) {fuel : ℕ} (hfuel : xs.length ≤ fuel) :
    follow Node.next heap fuel (first xs none) = some (addrs xs) := by
  induction xs generalizing p fuel with
  | nil => cases fuel <;> rfl
  | cons cell xs ih =>
    obtain ⟨a, x⟩ := cell
    obtain ⟨hnode, hrest⟩ := h
    cases fuel with
    | zero => simp at hfuel
    | succ fuel => simp [follow, hnode, ih hrest (by simpa using hfuel)]

theorem Linked.follow_prev (h : Linked heap none xs q) {fuel : ℕ} (hfuel : xs.length ≤ fuel) :
    follow Node.prev heap fuel (last none xs) = some (addrs xs).reverse := by
  induction xs using List.reverseRecOn generalizing q fuel with
  | nil => cases fuel <;> rfl
  | append_singleton xs cell ih =>
    obtain ⟨a, x⟩ := cell
    obtain ⟨hrest, hnode, -⟩ := linked_append.mp h
    cases fuel with
    | zero => simp at hfuel
    | succ fuel => simp [follow, hnode, ih hrest (by simpa using hfuel)]

end Links
