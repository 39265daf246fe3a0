import MeshChat.Ds.DList
import MeshChat.Lib.Links
import MeshChat.Lib.Objects

/-!
# The doubly linked list on the heap

`gen_dlist.c` with its nodes and links: a heap of nodes, two sentinels that are
told apart by their NULL links, iterators as node addresses. An item is a
`void *`, `none` for NULL. Each function is `none` where it follows a pointer
that is not to a live node. The list refines the sequence operations of
`MeshChat.Ds.DList` on cells, an item labelled with the address of its node.
-/
namespace MeshChat

open Links

/-- `struct List`: the addresses of the two nodes it consists of. -/
structure DList where
  head : ℕ
  tail : ℕ

namespace DList
variable {α : Type*}

def setNext (heap : Heap (Option α)) (node next : Option ℕ) : Option (Heap (Option α)) :=
  node.bind fun a => (heap a).map fun n => Function.update heap a (some { n with next })

def setPrev (heap : Heap (Option α)) (node prev : Option ℕ) : Option (Heap (Option α)) :=
  node.bind fun a => (heap a).map fun n => Function.update heap a (some { n with prev })

/-- `InsertNodeBefore`, with what `malloc` returns. -/
def insertNodeBefore (heap : Heap (Option α)) (malloc nextNode : Option ℕ) (item : Option α) :
    Option (Option ℕ × Heap (Option α)) :=
  match malloc with
  | none => some (none, heap)
  | some newNode =>
      (nextNode.bind heap).bind fun node =>
        let heap := Function.update heap newNode (some ⟨item, nextNode, node.prev⟩)
        (setNext heap node.prev (some newNode)).bind fun heap =>
          (setPrev heap nextNode (some newNode)).map fun heap => (some newNode, heap)

/-- `RemoveNode`: the data of the node, which is freed. -/
def removeNode (heap : Heap (Option α)) (nodeToRemove : Option ℕ) :
    Option (Option α × Heap (Option α)) :=
  nodeToRemove.bind fun a => (heap a).bind fun node =>
    (setNext heap node.prev node.next).bind fun heap =>
      (setPrev heap node.next node.prev).map fun heap =>
        (node.data, Function.update heap a none)

/-- `ListCreate`, with what `malloc` returns; a node takes 24 bytes, so that is
how far the tail sentinel is from the head sentinel in the allocated `List`. -/
def create (malloc : Option ℕ) : Option (DList × Heap (Option α)) :=
  malloc.map fun list =>
    (⟨list, list + 24⟩, Function.update
      (Function.update (fun _ => none) list (some ⟨none, some (list + 24), none⟩))
      (list + 24) (some ⟨none, none, some list⟩))

def pushHead (list : DList) (heap : Heap (Option α)) (malloc : Option ℕ) (item : Option α) :
    Option (Option ℕ × Heap (Option α)) :=
  (heap list.head).bind fun head => insertNodeBefore heap malloc head.next item

def pushTail (list : DList) (heap : Heap (Option α)) (malloc : Option ℕ) (item : Option α) :
    Option (Option ℕ × Heap (Option α)) :=
  insertNodeBefore heap malloc (some list.tail) item

def popHead (list : DList) (heap : Heap (Option α)) : Option (Option α × Heap (Option α)) :=
  (heap list.head).bind fun head =>
    if head.next = some list.tail then some (none, heap) else removeNode heap head.next

def popTail (list : DList) (heap : Heap (Option α)) : Option (Option α × Heap (Option α)) :=
  (heap list.tail).bind fun tail =>
    if tail.prev = some list.head then some (none, heap) else removeNode heap tail.prev

def itrBegin (list : DList) (heap : Heap (Option α)) : Option (Option ℕ) :=
  (heap list.head).map (·.next)

def itrEnd (list : DList) : ℕ := list.tail

/-- `ListItrNext` of an iterator that is not NULL. -/
def itrNext (heap : Heap (Option α)) (itr : ℕ) : Option (Option ℕ) :=
  (heap itr).map fun node => node.next.or (some itr)

/-- `ListItrPrev` of an iterator that is not NULL. -/
def itrPrev (heap : Heap (Option α)) (itr : ℕ) : Option (Option ℕ) :=
  (heap itr).bind fun node =>
    match node.prev with
    | none => some (some itr)
    | some prev => (heap prev).map fun before => if before.prev = none then some itr else some prev

/-- `ListItrGet` of an iterator that is not NULL. -/
def itrGet (heap : Heap (Option α)) (itr : ℕ) : Option (Option α) :=
  (heap itr).map fun node => if node.next = none then none else node.data

/-- `ListItrSet` of an iterator that is not NULL: the old data. -/
def itrSet (heap : Heap (Option α)) (itr : ℕ) (element : Option α) :
    Option (Option α × Heap (Option α)) :=
  (heap itr).map fun node =>
    if node.next = none then (none, heap)
    else (node.data, Function.update heap itr (some { node with data := element }))

/-- `ListItrRemove` of an iterator that is not NULL. -/
def itrRemove (heap : Heap (Option α)) (itr : ℕ) : Option (Option α × Heap (Option α)) :=
  (heap itr).bind fun node =>
    if node.next = none ∨ node.prev = none then some (none, heap) else removeNode heap (some itr)

/-- The loop of `ListItrForEach`: the context and the iterator it stops at;
`none` where it leaves the live nodes or takes more turns than the fuel. -/
def forEach {σ : Type*} (heap : Heap (Option α)) (itrEnd : ℕ)
    (action : Option α → σ → σ × Bool) : ℕ → Option ℕ → σ → Option (σ × ℕ)
  | 0, _, _ => none
  | fuel + 1, current, context =>
      current.bind fun a =>
        if a = itrEnd then some (context, a)
        else
          (heap a).bind fun node =>
            let r := action node.data context
            if r.2 then forEach heap itrEnd action fuel node.next r.1 else some (r.1, a)

/-- The cells, all at different addresses, make up the whole heap, linked both
ways between NULL and NULL. -/
structure Chain (heap : Heap (Option α)) (all : List (ℕ × Option α)) : Prop where
  linked : Linked heap none all none
  nodup : (addrs all).Nodup
  live : ∀ a, heap a ≠ none → a ∈ addrs all

/-- The sentinels around the cells of a list. -/
def whole (list : DList) (cells : List (ℕ × Option α)) : List (ℕ × Option α) :=
  (list.head, none) :: (cells ++ [(list.tail, none)])

section Chain
variable {heap : Heap (Option α)} {xs ys : List (ℕ × Option α)}

theorem setNext_eq {a : ℕ} {node : Node (Option α)} (h : heap a = some node) (next : Option ℕ) :
    setNext heap (some a) next = some (Function.update heap a (some { node with next })) := by
  simp [setNext, h]

theorem setPrev_eq {a : ℕ} {node : Node (Option α)} (h : heap a = some node) (prev : Option ℕ) :
    setPrev heap (some a) prev = some (Function.update heap a (some { node with prev })) := by
  simp [setPrev, h]

/-- A node that is linked in is a further address of the cells. -/
theorem addrs_linkIn (xs ys : List (ℕ × Option α)) (u b new : ℕ) (s y item : Option α) :
    (addrs (xs ++ (u, s) :: (new, item) :: (b, y) :: ys)).Perm
      (new :: addrs (xs ++ (u, s) :: (b, y) :: ys)) := by
  have hmiddle : (addrs xs ++ [u] ++ new :: b :: addrs ys).Perm
      (new :: (addrs xs ++ [u] ++ b :: addrs ys)) := List.perm_middle
  simpa [addrs] using hmiddle

theorem Chain.insert {u b new : ℕ} {s y : Option α}
    (h : Chain heap (xs ++ (u, s) :: (b, y) :: ys))
    (hfresh : new ∉ addrs (xs ++ (u, s) :: (b, y) :: ys)) (item : Option α) :
    ∃ heap', insertNodeBefore heap (some new) (some b) item = some (some new, heap') ∧
      Chain heap' (xs ++ (u, s) :: (new, item) :: (b, y) :: ys) := by
  have hb : heap b = some ⟨y, first ys none, some u⟩ := (linked_append.mp h.linked).2.2.1
  have hu : heap u = some ⟨s, some b, last none xs⟩ := h.linked.node
  have hdistinct := h.nodup
  have hnew := hfresh
  simp only [addrs, List.map_append, List.map_cons, List.nodup_append, List.nodup_cons,
    List.mem_append, List.mem_cons, not_or] at hdistinct hnew
  obtain ⟨-, hnu, hnb, -⟩ := hnew
  have hub : u ≠ b := hdistinct.2.1.1.1
  have hperm := addrs_linkIn xs ys u b new s y item
  have hnodup := hperm.nodup_iff.mpr (List.nodup_cons.mpr ⟨hfresh, h.nodup⟩)
  let heap₁ := Function.update heap new (some ⟨item, some b, some u⟩)
  let heap₂ := Function.update heap₁ u (some ⟨s, some new, last none xs⟩)
  have hu₁ : heap₁ u = some ⟨s, some b, last none xs⟩ :=
    (Function.update_of_ne (Ne.symm hnu) ..).trans hu
  have hb₂ : heap₂ b = some ⟨y, first ys none, some u⟩ :=
    (Function.update_of_ne hub.symm ..).trans ((Function.update_of_ne (Ne.symm hnb) ..).trans hb)
  refine ⟨Function.update heap₂ b (some ⟨y, first ys none, some new⟩), ?_, ?_, hnodup, ?_⟩
  · simp only [insertNodeBefore, Option.bind_some, hb]
    rw [setNext_eq hu₁, Option.bind_some, setPrev_eq hb₂]
    rfl
  · refine h.linked.linkIn hnodup ?_ ?_ (Function.update_self ..) fun a hanew hau hab => ?_
    · exact (Function.update_of_ne hnb ..).trans
        ((Function.update_of_ne hnu ..).trans (Function.update_self ..))
    · exact (Function.update_of_ne hub ..).trans (Function.update_self ..)
    · exact (Function.update_of_ne hab ..).trans
        ((Function.update_of_ne hau ..).trans (Function.update_of_ne hanew ..))
  · intro a ha
    rw [hperm.mem_iff, List.mem_cons]
    by_cases hab : a = b
    · exact Or.inr (by simp [hab])
    by_cases hau : a = u
    · exact Or.inr (by simp [hau])
    by_cases hanew : a = new
    · exact Or.inl hanew
    · simp only [heap₂, heap₁, Function.update_of_ne hab, Function.update_of_ne hau,
        Function.update_of_ne hanew] at ha
      exact Or.inr (h.live a ha)

theorem Chain.remove {u b v : ℕ} {s y t : Option α}
    (h : Chain heap (xs ++ (u, s) :: (b, y) :: (v, t) :: ys)) :
    ∃ heap', removeNode heap (some b) = some (y, heap') ∧
      Chain heap' (xs ++ (u, s) :: (v, t) :: ys) := by
  obtain ⟨-, hu, hb, hv, -⟩ := linked_append.mp h.linked
  have hdistinct := h.nodup
  simp only [addrs, List.map_append, List.map_cons, List.nodup_append, List.nodup_cons,
    List.mem_cons, not_or] at hdistinct
  obtain ⟨-, ⟨⟨hub, huv, -⟩, ⟨hbv, -⟩, -⟩, -⟩ := hdistinct
  have hperm := addrs_linkIn xs ys u v b s t y
  let heap₁ := Function.update heap u (some ⟨s, some v, last none xs⟩)
  let heap₂ := Function.update heap₁ v (some ⟨t, first ys none, some u⟩)
  have hv₁ : heap₁ v = some ⟨t, first ys none, some b⟩ :=
    (Function.update_of_ne (Ne.symm huv) ..).trans hv
  refine ⟨Function.update heap₂ b none, ?_, ?_, ?_, ?_⟩
  · simp only [removeNode, Option.bind_some, hb, first_cons]
    rw [setNext_eq hu, Option.bind_some, setPrev_eq hv₁]
    rfl
  · refine h.linked.unlink h.nodup ?_ ?_ fun a hau hab hav => ?_
    · exact (Function.update_of_ne hub ..).trans
        ((Function.update_of_ne huv ..).trans (Function.update_self ..))
    · exact (Function.update_of_ne (Ne.symm hbv) ..).trans (Function.update_self ..)
    · exact (Function.update_of_ne hab ..).trans
        ((Function.update_of_ne hav ..).trans (Function.update_of_ne hau ..))
  · exact (List.nodup_cons.mp (hperm.nodup_iff.mp h.nodup)).2
  · intro a ha
    by_cases hab : a = b
    · rw [hab, Function.update_self] at ha
      contradiction
    by_cases hav : a = v
    · simp [hav]
    by_cases hau : a = u
    · simp [hau]
    simp only [heap₂, heap₁, Function.update_of_ne hab, Function.update_of_ne hav,
      Function.update_of_ne hau] at ha
    exact (List.mem_cons.mp (hperm.mem_iff.mp (h.live a ha))).resolve_left hab

theorem Chain.overwrite {b : ℕ} {y : Option α} (h : Chain heap (xs ++ (b, y) :: ys))
    (z : Option α) :
    Chain (Function.update heap b (some ⟨z, first ys none, last none xs⟩))
      (xs ++ (b, z) :: ys) := by
  refine ⟨h.linked.overwrite h.nodup (Function.update_self ..)
    fun a ha => Function.update_of_ne ha .., by simpa [addrs] using h.nodup, fun a ha => ?_⟩
  by_cases hab : a = b
  · simp [hab]
  · rw [Function.update_of_ne hab] at ha
    simpa [addrs] using h.live a ha

end Chain

/-- The list and its heap hold the cells between the two sentinels. -/
def Holds (heap : Heap (Option α)) (list : DList) (cells : List (ℕ × Option α)) : Prop :=
  Chain heap (list.whole cells)

theorem create_holds {malloc : Option ℕ} {list : DList} {heap : Heap (Option α)}
    (h : create malloc = some (list, heap)) : Holds heap list [] := by
  cases malloc with
  | none => contradiction
  | some a =>
    obtain ⟨rfl, rfl⟩ := Prod.mk.inj (Option.some.inj h)
    refine ⟨⟨?_, ?_, trivial⟩, by simp [whole], ?_⟩
    · simp
    · simp
    · intro c hc
      by_contra hout
      simp only [whole, addrs, List.nil_append, List.map_cons, List.map_nil, List.mem_cons,
        List.not_mem_nil, or_false, not_or] at hout
      simp [Function.update_of_ne hout.1, Function.update_of_ne hout.2] at hc

section Holds
variable {heap : Heap (Option α)} {list : DList} {cells pre post : List (ℕ × Option α)}

/-- Some node stands before every place of the list. -/
theorem whole_cut (list : DList) (pre : List (ℕ × Option α)) :
    ∃ xs u s, ∀ post, list.whole (pre ++ post) = xs ++ (u, s) :: (post ++ [(list.tail, none)]) := by
  rcases List.eq_nil_or_concat ((list.head, none) :: pre) with hnil | ⟨xs, ⟨u, s⟩, hcut⟩
  · contradiction
  · refine ⟨xs, u, s, fun post => ?_⟩
    rw [List.concat_eq_append] at hcut
    rw [whole, List.append_assoc, ← List.cons_append, hcut]
    simp

/-- The address of the node at a place, which is the tail sentinel at the end. -/
theorem first_eq (list : DList) (post : List (ℕ × Option α)) :
    ∃ b y ys, post ++ [(list.tail, none)] = (b, y) :: ys ∧
      first post (some list.tail) = some b := by
  cases post with
  | nil => exact ⟨_, _, _, rfl, rfl⟩
  | cons cell post =>
    obtain ⟨b, y⟩ := cell
    exact ⟨b, y, _, rfl, rfl⟩

theorem Holds.insertAt (h : Holds heap list (pre ++ post)) {b new : ℕ}
    (hb : first post (some list.tail) = some b) (hfresh : new ∉ addrs (list.whole (pre ++ post)))
    (item : Option α) :
    ∃ heap', insertNodeBefore heap (some new) (some b) item = some (some new, heap') ∧
      Holds heap' list (pre ++ (new, item) :: post) := by
  obtain ⟨xs, u, s, hcut⟩ := whole_cut list pre
  obtain ⟨b', y, ys, hpost, hb'⟩ := first_eq list post
  obtain rfl := Option.some.inj (hb'.symm.trans hb)
  have hchain : Chain heap (list.whole (pre ++ post)) := h
  rw [hcut, hpost] at hchain hfresh
  obtain ⟨heap', hinsert, hchain'⟩ := hchain.insert hfresh item
  refine ⟨heap', hinsert, ?_⟩
  rw [Holds, hcut, List.cons_append, hpost]
  exact hchain'

theorem Holds.removeAt {b : ℕ} {y : Option α} (h : Holds heap list (pre ++ (b, y) :: post)) :
    ∃ heap', removeNode heap (some b) = some (y, heap') ∧ Holds heap' list (pre ++ post) := by
  obtain ⟨xs, u, s, hcut⟩ := whole_cut list pre
  obtain ⟨v, t, ys, hpost, -⟩ := first_eq list post
  have hchain : Chain heap (list.whole (pre ++ (b, y) :: post)) := h
  rw [hcut, List.cons_append, hpost] at hchain
  obtain ⟨heap', hremove, hchain'⟩ := hchain.remove
  refine ⟨heap', hremove, ?_⟩
  rw [Holds, hcut, hpost]
  exact hchain'

theorem Holds.node {b : ℕ} {y : Option α} (h : Holds heap list (pre ++ (b, y) :: post)) :
    heap b = some ⟨y, first post (some list.tail), last (some list.head) pre⟩ := by
  have hlinked : Linked heap none
      (((list.head, none) :: pre) ++ (b, y) :: (post ++ [(list.tail, none)])) none := by
    simpa [whole] using h.linked
  simpa using hlinked.node

theorem Holds.head (h : Holds heap list cells) :
    heap list.head = some ⟨none, first cells (some list.tail), none⟩ := by
  have hlinked : Linked heap none
      ([] ++ (list.head, none) :: (cells ++ [(list.tail, none)])) none := h.linked
  simpa using hlinked.node

theorem Holds.tail (h : Holds heap list cells) :
    heap list.tail = some ⟨none, none, last (some list.head) cells⟩ := by
  have hlinked : Linked heap none
      (((list.head, none) :: cells) ++ (list.tail, none) :: []) none := h.linked
  simpa using hlinked.node

theorem Holds.overwrite {b : ℕ} {y : Option α} (h : Holds heap list (pre ++ (b, y) :: post))
    (z : Option α) :
    Holds (Function.update heap b
        (some ⟨z, first post (some list.tail), last (some list.head) pre⟩)) list
      (pre ++ (b, z) :: post) := by
  have hchain : Chain heap
      (((list.head, none) :: pre) ++ (b, y) :: (post ++ [(list.tail, none)])) := by
    simpa [Holds, whole] using h
  simpa [Holds, whole] using hchain.overwrite z

theorem first_ne_none (post : List (ℕ × Option α)) (b : ℕ) : first post (some b) ≠ none := by
  cases post <;> simp [first]

theorem last_ne_none (pre : List (ℕ × Option α)) (b : ℕ) : last (some b) pre ≠ none := by
  simp [last]

end Holds

/-- The calls. One that allocates says what its `malloc` returns, `forEach` how many
turns its loop may take. -/
inductive Call (α σ : Type*) where
  | pushHead (malloc : Option ℕ) (item : Option α)
  | pushTail (malloc : Option ℕ) (item : Option α)
  | popHead
  | popTail
  | itrBegin
  | next (itr : ℕ)
  | prev (itr : ℕ)
  | get (itr : ℕ)
  | set (itr : ℕ) (element : Option α)
  | insertBefore (malloc : Option ℕ) (itr : ℕ) (element : Option α)
  | remove (itr : ℕ)
  | forEach (itr last : ℕ) (action : Option α → σ → σ × Bool) (context : σ) (turns : ℕ)

inductive Answer (α σ : Type*) where
  | itr (itr : Option ℕ)
  | data (data : Option α)
  | stopped (context : σ) (itr : ℕ)

section Calls
variable {σ : Type*}

def exec (list : DList) (heap : Heap (Option α)) :
    Call α σ → Option (Answer α σ × Heap (Option α))
  | .pushHead malloc item => (list.pushHead heap malloc item).map fun r => (.itr r.1, r.2)
  | .pushTail malloc item => (list.pushTail heap malloc item).map fun r => (.itr r.1, r.2)
  | .popHead => (list.popHead heap).map fun r => (.data r.1, r.2)
  | .popTail => (list.popTail heap).map fun r => (.data r.1, r.2)
  | .itrBegin => (list.itrBegin heap).map fun r => (.itr r, heap)
  | .next itr => (itrNext heap itr).map fun r => (.itr r, heap)
  | .prev itr => (itrPrev heap itr).map fun r => (.itr r, heap)
  | .get itr => (itrGet heap itr).map fun r => (.data r, heap)
  | .set itr element => (itrSet heap itr element).map fun r => (.data r.1, r.2)
  | .insertBefore malloc itr element =>
      (insertNodeBefore heap malloc (some itr) element).map fun r => (.itr r.1, r.2)
  | .remove itr => (itrRemove heap itr).map fun r => (.data r.1, r.2)
  | .forEach itr last action context turns =>
      (forEach heap last action turns (some itr) context).map fun r => (.stopped r.1 r.2, heap)

/-- The iterators of a list: its live nodes and the end. -/
def itrs (list : DList) (cells : List (ℕ × Option α)) : List ℕ := addrs cells ++ [list.tail]

/-- Calls on live iterators, whose allocations give new addresses and whose ranges end
at an iterator that is not before the one they begin at. -/
def MayCall (list : DList) (cells : List (ℕ × Option α)) : Call α σ → Prop
  | .pushHead malloc _ | .pushTail malloc _ => ∀ new ∈ malloc, new ∉ addrs (list.whole cells)
  | .popHead | .popTail | .itrBegin => True
  | .next itr | .prev itr | .get itr | .set itr _ | .remove itr => itr ∈ list.itrs cells
  | .insertBefore malloc itr _ =>
      (∀ new ∈ malloc, new ∉ addrs (list.whole cells)) ∧ itr ∈ list.itrs cells
  | .forEach itr last _ _ turns =>
      ∃ before range after, cells = before ++ range ++ after ∧
        (list.itrs (range ++ after)).head? = some itr ∧ (list.itrs after).head? = some last ∧
        range.length < turns

/-- What the calls answer and do on the sequence of cells. -/
inductive ListStep (list : DList) :
    List (ℕ × Option α) → Call α σ → Answer α σ → List (ℕ × Option α) → Prop
  | pushHead {cells cells' new item} : listPushHead true cells (new, item) = some cells' →
      ListStep list cells (.pushHead (some new) item) (.itr (some new)) cells'
  | pushHeadFails {cells item} : ListStep list cells (.pushHead none item) (.itr none) cells
  | pushTail {cells cells' new item} : listPushTail true cells (new, item) = some cells' →
      ListStep list cells (.pushTail (some new) item) (.itr (some new)) cells'
  | pushTailFails {cells item} : ListStep list cells (.pushTail none item) (.itr none) cells
  | popHead {a item cells} : ListStep list ((a, item) :: cells) .popHead (.data item) cells
  | popHeadEmpty : ListStep list [] .popHead (.data none) []
  | popTail {a item cells} : ListStep list (cells ++ [(a, item)]) .popTail (.data item) cells
  | popTailEmpty : ListStep list [] .popTail (.data none) []
  | itrBegin {cells} : ListStep list cells .itrBegin (.itr (list.itrs cells).head?) cells
  | next {cells i itr} : (list.itrs cells)[i]? = some itr →
      ListStep list cells (.next itr) (.itr ((list.itrs cells)[i + 1]?.or (some itr))) cells
  | prev {cells i itr} : (list.itrs cells)[i]? = some itr →
      ListStep list cells (.prev itr) (.itr (list.itrs cells)[i - 1]?) cells
  | get {cells itr item} {i : ℕ} : cells[i]? = some (itr, item) →
      ListStep list cells (.get itr) (.data item) cells
  | getEnd {cells} : ListStep list cells (.get list.tail) (.data none) cells
  | set {cells i itr item element} : cells[i]? = some (itr, item) →
      ListStep list cells (.set itr element) (.data item) (cells.set i (itr, element))
  | setEnd {cells element} : ListStep list cells (.set list.tail element) (.data none) cells
  | insertBefore {cells i new itr element} : (list.itrs cells)[i]? = some itr →
      ListStep list cells (.insertBefore (some new) itr element) (.itr (some new))
        (cells.insertIdx i (new, element))
  | insertBeforeFails {cells itr element} :
      ListStep list cells (.insertBefore none itr element) (.itr none) cells
  | remove {cells i itr item} : cells[i]? = some (itr, item) →
      ListStep list cells (.remove itr) (.data item) (listItrRemove cells i)
  | removeEnd {cells} : ListStep list cells (.remove list.tail) (.data none) cells
  | forEach {before range after itr last action context turns r stop} :
      (list.itrs (range ++ after)).head? = some itr → (list.itrs after).head? = some last →
      listItrForEach (fun cell s => (cell, action cell.2 s)) range context = r →
      (list.itrs (range ++ after))[r.2.2]? = some stop →
      ListStep list (before ++ range ++ after) (.forEach itr last action context turns)
        (.stopped r.2.1 stop) (before ++ range ++ after)

end Calls

section Exec
variable {σ : Type*} {heap : Heap (Option α)} {list : DList}
  {cells pre post : List (ℕ × Option α)} {cell : ℕ × Option α}

/-- An iterator is a place of the list. -/
theorem itrs_split {itr : ℕ} (hitr : itr ∈ list.itrs cells) :
    itr = list.tail ∨ ∃ pre item post, cells = pre ++ (itr, item) :: post := by
  rcases List.mem_append.mp hitr with hcell | htail
  · obtain ⟨⟨a, item⟩, hmem, rfl⟩ := List.mem_map.mp hcell
    obtain ⟨pre, post, hcells⟩ := List.append_of_mem hmem
    exact Or.inr ⟨pre, item, post, hcells⟩
  · exact Or.inl (List.mem_singleton.mp htail)

theorem whole_addrs (list : DList) (cells : List (ℕ × Option α)) :
    addrs (list.whole cells) = list.head :: list.itrs cells := by
  simp [whole, itrs]

theorem first_itrs (list : DList) (cells : List (ℕ × Option α)) :
    first cells (some list.tail) = (list.itrs cells).head? := by
  cases cells <;> rfl

/-- The node an iterator is at, with the cells before it. -/
theorem Holds.place (h : Holds heap list cells) {itr : ℕ} (hitr : itr ∈ list.itrs cells) :
    ∃ pre post node, cells = pre ++ post ∧ first post (some list.tail) = some itr ∧
      (list.itrs cells)[pre.length]? = some itr ∧ heap itr = some node ∧
      node.next = (list.itrs cells)[pre.length + 1]? ∧ node.prev = last (some list.head) pre := by
  rcases itrs_split hitr with rfl | ⟨pre, item, post, rfl⟩
  · exact ⟨cells, [], _, by simp, rfl, by simp [itrs], h.tail, by simp [itrs], rfl⟩
  · refine ⟨pre, (itr, item) :: post, _, rfl, rfl, by simp [itrs], h.node, ?_, rfl⟩
    simp [itrs, first_itrs, List.head?_eq_getElem?]

theorem insertIdx_length_append (pre post : List (ℕ × Option α)) (cell : ℕ × Option α) :
    (pre ++ post).insertIdx pre.length cell = pre ++ cell :: post := by
  induction pre with
  | nil => simp
  | cons a pre ih => simp [ih]

theorem Holds.pushHead (h : Holds heap list cells) {new : ℕ}
    (hfresh : new ∉ addrs (list.whole cells)) (item : Option α) :
    ∃ heap', list.pushHead heap (some new) item = some (some new, heap') ∧
      Holds heap' list ((new, item) :: cells) := by
  obtain ⟨b, -, -, -, hb⟩ := first_eq list cells
  have hcells : Holds heap list ([] ++ cells) := h
  obtain ⟨heap', hinsert, hholds⟩ := hcells.insertAt hb hfresh item
  refine ⟨heap', ?_, hholds⟩
  rw [DList.pushHead, h.head, Option.bind_some, hb, hinsert]

theorem Holds.pushTail (h : Holds heap list cells) {new : ℕ}
    (hfresh : new ∉ addrs (list.whole cells)) (item : Option α) :
    ∃ heap', list.pushTail heap (some new) item = some (some new, heap') ∧
      Holds heap' list (cells ++ [(new, item)]) := by
  have hcells : Holds heap list (cells ++ []) := by simpa using h
  exact hcells.insertAt rfl (by simpa using hfresh) item

theorem Holds.popHead {a : ℕ} {item : Option α} (h : Holds heap list ((a, item) :: cells)) :
    ∃ heap', list.popHead heap = some (item, heap') ∧ Holds heap' list cells := by
  have hne : a ≠ list.tail := by
    have := h.nodup
    simp only [whole, addrs, List.map_cons, List.map_append, List.cons_append, List.nodup_cons,
      List.mem_append] at this
    rintro rfl
    exact this.2.1 (Or.inr (by simp))
  have hcells : Holds heap list ([] ++ (a, item) :: cells) := h
  obtain ⟨heap', hremove, hholds⟩ := hcells.removeAt
  refine ⟨heap', ?_, hholds⟩
  rw [DList.popHead, h.head, Option.bind_some, first_cons, if_neg (by simpa using hne), hremove]

theorem Holds.popTail {a : ℕ} {item : Option α} (h : Holds heap list (cells ++ [(a, item)])) :
    ∃ heap', list.popTail heap = some (item, heap') ∧ Holds heap' list cells := by
  have hne : a ≠ list.head := by
    have := h.nodup
    simp only [whole, addrs, List.map_cons, List.map_append, List.nodup_cons,
      List.mem_append] at this
    rintro rfl
    exact this.1 (by simp)
  obtain ⟨heap', hremove, hholds⟩ := h.removeAt
  refine ⟨heap', ?_, by simpa using hholds⟩
  rw [DList.popTail, h.tail, Option.bind_some, last_append, last_cons, last_nil,
    if_neg (by simpa using hne), hremove]

/-- Pops of an empty list and calls on the end iterator change nothing. -/
theorem Holds.popHead_empty (h : Holds heap list []) : list.popHead heap = some (none, heap) := by
  rw [DList.popHead, h.head, Option.bind_some, first_nil, if_pos rfl]

theorem Holds.popTail_empty (h : Holds heap list []) : list.popTail heap = some (none, heap) := by
  rw [DList.popTail, h.tail, Option.bind_some, last_nil, if_pos rfl]

theorem Holds.set_end (h : Holds heap list cells) (element : Option α) :
    itrSet heap list.tail element = some (none, heap) := by
  rw [itrSet, h.tail, Option.map_some, if_pos rfl]

theorem Holds.remove_end (h : Holds heap list cells) :
    itrRemove heap list.tail = some (none, heap) := by
  rw [itrRemove, h.tail, Option.bind_some, if_pos (Or.inl rfl)]

theorem Holds.insertBefore (h : Holds heap list cells) {new itr : ℕ}
    (hfresh : new ∉ addrs (list.whole cells)) (hitr : itr ∈ list.itrs cells)
    (element : Option α) :
    ∃ i heap', (list.itrs cells)[i]? = some itr ∧
      insertNodeBefore heap (some new) (some itr) element = some (some new, heap') ∧
      Holds heap' list (cells.insertIdx i (new, element)) := by
  obtain ⟨pre, post, -, rfl, hfirst, hidx, -⟩ := h.place hitr
  obtain ⟨heap', hinsert, hholds⟩ := h.insertAt hfirst hfresh element
  refine ⟨pre.length, heap', hidx, hinsert, ?_⟩
  rwa [insertIdx_length_append]

theorem Holds.itrBegin (h : Holds heap list cells) :
    list.itrBegin heap = some (list.itrs cells).head? := by
  rw [DList.itrBegin, h.head, Option.map_some, first_itrs]

theorem Holds.next (h : Holds heap list cells) {itr : ℕ} (hitr : itr ∈ list.itrs cells) :
    ∃ i, (list.itrs cells)[i]? = some itr ∧
      itrNext heap itr = some ((list.itrs cells)[i + 1]?.or (some itr)) := by
  obtain ⟨pre, post, node, -, -, hidx, hnode, hnext, -⟩ := h.place hitr
  exact ⟨pre.length, hidx, by rw [itrNext, hnode, Option.map_some, hnext]⟩

/-- Before the first place there is none, and the iterator stays. -/
theorem Holds.prev (h : Holds heap list cells) {itr : ℕ} (hitr : itr ∈ list.itrs cells) :
    ∃ i, (list.itrs cells)[i]? = some itr ∧
      itrPrev heap itr = some (list.itrs cells)[i - 1]? := by
  obtain ⟨pre, post, node, hcells, -, hidx, hnode, -, hprev⟩ := h.place hitr
  refine ⟨pre.length, hidx, ?_⟩
  rcases List.eq_nil_or_concat pre with rfl | ⟨pre, ⟨a, x⟩, rfl⟩
  · simp only [itrPrev, hnode, Option.bind_some, hprev, last_nil, h.head, Option.map_some, if_true,
      List.length_nil, Nat.zero_sub]
    exact congrArg some hidx.symm
  · rw [List.concat_eq_append] at hcells hprev ⊢
    subst hcells
    have hcell : Holds heap list (pre ++ (a, x) :: post) := by simpa using h
    simp [itrPrev, hnode, hprev, hcell.node, last_ne_none, itrs]

theorem Holds.get (h : Holds heap list (pre ++ cell :: post)) :
    itrGet heap cell.1 = some cell.2 := by
  rw [itrGet, h.node, Option.map_some, if_neg (first_ne_none post _)]

theorem Holds.get_end (h : Holds heap list cells) : itrGet heap list.tail = some none := by
  rw [itrGet, h.tail, Option.map_some, if_pos rfl]

theorem Holds.forEach {range after : List (ℕ × Option α)}
    (h : Holds heap list (pre ++ range ++ after)) (action : Option α → σ → σ × Bool) (context : σ)
    {last fuel : ℕ} (hlast : (list.itrs after).head? = some last) (hfuel : range.length < fuel) :
    let r := listItrForEach (fun cell s => (cell, action cell.2 s)) range context
    ∃ itr, (list.itrs (range ++ after))[r.2.2]? = some itr ∧
      forEach heap last action fuel (list.itrs (range ++ after)).head? context =
        some (r.2.1, itr) := by
  induction range generalizing pre context fuel with
  | nil =>
    obtain ⟨fuel, rfl⟩ := Nat.exists_eq_succ_of_ne_zero (by omega : fuel ≠ 0)
    refine ⟨last, by simpa [listItrForEach, List.head?_eq_getElem?] using hlast, ?_⟩
    simp [DList.forEach, hlast, listItrForEach]
  | cons cell range ih =>
    obtain ⟨a, item⟩ := cell
    obtain ⟨fuel, rfl⟩ := Nat.exists_eq_succ_of_ne_zero (by omega : fuel ≠ 0)
    have hne : a ≠ last := by
      have hmem : last ∈ list.itrs (range ++ after) := by
        have := List.mem_of_mem_head? hlast
        simp only [itrs, List.map_append, List.append_assoc, List.mem_append] at this ⊢
        exact Or.inr this
      have hnodup := h.nodup
      rintro rfl
      simp only [whole_addrs, itrs, List.map_append, List.map_cons, List.append_assoc,
        List.cons_append, List.nodup_cons, List.nodup_append] at hnodup hmem
      exact hnodup.2.2.1.1 hmem
    have hrest : Holds heap list (pre ++ [(a, item)] ++ range ++ after) := by simpa using h
    have hcell : Holds heap list (pre ++ (a, item) :: (range ++ after)) := by simpa using h
    have hnext := ih hrest (action item context).1 (by simpa using hfuel : range.length < fuel)
    have hhead : (list.itrs ((a, item) :: range ++ after)).head? = some a := rfl
    simp only [hhead, DList.forEach, Option.bind_some, if_neg hne, hcell.node, listItrForEach,
      first_itrs]
    cases (action item context).2 with
    | false => exact ⟨a, rfl, rfl⟩
    | true => simpa [itrs] using hnext

theorem Holds.set {pre post : List (ℕ × Option α)} {itr : ℕ} {item : Option α}
    (h : Holds heap list (pre ++ (itr, item) :: post)) (element : Option α) :
    ∃ heap', itrSet heap itr element = some (item, heap') ∧
      Holds heap' list (pre ++ (itr, element) :: post) := by
  refine ⟨_, ?_, h.overwrite element⟩
  rw [itrSet, h.node, Option.map_some, if_neg (first_ne_none post _)]

theorem Holds.remove {pre post : List (ℕ × Option α)} {itr : ℕ} {item : Option α}
    (h : Holds heap list (pre ++ (itr, item) :: post)) :
    ∃ heap', itrRemove heap itr = some (item, heap') ∧ Holds heap' list (pre ++ post) := by
  obtain ⟨heap', hremove, hholds⟩ := h.removeAt
  refine ⟨heap', ?_, hholds⟩
  rw [itrRemove, h.node, Option.bind_some,
    if_neg (not_or.mpr ⟨first_ne_none post _, last_ne_none pre _⟩), hremove]

/-- No call faults, and every call does what it does on the cells. -/
theorem Holds.exec (h : Holds heap list cells) (call : Call α σ)
    (hmay : list.MayCall cells call) :
    ∃ answer heap' cells', list.exec heap call = some (answer, heap') ∧
      ListStep list cells call answer cells' ∧ Holds heap' list cells' := by
  cases call with
  | pushHead malloc item =>
    cases malloc with
    | none =>
      exact ⟨_, heap, _, by rw [DList.exec, DList.pushHead, h.head]; rfl, .pushHeadFails, h⟩
    | some new =>
      obtain ⟨heap', hpush, hholds⟩ := h.pushHead (hmay new rfl) item
      exact ⟨_, heap', _, by rw [DList.exec, hpush]; rfl, .pushHead rfl, hholds⟩
  | pushTail malloc item =>
    cases malloc with
    | none => exact ⟨_, heap, _, rfl, .pushTailFails, h⟩
    | some new =>
      obtain ⟨heap', hpush, hholds⟩ := h.pushTail (hmay new rfl) item
      exact ⟨_, heap', _, by rw [DList.exec, hpush]; rfl, .pushTail rfl, hholds⟩
  | popHead =>
    cases cells with
    | nil => exact ⟨_, heap, _, by rw [DList.exec, h.popHead_empty]; rfl, .popHeadEmpty, h⟩
    | cons cell cells =>
      obtain ⟨heap', hpop, hholds⟩ := h.popHead
      exact ⟨_, heap', _, by rw [DList.exec, hpop]; rfl, .popHead, hholds⟩
  | popTail =>
    rcases List.eq_nil_or_concat cells with rfl | ⟨cells, ⟨a, item⟩, rfl⟩
    · exact ⟨_, heap, _, by rw [DList.exec, h.popTail_empty]; rfl, .popTailEmpty, h⟩
    · rw [List.concat_eq_append] at h ⊢
      obtain ⟨heap', hpop, hholds⟩ := h.popTail
      exact ⟨_, heap', _, by rw [DList.exec, hpop]; rfl, .popTail, hholds⟩
  | itrBegin => exact ⟨_, heap, _, by rw [DList.exec, h.itrBegin]; rfl, .itrBegin, h⟩
  | next itr =>
    obtain ⟨i, hidx, hnext⟩ := h.next hmay
    exact ⟨_, heap, _, by rw [DList.exec, hnext]; rfl, .next hidx, h⟩
  | prev itr =>
    obtain ⟨i, hidx, hprev⟩ := h.prev hmay
    exact ⟨_, heap, _, by rw [DList.exec, hprev]; rfl, .prev hidx, h⟩
  | get itr =>
    rcases itrs_split hmay with rfl | ⟨pre, item, post, rfl⟩
    · exact ⟨_, heap, _, by rw [DList.exec, h.get_end]; rfl, .getEnd, h⟩
    · have hidx : (pre ++ (itr, item) :: post)[pre.length]? = some (itr, item) := by simp
      exact ⟨_, heap, _, by rw [DList.exec, h.get]; rfl, .get hidx, h⟩
  | set itr element =>
    rcases itrs_split hmay with rfl | ⟨pre, item, post, rfl⟩
    · exact ⟨_, heap, _, by rw [DList.exec, h.set_end]; rfl, .setEnd, h⟩
    · obtain ⟨heap', hset, hholds⟩ := h.set element
      have hidx : (pre ++ (itr, item) :: post)[pre.length]? = some (itr, item) := by simp
      refine ⟨_, heap', _, by rw [DList.exec, hset]; rfl, .set hidx, ?_⟩
      rwa [List.set_append_right _ _ le_rfl, Nat.sub_self, List.set_cons_zero]
  | insertBefore malloc itr element =>
    cases malloc with
    | none => exact ⟨_, heap, _, rfl, .insertBeforeFails, h⟩
    | some new =>
      obtain ⟨i, heap', hidx, hinsert, hholds⟩ := h.insertBefore (hmay.1 new rfl) hmay.2 element
      exact ⟨_, heap', _, by rw [DList.exec, hinsert]; rfl, .insertBefore hidx, hholds⟩
  | remove itr =>
    rcases itrs_split hmay with rfl | ⟨pre, item, post, rfl⟩
    · exact ⟨_, heap, _, by rw [DList.exec, h.remove_end]; rfl, .removeEnd, h⟩
    · obtain ⟨heap', hremove, hholds⟩ := h.remove
      have hidx : (pre ++ (itr, item) :: post)[pre.length]? = some (itr, item) := by simp
      refine ⟨_, heap', _, by rw [DList.exec, hremove]; rfl, .remove hidx, ?_⟩
      rw [listItrRemove, List.eraseIdx_append_of_length_le le_rfl]
      simpa using hholds
  | forEach itr last action context turns =>
    obtain ⟨before, range, after, rfl, hfirst, hlast, hturns⟩ := hmay
    obtain ⟨stop, hstop, hloop⟩ := h.forEach action context hlast hturns
    exact ⟨_, heap, _, by rw [DList.exec, ← hfirst, hloop]; rfl, .forEach hfirst hlast rfl hstop, h⟩

end Exec

section Reads
variable {σ : Type*} {heap : Heap (Option α)} {list : DList} {cells pre post : List (ℕ × Option α)}

/-- What can be read of a list: its nodes are distinct and are met in order by
the next links and in reverse by the prev links, an iterator gives the item of
its cell, the ends stay where they are, and iteration visits the items. -/
structure Reads (σ : Type*) (heap : Heap (Option α)) (list : DList)
    (cells : List (ℕ × Option α)) : Prop where
  distinct : (list.head :: list.itrs cells).Nodup
  forward : ∀ fuel, cells.length + 2 ≤ fuel →
    follow Node.next heap fuel (some list.head) = some (list.head :: list.itrs cells)
  backward : ∀ fuel, cells.length + 2 ≤ fuel →
    follow Node.prev heap fuel (some list.tail) = some (list.head :: list.itrs cells).reverse
  get : ∀ cell ∈ cells, itrGet heap cell.1 = some cell.2
  first_itr : list.itrBegin heap = some (list.itrs cells).head?
  prev_begin : ∀ b, list.itrBegin heap = some (some b) → itrPrev heap b = some (some b)
  next_end : itrNext heap list.itrEnd = some (some list.itrEnd)
  remove_end : itrRemove heap list.itrEnd = some (none, heap)
  pop_empty : cells = [] →
    list.popHead heap = some (none, heap) ∧ list.popTail heap = some (none, heap)
  forEach : ∀ (action : Option α → σ → σ × Bool) (context : σ) (fuel : ℕ), cells.length < fuel →
    let r := listItrForEach (fun cell s => (cell, action cell.2 s)) cells context
    ∃ itr, (list.itrs cells)[r.2.2]? = some itr ∧
      forEach heap list.itrEnd action fuel (list.itrs cells).head? context = some (r.2.1, itr)

theorem Holds.reads (σ : Type*) (h : Holds heap list cells) : Reads σ heap list cells where
  distinct := whole_addrs list cells ▸ h.nodup
  forward fuel hfuel := by
    rw [← whole_addrs]
    exact h.linked.follow_next (by simp [whole]; omega)
  backward fuel hfuel := by
    have hlast : last none (list.whole cells) = some list.tail := by simp [whole]
    rw [← whole_addrs, ← hlast]
    exact h.linked.follow_prev (by simp [whole]; omega)
  get cell hcell := by
    obtain ⟨pre, post, rfl⟩ := List.append_of_mem hcell
    exact h.get
  first_itr := h.itrBegin
  prev_begin b hb := by
    rw [DList.itrBegin, h.head, Option.map_some, Option.some_inj] at hb
    cases cells with
    | nil =>
      obtain rfl := Option.some.inj hb
      simp [itrPrev, h.tail, h.head]
    | cons cell cells =>
      obtain rfl := Option.some.inj hb
      have hcell : Holds heap list ([] ++ cell :: cells) := h
      simp [itrPrev, hcell.node, h.head]
  next_end := by
    rw [itrNext, itrEnd, h.tail]
    rfl
  remove_end := h.remove_end
  pop_empty := by
    rintro rfl
    exact ⟨h.popHead_empty, h.popTail_empty⟩
  forEach action context fuel hfuel := by
    have hcells : Holds heap list ([] ++ cells ++ []) := by simpa using h
    simpa [itrEnd] using hcells.forEach action context rfl hfuel

/-- The node that a call removes or writes to. -/
def Touches (cells : List (ℕ × Option α)) : Call α σ → ℕ → Prop
  | .popHead, a => first cells none = some a
  | .popTail, a => last none cells = some a
  | .set itr _, a | .remove itr, a => a = itr
  | _, _ => False

/-- Iterators to the other nodes keep denoting the same element. -/
theorem ListStep.keeps {call : Call α σ} {answer : Answer α σ} {cells' : List (ℕ × Option α)}
    (h : ListStep list cells call answer cells') {cell : ℕ × Option α} (hcell : cell ∈ cells)
    (huntouched : ¬ Touches cells call cell.1) : cell ∈ cells' := by
  cases h with
  | pushHead hpush =>
    obtain rfl := Option.some.inj hpush
    exact List.mem_cons_of_mem _ hcell
  | pushTail hpush =>
    obtain rfl := Option.some.inj hpush
    exact List.mem_append_left _ hcell
  | popHead =>
    refine (List.mem_cons.mp hcell).resolve_left fun hc => huntouched ?_
    simp [Touches, hc]
  | popTail =>
    refine (List.mem_append.mp hcell).resolve_right fun hc => huntouched ?_
    simp [Touches, List.mem_singleton.mp hc]
  | @insertBefore cells i new itr element hi =>
    have hle : i ≤ cells.length := by
      have := (List.getElem?_eq_some_iff.mp hi).1
      simp only [itrs, addrs, List.length_append, List.length_map, List.length_singleton] at this
      omega
    exact (List.mem_insertIdx hle).mpr (Or.inr hcell)
  | @set cells i itr item element hi =>
    obtain ⟨j, hj, rfl⟩ := List.mem_iff_getElem.mp hcell
    have hne : i ≠ j := by
      rintro rfl
      rw [List.getElem?_eq_getElem hj] at hi
      exact huntouched (by rw [Option.some.inj hi]; rfl)
    refine List.mem_iff_getElem.mpr ⟨j, by simpa using hj, ?_⟩
    rw [List.getElem_set_ne hne]
  | @remove cells i itr item hi =>
    obtain ⟨j, hj, rfl⟩ := List.mem_iff_getElem.mp hcell
    have hne : j ≠ i := by
      rintro rfl
      rw [List.getElem?_eq_getElem hj] at hi
      exact huntouched (by rw [Option.some.inj hi]; rfl)
    exact List.mem_eraseIdx_iff_getElem?.mpr ⟨j, hne, List.getElem?_eq_getElem hj⟩
  | pushHeadFails | pushTailFails | popHeadEmpty | popTailEmpty | itrBegin | next | prev | get
  | getEnd | setEnd | insertBeforeFails | removeEnd | forEach => exact hcell

theorem ListStep.eq_of_pushTail {new : ℕ} {item : Option α} {answer : Answer α σ}
    {cells' : List (ℕ × Option α)}
    (h : ListStep list cells (.pushTail (some new) item) answer cells') :
    cells' = cells ++ [(new, item)] := by
  cases h with
  | pushTail hpush => exact (Option.some.inj hpush).symm

theorem ListStep.eq_of_insertBefore {new itr : ℕ} {element : Option α} {answer : Answer α σ}
    {cells' : List (ℕ × Option α)}
    (h : ListStep list cells (.insertBefore (some new) itr element) answer cells') :
    ∃ i, (list.itrs cells)[i]? = some itr ∧ cells' = cells.insertIdx i (new, element) := by
  cases h with
  | insertBefore hi => exact ⟨_, hi, rfl⟩

/-- The calls that only look at the list. -/
def Call.Looks : Call α σ → Prop
  | .itrBegin | .next _ | .prev _ | .get _ | .forEach .. => True
  | _ => False

theorem ListStep.eq_of_looks {call : Call α σ} {answer : Answer α σ}
    {cells' : List (ℕ × Option α)} (h : ListStep list cells call answer cells')
    (hlooks : call.Looks) : cells' = cells := by
  cases h with
  | itrBegin | next | prev | get | getEnd | forEach => rfl
  | _ => exact hlooks.elim

end Reads

/-- Whatever is called on a created list, the heap holds the sequence that the
calls should yield, and everything that can be read of the list reads it. -/
theorem calls_refine_sequence (σ : Type*) {malloc : Option ℕ} {list : DList}
    {heap : Heap (Option α)} (hcreate : create malloc = some (list, heap))
    {calls : List (Call α σ)} (hlegal : Objects.Legal (ListStep list) list.MayCall [] calls) :
    ∃ answers heap' cells, Objects.serve list.exec heap calls = some (answers, heap') ∧
      Objects.Allowed (ListStep list) [] calls answers cells ∧
      Reads σ heap' list cells ∧
      ∀ (call : Call α σ) answer cells', ListStep list cells call answer cells' →
        ∀ cell ∈ cells, ¬ Touches cells call cell.1 → cell ∈ cells' := by
  obtain ⟨answers, heap', cells, hserve, hallowed, hholds⟩ :=
    Objects.serve_refines (fun _ _ call h => Holds.exec h call) (create_holds hcreate) hlegal
  exact ⟨answers, heap', cells, hserve, hallowed, hholds.reads σ,
    fun _ _ _ hstep _ hcell => hstep.keeps hcell⟩

/-- Two items are pushed and one inserted between them; two iterators move and are
read, the items are added up, and the first of them is removed through its iterator. -/
theorem push_remove_refines_sequence :
    let calls : List (Call ℕ ℕ) :=
      [.pushTail (some 48) (some 5), .pushTail (some 72) (some 6),
        .insertBefore (some 96) 72 (some 7), .next 48, .prev 72, .get 96,
        .forEach 48 24 (fun item sum => (sum + item.getD 0, true)) 0 4, .remove 48]
    ∃ list heap, create (some 0) = some (list, heap) ∧ ∃ answers heap' cells,
      Objects.serve list.exec heap calls = some (answers, heap') ∧
      Objects.Allowed (ListStep list) [] calls answers cells ∧
      Reads ℕ heap' list cells := by
  intro calls
  refine ⟨⟨0, 24⟩, _, rfl, ?_⟩
  have hlegal : Objects.Legal (ListStep ⟨0, 24⟩) (DList.MayCall ⟨0, 24⟩) [] calls := by
    refine ⟨by simp [MayCall, whole], fun _ _ hpush => ?_⟩
    obtain rfl := hpush.eq_of_pushTail
    refine ⟨by simp [MayCall, whole], fun _ _ hpush => ?_⟩
    obtain rfl := hpush.eq_of_pushTail
    refine ⟨by simp [MayCall, whole, itrs], fun _ _ hinsert => ?_⟩
    obtain ⟨i, hi, rfl⟩ := hinsert.eq_of_insertBefore
    obtain rfl : i = 1 := by
      rcases i with _ | _ | _ | i <;> simp_all [itrs]
    refine ⟨(by decide : 48 ∈ [48, 96, 72, 24]), fun _ _ hnext => ?_⟩
    obtain rfl := hnext.eq_of_looks trivial
    refine ⟨(by decide : 72 ∈ [48, 96, 72, 24]), fun _ _ hprev => ?_⟩
    obtain rfl := hprev.eq_of_looks trivial
    refine ⟨(by decide : 96 ∈ [48, 96, 72, 24]), fun _ _ hget => ?_⟩
    obtain rfl := hget.eq_of_looks trivial
    refine ⟨⟨[], [(48, some 5), (96, some 7), (72, some 6)], [], rfl, rfl, rfl, by decide⟩,
      fun _ _ hforEach => ?_⟩
    obtain rfl := hforEach.eq_of_looks trivial
    exact ⟨(by decide : 48 ∈ [48, 96, 72, 24]), fun _ _ _ => trivial⟩
  obtain ⟨answers, heap', cells, hserve, hallowed, hreads, -⟩ :=
    calls_refine_sequence ℕ (show create (some 0) = some (⟨0, 24⟩, _) from rfl) hlegal
  exact ⟨answers, heap', cells, hserve, hallowed, hreads⟩

end DList
end MeshChat
