import MeshChat.Ds.DListHeap
import MeshChat.Lib.Frames

/-!
# Lists beside other data

A heap holds a list and whatever else the program has allocated. Each function
of `gen_dlist.c` is local: it reads and writes the nodes of its list and the node
it allocates, so what it does on a heap of its own it does here, and the rest
stays. `ListDestroy` gives back all that the list has taken.
-/
namespace MeshChat
namespace DList

open Links Frames

variable {α : Type*}

/-- `ListCreate` in a heap that has other data. -/
def createIn (heap : Heap (Option α)) (malloc : Option ℕ) : Option DList × Heap (Option α) :=
  match malloc with
  | none => (none, heap)
  | some list =>
      (some ⟨list, list + 24⟩, Function.update
        (Function.update heap list (some ⟨none, some (list + 24), none⟩))
        (list + 24) (some ⟨none, none, some list⟩))

/-- The loop of `ListDestroy`: every node up to the tail sentinel is freed after
its data, unless that is NULL, went to the element destroyer. -/
def destroyNodes {σ : Type*} (tail : ℕ) (elementDestroy : α → σ → σ) :
    ℕ → Option ℕ → Heap (Option α) → σ → Option (σ × Heap (Option α))
  | 0, _, _, _ => none
  | fuel + 1, current, heap, s =>
      current.bind fun a =>
        if a = tail then some (s, heap)
        else
          (heap a).bind fun node =>
            let s := node.data.elim s fun item => elementDestroy item s
            destroyNodes tail elementDestroy fuel node.next (Function.update heap a none) s

/-- `ListDestroy`; a NULL element destroyer is one that does nothing. -/
def destroy {σ : Type*} (list : DList) (elementDestroy : α → σ → σ) (fuel : ℕ)
    (heap : Heap (Option α)) (s : σ) : Option (σ × Heap (Option α)) :=
  (heap list.head).bind fun head =>
    (destroyNodes list.tail elementDestroy fuel head.next heap s).map fun r =>
      (r.1, Function.update (Function.update r.2 list.head none) list.tail none)

/-- The loop of `ListSize`. -/
def countNodes (tail : ℕ) (heap : Heap (Option α)) : ℕ → Option ℕ → ℕ → Option ℕ
  | 0, _, _ => none
  | fuel + 1, current, count =>
      current.bind fun a =>
        if a = tail then some count
        else (heap a).bind fun node => countNodes tail heap fuel node.next (count + 1)

/-- `ListSize`. -/
def size (list : DList) (fuel : ℕ) (heap : Heap (Option α)) : Option ℕ :=
  (heap list.head).bind fun head => countNodes list.tail heap fuel head.next 0

/-- `ListIsEmpty`. -/
def isEmpty (list : DList) (heap : Heap (Option α)) : Option Bool :=
  (heap list.head).map fun head => decide (head.next = some list.tail)

/-- `ListSize` counts what `ListItrForEach` visits. -/
theorem countNodes_eq_forEach (tail : ℕ) (heap : Heap (Option α)) (fuel : ℕ) (current : Option ℕ)
    (count : ℕ) :
    countNodes tail heap fuel current count =
      (forEach heap tail (fun _ n => (n + 1, true)) fuel current count).map (·.1) := by
  induction fuel generalizing current count with
  | zero => rfl
  | succ fuel ih =>
    cases current with
    | none => rfl
    | some a =>
      simp only [countNodes, forEach, Option.bind_some]
      by_cases ha : a = tail
      · rw [if_pos ha, if_pos ha, Option.map_some]
      · rw [if_neg ha, if_neg ha, Option.map_bind]
        simp only [ih, if_true, Function.comp_def]

section Local
variable {new : Set ℕ}

theorem setNext_local (node next : Option ℕ) :
    LocalStep new fun heap : Heap (Option α) => setNext heap node next := by
  cases node with
  | none => exact fun _ _ _ _ _ _ he => by simp [setNext] at he
  | some a => exact LocalStep.overwrite fun n : Node (Option α) => some { n with next := next }

theorem setPrev_local (node prev : Option ℕ) :
    LocalStep new fun heap : Heap (Option α) => setPrev heap node prev := by
  cases node with
  | none => exact fun _ _ _ _ _ _ he => by simp [setPrev] at he
  | some a => exact LocalStep.overwrite fun n : Node (Option α) => some { n with prev := prev }

theorem insertNodeBefore_local {malloc : Option ℕ} (hnew : ∀ a, malloc = some a → a ∈ new)
    (nextNode : Option ℕ) (item : Option α) :
    Local new fun heap => insertNodeBefore heap malloc nextNode item := by
  cases malloc with
  | none => exact Local.ret none
  | some a =>
    cases nextNode with
    | none => exact fun _ _ _ _ _ _ _ he => by simp [insertNodeBefore] at he
    | some b =>
      have hlink : ∀ node : Node (Option α), Local (insert b new) fun heap : Heap (Option α) =>
          (setNext heap node.prev (some a)).bind fun heap =>
            (setPrev heap (some b) (some a)).map fun heap => (some a, heap) := by
        intro node
        refine Local.step (setNext_local node.prev (some a)) ?_
        simpa only [Option.map_eq_bind, Function.comp_def] using
          Local.step (setPrev_local (some b) (some a)) (Local.ret (some a))
      exact Local.read fun node => Local.write (Set.mem_insert_of_mem b (hnew a rfl)) _ (hlink node)

theorem removeNode_local (nodeToRemove : Option ℕ) :
    Local new fun heap : Heap (Option α) => removeNode heap nodeToRemove := by
  cases nodeToRemove with
  | none => exact fun _ _ _ _ _ _ _ he => by simp [removeNode] at he
  | some a =>
    refine Local.read fun node => Local.step (setNext_local node.prev node.next) ?_
    have hfree : Local (insert a new) fun heap : Heap (Option α) =>
        some (node.data, Function.update heap a none) :=
      Local.write (Set.mem_insert a new) none (Local.ret node.data)
    simpa only [Option.map_eq_bind, Function.comp_def] using Local.step (setPrev_local node.next node.prev) hfree

variable (list : DList)

theorem pushHead_local {malloc : Option ℕ} (hnew : ∀ a, malloc = some a → a ∈ new)
    (item : Option α) : Local new fun heap => list.pushHead heap malloc item :=
  Local.read fun head => insertNodeBefore_local
    (fun a ha => Set.mem_insert_of_mem _ (hnew a ha)) head.next item

theorem popHead_local : Local new fun heap : Heap (Option α) => list.popHead heap :=
  Local.read fun head => Local.ite (Local.ret none) (removeNode_local head.next)

theorem popTail_local : Local new fun heap : Heap (Option α) => list.popTail heap :=
  Local.read fun tail => Local.ite (Local.ret none) (removeNode_local tail.prev)

theorem itrSet_local (itr : ℕ) (element : Option α) :
    Local new fun heap => itrSet heap itr element := by
  have hset : ∀ node : Node (Option α), Local (insert itr new) fun heap =>
      if node.next = none then some (none, heap)
      else some (node.data, Function.update heap itr (some { node with data := element })) :=
    fun node => Local.ite (Local.ret none)
      (Local.write (Set.mem_insert itr new) _ (Local.ret node.data))
  refine (Local.read hset).congr fun heap => ?_
  rw [itrSet]
  cases heap itr with
  | none => rfl
  | some node => simp only [Option.bind_some, Option.map_some]; split <;> rfl

theorem itrRemove_local (itr : ℕ) : Local new fun heap : Heap (Option α) => itrRemove heap itr :=
  Local.read fun _ => Local.ite (Local.ret none) (removeNode_local (some itr))

theorem itrPrev_local (itr : ℕ) : LocalRead fun heap : Heap (Option α) => itrPrev heap itr := by
  refine LocalRead.read fun node => ?_
  cases node.prev with
  | none => exact LocalRead.ret (some (some itr))
  | some prev => exact LocalRead.node _

theorem forEach_local {σ : Type*} (itrEnd : ℕ) (action : Option α → σ → σ × Bool) (fuel : ℕ)
    (current : Option ℕ) (context : σ) :
    LocalRead fun heap => forEach heap itrEnd action fuel current context := by
  induction fuel generalizing current context with
  | zero => exact LocalRead.ret none
  | succ fuel ih =>
    cases current with
    | none => exact LocalRead.ret none
    | some a =>
      exact LocalRead.ite (LocalRead.ret _) (LocalRead.read fun node =>
        LocalRead.ite (ih node.next _) (LocalRead.ret _))

/-- The addresses that a call allocates. -/
def Call.allocates {σ : Type*} : Call α σ → Set ℕ
  | .pushHead malloc _ | .pushTail malloc _ | .insertBefore malloc _ _ => {new | new ∈ malloc}
  | _ => ∅

theorem exec_local {σ : Type*} (call : Call α σ) : Local call.allocates (list.exec · call) := by
  cases call with
  | pushHead malloc item => exact (list.pushHead_local (fun _ ha => ha) item).map Answer.itr
  | pushTail malloc item =>
    exact (insertNodeBefore_local (fun _ ha => ha) (some list.tail) item).map Answer.itr
  | popHead => exact list.popHead_local.map Answer.data
  | popTail => exact list.popTail_local.map Answer.data
  | itrBegin => exact LocalRead.act (LocalRead.node _) Answer.itr
  | next itr => exact LocalRead.act (LocalRead.node _) Answer.itr
  | prev itr => exact (itrPrev_local itr).act Answer.itr
  | get itr => exact LocalRead.act (LocalRead.node _) Answer.data
  | set itr element => exact (itrSet_local itr element).map Answer.data
  | insertBefore malloc itr element =>
    exact (insertNodeBefore_local (fun _ ha => ha) (some itr) element).map Answer.itr
  | remove itr => exact (itrRemove_local itr).map Answer.data
  | forEach itr last action context turns =>
    exact (forEach_local last action turns (some itr) context).act fun r => Answer.stopped r.1 r.2

theorem countNodes_local (tail fuel : ℕ) (current : Option ℕ) (count : ℕ) :
    LocalRead fun heap : Heap (Option α) => countNodes tail heap fuel current count := by
  intro whole part rest hparts r he
  simp only [countNodes_eq_forEach] at he ⊢
  obtain ⟨x, hx, rfl⟩ := Option.map_eq_some_iff.mp he
  have hwhole := forEach_local tail (fun (_ : Option α) n => (n + 1, true)) fuel current count hparts hx
  simp only [hwhole, Option.map_some]

theorem size_local (fuel : ℕ) : LocalRead fun heap : Heap (Option α) => list.size fuel heap :=
  LocalRead.read fun head => countNodes_local list.tail fuel head.next 0

theorem isEmpty_local : LocalRead fun heap : Heap (Option α) => list.isEmpty heap :=
  LocalRead.node _

theorem destroyNodes_local {σ : Type*} (tail : ℕ) (elementDestroy : α → σ → σ) (fuel : ℕ)
    (current : Option ℕ) (s : σ) :
    Local new fun heap => destroyNodes tail elementDestroy fuel current heap s := by
  induction fuel generalizing new current s with
  | zero => exact fun _ _ _ _ _ _ _ he => by simp [destroyNodes] at he
  | succ fuel ih =>
    cases current with
    | none => exact fun _ _ _ _ _ _ _ he => by simp [destroyNodes] at he
    | some a =>
      refine Local.ite (Local.ret s) (Local.read fun node => ?_)
      exact Local.write (Set.mem_insert a new) none (ih _ _)

theorem destroy_local {σ : Type*} (elementDestroy : α → σ → σ) (fuel : ℕ) (s : σ) :
    Local {list.head, list.tail} fun heap => list.destroy elementDestroy fuel heap s := by
  have hfree : ∀ s : σ, Local {list.head, list.tail} fun heap : Heap (Option α) =>
      some (s, Function.update (Function.update heap list.head none) list.tail none) :=
    fun s => Local.write (by simp) none (Local.write (by simp) none (Local.ret s))
  refine Local.read fun head => ?_
  simp only [Set.insert_eq_of_mem (Set.mem_insert list.head {list.tail})]
  refine ((destroyNodes_local list.tail elementDestroy fuel head.next s).bind hfree).congr
    fun heap => ?_
  rw [Option.map_eq_bind]
  rfl

end Local

section Loops
variable {σ : Type*} {heap : Heap (Option α)} {list : DList} {cells : List (ℕ × Option α)}

theorem listItrForEach_count (cells : List (ℕ × Option α)) (count : ℕ) :
    (listItrForEach (fun cell n => (cell, n + 1, true)) cells count).2.1 = count + cells.length := by
  induction cells generalizing count with
  | nil => rfl
  | cons cell cells ih =>
    simp only [listItrForEach, if_true, ih, List.length_cons]
    omega

theorem Holds.size (h : Holds heap list cells) {fuel : ℕ} (hfuel : cells.length < fuel) :
    list.size fuel heap = some cells.length := by
  obtain ⟨itr, -, hloop⟩ := (h.reads ℕ).forEach (fun _ n => (n + 1, true)) 0 fuel hfuel
  rw [DList.size, h.head, Option.bind_some, first_itrs, countNodes_eq_forEach]
  rw [itrEnd, listItrForEach_count] at hloop
  simp [hloop]

theorem Holds.isEmpty (h : Holds heap list cells) : list.isEmpty heap = some cells.isEmpty := by
  rw [DList.isEmpty, h.head, Option.map_some]
  cases cells with
  | nil => simp
  | cons cell cells =>
    have hne : cell.1 ≠ list.tail := by
      have hnodup := h.nodup
      simp only [whole, addrs, List.map_cons, List.map_append, List.cons_append, List.nodup_cons,
        List.mem_append] at hnodup
      intro he
      exact hnodup.2.1 (Or.inr (by simp [he]))
    obtain ⟨a, item⟩ := cell
    simpa using hne

/-- What the element destroyer is handed: the items that are not NULL. -/
def destroyed (elementDestroy : α → σ → σ) (cells : List (ℕ × Option α)) (s : σ) : σ :=
  cells.foldl (fun s cell => cell.2.elim s fun item => elementDestroy item s) s

theorem destroyNodes_linked (elementDestroy : α → σ → σ) {prev : Option ℕ} {tail fuel : ℕ}
    (h : Linked heap prev (cells ++ [(tail, none)]) none)
    (hnodup : (addrs (cells ++ [(tail, none)])).Nodup) (hfuel : cells.length < fuel) (s : σ) :
    destroyNodes tail elementDestroy fuel (first cells (some tail)) heap s =
      some (destroyed elementDestroy cells s, fun a => if a ∈ addrs cells then none else heap a) := by
  induction cells generalizing heap prev fuel s with
  | nil =>
    obtain ⟨fuel, rfl⟩ := Nat.exists_eq_succ_of_ne_zero (by omega : fuel ≠ 0)
    simp [destroyNodes, destroyed]
  | cons cell cells ih =>
    obtain ⟨a, item⟩ := cell
    obtain ⟨fuel, rfl⟩ := Nat.exists_eq_succ_of_ne_zero (by omega : fuel ≠ 0)
    obtain ⟨hnode, hrest⟩ := h
    obtain ⟨hout, hnodup⟩ := List.nodup_cons.mp hnodup
    have hne : a ≠ tail := fun he => hout (by simp [he])
    have hrest' : Linked (Function.update heap a none) (some a) (cells ++ [(tail, none)]) none := by
      refine hrest.frame fun b hb => Function.update_of_ne ?_ ..
      rintro rfl
      exact hout hb
    have hnext := ih hrest' hnodup (by simpa using hfuel) (item.elim s fun x => elementDestroy x s)
    have hnode' : heap a = some ⟨item, first cells (some tail), prev⟩ := by
      simpa using (hnode : heap a = some ⟨item, first (cells ++ [(tail, none)]) none, prev⟩)
    simp only [destroyNodes, first_cons, Option.bind_some, if_neg hne, hnode', hnext]
    refine congrArg some (Prod.ext rfl (funext fun b => ?_))
    have hmem : b ∈ addrs ((a, item) :: cells) ↔ b = a ∨ b ∈ addrs cells := List.mem_cons
    dsimp only
    by_cases hb : b = a
    · rw [if_pos (hmem.mpr (Or.inl hb)), hb, Function.update_self, ite_self]
    · rw [Function.update_of_ne hb]
      by_cases hcell : b ∈ addrs cells
      · rw [if_pos hcell, if_pos (hmem.mpr (Or.inr hcell))]
      · rw [if_neg hcell, if_neg fun hc => (hmem.mp hc).elim hb hcell]

/-- `ListDestroy` hands the items over in order and leaves nothing. -/
theorem Holds.destroy (h : Holds heap list cells) (elementDestroy : α → σ → σ) {fuel : ℕ}
    (hfuel : cells.length < fuel) (s : σ) :
    list.destroy elementDestroy fuel heap s =
      some (destroyed elementDestroy cells s, fun _ => none) := by
  have hnodup : (addrs (cells ++ [(list.tail, none)])).Nodup := (List.nodup_cons.mp h.nodup).2
  rw [DList.destroy, h.head, Option.bind_some,
    destroyNodes_linked elementDestroy h.linked.2 hnodup hfuel, Option.map_some]
  refine congrArg some (Prod.ext rfl (funext fun a => ?_))
  dsimp only
  by_cases htail : a = list.tail
  · simp [htail]
  by_cases hhead : a = list.head
  · rw [Function.update_of_ne htail, hhead, Function.update_self]
  rw [Function.update_of_ne htail, Function.update_of_ne hhead]
  split
  · rfl
  · rename_i hcell
    by_contra hlive
    have hmem := h.live a hlive
    rw [whole_addrs, List.mem_cons, itrs, List.mem_append, List.mem_singleton] at hmem
    tauto

end Loops

/-- The list takes up one part of the heap. -/
def Lies (heap : Heap (Option α)) (list : DList) (cells : List (ℕ × Option α)) : Prop :=
  ∃ part rest, Parts heap part rest ∧ Holds part list cells

section Lies
variable {σ ρ : Type*} {heap heap' : Heap (Option α)} {list : DList} {cells : List (ℕ × Option α)}

theorem Holds.live_iff (h : Holds heap list cells) (a : ℕ) :
    heap a ≠ none ↔ a ∈ addrs (list.whole cells) :=
  ⟨h.live a, Linked.live h.linked⟩

/-- A list stays where nothing is written to its nodes. -/
theorem Lies.congr (h : Lies heap list cells)
    (hsame : ∀ a ∈ addrs (list.whole cells), heap' a = heap a) : Lies heap' list cells := by
  obtain ⟨part, rest, hparts, hholds⟩ := h
  refine ⟨part, fun a => if a ∈ addrs (list.whole cells) then none else heap' a, fun a => ?_, hholds⟩
  dsimp only
  by_cases ha : a ∈ addrs (list.whole cells)
  · rw [if_pos ha, hsame a ha]
    rcases hparts a with ⟨-, hwhole⟩ | ⟨hdead, -⟩
    · exact Or.inl ⟨rfl, hwhole⟩
    · exact absurd hdead (Linked.live hholds.linked ha)
  · rw [if_neg ha]
    exact Or.inr ⟨not_not.mp fun hlive => ha (hholds.live a hlive), rfl⟩

/-- What a local action does with a list on a heap of its own it does here. -/
theorem Lies.act {new : Set ℕ} {act : Heap (Option α) → Option (ρ × Heap (Option α))}
    {P : ρ → List (ℕ × Option α) → Prop} (h : Lies heap list cells) (hact : Local new act)
    (hnew : ∀ a ∈ new, heap a = none)
    (hspec : ∀ part, Holds part list cells →
      ∃ r part' cells', act part = some (r, part') ∧ P r cells' ∧ Holds part' list cells') :
    ∃ r heap' cells', act heap = some (r, heap') ∧ P r cells' ∧ Lies heap' list cells' ∧
      Trades heap heap' (addrs (list.whole cells)) (addrs (list.whole cells')) := by
  obtain ⟨part, rest, hparts, hholds⟩ := h
  obtain ⟨r, part', cells', hpart, hP, hholds'⟩ := hspec part hholds
  obtain ⟨heap', hheap, hparts'⟩ := hact hparts (fun a ha => (hparts.free (hnew a ha)).2) hpart
  exact ⟨r, heap', cells', hheap, hP, ⟨part', rest, hparts', hholds'⟩,
    .of_parts hparts hparts' hholds.live_iff hholds'.live_iff hholds'.nodup⟩

/-- The same for an action that allocates nothing. -/
theorem Lies.actInPlace {act : Heap (Option α) → Option (ρ × Heap (Option α))}
    {P : ρ → List (ℕ × Option α) → Prop} (h : Lies heap list cells) (hact : Local ∅ act)
    (hspec : ∀ part, Holds part list cells →
      ∃ r part' cells', act part = some (r, part') ∧ P r cells' ∧ Holds part' list cells') :
    ∃ r heap' cells', act heap = some (r, heap') ∧ P r cells' ∧ Lies heap' list cells' ∧
      Trades heap heap' (addrs (list.whole cells)) (addrs (list.whole cells')) :=
  h.act hact nofun hspec

theorem Lies.read {get : Heap (Option α) → Option ρ} (h : Lies heap list cells)
    (hget : LocalRead get) {r : ρ} (hspec : ∀ part, Holds part list cells → get part = some r) :
    get heap = some r := by
  obtain ⟨part, rest, hparts, hholds⟩ := h
  exact hget hparts (hspec part hholds)

theorem Lies.node {pre post : List (ℕ × Option α)} {b : ℕ} {y : Option α}
    (h : Lies heap list (pre ++ (b, y) :: post)) :
    heap b = some ⟨y, first post (some list.tail), last (some list.head) pre⟩ := by
  obtain ⟨part, rest, hparts, hholds⟩ := h
  exact hparts.read hholds.node

theorem Lies.live (h : Lies heap list cells) {a : ℕ} (ha : a ∈ addrs (list.whole cells)) :
    heap a ≠ none := by
  obtain ⟨part, rest, hparts, hholds⟩ := h
  obtain ⟨node, hnode⟩ := Option.ne_none_iff_exists'.mp (Linked.live hholds.linked ha)
  simp [hparts.read hnode]

theorem Lies.itrBegin (h : Lies heap list cells) :
    list.itrBegin heap = some (first cells (some list.tail)) := by
  obtain ⟨part, rest, hparts, hholds⟩ := h
  rw [DList.itrBegin, hparts.read hholds.head, Option.map_some]

/-- An iteration from begin to end goes over the cells. -/
theorem Lies.forEach (h : Lies heap list cells) (action : Option α → σ → σ × Bool) (context : σ)
    {fuel : ℕ} (hfuel : cells.length < fuel) :
    ∃ itr, DList.forEach heap list.itrEnd action fuel (first cells (some list.tail)) context =
      some ((listItrForEach (fun cell s => (cell, action cell.2 s)) cells context).2.1, itr) := by
  obtain ⟨part, rest, hparts, hholds⟩ := h
  obtain ⟨itr, -, hloop⟩ := (hholds.reads σ).forEach action context fuel hfuel
  rw [first_itrs]
  exact ⟨itr, forEach_local list.itrEnd action fuel _ context hparts hloop⟩

/-- An iterator of the list is at a cell or at the end. -/
theorem Lies.itr_ne_end {pre post : List (ℕ × Option α)} {b : ℕ} {y : Option α}
    (h : Lies heap list (pre ++ (b, y) :: post)) : b ≠ list.itrEnd := by
  obtain ⟨part, rest, hparts, hholds⟩ := h
  have hnodup := hholds.nodup
  rintro rfl
  simp [whole, itrEnd, List.nodup_append] at hnodup

/-- The list's nodes go, and nothing else. -/
theorem Lies.destroy (h : Lies heap list cells) (elementDestroy : α → σ → σ) {fuel : ℕ}
    (hfuel : cells.length < fuel) (s : σ) :
    ∃ heap', list.destroy elementDestroy fuel heap s =
        some (destroyed elementDestroy cells s, heap') ∧
      Trades heap heap' (addrs (list.whole cells)) [] := by
  obtain ⟨part, rest, hparts, hholds⟩ := h
  have hown : ∀ a ∈ ({list.head, list.tail} : Set ℕ), rest a = none := by
    rintro a (rfl | rfl)
    · exact hparts.rest_none (by simp [hholds.head])
    · exact hparts.rest_none (by simp [hholds.tail])
  obtain ⟨heap', hheap, hparts'⟩ := list.destroy_local elementDestroy fuel s hparts hown
    (hholds.destroy elementDestroy hfuel s)
  exact ⟨heap', hheap, .of_parts hparts hparts' hholds.live_iff (by simp) List.nodup_nil⟩

theorem createIn_lies (heap : Heap (Option α)) {a : ℕ} (ha : heap a = none)
    (ha' : heap (a + 24) = none) :
    ∃ heap', createIn heap (some a) = (some ⟨a, a + 24⟩, heap') ∧ Lies heap' ⟨a, a + 24⟩ [] ∧
      Trades heap heap' [] (addrs (DList.whole (α := α) ⟨a, a + 24⟩ [])) := by
  obtain ⟨part, hcreate⟩ : ∃ part, create (α := α) (some a) = some (⟨a, a + 24⟩, part) := ⟨_, rfl⟩
  have hholds := create_holds hcreate
  obtain ⟨-, rfl⟩ := Prod.mk.inj (Option.some.inj hcreate)
  have hparts := ((Parts.of_empty heap).update ha (some ⟨none, some (a + 24), none⟩)).update ha'
    (some ⟨none, none, some a⟩)
  exact ⟨_, rfl, ⟨_, heap, hparts, hholds⟩,
    .of_parts (Parts.of_empty heap) hparts (by simp) hholds.live_iff hholds.nodup⟩

end Lies

section Beside
variable {σ τ : Type*} {frame heap : Heap (Option α)} {list : DList} {cells : List (ℕ × Option α)}

/-- The calls that may be made; what they allocate is free in the frame, too. -/
def MayCallBeside (frame : Heap (Option α)) (list : DList) (cells : List (ℕ × Option α))
    (call : Call α σ) : Prop :=
  list.MayCall cells call ∧ ∀ a ∈ call.allocates, frame a = none

/-- The heap is the frame and a list. -/
structure Beside (heap frame : Heap (Option α)) (list : DList) (cells : List (ℕ × Option α)) :
    Prop where
  lies : Lies heap list cells
  owns : Owns heap frame (addrs (list.whole cells))

theorem MayCallBeside.fresh {call : Call α σ} (hmay : MayCallBeside frame list cells call)
    (h : Beside heap frame list cells) : ∀ a ∈ call.allocates, heap a = none := by
  intro a ha
  have hout : a ∉ addrs (list.whole cells) := by
    cases call with
    | pushHead | pushTail => exact hmay.1 a ha
    | insertBefore => exact hmay.1.1 a ha
    | _ => exact absurd ha (Set.notMem_empty a)
  rw [h.owns.same a hout]
  exact hmay.2 a ha

theorem Beside.exec (h : Beside heap frame list cells) (call : Call α σ)
    (hmay : MayCallBeside frame list cells call) :
    ∃ answer heap' cells', list.exec heap call = some (answer, heap') ∧
      ListStep list cells call answer cells' ∧ Beside heap' frame list cells' := by
  obtain ⟨answer, heap', cells', hexec, hstep, hlies, htrade⟩ :=
    h.lies.act (list.exec_local call) (hmay.fresh h) fun part hpart => hpart.exec call hmay.1
  have howns : Owns heap frame ([] ++ addrs (list.whole cells) ++ []) := by simpa using h.owns
  exact ⟨answer, heap', cells', hexec, hstep, hlies, by simpa using howns.trade htrade⟩

/-- A list that is created among other data answers all calls as a sequence does,
leaves the other data alone, counts its elements, and is destroyed without a trace:
the element destroyer gets the elements that are not NULL in order, and the heap is
what it was before. -/
theorem create_destroy_restores (frame : Heap (Option α)) {a : ℕ} (ha : frame a = none)
    (ha' : frame (a + 24) = none) {calls : List (Call α σ)}
    (hlegal : Objects.Legal (ListStep ⟨a, a + 24⟩) (MayCallBeside frame ⟨a, a + 24⟩) [] calls) :
    ∃ list heap answers heap' cells, createIn frame (some a) = (some list, heap) ∧
      Objects.serve list.exec heap calls = some (answers, heap') ∧
      Objects.Allowed (ListStep list) [] calls answers cells ∧
      (∀ b, frame b ≠ none → heap' b = frame b) ∧
      (∀ fuel, cells.length < fuel → list.size fuel heap' = some cells.length) ∧
      list.isEmpty heap' = some cells.isEmpty ∧
      ∀ (elementDestroy : α → τ → τ) (s : τ) (fuel : ℕ), cells.length < fuel →
        list.destroy elementDestroy fuel heap' s =
          some (destroyed elementDestroy cells s, frame) := by
  obtain ⟨heap, hcreate, hlies, htrade⟩ := createIn_lies frame ha ha'
  have howns : Owns heap frame ([] ++ addrs (DList.whole (α := α) ⟨a, a + 24⟩ []) ++ []) :=
    (Owns.of_empty frame : Owns frame frame ([] ++ [] ++ [])).trade htrade
  obtain ⟨answers, heap', cells, hserve, hallowed, hbeside⟩ :=
    Objects.serve_refines (fun _ _ call h hmay => Beside.exec h call hmay)
      ⟨hlies, by simpa using howns⟩ hlegal
  refine ⟨_, heap, answers, heap', cells, hcreate, hserve, hallowed, fun b hb => ?_,
    fun fuel hfuel => ?_, ?_, fun elementDestroy s fuel hfuel => ?_⟩
  · exact hbeside.owns.same b fun hmem => hb (hbeside.owns.free b hmem)
  · exact hbeside.lies.read (size_local _ fuel) fun part hpart => hpart.size hfuel
  · exact hbeside.lies.read (isEmpty_local _) fun part hpart => hpart.isEmpty
  · obtain ⟨heap'', hdestroy, htrade'⟩ := hbeside.lies.destroy elementDestroy hfuel s
    have hgone : Owns heap' frame ([] ++ addrs (DList.whole ⟨a, a + 24⟩ cells) ++ []) := by
      simpa using hbeside.owns
    rw [hdestroy, (hgone.trade htrade').eq_frame]

/-- Beside a node at 1000 a list gets an item and a NULL one, is walked from its
begin, counted by an action, fails to grow, and loses the first. -/
theorem push_pop_restores :
    let other : Heap (Option ℕ) := fun a => if a = 1000 then some ⟨some 7, none, none⟩ else none
    let calls : List (Call ℕ ℕ) :=
      [.pushTail (some 48) (some 5), .pushTail (some 72) none, .itrBegin, .next 48, .prev 72,
        .get 48, .forEach 48 24 (fun _ n => (n + 1, true)) 0 3, .insertBefore none 72 (some 6),
        .popHead]
    ∃ list heap answers heap' cells, createIn other (some 0) = (some list, heap) ∧
      Objects.serve list.exec heap calls = some (answers, heap') ∧
      Objects.Allowed (ListStep list) [] calls answers cells ∧
      (∀ b, other b ≠ none → heap' b = other b) ∧
      (∀ fuel, cells.length < fuel → list.size fuel heap' = some cells.length) ∧
      list.isEmpty heap' = some cells.isEmpty ∧
      ∀ (elementDestroy : ℕ → List ℕ → List ℕ) (s : List ℕ) (fuel : ℕ), cells.length < fuel →
        list.destroy elementDestroy fuel heap' s =
          some (destroyed elementDestroy cells s, other) := by
  intro other calls
  refine create_destroy_restores (τ := List ℕ) other (by decide) (by decide) ?_
  have hnone : ∀ a ∈ (∅ : Set ℕ), other a = none := fun a ha => absurd ha (Set.notMem_empty a)
  have hin : ∀ itr ∈ [48, 72], itr ∈ itrs ⟨0, 24⟩ [(48, some 5), (72, (none : Option ℕ))] := by
    decide
  refine ⟨⟨by simp [MayCall, whole], by simp [Call.allocates, other]⟩, fun _ _ hpush => ?_⟩
  obtain rfl := hpush.eq_of_pushTail
  refine ⟨⟨by simp [MayCall, whole], by simp [Call.allocates, other]⟩, fun _ _ hpush => ?_⟩
  obtain rfl := hpush.eq_of_pushTail
  refine ⟨⟨trivial, hnone⟩, fun _ _ hbegin => ?_⟩
  obtain rfl := hbegin.eq_of_looks trivial
  refine ⟨⟨hin 48 (by decide), hnone⟩, fun _ _ hnext => ?_⟩
  obtain rfl := hnext.eq_of_looks trivial
  refine ⟨⟨hin 72 (by decide), hnone⟩, fun _ _ hprev => ?_⟩
  obtain rfl := hprev.eq_of_looks trivial
  refine ⟨⟨hin 48 (by decide), hnone⟩, fun _ _ hget => ?_⟩
  obtain rfl := hget.eq_of_looks trivial
  refine ⟨⟨⟨[], [(48, some 5), (72, none)], [], rfl, rfl, rfl, by decide⟩, hnone⟩,
    fun _ _ hforEach => ?_⟩
  obtain rfl := hforEach.eq_of_looks trivial
  refine ⟨⟨⟨by simp, hin 72 (by decide)⟩, by simp [Call.allocates]⟩, fun _ _ _ => ?_⟩
  exact ⟨⟨trivial, hnone⟩, fun _ _ _ => trivial⟩

end Beside
end DList
end MeshChat
