import Mathlib.Data.List.TakeWhile
import MeshChat.Lib.Runs

/-!
# Accounting for resources

A log of acquisitions and releases. A ledger replays it: only what is not held is
acquired and only what is held is released. From a ledger it follows that nothing
is released twice, and, if nothing is held in the end, that everything was
released once for every time it was acquired.
-/
namespace Resources
open Runs

/-- One use of a resource. -/
inductive Use (α : Type*) where
  | acquire (a : α)
  | release (a : α)
  deriving DecidableEq

variable {α : Type*} {log : List (Use α)} {held : Set α}

/-- The resource was acquired and not released since. -/
def Holds (log : List (Use α)) (a : α) : Prop :=
  Since (fun u => u ≠ .release a) (fun u => u = .acquire a) log

/-- Every release is of a resource that is held. -/
def ReleasesHeld (log : List (Use α)) : Prop :=
  ∀ before a after, log = before ++ .release a :: after → Holds before a

/-- How often a resource is released before it is acquired for the next time. -/
def releases [DecidableEq α] (a : α) (after : List (Use α)) : ℕ :=
  (after.takeWhile fun u => decide (u ≠ .acquire a)).count (.release a)

/-- From each acquisition to the next of the same resource there is exactly one
release of it. -/
def ReleasedOnce [DecidableEq α] (log : List (Use α)) : Prop :=
  ∀ before a after, log = before ++ .acquire a :: after → releases a after = 1

/-- Every acquired resource is released exactly once, and no other. -/
structure Accounted [DecidableEq α] (log : List (Use α)) : Prop where
  held : ReleasesHeld log
  once : ReleasedOnce log

section Releases
variable [DecidableEq α] {a : α} {after : List (Use α)}

/-- After the next acquisition nothing counts. -/
theorem releases_snoc_of_mem (h : .acquire a ∈ after) (u : Use α) :
    releases a (after ++ [u]) = releases a after := by
  have hne : (after.takeWhile fun u => decide (u ≠ .acquire a)).length ≠ after.length := by
    intro hlen
    have hall := (List.takeWhile_prefix fun u => decide (u ≠ Use.acquire a)).eq_of_length hlen
    have hmem := List.mem_takeWhile_imp (hall ▸ h)
    simp at hmem
  rw [releases, List.takeWhile_append, if_neg hne, releases]

theorem releases_snoc_of_notMem (h : .acquire a ∉ after) (u : Use α) :
    releases a (after ++ [u]) = releases a after + if u = .release a then 1 else 0 := by
  have hall : (after.takeWhile fun u => decide (u ≠ .acquire a)) = after := by
    rw [List.takeWhile_eq_self_iff]
    exact fun v hv => decide_eq_true fun he => h (he ▸ hv)
  rw [releases, List.takeWhile_append, hall, if_pos rfl, List.count_append, releases, hall]
  congr 1
  by_cases hu : u = .release a
  · subst hu
    simp
  · by_cases ha : u = .acquire a <;> simp [ha, hu]

end Releases

/-- A log that acquires only what is not held and releases only what is held, with
what is held after it. -/
inductive Ledger : List (Use α) → Set α → Prop
  | nil : Ledger [] ∅
  | acquire {log : List (Use α)} {held : Set α} {a : α} :
      Ledger log held → a ∉ held → Ledger (log ++ [.acquire a]) (insert a held)
  | release {log : List (Use α)} {held : Set α} {a : α} :
      Ledger log held → a ∈ held → Ledger (log ++ [.release a]) (held \ {a})

namespace Ledger

theorem mem_iff_holds (h : Ledger log held) (a : α) : a ∈ held ↔ Holds log a := by
  induction h with
  | nil => exact ⟨nofun, fun hs => absurd hs not_since_nil⟩
  | acquire h hfree ih =>
    rw [Holds, since_snoc_iff, ← Holds, ← ih, Set.mem_insert_iff]
    simp [eq_comm]
  | release h hheld ih =>
    rw [Holds, since_snoc_iff, ← Holds, ← ih, Set.mem_sdiff, Set.mem_singleton_iff]
    simp [eq_comm, and_comm]

theorem releasesHeld (h : Ledger log held) : ReleasesHeld log := by
  induction h with
  | nil => simp [ReleasesHeld]
  | acquire h hfree ih =>
    intro before a after he
    rcases List.eq_nil_or_concat after with rfl | ⟨after, u, rfl⟩
    · cases (List.append_inj' he rfl).2
    · rw [List.concat_eq_append, ← List.cons_append, ← List.append_assoc] at he
      exact ih before a after (List.append_inj' he rfl).1
  | release h hheld ih =>
    intro before a after he
    rcases List.eq_nil_or_concat after with rfl | ⟨after, u, rfl⟩
    · obtain ⟨rfl, ha⟩ := List.append_inj' he rfl
      obtain rfl : _ = a := by simpa using ha
      exact (h.mem_iff_holds _).mp hheld
    · rw [List.concat_eq_append, ← List.cons_append, ← List.append_assoc] at he
      exact ih before a after (List.append_inj' he rfl).1

/-- The releases after an acquisition: none yet if the resource is still held from
it, and exactly one otherwise. -/
theorem releases_eq [DecidableEq α] (h : Ledger log held) {before after : List (Use α)} {a : α}
    (he : log = before ++ .acquire a :: after) :
    (a ∈ held → .acquire a ∉ after → releases a after = 0) ∧
      (a ∉ held ∨ .acquire a ∈ after → releases a after = 1) := by
  induction h generalizing after with
  | nil => simp at he
  | @acquire log held b h hfree ih =>
    rcases List.eq_nil_or_concat after with rfl | ⟨after, u, rfl⟩
    · obtain ⟨-, hb⟩ := List.append_inj' he rfl
      obtain rfl : b = a := by simpa using hb
      exact ⟨fun _ _ => rfl, fun hor => by simp at hor⟩
    · rw [List.concat_eq_append, ← List.cons_append, ← List.append_assoc] at he
      obtain ⟨hlog, hu⟩ := List.append_inj' he rfl
      obtain rfl : _ = u := by simpa using hu
      obtain ⟨hheld, hdone⟩ := ih hlog
      rw [List.concat_eq_append]
      by_cases hmem : .acquire a ∈ after
      · rw [releases_snoc_of_mem hmem]
        exact ⟨fun _ hnot => absurd (List.mem_append_left _ hmem) hnot, fun _ => hdone (Or.inr hmem)⟩
      · rw [releases_snoc_of_notMem hmem, if_neg nofun, Nat.add_zero]
        by_cases hba : b = a
        · subst hba
          exact ⟨fun _ hnot => absurd (by simp) hnot, fun _ => hdone (Or.inl hfree)⟩
        · have hin : a ∈ insert b held ↔ a ∈ held := by simp [Ne.symm hba]
          have hlast : .acquire a ∈ after ++ [.acquire b] ↔ .acquire a ∈ after := by
            simp [Ne.symm hba]
          rw [hin, hlast]
          exact ⟨hheld, hdone⟩
  | @release log held b h hmem_held ih =>
    rcases List.eq_nil_or_concat after with rfl | ⟨after, u, rfl⟩
    · cases (List.append_inj' he rfl).2
    · rw [List.concat_eq_append, ← List.cons_append, ← List.append_assoc] at he
      obtain ⟨hlog, hu⟩ := List.append_inj' he rfl
      obtain rfl : _ = u := by simpa using hu
      obtain ⟨hheld, hdone⟩ := ih hlog
      rw [List.concat_eq_append]
      have hlast : .acquire a ∈ after ++ [.release b] ↔ .acquire a ∈ after := by simp
      by_cases hmem : .acquire a ∈ after
      · rw [releases_snoc_of_mem hmem]
        exact ⟨fun _ hnot => absurd (hlast.mpr hmem) hnot, fun _ => hdone (Or.inr hmem)⟩
      · rw [releases_snoc_of_notMem hmem]
        by_cases hba : b = a
        · subst hba
          refine ⟨fun hin => absurd rfl hin.2, fun _ => ?_⟩
          rw [hheld hmem_held hmem, if_pos rfl]
        · have hin : a ∈ held \ {b} ↔ a ∈ held := by simp [Ne.symm hba]
          rw [if_neg (by simpa using hba), Nat.add_zero, hin, hlast]
          exact ⟨hheld, hdone⟩

/-- A ledger in which nothing is left. -/
theorem accounted [DecidableEq α] (h : Ledger log ∅) : Accounted log where
  held := h.releasesHeld
  once _ a _ he := (h.releases_eq he).2 (Or.inl (Set.notMem_empty a))

/-- A resource that is still held was not released since it was acquired. -/
theorem accounted_iff [DecidableEq α] (h : Ledger log held) : Accounted log ↔ held = ∅ := by
  constructor
  · intro haccounted
    refine Set.eq_empty_iff_forall_notMem.mpr fun a ha => ?_
    obtain ⟨before, u, after, he, rfl, hkept⟩ := (h.mem_iff_holds a).mp ha
    have hnone : releases a after = 0 := List.count_eq_zero.mpr fun hin =>
      hkept _ ((List.takeWhile_sublist _).subset hin) rfl
    have hone := haccounted.once before a after he
    omega
  · rintro rfl
    exact h.accounted

end Ledger

/-- Whatever the log was that led to `held`, these uses lead on to `held'`. -/
def Leads (held : Set α) (uses : List (Use α)) (held' : Set α) : Prop :=
  ∀ log, Ledger log held → Ledger (log ++ uses) held'

namespace Leads
variable {held' held'' : Set α} {uses uses' : List (Use α)} {a : α}

theorem nil (held : Set α) : Leads held [] held := fun log h => by rwa [List.append_nil]

theorem append (h : Leads held uses held') (h' : Leads held' uses' held'') :
    Leads held (uses ++ uses') held'' := by
  intro log hlog
  rw [← List.append_assoc]
  exact h' _ (h log hlog)

theorem cons {u : Use α} (h : Leads held [u] held') (h' : Leads held' uses held'') :
    Leads held (u :: uses) held'' :=
  h.append h'

theorem acquire (ha : a ∉ held) (hset : ∀ b, b ∈ held' ↔ b = a ∨ b ∈ held) :
    Leads held [.acquire a] held' := by
  intro log hlog
  obtain rfl : held' = insert a held := Set.ext hset
  exact hlog.acquire ha

theorem release (ha : a ∈ held) (hset : ∀ b, b ∈ held' ↔ b ∈ held ∧ b ≠ a) :
    Leads held [.release a] held' := by
  intro log hlog
  obtain rfl : held' = held \ {a} := Set.ext hset
  exact hlog.release ha

/-- What is acquired for some uses and released after them leaves what they leave. -/
theorem within (ha : a ∉ held) (h : Leads (insert a held) uses (insert a held)) :
    Leads held (.acquire a :: (uses ++ [.release a])) held := by
  have hacquired : Leads held [.acquire a] (insert a held) := acquire ha fun b => Iff.rfl
  refine hacquired.cons (h.append (release (Set.mem_insert a held) fun b => ?_))
  rw [Set.mem_insert_iff, or_and_right, and_not_self_iff, false_or]
  refine (and_iff_left_of_imp fun hb => ?_).symm
  rintro rfl
  exact ha hb

/-- Different resources that are held may be released one after another. -/
theorem releaseAll {as : List α} (hnd : as.Nodup) (hheld : ∀ b ∈ as, b ∈ held)
    (hset : ∀ b, b ∈ held' ↔ b ∈ held ∧ b ∉ as) : Leads held (as.map .release) held' := by
  induction as generalizing held with
  | nil =>
    obtain rfl : held' = held := Set.ext fun b => by simp [hset]
    exact nil held'
  | cons a as ih =>
    rw [List.nodup_cons] at hnd
    have hfirst : Leads held [.release a] (held \ {a}) :=
      release (hheld a List.mem_cons_self) fun b => Iff.rfl
    refine hfirst.cons (ih hnd.2 (fun b hb => ⟨hheld b (List.mem_cons_of_mem _ hb), ?_⟩) fun b => ?_)
    · rintro rfl
      exact hnd.1 hb
    · rw [hset, List.mem_cons, not_or, Set.mem_sdiff, Set.mem_singleton_iff, and_assoc]

/-- Where the uses of each step lead from what its first state owns to what its second
state owns, so do the uses of a run. -/
theorem run {σ ε : Type*} {step : σ → ε → σ → Prop} {init : σ} {I : σ → Prop}
    (owned : σ → Set α) (uses : Move σ ε → List (Use α)) (h0 : I init)
    (hstep : ∀ s e t, I s → step s e t → I t ∧ Leads (owned s) (uses ⟨s, e, t⟩) (owned t))
    {moves : List (Move σ ε)} {s : σ} (hr : Run step init moves s) :
    I s ∧ Leads (owned init) (moves.flatMap uses) (owned s) := by
  refine hr.history (I := fun moves s => I s ∧ Leads (owned init) (moves.flatMap uses) (owned s))
    (G := fun _ _ => True) ⟨h0, nil _⟩ (fun moves s e t hi _ hs => ?_) fun _ _ => trivial
  obtain ⟨ht, hone⟩ := hstep s e t hi.1 hs
  refine ⟨ht, ?_⟩
  rw [List.flatMap_append, List.flatMap_singleton]
  exact hi.2.append hone

theorem ledger (h : Leads ∅ uses held) : Ledger uses held := h [] .nil

end Leads

/-- Where every lower number from `base` on is taken, a new number exceeds `base` by no
more than there are. -/
theorem le_base_add_length {base n : ℤ} {taken : List ℤ}
    (h : ∀ b, base ≤ b → b < n → b ∈ taken) : n ≤ base + taken.length := by
  have hsub : Finset.Ico base n ⊆ taken.toFinset := by
    intro b hb
    rw [Finset.mem_Ico] at hb
    exact List.mem_toFinset.mpr (h b hb.1 hb.2)
  have hcard := (Finset.card_le_card hsub).trans (List.toFinset_card_le taken)
  rw [Int.card_Ico] at hcard
  omega

end Resources
