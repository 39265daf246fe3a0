import Mathlib.Tactic

/-!
# Runs of a labelled transition relation

A run records every step it took, oldest first: the state before, the label of
the step, and the state after. Rules derive what a whole run keeps from what
one step keeps, for steps that meet a guard and for facts about the past.
-/
namespace Runs

/-- One recorded step of a run. -/
structure Move (σ ε : Type*) where
  pre : σ
  label : ε
  post : σ

/-- The runs of `step` from `init`: the recorded steps and the state reached. -/
inductive Run {σ ε : Type*} (step : σ → ε → σ → Prop) (init : σ) :
    List (Move σ ε) → σ → Prop
  | start : Run step init [] init
  | snoc {moves : List (Move σ ε)} {s t : σ} {e : ε} :
      Run step init moves s → step s e t → Run step init (moves ++ [⟨s, e, t⟩]) t

variable {σ ε : Type*} {step : σ → ε → σ → Prop} {init : σ}

/-- Facts about the past and the present: kept by every step whose label and
source state meet the guard, hence true after a run of guarded steps. -/
theorem Run.history {I : List (Move σ ε) → σ → Prop} {G : σ → ε → Prop}
    (h0 : I [] init)
    (hstep : ∀ moves s e t, I moves s → G s e → step s e t → I (moves ++ [⟨s, e, t⟩]) t)
    {moves : List (Move σ ε)} {s : σ} (hr : Run step init moves s)
    (hg : ∀ m ∈ moves, G m.pre m.label) : I moves s := by
  induction hr with
  | start => exact h0
  | snoc hr hs ih =>
    refine hstep _ _ _ _ (ih fun m hm => hg m (List.mem_append_left _ hm)) ?_ hs
    exact hg _ (List.mem_append_right _ List.mem_cons_self)

/-- The invariant rule for runs all of whose steps meet a guard. -/
theorem Run.invariant {I : σ → Prop} {G : σ → ε → Prop} (h0 : I init)
    (hstep : ∀ s e t, I s → G s e → step s e t → I t)
    {moves : List (Move σ ε)} {s : σ} (hr : Run step init moves s)
    (hg : ∀ m ∈ moves, G m.pre m.label) : I s :=
  hr.history (I := fun _ s => I s) h0 (fun _ s e t => hstep s e t) hg

/-- A rank that, until the goal is met, every counted step lowers and no other step raises
bounds the number of counted steps before the goal. -/
theorem Run.goal_or_countP_add_rank_le {I Q : σ → Prop} {G : σ → ε → Prop}
    (counted : ε → Bool) (rank : σ → ℕ) (h0 : I init)
    (hstep : ∀ s e t, I s → G s e → step s e t →
      I t ∧ (Q t ∨ ¬ Q s ∧ (if counted e = true then 1 else 0) + rank t ≤ rank s))
    {moves : List (Move σ ε)} {s : σ} (hr : Run step init moves s)
    (hg : ∀ m ∈ moves, G m.pre m.label) :
    I s ∧ (Q s ∨ (moves.countP fun m => counted m.label) + rank s ≤ rank init) := by
  refine hr.history (G := G)
    (I := fun moves s =>
      I s ∧ (Q s ∨ (moves.countP fun m => counted m.label) + rank s ≤ rank init))
    ⟨h0, Or.inr (by simp)⟩ (fun moves s e t hi he hs => ?_) hg
  obtain ⟨ht, hgoal | ⟨hnot, hrank⟩⟩ := hstep s e t hi.1 he hs
  · exact ⟨ht, Or.inl hgoal⟩
  · refine ⟨ht, Or.inr ?_⟩
    have hone : List.countP (fun m : Move σ ε => counted m.label) [⟨s, e, t⟩] =
        if counted e = true then 1 else 0 := List.countP_singleton
    have hle := hi.2.resolve_left hnot
    rw [List.countP_append, hone]
    omega

/-- Without a goal it bounds the number of all of them. -/
theorem Run.countP_add_rank_le {I : σ → Prop} {G : σ → ε → Prop} (counted : ε → Bool)
    (rank : σ → ℕ) (h0 : I init)
    (hstep : ∀ s e t, I s → G s e → step s e t →
      I t ∧ (if counted e = true then 1 else 0) + rank t ≤ rank s)
    {moves : List (Move σ ε)} {s : σ} (hr : Run step init moves s)
    (hg : ∀ m ∈ moves, G m.pre m.label) :
    I s ∧ (moves.countP fun m => counted m.label) + rank s ≤ rank init := by
  have hbound := hr.goal_or_countP_add_rank_le (Q := fun _ => False) counted rank h0
    (fun s e t hi he hs => ?_) hg
  · exact ⟨hbound.1, hbound.2.resolve_left id⟩
  · obtain ⟨ht, hrank⟩ := hstep s e t hi he hs
    exact ⟨ht, Or.inr ⟨id, hrank⟩⟩

/-- A queue whose every step feeds its back and takes from its front: what it held and
what a run fed to it is, in this order, what the run took and what it holds. -/
theorem Run.queued {α : Type*} (queue : σ → List α) (fed taken : Move σ ε → List α)
    {I : σ → Prop} {G : σ → ε → Prop} (h0 : I init)
    (hstep : ∀ s e t, I s → G s e → step s e t →
      I t ∧ queue s ++ fed ⟨s, e, t⟩ = taken ⟨s, e, t⟩ ++ queue t)
    {moves : List (Move σ ε)} {s : σ} (hr : Run step init moves s)
    (hg : ∀ m ∈ moves, G m.pre m.label) :
    I s ∧ queue init ++ moves.flatMap fed = moves.flatMap taken ++ queue s := by
  refine hr.history
    (I := fun moves s => I s ∧ queue init ++ moves.flatMap fed = moves.flatMap taken ++ queue s)
    ⟨h0, by simp⟩ (fun moves s e t hi he hs => ?_) hg
  obtain ⟨ht, hone⟩ := hstep s e t hi.1 he hs
  refine ⟨ht, ?_⟩
  calc queue init ++ (moves ++ [Move.mk s e t]).flatMap fed
      = (queue init ++ moves.flatMap fed) ++ fed ⟨s, e, t⟩ := by simp
    _ = moves.flatMap taken ++ (queue s ++ fed ⟨s, e, t⟩) := by rw [hi.2, List.append_assoc]
    _ = (moves ++ [Move.mk s e t]).flatMap taken ++ queue t := by rw [hone]; simp

/-- Amortised cost: where a step costs no more than `c` and what it takes from a potential,
a run costs no more than `c` for each step and the potential it starts with. -/
theorem Run.amortised (cost : Move σ ε → ℕ) (potential : σ → ℕ) (c : ℕ)
    {I : σ → Prop} {G : σ → ε → Prop} (h0 : I init)
    (hstep : ∀ s e t, I s → G s e → step s e t →
      I t ∧ cost ⟨s, e, t⟩ + potential t ≤ potential s + c)
    {moves : List (Move σ ε)} {s : σ} (hr : Run step init moves s)
    (hg : ∀ m ∈ moves, G m.pre m.label) :
    I s ∧ (moves.map cost).sum + potential s ≤ potential init + c * moves.length := by
  refine hr.history
    (I := fun moves s => I s ∧
      (moves.map cost).sum + potential s ≤ potential init + c * moves.length)
    ⟨h0, by simp⟩ (fun moves s e t hi he hs => ?_) hg
  obtain ⟨ht, hone⟩ := hstep s e t hi.1 he hs
  refine ⟨ht, ?_⟩
  have hsum : ((moves ++ [Move.mk s e t]).map cost).sum =
      (moves.map cost).sum + cost ⟨s, e, t⟩ := by simp
  have hlen : c * (moves ++ [Move.mk s e t]).length = c * moves.length + c := by
    rw [List.length_append, List.length_singleton, Nat.mul_succ]
  have hle := hi.2
  rw [hsum, hlen]
  omega

/-- A run from where a run has got to goes on with it. -/
theorem Run.append {moves moves' : List (Move σ ε)} {s t : σ} (hr : Run step init moves s)
    (hr' : Run step s moves' t) : Run step init (moves ++ moves') t := by
  induction hr' with
  | start => simpa using hr
  | snoc _ hs ih =>
    rw [← List.append_assoc]
    exact ih.snoc hs

/-- Simulation with stuttering: a system each of whose steps another one matches with
any number of its own gets only to states that are related to states of the other. -/
theorem Run.simulated {σ' ε' : Type*} {step' : σ' → ε' → σ' → Prop} {init' : σ'}
    {R : σ → σ' → Prop} {G : σ → ε → Prop} {G' : Move σ' ε' → Prop} (h0 : R init init')
    (hstep : ∀ s e t s', R s s' → G s e → step s e t →
      ∃ moves t', Run step' s' moves t' ∧ (∀ m ∈ moves, G' m) ∧ R t t')
    {moves : List (Move σ ε)} {s : σ} (hr : Run step init moves s)
    (hg : ∀ m ∈ moves, G m.pre m.label) :
    ∃ moves' s', Run step' init' moves' s' ∧ (∀ m ∈ moves', G' m) ∧ R s s' := by
  refine hr.invariant (G := G)
    (I := fun s => ∃ moves' s', Run step' init' moves' s' ∧ (∀ m ∈ moves', G' m) ∧ R s s')
    ⟨[], init', .start, List.forall_mem_nil _, h0⟩ (fun s e t hi he hs => ?_) hg
  obtain ⟨past, s', hpast, hall, hrel⟩ := hi
  obtain ⟨more, t', hmore, hall', hrel'⟩ := hstep s e t s' hrel he hs
  exact ⟨past ++ more, t', hpast.append hmore, List.forall_mem_append.mpr ⟨hall, hall'⟩, hrel'⟩

/-- A run stops at any of its steps: the steps before it are a run to its source
state, and it is a step. -/
theorem Run.cut {before after : List (Move σ ε)} {m : Move σ ε} {s : σ}
    (hr : Run step init (before ++ m :: after) s) :
    Run step init before m.pre ∧ step m.pre m.label m.post := by
  induction after using List.reverseRecOn generalizing s with
  | nil =>
    generalize hl : before ++ [m] = l at hr
    cases hr with
    | start => simp at hl
    | snoc hr' hs =>
      obtain ⟨rfl, he⟩ := List.append_inj' hl rfl
      obtain rfl : m = _ := by simpa using he
      exact ⟨hr', hs⟩
  | append_singleton after x ih =>
    generalize hl : before ++ m :: (after ++ [x]) = l at hr
    cases hr with
    | start => simp at hl
    | snoc hr' hs =>
      rw [← List.cons_append, ← List.append_assoc] at hl
      obtain ⟨rfl, _⟩ := List.append_inj' hl rfl
      exact ih hr'

section Play
variable {α : Type*} (f : σ → α → ε × σ)

/-- The steps a deterministic system takes on a list of inputs. -/
def play : σ → List α → List (Move σ ε)
  | _, [] => []
  | s, a :: as => ⟨s, (f s a).1, (f s a).2⟩ :: play (f s a).2 as

/-- The state they lead to. -/
def playEnd (s : σ) (as : List α) : σ := as.foldl (fun s a => (f s a).2) s

variable {f}

theorem forall_mem_play {P : Move σ ε → Prop} (h : ∀ s a, P ⟨s, (f s a).1, (f s a).2⟩) {s : σ}
    {as : List α} : ∀ m ∈ play f s as, P m := by
  induction as generalizing s with
  | nil => nofun
  | cons a as ih =>
    intro m hm
    rcases List.mem_cons.mp hm with rfl | hm
    · exact h s a
    · exact ih m hm

/-- Steps that can be taken one after another make a run. -/
theorem Run.play {moves : List (Move σ ε)} {s : σ} (hr : Run step init moves s) (as : List α)
    (hf : ∀ m ∈ Runs.play f s as, step m.pre m.label m.post) :
    Run step init (moves ++ Runs.play f s as) (playEnd f s as) := by
  induction as generalizing moves s with
  | nil => simpa [Runs.play, playEnd] using hr
  | cons a as ih =>
    rw [Runs.play, List.forall_mem_cons] at hf
    simpa [Runs.play, playEnd] using ih (hr.snoc hf.1) hf.2

/-- Inputs that pass a test under which `f` is a step make a run. -/
theorem Run.of_play {P : Move σ ε → Prop}
    (hf : ∀ s a, P ⟨s, (f s a).1, (f s a).2⟩ → step s (f s a).1 (f s a).2) {s : σ} {as : List α}
    (h : ∀ m ∈ Runs.play f s as, P m) : Run step s (Runs.play f s as) (playEnd f s as) := by
  have hstep : ∀ m ∈ Runs.play f s as, P m → step m.pre m.label m.post := forall_mem_play hf
  exact Run.start.play as fun m hm => hstep m hm (h m hm)

end Play

/-- An event of a system in which not every event is always possible; where it
is not, nothing happens. -/
def attempt (next : σ → ε → Option σ) (s : σ) (e : ε) : ε × σ := (e, (next s e).getD s)

theorem attempt_of_isSome (next : σ → ε → Option σ) (s : σ) (e : ε)
    (h : (next s e).isSome = true) : next s e = some (attempt next s e).2 := by
  obtain ⟨t, ht⟩ := Option.isSome_iff_exists.mp h
  rw [attempt, ht, Option.getD_some]

/-- The labels are the events. -/
theorem label_mem_of_attempts {next : σ → ε → Option σ} {s : σ} {es : List ε} :
    ∀ m ∈ play (attempt next) s es, m.label ∈ es := by
  induction es generalizing s with
  | nil => nofun
  | cons e es ih =>
    intro m hm
    rcases List.mem_cons.mp hm with rfl | hm
    · exact List.mem_cons_self
    · exact List.mem_cons_of_mem _ (ih m hm)

/-- Events that are all possible make a run. -/
theorem run_attempts (next : σ → ε → Option σ) (s : σ) (es : List ε)
    (h : ∀ m ∈ play (attempt next) s es, (next m.pre m.label).isSome = true) :
    Run (fun s e t => next s e = some t) s (play (attempt next) s es)
      (playEnd (attempt next) s es) := by
  refine Run.of_play (fun s e hsome => ?_) h
  exact attempt_of_isSome next s e hsome

/-- `Since hold start past`: some past entry satisfies `start`, and every entry
after it satisfies `hold`. -/
def Since {α : Type*} (hold start : α → Prop) (past : List α) : Prop :=
  ∃ before x after, past = before ++ x :: after ∧ start x ∧ ∀ y ∈ after, hold y

theorem since_start {α : Type*} {hold start : α → Prop} {past : List α} {x : α}
    (hx : start x) : Since hold start (past ++ [x]) :=
  ⟨past, x, [], rfl, hx, by simp⟩

theorem Since.snoc {α : Type*} {hold start : α → Prop} {past : List α} {x : α}
    (h : Since hold start past) (hx : hold x) : Since hold start (past ++ [x]) := by
  obtain ⟨before, y, after, rfl, hy, hafter⟩ := h
  refine ⟨before, y, after ++ [x], by simp, hy, fun z hz => ?_⟩
  rcases List.mem_append.mp hz with hz | hz
  · exact hafter z hz
  · rwa [List.mem_singleton.mp hz]

theorem not_since_nil {α : Type*} {hold start : α → Prop} : ¬ Since hold start ([] : List α) := by
  rintro ⟨before, x, after, he, -⟩
  simp at he

/-- `Since` along a growing history. -/
theorem since_snoc_iff {α : Type*} {hold start : α → Prop} {past : List α} {x : α} :
    Since hold start (past ++ [x]) ↔ start x ∨ hold x ∧ Since hold start past := by
  constructor
  · rintro ⟨before, y, after, he, hy, hafter⟩
    rcases List.eq_nil_or_concat after with rfl | ⟨after, z, rfl⟩
    · obtain ⟨-, hxy⟩ := List.append_inj' he rfl
      rw [List.singleton_inj] at hxy
      exact Or.inl (hxy ▸ hy)
    · rw [List.concat_eq_append, ← List.cons_append, ← List.append_assoc] at he
      obtain ⟨rfl, hxz⟩ := List.append_inj' he rfl
      rw [List.singleton_inj] at hxz
      exact Or.inr ⟨hxz ▸ hafter z (by simp), before, y, after, rfl, hy,
        fun w hw => hafter w (by simp [hw])⟩
  · rintro (hx | ⟨hx, hpast⟩)
    · exact since_start hx
    · exact hpast.snoc hx

end Runs
