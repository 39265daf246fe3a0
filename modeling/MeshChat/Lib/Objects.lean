import Mathlib.Tactic

/-!
# Objects under sequences of calls

An object answers calls one after another; a call that does what it must not is
a fault, after which nothing is promised. A specification says which answers a
call may get and what it makes of an abstract state. The rule at the end turns
agreement of single calls into agreement of all sequences of calls.
-/
namespace Objects

section Visit
variable {α β σ : Type*}

/-- Calls an action on the elements of a list in order, up to and including the
first on which it returns 0 (`false`): its context afterwards and the number of
times it was called. -/
def visit (action : α → σ → σ × Bool) : List α → σ → σ × ℕ
  | [], s => (s, 0)
  | x :: xs, s =>
      let r := action x s
      if r.2 then ((visit action xs r.1).1, (visit action xs r.1).2 + 1) else (r.1, 1)

end Visit

section Serve
variable {σ τ ι ω : Type*}

/-- The answers to a list of calls and the state they leave; `none` where one of
the calls faults. -/
def serve (exec : σ → ι → Option (ω × σ)) : σ → List ι → Option (List ω × σ)
  | s, [] => some ([], s)
  | s, i :: is =>
      (exec s i).bind fun r => (serve exec r.2 is).map fun rs => (r.1 :: rs.1, rs.2)

/-- The answers that a specification allows to a list of calls. -/
inductive Allowed (spec : τ → ι → ω → τ → Prop) : τ → List ι → List ω → τ → Prop
  | nil (a : τ) : Allowed spec a [] [] a
  | cons {a b c : τ} {i : ι} {o : ω} {is : List ι} {os : List ω} :
      spec a i o b → Allowed spec b is os c → Allowed spec a (i :: is) (o :: os) c

theorem Allowed.snoc {spec : τ → ι → ω → τ → Prop} {a b c : τ} {is : List ι} {os : List ω}
    (h : Allowed spec a is os b) {i : ι} {o : ω} (hlast : spec b i o c) :
    Allowed spec a (is ++ [i]) (os ++ [o]) c := by
  induction h with
  | nil a => exact .cons hlast (.nil c)
  | cons hfirst _ ih => exact .cons hfirst (ih hlast)

/-- Every call of the list is one that may be made when its turn comes. -/
def Legal (spec : τ → ι → ω → τ → Prop) (may : τ → ι → Prop) : τ → List ι → Prop
  | _, [] => True
  | a, i :: is => may a i ∧ ∀ o b, spec a i o b → Legal spec may b is

theorem legal_of_forall {spec : τ → ι → ω → τ → Prop} {may : τ → ι → Prop}
    (h : ∀ a i, may a i) (a : τ) (is : List ι) : Legal spec may a is := by
  induction is generalizing a with
  | nil => exact trivial
  | cons i is ih => exact ⟨h a i, fun _ b _ => ih b⟩

/-- Where single calls refine the specification, sequences of calls do. -/
theorem serve_refines {exec : σ → ι → Option (ω × σ)} {spec : τ → ι → ω → τ → Prop}
    {may : τ → ι → Prop} {R : σ → τ → Prop}
    (hstep : ∀ s a i, R s a → may a i →
      ∃ o s' b, exec s i = some (o, s') ∧ spec a i o b ∧ R s' b)
    {s : σ} {a : τ} (h : R s a) {is : List ι} (hlegal : Legal spec may a is) :
    ∃ os s' b, serve exec s is = some (os, s') ∧ Allowed spec a is os b ∧ R s' b := by
  induction is generalizing s a with
  | nil => exact ⟨[], s, a, rfl, .nil a, h⟩
  | cons i is ih =>
    obtain ⟨o, s', b, hexec, hspec, hR⟩ := hstep s a i h hlegal.1
    obtain ⟨os, s'', c, hserve, hallowed, hR'⟩ := ih hR (hlegal.2 o b hspec)
    exact ⟨o :: os, s'', c, by simp [serve, hexec, hserve], .cons hspec hallowed, hR'⟩

/-- Where single calls do what an executable specification does, sequences of calls
do. Which calls may be made is said of the object itself. -/
theorem serve_agrees {exec : σ → ι → Option (ω × σ)} {f : τ → ι → ω × τ} {may : σ → ι → Prop}
    {R : σ → τ → Prop}
    (hstep : ∀ s a i, R s a → may s i →
      ∃ s', exec s i = some ((f a i).1, s') ∧ R s' (f a i).2)
    {s : σ} {a : τ} (h : R s a) {is : List ι}
    (hlegal : Legal (fun s i o s' => exec s i = some (o, s')) may s is) :
    ∃ os s' b, serve exec s is = some (os, s') ∧
      serve (fun a i => some (f a i)) a is = some (os, b) ∧ R s' b := by
  induction is generalizing s a with
  | nil => exact ⟨[], s, a, rfl, rfl, h⟩
  | cons i is ih =>
    obtain ⟨s₁, hexec, hR⟩ := hstep s a i h hlegal.1
    obtain ⟨os, s', b, hserve, hspec, hR'⟩ := ih hR (hlegal.2 _ _ hexec)
    refine ⟨(f a i).1 :: os, s', b, ?_, ?_, hR'⟩
    · rw [serve, hexec, Option.bind_some, hserve, Option.map_some]
    · rw [serve, Option.bind_some, hspec, Option.map_some]

end Serve
end Objects
