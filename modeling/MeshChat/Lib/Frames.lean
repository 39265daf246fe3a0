import Mathlib.Tactic

/-!
# Local actions and their frames

A heap falls into two parts that have no address in common. A local action that
succeeds on one part does the same on the whole heap and leaves the other part
alone, so what is proved of a small heap holds of it inside any larger one.
`Owns` lists the addresses that a heap has beyond a frame, and `Trades` says how
an action changes them.
-/
namespace Frames

variable {κ β ρ τ : Type*}

/-- Each address belongs to one part at most and holds what it holds there. -/
def Parts (whole part rest : κ → Option β) : Prop :=
  ∀ a, rest a = none ∧ whole a = part a ∨ part a = none ∧ whole a = rest a

section Parts
variable {whole part rest whole' part' : κ → Option β}

theorem Parts.read (h : Parts whole part rest) {a : κ} {x : β} (hx : part a = some x) :
    whole a = some x := by
  rcases h a with ⟨-, ha⟩ | ⟨hnone, -⟩
  · rw [ha, hx]
  · rw [hx] at hnone
    contradiction

theorem Parts.rest_none (h : Parts whole part rest) {a : κ} (hlive : part a ≠ none) :
    rest a = none :=
  (h a).elim And.left fun hdead => absurd hdead.1 hlive

/-- What is free in the whole is free in both parts. -/
theorem Parts.free (h : Parts whole part rest) {a : κ} (ha : whole a = none) :
    part a = none ∧ rest a = none := by
  rcases h a with ⟨hrest, hpart⟩ | ⟨hpart, hrest⟩
  · exact ⟨hpart.symm.trans ha, hrest⟩
  · exact ⟨hpart, hrest.symm.trans ha⟩

theorem Parts.of_empty (heap : κ → Option β) : Parts heap (fun _ => none) heap :=
  fun _ => Or.inr ⟨rfl, rfl⟩

variable [DecidableEq κ]

/-- A write to an address that the rest does not have. -/
theorem Parts.update (h : Parts whole part rest) {a : κ} (ha : rest a = none) (v : Option β) :
    Parts (Function.update whole a v) (Function.update part a v) rest := by
  intro b
  by_cases hb : b = a
  · subst hb
    exact Or.inl ⟨ha, by rw [Function.update_self, Function.update_self]⟩
  · rw [Function.update_of_ne hb, Function.update_of_ne hb]
    exact h b

end Parts

/-- What succeeds on a part does the same on the whole and keeps the rest, which
has none of the `new` addresses that the action may allocate. -/
def Local (new : Set κ) (act : (κ → Option β) → Option (ρ × (κ → Option β))) : Prop :=
  ∀ ⦃whole part rest⦄, Parts whole part rest → (∀ a ∈ new, rest a = none) →
    ∀ ⦃r part'⦄, act part = some (r, part') →
      ∃ whole', act whole = some (r, whole') ∧ Parts whole' part' rest

/-- An action without a result. -/
def LocalStep (new : Set κ) (act : (κ → Option β) → Option (κ → Option β)) : Prop :=
  ∀ ⦃whole part rest⦄, Parts whole part rest → (∀ a ∈ new, rest a = none) →
    ∀ ⦃part'⦄, act part = some part' → ∃ whole', act whole = some whole' ∧ Parts whole' part' rest

/-- What is read of a part is read of the whole. -/
def LocalRead (get : (κ → Option β) → Option ρ) : Prop :=
  ∀ ⦃whole part rest⦄, Parts whole part rest → ∀ ⦃r⦄, get part = some r → get whole = some r

section Local
variable {new : Set κ}

theorem Local.ret (r : ρ) : Local new fun heap : κ → Option β => some (r, heap) := by
  rintro whole part rest h - r' part' he
  obtain ⟨rfl, rfl⟩ := Prod.mk.inj (Option.some.inj he)
  exact ⟨whole, rfl, h⟩

theorem Local.congr {act act' : (κ → Option β) → Option (ρ × (κ → Option β))}
    (h : Local new act) (he : ∀ heap, act' heap = act heap) : Local new act' := by
  rwa [show act' = act from funext he]

theorem Local.ite {c : Prop} [Decidable c]
    {act act' : (κ → Option β) → Option (ρ × (κ → Option β))} (h : Local new act)
    (h' : Local new act') : Local new fun heap => if c then act heap else act' heap := by
  by_cases hc : c
  · simpa only [if_pos hc] using h
  · simpa only [if_neg hc] using h'

/-- An address is read and the action goes on with what is there; from then on the
address is the action's own. -/
theorem Local.read {a : κ} {act : β → (κ → Option β) → Option (ρ × (κ → Option β))}
    (h : ∀ x, Local (insert a new) (act x)) :
    Local new fun heap => (heap a).bind fun x => act x heap := by
  intro whole part rest hparts hnew r part' he
  obtain ⟨x, hx, hact⟩ := Option.bind_eq_some_iff.mp he
  have hrest : rest a = none := hparts.rest_none (by simp [hx])
  obtain ⟨whole', hwhole, hparts'⟩ :=
    h x hparts (Set.forall_mem_insert.mpr ⟨hrest, hnew⟩) hact
  exact ⟨whole', by simp [hparts.read hx, hwhole], hparts'⟩

theorem Local.bind {act : (κ → Option β) → Option (ρ × (κ → Option β))}
    {act' : ρ → (κ → Option β) → Option (τ × (κ → Option β))} (h : Local new act)
    (h' : ∀ r, Local new (act' r)) : Local new fun heap => (act heap).bind fun r => act' r.1 r.2 := by
  intro whole part rest hparts hnew r part' he
  obtain ⟨⟨x, part₁⟩, hx, hact⟩ := Option.bind_eq_some_iff.mp he
  obtain ⟨whole₁, hwhole₁, hparts₁⟩ := h hparts hnew hx
  obtain ⟨whole', hwhole, hparts'⟩ := h' x hparts₁ hnew hact
  exact ⟨whole', by simp [hwhole₁, hwhole], hparts'⟩

theorem Local.map {act : (κ → Option β) → Option (ρ × (κ → Option β))} (h : Local new act)
    (f : ρ → τ) : Local new fun heap => (act heap).map fun r => (f r.1, r.2) := by
  refine (h.bind fun r => Local.ret (f r)).congr fun heap => ?_
  rw [Option.map_eq_bind]
  rfl

theorem LocalRead.ret (r : Option ρ) : LocalRead fun _ : κ → Option β => r :=
  fun _ _ _ _ _ he => he

theorem LocalRead.ite {c : Prop} [Decidable c] {get get' : (κ → Option β) → Option ρ}
    (h : LocalRead get) (h' : LocalRead get') :
    LocalRead fun heap => if c then get heap else get' heap := by
  by_cases hc : c
  · simpa only [if_pos hc] using h
  · simpa only [if_neg hc] using h'

theorem LocalRead.read {a : κ} {get : β → (κ → Option β) → Option ρ}
    (h : ∀ x, LocalRead (get x)) : LocalRead fun heap => (heap a).bind fun x => get x heap := by
  intro whole part rest hparts r he
  obtain ⟨x, hx, hget⟩ := Option.bind_eq_some_iff.mp he
  simpa only [hparts.read hx, Option.bind_some] using h x hparts hget

theorem LocalRead.node {a : κ} (f : β → ρ) : LocalRead fun heap => (heap a).map f := by
  simp only [Option.map_eq_bind]
  exact LocalRead.read fun x => LocalRead.ret (some (f x))

/-- A reader is an action that leaves the heap alone. -/
theorem LocalRead.act {get : (κ → Option β) → Option ρ} (h : LocalRead get) (f : ρ → τ) :
    Local new fun heap => (get heap).map fun r => (f r, heap) := by
  rintro whole part rest hparts - r part' he
  obtain ⟨x, hx, heq⟩ := Option.map_eq_some_iff.mp he
  obtain ⟨rfl, rfl⟩ := Prod.mk.inj heq
  exact ⟨whole, by simp only [h hparts hx, Option.map_some], hparts⟩

theorem Local.step {act : (κ → Option β) → Option (κ → Option β)}
    {act' : (κ → Option β) → Option (ρ × (κ → Option β))} (h : LocalStep new act)
    (h' : Local new act') : Local new fun heap => (act heap).bind act' := by
  intro whole part rest hparts hnew r part' he
  obtain ⟨part₁, hpart₁, hact⟩ := Option.bind_eq_some_iff.mp he
  obtain ⟨whole₁, hwhole₁, hparts₁⟩ := h hparts hnew hpart₁
  obtain ⟨whole', hwhole, hparts'⟩ := h' hparts₁ hnew hact
  exact ⟨whole', by simp [hwhole₁, hwhole], hparts'⟩

variable [DecidableEq κ]

/-- A live address is overwritten or freed. -/
theorem LocalStep.overwrite {a : κ} (v : β → Option β) :
    LocalStep new fun heap => (heap a).map fun x => Function.update heap a (v x) := by
  intro whole part rest hparts _ part' he
  obtain ⟨x, hx, rfl⟩ := Option.map_eq_some_iff.mp he
  refine ⟨_, by simp [hparts.read hx], hparts.update (hparts.rest_none ?_) _⟩
  rw [hx]
  exact Option.some_ne_none x

/-- An address of the action's own is written first. -/
theorem Local.write {a : κ} (ha : a ∈ new) (v : Option β)
    {act : (κ → Option β) → Option (ρ × (κ → Option β))} (h : Local new act) :
    Local new fun heap => act (Function.update heap a v) :=
  fun _ _ _ hparts hnew _ _ he => h (hparts.update (hnew a ha) v) hnew he

end Local

/-- The heap is the frame and, apart from it, the live addresses `own`. -/
structure Owns (heap frame : κ → Option β) (own : List κ) : Prop where
  nodup : own.Nodup
  live : ∀ a ∈ own, heap a ≠ none
  free : ∀ a ∈ own, frame a = none
  same : ∀ a, a ∉ own → heap a = frame a

/-- A heap changes only at the addresses it gives up and takes. -/
structure Trades (heap heap' : κ → Option β) (own own' : List κ) : Prop where
  nodup : own'.Nodup
  live : ∀ a ∈ own', heap' a ≠ none
  gain : ∀ a ∈ own', a ∈ own ∨ heap a = none
  lose : ∀ a ∈ own, a ∉ own' → heap' a = none
  keep : ∀ a, a ∉ own → a ∉ own' → heap' a = heap a

section Owns
variable {heap heap' frame : κ → Option β} {own own' : List κ}

theorem Owns.eq_frame (h : Owns heap frame []) : heap = frame :=
  funext fun a => h.same a List.not_mem_nil

theorem Owns.of_empty (heap : κ → Option β) : Owns heap heap [] :=
  ⟨List.nodup_nil, List.forall_mem_nil _, List.forall_mem_nil _, fun _ _ => rfl⟩

/-- A trade of all the owned addresses. -/
theorem Owns.exchange (h : Owns heap frame own) (ht : Trades heap heap' own own') :
    Owns heap' frame own' where
  nodup := ht.nodup
  live := ht.live
  free a ha := by
    by_cases hown : a ∈ own
    · exact h.free a hown
    · exact (h.same a hown).symm.trans ((ht.gain a ha).resolve_left hown)
  same a ha := by
    by_cases hown : a ∈ own
    · rw [ht.lose a hown ha, h.free a hown]
    · rw [ht.keep a hown ha, h.same a hown]

section Widen
variable {xs ys : List κ} (ht : Trades heap heap' own own') (hnodup : (xs ++ own ++ ys).Nodup)
  (hlive : ∀ a ∈ xs ++ own ++ ys, heap a ≠ none)
include ht hnodup hlive

/-- Live addresses next to those that are traded have no part in it. -/
theorem Trades.apart {a : κ} (ha : a ∈ xs ∨ a ∈ ys) : a ∉ own ∧ a ∉ own' := by
  rw [List.nodup_append, List.nodup_append] at hnodup
  obtain ⟨⟨-, -, hleft⟩, -, hright⟩ := hnodup
  have hout : a ∉ own := by
    intro hown
    rcases ha with ha | ha
    · exact hleft a ha a hown rfl
    · exact hright a (List.mem_append_right _ hown) a ha rfl
  refine ⟨hout, fun hown' => ?_⟩
  rcases ht.gain a hown' with hown | hnone
  · exact hout hown
  · exact hlive a (by simp only [List.mem_append]; tauto) hnone

theorem Trades.unchanged {a : κ} (ha : a ∈ xs ∨ a ∈ ys) : heap' a = heap a :=
  have hout := ht.apart hnodup hlive ha
  ht.keep a hout.1 hout.2

theorem Trades.widen : Trades heap heap' (xs ++ own ++ ys) (xs ++ own' ++ ys) where
  nodup := by
    have hout' := fun a ha => (ht.apart hnodup hlive (a := a) ha).2
    rw [List.nodup_append, List.nodup_append] at hnodup ⊢
    obtain ⟨⟨hxs, -, -⟩, hys, hright⟩ := hnodup
    refine ⟨⟨hxs, ht.nodup, fun a ha b hb hab => hout' a (Or.inl ha) (hab ▸ hb)⟩, hys,
      fun a ha b hb hab => ?_⟩
    rcases List.mem_append.mp ha with hax | hao
    · exact hright a (List.mem_append_left _ hax) b hb hab
    · exact hout' a (Or.inr (hab ▸ hb)) hao
  live a ha := by
    by_cases hown' : a ∈ own'
    · exact ht.live a hown'
    · have hside : a ∈ xs ∨ a ∈ ys := by
        simp only [List.mem_append] at ha
        tauto
      rw [ht.unchanged hnodup hlive hside]
      exact hlive a (by simp only [List.mem_append]; tauto)
  gain a ha := by
    by_cases hown' : a ∈ own'
    · exact (ht.gain a hown').imp_left fun hown => by simp [hown]
    · simp only [List.mem_append] at ha ⊢
      tauto
  lose a ha hout := by
    simp only [List.mem_append, not_or] at ha hout
    exact ht.lose a (by tauto) hout.1.2
  keep a hout hout' := by
    simp only [List.mem_append, not_or] at hout hout'
    exact ht.keep a hout.1.2 hout'.1.2

end Widen

/-- A trade of some of the owned addresses. -/
theorem Owns.trade {xs ys : List κ} (h : Owns heap frame (xs ++ own ++ ys))
    (ht : Trades heap heap' own own') : Owns heap' frame (xs ++ own' ++ ys) :=
  h.exchange (ht.widen h.nodup h.live)

theorem Owns.part {xs ys : List κ} (h : Owns heap frame (xs ++ own ++ ys)) :
    own.Nodup ∧ ∀ a ∈ own, heap a ≠ none := by
  have hnodup := h.nodup
  rw [List.nodup_append, List.nodup_append] at hnodup
  exact ⟨hnodup.1.2.1, fun a ha => h.live a (by simp [ha])⟩

theorem Trades.refl (hnodup : own.Nodup) (hlive : ∀ a ∈ own, heap a ≠ none) :
    Trades heap heap own own :=
  ⟨hnodup, hlive, fun _ ha => Or.inl ha, fun _ ha hout => absurd ha hout, fun _ _ _ => rfl⟩

/-- A local action trades the addresses of its part. -/
theorem Trades.of_parts {whole whole' part part' rest : κ → Option β}
    (h : Parts whole part rest) (h' : Parts whole' part' rest)
    (hown : ∀ a, part a ≠ none ↔ a ∈ own) (hown' : ∀ a, part' a ≠ none ↔ a ∈ own')
    (hnodup : own'.Nodup) : Trades whole whole' own own' where
  nodup := hnodup
  live a ha hnone := (hown' a).mpr ha (h'.free hnone).1
  gain a ha := by
    by_cases hpart : part a = none
    · rcases h a with ⟨-, hwhole⟩ | ⟨-, hwhole⟩
      · exact Or.inr (hwhole.trans hpart)
      · exact Or.inr (hwhole.trans (h'.rest_none ((hown' a).mpr ha)))
    · exact Or.inl ((hown a).mp hpart)
  lose a ha hout := by
    have hpart' : part' a = none := not_not.mp fun hlive => hout ((hown' a).mp hlive)
    have hrest : rest a = none := h.rest_none ((hown a).mpr ha)
    rcases h' a with ⟨-, hwhole⟩ | ⟨-, hwhole⟩
    · exact hwhole.trans hpart'
    · exact hwhole.trans hrest
  keep a hout hout' := by
    have hpart : part a = none := not_not.mp fun hlive => hout ((hown a).mp hlive)
    have hpart' : part' a = none := not_not.mp fun hlive => hout' ((hown' a).mp hlive)
    have hwhole : whole a = rest a := by
      rcases h a with ⟨hrest, hwhole⟩ | ⟨-, hwhole⟩
      · rw [hwhole, hpart, hrest]
      · exact hwhole
    rcases h' a with ⟨hrest, hwhole'⟩ | ⟨-, hwhole'⟩
    · rw [hwhole', hpart', hwhole, hrest]
    · rw [hwhole', hwhole]

variable [DecidableEq κ]

theorem Trades.alloc {a : κ} (ha : heap a = none) (x : β) :
    Trades heap (Function.update heap a (some x)) [] [a] where
  nodup := List.nodup_singleton a
  live b hb := by simp [List.mem_singleton.mp hb]
  gain b hb := Or.inr (List.mem_singleton.mp hb ▸ ha)
  lose b hb := absurd hb List.not_mem_nil
  keep b _ hb := Function.update_of_ne (by simpa using hb) ..

theorem Trades.free (heap : κ → Option β) (a : κ) :
    Trades heap (Function.update heap a none) [a] [] where
  nodup := List.nodup_nil
  live b hb := absurd hb List.not_mem_nil
  gain b hb := absurd hb List.not_mem_nil
  lose b hb _ := by simp [List.mem_singleton.mp hb]
  keep b hb _ := Function.update_of_ne (by simpa using hb) ..

theorem Trades.overwrite (heap : κ → Option β) (a : κ) (x : β) :
    Trades heap (Function.update heap a (some x)) [a] [a] where
  nodup := List.nodup_singleton a
  live b hb := by simp [List.mem_singleton.mp hb]
  gain b hb := Or.inl hb
  lose b hb hout := absurd hb hout
  keep b hb _ := Function.update_of_ne (by simpa using hb) ..

end Owns
end Frames
