import Mathlib.Tactic

/-!
# The words of a shell command line

How a shell reads one command: blanks separate words, quotes take away the
meaning of what stands between them and are then removed. The words are only
determined where no operator and no expansion is met and every quotation is
closed. Patterns, tildes and comments are left out.
-/
namespace Shell

/-- What a byte means where it is not quoted: expansions start at $ and the backquote,
operators are ; & | < > ( ) and the newline. -/
inductive Role where
  | blank | operator | expansion | singleQuote | doubleQuote | escape | ordinary
  deriving DecidableEq

def role (c : UInt8) : Role :=
  if c = 32 ∨ c = 9 then .blank
  else if c = 39 then .singleQuote
  else if c = 34 then .doubleQuote
  else if c = 92 then .escape
  else if c = 36 ∨ c = 96 then .expansion
  else if c ∈ [59, 38, 124, 60, 62, 40, 41, 10] then .operator
  else .ordinary

/-- The quotation that the next byte stands in. -/
inductive Quoting where
  | unquoted | escape | single | double | doubleEscape
  deriving DecidableEq

/-- The word that has begun, with some bytes more. -/
def extend (word : Option (List UInt8)) (bytes : List UInt8) : Option (List UInt8) :=
  some (word.getD [] ++ bytes)

/-- The words of the rest of a command; `word` is the one that has begun, if any. An
escaped newline continues the line. -/
def split : Quoting → Option (List UInt8) → List UInt8 → Option (List (List UInt8))
  | .unquoted, word, [] => some word.toList
  | _, _, [] => none
  | .unquoted, word, c :: rest =>
      match role c with
      | .blank => (split .unquoted none rest).map (word.toList ++ ·)
      | .operator | .expansion => none
      | .singleQuote => split .single (extend word []) rest
      | .doubleQuote => split .double (extend word []) rest
      | .escape => split .escape word rest
      | .ordinary => split .unquoted (extend word [c]) rest
  | .escape, word, c :: rest =>
      if c = 10 then split .unquoted word rest
      else split .unquoted (extend word [c]) rest
  | .single, word, c :: rest =>
      if role c = .singleQuote then split .unquoted word rest
      else split .single (extend word [c]) rest
  | .double, word, c :: rest =>
      match role c with
      | .doubleQuote => split .unquoted word rest
      | .expansion => none
      | .escape => split .doubleEscape word rest
      | _ => split .double (extend word [c]) rest
  | .doubleEscape, word, c :: rest =>
      if c = 10 then split .double word rest
      else if role c = .expansion ∨ role c = .doubleQuote ∨ role c = .escape then
        split .double (extend word [c]) rest
      else split .double (extend word [92, c]) rest

/-- The words of a command, where it has no operator and no expansion. -/
def words (command : List UInt8) : Option (List (List UInt8)) := split .unquoted none command

/-- A word that stands for itself. -/
def Plain (w : List UInt8) : Prop := w ≠ [] ∧ ∀ c ∈ w, role c = .ordinary

instance (w : List UInt8) : Decidable (Plain w) :=
  have : Decidable (∀ c ∈ w, role c = .ordinary) := List.decidableBAll _ w
  inferInstanceAs (Decidable (_ ∧ _))

/-- A plain word without the bytes of comments, tildes and patterns, # ~ * ? [, which
the reading above leaves out: a shell passes it on as it is. -/
def Literal (w : List UInt8) : Prop := Plain w ∧ ∀ c ∈ [35, 126, 42, 63, 91], c ∉ w

instance (w : List UInt8) : Decidable (Literal w) :=
  have : Decidable (∀ c ∈ [35, 126, 42, 63, 91], c ∉ w) := List.decidableBAll _ _
  inferInstanceAs (Decidable (_ ∧ _))

/-- The bytes that words take, each with a blank behind it. -/
def size (ws : List (List UInt8)) : ℕ := (ws.map fun w => w.length + 1).sum

@[simp] theorem size_nil : size [] = 0 := rfl

@[simp] theorem size_cons (w : List UInt8) (ws : List (List UInt8)) :
    size (w :: ws) = w.length + 1 + size ws := rfl

@[simp] theorem size_append (ws ws' : List (List UInt8)) :
    size (ws ++ ws') = size ws + size ws' := by
  simp [size]

theorem size_intercalate {ws : List (List UInt8)} (h : ws ≠ []) :
    (List.intercalate [32] ws).length + 1 = size ws := by
  induction ws with
  | nil => exact absurd rfl h
  | cons w ws ih =>
    by_cases hws : ws = []
    · simp [hws]
    · have := ih hws
      rw [List.intercalate_cons_of_ne_nil hws, size_cons, List.length_append, List.length_append,
        List.length_singleton]
      omega

@[simp] theorem length_extend (word : Option (List UInt8)) (bytes : List UInt8) :
    ((extend word bytes).getD []).length = (word.getD []).length + bytes.length := by
  simp [extend]

theorem size_toList_le (word : Option (List UInt8)) :
    size word.toList ≤ (word.getD []).length + 1 := by
  cases word <;> simp

/-- Within quotes the closing one is still to come. -/
def Quoting.slack : Quoting → ℕ
  | .single | .double => 0
  | .unquoted | .escape | .doubleEscape => 1

/-- No reading of a command makes its words longer than the command. -/
theorem size_le_of_split {q : Quoting} {word : Option (List UInt8)} {input : List UInt8}
    {ws : List (List UInt8)} (h : split q word input = some ws) :
    size ws ≤ (word.getD []).length + input.length + q.slack := by
  fun_induction split q word input generalizing ws with
  | case1 word =>
    obtain rfl := Option.some.inj h
    exact size_toList_le word
  | case2 | case4 | case5 | case15 => contradiction
  | case3 word c rest hc ih =>
    obtain ⟨ws', hws, rfl⟩ := Option.map_eq_some_iff.mp h
    have hrest := ih hws
    have hword := size_toList_le word
    simp only [size_append, Quoting.slack, Option.getD_none, List.length_nil,
      List.length_cons] at hrest ⊢
    omega
  | _ =>
    rename_i ih
    have hrest := ih h
    simp only [length_extend, Quoting.slack, List.length_cons, List.length_nil] at hrest ⊢
    omega

/-- Where nothing is lost, nothing was quoted. -/
theorem ordinary_or_blank_of_tight {word : Option (List UInt8)} {input : List UInt8}
    {ws : List (List UInt8)} (h : split .unquoted word input = some ws)
    (htight : (word.getD []).length + input.length + 1 ≤ size ws) :
    ∀ c ∈ input, role c = .ordinary ∨ role c = .blank := by
  induction input generalizing word ws with
  | nil => nofun
  | cons c rest ih =>
    rw [List.length_cons] at htight
    rw [split] at h
    rw [List.forall_mem_cons]
    split at h
    · rename_i hc
      obtain ⟨ws', hws, rfl⟩ := Option.map_eq_some_iff.mp h
      have hword := size_toList_le word
      rw [size_append] at htight
      exact ⟨Or.inr hc, ih hws (by simp; omega)⟩
    · contradiction
    · contradiction
    · have hle := size_le_of_split h
      simp only [length_extend, Quoting.slack, List.length_nil] at hle
      omega
    · have hle := size_le_of_split h
      simp only [length_extend, Quoting.slack, List.length_nil] at hle
      omega
    · have hle := size_le_of_split h
      simp only [Quoting.slack] at hle
      omega
    · rename_i hc
      refine ⟨Or.inl hc, ih h ?_⟩
      rw [length_extend, List.length_singleton]
      omega

/-- Words of unquoted text consist of ordinary bytes. -/
theorem plain_of_unquoted {word : Option (List UInt8)} {input : List UInt8}
    {ws : List (List UInt8)} (h : split .unquoted word input = some ws)
    (hword : ∀ w ∈ word, Plain w)
    (hinput : ∀ c ∈ input, role c = .ordinary ∨ role c = .blank) : ∀ w ∈ ws, Plain w := by
  induction input generalizing word ws with
  | nil =>
    obtain rfl := Option.some.inj h
    simpa using hword
  | cons c rest ih =>
    obtain ⟨hc, hrest⟩ := List.forall_mem_cons.mp hinput
    rcases hc with hc | hc
    · simp only [split, hc] at h
      refine ih h (fun w hw => ?_) hrest
      obtain rfl := Option.some.inj hw
      refine ⟨by simp, fun b hb => ?_⟩
      rcases List.mem_append.mp hb with hb | hb
      · cases word with
        | none => cases hb
        | some w => exact (hword w rfl).2 b hb
      · rwa [List.mem_singleton.mp hb]
    · simp only [split, hc] at h
      obtain ⟨ws', hws, rfl⟩ := Option.map_eq_some_iff.mp h
      intro w hw
      rcases List.mem_append.mp hw with hw | hw
      · exact hword w (Option.mem_toList.mp hw)
      · exact ih hws (by simp) hrest w hw

/-- A plain text extends the word that it follows. -/
theorem split_plain (word : Option (List UInt8)) {w : List UInt8} (h : Plain w)
    (rest : List UInt8) :
    split .unquoted word (w ++ rest) = split .unquoted (extend word w) rest := by
  obtain ⟨hne, hw⟩ := h
  induction w generalizing word with
  | nil => exact absurd rfl hne
  | cons c w ih =>
    obtain ⟨hc, hw⟩ := List.forall_mem_cons.mp hw
    rw [List.cons_append, split]
    simp only [hc]
    by_cases hnil : w = []
    · rw [hnil, List.nil_append]
    · rw [ih _ hnil hw]
      simp [extend]

/-- Plain words joined by blanks are read as they are. -/
theorem words_intercalate {ws : List (List UInt8)} (h : ∀ w ∈ ws, Plain w) :
    words (List.intercalate [32] ws) = some ws := by
  induction ws with
  | nil => rfl
  | cons w ws ih =>
    obtain ⟨hw, hws⟩ := List.forall_mem_cons.mp h
    by_cases hnil : ws = []
    · have hsplit := split_plain none hw []
      rw [List.append_nil] at hsplit
      rw [hnil, List.intercalate_singleton, words, hsplit]
      rfl
    · rw [List.intercalate_cons_of_ne_nil hnil, List.append_assoc, words, split_plain none hw,
        List.singleton_append, split]
      rw [words] at ih
      simp [show role 32 = .blank from rfl, ih hws, extend]

/-- Joined by blanks, the words that a command is read back into are the plain ones. -/
theorem words_intercalate_iff {ws : List (List UInt8)} :
    words (List.intercalate [32] ws) = some ws ↔ ∀ w ∈ ws, Plain w := by
  refine ⟨fun h => ?_, words_intercalate⟩
  by_cases hnil : ws = []
  · simp [hnil]
  · have hsize := size_intercalate hnil
    refine plain_of_unquoted h (by simp) (ordinary_or_blank_of_tight h ?_)
    simp only [Option.getD_none, List.length_nil]
    omega

end Shell
