import MeshChat.CString

/-!
# Lines in, formatted text out

What the programs use of `stdio.h`: `fgets` over an input that is a list of
bytes, and `snprintf` of a text whose conversions are done.
-/
namespace MeshChat

/-- `INT_MAX`. -/
abbrev intMax : ℕ := 2147483647

/-- At most `n` bytes of the input, up to its first newline and with it, and what
is left. -/
def takeLine : ℕ → List UInt8 → List UInt8 × List UInt8
  | 0, input => ([], input)
  | _ + 1, [] => ([], [])
  | n + 1, b :: input =>
      if b = 10 then ([b], input)
      else
        let r := takeLine n input
        (b :: r.1, r.2)

theorem takeLine_length_le (n : ℕ) (input : List UInt8) : (takeLine n input).1.length ≤ n := by
  fun_induction takeLine n input with
  | case1 => exact le_rfl
  | case2 => exact Nat.zero_le _
  | case3 n input => simp
  | case4 n b input hb r ih => exact Nat.succ_le_succ ih

/-- A line is a part of the input, and reading goes on behind it. -/
theorem takeLine_append (n : ℕ) (input : List UInt8) :
    (takeLine n input).1 ++ (takeLine n input).2 = input := by
  fun_induction takeLine n input with
  | case1 => rfl
  | case2 => rfl
  | case3 n input => rfl
  | case4 n b input hb r ih => exact congrArg (b :: ·) ih

/-- A line that fits is read whole, with its newline. -/
theorem takeLine_line {n : ℕ} {line : List UInt8} (hline : 10 ∉ line) (hn : line.length < n)
    (rest : List UInt8) : takeLine n (line ++ 10 :: rest) = (line ++ [10], rest) := by
  induction line generalizing n with
  | nil =>
    obtain ⟨n, rfl⟩ : ∃ m, n = m + 1 := ⟨n - 1, by simp at hn; omega⟩
    rfl
  | cons b line ih =>
    obtain ⟨n, rfl⟩ : ∃ m, n = m + 1 := ⟨n - 1, by simp at hn; omega⟩
    rw [List.mem_cons, not_or] at hline
    rw [List.length_cons] at hn
    rw [List.cons_append, takeLine, if_neg (Ne.symm hline.1), ih hline.2 (by omega)]
    rfl

/-- A line that does not fit is cut, and what follows is read from the cut on. -/
theorem takeLine_cut {n : ℕ} {line : List UInt8} (hline : 10 ∉ line) (hn : n ≤ line.length)
    (rest : List UInt8) : takeLine n (line ++ rest) = (line.take n, line.drop n ++ rest) := by
  induction line generalizing n with
  | nil =>
    obtain rfl : n = 0 := by simpa using hn
    rfl
  | cons b line ih =>
    cases n with
    | zero => rfl
    | succ n =>
      rw [List.mem_cons, not_or] at hline
      rw [List.length_cons] at hn
      rw [List.cons_append, takeLine, if_neg (Ne.symm hline.1), ih hline.2 (by omega)]
      rfl

/-- `fgets(buf, size, stdin)` with what it leaves of the input; at the end of the
input it returns `NULL`. The string ends early where a NUL byte was read. -/
def fgets (size : ℕ) [NeZero size] (input : List UInt8) : Option (CharArray size × List UInt8) :=
  if input = [] then none
  else
    some (CharArray.ofBytes (takeLine (size - 1) input).1
        (lt_of_le_of_lt (takeLine_length_le _ _) (Nat.sub_one_lt (NeZero.ne size))),
      (takeLine (size - 1) input).2)

theorem fgets_line {size : ℕ} [NeZero size] {line : List UInt8} (hline : 10 ∉ line)
    (hnul : 0 ∉ line) (hsize : line.length + 1 < size) (rest : List UInt8) :
    ∃ buf, fgets size (line ++ 10 :: rest) = some (buf, rest) ∧ buf.bytes = line ++ [10] := by
  have hfull : 0 ∉ line ++ [10] := by
    rw [List.mem_append, List.mem_singleton, not_or]
    exact ⟨hnul, by decide⟩
  have hroom : line.length < size - 1 := by omega
  unfold fgets
  rw [if_neg (by simp)]
  simp only [takeLine_line hline hroom]
  exact ⟨_, rfl, ofBytes_bytes_of_nul_free hfull⟩

theorem fgets_rest_lt {size : ℕ} [NeZero size] (hsize : 1 < size) {input rest : List UInt8}
    {buf : CharArray size} (h : fgets size input = some (buf, rest)) :
    rest.length < input.length := by
  unfold fgets at h
  split at h
  · cases h
  · rename_i hne
    obtain ⟨-, rfl⟩ := Prod.mk.inj (Option.some.inj h)
    obtain ⟨n, hn⟩ : ∃ n, size - 1 = n + 1 := ⟨size - 2, by omega⟩
    have hpos : 0 < (takeLine (size - 1) input).1.length := by
      cases input with
      | nil => exact absurd rfl hne
      | cons b input =>
        rw [hn, takeLine]
        split <;> simp
    have hlen := congrArg List.length (takeLine_append (size - 1) input)
    rw [List.length_append] at hlen
    omega

/-- The strings that one `fgets` after another returns. -/
def fgetsLines (size : ℕ) [NeZero size] (hsize : 1 < size) (input : List UInt8) :
    List (CharArray size) :=
  match _h : fgets size input with
  | none => []
  | some (buf, rest) => buf :: fgetsLines size hsize rest
termination_by input.length
decreasing_by exact fgets_rest_lt hsize _h

/-- Lines that fit are read one by one. -/
theorem fgetsLines_lines {size : ℕ} [NeZero size] (hsize : 1 < size) {lines : List (List UInt8)}
    (hlines : ∀ line ∈ lines, 10 ∉ line ∧ 0 ∉ line ∧ line.length + 1 < size) :
    (fgetsLines size hsize (lines.flatMap fun line => line ++ [10])).map (·.bytes) =
      lines.map fun line => line ++ [10] := by
  induction lines with
  | nil =>
    rw [fgetsLines]
    rfl
  | cons line lines ih =>
    rw [List.forall_mem_cons] at hlines
    obtain ⟨⟨hline, hnul, hfits⟩, hrest⟩ := hlines
    obtain ⟨buf, hbuf, hbytes⟩ :=
      fgets_line hline hnul hfits (lines.flatMap fun line => line ++ [10])
    rw [List.flatMap_cons, List.append_assoc, List.singleton_append, fgetsLines]
    split
    · next hnone => rw [hbuf] at hnone; cases hnone
    · next buf' rest hsome =>
      rw [hbuf] at hsome
      obtain ⟨rfl, rfl⟩ := Prod.mk.inj (Option.some.inj hsome)
      rw [List.map_cons, List.map_cons, hbytes, ih hrest]

/-- `snprintf` of `text` into a buffer of `size` bytes: the value it returns, which
is the length of the whole text, and the characters before the terminator. -/
def snprintf (size : ℕ) (text : List UInt8) : Int × List UInt8 :=
  (if text.length ≤ intMax then (text.length : Int) else -1, text.take (size - 1))

/-- A text that fits is stored whole. -/
theorem snprintf_of_lt {size : ℕ} {text : List UInt8} (h : text.length < size)
    (hmax : size ≤ intMax) : snprintf size text = ((text.length : Int), text) := by
  rw [snprintf, if_pos (by omega), List.take_of_length_le (by omega)]

/-- `isspace`. -/
def isSpace (b : UInt8) : Bool := decide (b = 32 ∨ 9 ≤ b ∧ b ≤ 13)

def isDigit (b : UInt8) : Bool := decide (48 ≤ b ∧ b ≤ 57)

/-- The number that the digits write. -/
def decimalValue (digits : List UInt8) : ℕ := digits.foldl (fun n b => 10 * n + (b.toNat - 48)) 0

/-- The sign of a number, and what follows it. -/
def takeSign : List UInt8 → Int × List UInt8
  | [] => (1, [])
  | b :: input => if b = 43 then (1, input) else if b = 45 then (-1, input) else (1, b :: input)

/-- `scanf("%d", &n)` with what it leaves of the input. Where it reads no number it
returns 0 or `EOF`, and `n` is not written. A number outside of `int` is stored as
`wide`, which the standard leaves open. -/
def scanfInt (wide : Int) (input : List UInt8) : Option Int × List UInt8 :=
  let signed := takeSign (input.dropWhile isSpace)
  let digits := signed.2.takeWhile isDigit
  let value := signed.1 * decimalValue digits
  (if digits = [] then none
    else some (if -(intMax : Int) - 1 ≤ value ∧ value ≤ intMax then value else wide),
    signed.2.dropWhile isDigit)

/-- `while (getchar() != '\n');`, which does not end at the end of the input. -/
def flushLine : List UInt8 → Option (List UInt8)
  | [] => none
  | b :: input => if b = 10 then some input else flushLine input

theorem takeSign_suffix (input : List UInt8) : (takeSign input).2 <:+ input := by
  unfold takeSign
  split
  · exact List.suffix_rfl
  · split
    · exact List.suffix_cons _ _
    · split
      · exact List.suffix_cons _ _
      · exact List.suffix_rfl

theorem scanfInt_suffix (wide : Int) (input : List UInt8) :
    (scanfInt wide input).2 <:+ input :=
  (List.dropWhile_suffix _).trans ((takeSign_suffix _).trans (List.dropWhile_suffix _))

/-- The flush takes a line, and only a missing newline keeps it from ending. -/
theorem flushLine_eq_some {input rest : List UInt8} (h : flushLine input = some rest) :
    ∃ line, 10 ∉ line ∧ input = line ++ 10 :: rest := by
  induction input with
  | nil => cases h
  | cons b input ih =>
    rw [flushLine] at h
    split at h
    · next hb =>
      obtain rfl := Option.some.inj h
      exact ⟨[], List.not_mem_nil, by rw [hb, List.nil_append]⟩
    · next hb =>
      obtain ⟨line, hline, rfl⟩ := ih h
      refine ⟨b :: line, ?_, rfl⟩
      rw [List.mem_cons, not_or]
      exact ⟨Ne.symm hb, hline⟩

end MeshChat
