import Mathlib.Data.Stream.Init
import Mathlib.Tactic

/-!
# Moving a block through calls that may move less

A block of known size crosses a stream by calls that each move at most a
scheduled number of its elements. A scheduled zero stands for a call that
fails. A schedule never ends, so it covers a loop however many calls it needs.
-/
namespace Chunked

abbrev Schedule := Stream' ℕ

/-- No call fails. -/
def Flows (sched : Schedule) : Prop := ∀ i, 0 < sched.get i

theorem Flows.head {sched : Schedule} (h : Flows sched) : 0 < sched.head := h 0

theorem Flows.tail {sched : Schedule} (h : Flows sched) : Flows sched.tail := fun i => h (i + 1)

/-- A schedule without failures. -/
theorem flows_const {n : ℕ} (h : 0 < n) : Flows (Stream'.const n) := fun _ => h

variable {α : Type*}

structure Sent (α : Type*) where
  ok : Bool
  stream : List α
  sched : Schedule

/-- Write `block` from position `moved` on behind what is on the stream. -/
def send (sched : Schedule) (block : List α) (moved : ℕ) (stream : List α) : Sent α :=
  if moved < block.length then
    let n := min sched.head (block.length - moved)
    if n = 0 then ⟨false, stream, sched.tail⟩
    else send sched.tail block (moved + n) (stream ++ (block.drop moved).take n)
  else ⟨true, stream, sched⟩
termination_by block.length - moved

/-- A write that succeeds puts the whole rest of the block on the stream. -/
theorem send_stream {sched : Schedule} {block stream : List α} {moved : ℕ}
    (h : (send sched block moved stream).ok = true) :
    (send sched block moved stream).stream = stream ++ block.drop moved := by
  fun_induction send sched block moved stream with
  | case1 sched moved stream hlt n hn => contradiction
  | case2 sched moved stream hlt n hn ih =>
    rw [ih h, List.append_assoc, ← List.drop_drop, List.take_append_drop]
  | case3 sched moved stream hle => rw [List.drop_of_length_le (by omega), List.append_nil]

/-- Without failing calls a write succeeds. -/
theorem send_flows {sched : Schedule} (hf : Flows sched) (block stream : List α) (moved : ℕ) :
    (send sched block moved stream).ok = true ∧ Flows (send sched block moved stream).sched := by
  fun_induction send sched block moved stream with
  | case1 sched moved stream hlt n hn =>
    have := hf.head
    omega
  | case2 sched moved stream hlt n hn ih => exact ih hf.tail
  | case3 sched moved stream hle => exact ⟨rfl, hf⟩

structure Received (α : Type*) where
  ok : Bool
  block : List α
  stream : List α
  sched : Schedule

/-- Read until `len` elements are there. A stream that has run out was closed by
its writer; reading it fails. -/
def recv (sched : Schedule) (len : ℕ) (block stream : List α) : Received α :=
  if block.length < len then
    let n := min sched.head (min (len - block.length) stream.length)
    if n = 0 then ⟨false, block, stream, sched.tail⟩
    else recv sched.tail len (block ++ stream.take n) (stream.drop n)
  else ⟨true, block, stream, sched⟩
termination_by len - block.length
decreasing_by simp only [List.length_append, List.length_take]; omega

/-- A read that succeeds moves exactly `len` elements, in order. -/
theorem recv_block {sched : Schedule} {len : ℕ} {block stream : List α}
    (h : (recv sched len block stream).ok = true) (hle : block.length ≤ len) :
    (recv sched len block stream).block.length = len ∧
      (recv sched len block stream).block ++ (recv sched len block stream).stream =
        block ++ stream := by
  fun_induction recv sched len block stream with
  | case1 sched block stream hlt n hn => contradiction
  | case2 sched block stream hlt n hn ih =>
    obtain ⟨hlen, happ⟩ := ih h (by simp only [List.length_append, List.length_take]; omega)
    exact ⟨hlen, by rw [happ, List.append_assoc, List.take_append_drop]⟩
  | case3 sched block stream hnlt => exact ⟨by change block.length = len; omega, rfl⟩

/-- Calls that move `left` elements, none of which fails, leave the schedule `later`. -/
inductive Moves : Schedule → ℕ → Schedule → Prop
  | done (sched : Schedule) : Moves sched 0 sched
  | call {sched later : Schedule} {left : ℕ} : 0 < sched.head → 0 < left →
      Moves sched.tail (left - sched.head) later → Moves sched left later

/-- Without failing calls any number of elements is moved. -/
theorem Flows.moves {sched : Schedule} (hf : Flows sched) (left : ℕ) :
    ∃ later, Flows later ∧ Moves sched left later := by
  induction left using Nat.strong_induction_on generalizing sched with
  | _ left ih =>
    rcases Nat.eq_zero_or_pos left with rfl | hpos
    · exact ⟨sched, hf, .done sched⟩
    · obtain ⟨later, hlater, hmoves⟩ := ih (left - sched.head) (by have := hf.head; omega) hf.tail
      exact ⟨later, hlater, .call hf.head hpos hmoves⟩

/-- A read succeeds where the calls move what is missing and the stream holds it. -/
theorem recv_of_moves {sched later : Schedule} {left : ℕ} (h : Moves sched left later)
    {block stream : List α} (hle : left ≤ stream.length) :
    recv sched (block.length + left) block stream =
      ⟨true, block ++ stream.take left, stream.drop left, later⟩ := by
  induction h generalizing block stream with
  | done sched => rw [recv, if_neg (by omega)]; simp
  | @call sched later left hhead hpos _ ih =>
    have hn : min sched.head (min (block.length + left - block.length) stream.length) =
        min sched.head left := by omega
    have hlen : (block ++ stream.take (min sched.head left)).length + (left - sched.head) =
        block.length + left := by
      simp only [List.length_append, List.length_take]
      omega
    have hrest := @ih (block ++ stream.take (min sched.head left))
      (stream.drop (min sched.head left)) (by simp only [List.length_drop]; omega)
    have hsplit : min sched.head left + (left - sched.head) = left := by omega
    rw [hlen, List.drop_drop, List.append_assoc, ← List.take_add, hsplit] at hrest
    rw [recv, if_pos (by omega)]
    simp only [hn, if_neg (show min sched.head left ≠ 0 by omega)]
    exact hrest

/-- A read that succeeds found what is missing, moved by calls that do not fail. -/
theorem moves_of_recv {sched : Schedule} {len : ℕ} {block stream : List α}
    (h : (recv sched len block stream).ok = true) :
    len - block.length ≤ stream.length ∧
      Moves sched (len - block.length) (recv sched len block stream).sched := by
  fun_induction recv sched len block stream with
  | case1 sched block stream hlt n hn => contradiction
  | case2 sched block stream hlt n hn ih =>
    obtain ⟨hle, hmoves⟩ := ih h
    simp only [List.length_append, List.length_take, List.length_drop] at hle hmoves
    have hleft : len - (block.length + min n stream.length) =
        len - block.length - sched.head := by omega
    rw [hleft] at hmoves
    exact ⟨by omega, .call (by omega) (by omega) hmoves⟩
  | case3 sched block stream hnlt =>
    rw [show len - block.length = 0 by omega]
    exact ⟨Nat.zero_le _, .done sched⟩

end Chunked
