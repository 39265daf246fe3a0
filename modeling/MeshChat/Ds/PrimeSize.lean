import Mathlib.Order.Bounds.Basic
import MeshChat.Ds.HashMap
import MeshChat.Lib.Runs
import MeshChat.Lib.WordPrimes

/-!
# The prime size of a hash map

`IsPrime` compares squares that wrap around, and is exact all the same: the loop gets to a
divisor or to a square that is larger, whichever comes first, and for a prime the square
comes first. `NextPrime` wraps as well, and above the last prime of 64 bits it comes out
at 2.
-/
namespace MeshChat
open Runs WordPrimes

/-- A turn of the loop that does not leave it: the guard holds, the division by `i` leaves
a remainder, and `i` goes up by two. -/
def TrialStep (n i : UInt64) (_ : Unit) (i' : UInt64) : Prop :=
  i * i ≤ n ∧ n % i ≠ 0 ∧ i' = i + 2

section Trial
variable {n i j : UInt64} {moves : List (Move UInt64 Unit)}

theorem guard_iff : i * i ≤ n ↔ i.toNat * i.toNat % 2 ^ 64 ≤ n.toNat := by
  rw [UInt64.le_iff_toNat_le, UInt64.toNat_mul]

theorem mod_eq_zero_iff : n % i = 0 ↔ i.toNat ∣ n.toNat := by
  rw [← UInt64.toNat_inj, UInt64.toNat_mod]
  exact Nat.dvd_iff_mod_eq_zero.symm

theorem toNat_add_two (h : i.toNat + 2 < 2 ^ 64) : (i + 2).toNat = i.toNat + 2 := by
  rw [UInt64.toNat_add]
  exact Nat.mod_eq_of_lt h

/-- The counter stays odd, also where it wraps. -/
theorem trial_odd (hr : Run (TrialStep n) 3 moves i) : Odd i.toNat := by
  refine hr.invariant (G := fun _ _ => True) (I := fun i => Odd i.toNat) (by decide)
    (fun i _ i' hodd _ hstep => ?_) fun _ _ => trivial
  obtain ⟨-, -, rfl⟩ := hstep
  have htwo : (2 : UInt64).toNat = 2 := rfl
  rw [UInt64.toNat_add, htwo, Nat.odd_iff]
  rw [Nat.odd_iff] at hodd
  omega

/-- The loop goes through its turns. -/
theorem isPrimeLoop_run (hr : Run (TrialStep n) i moves j) (fuel : ℕ) :
    isPrimeLoop n (fuel + moves.length) i = isPrimeLoop n fuel j := by
  induction hr generalizing fuel with
  | start => rfl
  | snoc hr hstep ih =>
    obtain ⟨hguard, hrem, rfl⟩ := hstep
    have hlen := ih (fuel + 1)
    rw [isPrimeLoop, if_pos hguard, if_neg hrem] at hlen
    rwa [List.length_append, List.length_singleton, Nat.add_comm _ 1, ← Nat.add_assoc]

/-- What ends the loop of `IsPrime` at a counter value. -/
def Ends (n : UInt64) (i : ℕ) : Prop := n.toNat < i * i % 2 ^ 64 ∨ i ∣ n.toNat

instance : DecidablePred (Ends n) := fun _ => inferInstanceAs (Decidable (_ ∨ _))

/-- As long as nothing ends it, the loop counts up. -/
theorem trial_run {k : ℕ} (hle : 3 + 2 * k ≤ n.toNat) (hgo : ∀ m < k, ¬Ends n (3 + 2 * m)) :
    ∃ moves i, Run (TrialStep n) 3 moves i ∧ moves.length = k ∧ i.toNat = 3 + 2 * k := by
  induction k with
  | zero => exact ⟨[], 3, .start, rfl, rfl⟩
  | succ k ih =>
    obtain ⟨moves, i, hr, hlen, hi⟩ := ih (by omega) fun m hm => hgo m (by omega)
    obtain ⟨hguard, hrem⟩ := not_or.mp (hgo k k.lt_succ_self)
    rw [← hi] at hguard hrem
    have hlt := n.toNat_lt
    refine ⟨_, i + 2, hr.snoc (e := ()) ⟨guard_iff.mpr (not_lt.mp hguard),
      mt mod_eq_zero_iff.mp hrem, rfl⟩, by simp [hlen], ?_⟩
    rw [toNat_add_two (by omega)]
    omega

/-- The loop ends at the first counter value that ends it, at the number itself at the
latest, and the guard is looked at before the division. -/
theorem isPrimeLoop_eq (hodd : Odd n.toNat) (h3 : 3 ≤ n.toNat) :
    ∃ i, IsLeast {i | Odd i ∧ 3 ≤ i ∧ Ends n i} i ∧
      isPrimeLoop n (2 ^ 63) 3 = some (decide (n.toNat < i * i % 2 ^ 64)) := by
  obtain ⟨top, htop⟩ := hodd
  have hlt := n.toNat_lt
  have hself : Ends n (3 + 2 * (top - 1)) := Or.inr (dvd_of_eq (by omega))
  have hex : ∃ k, Ends n (3 + 2 * k) := ⟨_, hself⟩
  have hk : Nat.find hex ≤ top - 1 := Nat.find_min' hex hself
  obtain ⟨moves, i, hr, hlen, hi⟩ := trial_run (n := n) (k := Nat.find hex) (by omega)
    fun m hm => Nat.find_min hex hm
  have hends : Ends n i.toNat := hi ▸ Nat.find_spec hex
  refine ⟨i.toNat, ⟨⟨trial_odd hr, by omega, hends⟩, ?_⟩, ?_⟩
  · rintro m ⟨⟨l, hl⟩, hm3, hm⟩
    have := Nat.find_min' hex (m := l - 1) (by rwa [show 3 + 2 * (l - 1) = m by omega])
    omega
  · obtain ⟨fuel, hfuel⟩ : ∃ fuel, 2 ^ 63 = fuel + 1 + moves.length :=
      ⟨2 ^ 63 - (moves.length + 1), by omega⟩
    rw [hfuel, isPrimeLoop_run hr, isPrimeLoop]
    by_cases hguard : i * i ≤ n
    · have hnot := not_lt.mpr (guard_iff.mp hguard)
      rw [if_pos hguard, if_pos (mod_eq_zero_iff.mpr (hends.resolve_left hnot)),
        decide_eq_false hnot]
    · rw [if_neg hguard, decide_eq_true (not_le.mp (mt guard_iff.mpr hguard))]

/-- The guard ends the loop exactly for primes: for them a larger square comes first, for
other numbers a factor does, whose square has not wrapped. -/
theorem ends_guard_iff (hodd : Odd n.toNat) (h3 : 3 ≤ n.toNat) {i : ℕ}
    (hi : IsLeast {i | Odd i ∧ 3 ≤ i ∧ Ends n i} i) :
    n.toNat < i * i % 2 ^ 64 ↔ n.toNat.Prime := by
  obtain ⟨⟨-, hi3, hends⟩, hleast⟩ := hi
  constructor
  · intro hguard
    by_contra hn
    obtain ⟨p, hpodd, hp3, hsquare, hdvd⟩ := exists_factor (by omega) hodd hn
    have hle : i * i ≤ p * p := Nat.mul_self_le_mul_self (hleast ⟨hpodd, hp3, Or.inr hdvd⟩)
    exact absurd (hguard.trans_le (Nat.mod_le _ _)) (not_lt.mpr (hle.trans hsquare))
  · intro hn
    have htop : n.toNat < 2 ^ 64 - 7 := by
      by_contra htop
      exact not_prime_of_largest_lt (by omega) n.toNat_lt hn
    obtain ⟨x, hxodd, hx3, hxle, hx⟩ := exists_square_gt (by decide) h3 htop
    rcases hends with hguard | hdvd
    · exact hguard
    · have hself : i = n.toNat := (hn.eq_one_or_self_of_dvd i hdvd).resolve_left (by omega)
      have hix : i ≤ x := hleast ⟨hxodd, hx3, Or.inl hx⟩
      obtain rfl : i = x := by omega
      exact hx

/-- `IsPrime` is exact on all 64-bit numbers. -/
theorem isPrime_eq (n : UInt64) : isPrime n = some (decide n.toNat.Prime) := by
  have htwo : (2 : UInt64).toNat = 2 := rfl
  have hzero : (0 : UInt64).toNat = 0 := rfl
  by_cases hsmall : n < 2
  · rw [UInt64.lt_iff_toNat_lt] at hsmall
    rw [isPrime, if_pos (UInt64.lt_iff_toNat_lt.mpr hsmall), decide_eq_false]
    exact fun hn => absurd hn.two_le (not_le.mpr hsmall)
  by_cases hn2 : n = 2
  · subst hn2
    rfl
  by_cases heven : n % 2 = 0
  · rw [isPrime, if_neg hsmall, if_neg hn2, if_pos heven, decide_eq_false]
    intro hn
    have hdvd := mod_eq_zero_iff.mp heven
    refine hn2 (UInt64.toNat_inj.mp ?_)
    exact ((Nat.prime_dvd_prime_iff_eq Nat.prime_two hn).mp hdvd).symm
  have hodd : Odd n.toNat := Nat.not_even_iff_odd.mp fun h => heven (mod_eq_zero_iff.mpr h.two_dvd)
  have h3 : 3 ≤ n.toNat := by
    rw [UInt64.lt_iff_toNat_lt, not_lt] at hsmall
    obtain ⟨m, hm⟩ := hodd
    omega
  obtain ⟨i, hi, hloop⟩ := isPrimeLoop_eq hodd h3
  rw [isPrime, if_neg hsmall, if_neg hn2, if_neg heven, hloop]
  exact congrArg some (decide_eq_decide.mpr (ends_guard_iff hodd h3 hi))

end Trial

/-- For every 64-bit number the loop of `IsPrime` ends with the right answer, and the
division is never by zero. -/
theorem isPrime_exact (n : UInt64) :
    isPrime n = some (decide n.toNat.Prime) ∧
      ∀ moves i, Run (TrialStep n) 3 moves i → i ≠ 0 := by
  refine ⟨isPrime_eq n, fun moves i hr hzero => ?_⟩
  have hodd := trial_odd hr
  rw [hzero] at hodd
  exact absurd hodd (by decide)

/-- The search passes the numbers that are not prime, also where it wraps. -/
theorem nextPrimeLoop_skip {n : UInt64} {k : ℕ}
    (hgo : ∀ j < k, ¬Nat.Prime ((n.toNat + j) % 2 ^ 64)) (fuel : ℕ) :
    nextPrimeLoop (fuel + k) n = nextPrimeLoop fuel (n + UInt64.ofNat k) := by
  induction k generalizing n with
  | zero => exact congrArg (nextPrimeLoop fuel) (UInt64.add_zero n).symm
  | succ k ih =>
    have hfirst := hgo 0 k.succ_pos
    rw [Nat.add_zero, Nat.mod_eq_of_lt n.toNat_lt] at hfirst
    have hnext : (n + 1).toNat = (n.toNat + 1) % 2 ^ 64 := UInt64.toNat_add n 1
    have hrest := ih (n := n + 1) fun j hj => by
      rw [hnext, Nat.mod_add_mod, Nat.add_assoc, Nat.add_comm 1]
      exact hgo (j + 1) (Nat.succ_lt_succ hj)
    rw [← Nat.add_assoc, nextPrimeLoop, isPrime_eq, decide_eq_false hfirst, UInt64.ofNat_add,
      UInt64.add_comm (UInt64.ofNat k), ← UInt64.add_assoc]
    exact hrest

theorem nextPrimeLoop_prime {p : UInt64} (hp : p.toNat.Prime) (fuel : ℕ) :
    nextPrimeLoop (fuel + 1) p = some p := by
  rw [nextPrimeLoop, isPrime_eq, decide_eq_true hp]

/-- The search gets to the first prime that it meets. -/
theorem nextPrimeLoop_eq {n p : UInt64} {k : ℕ} (hk : k < 2 ^ 64)
    (hgo : ∀ j < k, ¬Nat.Prime ((n.toNat + j) % 2 ^ 64)) (hp : p.toNat.Prime)
    (hnp : (n.toNat + k) % 2 ^ 64 = p.toNat) : nextPrimeLoop (2 ^ 64) n = some p := by
  obtain ⟨fuel, hfuel⟩ : ∃ fuel, 2 ^ 64 = fuel + 1 + k := ⟨2 ^ 64 - (k + 1), by omega⟩
  have hreach : n + UInt64.ofNat k = p := by
    rw [← UInt64.toNat_inj, UInt64.toNat_add, UInt64.toNat_ofNat_of_lt' hk, hnp]
  rw [hfuel, nextPrimeLoop_skip hgo, hreach, nextPrimeLoop_prime hp]

theorem toNat_raise (n least : UInt64) :
    (if n < least then least else n).toNat = max n.toNat least.toNat := by
  split
  · rename_i hsmall
    exact (max_eq_right (UInt64.lt_iff_toNat_lt.mp hsmall).le).symm
  · rename_i hsmall
    exact (max_eq_left (not_lt.mp (mt UInt64.lt_iff_toNat_lt.mpr hsmall))).symm

/-- Up to the last prime of 64 bits `NextPrime` is the next prime. -/
theorem nextPrime_isLeast {n : UInt64} (hn : n.toNat ≤ 2 ^ 64 - 59) :
    ∃ p, nextPrime n = some p ∧ IsLeast {q | q.Prime ∧ n.toNat ≤ q} p.toNat := by
  have hex : ∃ q, q.Prime ∧ n.toNat ≤ q := ⟨_, prime_largest, hn⟩
  obtain ⟨hp, hle⟩ := Nat.find_spec hex
  have hlast : Nat.find hex ≤ 2 ^ 64 - 59 := Nat.find_min' hex ⟨prime_largest, hn⟩
  have hstart : (if n < 2 then 2 else n).toNat = max n.toNat 2 := toNat_raise n 2
  have hmax : max n.toNat 2 ≤ Nat.find hex := max_le hle hp.two_le
  have hvalue : (UInt64.ofNat (Nat.find hex)).toNat = Nat.find hex :=
    UInt64.toNat_ofNat_of_lt' (hlast.trans_lt (by decide))
  refine ⟨UInt64.ofNat (Nat.find hex), ?_, ?_⟩
  · refine nextPrimeLoop_eq (k := Nat.find hex - max n.toNat 2) (by omega) (fun j hj hprime => ?_)
      (hvalue.symm ▸ hp) ?_
    · rw [hstart, Nat.mod_eq_of_lt (by omega)] at hprime
      exact Nat.find_min hex (m := max n.toNat 2 + j) (by omega) ⟨hprime, by omega⟩
    · rw [hstart, hvalue, Nat.mod_eq_of_lt (by omega)]
      omega
  · rw [hvalue]
    exact ⟨⟨hp, hle⟩, fun q hq => Nat.find_min' hex hq⟩

/-- Above it the search wraps around and ends at 2. -/
theorem nextPrime_wraps {n : UInt64} (hn : 2 ^ 64 - 59 < n.toNat) : nextPrime n = some 2 := by
  have hlt := n.toNat_lt
  have hstart : (if n < 2 then 2 else n).toNat = max n.toNat 2 := toNat_raise n 2
  rw [max_eq_left (by omega)] at hstart
  refine nextPrimeLoop_eq (k := 2 ^ 64 - n.toNat + 2) (by omega) (fun j hj hprime => ?_)
    Nat.prime_two ?_
  · rw [hstart] at hprime
    by_cases hwrap : n.toNat + j < 2 ^ 64
    · rw [Nat.mod_eq_of_lt hwrap] at hprime
      exact not_prime_of_largest_lt (by omega) hwrap hprime
    · have htwo := hprime.two_le
      omega
  · rw [hstart]
    change _ = 2
    omega

/-- What `NextPrime` gives is a prime, also where it wrapped. -/
theorem nextPrime_prime {n p : UInt64} (h : nextPrime n = some p) : p.toNat.Prime := by
  by_cases hn : n.toNat ≤ 2 ^ 64 - 59
  · obtain ⟨q, hq, hleast⟩ := nextPrime_isLeast hn
    obtain rfl := Option.some.inj (hq.symm.trans h)
    exact hleast.1.1
  · obtain rfl := Option.some.inj ((nextPrime_wraps (not_le.mp hn)).symm.trans h)
    exact Nat.prime_two

namespace HashMap
variable {K V : Type*} {hashFunc : K → UInt64} {keysEqualFunc : K → K → Bool}

/-- The number of buckets that the header and the comments promise: the smallest prime
from the requested capacity and the minimum on. -/
def DocumentedSize (capacity : UInt64) (size : ℕ) : Prop :=
  IsLeast {p | p.Prime ∧ max capacity.toNat minCapacity.toNat ≤ p} size

theorem create_length {capacity prime : UInt64}
    (hprime : nextPrime (if capacity < minCapacity then minCapacity else capacity) = some prime)
    {allocMap allocBuckets : Bool} {map : HashMap hashFunc keysEqualFunc V}
    (h : create allocMap allocBuckets capacity = some map) :
    map.buckets.length = prime.toNat := by
  simp only [create, hprime] at h
  split_ifs at h
  obtain rfl := Option.some.inj h
  exact List.length_replicate

/-- The search of `NextPrime` ends for every capacity. It does not go below the capacity,
and a new map has the documented number of buckets, exactly up to the last prime of 64
bits. -/
theorem create_sized_iff (hashFunc : K → UInt64) (keysEqualFunc : K → K → Bool) (V : Type*)
    (capacity : UInt64) :
    (∃ prime, nextPrime capacity = some prime ∧
        (capacity.toNat ≤ prime.toNat ↔ capacity.toNat ≤ 2 ^ 64 - 59)) ∧
      ∀ allocMap allocBuckets (map : HashMap hashFunc keysEqualFunc V),
        create allocMap allocBuckets capacity = some map →
          (DocumentedSize capacity map.buckets.length ↔ capacity.toNat ≤ 2 ^ 64 - 59) := by
  have hrequest := toNat_raise capacity minCapacity
  by_cases hcapacity : capacity.toNat ≤ 2 ^ 64 - 59
  · refine ⟨?_, fun allocMap allocBuckets map h => ?_⟩
    · obtain ⟨prime, hprime, ⟨-, hle⟩, -⟩ := nextPrime_isLeast hcapacity
      exact ⟨prime, hprime, iff_of_true hle hcapacity⟩
    · obtain ⟨prime, hprime, hleast⟩ :=
        nextPrime_isLeast (hrequest.trans_le (max_le hcapacity (by decide)))
      rw [hrequest] at hleast
      rw [create_length hprime h]
      exact iff_of_true hleast hcapacity
  · refine ⟨⟨2, nextPrime_wraps (not_le.mp hcapacity), iff_of_false (fun hle => ?_) hcapacity⟩,
      fun allocMap allocBuckets map h => iff_of_false (fun hleast => ?_) hcapacity⟩
    · change _ ≤ 2 at hle
      omega
    · have hlarge := (not_le.mp hcapacity).trans_le ((le_max_left _ _).trans hrequest.ge)
      have hle := (le_max_left _ _).trans hleast.1.2
      rw [create_length (nextPrime_wraps hlarge) h] at hle
      change _ ≤ 2 at hle
      omega

theorem create_sized_seventeen :
    create true true 16 = some (⟨List.replicate 17 none, 0⟩ :
        HashMap (fun key : UInt64 => key) (fun a b => decide (a = b)) ℕ) ∧
      DocumentedSize 16 17 := by
  have hprime : nextPrime 16 = some 17 := by decide
  have hcreate : create true true 16 = some (⟨List.replicate 17 none, 0⟩ :
      HashMap (fun key : UInt64 => key) (fun a b => decide (a = b)) ℕ) := by
    have hmin : (if (16 : UInt64) < minCapacity then minCapacity else 16) = 16 := rfl
    simp only [create, hmin, hprime]
    rfl
  have hsized := (create_sized_iff (fun key : UInt64 => key) (fun a b => decide (a = b)) ℕ 16).2
    true true _ hcreate
  exact ⟨hcreate, hsized.mpr (by decide)⟩

/-- The largest capacity gets a table of two buckets. -/
theorem create_largest :
    create true true 0xFFFFFFFFFFFFFFFF = some (⟨[none, none], 0⟩ :
        HashMap (fun key : UInt64 => key) (fun a b => decide (a = b)) ℕ) ∧
      ¬DocumentedSize 0xFFFFFFFFFFFFFFFF 2 := by
  have hprime : nextPrime 0xFFFFFFFFFFFFFFFF = some 2 := by decide
  refine ⟨?_, fun hleast => ?_⟩
  · have hmin : (if (0xFFFFFFFFFFFFFFFF : UInt64) < minCapacity then minCapacity
        else 0xFFFFFFFFFFFFFFFF) = 0xFFFFFFFFFFFFFFFF := rfl
    simp only [create, hmin, hprime]
    rfl
  · exact absurd ((le_max_left _ _).trans hleast.1.2) (by decide)

end HashMap
end MeshChat
