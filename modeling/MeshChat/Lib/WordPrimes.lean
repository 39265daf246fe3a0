import Mathlib.NumberTheory.LucasPrimality
import Mathlib.Tactic

/-!
# Squares and primes of machine words

A trial division on words compares its squares after they have wrapped. Two facts decide
whether it still ends at the right place: a composite word has a factor whose square does
not wrap, and a word that is not one of the last seven has an odd number up to it whose
wrapped square is larger. Both are here, with the largest prime of 64 bits.
-/
namespace WordPrimes

/-- What leaves 1 modulo 8 is the square of an odd number modulo every power of two,
and the number can be taken from the first quarter. -/
theorem exists_root {a : ℤ} (ha : 8 ∣ 1 - a) (k : ℕ) :
    ∃ x : ℤ, Odd x ∧ 0 < x ∧ x < 2 ^ (k + 1) ∧ 2 ^ (k + 3) ∣ x * x - a := by
  induction k with
  | zero => exact ⟨1, odd_one, by decide, by decide, by simpa using ha⟩
  | succ k ih =>
    obtain ⟨x, hodd, hpos, hlt, c, hc⟩ := ih
    rcases Int.even_or_odd c with ⟨d, hd⟩ | hcodd
    · refine ⟨x, hodd, hpos, hlt.trans (by rw [pow_succ _ (k + 1)]; linarith), d, ?_⟩
      rw [hc, hd]
      ring
    · have heven : Even ((2 : ℤ) ^ (k + 1)) := (Int.even_pow' k.succ_ne_zero).mpr even_two
      obtain ⟨d, hd⟩ := heven.add (hcodd.sub_odd hodd)
      have hmirror : (2 : ℤ) ^ (k + 2) = 2 * 2 ^ (k + 1) := by ring
      refine ⟨2 ^ (k + 2) - x, (hmirror ▸ even_two_mul _).sub_odd hodd, by linarith,
        by linarith, d, ?_⟩
      calc (2 ^ (k + 2) - x) * (2 ^ (k + 2) - x) - a
          = 2 ^ (k + 3) * (2 ^ (k + 1) + (c - x)) := by linear_combination hc
        _ = 2 ^ (k + 1 + 3) * d := by rw [hd]; ring

/-- The largest word that leaves 1 modulo 8 is such a square. -/
theorem exists_root_top {w : ℕ} (hw : 4 ≤ w) :
    ∃ x, Odd x ∧ 3 ≤ x ∧ x < 2 ^ (w - 2) ∧ x * x % 2 ^ w = 2 ^ w - 7 := by
  obtain ⟨k, rfl⟩ := Nat.exists_eq_add_of_le' hw
  obtain ⟨x, hodd, hpos, hlt, hdvd⟩ := exists_root (a := -7) (by decide) (k + 1)
  lift x to ℕ using hpos.le
  have hword : 16 ≤ 2 ^ (k + 4) := by
    have := Nat.one_le_two_pow (n := k)
    rw [pow_add]
    omega
  have hsquare : x * x % 2 ^ (k + 4) = 2 ^ (k + 4) - 7 := by
    have hmod : x * x ≡ 2 ^ (k + 4) - 7 [MOD 2 ^ (k + 4)] := by
      rw [Nat.modEq_iff_dvd, ← dvd_neg]
      push_cast [Nat.cast_sub (show 7 ≤ 2 ^ (k + 4) by omega)]
      obtain ⟨d, hd⟩ := hdvd
      exact ⟨d - 1, by linear_combination hd⟩
    rw [hmod, Nat.mod_eq_of_lt (by omega)]
  refine ⟨x, by exact_mod_cast hodd, ?_, by exact_mod_cast hlt, hsquare⟩
  obtain ⟨m, hm⟩ : Odd x := by exact_mod_cast hodd
  by_contra hsmall
  obtain rfl : x = 1 := by omega
  rw [Nat.mod_eq_of_lt (by omega)] at hsquare
  omega

/-- A number below a quarter of the words has an odd number after its root whose square
does not wrap. -/
theorem exists_square_gt_of_small {w n : ℕ} (hw : 4 ≤ w) (h3 : 3 ≤ n) (hn : n < 2 ^ (w - 2)) :
    ∃ i, Odd i ∧ 3 ≤ i ∧ i ≤ n ∧ n < i * i % 2 ^ w := by
  have hroot : n.sqrt * n.sqrt ≤ n := n.sqrt_le
  have hone : 1 ≤ n.sqrt := Nat.sqrt_pos.mpr (by omega)
  obtain ⟨i, hodd, hlt, hle⟩ : ∃ i, Odd i ∧ n.sqrt < i ∧ i ≤ n.sqrt + 2 := by
    rcases Nat.even_or_odd n.sqrt with heven | hodd
    · exact ⟨n.sqrt + 1, heven.add_one, by omega, by omega⟩
    · exact ⟨n.sqrt + 2, hodd.add_even even_two, by omega, by omega⟩
  have hword : 2 ^ w = 4 * 2 ^ (w - 2) := (pow_mul_pow_sub 2 (show 2 ≤ w by omega)).symm
  have hquarter : 4 ≤ 2 ^ (w - 2) := Nat.pow_le_pow_right two_pos (show 2 ≤ w - 2 by omega)
  have hnowrap : i * i < 2 ^ w := by
    rcases Nat.eq_or_lt_of_le hone with hone | htwo
    · have : i * i ≤ 3 * 3 := Nat.mul_le_mul (by omega) (by omega)
      omega
    · have : i * i ≤ (2 * n.sqrt) * (2 * n.sqrt) := Nat.mul_le_mul (by omega) (by omega)
      nlinarith
  obtain ⟨m, hm⟩ := hodd
  refine ⟨i, ⟨m, hm⟩, by omega, ?_, ?_⟩
  · rcases Nat.eq_or_lt_of_le hone with hone | htwo
    · omega
    · have : 2 * n.sqrt ≤ n.sqrt * n.sqrt := Nat.mul_le_mul_right _ htwo
      omega
  · rw [Nat.mod_eq_of_lt hnowrap]
    exact Nat.sqrt_lt.mp hlt

/-- Below the last seven words there is a larger wrapped square, of an odd number that is
not larger. -/
theorem exists_square_gt {w n : ℕ} (hw : 4 ≤ w) (h3 : 3 ≤ n) (hn : n < 2 ^ w - 7) :
    ∃ i, Odd i ∧ 3 ≤ i ∧ i ≤ n ∧ n < i * i % 2 ^ w := by
  by_cases hsmall : n < 2 ^ (w - 2)
  · exact exists_square_gt_of_small hw h3 hsmall
  · obtain ⟨x, hodd, hx3, hlt, hsquare⟩ := exists_root_top hw
    exact ⟨x, hodd, hx3, by omega, by omega⟩

/-- An odd number that is not prime has an odd factor up to its root. -/
theorem exists_factor {n : ℕ} (h2 : 2 ≤ n) (hodd : Odd n) (hn : ¬n.Prime) :
    ∃ p, Odd p ∧ 3 ≤ p ∧ p * p ≤ n ∧ p ∣ n := by
  have hdvd := n.minFac_dvd
  have hp : n.minFac.Prime := Nat.minFac_prime (by omega)
  obtain ⟨m, hm⟩ : Odd n.minFac := hodd.of_dvd_nat hdvd
  have hsquare := Nat.minFac_sq_le_self (by omega) hn
  have htwo := hp.two_le
  exact ⟨n.minFac, ⟨m, hm⟩, by omega, by rwa [← sq], hdvd⟩

/-- Lucas's test with the prime factors of `p - 1` as a list. -/
theorem prime_of_factors {p : ℕ} (a : ZMod p) (factors : List ℕ)
    (hfactors : ∀ q ∈ factors, q.Prime) (hprod : p - 1 = factors.prod) (hone : a ^ (p - 1) = 1)
    (hne : ∀ q ∈ factors, a ^ ((p - 1) / q) ≠ 1) : p.Prime := by
  refine lucas_primality p a hone fun q hq hdvd => hne q ?_
  rw [hprod, hq.prime.dvd_prod_iff] at hdvd
  obtain ⟨r, hr, hqr⟩ := hdvd
  rwa [(Nat.prime_dvd_prime_iff_eq hq (hfactors r hr)).mp hqr]

/-- The large factor of the number before it. -/
theorem prime_5594472617641 : Nat.Prime 5594472617641 := by
  refine prime_of_factors (13 : ZMod 5594472617641) [2, 2, 2, 3, 5, 1427, 2131, 15331]
    ?_ rfl (by reduce_mod_char) ?_
  · simp only [List.forall_mem_cons]
    norm_num
  · simp only [List.forall_mem_cons]
    norm_num
    reduce_mod_char
    decide

theorem prime_largest : Nat.Prime (2 ^ 64 - 59) := by
  have hvalue : 2 ^ 64 - 59 = 18446744073709551557 := by norm_num
  rw [hvalue]
  refine prime_of_factors (2 : ZMod 18446744073709551557) [2, 2, 11, 137, 547, 5594472617641]
    ?_ rfl (by reduce_mod_char) ?_
  · simp only [List.forall_mem_cons]
    exact ⟨Nat.prime_two, Nat.prime_two, by norm_num, by norm_num, by norm_num,
      prime_5594472617641, List.forall_mem_nil _⟩
  · simp only [List.forall_mem_cons]
    norm_num
    reduce_mod_char
    decide

/-- Factors of the words above it. -/
def smallFactors : List ℕ :=
  [2, 3, 5, 7, 11, 13, 17, 19, 29, 31, 41, 53, 827, 11071, 139646831]

theorem exists_smallFactor : ∀ j < 58, ∃ d ∈ smallFactors, d ∣ 2 ^ 64 - 58 + j := by
  decide

theorem smallFactors_lt : ∀ d ∈ smallFactors, 2 ≤ d ∧ d < 2 ^ 64 - 59 := by decide

theorem not_prime_of_largest_lt {n : ℕ} (hlt : 2 ^ 64 - 59 < n) (hn : n < 2 ^ 64) :
    ¬n.Prime := by
  obtain ⟨d, hd, hdvd⟩ := exists_smallFactor (n - (2 ^ 64 - 58)) (by omega)
  rw [Nat.add_sub_cancel' (by omega)] at hdvd
  obtain ⟨htwo, hsmall⟩ := smallFactors_lt d hd
  exact Nat.not_prime_of_dvd_of_lt hdvd htwo (hsmall.trans hlt)

end WordPrimes
