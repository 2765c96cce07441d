import NekoLink.Foundations.MontgomeryLadder
import Mathlib.NumberTheory.LucasPrimality

/-!
# Lucas's test

A number is prime when the powers of some other have as many values as it is large, less one. The
prime divisors of that number have to be known; the large ones are shown prime by the same test.

* `cast_powMod`: the powers, computed by squaring.
* `Certificate.prime`: what passes the test is prime.
* `prime_of_covers`: so are all numbers of certificates that refer to each other.
-/

namespace Lucas

open Montgomery

/-- `a` to the power of `e` modulo `n`, for an exponent of `k` bits. -/
def powMod (n a k e : ℕ) : ℕ :=
  (bitsBelow e k).foldl (fun r b => if b then r * r % n * a % n else r * r % n) 1

theorem cast_powMod {n a k e : ℕ} (h : e < 2 ^ k) :
    (powMod n a k e : ZMod n) = (a : ZMod n) ^ e := by
  have hfold : ∀ (bits : List Bool) (r m : ℕ), (r : ZMod n) = (a : ZMod n) ^ m →
      ((bits.foldl (fun r b => if b then r * r % n * a % n else r * r % n) r : ℕ) : ZMod n) =
        (a : ZMod n) ^ ofBits m bits := by
    intro bits
    induction bits with
    | nil => exact fun r m hr => hr
    | cons b bits ih =>
      intro r m hr
      refine ih _ (2 * m + b.toNat) ?_
      cases b with
      | false => simp [hr, ← pow_add, two_mul]
      | true => simp [hr, ← pow_add, two_mul, pow_succ]
  have hbits := hfold (bitsBelow e k) 1 0 (by simp)
  rwa [ofBits_bitsBelow, zero_mul, zero_add, Nat.mod_eq_of_lt h] at hbits

/-- A number `n`, the number `a` whose powers are taken, the bits of the exponents, and the prime
divisors of `n - 1`, each as often as it divides. -/
structure Certificate where
  n : ℕ
  a : ℕ
  k : ℕ
  divisors : List ℕ

namespace Certificate

variable {c : Certificate}

def test (c : Certificate) : Bool :=
  decide (1 < c.n) && decide (c.n - 1 < 2 ^ c.k) && c.divisors.prod == c.n - 1 &&
    powMod c.n c.a c.k (c.n - 1) % c.n == 1 % c.n &&
    c.divisors.all fun q => powMod c.n c.a c.k ((c.n - 1) / q) % c.n != 1 % c.n

theorem test_eq_true : c.test = true ↔ 1 < c.n ∧ c.n - 1 < 2 ^ c.k ∧
    c.divisors.prod = c.n - 1 ∧ powMod c.n c.a c.k (c.n - 1) % c.n = 1 % c.n ∧
      ∀ q ∈ c.divisors, powMod c.n c.a c.k ((c.n - 1) / q) % c.n ≠ 1 % c.n := by
  simp only [test, Bool.and_eq_true, decide_eq_true_eq, beq_iff_eq, bne_iff_ne, List.all_eq_true,
    and_assoc]

/-- **What passes the test is prime**. -/
theorem prime (h : c.test = true) (hdivisors : ∀ q ∈ c.divisors, q.Prime) : c.n.Prime := by
  obtain ⟨-, hlt, hprod, hone, hne⟩ := test_eq_true.mp h
  have hcast : ∀ e ≤ c.n - 1,
      ((c.a : ZMod c.n) ^ e = 1 ↔ powMod c.n c.a c.k e % c.n = 1 % c.n) := by
    intro e he
    rw [← cast_powMod (he.trans_lt hlt), ← Nat.cast_one, ZMod.natCast_eq_natCast_iff']
  refine lucas_primality c.n c.a ((hcast _ le_rfl).mpr hone) fun q hq hdvd => ?_
  rw [← hprod, hq.prime.dvd_prod_iff] at hdvd
  obtain ⟨r, hr, hqr⟩ := hdvd
  rw [(Nat.prime_dvd_prime_iff_eq hq (hdivisors r hr)).mp hqr, Ne, hcast _ (Nat.div_le_self _ _)]
  exact hne r hr

theorem lt_of_mem (h : c.test = true) {q : ℕ} (hq : q ∈ c.divisors) : q < c.n := by
  obtain ⟨hn, -, hprod, -⟩ := test_eq_true.mp h
  have hle := Nat.le_of_dvd (by omega) (hprod ▸ List.dvd_prod hq)
  omega

end Certificate

/-- The divisors that a certificate names are small primes or have certificates. -/
def covers (small : List ℕ) (certificates : List Certificate) : Bool :=
  certificates.all fun c => c.test &&
    c.divisors.all fun q => small.contains q || certificates.any (·.n == q)

theorem prime_of_covers {small : List ℕ} {certificates : List Certificate}
    (hsmall : ∀ q ∈ small, q.Prime) (h : covers small certificates = true) (c : Certificate)
    (hc : c ∈ certificates) : c.n.Prime := by
  simp only [covers, List.all_eq_true, Bool.and_eq_true, Bool.or_eq_true, List.contains_iff_mem,
    List.any_eq_true, beq_iff_eq] at h
  -- a divisor of `n - 1` is below `n`
  induction hn : c.n using Nat.strong_induction_on generalizing c with
  | _ n ih =>
    subst hn
    obtain ⟨htest, hdivisors⟩ := h c hc
    refine Certificate.prime htest fun q hq => ?_
    obtain hq' | ⟨c', hc', rfl⟩ := hdivisors q hq
    · exact hsmall q hq'
    · exact ih _ (Certificate.lt_of_mem htest hq) c' hc' rfl

end Lucas
