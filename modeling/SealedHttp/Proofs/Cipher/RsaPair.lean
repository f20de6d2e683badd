import Mathlib.FieldTheory.Finite.Basic
import Mathlib.NumberTheory.LucasLehmer
import Mathlib.Tactic.NormNum.Prime
import SealedHttp.Cipher.Rsa.Generate
import SealedHttp.Proofs.Cipher.Rsa

/-!
# Where pairs come from

Two distinct primes and exponents that are inverse to each other for each of them make a pair. This
is what reading a private key checks, and what generating one arranges.
-/

namespace SealedHttp

theorem powMod_eq (b e m : Nat) : powMod b e m = b ^ e % m := by
  fun_induction powMod b e m with
  | case1 => rw [pow_zero]
  | case2 e hpos h hodd ih =>
    have hsquare : h * h % m ≡ b ^ (e / 2) * b ^ (e / 2) [MOD m] := by
      refine (Nat.mod_modEq _ _).trans (Nat.ModEq.mul ?_ ?_) <;>
      · rw [show h = b ^ (e / 2) % m from ih]
        exact Nat.mod_modEq _ _
    calc h * h % m * b % m = b ^ (e / 2) * b ^ (e / 2) * b % m := hsquare.mul_right b
      _ = b ^ e % m := by
        rw [← pow_add, ← pow_succ]
        congr 2
        omega
  | case3 e hpos h heven ih =>
    calc h * h % m = b ^ (e / 2) * b ^ (e / 2) % m := by
          rw [show h = b ^ (e / 2) % m from ih, ← Nat.mul_mod]
      _ = b ^ e % m := by
        rw [← pow_add]
        congr 2
        omega

/-- Raising to a power that is one above a multiple of `p - 1` does nothing modulo `p`. -/
theorem pow_modEq_self {p k : Nat} (hp : p.Prime) (hk : k ≡ 1 [MOD p - 1]) (hpos : 0 < k)
    (m : Nat) : m ^ k ≡ m [MOD p] := by
  obtain ⟨j, hj⟩ := (Nat.modEq_iff_dvd' hpos).mp hk.symm
  have hsplit : m ^ k = (m ^ (p - 1)) ^ j * m := by
    rw [← pow_mul, ← pow_succ]
    congr 1
    omega
  -- Fermat's little theorem needs a base that is no multiple of `p`.
  by_cases hdvd : p ∣ m
  · have hzero : m ≡ 0 [MOD p] := (Nat.modEq_zero_iff_dvd).mpr hdvd
    calc m ^ k ≡ 0 ^ k [MOD p] := hzero.pow k
      _ = 0 := zero_pow hpos.ne'
      _ ≡ m [MOD p] := hzero.symm
  · have hcoprime : Nat.Coprime m p := (hp.coprime_iff_not_dvd.mpr hdvd).symm
    have hfermat : m ^ (p - 1) ≡ 1 [MOD p] := by
      rw [← Nat.totient_prime hp]
      exact Nat.ModEq.pow_totient hcoprime
    calc m ^ k = (m ^ (p - 1)) ^ j * m := hsplit
      _ ≡ 1 ^ j * m [MOD p] := (hfermat.pow j).mul_right m
      _ = m := by rw [one_pow, one_mul]

namespace RsaPublic

theorem isUndoneBy_of_primes {p q e d : Nat} (hp : p.Prime) (hq : q.Prime) (hne : p ≠ q)
    (hpos : 0 < d * e) (hmodp : d * e ≡ 1 [MOD p - 1]) (hmodq : d * e ≡ 1 [MOD q - 1]) :
    IsUndoneBy ⟨p * q, e⟩ d := by
  have hcoprime : Nat.Coprime p q := (Nat.coprime_primes hp hq).mpr hne
  have hpower : ∀ m < p * q, m ^ (d * e) % (p * q) = m := by
    intro m hm
    have hboth : m ^ (d * e) ≡ m [MOD p * q] := (Nat.modEq_and_modEq_iff_modEq_mul hcoprime).mp
      ⟨pow_modEq_self hp hmodp hpos m, pow_modEq_self hq hmodq hpos m⟩
    rw [hboth, Nat.mod_eq_of_lt hm]
  refine ⟨Nat.mul_pos hp.pos hq.pos, ?_, ?_⟩
  · intro m hm
    rw [raise, powMod_eq, powMod_eq, ← Nat.pow_mod, ← pow_mul, hpower m hm]
  · intro m hm
    rw [raise, powMod_eq, powMod_eq, ← Nat.pow_mod, ← pow_mul, Nat.mul_comm, hpower m hm]

end RsaPublic

namespace RsaKeys

/-- Private keys that pass the checks on reading are a pair if their factors are distinct primes. -/
theorem isPair_of_ofParts? {n e d p q : Nat} {k : RsaKeys} (hp : p.Prime) (hq : q.Prime)
    (hne : p ≠ q) (h : ofParts? n e d p q = some k) : k.IsPair := by
  rw [ofParts?] at h
  split at h
  · next hchecked =>
    simp only [Bool.and_eq_true, decide_eq_true_eq] at hchecked
    obtain ⟨⟨⟨-, rfl⟩, hmodp⟩, hmodq⟩ := hchecked
    cases h
    have hpos : 0 < d * e := by
      by_contra hzero
      rw [Nat.eq_zero_of_not_pos hzero, Nat.zero_mod] at hmodp
      cases hmodp
    have hone : ∀ {r : Nat}, d * e % (r - 1) = 1 → d * e ≡ 1 [MOD r - 1] := by
      intro r hmod
      have hself := (Nat.mod_modEq (d * e) (r - 1)).symm
      rwa [hmod] at hself
    exact ⟨d, rfl, RsaPublic.isUndoneBy_of_primes hp hq hne hpos (hone hmodp) (hone hmodq)⟩
  · cases h

/-- The private exponent of generated keys is the inverse of the public one. -/
theorem inverse?_mul {phi d : Nat} (h : inverse? phi = some d) :
    ∃ k, d * usualExponent = 1 + k * phi := by
  obtain ⟨k, hfind, rfl⟩ := Option.map_eq_some_iff.mp h
  refine ⟨k, Nat.div_mul_cancel (Nat.dvd_of_mod_eq_zero ?_)⟩
  simpa using List.find?_some hfind

/-- Generated keys are a pair if their factors are primes. -/
theorem isPair_of_ofPrimes? {bits p q : Nat} {k : RsaKeys} (hp : p.Prime) (hq : q.Prime)
    (h : ofPrimes? bits p q = some k) : k.IsPair := by
  rw [ofPrimes?] at h
  split at h
  · cases h
  · next hsuited =>
    rw [not_or] at hsuited
    obtain ⟨d, hinverse, rfl⟩ := Option.map_eq_some_iff.mp h
    obtain ⟨j, hj⟩ := inverse?_mul hinverse
    refine ⟨d, rfl, RsaPublic.isUndoneBy_of_primes hp hq hsuited.1 (by omega) ?_ ?_⟩
    · rw [hj, Nat.mul_comm (p - 1), ← Nat.mul_assoc]
      exact Nat.add_mul_mod_self_right _ _ _
    · rw [hj, ← Nat.mul_assoc]
      exact Nat.add_mul_mod_self_right _ _ _

/-- A pair of 216 bits, the shortest one with room for a message key. Its factors are the Mersenne
primes of 127 and 89 bits. -/
def mersennePair : RsaKeys where
  shared := {
    modulus := 105312291668557186697918027513529248857806893649219117400977309697
    exponent := usualExponent }
  secret := some 68293824799940193091864384425499989004082341359236580111614123

theorem size_mersennePair : mersennePair.size = 27 := by decide +kernel

theorem isPair_mersennePair : mersennePair.IsPair := by
  have hp : (2 ^ 127 - 1).Prime := lucas_lehmer_sufficiency 127 (by norm_num) (by norm_num)
  have hq : (2 ^ 89 - 1).Prime := lucas_lehmer_sufficiency 89 (by norm_num) (by norm_num)
  exact isPair_of_ofParts? hp hq (by norm_num) (by decide +kernel :
    ofParts? mersennePair.shared.modulus usualExponent
      68293824799940193091864384425499989004082341359236580111614123 (2 ^ 127 - 1) (2 ^ 89 - 1) =
        some mersennePair)

/-- A pair of 86 bits, whose modulus is just as long as the overhead of a block. One of its factors
is the Mersenne prime of 61 bits. -/
def crampedPair : RsaKeys where
  shared := { modulus := 77371162527458907813576743, exponent := usualExponent }
  secret := some 156861273358084760499473

theorem size_crampedPair : crampedPair.size = overhead := by decide +kernel

theorem isPair_crampedPair : crampedPair.IsPair := by
  have hp : (2 ^ 61 - 1).Prime := lucas_lehmer_sufficiency 61 (by norm_num) (by norm_num)
  have hq : (33554393).Prime := by norm_num
  exact isPair_of_ofParts? hp hq (by norm_num) (by decide +kernel :
    ofParts? crampedPair.shared.modulus usualExponent 156861273358084760499473 (2 ^ 61 - 1)
      33554393 = some crampedPair)

end RsaKeys
end SealedHttp
