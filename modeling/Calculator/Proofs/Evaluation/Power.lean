/-
How long a power is, and which powers are refused.

A number of `b` bits lies between `2 ^ (b - 1)` and `2 ^ b`, so its power to the `n` is
longer than `(b - 1) * n` bits and not longer than `b * n`.  The check before a power is
built looks at the first of these bounds only.  Hence both results here: a power that
is refused would really be too long (`raise_exact`), but one that is accepted may be too
long as well (`raise_two_beyond_limit`), by a bit for each unit of the exponent at
most (`bitLength_le_of_raise`).

`Raised` lists the answers there are, each with what led to it.  It is all that is used of
the checks afterwards.
-/
import Calculator.Evaluation.Arithmetic
import Mathlib.Algebra.Ring.Int.Parity

namespace Calculator

/-! ### Binary length -/

/-- A number is no longer than `k` bits exactly if it is below `2 ^ k`. -/
theorem bitLength_le_iff {n k : Nat} : bitLength n ≤ k ↔ n < 2 ^ k := by
  by_cases hn : n = 0
  · subst hn
    exact ⟨fun _ => Nat.two_pow_pos k, fun _ => Nat.zero_le k⟩
  · simp only [bitLength, hn, if_false, Nat.succ_le_iff]
    exact Nat.log2_lt hn

/-- A number is longer than `k` bits exactly if it reaches `2 ^ k`. -/
theorem lt_bitLength_iff {n k : Nat} : k < bitLength n ↔ 2 ^ k ≤ n := by
  rw [← Nat.not_le, bitLength_le_iff, Nat.not_lt]

/-- A power is longer than its exponent times one bit less than its base has. -/
theorem lt_bitLength_pow {b : Nat} (hb : b ≠ 0) (n : Nat) :
    (bitLength b - 1) * n < bitLength (b ^ n) := by
  have hpos : 0 < bitLength b := lt_bitLength_iff.2 (Nat.pos_of_ne_zero hb)
  have hbase : 2 ^ (bitLength b - 1) ≤ b := lt_bitLength_iff.1 (Nat.sub_one_lt_of_lt hpos)
  rw [lt_bitLength_iff]
  calc 2 ^ ((bitLength b - 1) * n)
      = (2 ^ (bitLength b - 1)) ^ n := Nat.pow_mul ..
    _ ≤ b ^ n := Nat.pow_le_pow_left hbase n

/-- A power is no longer than its exponent times what its base has. -/
theorem bitLength_pow_le (b : Nat) {n : Nat} (hn : n ≠ 0) :
    bitLength (b ^ n) ≤ bitLength b * n := by
  have hbase : b < 2 ^ bitLength b := bitLength_le_iff.1 (Nat.le_refl _)
  rw [bitLength_le_iff]
  calc b ^ n
      < (2 ^ bitLength b) ^ n := Nat.pow_lt_pow_left hbase hn
    _ = 2 ^ (bitLength b * n) := (Nat.pow_mul ..).symm

/-- One, as a power of anything to zero, has one bit. -/
theorem bitLength_pow_le_succ (b n : Nat) : bitLength (b ^ n) ≤ max 1 (bitLength b * n) := by
  by_cases hn : n = 0
  · subst hn
    exact Nat.le_max_left _ _
  · exact Nat.le_trans (bitLength_pow_le b hn) (Nat.le_max_right _ _)

/-! ### The answers -/

/-- The limit is far below the largest word, so it does not matter that the product stops there. -/
theorem powerBitLimit_lt_saturatingMul_iff {a b : Nat} :
    powerBitLimit < saturatingMul a b ↔ powerBitLimit < a * b := by
  have hword : powerBitLimit < maxWord := by decide
  rw [saturatingMul, Nat.lt_min]
  exact and_iff_left hword

/-- Zero, one and minus one have their powers. -/
theorem smallPower_eq {base exponent : Int} (hbase : base.natAbs ≤ 1) (h : 0 ≤ exponent) :
    smallPower base exponent = base ^ exponent.toNat := by
  obtain ⟨n, rfl⟩ := Int.eq_ofNat_of_zero_le h
  obtain rfl | rfl | rfl : base = 0 ∨ base = 1 ∨ base = -1 := by omega
  · rw [smallPower, if_pos rfl, Int.toNat_natCast, zero_pow_eq]
    simp
  · simp [smallPower]
  · -- The sign of a power of minus one is the parity of its exponent.
    rw [smallPower, if_neg (by decide), Int.toNat_natCast]
    rcases Nat.even_or_odd n with hn | hn
    · rw [hn.neg_one_pow, if_neg]
      have := Nat.even_iff.1 hn
      omega
    · rw [hn.neg_one_pow, if_pos]
      have := Nat.odd_iff.1 hn
      omega

/-- What raising a base to an exponent comes to, and why. -/
inductive Raised (base exponent : Int) : Except ArithmeticError Int → Prop
  | negative (h : exponent < 0) :
      Raised base exponent (.error (.negativeExponent (Decimal.render exponent)))
  | small (h : 0 ≤ exponent) (hbase : base.natAbs ≤ 1) :
      Raised base exponent (.ok (base ^ exponent.toNat))
  | hugeExponent (hbase : 2 ≤ base.natAbs) (h : exponentLimit ≤ exponent) :
      Raised base exponent (.error (.hugeExponent (Decimal.render exponent)))
  | hugeResult (hbase : 2 ≤ base.natAbs) (h : 0 ≤ exponent) (hlt : exponent < exponentLimit)
      (hlong : powerBitLimit < (bitLength base.natAbs - 1) * exponent.toNat) :
      Raised base exponent
        (.error (.hugeResult (bitLength base.natAbs) (Decimal.render exponent)))
  | large (hbase : 2 ≤ base.natAbs) (h : 0 ≤ exponent) (hlt : exponent < exponentLimit)
      (hshort : (bitLength base.natAbs - 1) * exponent.toNat ≤ powerBitLimit) :
      Raised base exponent (.ok (base ^ exponent.toNat))

namespace Raised

variable {base exponent : Int} {answer : Except ArithmeticError Int}

private theorem raise_eq (h : Raised base exponent answer) : raise base exponent = answer := by
  cases h with
  | negative h => rw [raise, if_pos h]
  | small h hbase => rw [raise, if_neg (Int.not_lt.2 h), if_pos hbase, smallPower_eq hbase h]
  | hugeExponent hbase h =>
      have hpos : 0 ≤ exponentLimit := by decide
      have hsign : ¬ exponent < 0 := Int.not_lt.2 (Int.le_trans hpos h)
      rw [raise, if_neg hsign, if_neg (Nat.not_le.2 hbase), largePower, factorCount, if_neg hsign,
        if_pos h]
      rfl
  | hugeResult hbase h hlt hlong =>
      rw [raise, if_neg (Int.not_lt.2 h), if_neg (Nat.not_le.2 hbase), largePower, factorCount,
        if_neg (Int.not_lt.2 h), if_neg (Int.not_le.2 hlt)]
      exact if_pos (powerBitLimit_lt_saturatingMul_iff.2 hlong)
  | large hbase h hlt hshort =>
      rw [raise, if_neg (Int.not_lt.2 h), if_neg (Nat.not_le.2 hbase), largePower, factorCount,
        if_neg (Int.not_lt.2 h), if_neg (Int.not_le.2 hlt)]
      exact if_neg fun hlong => Nat.not_lt.2 hshort (powerBitLimit_lt_saturatingMul_iff.1 hlong)

/-- One of the answers there always is. -/
theorem exists_answer (base exponent : Int) : ∃ answer, Raised base exponent answer := by
  by_cases hsign : exponent < 0
  · exact ⟨_, .negative hsign⟩
  have h : 0 ≤ exponent := Int.not_lt.1 hsign
  by_cases hbase : base.natAbs ≤ 1
  · exact ⟨_, .small h hbase⟩
  have hbase : 2 ≤ base.natAbs := Nat.not_le.1 hbase
  by_cases hlimit : exponentLimit ≤ exponent
  · exact ⟨_, .hugeExponent hbase hlimit⟩
  have hlt : exponent < exponentLimit := Int.not_le.1 hlimit
  by_cases hlong : powerBitLimit < (bitLength base.natAbs - 1) * exponent.toNat
  · exact ⟨_, .hugeResult hbase h hlt hlong⟩
  · exact ⟨_, .large hbase h hlt (Nat.not_lt.1 hlong)⟩

end Raised

/-- **Raising a base to an exponent comes to one of the answers listed.** -/
theorem raise_eq_iff {base exponent : Int} {answer : Except ArithmeticError Int} :
    raise base exponent = answer ↔ Raised base exponent answer := by
  constructor
  · rintro rfl
    obtain ⟨answer, h⟩ := Raised.exists_answer base exponent
    rw [h.raise_eq]
    exact h
  · exact Raised.raise_eq

/-! ### How long an accepted power is -/

section Accepted

variable {base exponent r : Int}

/-- A power that is accepted is the power. -/
theorem eq_pow_of_raise (h : raise base exponent = .ok r) : r = base ^ exponent.toNat := by
  cases raise_eq_iff.1 h with
  | small | large => rfl

private theorem bitLength_of_raise (h : raise base exponent = .ok r) :
    bitLength r.natAbs ≤ max 1 (bitLength base.natAbs * exponent.toNat) := by
  rw [eq_pow_of_raise h, Int.natAbs_pow]
  exact bitLength_pow_le_succ _ _

/-- **An accepted power is too long by as many bits as its exponent counts at most**, and by no more
than the limit itself. -/
theorem bitLength_le_of_raise (h : raise base exponent = .ok r) :
    bitLength r.natAbs ≤ powerBitLimit + min exponent.toNat powerBitLimit := by
  have hone : 1 ≤ powerBitLimit := by decide
  have hlength := bitLength_of_raise h
  cases raise_eq_iff.1 h with
  | small _ hbase =>
      have hunit : (base ^ exponent.toNat).natAbs < 2 ^ 1 := by
        calc (base ^ exponent.toNat).natAbs
            = base.natAbs ^ exponent.toNat := Int.natAbs_pow ..
          _ ≤ 1 ^ exponent.toNat := Nat.pow_le_pow_left hbase _
          _ < 2 ^ 1 := by simp
      have hbit := bitLength_le_iff.2 hunit
      omega
  | large hbase _ _ hshort =>
      -- The upper bound of the length is the lower one and the exponent.
      obtain ⟨bits, hbits⟩ : ∃ bits, bitLength base.natAbs = bits + 2 :=
        Nat.exists_eq_add_of_le' (lt_bitLength_iff.2 hbase)
      rw [hbits] at hlength hshort
      rw [show bits + 2 - 1 = bits + 1 from rfl] at hshort
      have hsplit : (bits + 2) * exponent.toNat = (bits + 1) * exponent.toNat + exponent.toNat :=
        Nat.succ_mul _ _
      have hle : exponent.toNat ≤ (bits + 1) * exponent.toNat :=
        Nat.le_mul_of_pos_left _ (Nat.succ_pos _)
      omega

/-- **The limit is kept up to the exponent.**  An accepted power is too long by as many bits as its
exponent counts at most, and not at all if the upper bound of its length is within the limit; of the
lower bound this is what was checked. -/
theorem length_of_accepted (h : raise base exponent = .ok r) :
    bitLength r.natAbs ≤ powerBitLimit + exponent.toNat ∧
      (bitLength base.natAbs * exponent.toNat ≤ powerBitLimit →
        bitLength r.natAbs ≤ powerBitLimit) ∧
      (2 ≤ base.natAbs → (bitLength base.natAbs - 1) * exponent.toNat ≤ powerBitLimit) := by
  refine ⟨?_, ?_, ?_⟩
  · have := bitLength_le_of_raise h
    omega
  · intro hupper
    have hone : 1 ≤ powerBitLimit := by decide
    exact Nat.le_trans (bitLength_of_raise h) (Nat.max_le.2 ⟨hone, hupper⟩)
  · intro hbase
    cases raise_eq_iff.1 h with
    | small _ hsmall => exact absurd hsmall (Nat.not_le.2 hbase)
    | large _ _ _ hshort => exact hshort

end Accepted

/-- The power of a base of two bits to the limit is accepted. -/
theorem raise_powerBitLimit {base : Int} (hbase : bitLength base.natAbs = 2) :
    raise base powerBitLimit = .ok (base ^ powerBitLimit) := by
  have hlarge : 2 ≤ base.natAbs := lt_bitLength_iff.1 (hbase ▸ Nat.one_lt_two)
  have hshort : (bitLength base.natAbs - 1) * (powerBitLimit : Int).toNat ≤ powerBitLimit := by
    rw [hbase, Int.toNat_natCast]
    exact Nat.le_of_eq (Nat.one_mul _)
  exact raise_eq_iff.2 (.large hlarge (by decide) (by decide) hshort)

theorem length_of_accepted_three :
    raise 3 powerBitLimit = .ok (3 ^ powerBitLimit) ∧
      bitLength (3 ^ powerBitLimit : Int).natAbs ≤ powerBitLimit + powerBitLimit := by
  have h : raise 3 powerBitLimit = .ok (3 ^ powerBitLimit) := raise_powerBitLimit (by decide)
  exact ⟨h, (length_of_accepted h).1⟩

/-- **An accepted power may be too long.** -/
theorem raise_two_beyond_limit :
    raise 2 2147483647 = .ok (2 ^ powerBitLimit) ∧
      powerBitLimit < bitLength (2 ^ powerBitLimit : Int).natAbs := by
  have hlimit : (2147483647 : Int) = powerBitLimit := by decide
  have htwo : (2 : Int).natAbs = 2 := rfl
  rw [hlimit, Int.natAbs_pow, htwo]
  exact ⟨raise_powerBitLimit (by decide), lt_bitLength_iff.2 (Nat.le_refl _)⟩

/-! ### Which powers are refused -/

section Refused

variable {base exponent : Int} {text : String}

/-- A negative exponent is refused, and it alone is refused as one. -/
theorem raise_eq_negativeExponent_iff :
    raise base exponent = .error (.negativeExponent text) ↔
      exponent < 0 ∧ text = Decimal.render exponent := by
  rw [raise_eq_iff]
  constructor
  · rintro ⟨h⟩
    exact ⟨h, rfl⟩
  · rintro ⟨h, rfl⟩
    exact .negative h

/-- An exponent is too large only for a base whose powers grow. -/
theorem raise_eq_hugeExponent_iff :
    raise base exponent = .error (.hugeExponent text) ↔
      2 ≤ base.natAbs ∧ 2 ^ 32 ≤ exponent ∧ text = Decimal.render exponent := by
  rw [raise_eq_iff]
  constructor
  · intro h
    cases h with
    | hugeExponent hbase h => exact ⟨hbase, h, rfl⟩
  · rintro ⟨hbase, h, rfl⟩
    exact .hugeExponent hbase h

/-- A power that is refused for its length is too long, because the lower bound of its length is. -/
theorem long_of_raise_eq_hugeResult {bits : Nat}
    (h : raise base exponent = .error (.hugeResult bits text)) :
    powerBitLimit < bitLength (base.natAbs ^ exponent.toNat) := by
  cases raise_eq_iff.1 h with
  | hugeResult hbase _ _ hlong =>
      have hne : base.natAbs ≠ 0 := Nat.ne_of_gt (Nat.lt_of_lt_of_le Nat.two_pos hbase)
      exact Nat.lt_trans hlong (lt_bitLength_pow hne _)

/-- What is not refused is answered with the power. -/
theorem raise_eq_pow_or_refused (base exponent : Int) :
    raise base exponent = .ok (base ^ exponent.toNat) ∨ exponent < 0 ∨
      2 ≤ base.natAbs ∧ 2 ^ 32 ≤ exponent ∨
        ∃ bits text, raise base exponent = .error (.hugeResult bits text) := by
  obtain ⟨answer, h⟩ := Raised.exists_answer base exponent
  rw [h.raise_eq]
  cases h with
  | negative h => exact Or.inr (Or.inl h)
  | small | large => exact Or.inl rfl
  | hugeExponent hbase h => exact Or.inr (Or.inr (Or.inl ⟨hbase, h⟩))
  | hugeResult => exact Or.inr (Or.inr (Or.inr ⟨_, _, rfl⟩))

end Refused

/-- **A power is exact, and refused for a reason only.**  A negative exponent is refused whatever
the base, and no other exponent of zero, one or minus one; an exponent of another base is refused
from `2 ^ 32` on; and for its length a power is refused only if it really is too long.  In every
other case the answer is the power, and not longer than twice the limit.  That the product of the
check stops at the largest word makes no difference. -/
theorem raise_exact (base exponent : Int) :
    (∀ text, raise base exponent = .error (.negativeExponent text) ↔
      exponent < 0 ∧ text = Decimal.render exponent) ∧
    (base.natAbs ≤ 1 → 0 ≤ exponent → raise base exponent = .ok (base ^ exponent.toNat)) ∧
    (2 ≤ base.natAbs → ∀ text, raise base exponent = .error (.hugeExponent text) ↔
      2 ^ 32 ≤ exponent ∧ text = Decimal.render exponent) ∧
    (∀ bits text, raise base exponent = .error (.hugeResult bits text) →
      powerBitLimit < bitLength (base.natAbs ^ exponent.toNat)) ∧
    (raise base exponent = .ok (base ^ exponent.toNat) ∨ exponent < 0 ∨
      2 ≤ base.natAbs ∧ 2 ^ 32 ≤ exponent ∨
        ∃ bits text, raise base exponent = .error (.hugeResult bits text)) ∧
    (∀ r, raise base exponent = .ok r →
      r = base ^ exponent.toNat ∧ bitLength r.natAbs ≤ 2 * powerBitLimit) ∧
    (powerBitLimit < saturatingMul (bitLength base.natAbs - 1) exponent.toNat ↔
      powerBitLimit < (bitLength base.natAbs - 1) * exponent.toNat) := by
  refine ⟨fun _ => raise_eq_negativeExponent_iff, ?_, ?_,
    fun _ _ => long_of_raise_eq_hugeResult, raise_eq_pow_or_refused base exponent, ?_,
    powerBitLimit_lt_saturatingMul_iff⟩
  · intro hbase h
    exact raise_eq_iff.2 (.small h hbase)
  · intro hbase text
    exact raise_eq_hugeExponent_iff.trans (and_iff_right hbase)
  · intro r h
    have hlength := bitLength_le_of_raise h
    exact ⟨eq_pow_of_raise h, by omega⟩

end Calculator
