/-
The decimal text of a floating-point number stands for the number.

* `ofDecimal_eq`: a decimal number that is a finite floating-point number is
  read as that number.
* `shortest_reads`: the digits that are chosen for a number read back.
* `decimalText_reads`: the text of a finite number is a sign, digits, a point
  and further digits, which together are read as the number.
-/
import Listener.Proofs.Number.Rounding

namespace Listener

namespace Binary64

/-! ### Exact decimal numbers -/

/-- A decimal number of moderate size that is a finite number is read as it. -/
lemma ofDecimal_eq (negative : Bool) {d m : ℕ} {s e : ℤ} (hcanon : CanonicalFloat m e)
    (hs : s ≤ 400) (hd : -400 ≤ s + digitCount d) (h : (d * 10 ^ s : ℚ) = m * 2 ^ e) :
    ofDecimal negative d s = .finite negative m e hcanon := by
  have hsplit : (10 : ℚ) ^ s = 10 ^ s.toNat / 10 ^ (-s).toNat := by
    rw [← zpow_natCast, ← zpow_natCast, ← zpow_sub₀ (by norm_num)]
    congr 1
    omega
  have hquot : ((d * Nat.pow 10 s.toNat : ℕ) / (Nat.pow 10 (-s).toNat : ℕ) : ℚ) = m * 2 ^ e := by
    rw [← h, hsplit]
    push_cast [Nat.pow_eq]
    ring
  have hpos : 0 < Nat.pow 10 (-s).toNat := by
    rw [Nat.pow_eq]
    positivity
  have hread := ofRatio_eq negative hpos hcanon hquot
  rcases Nat.eq_zero_or_pos d with rfl | hd0
  · -- zero is read without any computation
    rw [← hread]
    simp [ofDecimal, ofRatio]
  · simp only [ofDecimal, hd0.ne', if_false]
    rw [if_neg (by omega), if_neg (by omega), hread]

/-! ### The digits that are chosen -/

lemma ratio_eq (m : ℕ) (e : ℤ) :
    ((ratio m e).1 / (ratio m e).2 : ℚ) = m * 2 ^ e ∧ 0 < (ratio m e).2 := by
  refine ⟨?_, ?_⟩
  · rw [two_zpow_eq]
    simp only [ratio, Nat.pow_eq]
    push_cast
    ring
  · simp only [ratio, Nat.pow_eq]
    positivity

lemma exponent_neg {negative : Bool} {m : ℕ} {e : ℤ} {h : CanonicalFloat m e}
    (hint : isIntegral (.finite negative m e h) = false) : e < 0 := by
  by_contra he
  have : (-e).toNat = 0 := by omega
  simp only [isIntegral, ratio, this, Nat.pow_eq, pow_zero, Nat.mod_one] at hint
  cases hint

/-- The number of digits of a number that is not small. -/
lemma le_digitCount {k n : ℕ} (h : 10 ^ k ≤ n) : k < digitCount n := by
  by_contra hk
  rcases Nat.eq_zero_or_pos k with rfl | hpos
  · have := Nat.length_toDigits_pos (b := 10) (n := n)
    simp only [digitCount] at hk
    omega
  · have := (Nat.length_toDigits_le_iff (b := 10) (n := n) (by norm_num) hpos).mp
      (by simpa [digitCount] using hk)
    omega

/-- With enough decimal places a number is an integer in units of the last one. -/
lemma ratio_ten_pow (m places : ℕ) {k : ℕ} (hk : k ≤ places) :
    (ratio m (-k)).1 * Nat.pow 10 places / (ratio m (-k)).2 =
      m * (5 ^ places * 2 ^ (places - k)) := by
  have hfactor : 10 ^ places = 2 ^ k * (5 ^ places * 2 ^ (places - k)) := by
    rw [show 10 = 5 * 2 from rfl, mul_pow, ← Nat.pow_sub_mul_pow 2 hk]
    ring
  have htwo : (0 : ℕ) < 2 ^ k := by positivity
  simp only [ratio, neg_neg, Int.toNat_natCast, Nat.pow_eq]
  rw [hfactor, show (-(k : ℤ)).toNat = 0 by omega, pow_zero, mul_one, ← mul_assoc, mul_comm m,
    mul_assoc, Nat.mul_div_cancel_left _ htwo]

/-- All digits of a number that is not an integer read back. -/
lemma allDigits_read {negative : Bool} {m : ℕ} {e : ℤ} {h : CanonicalFloat m e}
    (hint : isIntegral (.finite negative m e h) = false) :
    ofDecimal negative ((ratio m e).1 * Nat.pow 10 1074 / (ratio m e).2) (-(1074 : ℕ)) =
      .finite negative m e h := by
  have he := exponent_neg hint
  obtain ⟨-, hemin, -, -⟩ := id h
  obtain ⟨k, hk, rfl⟩ : ∃ k : ℕ, k ≤ 1074 ∧ e = -k := ⟨(-e).toNat, by omega, by omega⟩
  have hm : 0 < m := by
    rcases Nat.eq_zero_or_pos m with rfl | hm
    · simp [isIntegral, ratio] at hint
    · exact hm
  rw [ratio_ten_pow m 1074 hk]
  refine ofDecimal_eq negative h (by norm_num) ?_ ?_
  · have hsize : 10 ^ 700 ≤ m * (5 ^ 1074 * 2 ^ (1074 - k)) := by
      calc 10 ^ 700 ≤ (10 ^ 4) ^ 179 := by
            rw [← pow_mul]
            exact Nat.pow_le_pow_right (by norm_num) (by norm_num)
        _ ≤ (5 ^ 6) ^ 179 := Nat.pow_le_pow_left (by norm_num) 179
        _ = 1 * (5 ^ 1074 * 1) := by rw [← pow_mul, one_mul, mul_one]
        _ ≤ m * (5 ^ 1074 * 2 ^ (1074 - k)) := by
          gcongr
          · exact hm
          · exact Nat.one_le_two_pow
    have := le_digitCount hsize
    push_cast
    omega
  · have hten : (10 : ℚ) ^ (-((1074 : ℕ) : ℤ)) = (5 ^ 1074)⁻¹ * (2 ^ 1074)⁻¹ := by
      rw [zpow_neg, zpow_natCast, show (10 : ℚ) = 5 * 2 by norm_num, mul_pow, mul_inv]
    have htwo : (2 : ℚ) ^ 1074 = 2 ^ (1074 - k) * 2 ^ k := by
      rw [← pow_add, Nat.sub_add_cancel hk]
    rw [hten, htwo, zpow_neg, zpow_natCast]
    push_cast
    field_simp

/-- The digits that are chosen for a number that is not an integer read back, and
at least one of them is a decimal place. -/
lemma shortest_reads {negative : Bool} {m : ℕ} {e : ℤ} {h : CanonicalFloat m e}
    (hint : isIntegral (.finite negative m e h) = false) {digits places : ℕ}
    (hs : shortest (.finite negative m e h) negative (ratio m e).1 (ratio m e).2 =
      (digits, places)) :
    ofDecimal negative digits (-places) = .finite negative m e h ∧ 0 < places := by
  simp only [shortest] at hs
  cases hf : (List.range 1075).findSome? fun k =>
      (neighbour (.finite negative m e h) negative (ratio m e).1 (ratio m e).2 (k + 1)).map
        fun digits => (digits, k + 1) with
  | none =>
    rw [hf, Option.getD_none] at hs
    cases hs
    exact ⟨allDigits_read hint, by norm_num⟩
  | some p =>
    rw [hf, Option.getD_some] at hs
    subst hs
    obtain ⟨k, -, hk⟩ := List.exists_of_findSome?_eq_some hf
    obtain ⟨_, hn, hp⟩ := Option.map_eq_some_iff.mp hk
    cases hp
    exact ⟨ofDecimal_of_neighbour hn, Nat.succ_pos k⟩

/-! ### The text -/

/-- Digits in decimal notation. -/
def IsDigits (cs : List Char) : Prop :=
  ∀ c ∈ cs, c.isDigit = true

lemma isDigits_toDigits (n : ℕ) : IsDigits (Nat.toDigits 10 n) :=
  fun _ hc => Nat.isDigit_of_mem_toDigits (by norm_num) (by norm_num) hc

/-- Digits filled up with zeros keep their value. -/
lemma paddedDigits_spec {width n : ℕ} (hw : 0 < width) (hn : n < 10 ^ width) :
    IsDigits (paddedDigits width n) ∧ (paddedDigits width n).length = width ∧
      ∀ init, Nat.ofDigitChars 10 (paddedDigits width n) init = 10 ^ width * init + n := by
  have hlen : (Nat.toDigits 10 n).length ≤ width :=
    (Nat.length_toDigits_le_iff (by norm_num) hw).mpr hn
  refine ⟨?_, ?_, fun init => ?_⟩
  · intro c hc
    rcases List.mem_append.mp hc with hc | hc
    · rw [List.eq_of_mem_replicate hc]
      rfl
    · exact isDigits_toDigits n c hc
  · simp only [paddedDigits, List.length_append, List.length_replicate]
    omega
  · rw [paddedDigits, Nat.ofDigitChars_append, Nat.ofDigitChars_replicate_zero,
      Nat.ofDigitChars_eq_ofDigitChars_zero, Nat.ofDigitChars_ten_toDigits, ← mul_assoc,
      ← pow_add, Nat.add_sub_cancel' hlen]

/-- The text of a finite number is a sign and digits on both sides of a point, and
the digits are read as the number. -/
theorem decimalText_reads (negative : Bool) {m : ℕ} {e : ℤ} (h : CanonicalFloat m e) :
    ∃ whole fraction,
      decimalText (.finite negative m e h) =
        (if negative then ['-'] else []) ++ (whole ++ '.' :: fraction) ∧
      whole ≠ [] ∧ IsDigits whole ∧ IsDigits fraction ∧
      ofDecimal negative (Nat.ofDigitChars 10 (whole ++ fraction) 0) (0 - fraction.length) =
        .finite negative m e h := by
  cases hint : isIntegral (.finite negative m e h) with
  | true =>
    refine ⟨Nat.toDigits 10 (integralPart (.finite negative m e h)), ['0'], ?_,
      Nat.toDigits_ne_nil, isDigits_toDigits _, by simp [IsDigits], ?_⟩
    · simp [decimalText, hint]
    · have hvalue : Nat.ofDigitChars 10 (Nat.toDigits 10 (integralPart (.finite negative m e h)) ++
          ['0']) 0 = 10 * integralPart (.finite negative m e h) := by
        rw [Nat.ofDigitChars_append, Nat.ofDigitChars_ten_toDigits]
        simp [Nat.ofDigitChars_cons]
      obtain ⟨hratio, hpos⟩ := ratio_eq m e
      rw [hvalue]
      refine ofDecimal_eq negative h (by norm_num) (by simp only [List.length_singleton]; omega) ?_
      -- the digits are ten times the number, which is compensated by the one place
      have hdvd : (ratio m e).2 ∣ (ratio m e).1 := by
        simp only [isIntegral, beq_iff_eq] at hint
        exact Nat.dvd_of_mod_eq_zero hint
      have hpos' : ((ratio m e).2 : ℚ) ≠ 0 := by exact_mod_cast hpos.ne'
      rw [← hratio, integralPart, ← Nat.cast_div hdvd hpos']
      push_cast
      simp only [List.length_cons, List.length_nil]
      norm_num
      ring
  | false =>
    cases hs : shortest (.finite negative m e h) negative (ratio m e).1 (ratio m e).2 with
    | mk digits places =>
      obtain ⟨hread, hplaces⟩ := shortest_reads hint hs
      have hlt : digits % 10 ^ places < 10 ^ places := Nat.mod_lt _ (by positivity)
      obtain ⟨hdig, hlen, hval⟩ := paddedDigits_spec hplaces hlt
      refine ⟨Nat.toDigits 10 (digits / 10 ^ places), paddedDigits places (digits % 10 ^ places),
        ?_, Nat.toDigits_ne_nil, isDigits_toDigits _, hdig, ?_⟩
      · simp [decimalText, hint, hs, Nat.pow_eq]
      · rw [Nat.ofDigitChars_append, Nat.ofDigitChars_ten_toDigits, hval, Nat.div_add_mod, hlen,
          zero_sub]
        exact hread

end Binary64

end Listener
