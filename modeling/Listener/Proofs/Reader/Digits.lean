/-
Digits, and the numbers that they are.

* `Digit`: a digit in a radix, and the case of its letter; `digitChar_spec` says what the reader
  makes of its character, and `exists_digit` that every hexadecimal digit is one.
* `digitChars`, `number`: the characters of digits, and the number that they are.
* `foldl_digitChars`, `ofDigitChars_digitChars`: the reader gets this number.
-/
import Listener.Proofs.Number.Decimal
import Listener.Reader.Literal

namespace Listener

namespace Reader

open Numeral

/-! ### One digit -/

/-- The digits of all radixes. -/
def alphabet : List Char :=
  "0123456789abcdefghijklmnopqrstuvwxyz".toList

/-- The digit with a value, as a small or as a capital letter. -/
def digitChar (upper : Bool) (value : ℕ) : Char :=
  let c := alphabet.getD value '0'
  if upper then c.toUpper else c

/-- The classes of digits go by their values. -/
theorem digitChar_spec : ∀ (value : Fin 36) (upper : Bool),
    digitValue (digitChar upper value) = value ∧ (digitChar upper value).isAlphanum = true ∧
      (value < 16 → isHexDigit (digitChar upper value) = true) ∧
      (value < 10 → (digitChar upper value).isDigit = true) := by
  decide

/-- A digit in a radix. -/
structure Digit (radix : ℕ) where
  /-- The value of the digit. -/
  value : Fin radix
  /-- Whether a letter is written as a capital. -/
  upper : Bool

namespace Digit

variable {radix : ℕ}

/-- The character of a digit. -/
def char (d : Digit radix) : Char :=
  digitChar d.upper d.value

lemma digitValue_char (hradix : radix ≤ 36) (d : Digit radix) : digitValue d.char = d.value :=
  (digitChar_spec (d.value.castLE hradix) d.upper).1

lemma isAlphanum_char (hradix : radix ≤ 36) (d : Digit radix) : d.char.isAlphanum = true :=
  (digitChar_spec (d.value.castLE hradix) d.upper).2.1

lemma isHexDigit_char (d : Digit 16) : isHexDigit d.char = true :=
  (digitChar_spec (d.value.castLE (by decide)) d.upper).2.2.1 d.value.isLt

lemma isDigit_char (d : Digit 10) : d.char.isDigit = true :=
  (digitChar_spec (d.value.castLE (by decide)) d.upper).2.2.2 d.value.isLt

end Digit

/-- Every hexadecimal digit is the character of a digit. -/
theorem exists_digit {c : Char} (h : isHexDigit c = true) : ∃ d : Digit 16, d.char = c := by
  have hall : ∀ n : Fin 103, isHexDigit (Char.ofNat n) = true →
      ∃ (value : Fin 16) (upper : Bool), digitChar upper value = Char.ofNat n := by
    decide +kernel
  have hlt : c.toNat < 103 := by
    simp only [isHexDigit, Char.isDigit, Bool.or_eq_true, Bool.and_eq_true, decide_eq_true_eq,
      ge_iff_le, UInt32.le_iff_toNat_le, Char.le_def] at h
    have hdigit : '9'.val.toNat = 57 := rfl
    have hlower : 'f'.val.toNat = 102 := rfl
    have hupper : 'F'.val.toNat = 70 := rfl
    have hval : c.toNat = c.val.toNat := rfl
    omega
  obtain ⟨value, upper, hchar⟩ := hall ⟨c.toNat, hlt⟩ (by rwa [Char.ofNat_toNat])
  exact ⟨⟨value, upper⟩, by rw [Digit.char, hchar, Char.ofNat_toNat]⟩

/-! ### Numbers -/

section

variable {radix : ℕ}

/-- The characters of digits. -/
def digitChars (ds : List (Digit radix)) : List Char :=
  ds.map Digit.char

/-- The number that digits are, the last of them counting ones. -/
def number (ds : List (Digit radix)) : ℕ :=
  Nat.ofDigits radix (ds.map fun d => d.value.val).reverse

/-- The digits are added up from the first to the last one. -/
theorem foldl_digitChars (hradix : radix ≤ 36) (ds : List (Digit radix)) :
    (digitChars ds).foldl (fun n c => n * radix + digitValue c) 0 = number ds := by
  rw [number, Nat.ofDigits_eq_foldr, List.foldr_reverse, digitChars, List.foldl_map, List.foldl_map]
  congr 1
  funext n d
  rw [Digit.digitValue_char hradix, Nat.mul_comm, Nat.add_comm, Nat.cast_id]

lemma basedValue?_digitChars (hradix : radix ≤ 36) (ds : List (Digit radix)) :
    basedValue? radix (digitChars ds) = some (number ds) := by
  have hbelow : (digitChars ds).all (fun c => digitValue c < radix) = true := by
    simp [digitChars, Digit.digitValue_char hradix]
  rw [basedValue?, if_pos hbelow, foldl_digitChars hradix]

lemma isAlphanum_digitChars (hradix : radix ≤ 36) (ds : List (Digit radix)) :
    (digitChars ds).all Char.isAlphanum = true := by
  simp [digitChars, Digit.isAlphanum_char hradix]

lemma digitChars_ne_nil {ds : List (Digit radix)} (h : ds ≠ []) : digitChars ds ≠ [] := by
  simpa [digitChars] using h

end

lemma isDigits_digitChars (ds : List (Digit 10)) : Binary64.IsDigits (digitChars ds) := by
  intro c hc
  obtain ⟨d, -, rfl⟩ := List.mem_map.mp hc
  exact d.isDigit_char

lemma isHexDigit_digitChars (ds : List (Digit 16)) :
    ∀ c ∈ digitChars ds, isHexDigit c = true := by
  intro c hc
  obtain ⟨d, -, rfl⟩ := List.mem_map.mp hc
  exact d.isHexDigit_char

/-- Decimal digits have the value of their number. -/
theorem ofDigitChars_digitChars (ds : List (Digit 10)) :
    Nat.ofDigitChars 10 (digitChars ds) 0 = number ds := by
  rw [← foldl_digitChars (by decide), Nat.ofDigitChars_eq_foldl]
  refine List.foldl_ext _ _ _ fun n c hc => ?_
  rw [digitValue, if_pos (isDigits_digitChars ds c hc), Nat.mul_comm]

end Reader

end Listener
