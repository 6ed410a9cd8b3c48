/-
Integer literals: which number each of them is read as.

* `Figures`: a number as it is written, in decimal or hexadecimal digits or behind its radix;
  `magnitude?_chars` and `form_magnitude` say what the reader makes of it.
* `IntegerLiteral`: a sign and figures, with the integer that they are; `form_text` is the value of
  its text.
* `IntegerLiteral.ReadsFrom`: the literal is read as its integer down to a lowest one, and up to the
  highest one of 64 bits; `readsFrom_min` says which lowest integer the reader has.
* `readsFrom_iff`: the literals that are read as if integers had 64 bits.
-/
import Listener.Proofs.Reader.Digits
import Listener.Proofs.Reader.Reprint
import Listener.Proofs.Reader.SelfContained

namespace Listener

namespace Reader

open Numeral

/-! ### Figures -/

/-- The letter for numbers of any size, or nothing. -/
def suffixChars (suffix : Bool) : List Char :=
  if suffix then ['N'] else []

/-- The letter behind the zero of a hexadecimal number. -/
def hexMark (upper : Bool) : Char :=
  if upper then 'X' else 'x'

/-- The letter behind a radix. -/
def radixMark (upper : Bool) : Char :=
  if upper then 'R' else 'r'

/-- A number without a sign, as it is written. -/
inductive Figures where
  /-- Decimal digits. -/
  | decimal (digits : List (Digit 10)) (hdigits : digits ≠ []) (suffix : Bool)
  /-- Hexadecimal digits behind `0x`. -/
  | hexadecimal (upper : Bool) (digits : List (Digit 16)) (hdigits : digits ≠ []) (suffix : Bool)
  /-- Digits in a radix, which stands in front of them in one or two decimal digits and the letter
  `r`. -/
  | based (places : List (Digit 10)) (hplaces : places.length = 1 ∨ places.length = 2)
    (hradix : 2 ≤ number places ∧ number places ≤ 36) (upper : Bool)
    (digits : List (Digit (number places))) (hdigits : digits ≠ [])

namespace Figures

/-- The characters of figures. -/
def chars : Figures → List Char
  | decimal digits _ suffix => digitChars digits ++ suffixChars suffix
  | hexadecimal upper digits _ suffix =>
    '0' :: hexMark upper :: (digitChars digits ++ suffixChars suffix)
  | based places _ _ upper digits _ =>
    digitChars places ++ radixMark upper :: digitChars digits

/-- The number that figures are. -/
def value : Figures → ℕ
  | decimal digits _ _ => number digits
  | hexadecimal _ digits _ _ => number digits
  | based _ _ _ _ digits _ => number digits

/-- Whether the digits are decimal. -/
def isDecimal : Figures → Bool
  | decimal .. => true
  | _ => false

/-- What the reader makes of figures. -/
def magnitude : Figures → Magnitude
  | decimal digits _ _ => .whole (digitChars digits)
  | hexadecimal _ digits _ _ => .based 16 (digitChars digits)
  | based places _ _ _ digits _ => .based (number places) (digitChars digits)

lemma places_ne_nil {places : List (Digit 10)}
    (hplaces : places.length = 1 ∨ places.length = 2) : places ≠ [] := by
  rintro rfl
  simp at hplaces

/-- Hexadecimal digits are found, with a suffix or without. -/
lemma hex?_digitChars (upper : Bool) {digits : List (Digit 16)} (hdigits : digits ≠ [])
    (suffix : Bool) :
    hex? ('0' :: hexMark upper :: (digitChars digits ++ suffixChars suffix)) =
      some (.based 16 (digitChars digits)) := by
  have hstop : ∀ c, (suffixChars suffix).head? = some c → isHexDigit c = false := by
    cases suffix <;> rintro _ ⟨⟩
    rfl
  obtain ⟨htake, hdrop⟩ := Text.span_class (isHexDigit_digitChars digits) _ hstop
  simp only [hex?, htake, hdrop]
  cases upper <;> cases suffix <;> simp [digitChars_ne_nil hdigits, suffixChars, hexMark]

/-- Digits behind their radix are found. -/
lemma radix?_digitChars {places : List (Digit 10)}
    (hplaces : places.length = 1 ∨ places.length = 2) (hradix : number places ≤ 36) (upper : Bool)
    {digits : List (Digit (number places))} (hdigits : digits ≠ []) :
    radix? (digitChars places ++ radixMark upper :: digitChars digits) =
      some (.based (number places) (digitChars digits)) := by
  have hstop : ∀ c, (radixMark upper :: digitChars digits).head? = some c →
      c.isDigit = false := by
    cases upper <;> rintro _ ⟨⟩ <;> rfl
  obtain ⟨htake, hdrop⟩ := Text.span_class (isDigits_digitChars places) _ hstop
  have hlength : (digitChars places).length = 1 ∨ (digitChars places).length = 2 := by
    simpa [digitChars] using hplaces
  simp only [radix?, htake, hdrop, ofDigitChars_digitChars, isAlphanum_digitChars hradix, hlength]
  cases upper <;> simp [digitChars_ne_nil hdigits, radixMark]

/-- Figures are a magnitude. -/
theorem magnitude?_chars (f : Figures) : magnitude? f.chars = some f.magnitude := by
  cases f with
  | decimal digits hdigits suffix =>
    refine magnitude?_whole (isDigits_digitChars digits) (digitChars_ne_nil hdigits) ?_
    cases suffix <;> rfl
  | hexadecimal upper digits hdigits suffix =>
    rw [chars, magnitude?, hex?_digitChars upper hdigits]
    rfl
  | based places hplaces hradix upper digits hdigits =>
    have hne := digitChars_ne_nil (places_ne_nil hplaces)
    have hhex : hex? (digitChars places ++ radixMark upper :: digitChars digits) = none := by
      refine hex?_eq_none fun x es => ne_x_of_digits (isDigits_digitChars places) hne ?_
      cases upper <;> rintro _ ⟨⟩ <;> decide
    rw [chars, magnitude?, hhex, radix?_digitChars hplaces hradix.2 upper hdigits]
    rfl

/-- Figures start with a digit. -/
lemma chars_cons (f : Figures) : ∃ c cs, f.chars = c :: cs ∧ c.isDigit = true := by
  have hcons {ds : List (Digit 10)} (hds : ds ≠ []) (rest : List Char) :
      ∃ c cs, digitChars ds ++ rest = c :: cs ∧ c.isDigit = true := by
    obtain ⟨d, ds, rfl⟩ := List.exists_cons_of_ne_nil hds
    exact ⟨d.char, _, rfl, d.isDigit_char⟩
  cases f with
  | decimal digits hdigits suffix => exact hcons hdigits _
  | hexadecimal upper digits hdigits suffix => exact ⟨'0', _, rfl, rfl⟩
  | based places hplaces hradix upper digits hdigits => exact hcons (places_ne_nil hplaces) _

lemma isWord_chars (f : Figures) : ∀ c ∈ f.chars, isWord c = true := by
  have hsuffix (suffix : Bool) : ∀ c ∈ suffixChars suffix, isWord c = true := by
    cases suffix with
    | true => exact List.forall_mem_singleton.mpr rfl
    | false => exact List.forall_mem_nil _
  have hword {radix : ℕ} (hradix : radix ≤ 36) (ds : List (Digit radix)) :
      ∀ c ∈ digitChars ds, isWord c = true :=
    fun c hc => isWord_of_class (by decide)
      (List.all_eq_true.mp (isAlphanum_digitChars hradix ds) c hc)
  cases f with
  | decimal digits hdigits suffix =>
    exact List.forall_mem_append.mpr ⟨hword (by decide) digits, hsuffix suffix⟩
  | hexadecimal upper digits hdigits suffix =>
    refine List.forall_mem_cons.mpr ⟨rfl, List.forall_mem_cons.mpr ⟨?_, ?_⟩⟩
    · cases upper <;> rfl
    · exact List.forall_mem_append.mpr ⟨hword (by decide) digits, hsuffix suffix⟩
  | based places hplaces hradix upper digits hdigits =>
    refine List.forall_mem_append.mpr ⟨hword (by decide) places, List.forall_mem_cons.mpr ⟨?_, ?_⟩⟩
    · cases upper <;> rfl
    · exact hword hradix.2 digits

/-- Figures up to the greatest integer are this integer; past it decimal ones are a floating-point
number, and others have no value. -/
theorem form_magnitude (f : Figures) (negative : Bool) :
    Numeral.form ⟨negative, f.magnitude⟩ =
      if f.value ≤ maxInt then .ok (signed negative f.value)
      else if f.isDecimal then .ok (.float (Binary64.ofDecimal negative f.value 0))
      else .error .invalid := by
  cases f with
  | decimal digits hdigits suffix =>
    simp only [Numeral.form, magnitude, ofDigitChars_digitChars]
    rfl
  | hexadecimal upper digits hdigits suffix =>
    simp only [Numeral.form, magnitude, basedValue?_digitChars (show 16 ≤ 36 by decide)]
    simp [value, isDecimal]
  | based places hplaces hradix upper digits hdigits =>
    simp only [Numeral.form, magnitude, basedValue?_digitChars hradix.2]
    simp [value, isDecimal, hradix]

end Figures

/-! ### Signs -/

/-- The sign of a literal. -/
inductive Sign where
  /-- No sign. -/
  | none
  /-- A plus sign. -/
  | plus
  /-- A minus sign. -/
  | minus

namespace Sign

/-- The characters of a sign. -/
def chars : Sign → List Char
  | none => []
  | plus => ['+']
  | minus => ['-']

/-- Whether the sign is a minus. -/
def isMinus : Sign → Bool
  | minus => true
  | _ => false

/-- An integer from its sign and its magnitude. -/
def integer (s : Sign) (n : ℕ) : ℤ :=
  if s.isMinus then -n else n

/-- A magnitude that starts with a digit is a numeral with every sign. -/
lemma ofWord?_chars (s : Sign) {c : Char} {cs : List Char} {m : Magnitude}
    (hc : c.isDigit = true) (h : magnitude? (c :: cs) = some m) :
    ofWord? (s.chars ++ c :: cs) = some ⟨s.isMinus, m⟩ := by
  cases s with
  | none => exact ofWord?_sign false hc h
  | plus => simp [chars, isMinus, ofWord?, h]
  | minus => exact ofWord?_sign true hc h

end Sign

/-! ### Literals -/

/-- An integer as it is written. -/
structure IntegerLiteral where
  sign : Sign
  /-- The figures behind the sign. -/
  figures : Figures

namespace IntegerLiteral

/-- The text of a literal. -/
def text (l : IntegerLiteral) : String :=
  String.ofList (l.sign.chars ++ l.figures.chars)

/-- The integer that a literal is. -/
def value (l : IntegerLiteral) : ℤ :=
  l.sign.integer l.figures.value

/-- The literal is read as the integer that it is when this lies between `lowest` and the highest
integer of 64 bits. Otherwise a decimal literal is read as the nearest floating-point number, and
any other literal is an invalid number. -/
def ReadsFrom (lowest : ℤ) (l : IntegerLiteral) : Prop :=
  if lowest ≤ l.value ∧ l.value ≤ 9223372036854775807 then ReadsAs l.text (.int l.value)
  else if l.figures.isDecimal then ReadsAs l.text (.float (Binary64.ofInt l.value))
  else Refused l.text (.reader ("Invalid number: " ++ l.text) l.text (some 0))

lemma toList_text (l : IntegerLiteral) : l.text.toList = l.sign.chars ++ l.figures.chars :=
  String.toList_ofList

lemma ofWord?_text (l : IntegerLiteral) :
    ofWord? l.text.toList = some ⟨l.sign.isMinus, l.figures.magnitude⟩ := by
  obtain ⟨c, cs, hchars, hc⟩ := l.figures.chars_cons
  have hm := l.figures.magnitude?_chars
  rw [toList_text, hchars]
  rw [hchars] at hm
  exact l.sign.ofWord?_chars hc hm

lemma cuts_text (l : IntegerLiteral) :
    Cuts l.text.toList [] 0
      [⟨.atom (.number l.text.toList), 0, 0 + l.text.toList.length⟩] := by
  have hsign : ∀ c ∈ l.sign.chars, isWord c = true := by
    cases l.sign <;> exact List.all_eq_true.mp rfl
  have hword := List.forall_mem_append.mpr ⟨hsign, l.figures.isWord_chars⟩
  obtain ⟨c, cs, hchars, hc⟩ := l.figures.chars_cons
  refine cuts_number (by rwa [toList_text]) ?_ l.ofWord?_text delimited_nil 0
  rw [toList_text, hchars]
  cases l.sign <;> simp [Sign.chars, hc]

lemma isBlank_text (l : IntegerLiteral) : isBlank Text.isWhite false l.text.toList = false := by
  obtain ⟨c, cs, hchars, hc⟩ := l.figures.chars_cons
  rw [toList_text, hchars]
  cases l.sign with
  | none => exact isBlank_number false hc cs
  | plus => exact isBlank_cons (by decide) (by decide) (by decide) _
  | minus => exact isBlank_number true hc cs

/-- The greatest integer bounds the integers of literals on both sides. -/
lemma value_le_maxInt_iff (l : IntegerLiteral) :
    -9223372036854775807 ≤ l.value ∧ l.value ≤ 9223372036854775807 ↔
      l.figures.value ≤ maxInt := by
  have hmax : maxInt = 9223372036854775807 := by decide
  rw [value, Sign.integer, hmax]
  split <;> omega

/-- Past the greatest integer, the sign and the magnitude are those of the integer. -/
lemma ofInt_value {l : IntegerLiteral} (h : ¬l.figures.value ≤ maxInt) :
    Binary64.ofInt l.value = Binary64.ofDecimal l.sign.isMinus l.figures.value 0 := by
  have hpos : 0 < l.figures.value := by omega
  have hnegative : decide (l.value < 0) = l.sign.isMinus := by
    rw [value, Sign.integer]
    cases l.sign.isMinus with
    | true => simpa using hpos
    | false => simp
  have habs : l.value.natAbs = l.figures.value := by
    rw [value, Sign.integer]
    split <;> simp
  rw [Binary64.ofInt, hnegative, habs]

/-- What the reader makes of the text of a literal. -/
theorem form_text (l : IntegerLiteral) :
    (Atom.number l.text.toList).form =
      if l.figures.value ≤ maxInt then .ok (.int l.value)
      else if l.figures.isDecimal then .ok (.float (Binary64.ofInt l.value))
      else .error (.invalidNumber l.text.toList) := by
  rw [Atom.form, numberForm, ofWord?_text, Option.map_some, Figures.form_magnitude]
  by_cases hle : l.figures.value ≤ maxInt
  · simp only [if_pos hle]
    rfl
  · simp only [if_neg hle, ofInt_value hle]
    cases l.figures.isDecimal <;> rfl

/-- The magnitude is read before the sign, so the lowest integer is the negative of the greatest
one. -/
theorem readsFrom_min (l : IntegerLiteral) : l.ReadsFrom (-9223372036854775807) := by
  have hform := l.form_text
  by_cases hle : l.figures.value ≤ maxInt
  · rw [if_pos hle] at hform
    rw [ReadsFrom, if_pos (l.value_le_maxInt_iff.mpr hle)]
    exact readsAs_atom l.cuts_text l.isBlank_text hform
  rw [if_neg hle] at hform
  rw [ReadsFrom, if_neg (mt l.value_le_maxInt_iff.mp hle)]
  cases hdecimal : l.figures.isDecimal with
  | true =>
    rw [if_pos hdecimal] at hform
    exact readsAs_atom l.cuts_text l.isBlank_text hform
  | false =>
    rw [if_neg (Bool.eq_false_iff.mp hdecimal)] at hform
    have hmessage : (Fault.invalidNumber l.text.toList).message 0 = "Invalid number: " ++ l.text :=
      congrArg ("Invalid number: " ++ ·) String.ofList_toList
    have hrefused := refused_atom l.cuts_text l.isBlank_text hform
    rw [toError_start, hmessage] at hrefused
    exact hrefused

end IntegerLiteral

end Reader

open Reader

/-- Integer literals are read from the negative of the greatest integer on. So the only ones that
are not read as integers of 64 bits are those of the integer below it: such a literal is read as if
the integer were out of range. -/
theorem readsFrom_iff (l : IntegerLiteral) :
    l.ReadsFrom (-9223372036854775807) ∧
      (l.ReadsFrom (-9223372036854775808) ↔ l.value ≠ -9223372036854775808) := by
  have hreads := l.readsFrom_min
  refine ⟨hreads, ?_⟩
  by_cases hvalue : l.value = -9223372036854775808
  · refine iff_of_false (fun hint => ?_) (not_not_intro hvalue)
    -- the literal cannot be an integer and out of range
    rw [IntegerLiteral.ReadsFrom, if_pos (by omega)] at hint
    rw [IntegerLiteral.ReadsFrom, if_neg (by omega)] at hreads
    split at hreads
    · cases hint.form.symm.trans hreads.form
    · cases hint.form.symm.trans hreads.form
  · refine iff_of_true ?_ hvalue
    have hrange : -9223372036854775808 ≤ l.value ↔ -9223372036854775807 ≤ l.value := by omega
    simpa only [IntegerLiteral.ReadsFrom, hrange] using hreads

/-- The lowest integer of 64 bits is read as a floating-point number in decimal digits, and in
hexadecimal ones it is no number. -/
theorem readsFrom_lowest :
    ∃ decimal hexadecimal : IntegerLiteral,
      decimal.text = "-9223372036854775808" ∧ decimal.value = -9223372036854775808 ∧
      readForm decimal.text = .ok (.float (Binary64.ofInt (-9223372036854775808))) ∧
      hexadecimal.text = "-0x8000000000000000" ∧ hexadecimal.value = -9223372036854775808 ∧
      readForm hexadecimal.text = .error (.reader "Invalid number: -0x8000000000000000"
        "-0x8000000000000000" (some 0)) := by
  let digits : List (Digit 10) :=
    [9, 2, 2, 3, 3, 7, 2, 0, 3, 6, 8, 5, 4, 7, 7, 5, 8, 0, 8].map fun n => ⟨n, false⟩
  let places : List (Digit 16) := (8 :: List.replicate 15 0).map fun n => ⟨n, false⟩
  let decimal : IntegerLiteral := ⟨.minus, .decimal digits nofun false⟩
  let hexadecimal : IntegerLiteral := ⟨.minus, .hexadecimal false places nofun false⟩
  have hdecimal : decimal.value = -9223372036854775808 := by decide +kernel
  have hhexadecimal : hexadecimal.value = -9223372036854775808 := by decide +kernel
  have htext : hexadecimal.text = "-0x8000000000000000" := by decide
  refine ⟨decimal, hexadecimal, by decide, hdecimal, ?_, htext, hhexadecimal, ?_⟩
  · have hreads := decimal.readsFrom_min
    rw [IntegerLiteral.ReadsFrom, hdecimal, if_neg (by decide), if_pos (by rfl)] at hreads
    exact hreads.form
  · have hreads := hexadecimal.readsFrom_min
    rw [IntegerLiteral.ReadsFrom, hhexadecimal, if_neg (by decide), if_neg (by decide), htext]
      at hreads
    exact hreads.form

end Listener
