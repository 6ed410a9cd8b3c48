/-
The tokens of JSON texts that have a grammar of their own.

* `Contents`: what stands between the quotes of a string, with the contents of the string.
* `stringBody?_letter`, `stringBody?_code`, `stringBody?_pair` and the others: what one character
  of a string, escaped or not, adds to the contents that are read.
* `stringBody?_of_contents`, `contents_of_stringBody?`: strings are read by this grammar.
* `contents_escape`: contents that are escaped have it.
* `IsNumber`: the texts of numbers.
* `numberText?_of_isNumber`, `isNumber_of_numberText?`: numbers are read by this grammar, in front
  of a rest that does not go on with the number.
-/
import Listener.Json.Parse
import Listener.Text.Blank
import Mathlib.Tactic.Lemma

namespace Listener

namespace Json

/-! ### Strings -/

/-- The text begins with an escape for the second half of a surrogate pair. -/
def StartsTrailing (raw : List Char) : Prop :=
  ∃ a b c d n tail, raw = '\\' :: 'u' :: a :: b :: c :: d :: tail ∧ codeUnit? a b c d = some n ∧
    isTrailing n = true

/-- `Contents raw contents`: between quotes, the text `raw` is a string with these contents. -/
inductive Contents : List Char → Option (List Char) → Prop
  /-- No characters. -/
  | nil : Contents [] (some [])
  /-- A character that stands for itself. -/
  | plain {c : Char} {raw : List Char} {contents : Option (List Char)} (hquote : c ≠ '"')
      (hslash : c ≠ '\\') (hcontrol : ¬c.toNat < 0x20) (h : Contents raw contents) :
      Contents (c :: raw) (contents.map (c :: ·))
  /-- An escape of one letter. -/
  | letter {e c : Char} {raw : List Char} {contents : Option (List Char)}
      (he : escapedLetter? e = some c) (h : Contents raw contents) :
      Contents ('\\' :: e :: raw) (contents.map (c :: ·))
  /-- An escape of four digits for a character. -/
  | code {a b c d : Char} {n : Nat} {raw : List Char} {contents : Option (List Char)}
      (hn : codeUnit? a b c d = some n) (hleading : isLeading n = false)
      (htrailing : isTrailing n = false) (h : Contents raw contents) :
      Contents ('\\' :: 'u' :: a :: b :: c :: d :: raw) (contents.map (Char.ofNat n :: ·))
  /-- Two such escapes for a character. -/
  | pair {a b c d e f g h : Char} {m n : Nat} {raw : List Char} {contents : Option (List Char)}
      (hm : codeUnit? a b c d = some m) (hn : codeUnit? e f g h = some n)
      (hleading : isLeading m = true) (htrailing : isTrailing n = true)
      (hraw : Contents raw contents) :
      Contents ('\\' :: 'u' :: a :: b :: c :: d :: '\\' :: 'u' :: e :: f :: g :: h :: raw)
        (contents.map (Char.ofNat (0x10000 + (m - 0xD800) * 0x400 + (n - 0xDC00)) :: ·))
  /-- Half of a surrogate pair on its own, which leaves the string without contents. -/
  | half {a b c d : Char} {n : Nat} {raw : List Char} {contents : Option (List Char)}
      (hn : codeUnit? a b c d = some n) (hhalf : (isLeading n || isTrailing n) = true)
      (halone : isLeading n = true → ¬StartsTrailing raw) (h : Contents raw contents) :
      Contents ('\\' :: 'u' :: a :: b :: c :: d :: raw) none

/-! ### Strings are read -/

/-- An escape of one letter adds the character that it stands for. -/
theorem stringBody?_letter {e c : Char} (h : escapedLetter? e = some c) (cs : List Char) :
    stringBody? ('\\' :: e :: cs) = (stringBody? cs).map (prepend c) := by
  have hcode : e ≠ 'u' := by
    rintro rfl
    cases h
  rw [stringBody?]
  · rw [h]
  all_goals
    intros
    contradiction

lemma stringBody?_plain {c : Char} (hquote : c ≠ '"') (hslash : c ≠ '\\')
    (hcontrol : ¬c.toNat < 0x20) (cs : List Char) :
    stringBody? (c :: cs) = (stringBody? cs).map (prepend c) := by
  rw [stringBody?]
  · simp [hcontrol, hslash]
  all_goals
    intros
    contradiction

/-- Four characters that are no hexadecimal digits are no escape. -/
lemma stringBody?_noCode {a b c d : Char} (h : codeUnit? a b c d = none) (cs : List Char) :
    stringBody? ('\\' :: 'u' :: a :: b :: c :: d :: cs) = none := by
  by_cases hnext : ∃ e f g h rest, cs = '\\' :: 'u' :: e :: f :: g :: h :: rest
  · obtain ⟨_, _, _, _, _, rfl⟩ := hnext
    simp only [stringBody?, h]
  · rw [stringBody?]
    · rw [h]
    · exact fun _ _ _ _ _ he => hnext ⟨_, _, _, _, _, he⟩

/-- An escape of four digits adds the character that they count, unless they
are half of a surrogate pair. Another such escape may follow. -/
theorem stringBody?_code {a b c d : Char} {n : Nat} (h : codeUnit? a b c d = some n)
    (hleading : isLeading n = false) (htrailing : isTrailing n = false) (cs : List Char) :
    stringBody? ('\\' :: 'u' :: a :: b :: c :: d :: cs) =
      (stringBody? cs).map (prepend (Char.ofNat n)) := by
  by_cases hnext : ∃ e f g h rest, cs = '\\' :: 'u' :: e :: f :: g :: h :: rest
  · obtain ⟨e, f, g, i, rest, rfl⟩ := hnext
    rw [stringBody?, h]
    cases hm : codeUnit? e f g i with
    | none => rw [stringBody?_noCode hm, Option.map_none]
    | some m => simp [hleading, htrailing]
  · rw [stringBody?]
    · simp [h, hleading, htrailing]
    · exact fun _ _ _ _ _ he => hnext ⟨_, _, _, _, _, he⟩

/-- Two escapes for the halves of a pair add the character that they stand for. -/
theorem stringBody?_pair {a b c d e f g h : Char} {m n : Nat} (hm : codeUnit? a b c d = some m)
    (hn : codeUnit? e f g h = some n) (hleading : isLeading m = true)
    (htrailing : isTrailing n = true) (cs : List Char) :
    stringBody? ('\\' :: 'u' :: a :: b :: c :: d :: '\\' :: 'u' :: e :: f :: g :: h :: cs) =
      (stringBody? cs).map
        (prepend (Char.ofNat (0x10000 + (m - 0xD800) * 0x400 + (n - 0xDC00)))) := by
  rw [stringBody?]
  simp [hm, hn, hleading, htrailing]

/-- Half of a pair on its own takes away the contents. -/
lemma stringBody?_half {a b c d : Char} {n : Nat} (hn : codeUnit? a b c d = some n)
    (hhalf : (isLeading n || isTrailing n) = true) {cs : List Char}
    (halone : isLeading n = true → ¬StartsTrailing cs) :
    stringBody? ('\\' :: 'u' :: a :: b :: c :: d :: cs) =
      (stringBody? cs).map fun (_, rest) => (none, rest) := by
  by_cases hnext : ∃ e f g h rest, cs = '\\' :: 'u' :: e :: f :: g :: h :: rest
  · obtain ⟨e, f, g, i, rest, rfl⟩ := hnext
    rw [stringBody?, hn]
    cases hm : codeUnit? e f g i with
    | none => rw [stringBody?_noCode hm, Option.map_none]
    | some m =>
      have hpair : ¬(isLeading n && isTrailing m) = true := by
        intro h
        rw [Bool.and_eq_true] at h
        exact halone h.1 ⟨e, f, g, i, m, rest, rfl, hm, h.2⟩
      simp only [if_neg hpair, if_pos hhalf]
  · rw [stringBody?]
    · simp only [hn, if_pos hhalf]
    · exact fun _ _ _ _ _ he => hnext ⟨_, _, _, _, _, he⟩

/-- Only hexadecimal digits make up an escape. -/
lemma hexValue?_of_codeUnit? {a b c d : Char} {n : Nat} (h : codeUnit? a b c d = some n) :
    ∀ e ∈ [a, b, c, d], hexValue? e ≠ none := by
  simp only [codeUnit?, Option.bind_eq_bind, Option.bind_eq_some_iff] at h
  obtain ⟨_, ha, _, hb, _, hc, _, hd, -⟩ := h
  simp [ha, hb, hc, hd]

/-- A text that begins with the escape of a trailing code unit does so whatever follows. -/
lemma StartsTrailing.append {raw : List Char} (h : StartsTrailing raw) (rest : List Char) :
    StartsTrailing (raw ++ rest) := by
  obtain ⟨a, b, c, d, n, tail, rfl, hn⟩ := h
  exact ⟨a, b, c, d, n, tail ++ rest, rfl, hn⟩

/-- No escape reaches beyond the quote that closes a string. -/
lemma StartsTrailing.of_quote {raw rest : List Char} (h : StartsTrailing (raw ++ '"' :: rest)) :
    StartsTrailing raw := by
  obtain ⟨a, b, c, d, n, tail, he, hn, htrailing⟩ := h
  have hsplit : raw ++ '"' :: rest = ['\\', 'u', a, b, c, d] ++ tail := he
  rcases List.append_eq_append_iff.mp hsplit with ⟨as, hescape, hquote⟩ | ⟨as, rfl, -⟩
  · cases as with
    | nil =>
      rw [List.append_nil] at hescape
      exact ⟨a, b, c, d, n, [], hescape.symm, hn, htrailing⟩
    | cons q as =>
      -- the quote would be part of the escape
      obtain ⟨rfl, -⟩ := List.cons.inj hquote
      have hmem : '"' ∈ ['\\', 'u', a, b, c, d] := by
        rw [hescape]
        exact List.mem_append_right _ List.mem_cons_self
      have hdigit : '"' ∈ [a, b, c, d] := by simpa using hmem
      exact absurd rfl (hexValue?_of_codeUnit? hn '"' hdigit)
  · exact ⟨a, b, c, d, n, as, rfl, hn, htrailing⟩

/-- A string is read up to its closing quote. -/
theorem stringBody?_of_contents {raw : List Char} {contents : Option (List Char)}
    (h : Contents raw contents) (rest : List Char) :
    stringBody? (raw ++ '"' :: rest) = some (contents, rest) := by
  induction h with
  | nil => rfl
  | plain hquote hslash hcontrol _ ih =>
    rw [List.cons_append, stringBody?_plain hquote hslash hcontrol, ih]
    rfl
  | letter he _ ih =>
    rw [List.cons_append, List.cons_append, stringBody?_letter he, ih]
    rfl
  | code hn hleading htrailing _ ih =>
    simp only [List.cons_append]
    rw [stringBody?_code hn hleading htrailing, ih]
    rfl
  | pair hm hn hleading htrailing _ ih =>
    simp only [List.cons_append]
    rw [stringBody?_pair hm hn hleading htrailing, ih]
    rfl
  | half hn hhalf halone _ ih =>
    simp only [List.cons_append]
    rw [stringBody?_half hn hhalf fun hl ht => halone hl ht.of_quote, ih]
    rfl

/-- An escape of four digits is a character, or half of a pair where no second half follows. -/
lemma Contents.code_or_half {a b c d : Char} {n : Nat} {raw : List Char}
    {contents : Option (List Char)} (hn : codeUnit? a b c d = some n) (h : Contents raw contents)
    (rest : List Char) (halone : isLeading n = true → ¬StartsTrailing (raw ++ rest)) :
    Contents ('\\' :: 'u' :: a :: b :: c :: d :: raw)
      (if isLeading n || isTrailing n then none else contents.map (Char.ofNat n :: ·)) := by
  split
  · rename_i hhalf
    exact .half hn hhalf (fun hleading htrailing => halone hleading (htrailing.append rest)) h
  · rename_i hwhole
    rw [Bool.or_eq_true, not_or, Bool.not_eq_true, Bool.not_eq_true] at hwhole
    exact .code hn hwhole.1 hwhole.2 h

/-- What the reader makes of the rest of a string behind an escape of four digits. -/
lemma parts_of_code {n : Nat} {contents contents' : Option (List Char)} {rest rest' : List Char}
    (h : (if isLeading n || isTrailing n then (none, rest')
      else prepend (Char.ofNat n) (contents', rest')) = (contents, rest)) :
    (if isLeading n || isTrailing n then none else contents'.map (Char.ofNat n :: ·)) = contents ∧
      rest' = rest := by
  split at h
  · rename_i hhalf
    cases h
    exact ⟨if_pos hhalf, rfl⟩
  · rename_i hwhole
    cases h
    exact ⟨if_neg hwhole, rfl⟩

/-- What is read as a string has its grammar. -/
theorem contents_of_stringBody? {cs : List Char} {contents : Option (List Char)}
    {rest : List Char} (h : stringBody? cs = some (contents, rest)) :
    ∃ raw, cs = raw ++ '"' :: rest ∧ Contents raw contents := by
  fun_induction stringBody? cs generalizing contents rest with
  | case1 => cases h
  | case2 rest =>
    cases h
    exact ⟨[], rfl, .nil⟩
  | case3 a b c d e f g i cs m n hn hm hpair ih =>
    obtain ⟨⟨contents', rest'⟩, hcs, he⟩ := Option.map_eq_some_iff.mp h
    cases he
    obtain ⟨raw, rfl, hraw⟩ := ih hcs
    rw [Bool.and_eq_true] at hpair
    exact ⟨_, rfl, .pair hm hn hpair.1 hpair.2 hraw⟩
  | case4 a b c d e f g i cs m n hn hm hpair ih =>
    obtain ⟨⟨contents', rest'⟩, hcs, he⟩ := Option.map_eq_some_iff.mp h
    obtain ⟨rfl, rfl⟩ := parts_of_code he
    obtain ⟨raw, hraw, hcontents⟩ := ih hcs
    rw [hraw]
    refine ⟨_, rfl, hcontents.code_or_half hm ('"' :: rest') ?_⟩
    rw [← hraw]
    -- a leading half with a trailing one behind it would have been read as a pair
    rintro hleading ⟨_, _, _, _, k, _, htext, hk, htrailing⟩
    cases htext
    obtain rfl : n = k := Option.some.inj (hn.symm.trans hk)
    exact hpair (Bool.and_eq_true _ _ ▸ ⟨hleading, htrailing⟩)
  | case5 => cases h
  | case6 a b c d cs hnext n hn ih =>
    obtain ⟨⟨contents', rest'⟩, hcs, he⟩ := Option.map_eq_some_iff.mp h
    obtain ⟨rfl, rfl⟩ := parts_of_code he
    obtain ⟨raw, rfl, hcontents⟩ := ih hcs
    refine ⟨_, rfl, hcontents.code_or_half hn ('"' :: rest') ?_⟩
    rintro - ⟨_, _, _, _, _, _, htext, -⟩
    exact hnext _ _ _ _ _ htext
  | case7 => cases h
  | case8 c cs _ _ e hletter ih =>
    obtain ⟨⟨contents', rest'⟩, hcs, he⟩ := Option.map_eq_some_iff.mp h
    cases he
    obtain ⟨raw, rfl, hraw⟩ := ih hcs
    exact ⟨_, rfl, .letter hletter hraw⟩
  | case9 => cases h
  | case10 => cases h
  | case11 c cs hquote _ _ _ hplain ih =>
    obtain ⟨⟨contents', rest'⟩, hcs, he⟩ := Option.map_eq_some_iff.mp h
    cases he
    obtain ⟨raw, rfl, hraw⟩ := ih hcs
    simp only [Bool.or_eq_true, decide_eq_true_eq, beq_iff_eq, not_or] at hplain
    exact ⟨_, rfl, .plain hquote hplain.2 hplain.1 hraw⟩

/-! ### Escaped contents -/

/-- The digits of a control character count it. -/
lemma codeUnit?_hexDigit :
    ∀ n < 0x20, codeUnit? '0' '0' (hexDigit (n / 16)) (hexDigit (n % 16)) = some n := by
  decide

/-- A character of a string is written as an escape of one letter, as an escape
of four digits, or as itself. -/
lemma escapeChar_cases (c : Char) :
    (∃ e, escapedLetter? e = some c ∧ escapeChar c = ['\\', e]) ∨
      (c.toNat < 0x20 ∧ escapeChar c =
        ['\\', 'u', '0', '0', hexDigit (c.toNat / 16), hexDigit (c.toNat % 16)]) ∨
      (c ≠ '"' ∧ c ≠ '\\' ∧ ¬c.toNat < 0x20 ∧ escapeChar c = [c]) := by
  rw [escapeChar]
  split
  · subst_vars
    exact .inl ⟨'"', rfl, rfl⟩
  split
  · subst_vars
    exact .inl ⟨'\\', rfl, rfl⟩
  split
  · subst_vars
    exact .inl ⟨'b', rfl, rfl⟩
  split
  · subst_vars
    exact .inl ⟨'f', rfl, rfl⟩
  split
  · subst_vars
    exact .inl ⟨'n', rfl, rfl⟩
  split
  · subst_vars
    exact .inl ⟨'r', rfl, rfl⟩
  split
  · subst_vars
    exact .inl ⟨'t', rfl, rfl⟩
  split
  · rename_i hcontrol
    exact .inr (.inl ⟨hcontrol, rfl⟩)
  · rename_i hquote hslash _ _ _ _ _ hcontrol
    exact .inr (.inr ⟨hquote, hslash, hcontrol, rfl⟩)

/-- Contents that are escaped are the contents of the string. -/
theorem contents_escape (contents : List Char) :
    Contents (contents.flatMap escapeChar) (some contents) := by
  induction contents with
  | nil => exact .nil
  | cons c cs ih =>
    rw [List.flatMap_cons]
    rcases escapeChar_cases c with
      ⟨e, hletter, he⟩ | ⟨hcontrol, he⟩ | ⟨hquote, hslash, hplain, he⟩
    · rw [he]
      exact .letter hletter ih
    · -- a control character is never half of a surrogate pair
      have hleading : isLeading c.toNat = false := by
        simp only [isLeading, Bool.and_eq_false_iff, decide_eq_false_iff_not]
        omega
      have htrailing : isTrailing c.toNat = false := by
        simp only [isTrailing, Bool.and_eq_false_iff, decide_eq_false_iff_not]
        omega
      have hcode := Contents.code (codeUnit?_hexDigit _ hcontrol) hleading htrailing ih
      rw [Char.ofNat_toNat] at hcode
      rw [he]
      exact hcode
    · rw [he]
      exact .plain hquote hslash hplain ih

/-! ### Numbers -/

/-- Digits, at least one. -/
def IsDigits (ds : List Char) : Prop :=
  ds ≠ [] ∧ ∀ c ∈ ds, c.isDigit = true

/-- The integer part of a number: zero, or digits of which the first is not zero. -/
def IsWhole (whole : List Char) : Prop :=
  whole = ['0'] ∨ IsDigits whole ∧ whole.head? ≠ some '0'

/-- The decimal places of a number, if it has any. -/
def IsFraction (fraction : List Char) : Prop :=
  fraction = [] ∨ ∃ ds, IsDigits ds ∧ fraction = '.' :: ds

/-- The exponent of a number, if it has one. -/
def IsExponent (exponent : List Char) : Prop :=
  exponent = [] ∨ ∃ e sign ds, (e = 'e' ∨ e = 'E') ∧ (sign = [] ∨ sign = ['+'] ∨ sign = ['-']) ∧
    IsDigits ds ∧ exponent = e :: (sign ++ ds)

/-- The text of a number. -/
def IsNumber (text : List Char) : Prop :=
  ∃ sign whole fraction exponent, (sign = [] ∨ sign = ['-']) ∧ IsWhole whole ∧
    IsFraction fraction ∧ IsExponent exponent ∧ text = sign ++ whole ++ fraction ++ exponent

/-- A rest that goes on neither with digits nor with another part of a number. -/
def EndsNumber (rest : List Char) : Prop :=
  ∀ c, rest.head? = some c → c.isDigit = false ∧ c ≠ '.' ∧ c ≠ 'e' ∧ c ≠ 'E'

lemma digits?_append {ds : List Char} (h : IsDigits ds) {rest : List Char}
    (hrest : ∀ c, rest.head? = some c → c.isDigit = false) :
    digits? (ds ++ rest) = some (ds, rest) := by
  obtain ⟨htake, hdrop⟩ := Text.span_class h.2 rest hrest
  simp only [digits?, htake, hdrop, if_neg h.1]

lemma isDigits_of_digits? {cs ds rest : List Char} (h : digits? cs = some (ds, rest)) :
    IsDigits ds ∧ cs = ds ++ rest := by
  simp only [digits?] at h
  split at h
  · cases h
  · rename_i hne
    cases h
    exact ⟨⟨hne, List.all_eq_true.mp List.all_takeWhile⟩, List.takeWhile_append_dropWhile.symm⟩

/-- The integer part of a number is found up to where the digits end. -/
lemma integer?_append {whole : List Char} (h : IsWhole whole) {rest : List Char}
    (hrest : ∀ c, rest.head? = some c → c.isDigit = false) :
    integer? (whole ++ rest) = some (whole, rest) := by
  rcases h with rfl | ⟨hdigits, hzero⟩
  · rfl
  · have hdigit := digits?_append hdigits hrest
    cases whole with
    | nil => exact absurd rfl hdigits.1
    | cons c cs =>
      rw [integer?]
      · exact hdigit
      · rintro tail ⟨⟩
        exact hzero rfl

/-- What is found as the integer part of a number is one. -/
lemma isWhole_of_integer? {cs whole rest : List Char} (h : integer? cs = some (whole, rest)) :
    IsWhole whole ∧ cs = whole ++ rest := by
  unfold integer? at h
  split at h
  · cases h
    exact ⟨.inl rfl, rfl⟩
  · rename_i hzero
    obtain ⟨hdigits, rfl⟩ := isDigits_of_digits? h
    refine ⟨.inr ⟨hdigits, fun hhead => ?_⟩, rfl⟩
    cases whole with
    | nil => cases hhead
    | cons c ds =>
      cases hhead
      exact hzero _ rfl

/-- Decimal places are found up to where the digits end. -/
lemma fraction?_append {fraction : List Char} (h : IsFraction fraction) {rest : List Char}
    (hrest : ∀ c, rest.head? = some c → c.isDigit = false ∧ c ≠ '.') :
    fraction? (fraction ++ rest) = some (fraction, rest) := by
  rcases h with rfl | ⟨ds, hdigits, rfl⟩
  · rw [List.nil_append, fraction?]
    rintro tail rfl
    exact (hrest '.' rfl).2 rfl
  · rw [List.cons_append, fraction?, digits?_append hdigits fun c hc => (hrest c hc).1]
    rfl

lemma isFraction_of_fraction? {cs fraction rest : List Char}
    (h : fraction? cs = some (fraction, rest)) : IsFraction fraction ∧ cs = fraction ++ rest := by
  unfold fraction? at h
  split at h
  · obtain ⟨⟨ds, rest'⟩, hds, he⟩ := Option.map_eq_some_iff.mp h
    cases he
    obtain ⟨hdigits, rfl⟩ := isDigits_of_digits? hds
    exact ⟨.inr ⟨ds, hdigits, rfl⟩, rfl⟩
  · cases h
    exact ⟨.inl rfl, rfl⟩

lemma exponent?_append {exponent : List Char} (h : IsExponent exponent) {rest : List Char}
    (hrest : EndsNumber rest) : exponent? (exponent ++ rest) = some (exponent, rest) := by
  rcases h with rfl | ⟨e, sign, ds, he, hsign, hdigits, rfl⟩
  · cases rest with
    | nil => rfl
    | cons c cs =>
      obtain ⟨-, -, he, hE⟩ := hrest c rfl
      simp [exponent?, he, hE]
  · have hfound := digits?_append hdigits fun c hc => (hrest c hc).1
    rcases hsign with rfl | rfl | rfl
    · -- a digit stands behind the letter
      obtain ⟨d, ds, rfl⟩ := List.exists_cons_of_ne_nil hdigits.1
      have hd : d.isDigit = true := hdigits.2 d List.mem_cons_self
      rw [List.nil_append, List.cons_append, exponent?, if_pos he, hfound]
      · rfl
      · rintro cs ⟨⟩
        cases hd
      · rintro cs ⟨⟩
        cases hd
    · simp only [List.cons_append, List.nil_append, exponent?, if_pos he, hfound, Option.map_some]
    · simp only [List.cons_append, List.nil_append, exponent?, if_pos he, hfound, Option.map_some]

lemma isExponent_of_exponent? {cs exponent rest : List Char}
    (h : exponent? cs = some (exponent, rest)) : IsExponent exponent ∧ cs = exponent ++ rest := by
  unfold exponent? at h
  split at h
  · rename_i e cs
    split at h
    · rename_i he
      split at h
      all_goals
        obtain ⟨⟨ds, rest'⟩, hds, hparts⟩ := Option.map_eq_some_iff.mp h
        cases hparts
        obtain ⟨hdigits, rfl⟩ := isDigits_of_digits? hds
      · exact ⟨.inr ⟨e, ['+'], ds, he, .inr (.inl rfl), hdigits, rfl⟩, rfl⟩
      · exact ⟨.inr ⟨e, ['-'], ds, he, .inr (.inr rfl), hdigits, rfl⟩, rfl⟩
      · exact ⟨.inr ⟨e, [], ds, he, .inl rfl, hdigits, rfl⟩, rfl⟩
    · cases h
      exact ⟨.inl rfl, rfl⟩
  · cases h
    exact ⟨.inl rfl, rfl⟩

/-- The parts of a number without a sign, one behind the other. -/
lemma parts_of_isNumber {whole fraction exponent rest : List Char} (hwhole : IsWhole whole)
    (hfraction : IsFraction fraction) (hexponent : IsExponent exponent) (hrest : EndsNumber rest) :
    integer? (whole ++ (fraction ++ (exponent ++ rest))) =
        some (whole, fraction ++ (exponent ++ rest)) ∧
      fraction? (fraction ++ (exponent ++ rest)) = some (fraction, exponent ++ rest) ∧
      exponent? (exponent ++ rest) = some (exponent, rest) := by
  have hbehind : ∀ c, (exponent ++ rest).head? = some c → c.isDigit = false ∧ c ≠ '.' := by
    rcases hexponent with rfl | ⟨e, sign, ds, he, -, -, rfl⟩
    · exact fun c hc => ⟨(hrest c hc).1, (hrest c hc).2.1⟩
    · rintro _ ⟨⟩
      rcases he with rfl | rfl <;> exact ⟨rfl, by decide⟩
  have hdigit : ∀ c, (fraction ++ (exponent ++ rest)).head? = some c → c.isDigit = false := by
    rcases hfraction with rfl | ⟨ds, -, rfl⟩
    · exact fun c hc => (hbehind c hc).1
    · rintro _ ⟨⟩
      rfl
  exact ⟨integer?_append hwhole hdigit, fraction?_append hfraction hbehind,
    exponent?_append hexponent hrest⟩

lemma IsWhole.exists_digit {whole : List Char} (h : IsWhole whole) :
    ∃ d ds, whole = d :: ds ∧ d.isDigit = true := by
  rcases h with rfl | ⟨hdigits, -⟩
  · exact ⟨'0', [], rfl, rfl⟩
  · obtain ⟨d, ds, rfl⟩ := List.exists_cons_of_ne_nil hdigits.1
    exact ⟨d, ds, rfl, hdigits.2 d List.mem_cons_self⟩

lemma IsNumber.exists_cons {text : List Char} (h : IsNumber text) :
    ∃ c cs, text = c :: cs ∧ (c = '-' ∨ c.isDigit = true) := by
  obtain ⟨sign, whole, fraction, exponent, hsign, hwhole, -, -, rfl⟩ := h
  obtain ⟨d, ds, rfl, hd⟩ := hwhole.exists_digit
  rcases hsign with rfl | rfl
  · exact ⟨d, _, rfl, .inr hd⟩
  · exact ⟨'-', _, rfl, .inl rfl⟩

/-- A number is read up to where it ends. -/
theorem numberText?_of_isNumber {text : List Char} (h : IsNumber text) {rest : List Char}
    (hrest : EndsNumber rest) : numberText? (text ++ rest) = some (text, rest) := by
  obtain ⟨sign, whole, fraction, exponent, hsign, hwhole, hfraction, hexponent, rfl⟩ := h
  obtain ⟨hw, hf, he⟩ := parts_of_isNumber hwhole hfraction hexponent hrest
  simp only [List.append_assoc]
  rcases hsign with rfl | rfl
  · rw [List.nil_append, List.nil_append, numberText?]
    · simp [hw, hf, he]
    · obtain ⟨d, ds, rfl, hd⟩ := hwhole.exists_digit
      rintro cs ⟨⟩
      cases hd
  · rw [List.singleton_append, List.singleton_append, numberText?]
    simp [hw, hf, he]

/-- What is read as a number is one. -/
theorem isNumber_of_numberText? {cs text rest : List Char}
    (h : numberText? cs = some (text, rest)) : IsNumber text ∧ cs = text ++ rest := by
  unfold numberText? at h
  split at h
  rename_i sign ds hsplit
  obtain ⟨hsign, rfl⟩ : (sign = [] ∨ sign = ['-']) ∧ cs = sign ++ ds := by
    split at hsplit
    · cases hsplit
      exact ⟨.inr rfl, rfl⟩
    · cases hsplit
      exact ⟨.inl rfl, rfl⟩
  obtain ⟨⟨whole, cs₁⟩, hwhole, h⟩ := Option.bind_eq_some_iff.mp h
  obtain ⟨⟨fraction, cs₂⟩, hfraction, h⟩ := Option.bind_eq_some_iff.mp h
  obtain ⟨⟨exponent, cs₃⟩, hexponent, h⟩ := Option.bind_eq_some_iff.mp h
  cases h
  obtain ⟨hw, rfl⟩ := isWhole_of_integer? hwhole
  obtain ⟨hf, rfl⟩ := isFraction_of_fraction? hfraction
  obtain ⟨he, rfl⟩ := isExponent_of_exponent? hexponent
  refine ⟨⟨sign, whole, fraction, exponent, hsign, hw, hf, he, rfl⟩, ?_⟩
  simp only [List.append_assoc]

end Json

end Listener
