/-
Forms without parts are read back from their texts.

* `magnitude?_whole`, `magnitude?_decimal`, `ofWord?_sign`: signed digits are numerals, with a
  point among them or without.
* `decode_escape`, `charText_reads`: the escapes of strings and the names of
  characters are undone.
* `IsLiteral`: the text of a form is one token, and the form is the value of the token.
* `isLiteral_int`, `isLiteral_float` and the others: one lemma for each kind of form
  without parts.
-/
import Listener.Proofs.Number.Decimal
import Listener.Proofs.Reader.Lexing
import Listener.Form.Printer
import Listener.Reader.Literal

namespace Listener

namespace Reader

open Binary64 (IsDigits isDigits_toDigits decimalText_reads)

/-! ### Numerals -/

namespace Numeral

variable {ds fraction : List Char}

/-- A text whose second character is no `x` is no hexadecimal number. -/
lemma hex?_eq_none {cs : List Char}
    (h : ∀ x ds, cs = '0' :: x :: ds → x ≠ 'x' ∧ x ≠ 'X') : hex? cs = none := by
  unfold hex?
  split
  · rename_i x ds
    obtain ⟨hlower, hupper⟩ := h _ ds rfl
    rw [if_neg fun hc => hc.1.elim hlower hupper]
  · rfl

lemma ne_x_of_isDigit {c : Char} (h : c.isDigit = true) : c ≠ 'x' ∧ c ≠ 'X' := by
  constructor <;> rintro rfl <;> cases h

/-- The second character behind digits is one of them, or the first one of the rest. -/
lemma ne_x_of_digits (hds : IsDigits ds) (hne : ds ≠ []) {rest : List Char}
    (hrest : ∀ c, rest.head? = some c → c ≠ 'x' ∧ c ≠ 'X') {x : Char} {es : List Char}
    (h : ds ++ rest = '0' :: x :: es) : x ≠ 'x' ∧ x ≠ 'X' := by
  match ds, hds, hne with
  | [d], _, _ =>
    have htail : rest = x :: es := (List.cons.inj h).2
    exact hrest x (by rw [htail, List.head?_cons])
  | _ :: d :: _, hds, _ =>
    have hd : d = x := (List.cons.inj (List.cons.inj h).2).1
    exact ne_x_of_isDigit (hd ▸ hds d (by simp))

/-- Digits are an integer, with a letter for numbers of any size behind them or without. -/
lemma magnitude?_whole (hds : IsDigits ds) (hne : ds ≠ []) {last : List Char}
    (hlast : isDecimalEnd last = true) : magnitude? (ds ++ last) = some (.whole ds) := by
  have hcases : last = [] ∨ last = ['N'] ∨ last = ['M'] := by
    simpa [isDecimalEnd, or_assoc] using hlast
  have hdigit : ∀ c, last.head? = some c → c.isDigit = false := by
    rcases hcases with rfl | rfl | rfl <;> rintro _ ⟨⟩ <;> rfl
  obtain ⟨htake, hdrop⟩ := Text.span_class hds last hdigit
  have hhex : hex? (ds ++ last) = none := by
    refine hex?_eq_none fun x es => ne_x_of_digits hds hne ?_
    rcases hcases with rfl | rfl | rfl <;> rintro _ ⟨⟩ <;> decide
  have hradix : radix? (ds ++ last) = none := by
    simp only [radix?, hdrop]
    rcases hcases with rfl | rfl | rfl <;> simp
  have hratio : ratio? (ds ++ last) = none := by
    simp only [ratio?, hdrop]
    rcases hcases with rfl | rfl | rfl <;> rfl
  have hdecimal : decimal? (ds ++ last) = some (.whole ds) := by
    simp only [decimal?, htake, hdrop, hne, if_false]
    rcases hcases with rfl | rfl | rfl <;> rfl
  simp [magnitude?, hhex, hradix, hratio, hdecimal]

/-- Digits on both sides of a point are a decimal number. -/
lemma magnitude?_decimal (hds : IsDigits ds) (hne : ds ≠ []) (hfraction : IsDigits fraction) :
    magnitude? (ds ++ '.' :: fraction) = some (.decimal ds fraction 0) := by
  obtain ⟨htake, hdrop⟩ := Text.span_class hds ('.' :: fraction) (by rintro _ ⟨⟩; rfl)
  obtain ⟨htake', hdrop'⟩ := Text.span_class hfraction [] nofun
  rw [List.append_nil] at htake' hdrop'
  have hhex : hex? (ds ++ '.' :: fraction) = none :=
    hex?_eq_none fun x es => ne_x_of_digits hds hne (by rintro _ ⟨⟩; decide)
  have hradix : radix? (ds ++ '.' :: fraction) = none := by simp [radix?, hdrop]
  have hratio : ratio? (ds ++ '.' :: fraction) = none := by simp [ratio?, hdrop]
  have hdecimal : decimal? (ds ++ '.' :: fraction) = some (.decimal ds fraction 0) := by
    simp [decimal?, htake, hdrop, htake', hdrop', hne, exponent?, isDecimalEnd]
  simp [magnitude?, hhex, hradix, hratio, hdecimal]

/-- A minus sign or none. -/
def sign (negative : Bool) : List Char :=
  if negative then ['-'] else []

/-- A magnitude that starts with a digit is a numeral, with a minus sign in front or
without. -/
lemma ofWord?_sign (negative : Bool) {c : Char} {cs : List Char} {m : Magnitude}
    (hc : c.isDigit = true) (h : magnitude? (c :: cs) = some m) :
    ofWord? (sign negative ++ c :: cs) = some ⟨negative, m⟩ := by
  cases negative with
  | true => simp [sign, ofWord?, h]
  | false =>
    have hminus : c ≠ '-' := by rintro rfl; exact absurd hc (by decide)
    have hplus : c ≠ '+' := by rintro rfl; exact absurd hc (by decide)
    simp [sign, ofWord?, h, hminus, hplus]

/-- The characters of a signed numeral may stand in words, and it starts like a number. -/
lemma sign_word (negative : Bool) {c : Char} {cs : List Char} (hc : c.isDigit = true)
    (hcs : ∀ d ∈ cs, isWord d = true) :
    (∀ d ∈ sign negative ++ c :: cs, isWord d = true) ∧
      (sign negative ++ c :: cs).head?.any (fun d => d == '-' || d == '+' || d.isDigit) = true := by
  have hword := isWord_of_isDigit hc
  cases negative <;> simpa [sign, hc, hword, show isWord '-' = true from rfl] using hcs

end Numeral

/-! ### Escapes and names -/

/-- A character of a string stands for itself or is written as a backslash and a
letter. -/
lemma escapeChar_cases (c : Char) :
    (Form.escapeChar c = [c] ∧ c ≠ '"' ∧ c ≠ '\\') ∨
      ∃ l, Form.escapeChar c = ['\\', l] ∧ l ≠ 'u' ∧ escapedLetter? l = some c := by
  rw [Form.escapeChar]
  split
  · subst_vars
    exact .inr ⟨'"', rfl, by decide, rfl⟩
  split
  · subst_vars
    exact .inr ⟨'\\', rfl, by decide, rfl⟩
  split
  · subst_vars
    exact .inr ⟨'n', rfl, by decide, rfl⟩
  split
  · subst_vars
    exact .inr ⟨'t', rfl, by decide, rfl⟩
  split
  · subst_vars
    exact .inr ⟨'r', rfl, by decide, rfl⟩
  · rename_i hq hb _ _ _
    exact .inl ⟨rfl, hq, hb⟩

/-- The escape of a character is decoded to the character. -/
lemma decode_escapeChar (c : Char) (cs : List Char) :
    decode (Form.escapeChar c ++ cs) = (decode cs).map (c :: ·) := by
  rcases escapeChar_cases c with ⟨he, -, hb⟩ | ⟨l, he, hu, hl⟩
  · rw [he, List.singleton_append]
    rw [decode] <;> intros <;> contradiction
  · rw [he, List.cons_append, List.singleton_append]
    rw [decode]
    · simp [hl]
    all_goals intros; contradiction

/-- The escape of a character may stand between quotes. -/
lemma isQuotable_escapeChar (c : Char) (cs : List Char) :
    isQuotable (Form.escapeChar c ++ cs) = isQuotable cs := by
  rcases escapeChar_cases c with ⟨he, hq, hb⟩ | ⟨l, he, -, -⟩
  · rw [he, List.singleton_append]
    rw [isQuotable]
    · simp [hq]
    all_goals intros; contradiction
  · rw [he]
    rfl

lemma decode_escape (cs : List Char) : decode (cs.flatMap Form.escapeChar) = .ok cs := by
  induction cs with
  | nil => rfl
  | cons c cs ih =>
    rw [List.flatMap_cons, decode_escapeChar, ih]
    rfl

lemma isQuotable_escape (cs : List Char) : isQuotable (cs.flatMap Form.escapeChar) = true := by
  induction cs with
  | nil => rfl
  | cons c cs ih =>
    rw [List.flatMap_cons, isQuotable_escapeChar]
    exact ih

/-- No character alone is a name. -/
lemma characterForm_one (c : Char) : characterForm [c] = .ok c := by
  have hnamed : namedChar? [c] = none := by
    have hlen : (String.ofList [c]).length = 1 := by simp
    rw [namedChar?]
    split <;> first
      | rfl
      | (rename_i heq
         rw [heq] at hlen
         exact absurd hlen (by decide))
  simp [characterForm, hnamed]

/-- What stands for a character after a backslash is found up to a rest that ends words,
and it has the character as its value. -/
lemma charText_reads (c : Char) {rest : List Char} (hrest : Delimited rest) :
    ∃ body, Form.charText c = '\\' :: body ∧
      characterBody? (body ++ rest) = some (body, rest) ∧ characterForm body = .ok c := by
  rw [Form.charText]
  split
  · subst_vars
    exact ⟨"newline".toList, rfl, characterBody?_name (List.all_eq_true.mp rfl) (by decide)
      (by decide) (by decide) hrest, rfl⟩
  split
  · subst_vars
    exact ⟨"space".toList, rfl, characterBody?_name (List.all_eq_true.mp rfl) (by decide)
      (by decide) (by decide) hrest, rfl⟩
  split
  · subst_vars
    exact ⟨"tab".toList, rfl, characterBody?_name (List.all_eq_true.mp rfl) (by decide)
      (by decide) (by decide) hrest, rfl⟩
  split
  · subst_vars
    exact ⟨"return".toList, rfl, characterBody?_name (List.all_eq_true.mp rfl) (by decide)
      (by decide) (by decide) hrest, rfl⟩
  · exact ⟨[c], rfl, characterBody?_one c hrest, characterForm_one c⟩

/-! ### Forms without parts -/

/-- In front of a rest that ends words, the text of the form is one token, and the form is
the value of the token. -/
def IsLiteral (f : Form) : Prop :=
  ∀ rest, Delimited rest → ∀ pos, ∃ a,
    Cuts f.chars rest pos [⟨.atom a, pos, pos + f.chars.length⟩] ∧ a.form = .ok f

/-- A signed numeral that stands for a form is read as the form. -/
lemma isLiteral_of_numeral {f : Form} (negative : Bool) {c : Char} {cs : List Char}
    {m : Magnitude} (hf : f.chars = Numeral.sign negative ++ c :: cs) (hc : c.isDigit = true)
    (hcs : ∀ d ∈ cs, isWord d = true) (hm : Numeral.magnitude? (c :: cs) = some m)
    (hform : Numeral.form ⟨negative, m⟩ = .ok f) : IsLiteral f := by
  intro rest hrest pos
  have hword := Numeral.ofWord?_sign negative hc hm
  obtain ⟨hw, hstart⟩ := Numeral.sign_word negative hc hcs
  refine ⟨.number f.chars, ?_, ?_⟩
  · rw [hf]
    exact cuts_number hw hstart hword hrest pos
  · simp [Atom.form, numberForm, hf, hword, hform]

lemma isLiteral_int {n : ℤ} (hlow : -9223372036854775808 < n) (hhigh : n ≤ 9223372036854775807) :
    IsLiteral (.int n) := by
  have hdigits := isDigits_toDigits n.natAbs
  have hne : Nat.toDigits 10 n.natAbs ≠ [] := Nat.toDigits_ne_nil
  have hm : Numeral.magnitude? (Nat.toDigits 10 n.natAbs ++ []) =
      some (.whole (Nat.toDigits 10 n.natAbs)) := Numeral.magnitude?_whole hdigits hne rfl
  rw [List.append_nil] at hm
  have hmax : n.natAbs ≤ Numeral.maxInt := by
    have : Numeral.maxInt = 9223372036854775807 := by decide
    omega
  have hform : Numeral.form ⟨n < 0, .whole (Nat.toDigits 10 n.natAbs)⟩ = .ok (.int n) := by
    simp only [Numeral.form, Nat.ofDigitChars_ten_toDigits, hmax, if_true, Numeral.signed,
      decide_eq_true_eq]
    congr 2
    omega
  have hchars : (Form.int n).chars = Numeral.sign (n < 0) ++ Nat.toDigits 10 n.natAbs := by
    simp [Form.chars, Form.intText, Numeral.sign]
  cases hd : Nat.toDigits 10 n.natAbs with
  | nil => exact absurd hd hne
  | cons c cs =>
    rw [hd] at hdigits hm hform hchars
    refine isLiteral_of_numeral (n < 0) hchars (hdigits c List.mem_cons_self) (fun d hd => ?_) hm
      hform
    exact isWord_of_isDigit (hdigits d (List.mem_cons_of_mem c hd))

/-- The names of the values without digits are read back. -/
lemma isLiteral_symbolic {x : Binary64} {cs : List Char} (hx : (Form.float x).chars = '#' :: cs)
    (h : ∀ rest, scanHash (cs ++ rest) = .found (.atom (.symbolic x)) rest) :
    IsLiteral (.float x) := by
  intro rest _ pos
  refine ⟨.symbolic x, ?_, rfl⟩
  rw [hx]
  exact cuts_hash (h rest) pos

lemma isLiteral_float (x : Binary64) : IsLiteral (.float x) := by
  cases x with
  | nan => exact isLiteral_symbolic rfl fun _ => rfl
  | infinite negative =>
    cases negative with
    | true => exact isLiteral_symbolic rfl fun _ => rfl
    | false => exact isLiteral_symbolic rfl fun _ => rfl
  | finite negative m e h =>
    obtain ⟨whole, fraction, htext, hne, hwhole, hfraction, hvalue⟩ :=
      decimalText_reads negative h
    cases whole with
    | nil => exact absurd rfl hne
    | cons c cs =>
      have hm := Numeral.magnitude?_decimal hwhole hne hfraction
      refine isLiteral_of_numeral negative ?_ (hwhole c List.mem_cons_self)
        (fun d hd => ?_) hm ?_
      · rw [Form.chars, Form.floatText, htext]
        rfl
      · rcases List.mem_append.mp hd with hd | hd
        · exact isWord_of_isDigit (hwhole d (List.mem_cons_of_mem c hd))
        · rcases List.mem_cons.mp hd with rfl | hd
          · rfl
          · exact isWord_of_isDigit (hfraction d hd)
      · simp only [Numeral.form]
        rw [hvalue]

lemma isLiteral_str (s : String) : IsLiteral (.str s) := by
  intro rest _ pos
  refine ⟨.string (s.toList.flatMap Form.escapeChar), ?_, ?_⟩
  · exact cuts_string (isQuotable_escape s.toList) rest pos
  · simp [Atom.form, decode_escape, Except.map]

lemma isLiteral_char (c : Char) : IsLiteral (.char c) := by
  intro rest hrest pos
  obtain ⟨body, htext, hbody, hform⟩ := charText_reads c hrest
  refine ⟨.character body, ?_, ?_⟩
  · rw [Form.chars, htext]
    exact cuts_character hbody pos
  · simp [Atom.form, hform, Except.map]

lemma isLiteral_keyword {k : String} (h : isKeywordText k.toList = true) :
    IsLiteral (.keyword k) := by
  intro rest hrest pos
  refine ⟨.keyword k.toList, cuts_keyword h hrest pos, ?_⟩
  rw [Atom.form, String.ofList_toList]

lemma isLiteral_of_name {f : Form} (h : isNameText f.chars = true)
    (hf : symbolForm f.chars = f) : IsLiteral f := by
  intro rest hrest pos
  refine ⟨.symbol f.chars, cuts_name h hrest pos, ?_⟩
  rw [Atom.form, hf]

lemma isLiteral_symbol {s : Symbol} (h : isSymbolText s.text.toList = true) :
    IsLiteral (.symbol s) := by
  obtain ⟨hname, hreserved⟩ := Bool.and_eq_true_iff.mp h
  refine isLiteral_of_name hname ?_
  simp only [reservedWords, String.ofList_toList, Bool.not_eq_true', List.contains_eq_mem,
    decide_eq_false_iff_not, List.mem_cons, List.not_mem_nil, or_false, not_or] at hreserved
  simp only [symbolForm, Form.chars, String.ofList_toList]
  split
  · rename_i heq
    exact absurd heq hreserved.1
  · rename_i heq
    exact absurd heq hreserved.2.1
  · rename_i heq
    exact absurd heq hreserved.2.2
  · rfl

lemma isLiteral_regex {pattern : String} (h : isQuotable pattern.toList = true) :
    IsLiteral (.regex pattern) := by
  intro rest _ pos
  refine ⟨.regex pattern.toList, cuts_hash (scanHash_regex h rest) pos, ?_⟩
  rw [Atom.form, String.ofList_toList]

lemma isLiteral_nil : IsLiteral .nil := isLiteral_of_name (by decide) rfl

lemma isLiteral_bool (b : Bool) : IsLiteral (.bool b) := by
  cases b with
  | true => exact isLiteral_of_name (by decide) rfl
  | false => exact isLiteral_of_name (by decide) rfl

end Reader

end Listener
