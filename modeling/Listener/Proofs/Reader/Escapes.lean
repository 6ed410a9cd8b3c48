/-
String literals: which escapes they may have, and the text that they stand for.

* `HexCode`, `PlusCode`: the codes of characters, in four hexadecimal digits, and in three of them
  behind a plus sign.
* `Denotes code raw cs`: with codes of a kind behind `u`, the text `raw` between the quotes stands
  for the text `cs`; `denotes_escape` says so of escaped texts.
* `escapedChar?_iff`, `decode_iff`: the reader takes codes of both kinds.
* `stringLiteral`, `ReadsCodes`: a literal behind blanks, and how it is read if its codes are of a
  kind; `readsCodes_either` says that the reader has both kinds.
* `readsCodes_iff`: the literals that are read as if all codes were four hexadecimal digits.
-/
import Listener.Proofs.Reader.Digits
import Listener.Proofs.Reader.Reprint
import Listener.Proofs.Reader.SelfContained

namespace Listener

namespace Reader

/-! ### Codes -/

/-- The text is `n` hexadecimal digits, which are the number of a character. -/
def HexDigits (n : Nat) (cs : List Char) (c : Char) : Prop :=
  ∃ ds : List (Digit 16), ds.length = n ∧ cs = digitChars ds ∧ c.toNat = number ds

/-- Four hexadecimal digits. -/
def HexCode : List Char → Char → Prop :=
  HexDigits 4

/-- A plus sign and three hexadecimal digits. -/
def PlusCode (code : List Char) (c : Char) : Prop :=
  ∃ cs, code = '+' :: cs ∧ HexDigits 3 cs c

/-- A code of either kind. -/
def EitherCode (code : List Char) (c : Char) : Prop :=
  HexCode code c ∨ PlusCode code c

lemma EitherCode.length {code : List Char} {c : Char} (h : EitherCode code c) :
    code.length = 4 := by
  obtain ⟨ds, hlength, rfl, -⟩ | ⟨_, rfl, ds, hlength, rfl, -⟩ := h <;>
    simp [digitChars, hlength]

/-- A plus sign is no digit. -/
lemma not_hexCode_plus {cs : List Char} {c : Char} : ¬HexCode ('+' :: cs) c := by
  rintro ⟨ds, -, hcs, -⟩
  cases ds with
  | nil => cases hcs
  | cons d ds =>
    have hplus := d.isHexDigit_char
    rw [← (List.cons.inj hcs).1] at hplus
    exact absurd hplus (by decide)

lemma exists_digits {cs : List Char} (h : ∀ c ∈ cs, isHexDigit c = true) :
    ∃ ds : List (Digit 16), cs = digitChars ds := by
  induction cs with
  | nil => exact ⟨[], rfl⟩
  | cons c cs ih =>
    obtain ⟨hc, hcs⟩ := List.forall_mem_cons.mp h
    obtain ⟨d, rfl⟩ := exists_digit hc
    obtain ⟨ds, rfl⟩ := ih hcs
    exact ⟨d :: ds, rfl⟩

lemma charOfNat?_iff {n : Nat} {c : Char} : charOfNat? n = some c ↔ c.toNat = n := by
  rw [charOfNat?]
  constructor
  · intro h
    split at h
    · rename_i hvalid
      rw [← Option.some.inj h, Char.toNat_ofNat, if_pos hvalid]
    · cases h
  · rintro rfl
    have hvalid : c.toNat.isValidChar := c.valid
    rw [if_pos hvalid, Char.ofNat_toNat]

/-- The reader finds the character whose number hexadecimal digits are. -/
lemma hexDigits_iff {n : Nat} {cs : List Char} {c : Char} :
    (if cs.length = n ∧ cs.all isHexDigit then charOfNat? (digitsValue 16 cs) else none) = some c ↔
      HexDigits n cs c := by
  constructor
  · intro h
    split at h
    · rename_i hcs
      obtain ⟨ds, rfl⟩ := exists_digits (List.all_eq_true.mp hcs.2)
      rw [charOfNat?_iff, digitsValue, foldl_digitChars (by decide)] at h
      exact ⟨ds, by simpa [digitChars] using hcs.1, rfl, h⟩
    · cases h
  · rintro ⟨ds, hlength, rfl, hc⟩
    have hcs : (digitChars ds).length = n ∧ (digitChars ds).all isHexDigit :=
      ⟨by simpa [digitChars] using hlength, List.all_eq_true.mpr (isHexDigit_digitChars ds)⟩
    rw [if_pos hcs, charOfNat?_iff, digitsValue, foldl_digitChars (by decide)]
    exact hc

/-- The reader takes codes of both kinds. -/
theorem escapedChar?_iff {code : List Char} {c : Char} :
    escapedChar? code = some c ↔ EitherCode code c := by
  by_cases hplus : ∃ cs, code = '+' :: cs
  · obtain ⟨cs, rfl⟩ := hplus
    have hchar : escapedChar? ('+' :: cs) =
        if cs.length = 3 ∧ cs.all isHexDigit then charOfNat? (digitsValue 16 cs) else none := by
      simp [escapedChar?]
    rw [hchar, hexDigits_iff]
    constructor
    · exact fun h => .inr ⟨cs, rfl, h⟩
    · rintro (h | ⟨_, he, h⟩)
      · exact absurd h not_hexCode_plus
      · cases he
        exact h
  · have hchar : escapedChar? code =
        if code.length = 4 ∧ code.all isHexDigit then charOfNat? (digitsValue 16 code)
        else none := by
      rw [escapedChar?]
      exact fun cs he => hplus ⟨cs, he⟩
    rw [hchar, hexDigits_iff]
    exact ⟨.inl, fun h => h.resolve_right fun ⟨cs, he, _⟩ => hplus ⟨cs, he⟩⟩

/-! ### Texts between quotes -/

/-- The letters that stand for a character behind a backslash, with the characters. -/
def letterEscapes : List (Char × Char) :=
  [('n', '\n'), ('t', '\t'), ('r', '\r'), ('"', '"'), ('\\', '\\'), ('b', '\x08'), ('f', '\x0c')]

lemma escapedLetter?_iff {l c : Char} : escapedLetter? l = some c ↔ (l, c) ∈ letterEscapes := by
  simp only [letterEscapes, List.mem_cons, List.not_mem_nil, or_false, Prod.mk.injEq]
  unfold escapedLetter?
  split <;> simp_all [eq_comm]

/-- The text between quotes stands for the other text: each escape for the character that its letter
or its code denotes, and each other character for itself. -/
inductive Denotes (code : List Char → Char → Prop) : List Char → List Char → Prop where
  /-- The empty text. -/
  | nil : Denotes code [] []
  /-- A character that stands for itself. -/
  | plain {c : Char} {raw cs : List Char} : c ≠ '\\' → Denotes code raw cs →
      Denotes code (c :: raw) (c :: cs)
  /-- A letter behind a backslash. -/
  | letter {l c : Char} {raw cs : List Char} : (l, c) ∈ letterEscapes → Denotes code raw cs →
      Denotes code ('\\' :: l :: raw) (c :: cs)
  /-- A code behind a backslash and `u`. -/
  | unicode {digits : List Char} {c : Char} {raw cs : List Char} : code digits c →
      Denotes code raw cs → Denotes code ('\\' :: 'u' :: (digits ++ raw)) (c :: cs)

lemma Denotes.mono {code code' : List Char → Char → Prop} {raw cs : List Char}
    (h : Denotes code raw cs) (hcode : ∀ ds c, code ds c → code' ds c) : Denotes code' raw cs := by
  induction h with
  | nil => exact .nil
  | plain hc _ ih => exact .plain hc ih
  | letter hl _ ih => exact .letter hl ih
  | unicode hc _ ih => exact .unicode (hcode _ _ hc) ih

/-- An escaped text stands for the text, whatever codes there are. -/
theorem denotes_escape (code : List Char → Char → Prop) (cs : List Char) :
    Denotes code (cs.flatMap Form.escapeChar) cs := by
  induction cs with
  | nil => exact .nil
  | cons c cs ih =>
    rw [List.flatMap_cons]
    rcases escapeChar_cases c with ⟨he, -, hb⟩ | ⟨l, he, -, hl⟩
    · rw [he]
      exact .plain hb ih
    · rw [he]
      exact .letter (escapedLetter?_iff.mp hl) ih

/-- What the reader makes of a text is what the text stands for. -/
lemma denotes_of_decode {raw cs : List Char} (h : decode raw = .ok cs) :
    Denotes EitherCode raw cs := by
  fun_induction decode raw generalizing cs with
  | case1 =>
    cases h
    exact .nil
  | case2 => cases h
  | case3 a b d e raw c hc ih =>
    obtain ⟨cs', hcs, rfl⟩ := map_eq_ok h
    exact .unicode (escapedChar?_iff.mp hc) (ih hcs)
  | case4 => cases h
  | case5 => cases h
  | case6 l raw _ _ c hl ih =>
    obtain ⟨cs', hcs, rfl⟩ := map_eq_ok h
    exact .letter (escapedLetter?_iff.mp hl) (ih hcs)
  | case7 => cases h
  | case8 c raw hend _ _ hletter ih =>
    obtain ⟨cs', hcs, rfl⟩ := map_eq_ok h
    refine .plain ?_ (ih hcs)
    rintro rfl
    cases raw with
    | nil => exact hend rfl rfl
    | cons l raw => exact hletter l raw rfl rfl

lemma decode_of_denotes {raw cs : List Char} (h : Denotes EitherCode raw cs) :
    decode raw = .ok cs := by
  induction h with
  | nil => rfl
  | @plain c raw cs hc _ ih =>
    rw [decode]
    · rw [ih]
      rfl
    all_goals intros; contradiction
  | @letter l c raw cs hl _ ih =>
    have hu : l ≠ 'u' := by
      rintro rfl
      have hnone : none = some c := escapedLetter?_iff.mpr hl
      cases hnone
    rw [decode]
    · rw [escapedLetter?_iff.mpr hl, ih]
      rfl
    all_goals intros; contradiction
  | @unicode digits c raw cs hc _ ih =>
    have hchar := escapedChar?_iff.mpr hc
    obtain ⟨a, b, d, e, rfl⟩ := List.length_eq_four.mp hc.length
    simp only [List.cons_append, List.nil_append]
    rw [decode, hchar, ih]
    rfl

/-- The reader decodes texts to what they stand for. -/
theorem decode_iff {raw cs : List Char} : decode raw = .ok cs ↔ Denotes EitherCode raw cs :=
  ⟨denotes_of_decode, decode_of_denotes⟩

/-! ### Literals -/

/-- A string literal behind blanks. -/
def stringLiteral (gap raw : List Char) : String :=
  String.ofList (gap ++ ('"' :: raw ++ ['"']))

/-- The literal is read as the text that it stands for with codes of a kind. If it stands for none,
the error is about the place where the literal starts. -/
structure ReadsCodes (code : List Char → Char → Prop) (gap raw : List Char) : Prop where
  /-- A literal that stands for a text is read as the text. -/
  denoted : ∀ cs, Denotes code raw cs → ReadsAs (stringLiteral gap raw) (.str (String.ofList cs))
  /-- A literal that stands for no text is refused. -/
  refused : (∀ cs, ¬Denotes code raw cs) → ∃ message, Refused (stringLiteral gap raw)
    (.reader message (stringLiteral gap raw) (some (Text.byteLength gap)))

/-- Blanks in front of a text do not matter for whether it looks empty. -/
lemma isBlank_gap {gap : List Char} (hgap : ∀ c ∈ gap, isGap c = true) (cs : List Char) :
    isBlank Text.isWhite false (gap ++ cs) = isBlank Text.isWhite false cs := by
  induction gap with
  | nil => rfl
  | cons c gap ih =>
    obtain ⟨hc, hgap⟩ := List.forall_mem_cons.mp hgap
    have hempty : (Text.isWhite c || c == ',') = true := by
      simp only [isGap, Bool.or_eq_true, beq_iff_eq, or_assoc] at hc
      rcases hc with rfl | rfl | rfl | rfl | rfl <;> rfl
    rw [List.cons_append, isBlank, if_neg Bool.false_ne_true, if_pos hempty, ih hgap]

section

variable {gap raw : List Char}

lemma toList_stringLiteral (gap raw : List Char) :
    (stringLiteral gap raw).toList = gap ++ ('"' :: raw ++ ['"']) :=
  String.toList_ofList

lemma cuts_stringLiteral (hgap : ∀ c ∈ gap, isGap c = true) (hraw : isQuotable raw = true) :
    ∃ stop, Cuts (stringLiteral gap raw).toList [] 0 [⟨.atom (.string raw), gap.length, stop⟩] := by
  have hall := (cuts_gap hgap _ 0).append (cuts_string hraw [] _)
  rw [Nat.zero_add] at hall
  rw [toList_stringLiteral]
  exact ⟨_, hall⟩

lemma isBlank_stringLiteral (hgap : ∀ c ∈ gap, isGap c = true) (raw : List Char) :
    isBlank Text.isWhite false (stringLiteral gap raw).toList = false := by
  rw [toList_stringLiteral, isBlank_gap hgap]
  rfl

lemma offsetAt_stringLiteral (gap raw : List Char) :
    offsetAt (stringLiteral gap raw).toList gap.length = Text.byteLength gap := by
  rw [offsetAt, toList_stringLiteral, List.take_left]

/-- The reader has codes of both kinds. -/
theorem readsCodes_either (hgap : ∀ c ∈ gap, isGap c = true) (hraw : isQuotable raw = true) :
    ReadsCodes EitherCode gap raw := by
  obtain ⟨stop, hcut⟩ := cuts_stringLiteral hgap hraw
  have hblank := isBlank_stringLiteral hgap raw
  constructor
  · intro cs hcs
    refine readsAs_atom hcut hblank ?_
    rw [Atom.form, decode_iff.mpr hcs]
    rfl
  · intro hnone
    cases hdecode : decode raw with
    | ok cs => exact absurd (decode_iff.mp hdecode) (hnone cs)
    | error fault =>
      have hform : (Atom.string raw).form = .error fault := by
        rw [Atom.form, hdecode]
        rfl
      have hrefused := refused_atom hcut hblank hform
      rw [ReadError.toError, offsetAt_stringLiteral, String.ofList_toList] at hrefused
      exact ⟨_, hrefused⟩

end

end Reader

open Reader

/-- A string literal is read as the text that it stands for, or refused where it starts if one of
its escapes is not valid; the codes of characters may be four hexadecimal digits, or three behind a
plus sign. So it is read as if all codes were four digits exactly when no code with a plus sign
makes it stand for a text. Escaped texts are read as the texts. -/
theorem readsCodes_iff {gap raw : List Char} (hgap : ∀ c ∈ gap, isGap c = true)
    (hraw : isQuotable raw = true) :
    ReadsCodes EitherCode gap raw ∧
      (ReadsCodes HexCode gap raw ↔ ∀ cs, Denotes EitherCode raw cs → Denotes HexCode raw cs) ∧
      ∀ s : String, ReadsAs (String.ofList (gap ++ (Form.str s).chars)) (.str s) := by
  have heither := readsCodes_either hgap hraw
  have hmono {cs : List Char} (h : Denotes HexCode raw cs) : Denotes EitherCode raw cs :=
    h.mono fun _ _ => .inl
  refine ⟨heither, ⟨fun hhex cs hcs => ?_, fun hall => ⟨?_, ?_⟩⟩, fun s => ?_⟩
  · have hread := (heither.denoted cs hcs).form
    by_contra hnot
    have hnone : ∀ ds, ¬Denotes HexCode raw ds := by
      intro ds hds
      have hsame := (decode_iff.mpr (hmono hds)).symm.trans (decode_iff.mpr hcs)
      exact hnot (Except.ok.inj hsame ▸ hds)
    obtain ⟨message, hrefused⟩ := hhex.refused hnone
    cases hread.symm.trans hrefused.form
  · exact fun cs hcs => heither.denoted cs (hmono hcs)
  · exact fun hnone => heither.refused fun cs hcs => hnone cs (hall cs hcs)
  · have hescaped := (readsCodes_either hgap (isQuotable_escape s.toList)).denoted _
      (denotes_escape _ _)
    rwa [String.ofList_toList] at hescaped

/-- A literal with escapes of all kinds, behind blanks. -/
theorem readsCodes_accent :
    Denotes HexCode "caf\\u00e9\\t\\\"".toList "café\t\"".toList ∧
      ReadsAs ", \"caf\\u00e9\\t\\\"\"" (.str "café\t\"") := by
  have hcode : HexCode ['0', '0', 'e', '9'] 'é' :=
    ⟨[⟨0, false⟩, ⟨0, false⟩, ⟨14, false⟩, ⟨9, false⟩], rfl, by decide, by decide⟩
  have hdenotes : Denotes HexCode "caf\\u00e9\\t\\\"".toList "café\t\"".toList :=
    .plain (by decide) <| .plain (by decide) <| .plain (by decide) <| .unicode hcode <|
      .letter (by decide) <| .letter (by decide) .nil
  refine ⟨hdenotes, ?_⟩
  have hgap : ∀ c ∈ [',', ' '], isGap c = true := List.all_eq_true.mp rfl
  have hraw : isQuotable "caf\\u00e9\\t\\\"".toList = true := by decide
  exact (readsCodes_iff hgap hraw).1.denoted _ (hdenotes.mono fun _ _ => .inl)

/-- A code with a plus sign is read, though it is no code of four digits. -/
theorem readsCodes_plus :
    isQuotable "\\u+041".toList = true ∧ readForm "\"\\u+041\"" = .ok (.str "A") ∧
      ∀ cs, ¬Denotes HexCode "\\u+041".toList cs := by
  refine ⟨by decide, by cbv, fun cs h => ?_⟩
  have htext : "\\u+041".toList = ['\\', 'u', '+', '0', '4', '1'] := by decide
  generalize htext' : "\\u+041".toList = raw at h
  rw [htext] at htext'
  cases h with
  | nil => cases htext'
  | plain hc _ => exact hc (List.cons.inj htext').1.symm
  | letter hl _ =>
    obtain ⟨-, hrest⟩ := List.cons.inj htext'
    rw [← (List.cons.inj hrest).1] at hl
    have hnone : none = some _ := escapedLetter?_iff.mpr hl
    cases hnone
  | @unicode digits _ _ _ hcode _ =>
    cases digits with
    | nil => cases EitherCode.length (.inl hcode)
    | cons d digits =>
      obtain rfl : '+' = d := (List.cons.inj (List.cons.inj (List.cons.inj htext').2).2).1
      exact not_hexCode_plus hcode

end Listener
