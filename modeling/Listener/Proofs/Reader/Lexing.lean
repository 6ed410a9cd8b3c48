/-
Cutting the start of a text into tokens, with the rest of the text in sight.

* `Cuts`: a start of a text is cut into tokens just where the rest begins;
  `Cuts.append` puts such starts together.
* `cuts_skipped`, `cuts_gap`, `cuts_token`: what is skipped gives no token, and a scanned token
  one.
* `cuts_word`, `cuts_string`, `cuts_character` and the others: the tokens of each kind, in
  front of a rest that does not go on with a word.
-/
import Listener.Proofs.Form.WellFormed
import Listener.Reader.Token
import Mathlib.Tactic.Lemma

namespace Listener

namespace Reader

/-! ### Starts of texts -/

/-- Tokens in front of those of a text. -/
def Lexed.prepend (ts : List Token) (l : Lexed) : Lexed :=
  { l with tokens := ts ++ l.tokens }

/-- In front of `rest` and behind `pos` characters, the text `xs` is cut into the
tokens `ts`, and the next token is looked for at `rest`. -/
def Cuts (xs rest : List Char) (pos : Nat) (ts : List Token) : Prop :=
  lex pos (xs ++ rest) = (lex (pos + xs.length) rest).prepend ts

/-- A rest that does not go on with a word. -/
def Delimited (rest : List Char) : Prop :=
  ∀ c, rest.head? = some c → isWord c = false

lemma delimited_nil : Delimited [] := nofun

lemma delimited_cons {c : Char} {cs : List Char} (h : isWord c = false) :
    Delimited (c :: cs) := by
  rintro _ ⟨⟩
  exact h

namespace Cuts

variable {xs ys rest : List Char} {pos : Nat} {ts us : List Token}

lemma nil (rest : List Char) (pos : Nat) : Cuts [] rest pos [] := rfl

/-- Starts are cut one after the other. -/
theorem append (h : Cuts xs (ys ++ rest) pos ts) (h' : Cuts ys rest (pos + xs.length) us) :
    Cuts (xs ++ ys) rest pos (ts ++ us) := by
  simp only [Cuts] at h h' ⊢
  rw [List.append_assoc, h, h', List.length_append, Nat.add_assoc]
  simp [Lexed.prepend]

/-- The tokens of a text whose start is cut. -/
lemma tokens_eq (h : Cuts xs rest pos ts) :
    (lex pos (xs ++ rest)).tokens = ts ++ (lex (pos + xs.length) rest).tokens := by
  rw [h, Lexed.prepend]

/-- The tokens of a text that is cut up to its end. -/
lemma lex_eq (h : Cuts xs [] pos ts) : lex pos xs = ⟨ts, pos + xs.length, true⟩ := by
  have hend (p : Nat) : lex p [] = ⟨[], p, true⟩ := by rw [lex]; rfl
  simpa [Cuts, Lexed.prepend, hend] using h

end Cuts

/-! ### Blanks and single tokens -/

/-- Where no dispatch is read after a `#`, what is left is part of the text. -/
lemma scanHash_stuck_length_le {cs rest : List Char} (h : scanHash cs = .stuck rest) :
    rest.length ≤ cs.length := by
  simp only [scanHash] at h
  split at h <;> try cases h
  · split at h <;> cases h
    exact Nat.le_refl _
  · split at h <;> cases h
    exact Nat.le_refl _
  · split at h <;> cases h
    exact Nat.le_refl _
  · -- a qualifier with a bad name, or without a map after it
    rename_i es
    have hs := skip_length_le false es
    have ha := afterWord_length_le (skip false es)
    split at h
    · cases h
      simp only [List.length_cons]
      omega
    · split at h <;> cases h
      have := skip_length_le false (afterWord (skip false es))
      simp only [List.length_cons]
      omega
  · have hs := skip_length_le false cs
    split at h
    · rename_i c es he
      rw [he] at hs
      split at h <;> cases h
      exact hs
    · cases h
      exact Nat.zero_le _

/-- Where the text fits no token, what is left is part of the text. -/
lemma scan_stuck_length_le {c : Char} {cs rest : List Char} (h : scan c cs = .stuck rest) :
    rest.length ≤ cs.length + 1 := by
  simp only [scan] at h
  split at h
  · cases h
  split at h
  · split at h <;> cases h
  split at h
  · split at h <;> cases h
    exact Nat.le_refl _
  split at h
  · split at h <;> cases h
    exact Nat.le_refl _
  split at h
  · exact Nat.le_succ_of_le (scanHash_stuck_length_le h)
  · split at h <;> cases h
    exact Nat.le_refl _

lemma lex_nil {cs : List Char} (hs : skip false cs = []) (pos : Nat) :
    lex pos cs = ⟨[], pos + cs.length, true⟩ := by
  rw [lex]
  split
  · rfl
  · simp_all

lemma lex_stuck {c : Char} {cs ds rest : List Char} (hs : skip false cs = c :: ds)
    (hf : scan c ds = .stuck rest) (pos : Nat) :
    lex pos cs = ⟨[], pos + (cs.length - rest.length), false⟩ := by
  rw [lex]
  split
  · simp_all
  · rename_i hs'
    cases hs.symm.trans hs'
    split <;> rename_i hf' <;> cases hf.symm.trans hf'
    rfl

/-- A text that starts with a token. -/
lemma lex_found {c : Char} {cs ds rest : List Char} {l : Lexeme}
    (hs : skip false cs = c :: ds) (hf : scan c ds = .found l rest) (pos : Nat) :
    lex pos cs = (lex (pos + (cs.length - rest.length)) rest).prepend
      [⟨l, pos + (cs.length - (ds.length + 1)), pos + (cs.length - rest.length)⟩] := by
  rw [lex]
  split
  · simp_all
  · rename_i hs'
    cases hs.symm.trans hs'
    split <;> rename_i hf' <;> cases hf.symm.trans hf'
    rfl

/-- What is skipped in front of a text only moves its tokens. -/
lemma lex_skipped {xs cs : List Char} (h : skip false (xs ++ cs) = skip false cs) (pos : Nat) :
    lex pos (xs ++ cs) = lex (pos + xs.length) cs := by
  have hlen := skip_length_le false cs
  have hshift (n : Nat) (hn : n ≤ cs.length) :
      pos + ((xs ++ cs).length - n) = pos + xs.length + (cs.length - n) := by
    rw [List.length_append]
    omega
  cases hs : skip false cs with
  | nil => rw [lex_nil (h.trans hs), lex_nil hs, List.length_append, Nat.add_assoc]
  | cons d ds =>
    rw [hs, List.length_cons] at hlen
    cases hf : scan d ds with
    | stuck rest =>
      have := scan_stuck_length_le hf
      rw [lex_stuck (h.trans hs) hf, lex_stuck hs hf, hshift _ (by omega)]
    | found l rest =>
      have := scan_length_le hf
      rw [lex_found (h.trans hs) hf, lex_found hs hf, hshift _ (by omega), hshift _ (by omega)]

/-- What is skipped gives no tokens. -/
theorem cuts_skipped {xs rest : List Char} (h : skip false (xs ++ rest) = skip false rest)
    (pos : Nat) : Cuts xs rest pos [] := by
  rw [Cuts, lex_skipped h]
  rfl

/-- Blanks are no tokens. -/
theorem cuts_gap {xs : List Char} (h : ∀ c ∈ xs, isGap c = true) (rest : List Char)
    (pos : Nat) : Cuts xs rest pos [] := by
  refine cuts_skipped ?_ pos
  induction xs with
  | nil => rfl
  | cons c xs ih =>
    rw [List.forall_mem_cons] at h
    rw [List.cons_append, skip, if_neg (by decide), if_pos h.1, ih h.2]

/-- A token that is scanned up to the rest is cut off there. -/
theorem cuts_token {c : Char} {cs rest : List Char} {l : Lexeme} (hgap : isGap c = false)
    (hcomment : c ≠ ';') (h : scan c (cs ++ rest) = .found l rest) (pos : Nat) :
    Cuts (c :: cs) rest pos [⟨l, pos, pos + (c :: cs).length⟩] := by
  have hskip : skip false (c :: (cs ++ rest)) = c :: (cs ++ rest) := by
    simp [skip, hgap, hcomment]
  have hstop : (c :: (cs ++ rest)).length - rest.length = (c :: cs).length := by
    simp only [List.length_cons, List.length_append]
    omega
  have hstart : (c :: (cs ++ rest)).length - ((cs ++ rest).length + 1) = 0 := by simp
  rw [Cuts, List.cons_append, lex_found hskip h, hstop, hstart, Nat.add_zero]

/-! ### Characters of words -/

/-- The characters that no word has. -/
def nonWord : List Char :=
  [' ', '\t', '\r', '\n', ',', '(', ')', '[', ']', '\x7b', '\x7d', '"', ';', '@', '^', '\x60',
    '~', '\\']

lemma mem_nonWord_iff {c : Char} : c ∈ nonWord ↔ isWord c = false := by
  simp only [nonWord, List.mem_cons, List.not_mem_nil, or_false, isWord, isGap,
    Bool.not_eq_false', Bool.or_eq_true, beq_iff_eq, or_assoc]

/-- A class of characters that has none of the others consists of characters of
words. -/
lemma isWord_of_class {p : Char → Bool} (hp : nonWord.all (fun c => !p c) = true) {c : Char}
    (h : p c = true) : isWord c = true := by
  cases hw : isWord c with
  | true => rfl
  | false =>
    have := List.all_eq_true.mp hp c (mem_nonWord_iff.mpr hw)
    simp [h] at this

lemma isWord_of_isAlpha {c : Char} (h : c.isAlpha = true) : isWord c = true :=
  isWord_of_class (by decide) h

lemma isWord_of_isDigit {c : Char} (h : c.isDigit = true) : isWord c = true :=
  isWord_of_class (by decide) h

lemma isWord_of_isHexDigit {c : Char} (h : isHexDigit c = true) : isWord c = true :=
  isWord_of_class (by decide) h

lemma isWord_of_isOctalDigit {c : Char} (h : isOctalDigit c = true) : isWord c = true :=
  isWord_of_class (by decide) h

/-- A character of words is neither a blank nor the start of a comment. -/
lemma isGap_of_isWord {c : Char} (h : isWord c = true) : isGap c = false ∧ c ≠ ';' := by
  constructor
  · cases hg : isGap c with
    | false => rfl
    | true => simp [isWord, hg] at h
  · rintro rfl
    exact absurd h (by decide)

lemma skip_of_isWord {c : Char} (h : isWord c = true) (cs : List Char) :
    skip false (c :: cs) = c :: cs := by
  simp [skip, isGap_of_isWord h]

/-! ### Words -/

lemma word_append {w rest : List Char} (hw : ∀ c ∈ w, isWord c = true)
    (hrest : Delimited rest) : word (w ++ rest) = w ∧ afterWord (w ++ rest) = rest :=
  Text.span_class hw rest hrest

/-- Characters of words are tokens of their own in one case only. -/
lemma single?_of_isWord {c : Char} (h : isWord c = true) (hq : c ≠ '\'') :
    single? c = none := by
  unfold single?
  split <;> first
    | rfl
    | exact absurd rfl hq
    | exact absurd h (by decide)

/-- A word that starts with neither an apostrophe nor a hash sign is one token. -/
theorem cuts_word {c : Char} {cs rest : List Char} {a : Atom}
    (hw : ∀ d ∈ c :: cs, isWord d = true) (hq : c ≠ '\'') (hh : c ≠ '#')
    (ha : wordAtom? (c :: cs) = some a) (hrest : Delimited rest) (pos : Nat) :
    Cuts (c :: cs) rest pos [⟨.atom a, pos, pos + (c :: cs).length⟩] := by
  have hc : isWord c = true := hw c List.mem_cons_self
  have hscan : scan c (cs ++ rest) = .found (.atom a) rest := by
    obtain ⟨hword, hafter⟩ := word_append hw hrest
    rw [List.cons_append] at hword hafter
    have ht : c ≠ '~' := fun he => absurd (he ▸ hc) (by decide)
    have hs : c ≠ '"' := fun he => absurd (he ▸ hc) (by decide)
    have hb : c ≠ '\\' := fun he => absurd (he ▸ hc) (by decide)
    simp [scan, single?_of_isWord hc hq, ht, hs, hb, hh, hword, hafter, ha]
  exact cuts_token (isGap_of_isWord hc).1 (isGap_of_isWord hc).2 hscan pos

/-- The text of a symbol is read as a symbol or a word for another value. -/
lemma cuts_name {w rest : List Char} (h : isNameText w = true) (hrest : Delimited rest)
    (pos : Nat) : Cuts w rest pos [⟨.atom (.symbol w), pos, pos + w.length⟩] := by
  obtain ⟨⟨c, cs, rfl, hc⟩, hw, hn⟩ := isNameText_iff.mp h
  simp only [isSymbolStart, Bool.and_eq_true, Bool.not_eq_true', Bool.or_eq_false_iff,
    beq_eq_false_iff_ne] at hc
  obtain ⟨_, ⟨⟨hd, hcolon⟩, hh⟩, hq⟩ := hc
  have ha : wordAtom? (c :: cs) = some (.symbol (c :: cs)) := by
    simp [wordAtom?, hcolon, hn, hd]
  exact cuts_word hw hq hh ha hrest pos

/-- A colon and the text of a keyword are read as the keyword. -/
lemma cuts_keyword {k rest : List Char} (h : isKeywordText k = true)
    (hrest : Delimited rest) (pos : Nat) :
    Cuts (':' :: k) rest pos [⟨.atom (.keyword k), pos, pos + (':' :: k).length⟩] := by
  obtain ⟨hw, hne, hcolon⟩ := isKeywordText_iff.mp h
  have ha : wordAtom? (':' :: k) = some (.keyword k) := by
    simp [wordAtom?]
  have hw' : ∀ d ∈ ':' :: k, isWord d = true := by
    intro d hd
    rcases List.mem_cons.mp hd with rfl | hd
    · decide
    · exact hw d hd
  exact cuts_word hw' (by decide) (by decide) ha hrest pos

/-- A numeral is read as a number. -/
lemma cuts_number {w rest : List Char} {n : Numeral} (hw : ∀ c ∈ w, isWord c = true)
    (hstart : w.head?.any (fun c => c == '-' || c == '+' || c.isDigit) = true)
    (h : Numeral.ofWord? w = some n) (hrest : Delimited rest) (pos : Nat) :
    Cuts w rest pos [⟨.atom (.number w), pos, pos + w.length⟩] := by
  cases w with
  | nil => simp at hstart
  | cons c cs =>
    have hc : c ≠ ':' ∧ c ≠ '\'' ∧ c ≠ '#' := by
      refine ⟨?_, ?_, ?_⟩ <;> rintro rfl <;> exact absurd hstart (by simp)
    have ha : wordAtom? (c :: cs) = some (.number (c :: cs)) := by
      simp [wordAtom?, hc.1, h]
    exact cuts_word hw hc.2.1 hc.2.2 ha hrest pos

/-! ### Quoted texts -/

/-- A text that may stand between quotes is found there as it stands. -/
lemma quoted?_append {raw : List Char} (h : isQuotable raw = true) (rest : List Char) :
    quoted? (raw ++ '"' :: rest) = some (raw, rest) := by
  fun_induction isQuotable raw with
  | case1 => rfl
  | case2 => cases h
  | case3 c cs ih => simp [quoted?, ih h]
  | case4 c cs h₁ h₂ ih =>
    simp only [Bool.and_eq_true, bne_iff_ne] at h
    have hb : c ≠ '\\' := by
      rintro rfl
      cases cs with
      | nil => exact h₁ rfl rfl
      | cons d ds => exact h₂ d ds rfl rfl
    rw [List.cons_append, quoted?]
    · simp [ih h.2]
    · exact h.1
    · exact fun _ _ he => absurd he hb
    · exact fun he => absurd he hb

/-- Only a text that may stand between quotes is found there. -/
lemma isQuotable_of_quoted? {cs raw rest : List Char} (h : quoted? cs = some (raw, rest)) :
    isQuotable raw = true ∧ cs = raw ++ '"' :: rest := by
  fun_induction quoted? cs generalizing raw rest with
  | case1 cs =>
    cases h
    exact ⟨rfl, rfl⟩
  | case2 c cs ih =>
    obtain ⟨⟨r, s⟩, hs, hp⟩ := Option.map_eq_some_iff.mp h
    cases hp
    obtain ⟨hr, rfl⟩ := ih hs
    exact ⟨hr, rfl⟩
  | case3 => cases h
  | case4 c cs hq h₁ h₂ ih =>
    obtain ⟨⟨r, s⟩, hs, hp⟩ := Option.map_eq_some_iff.mp h
    cases hp
    obtain ⟨hr, rfl⟩ := ih hs
    have hb : c ≠ '\\' := by
      rintro rfl
      cases r with
      | nil => exact h₁ _ _ rfl rfl
      | cons d ds => exact h₁ _ _ rfl rfl
    refine ⟨?_, rfl⟩
    rw [isQuotable]
    · simpa [hr] using hq
    · exact fun he => absurd he hb
    · exact fun _ _ he => absurd he hb
  | case5 => cases h

/-- A quote, a text and the closing quote are a string. -/
theorem cuts_string {raw : List Char} (h : isQuotable raw = true) (rest : List Char)
    (pos : Nat) :
    Cuts ('"' :: raw ++ ['"']) rest pos
      [⟨.atom (.string raw), pos, pos + ('"' :: raw ++ ['"']).length⟩] := by
  have hscan : scan '"' ((raw ++ ['"']) ++ rest) = .found (.atom (.string raw)) rest := by
    simp [scan, single?, quoted?_append h]
  exact cuts_token (by decide) (by decide) hscan pos

/-! ### Characters -/

/-- A rest that ends words starts with no character of a class within them. -/
lemma takeWhile_of_delimited {p : Char → Bool} (hp : ∀ d, p d = true → isWord d = true)
    {rest : List Char} (hrest : Delimited rest) : rest.takeWhile p = [] := by
  cases rest with
  | nil => rfl
  | cons d ds =>
    have hd : p d = false := by
      cases he : p d with
      | false => rfl
      | true => exact absurd (hp d he) (by simp [hrest d rfl])
    simp [hd]

lemma Delimited.take {rest : List Char} (h : Delimited rest) (n : Nat) :
    Delimited (rest.take n) := by
  intro c hc
  cases n with
  | zero => simp at hc
  | succ n =>
    cases rest with
    | nil => simp at hc
    | cons d ds => exact h c (by simpa using hc)

/-- No code of hexadecimal digits starts at a rest that ends words. -/
lemma not_hex_of_delimited {rest : List Char} (hrest : Delimited rest) :
    ¬((rest.take 4).length = 4 ∧ (rest.take 4).all isHexDigit = true) := by
  rintro ⟨hlen, hall⟩
  cases rest with
  | nil => simp at hlen
  | cons d ds =>
    have hd := List.all_eq_true.mp hall d (by simp)
    simpa [isWord_of_isHexDigit hd] using hrest d rfl

/-- In front of a rest that ends words, a character after a backslash stands for
itself. -/
lemma characterBody?_one (c : Char) {rest : List Char} (hrest : Delimited rest) :
    characterBody? (c :: rest) = some ([c], rest) := by
  have hhex := not_hex_of_delimited hrest
  have hoctal := takeWhile_of_delimited (fun _ => isWord_of_isOctalDigit) (hrest.take 3)
  have hname : ¬2 ≤ ((c :: rest).takeWhile Char.isAlpha).length := by
    have := takeWhile_of_delimited (fun _ => isWord_of_isAlpha) hrest
    rw [List.takeWhile_cons]
    split <;> simp [this]
  simp only [characterBody?, List.drop_succ_cons, List.drop_zero, hoctal]
  rw [if_neg fun h => hhex h.2, if_neg fun h => h.2 rfl, if_neg hname]

/-- In front of a rest that ends words, a name after a backslash is found as it
stands; it may not look like a code. -/
lemma characterBody?_name {c : Char} {cs : List Char} (hname : ∀ d ∈ c :: cs, d.isAlpha = true)
    (hlen : cs ≠ []) (hu : c ≠ 'u') (ho : c ≠ 'o') {rest : List Char} (hrest : Delimited rest) :
    characterBody? (c :: cs ++ rest) = some (c :: cs, rest) := by
  have htake : (c :: cs ++ rest).takeWhile Char.isAlpha = c :: cs := by
    rw [List.takeWhile_append_of_pos hname,
      takeWhile_of_delimited (fun _ => isWord_of_isAlpha) hrest, List.append_nil]
  have htwo : 2 ≤ (c :: cs).length := by
    have := List.length_pos_iff.mpr hlen
    rw [List.length_cons]
    omega
  have hdrop : (c :: cs ++ rest).drop (c :: cs).length = rest := List.drop_left
  simp only [characterBody?, htake, hdrop]
  rw [List.cons_append]
  simp only [hu, ho, false_and, if_false, htwo, if_true]

/-- A backslash and what stands for a character are a character. -/
theorem cuts_character {body rest : List Char}
    (h : characterBody? (body ++ rest) = some (body, rest)) (pos : Nat) :
    Cuts ('\\' :: body) rest pos
      [⟨.atom (.character body), pos, pos + ('\\' :: body).length⟩] := by
  have hscan : scan '\\' (body ++ rest) = .found (.atom (.character body)) rest := by
    simp [scan, single?, h]
  exact cuts_token (by decide) (by decide) hscan pos

/-! ### Tokens of fixed texts -/

lemma cuts_single {c : Char} {l : Lexeme} (h : single? c = some l) (rest : List Char)
    (pos : Nat) : Cuts [c] rest pos [⟨l, pos, pos + 1⟩] := by
  have hc : isGap c = false ∧ c ≠ ';' := by
    unfold single? at h
    split at h <;> first
      | exact ⟨by decide, by decide⟩
      | cases h
  have hscan : scan c ([] ++ rest) = .found l rest := by simp [scan, h]
  exact cuts_token hc.1 hc.2 hscan pos

lemma cuts_hash {cs rest : List Char} {l : Lexeme} (h : scanHash (cs ++ rest) = .found l rest)
    (pos : Nat) : Cuts ('#' :: cs) rest pos [⟨l, pos, pos + ('#' :: cs).length⟩] := by
  have hscan : scan '#' (cs ++ rest) = .found l rest := by simp [scan, single?, h]
  exact cuts_token (by decide) (by decide) hscan pos

lemma scanHash_regex {raw : List Char} (h : isQuotable raw = true) (rest : List Char) :
    scanHash (('"' :: raw ++ ['"']) ++ rest) = .found (.atom (.regex raw)) rest := by
  simp [scanHash, quoted?_append h]

lemma scanHash_tag {tag : List Char} (h : isTagText tag = true) {rest : List Char}
    (hrest : Delimited rest) :
    scanHash (tag ++ rest) = .found (.sigil (.tag tag)) rest := by
  obtain ⟨⟨c, cs, rfl, hc⟩, hw⟩ := isTagText_iff.mp h
  obtain ⟨hword, hafter⟩ := word_append hw hrest
  rw [List.cons_append] at hword hafter ⊢
  have hskip := skip_of_isWord (isWord_of_isAlpha hc) (cs ++ rest)
  have hne (d : Char) (hd : d.isAlpha = false) : c ≠ d := by
    rintro rfl
    simp [hc] at hd
  unfold scanHash
  split
  all_goals first
    | (rename_i heq
       rw [hskip]
       simp [hc, hword, hafter])
    | (rename_i heq
       exact absurd (List.cons.inj heq).1 (hne _ (by decide)))

/-- A hash sign, a colon and a qualifier are a mark in front of a map. -/
lemma scanHash_qualifier {qualifier : List Char} (hne : qualifier ≠ [])
    (hw : ∀ c ∈ qualifier, isWord c = true) (rest : List Char) :
    scanHash ((':' :: qualifier) ++ '\x7b' :: rest) =
      .found (.sigil (.qualifier qualifier)) ('\x7b' :: rest) := by
  obtain ⟨c, cs, rfl⟩ := List.exists_cons_of_ne_nil hne
  have hrest : Delimited ('\x7b' :: rest) := delimited_cons (by decide)
  obtain ⟨hword, hafter⟩ := word_append hw hrest
  rw [List.cons_append] at hword hafter
  have hskip := skip_of_isWord (hw c List.mem_cons_self) (cs ++ '\x7b' :: rest)
  have hbrace : skip false ('\x7b' :: rest) = '\x7b' :: rest := by
    simp [skip, isGap]
  simp [scanHash, hskip, hword, hafter, hbrace]

end Reader

end Listener
