/-
How far a token looks ahead.

* `skip_split`: the blanks and comments in front of a token, which are the same whatever follows.
* `Lexeme.Ends`: the tokens that may stand last in an item.
* `scan_cut`: a token takes up a start of the text, and is found there again when the text is cut
  off somewhere behind it; `scanHash_cut`, `characterBody?_cut` and `word_cut` for its parts.
* `Lexes`: the start of a text that tokens take up; `exists_lexes` finds it for any tokens at the
  front, and `Lexes.cut_off` says that what follows may be cut off.
-/
import Listener.Proofs.Reader.Lexing
import Mathlib.Tactic.Lemma

namespace Listener

namespace Reader

/-! ### Blanks and comments -/

/-- The blanks and comments `gap` lead up to the character `c`, whatever follows it. -/
def Leads (inComment : Bool) (gap : List Char) (c : Char) : Prop :=
  ∀ rest, skip inComment (gap ++ c :: rest) = c :: rest

/-- What is skipped in front of a token is skipped whatever follows, and also on its own. -/
theorem skip_split {inComment : Bool} {cs rest : List Char} {c : Char}
    (h : skip inComment cs = c :: rest) :
    ∃ gap, cs = gap ++ c :: rest ∧ Leads inComment gap c ∧ skip inComment gap = [] := by
  induction cs generalizing inComment with
  | nil => cases h
  | cons d cs ih =>
    -- one more character in front that is skipped
    have more (next : Bool) (hd : ∀ es, skip inComment (d :: es) = skip next es) :
        ∃ gap, d :: cs = gap ++ c :: rest ∧ Leads inComment gap c ∧ skip inComment gap = [] := by
      rw [hd] at h
      obtain ⟨gap, rfl, hleads, hgap⟩ := ih h
      exact ⟨d :: gap, rfl, fun es => (hd _).trans (hleads es), (hd _).trans hgap⟩
    cases inComment with
    | true => exact more _ fun es => by rw [skip, if_pos rfl]
    | false =>
      cases hgap : isGap d with
      | true => exact more false fun es => by simp [skip, hgap]
      | false =>
        cases hcomment : d == ';' with
        | true => exact more true fun es => by simp [skip, hgap, hcomment]
        | false =>
          have hkeep (es : List Char) : skip false (d :: es) = d :: es := by
            simp [skip, hgap, hcomment]
          rw [hkeep] at h
          cases h
          exact ⟨[], rfl, hkeep, rfl⟩

/-- A text that has a token keeps it in front of any rest. -/
lemma skip_append {inComment : Bool} {cs : List Char} (h : skip inComment cs ≠ [])
    (rest : List Char) : skip inComment (cs ++ rest) = skip inComment cs ++ rest := by
  obtain ⟨c, ds, hs⟩ := List.exists_cons_of_ne_nil h
  obtain ⟨gap, rfl, hleads, -⟩ := skip_split hs
  rw [hs, List.append_assoc, List.cons_append, hleads]

lemma Leads.nil {inComment : Bool} {gap : List Char} {c : Char} (h : Leads inComment gap c) :
    Leads false [] c := by
  rcases skip_eq_nil_or inComment (gap ++ c :: []) with hnil | ⟨d, rest, hd, hgap, hcomment⟩
  · cases (h []).symm.trans hnil
  · cases (h []).symm.trans hd
    intro rest
    simp [skip, hgap, hcomment]

/-! ### Words -/

lemma delimited_afterWord (cs : List Char) : Delimited (afterWord cs) := by
  induction cs with
  | nil => exact delimited_nil
  | cons c cs ih =>
    cases hc : isWord c with
    | true => simpa [afterWord, hc] using ih
    | false => simpa [afterWord, hc] using delimited_cons hc

lemma Delimited.of_append {xs ys : List Char} (h : Delimited (xs ++ ys)) : Delimited xs := by
  cases xs with
  | nil => exact delimited_nil
  | cons c xs => exact delimited_cons (h c rfl)

/-- A word that is not empty starts where the text starts. -/
lemma word_of_ne_nil {c : Char} {cs : List Char} (h : word (c :: cs) ≠ []) :
    word (c :: cs) = c :: word cs := by
  cases hc : isWord c with
  | true => simp [word, hc]
  | false => exact absurd (by simp [word, hc]) h

/-- A word is found again when the text is cut off behind it. -/
theorem word_cut {cs xs ys : List Char} (h : afterWord cs = xs ++ ys) :
    word (word cs ++ xs) = word cs ∧ afterWord (word cs ++ xs) = xs := by
  have hrest : Delimited (xs ++ ys) := h ▸ delimited_afterWord cs
  exact word_append (List.all_eq_true.mp List.all_takeWhile) hrest.of_append

/-! ### Characters -/

/-- The longest start of a class is found again when the text is cut off behind it. -/
lemma takeWhile_cut {p : Char → Bool} {xs ys zs : List Char}
    (h : (xs ++ ys).takeWhile p = zs) (hlen : zs.length ≤ xs.length) : xs.takeWhile p = zs := by
  rw [List.takeWhile_append] at h
  split at h
  · rename_i hall
    have hxs : xs.takeWhile p = xs := (List.takeWhile_prefix p).eq_of_length hall
    subst h
    rw [List.length_append] at hlen
    have hys : (ys.takeWhile p).length = 0 := by omega
    rw [List.eq_nil_of_length_eq_zero hys, List.append_nil, hxs]
  · exact h

/-- Where a text is cut off, no more characters of a class are at its start. -/
lemma takeWhile_append_le (p : Char → Bool) (xs ys : List Char) :
    (xs.takeWhile p).length ≤ ((xs ++ ys).takeWhile p).length := by
  rw [List.takeWhile_append]
  split
  · rename_i hall
    rw [hall, List.length_append]
    exact Nat.le_add_right _ _
  · exact Nat.le_refl _

/-- A code of hexadecimal digits in a text that is cut off is one in the whole text. -/
lemma isHex_append {xs ys : List Char}
    (h : (xs.take 4).length = 4 ∧ (xs.take 4).all isHexDigit = true) :
    ((xs ++ ys).take 4).length = 4 ∧ ((xs ++ ys).take 4).all isHexDigit = true := by
  have hlen := h.1
  rw [List.length_take] at hlen
  rwa [List.take_append_of_le_length (by omega)]

/-- Octal digits are found again when the text is cut off behind them. -/
lemma octal_cut {xs ys zs : List Char} (h : ((xs ++ ys).take 3).takeWhile isOctalDigit = zs)
    (hlen : zs.length ≤ xs.length) : (xs.take 3).takeWhile isOctalDigit = zs := by
  have hthree : zs.length ≤ 3 := by
    have hprefix := (List.takeWhile_prefix (l := (xs ++ ys).take 3) isOctalDigit).length_le
    rw [h, List.length_take] at hprefix
    omega
  rw [List.take_append] at h
  exact takeWhile_cut h (by rw [List.length_take]; omega)

/-- The body of a character starts the text, and is found again when the text is cut off behind
it. -/
theorem characterBody?_cut {cs body rest : List Char} (h : characterBody? cs = some (body, rest)) :
    cs = body ++ rest ∧
      ∀ xs ys, rest = xs ++ ys → characterBody? (body ++ xs) = some (body, xs) := by
  cases cs with
  | nil => cases h
  | cons c cs =>
    simp only [characterBody?, List.drop_succ_cons, List.drop_zero] at h
    split at h
    · -- four hexadecimal digits
      rename_i hhex
      cases h
      refine ⟨by rw [List.cons_append, List.take_append_drop], fun xs ys _ => ?_⟩
      have htake : (cs.take 4 ++ xs).take 4 = cs.take 4 := List.take_left' hhex.2.1
      have hdrop : (cs.take 4 ++ xs).drop 4 = xs := List.drop_left' hhex.2.1
      simp only [characterBody?, List.cons_append, List.drop_succ_cons, List.drop_zero, htake,
        hdrop, if_pos hhex]
    rename_i hhex
    -- a code that is none in the whole text is none where the text is cut off
    have hnohex {xs ys : List Char} (hcs : cs = xs ++ ys) :
        ¬(c = 'u' ∧ (xs.take 4).length = 4 ∧ (xs.take 4).all isHexDigit = true) :=
      fun hx => hhex (hcs ▸ ⟨hx.1, isHex_append hx.2⟩)
    split at h
    · -- octal digits
      rename_i hoctal
      cases h
      generalize ho : (cs.take 3).takeWhile isOctalDigit = digits at hoctal
      obtain ⟨rest, rfl⟩ : ∃ rest, cs = digits ++ rest := by
        obtain ⟨more, hmore⟩ := List.takeWhile_prefix (l := cs.take 3) isOctalDigit
        refine ⟨more ++ cs.drop 3, ?_⟩
        rw [← List.append_assoc, ← ho, hmore, List.take_append_drop]
      rw [List.drop_left]
      refine ⟨rfl, ?_⟩
      rintro xs ys rfl
      rw [← List.append_assoc] at ho hnohex
      have ho' : ((digits ++ xs).take 3).takeWhile isOctalDigit = digits :=
        octal_cut ho (by rw [List.length_append]; exact Nat.le_add_right _ _)
      simp only [characterBody?, List.cons_append, List.drop_succ_cons, List.drop_zero, ho',
        if_neg (hnohex rfl), if_pos hoctal, List.drop_left]
    rename_i hoctal
    have hnooctal {xs ys : List Char} (hcs : cs = xs ++ ys) :
        ¬(c = 'o' ∧ (xs.take 3).takeWhile isOctalDigit ≠ []) := by
      rintro ⟨hc, hne⟩
      refine hoctal ⟨hc, fun hnil => hne ?_⟩
      rw [hcs] at hnil
      exact octal_cut hnil (Nat.zero_le _)
    split at h
    · -- a name
      rename_i hname
      cases h
      generalize hn : (c :: cs).takeWhile Char.isAlpha = name at hname
      obtain ⟨rest, hrest⟩ := List.takeWhile_prefix (l := c :: cs) Char.isAlpha
      rw [hn] at hrest
      rw [← hrest, List.drop_left]
      refine ⟨rfl, ?_⟩
      rintro xs ys rfl
      cases name with
      | nil => simp at hname
      | cons d name =>
        rw [List.cons_append, ← List.append_assoc, List.cons.injEq] at hrest
        obtain ⟨rfl, rfl⟩ := hrest
        have hfull : (d :: (name ++ xs) ++ ys).takeWhile Char.isAlpha = d :: name := hn
        have hn' := takeWhile_cut hfull (by simp)
        simp only [characterBody?, List.cons_append, List.drop_succ_cons, List.drop_zero,
          if_neg (hnohex rfl), if_neg (hnooctal rfl), hn', if_pos hname]
        simp
    · -- one character
      rename_i hname
      cases h
      refine ⟨rfl, ?_⟩
      rintro xs ys rfl
      have hname' : ¬2 ≤ ((c :: xs).takeWhile Char.isAlpha).length := fun hx =>
        hname (Nat.le_trans hx (takeWhile_append_le Char.isAlpha (c :: xs) ys))
      simp only [characterBody?, List.cons_append, List.nil_append, List.drop_succ_cons,
        List.drop_zero, if_neg (hnohex rfl), if_neg (hnooctal rfl), if_neg hname']

/-! ### Tokens that start with a hash sign -/

/-- The tokens that may stand last in an item. -/
def Lexeme.Ends : Lexeme → Prop
  | .atom _ => True
  | .closer _ => True
  | _ => False

/-- The characters that mean something of their own after a hash sign. -/
def dispatchers : List Char :=
  ['_', '\'', '(', '\x7b', '"', '#', '?', ':']

/-- After a hash sign any other character leads up to a tag. -/
lemma scanHash_of_not_mem {c : Char} (hc : c ∉ dispatchers) (cs : List Char) :
    scanHash (c :: cs) =
      match skip false (c :: cs) with
      | c :: rest =>
        if c.isAlpha then .found (.sigil (.tag (word (c :: rest)))) (afterWord (c :: rest))
        else .stuck (c :: rest)
      | [] => .stuck [] := by
  have hne (d : Char) (hd : d ∈ dispatchers) : c ≠ d := fun he => hc (he ▸ hd)
  unfold scanHash
  split
  all_goals first
    | rfl
    | (rename_i heq
       exact absurd (List.cons.inj heq).1 (hne _ (by decide)))

/-- What leads up to a letter starts with a character that means nothing of its own after a hash
sign. -/
lemma head_of_leads {gap : List Char} {c : Char} (h : Leads false gap c)
    (hc : c.isAlpha = true) (rest : List Char) :
    ∃ d ds, gap ++ c :: rest = d :: ds ∧ d ∉ dispatchers := by
  have hall : dispatchers.all (fun d => !isGap d && !(d == ';') && !d.isAlpha) = true := by decide
  cases hg : gap ++ c :: rest with
  | nil => simp at hg
  | cons d ds =>
    refine ⟨d, ds, rfl, fun hd => ?_⟩
    have hplain := List.all_eq_true.mp hall d hd
    simp only [Bool.and_eq_true, Bool.not_eq_true'] at hplain
    obtain ⟨⟨hgap, hcomment⟩, halpha⟩ := hplain
    have hskip : skip false (d :: ds) = d :: ds := by simp [skip, hgap, hcomment]
    have hleads := h rest
    rw [hg, hskip] at hleads
    cases hleads
    cases halpha.symm.trans hc

/-- What is found after a hash sign takes up a start of the text, and is found there again when
the text is cut off behind it; something else must follow unless it may stand last. -/
theorem scanHash_cut {cs rest : List Char} {l : Lexeme} (h : scanHash cs = .found l rest) :
    ∃ ws, cs = ws ++ rest ∧ ∀ xs ys, rest = xs ++ ys → l.Ends ∨ skip false xs ≠ [] →
      scanHash (ws ++ xs) = .found l xs := by
  have hcs := h
  simp only [scanHash] at h
  split at h
  · cases h
    exact ⟨['_'], rfl, fun _ _ _ _ => rfl⟩
  · cases h
    exact ⟨['\''], rfl, fun _ _ _ _ => rfl⟩
  · cases h
    exact ⟨['('], rfl, fun _ _ _ _ => rfl⟩
  · cases h
    exact ⟨['\x7b'], rfl, fun _ _ _ _ => rfl⟩
  · split at h
    · rename_i raw rest' hq
      cases h
      obtain ⟨hraw, rfl⟩ := isQuotable_of_quoted? hq
      exact ⟨'"' :: raw ++ ['"'], by simp, fun xs _ _ _ => scanHash_regex hraw xs⟩
    · cases h
  · cases h
    exact ⟨['#', 'I', 'n', 'f'], rfl, fun _ _ _ _ => rfl⟩
  · cases h
    exact ⟨['#', '-', 'I', 'n', 'f'], rfl, fun _ _ _ _ => rfl⟩
  · cases h
    exact ⟨['#', 'N', 'a', 'N'], rfl, fun _ _ _ _ => rfl⟩
  · -- a conditional for several forms
    split at h
    · rename_i hs
      cases h
      obtain ⟨gap, rfl, hleads, -⟩ := skip_split hs
      refine ⟨'?' :: '@' :: (gap ++ ['(']), by simp, fun xs _ _ _ => ?_⟩
      simp [scanHash, hleads xs]
    · cases h
  · -- a conditional
    rename_i hnot
    split at h
    · rename_i hs
      cases h
      obtain ⟨gap, rfl, hleads, -⟩ := skip_split hs
      refine ⟨'?' :: (gap ++ ['(']), by simp, fun xs _ _ _ => ?_⟩
      -- the sign for several forms does not come into sight where the text is cut off
      have hone : ∀ es, gap ++ '(' :: xs ≠ '@' :: es := by
        cases gap with
        | nil => simp
        | cons d gap =>
          intro es he
          exact hnot _ (by rw [List.cons_append, (List.cons.inj he).1])
      simp [scanHash, hleads xs]
    · cases h
  · -- a qualifier, with the opening of its map in sight
    rename_i es
    split at h
    · cases h
    rename_i hne
    split at h
    · rename_i hbrace
      cases h
      obtain ⟨c, ds, hs⟩ : ∃ c ds, skip false es = c :: ds := by
        cases hs : skip false es with
        | nil => exact absurd (by rw [hs]; rfl) hne
        | cons c ds => exact ⟨c, ds, rfl⟩
      obtain ⟨gap, rfl, hleads, -⟩ := skip_split hs
      rw [hs] at hne hbrace ⊢
      refine ⟨':' :: (gap ++ word (c :: ds)), ?_, fun xs ys hxs hlast => ?_⟩
      · rw [List.cons_append, List.append_assoc, word_append_afterWord]
      · obtain ⟨hword, hafter⟩ := word_cut hxs
        have hskip : skip false (gap ++ (word (c :: ds) ++ xs)) = word (c :: ds) ++ xs := by
          rw [word_of_ne_nil hne]
          exact hleads _
        -- a qualifier may not stand last, so the brace behind it is not cut off
        have hlast : skip false xs ≠ [] := hlast.resolve_left id
        obtain ⟨e, fs, hopen⟩ := List.exists_cons_of_ne_nil hlast
        have he : e = '\x7b' := by
          have happend := skip_append hlast ys
          rw [← hxs, hbrace, hopen] at happend
          exact (List.cons.inj happend).1.symm
        subst he
        simp only [List.cons_append, List.append_assoc, scanHash, hskip, hword, hafter, hopen,
          if_neg hne]
    · cases h
  · -- a tag
    split at h
    · rename_i c ds hs
      split at h
      · rename_i hc
        cases h
        obtain ⟨gap, rfl, hleads, -⟩ := skip_split hs
        refine ⟨gap ++ word (c :: ds), ?_, fun xs ys hxs _ => ?_⟩
        · rw [List.append_assoc, word_append_afterWord]
        · obtain ⟨hword, hafter⟩ := word_cut hxs
          -- a tag begins with a letter, so what is cut off is no other token behind a hash sign
          have hstart : word (c :: ds) = c :: word ds :=
            word_of_ne_nil (by simp [word, isWord_of_isAlpha hc])
          obtain ⟨d, es, hd, hnot⟩ := head_of_leads hleads hc (word ds ++ xs)
          have heq : gap ++ word (c :: ds) ++ xs = d :: es := by
            rw [← hd, hstart, List.append_assoc, List.cons_append]
          rw [heq, scanHash_of_not_mem hnot, ← hd, hleads]
          rw [hstart, List.cons_append] at hword hafter
          simp only [hc, if_true, hword, hafter, hstart]
      · cases h
    · cases h

/-! ### Tokens -/

/-- A token takes up a start of the text, and is found there again when the text is cut off behind
it; something else must follow unless it may stand last. -/
theorem scan_cut {c : Char} {cs rest : List Char} {l : Lexeme} (h : scan c cs = .found l rest) :
    ∃ ws, cs = ws ++ rest ∧ ∀ xs ys, rest = xs ++ ys → l.Ends ∨ skip false xs ≠ [] →
      scan c (ws ++ xs) = .found l xs := by
  simp only [scan] at h
  split at h
  · rename_i hsingle
    cases h
    exact ⟨[], rfl, fun xs _ _ _ => by simp [scan, hsingle]⟩
  rename_i hsingle
  split at h
  · rename_i hc
    subst hc
    split at h
    · cases h
      exact ⟨['@'], rfl, fun _ _ _ _ => rfl⟩
    · rename_i hnot
      cases h
      refine ⟨[], rfl, ?_⟩
      rintro xs ys rfl -
      have hone : ∀ es, xs ≠ '@' :: es := by
        rintro es rfl
        exact hnot _ rfl
      simp [scan, single?]
  rename_i htilde
  split at h
  · rename_i hc
    split at h
    · rename_i raw rest' hq
      cases h
      obtain ⟨hraw, rfl⟩ := isQuotable_of_quoted? hq
      refine ⟨raw ++ ['"'], by simp, fun xs _ _ _ => ?_⟩
      simp [hc, scan, single?, quoted?_append hraw]
    · cases h
  rename_i hquote
  split at h
  · rename_i hc
    split at h
    · rename_i body rest' hb
      cases h
      obtain ⟨rfl, hcut⟩ := characterBody?_cut hb
      refine ⟨body, rfl, fun xs ys hxs _ => ?_⟩
      simp [hc, scan, single?, hcut xs ys hxs]
    · cases h
  rename_i hslash
  split at h
  · rename_i hc
    obtain ⟨ws, rfl, hcut⟩ := scanHash_cut h
    refine ⟨ws, rfl, fun xs ys hxs hlast => ?_⟩
    simp [hc, scan, single?, hcut xs ys hxs hlast]
  rename_i hhash
  split at h
  · rename_i a ha
    cases h
    have hne : word (c :: cs) ≠ [] := by
      intro hnil
      rw [hnil] at ha
      cases ha
    have hall := word_append_afterWord (c :: cs)
    refine ⟨word cs, ?_, fun xs ys hxs _ => ?_⟩
    · rw [word_of_ne_nil hne, List.cons_append] at hall
      exact (List.cons.inj hall).2.symm
    · obtain ⟨hword, hafter⟩ := word_cut hxs
      rw [word_of_ne_nil hne, List.cons_append] at hword hafter
      rw [word_of_ne_nil hne] at ha
      simp [scan, hsingle, htilde, hquote, hslash, hhash, hword, hafter, ha]
  · cases h

/-! ### Starts of texts -/

/-- A token that is scanned up to the rest is cut off there, with the blanks and comments in front
of it. -/
lemma cuts_leads {gap ws rest : List Char} {c : Char} {l : Lexeme} (hgap : Leads false gap c)
    (hscan : scan c (ws ++ rest) = .found l rest) (pos : Nat) :
    Cuts (gap ++ c :: ws) rest pos [⟨l, pos + gap.length, pos + (gap ++ c :: ws).length⟩] := by
  have hs : skip false (gap ++ c :: ws ++ rest) = c :: (ws ++ rest) := by
    rw [List.append_assoc, List.cons_append]
    exact hgap _
  have hstart : (gap ++ c :: ws ++ rest).length - ((ws ++ rest).length + 1) = gap.length := by
    simp only [List.length_append, List.length_cons]
    omega
  have hstop : (gap ++ c :: ws ++ rest).length - rest.length = (gap ++ c :: ws).length := by
    rw [List.length_append, Nat.add_sub_cancel]
  rw [Cuts, lex_found hs hscan, hstart, hstop]

/-- `Lexes pos xs rest ts`: in front of `rest` and behind `pos` characters, the tokens `ts` take
up the text `xs`. -/
inductive Lexes : Nat → List Char → List Char → List Token → Prop
  /-- No tokens take up nothing. -/
  | nil (pos : Nat) (rest : List Char) : Lexes pos [] rest []
  /-- A token, with the blanks and comments in front of it. -/
  | cons {pos : Nat} {gap ws xs rest : List Char} {c : Char} {l : Lexeme} {ts : List Token}
      (hgap : Leads false gap c) (hscan : scan c (ws ++ (xs ++ rest)) = .found l (xs ++ rest))
      (h : Lexes (pos + (gap ++ c :: ws).length) xs rest ts) :
      Lexes pos (gap ++ c :: ws ++ xs) rest
        (⟨l, pos + gap.length, pos + (gap ++ c :: ws).length⟩ :: ts)

namespace Lexes

variable {pos : Nat} {xs ys rest : List Char} {t : Token} {ts us : List Token}

lemma cuts (h : Lexes pos xs rest ts) : Cuts xs rest pos ts := by
  induction h with
  | nil pos rest => exact .nil rest pos
  | cons hgap hscan _ ih => exact (cuts_leads hgap hscan _).append ih

/-- The last token ends where the start of the text ends. -/
lemma stop_eq (h : Lexes pos xs rest ts) (ht : ts.getLast? = some t) :
    t.stop = pos + xs.length := by
  induction h with
  | nil => cases ht
  | @cons pos gap ws xs rest c l ts hgap hscan h ih =>
    cases ts with
    | nil =>
      obtain rfl : _ = t := Option.some.inj ht
      cases h
      rw [List.append_nil, List.getLast_singleton]
    | cons u us => simp only [ih ht, List.length_append, Nat.add_assoc]

/-- Only blanks and comments stand in front of the first token. -/
lemma exists_gap (h : Lexes pos xs rest (t :: ts)) :
    ∃ gap ys, xs = gap ++ ys ∧ skip false gap = [] ∧ t.start = pos + gap.length ∧
      Lexes t.start ys rest (t :: ts) := by
  cases h with
  | @cons _ gap ws xs _ c l _ hgap hscan h =>
    obtain ⟨gap', he, -, hskip⟩ := skip_split (hgap [])
    have hplace : pos + (gap ++ c :: ws).length = pos + gap.length + ([] ++ c :: ws).length := by
      rw [List.length_append, List.nil_append, Nat.add_assoc]
    refine ⟨gap, [] ++ c :: ws ++ xs, by simp, List.append_cancel_right he ▸ hskip, rfl, ?_⟩
    rw [hplace] at h ⊢
    exact .cons hgap.nil hscan h

/-- What follows the tokens may be cut off, if the last of them may stand last. -/
theorem cut_off (h : Lexes pos xs (rest ++ ys) ts)
    (hlast : ∀ t, ts.getLast? = some t → t.lexeme.Ends) : Lexes pos xs rest ts := by
  generalize hall : rest ++ ys = all at h
  induction h with
  | nil => exact .nil _ _
  | @cons pos gap ws xs all c l ts hgap hscan h ih =>
    subst hall
    obtain ⟨ws', hws, hcut⟩ := scan_cut hscan
    rw [← List.append_cancel_right hws] at hcut
    refine .cons hgap (hcut (xs ++ rest) ys (List.append_assoc _ _ _).symm ?_) (ih ?_ rfl)
    · -- the token is the last one, or another one follows
      cases h with
      | nil => exact .inl (hlast _ rfl)
      | cons hgap' _ _ =>
        right
        rw [List.append_assoc, List.append_assoc, List.cons_append, hgap']
        nofun
    · intro t ht
      refine hlast t ?_
      cases ts with
      | nil => cases ht
      | cons u us => exact ht

end Lexes

/-- Tokens at the front of a text take up a start of it. -/
theorem exists_lexes {pos : Nat} {cs : List Char} {ts us : List Token}
    (h : (lex pos cs).tokens = ts ++ us) :
    ∃ xs rest, cs = xs ++ rest ∧ Lexes pos xs rest ts ∧
      (lex (pos + xs.length) rest).tokens = us := by
  induction ts generalizing pos cs with
  | nil => exact ⟨[], cs, rfl, .nil pos cs, h⟩
  | cons t ts ih =>
    cases hs : skip false cs with
    | nil =>
      rw [lex_nil hs] at h
      cases h
    | cons c ds =>
      cases hf : scan c ds with
      | stuck rest =>
        rw [lex_stuck hs hf] at h
        cases h
      | found l rest =>
        obtain ⟨gap, rfl, hgap, -⟩ := skip_split hs
        obtain ⟨ws, rfl, -⟩ := scan_cut hf
        have hcuts := (cuts_leads hgap hf pos).tokens_eq
        rw [List.append_assoc, List.cons_append, h] at hcuts
        obtain ⟨rfl, hts⟩ := List.cons.inj hcuts
        obtain ⟨xs, rest, rfl, hlexes, hus⟩ := ih hts.symm
        refine ⟨gap ++ c :: ws ++ xs, rest, by simp, .cons hgap hf hlexes, ?_⟩
        rw [← hus]
        simp only [List.length_append, Nat.add_assoc]

end Reader

end Listener
