/-
Texts that go on behind a line end.

* `skip_line`: what is skipped does not depend on what stands behind the next line end.
* `Apart`: a rest that goes on with no token in front of it; `scan_apart` says that a token does not
  depend on such a rest, with `characterBody?_apart` and `scanHash_apart` for parts of tokens.
* `Lexes.apart`: a start of a text is taken up by the same tokens when the text goes on apart from
  it; `Lexes.line` is the case of a line end.
* `items_run`: an item that is complete stays so, whatever tokens follow.
* `outline_line`: the items of a text are the first items of the longer text.
* `first_line`: the first form of a text is found at its places in the longer text.
* `readForm_append_line`: what stands behind the first form does not matter for it.
-/
import Listener.Proofs.Reader.Slices
import Mathlib

namespace Listener

namespace Reader

/-! ### Blanks, comments and words -/

/-- A line end ends a comment, so what follows it is skipped on its own. -/
theorem skip_line {inComment : Bool} {cs : List Char} (h : skip inComment cs = [])
    (ys : List Char) : skip inComment (cs ++ '\n' :: ys) = skip false ys := by
  induction cs generalizing inComment with
  | nil => cases inComment <;> rfl
  | cons c cs ih =>
    rw [skip] at h
    rw [List.cons_append, skip]
    split at h
    · rename_i hin
      rw [if_pos hin]
      exact ih h
    · rename_i hin
      rw [if_neg hin]
      split at h
      · rename_i hgap
        rw [if_pos hgap]
        exact ih h
      · rename_i hgap
        rw [if_neg hgap]
        split at h
        · rename_i hcomment
          rw [if_pos hcomment]
          exact ih h
        · cases h

/-- A rest that goes on neither with a word nor with the second half of a mark. -/
def Apart (rest : List Char) : Prop :=
  ∀ c, rest.head? = some c → isWord c = false ∧ c ≠ '@'

lemma apart_nil : Apart [] := nofun

/-- A character that is part of no token in front of it. -/
lemma apart_cons {c : Char} (hword : isWord c = false) (hat : c ≠ '@') (cs : List Char) :
    Apart (c :: cs) := by
  rintro _ ⟨⟩
  exact ⟨hword, hat⟩

lemma apart_gap {c : Char} (h : isGap c = true) (cs : List Char) : Apart (c :: cs) := by
  refine apart_cons (by simp [isWord, h]) ?_ cs
  rintro rfl
  cases h

lemma Apart.delimited {rest : List Char} (h : Apart rest) : Delimited rest :=
  fun c hc => (h c hc).1

lemma Delimited.append {xs ys : List Char} (h : Delimited xs) (h' : Delimited ys) :
    Delimited (xs ++ ys) := by
  cases xs with
  | nil => exact h'
  | cons c xs => exact delimited_cons (h c rfl)

lemma word_extend (cs : List Char) {ys : List Char} (h : Delimited ys) :
    word (cs ++ ys) = word cs ∧ afterWord (cs ++ ys) = afterWord cs ++ ys := by
  have hall : ∀ c ∈ word cs, isWord c = true := List.all_eq_true.mp List.all_takeWhile
  have hword := word_append hall ((delimited_afterWord cs).append h)
  rwa [← List.append_assoc, word_append_afterWord] at hword

/-- The characters of a class at the start do not depend on a rest that has none at its start. -/
lemma takeWhile_extend {p : Char → Bool} (xs : List Char) {ys : List Char}
    (h : ys.takeWhile p = []) : (xs ++ ys).takeWhile p = xs.takeWhile p := by
  rw [List.takeWhile_append]
  split
  · rename_i hall
    rw [h, List.append_nil, (List.takeWhile_prefix p).eq_of_length hall]
  · rfl

/-! ### Characters -/

/-- A code of hexadecimal digits does not go on into a rest that ends words. -/
lemma isHex_extend {xs ys : List Char} (hys : Delimited ys)
    (h : ((xs ++ ys).take 4).length = 4 ∧ ((xs ++ ys).take 4).all isHexDigit = true) :
    (xs.take 4).length = 4 ∧ (xs.take 4).all isHexDigit = true := by
  by_cases hlen : 4 ≤ xs.length
  · rwa [List.take_append_of_le_length hlen] at h
  · obtain ⟨hfour, hall⟩ := h
    -- otherwise the first character of the rest is one of the digits
    cases ys with
    | nil =>
      rw [List.append_nil, List.length_take] at hfour
      omega
    | cons d ds =>
      have hd : d ∈ (xs ++ d :: ds).take 4 := by
        obtain ⟨k, hk⟩ : ∃ k, 4 - xs.length = k + 1 := ⟨3 - xs.length, by omega⟩
        rw [List.take_append, hk, List.take_succ_cons]
        exact List.mem_append_right _ List.mem_cons_self
      have hword := isWord_of_isHexDigit (List.all_eq_true.mp hall d hd)
      cases hword.symm.trans (hys d rfl)

/-- The body of a character does not depend on a rest that ends words. -/
theorem characterBody?_apart {cs body rest : List Char}
    (h : characterBody? cs = some (body, rest)) {ys : List Char} (hys : Delimited ys) :
    characterBody? (cs ++ ys) = some (body, rest ++ ys) := by
  cases cs with
  | nil => cases h
  | cons c cs =>
    have hoctal : ((cs ++ ys).take 3).takeWhile isOctalDigit =
        (cs.take 3).takeWhile isOctalDigit := by
      rw [List.take_append]
      exact takeWhile_extend _
        (takeWhile_of_delimited (fun _ => isWord_of_isOctalDigit) (hys.take _))
    have hname : (c :: (cs ++ ys)).takeWhile Char.isAlpha = (c :: cs).takeWhile Char.isAlpha :=
      takeWhile_extend (c :: cs) (takeWhile_of_delimited (fun _ => isWord_of_isAlpha) hys)
    have hdrop {n : Nat} {xs : List Char} (hn : n ≤ xs.length) :
        (xs ++ ys).drop n = xs.drop n ++ ys := List.drop_append_of_le_length hn
    simp only [characterBody?, List.cons_append, List.drop_succ_cons, List.drop_zero, hoctal,
      hname] at h ⊢
    split at h
    · -- four hexadecimal digits
      rename_i hhex
      cases h
      have hfour : 4 ≤ cs.length := by
        have := hhex.2.1
        rw [List.length_take] at this
        omega
      rw [if_pos ⟨hhex.1, isHex_append hhex.2⟩, List.take_append_of_le_length hfour, hdrop hfour]
    rename_i hhex
    rw [if_neg fun hx => hhex ⟨hx.1, isHex_extend hys hx.2⟩]
    split at h
    · -- octal digits
      rename_i ho
      cases h
      have hlen : ((cs.take 3).takeWhile isOctalDigit).length ≤ cs.length :=
        Nat.le_trans (List.takeWhile_prefix _).length_le (List.length_take_le' 3 cs)
      rw [if_pos ho, hdrop hlen]
    rename_i ho
    rw [if_neg ho]
    split at h
    · -- a name
      rename_i hn
      cases h
      have hlen : ((c :: cs).takeWhile Char.isAlpha).length ≤ (c :: cs).length :=
        (List.takeWhile_prefix _).length_le
      rw [if_pos hn, ← List.cons_append, hdrop hlen]
    · -- one character
      rename_i hn
      cases h
      rw [if_neg hn]

/-! ### Tokens -/

/-- What is found after a hash sign does not depend on a rest that is apart. -/
theorem scanHash_apart {cs rest : List Char} {l : Lexeme} (h : scanHash cs = .found l rest)
    {ys : List Char} (hys : Apart ys) : scanHash (cs ++ ys) = .found l (rest ++ ys) := by
  have hend := hys.delimited
  simp only [scanHash] at h
  split at h
  · cases h
    rfl
  · cases h
    rfl
  · cases h
    rfl
  · cases h
    rfl
  · split at h
    · rename_i hq
      cases h
      obtain ⟨hraw, rfl⟩ := isQuotable_of_quoted? hq
      simp [scanHash, quoted?_append hraw]
    · cases h
  · cases h
    rfl
  · cases h
    rfl
  · cases h
    rfl
  · -- a conditional for several forms
    rename_i es
    split at h
    · rename_i hs
      cases h
      have hne : skip false es ≠ [] := hs ▸ List.cons_ne_nil _ _
      have hskip := skip_append hne ys
      simp [scanHash, hskip, hs]
    · cases h
  · -- a conditional
    rename_i es hnot
    split at h
    · rename_i hs
      cases h
      have hne : skip false es ≠ [] := hs ▸ List.cons_ne_nil _ _
      have hskip := skip_append hne ys
      have hone : ∀ ds, es ++ ys ≠ '@' :: ds := by
        cases es with
        | nil => exact absurd rfl hne
        | cons d es =>
          intro ds he
          exact hnot _ (by rw [(List.cons.inj he).1])
      simp [scanHash, hskip, hs]
    · cases h
  · -- a qualifier, with the opening of its map in sight
    rename_i es
    split at h
    · cases h
    rename_i hne
    split at h
    · rename_i hbrace
      cases h
      have hname : skip false es ≠ [] := fun hnil => hne (by rw [hnil]; rfl)
      -- the brace of the map is in the text already, so the rest is not looked at
      have hmap : skip false (afterWord (skip false es)) ≠ [] := hbrace ▸ List.cons_ne_nil _ _
      have hskip := skip_append hname ys
      have hopen := skip_append hmap ys
      obtain ⟨hword, hafter⟩ := word_extend (skip false es) hend
      simp only [List.cons_append, scanHash, hskip, hword, hafter, hopen, hbrace, if_neg hne]
    · cases h
  · -- a tag
    split at h
    · rename_i c ds hs
      split at h
      · rename_i hc
        cases h
        obtain ⟨gap, rfl, hleads, -⟩ := skip_split hs
        obtain ⟨hword, hafter⟩ := word_extend (c :: ds) hend
        obtain ⟨d, es, hd, hnot⟩ := head_of_leads hleads hc (ds ++ ys)
        rw [List.append_assoc, List.cons_append, hd, scanHash_of_not_mem hnot, ← hd, hleads]
        rw [List.cons_append] at hword hafter
        simp only [hc, if_true, hword, hafter]
      · cases h
    · cases h

/-- The token at the start of a text does not depend on a rest that is apart. -/
theorem scan_apart {c : Char} {cs rest : List Char} {l : Lexeme} (h : scan c cs = .found l rest)
    {ys : List Char} (hys : Apart ys) : scan c (cs ++ ys) = .found l (rest ++ ys) := by
  simp only [scan] at h ⊢
  split at h
  · cases h
    rfl
  split at h
  · rename_i hc
    rw [if_pos hc]
    split at h
    · cases h
      rfl
    · rename_i hnot
      cases h
      split
      · rename_i ds he
        cases cs with
        | nil => exact absurd rfl (hys '@' (congrArg List.head? he)).2
        | cons d cs => exact absurd (by rw [(List.cons.inj he).1]) (hnot cs)
      · rfl
  rename_i htilde
  rw [if_neg htilde]
  split at h
  · rename_i hc
    rw [if_pos hc]
    split at h
    · rename_i hq
      cases h
      obtain ⟨hraw, rfl⟩ := isQuotable_of_quoted? hq
      simp [quoted?_append hraw]
    · cases h
  rename_i hquote
  rw [if_neg hquote]
  split at h
  · rename_i hc
    rw [if_pos hc]
    split at h
    · rename_i hb
      cases h
      rw [characterBody?_apart hb hys.delimited]
    · cases h
  rename_i hslash
  rw [if_neg hslash]
  split at h
  · rename_i hc
    rw [if_pos hc]
    exact scanHash_apart h hys
  rename_i hhash
  rw [if_neg hhash]
  split at h
  · rename_i ha
    cases h
    obtain ⟨hword, hafter⟩ := word_extend (c :: cs) hys.delimited
    rw [List.cons_append] at hword hafter
    simp only [hword, hafter, ha]
  · cases h

/-- A start of a text is taken up by the same tokens when the text goes on apart from it. -/
theorem Lexes.apart {pos : Nat} {xs rest : List Char} {ts : List Token} (h : Lexes pos xs rest ts)
    {ys : List Char} (hys : Apart ys) : Lexes pos xs (rest ++ ys) ts := by
  induction h with
  | nil pos rest => exact .nil _ _
  | cons hgap hscan _ ih =>
    have hscan := scan_apart hscan hys
    rw [List.append_assoc, List.append_assoc] at hscan
    exact .cons hgap hscan ih

/-- A start of a text is taken up by the same tokens when the text goes on in another line. -/
theorem Lexes.line {pos : Nat} {xs rest : List Char} {ts : List Token} (h : Lexes pos xs rest ts)
    (ys : List Char) : Lexes pos xs (rest ++ '\n' :: ys) ts :=
  h.apart (apart_gap rfl ys)

/-! ### Items -/

namespace State

/-- Where a form is placed, the items that are complete stay. -/
lemma items_place (n : Node) (stop : Nat) (frames : List Frame) (items : List Item) :
    items <+: (place n stop frames items).items := by
  fun_induction place n stop frames items with
  | case1 => exact List.prefix_append _ _
  | case2 => exact List.prefix_rfl
  | case3 _ _ _ _ _ ih => exact ih
  | case4 => exact List.prefix_rfl
  | case5 _ _ _ _ _ ih => exact ih
  | case6 _ frames items =>
    cases frames with
    | nil => exact List.prefix_append _ _
    | cons f frames => exact List.prefix_rfl

/-- A token opens a frame or completes a form. -/
lemma push_cases {st st' : State} {t : Token} (h : st.push t = some st') :
    (∃ f, st' = ⟨f :: st.frames, st.items⟩) ∨
      ∃ n frames, st' = place n t.stop frames st.items := by
  rw [push] at h
  split at h
  · exact .inl ⟨_, (Option.some.inj h).symm⟩
  · exact .inl ⟨_, (Option.some.inj h).symm⟩
  · exact .inl ⟨_, (Option.some.inj h).symm⟩
  · exact .inl ⟨_, (Option.some.inj h).symm⟩
  · exact .inr ⟨_, _, (Option.some.inj h).symm⟩
  · split at h
    · split at h
      · exact .inr ⟨_, _, (Option.some.inj h).symm⟩
      · cases h
    · cases h

lemma items_push {st st' : State} {t : Token} (h : st.push t = some st') :
    st.items <+: st'.items := by
  obtain ⟨f, rfl⟩ | ⟨n, frames, rfl⟩ := push_cases h
  · exact List.prefix_rfl
  · exact items_place n t.stop frames st.items

/-- Whatever tokens follow, the items that are complete stay. -/
theorem items_run (st : State) (ts : List Token) : st.items <+: (st.run ts).1.items := by
  induction ts generalizing st with
  | nil => exact List.prefix_rfl
  | cons t ts ih =>
    rw [run]
    split
    · rename_i st' hpush
      exact (items_push hpush).trans (ih st')
    · exact List.prefix_rfl

end State

/-- The items of a text are the first items of the text that goes on behind a line end. -/
theorem outline_line (cs ys : List Char) :
    (outline cs).items <+: (outline (cs ++ '\n' :: ys)).items := by
  obtain ⟨us, hreads⟩ := outline_reads cs
  obtain ⟨ts, htokens, hspans⟩ := reads_spans hreads
  obtain ⟨xs, rest, rfl, hlexes, -⟩ := exists_lexes htokens
  have hlonger := (hlexes.line ys).cuts.tokens_eq
  rw [← List.append_assoc] at hlonger
  rw [outline_items (_ ++ '\n' :: ys), hlonger, run_of_reads (hspans.reads _), State.start,
    State.addAll_outside, List.nil_append]
  exact State.items_run ⟨[], _⟩ _

/-! ### The first form -/

/-- The first form of items is found whatever items follow. -/
lemma firstForm_append {items : List Item} {found : Form × Nat × Nat}
    (h : firstForm items = .ok (some found)) (more : List Item) :
    firstForm (items ++ more) = .ok (some found) := by
  induction items with
  | nil => cases h
  | cons i items ih =>
    cases i with
    | discarded => exact ih h
    | datum n stop =>
      rw [firstForm] at h
      obtain ⟨fs, hfs, h⟩ := bind_eq_ok h
      rw [List.cons_append, firstForm, hfs]
      cases fs with
      | nil => exact ih h
      | cons f fs => exact h

/-- A text that does not look empty does not when it goes on. -/
lemma isBlank_append {white : Char → Bool} {inComment : Bool} {cs : List Char}
    (h : isBlank white inComment cs = false) (ys : List Char) :
    isBlank white inComment (cs ++ ys) = false := by
  fun_induction isBlank white inComment cs with
  | case1 => cases h
  | case2 c cs ih => rw [List.cons_append, isBlank, if_pos rfl, ih h]
  | case3 inComment c cs hin hmargin ih =>
    rw [List.cons_append, isBlank, if_neg hin, if_pos hmargin, ih h]
  | case4 inComment c cs hin hmargin hcomment ih =>
    rw [List.cons_append, isBlank, if_neg hin, if_neg hmargin, if_pos hcomment, ih h]
  | case5 inComment c cs hin hmargin hcomment =>
    rw [List.cons_append, isBlank, if_neg hin, if_neg hmargin, if_neg hcomment]

/-- What is found at the start of a text is found there when the text goes on behind a line
end. -/
theorem first_line {cs : List Char} {found : Form × Nat × Nat} (h : first cs = .ok found)
    (ys : List Char) : first (cs ++ '\n' :: ys) = .ok found := by
  obtain ⟨f, start, stop⟩ := found
  obtain ⟨hblank, hfirst⟩ := first_eq_ok h
  obtain ⟨more, hmore⟩ := outline_line cs ys
  refine first_of_firstForm (isBlank_append hblank _) ?_
  rw [← hmore]
  exact firstForm_append hfirst more

end Reader

open Reader

/-- What stands behind the first form does not matter, readable or not: when more text follows
behind a line end, the form is the same and so is its text. -/
theorem readForm_append_line {t s : String} {f : Form} (hform : readForm t = .ok f)
    (htext : readText t = .ok s) (u : String) :
    readForm (t ++ "\n" ++ u) = .ok f ∧ readText (t ++ "\n" ++ u) = .ok s := by
  obtain ⟨start, stop, hfirst⟩ := readForm_eq_ok.mp hform
  have hlonger : (t ++ "\n" ++ u).toList = t.toList ++ '\n' :: u.toList := by simp
  have hfirst' := first_line hfirst u.toList
  rw [← hlonger] at hfirst'
  refine ⟨readForm_eq_ok.mpr ⟨start, stop, hfirst'⟩, ?_⟩
  obtain ⟨ps, r, rs, hparts, -, hstop, -⟩ := first_parts hfirst
  have hslice : (t ++ "\n" ++ u).toList.take stop = t.toList.take stop := by
    rw [hlonger]
    refine List.take_append_of_le_length ?_
    have hlen : t.toList.length = (ps ++ r).length + rs.length := by
      rw [hparts, List.length_append]
    omega
  rw [readText, hfirst] at htext
  rw [readText, hfirst', ← htext]
  simp only [Except.map, Except.mapError, hslice]

/-- A form between one that is left out and a list that only the next line closes. -/
theorem readForm_before_open_list :
    readForm "#_x 'y (" = .ok (.quote (.ofName "y")) ∧ readText "#_x 'y (" = .ok "'y" ∧
      readForm ("#_x 'y (" ++ "\n" ++ "1) )") = .ok (.quote (.ofName "y")) ∧
      readText ("#_x 'y (" ++ "\n" ++ "1) )") = .ok "'y" := by
  have hform : readForm "#_x 'y (" = .ok (.quote (.ofName "y")) := by cbv
  have htext : readText "#_x 'y (" = .ok "'y" := by cbv
  exact ⟨hform, htext, readForm_append_line hform htext "1) )"⟩

end Listener
