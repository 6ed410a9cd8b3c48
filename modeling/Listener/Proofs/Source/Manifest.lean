/-
Manifests are read as they are written.

* `findAll_found`, `findAll_skip`: a search from left to right goes on behind what it finds, and
  passes over a text where nothing is found.
* `ListsNames`, `SpellsEntry`, `Writes`: how names are listed between brackets, how an entry is
  spelled, and how entries are written with any other text around them.
* `findAll_names`, `readEntry_spells`: the names of a list are found, and an entry is read.
* `entries_of_writes`: the entries that are found are those that were written.
* `manifestPairs_of_writes`: the pairs of a manifest are those of its entries, in order.
-/
import Listener.Source.Manifest
import Mathlib.Data.List.Infix
import Mathlib.Tactic.Lemma

namespace Listener

namespace Source

/-! ### Searches from left to right -/

section

variable {α : Type} {find? : List Char → Option (α × List Char)}
  {shrinks : ∀ cs a rest, find? cs = some (a, rest) → rest.length < cs.length}

/-- What is found comes first, and the search goes on behind it. -/
theorem findAll_found {cs rest : List Char} {a : α} (h : find? cs = some (a, rest)) :
    findAll find? shrinks cs = a :: findAll find? shrinks rest := by
  cases cs with
  | nil => exact absurd (shrinks _ _ _ h) (Nat.not_lt_zero _)
  | cons c cs =>
    rw [findAll]
    split
    · rename_i h'
      cases h.symm.trans h'
      rfl
    · rename_i h'
      cases h.symm.trans h'

/-- Where nothing is found at any place of a text, the search goes on behind the text. -/
theorem findAll_skip {skipped rest : List Char}
    (h : ∀ s, s ≠ [] → s <:+ skipped → find? (s ++ rest) = none) :
    findAll find? shrinks (skipped ++ rest) = findAll find? shrinks rest := by
  induction skipped with
  | nil => rfl
  | cons c cs ih =>
    have hhere : find? (c :: (cs ++ rest)) = none :=
      h (c :: cs) (List.cons_ne_nil c cs) List.suffix_rfl
    rw [List.cons_append, findAll]
    split
    · rename_i h'
      cases hhere.symm.trans h'
    · exact ih fun s hs hsuffix => h s hs (hsuffix.trans (List.suffix_cons c cs))

/-- Where nothing is found at any place of the whole text, nothing is found. -/
lemma findAll_eq_nil {cs : List Char} (h : ∀ s, s ≠ [] → s <:+ cs → find? s = none) :
    findAll find? shrinks cs = [] := by
  have hskip : findAll find? shrinks (cs ++ []) = findAll find? shrinks [] :=
    findAll_skip fun s hs hsuffix => by rw [List.append_nil, h s hs hsuffix]
  rw [List.append_nil] at hskip
  rw [hskip, findAll]

end

/-! ### Parts of a text -/

/-- A class of characters ends where the first other character stands. -/
lemma span_stop {p : Char → Bool} {xs : List Char} (hxs : ∀ c ∈ xs, p c = true) {c : Char}
    (hc : p c = false) (rest : List Char) :
    (xs ++ c :: rest).takeWhile p = xs ∧ (xs ++ c :: rest).dropWhile p = c :: rest := by
  have hneg : ¬ p c = true := by rw [hc]; exact Bool.false_ne_true
  rw [List.takeWhile_append_of_pos hxs, List.dropWhile_append_of_pos hxs,
    List.takeWhile_cons_of_neg hneg, List.dropWhile_cons_of_neg hneg]
  exact ⟨List.append_nil xs, rfl⟩

lemma afterStart?_append (ps rest : List Char) : afterStart? ps (ps ++ rest) = some rest := by
  induction ps with
  | nil => rfl
  | cons p ps ih => rw [List.cons_append, afterStart?, if_pos rfl, ih]

lemma eq_append_of_afterStart? {ps cs rest : List Char} (h : afterStart? ps cs = some rest) :
    cs = ps ++ rest := by
  induction ps generalizing cs with
  | nil =>
    cases h
    rfl
  | cons p ps ih =>
    cases cs with
    | nil => cases h
    | cons c cs =>
      rw [afterStart?] at h
      split at h
      · rename_i hp
        rw [ih h, hp, List.cons_append]
      · cases h

/-! ### Names in a list -/

def quoted (q : Char) (body : List Char) : List Char :=
  q :: (body ++ [q])

/-- A text that can stand between quotes: it is not empty and has no quotes. -/
def Quotable (body : List Char) : Prop :=
  body ≠ [] ∧ ∀ c ∈ body, isQuote c = false

def Blank (cs : List Char) : Prop :=
  ∀ c ∈ cs, Text.isWhite c = true

/-- Nothing but commas and white space. -/
def Separates (cs : List Char) : Prop :=
  ∀ c ∈ cs, c = ',' ∨ Text.isWhite c = true

-- the instances go through the texts themselves, not through all characters there are

instance (body : List Char) : Decidable (Quotable body) :=
  @instDecidableAnd _ _ inferInstance (List.decidableBAll _ body)

instance (cs : List Char) : Decidable (Blank cs) :=
  List.decidableBAll _ cs

instance (cs : List Char) : Decidable (Separates cs) :=
  List.decidableBAll _ cs

/-- How names are listed between brackets: each of them quoted, with commas and white space
around them. -/
inductive ListsNames : List (List Char) → List Char → Prop
  | nil {gap : List Char} (hgap : Separates gap) : ListsNames [] gap
  | cons {gap name rest : List Char} {names : List (List Char)} {q : Char}
      (hgap : Separates gap) (hq : isQuote q = true) (hname : Quotable name)
      (hclosing : ']' ∉ name) (hrest : ListsNames names rest) :
      ListsNames (name :: names) (gap ++ (quoted q name ++ rest))

lemma isQuote_iff {c : Char} : isQuote c = true ↔ c = '\'' ∨ c = '"' := by
  simp [isQuote]

lemma isWhite_of_isQuote {q : Char} (hq : isQuote q = true) : Text.isWhite q = false := by
  rcases isQuote_iff.mp hq with rfl | rfl <;> decide

lemma isQuote_of_separates {gap : List Char} (hgap : Separates gap) {c : Char} (hc : c ∈ gap) :
    isQuote c = false := by
  cases hquote : isQuote c with
  | false => rfl
  | true =>
    rcases hgap c hc with rfl | hwhite
    · cases hquote
    · cases (isWhite_of_isQuote hquote).symm.trans hwhite

lemma quotedText?_of_not_isQuote {c : Char} (hc : isQuote c = false) (cs : List Char) :
    quotedText? (c :: cs) = none := by
  simp only [quotedText?, hc, Bool.false_and]
  split <;> rfl

lemma quotedText?_quoted {q : Char} (hq : isQuote q = true) {body : List Char}
    (hbody : Quotable body) (rest : List Char) :
    quotedText? (quoted q body ++ rest) = some (body, rest) := by
  have hplain : ∀ c ∈ body, (!isQuote c) = true := by
    intro c hc
    rw [hbody.2 c hc]
    rfl
  have hstop : (!isQuote q) = false := by
    rw [hq]
    rfl
  obtain ⟨htake, hdrop⟩ := span_stop hplain hstop rest
  have hnonempty : (!body.isEmpty) = true := by simpa using hbody.1
  rw [quoted, List.cons_append, List.append_assoc, List.singleton_append]
  simp only [quotedText?, htake, hdrop, hq, hnonempty, Bool.and_self, if_true]

/-- The names of a list are found, in order. -/
theorem findAll_names {names : List (List Char)} {list : List Char} (h : ListsNames names list) :
    findAll quotedText? quotedText?_shrinks list = names := by
  have hskip {gap : List Char} (hgap : Separates gap) (rest : List Char) :
      ∀ s, s ≠ [] → s <:+ gap → quotedText? (s ++ rest) = none := by
    intro s hs hsuffix
    cases s with
    | nil => exact absurd rfl hs
    | cons c s =>
      have hc : c ∈ gap := hsuffix.subset List.mem_cons_self
      exact quotedText?_of_not_isQuote (isQuote_of_separates hgap hc) _
  induction h with
  | nil hgap =>
    refine findAll_eq_nil fun s hs hsuffix => ?_
    rw [← List.append_nil s]
    exact hskip hgap [] s hs hsuffix
  | cons hgap hq hname _ _ ih =>
    rw [findAll_skip (hskip hgap _), findAll_found (quotedText?_quoted hq hname _), ih]

lemma closing_not_mem {names : List (List Char)} {list : List Char}
    (h : ListsNames names list) : ']' ∉ list := by
  have hseparates {gap : List Char} (hgap : Separates gap) : ']' ∉ gap := by
    intro hmem
    rcases hgap _ hmem with hcomma | hwhite
    · exact absurd hcomma (by decide)
    · exact absurd hwhite (by decide)
  induction h with
  | nil hgap => exact hseparates hgap
  | @cons gap name rest names q hgap hq _ hclosing _ ih =>
    have hne : ']' ≠ q := by
      rintro rfl
      cases hq
    simp [quoted, hseparates hgap, hne, hclosing, ih]

/-! ### Entries -/

/-- How an entry is spelled, up to the bracket that closes its list: the start of an entry, the
quoted path, a comma and the list, with white space between them. -/
inductive SpellsEntry (path : List Char) (names : List (List Char)) : List Char → Prop
  | intro {before behind beyond list : List Char} {q : Char} (hbefore : Blank before)
      (hbehind : Blank behind) (hbeyond : Blank beyond) (hq : isQuote q = true)
      (hpath : Quotable path) (hlist : ListsNames names list) :
      SpellsEntry path names
        (entryStart ++ (before ++ (quoted q path ++ (behind ++ ',' :: (beyond ++ '[' ::
          (list ++ [']']))))))

/-- White space is skipped up to the first other character. -/
lemma skipWhite_append {blank : List Char} (hblank : Blank blank) {c : Char}
    (hc : Text.isWhite c = false) (rest : List Char) :
    skipWhite (blank ++ c :: rest) = c :: rest :=
  (span_stop hblank hc rest).2

/-- An entry that is spelled at the start of a text is read there. -/
theorem readEntry_spells {path : List Char} {names : List (List Char)} {text : List Char}
    (h : SpellsEntry path names text) (rest : List Char) :
    ∃ list, ListsNames names list ∧ readEntry (text ++ rest) = some (⟨path, list⟩, rest) := by
  obtain @⟨before, behind, beyond, list, q, hbefore, hbehind, hbeyond, hq, hpath, hlist⟩ := h
  refine ⟨list, hlist, ?_⟩
  have hpart (cs : List Char) : skipWhite (before ++ (quoted q path ++ cs)) = quoted q path ++ cs :=
    skipWhite_append hbefore (isWhite_of_isQuote hq) _
  have hcomma (cs : List Char) : skipWhite (behind ++ ',' :: cs) = ',' :: cs :=
    skipWhite_append hbehind (by decide) cs
  have hopening (cs : List Char) : skipWhite (beyond ++ '[' :: cs) = '[' :: cs :=
    skipWhite_append hbeyond (by decide) cs
  have hinside : ∀ c ∈ list, (c != ']') = true := by
    intro c hc
    refine bne_iff_ne.mpr ?_
    rintro rfl
    exact closing_not_mem hlist hc
  obtain ⟨htake, hdrop⟩ := span_stop hinside (c := ']') (by decide) rest
  have hone (c : Char) (cs : List Char) : afterStart? [c] (c :: cs) = some cs :=
    afterStart?_append [c] cs
  simp only [List.append_assoc, List.cons_append, List.nil_append, readEntry,
    afterStart?_append entryStart, hpart, quotedText?_quoted hq hpath, hcomma, hopening, hone,
    htake, hdrop]

/-- The entries are written in order, each of them spelled somewhere behind the one before. What
stands around them may be any text where no entry starts. -/
inductive Writes : List (List Char × List (List Char)) → List Char → Prop
  | nil {filler : List Char} (hfiller : ¬ entryStart <:+: filler) : Writes [] filler
  | cons {filler path text rest : List Char} {names : List (List Char)}
      {written : List (List Char × List (List Char))} (hfiller : ¬ entryStart <:+: filler)
      (htext : SpellsEntry path names text) (hrest : Writes written rest) :
      Writes ((path, names) :: written) (filler ++ (text ++ rest))

lemma readEntry_of_not_prefix {cs : List Char} (h : ¬ entryStart <+: cs) :
    readEntry cs = none := by
  cases hstart : afterStart? entryStart cs with
  | none => simp only [readEntry, hstart]
  | some rest => exact absurd ⟨rest, (eq_append_of_afterStart? hstart).symm⟩ h

/-- No end of the start of an entry is itself how one starts. -/
lemma entryStart_unbordered :
    ∀ n < entryStart.length, 0 < n → ¬ entryStart.drop n <+: entryStart := by
  decide

/-- A text where no entry starts has no place where one starts that ends in the next entry. -/
lemma not_prefix_of_filler {filler : List Char} (hfiller : ¬ entryStart <:+: filler)
    {s : List Char} (hs : s ≠ []) (hsuffix : s <:+ filler) (rest : List Char) :
    ¬ entryStart <+: s ++ (entryStart ++ rest) := by
  intro hstarts
  rcases Nat.lt_or_ge s.length entryStart.length with hshort | hlong
  · -- what is missing of the start behind `s` would stand at the start of the next entry
    obtain ⟨missing, hmissing⟩ : s <+: entryStart :=
      List.prefix_of_prefix_length_le (List.prefix_append s _) hstarts (Nat.le_of_lt hshort)
    have hdrop : missing = entryStart.drop s.length := by
      rw [← hmissing, List.drop_left]
    have hlength : missing.length ≤ entryStart.length := by
      rw [← hmissing, List.length_append]
      exact Nat.le_add_left _ _
    have hnext : missing <+: entryStart ++ rest := by
      have hboth : s ++ missing <+: s ++ (entryStart ++ rest) := hmissing.symm ▸ hstarts
      exact (List.prefix_append_right_inj s).mp hboth
    have hborder : missing <+: entryStart :=
      List.prefix_of_prefix_length_le hnext (List.prefix_append entryStart rest) hlength
    rw [hdrop] at hborder
    exact entryStart_unbordered s.length hshort (List.length_pos_iff.mpr hs) hborder
  · have hinside : entryStart <+: s :=
      List.prefix_of_prefix_length_le hstarts (List.prefix_append s _) hlong
    exact hfiller (hinside.isInfix.trans hsuffix.isInfix)

lemma spells_append {path : List Char} {names : List (List Char)} {text : List Char}
    (h : SpellsEntry path names text) : ∃ rest, text = entryStart ++ rest := by
  cases h
  exact ⟨_, rfl⟩

/-- The entries that are found are those that were written, in order, with their names. -/
theorem entries_of_writes {written : List (List Char × List (List Char))} {text : List Char}
    (h : Writes written text) : (entries text).map (fun e => (e.path, e.names)) = written := by
  induction h with
  | nil hfiller =>
    have hnone : entries _ = [] := findAll_eq_nil fun s _ hsuffix =>
      readEntry_of_not_prefix fun hstarts => hfiller (hstarts.isInfix.trans hsuffix.isInfix)
    rw [hnone, List.map_nil]
  | @cons filler path text rest names written hfiller htext _ ih =>
    obtain ⟨list, hlist, hread⟩ := readEntry_spells htext rest
    obtain ⟨behind, rfl⟩ := spells_append htext
    have hskip : entries (filler ++ (entryStart ++ behind ++ rest)) =
        entries (entryStart ++ behind ++ rest) := by
      refine findAll_skip fun s hs hsuffix => readEntry_of_not_prefix ?_
      rw [List.append_assoc]
      exact not_prefix_of_filler hfiller hs hsuffix _
    have hfound : entries (entryStart ++ behind ++ rest) = ⟨path, list⟩ :: entries rest :=
      findAll_found hread
    have hnames : Entry.names ⟨path, list⟩ = names := findAll_names hlist
    rw [hskip, hfound, List.map_cons, hnames, ih]

/-! ### Pairs -/

/-- A path without the steps to the same directory at its start. -/
def WithoutSteps (path file : List Char) : Prop :=
  (∃ n, path = (List.replicate n ['.', '/']).flatten ++ file) ∧ ¬ ['.', '/'] <+: file

/-- All steps to the same directory are cut off the start of a path, and nothing else. -/
lemma withoutSteps_trimHere (path : List Char) : WithoutSteps path (trimHere path) := by
  induction path using trimHere.induct with
  | case1 cs ih =>
    obtain ⟨⟨n, hn⟩, hfile⟩ := ih
    refine ⟨⟨n + 1, ?_⟩, hfile⟩
    rw [trimHere, List.replicate_succ, List.flatten_cons, List.append_assoc, ← hn]
    rfl
  | case2 cs hcs =>
    have hsame : trimHere cs = cs := by
      rw [trimHere.eq_def]
      split
      · exact absurd rfl (hcs _)
      · rfl
    rw [hsame]
    refine ⟨⟨0, rfl⟩, ?_⟩
    rintro ⟨rest, rfl⟩
    exact hcs rest rfl

/-- The pairs of a manifest are those of its entries: entry by entry and name by name in the order
in which they are written, each name with the path of its entry in the directory of the library,
without the steps to the same directory at the start of the path. -/
theorem manifestPairs_of_writes {written : List (List Char × List (List Char))}
    {text : List Char} (h : Writes written text) :
    manifestPairs (String.ofList text) =
        written.flatMap (fun entry => entry.2.map fun name =>
          (⟨String.ofList name⟩, joinPath "goog" (String.ofList (trimHere entry.1)))) ∧
      ∀ path, WithoutSteps path (trimHere path) := by
  refine ⟨?_, withoutSteps_trimHere⟩
  calc manifestPairs (String.ofList text)
      = (entries text).flatMap fun e => e.names.map fun name =>
          (⟨String.ofList name⟩, e.fullPath) := by rw [manifestPairs, String.toList_ofList]
    _ = ((entries text).map fun e => (e.path, e.names)).flatMap fun entry =>
          entry.2.map fun name =>
            (⟨String.ofList name⟩, joinPath "goog" (String.ofList (trimHere entry.1))) := by
        rw [List.flatMap_map]
        rfl
    _ = _ := by rw [entries_of_writes h]

/-- The pair of a manifest with one entry, which has one name. -/
lemma manifestPairs_singleton {text : String} {path list name : List Char}
    (hread : readEntry text.toList = some (⟨path, list⟩, [')']))
    (hname : quotedText? list = some (name, [])) :
    manifestPairs text = [(⟨String.ofList name⟩, Entry.fullPath ⟨path, list⟩)] := by
  have hbehind : findAll readEntry readEntry_shrinks [')'] = [] := by
    refine findAll_eq_nil fun s hs hsuffix => ?_
    rcases List.suffix_cons_iff.mp hsuffix with rfl | hnil
    · rfl
    · exact absurd (List.suffix_nil.mp hnil) hs
  have hnames : Entry.names ⟨path, list⟩ = [name] := by
    rw [Entry.names, findAll_found hname, findAll]
  rw [manifestPairs, entries, findAll_found hread, hbehind, List.flatMap_singleton, hnames]
  rfl

/-- Two entries with different quotes between other texts, one of which looks like the start of an
entry that is not finished. -/
theorem manifestPairs_twoEntries :
    ∃ text, Writes
        [("././uri/uri.js".toList, ["goog.Uri".toList, "a b".toList]), ("b.js".toList, [])] text ∧
      String.ofList text = "goog.addDependency( '././uri/uri.js' ,\n[ 'goog.Uri',\"a b\",], ['x']);" ++
        "goog.goog.addDependency(\"b.js\",[]);" ∧
      manifestPairs (String.ofList text) =
        [(⟨"goog.Uri"⟩, "goog/uri/uri.js"), (⟨"a b"⟩, "goog/uri/uri.js")] := by
  have hnames : ListsNames ["goog.Uri".toList, "a b".toList] _ :=
    .cons (show Separates [' '] by decide) (show isQuote '\'' = true by decide) (by decide)
      (by decide)
      (.cons (show Separates [','] by decide) (show isQuote '"' = true by decide) (by decide)
        (by decide) (.nil (show Separates [','] by decide)))
  have hfirst : SpellsEntry "././uri/uri.js".toList ["goog.Uri".toList, "a b".toList] _ :=
    .intro (show Blank [' '] by decide) (show Blank [' '] by decide) (show Blank ['\n'] by decide)
      (show isQuote '\'' = true by decide) (by decide) hnames
  have hsecond : SpellsEntry "b.js".toList [] _ :=
    .intro (show Blank [] by decide) (show Blank [] by decide) (show Blank [] by decide)
      (show isQuote '"' = true by decide) (by decide) (.nil (show Separates [] by decide))
  have hwrites : Writes _ _ :=
    .cons (show ¬ entryStart <:+: [] by decide) hfirst
      (.cons (show ¬ entryStart <:+: ", ['x']);goog.".toList by decide) hsecond
        (.nil (show ¬ entryStart <:+: ");".toList by decide)))
  refine ⟨_, hwrites, rfl, ?_⟩
  rw [(manifestPairs_of_writes hwrites).1]
  rfl

end Source

end Listener
