/-
Which of the forms that are read survive a print and a second reading.

* `Lexeme.Begins`, `startsForm`: the text of a form starts with a token that
  begins a form, even where keys within it are not readable.
* `Faithful`: where the text of a form is read as the form, the form is well-formed;
  `faithful` says that this holds of all forms that are well-formed up to the keys that a
  qualifier has made.
* `isBlank_chars`: the only texts of forms that look empty are those of symbols that
  consist of white space.
* `readForm_print_iff`: the condition for the second reading to give the same form.
-/
import Listener.Proofs.Reader.Origin
import Listener.Proofs.Reader.RoundTrip

namespace Listener

namespace Reader

/-! ### Tokens that begin a form -/

/-- A token that begins a form and not a conditional. -/
def Lexeme.Begins : Lexeme → Prop
  | .opener .choice | .opener .splice | .closer _ | .discard => False
  | _ => True

/-- An item that is a form and not a conditional. -/
def Node.IsPlain : Node → Prop
  | .bracket _ .choice _ | .bracket _ .splice _ => False
  | _ => True

/-- What such a token begins is no conditional, and is not left out. -/
lemma reads_begins {t : Token} {ts us : List Token} {i : Item} {items : List Item}
    (ht : t.lexeme.Begins) (h : Reads (t :: ts) (i :: items) us) :
    ∃ n stop, i = .datum n stop ∧ n.IsPlain := by
  cases h with
  | atom _ _ => exact ⟨_, _, rfl, trivial⟩
  | @bracket _ _ b _ _ _ _ _ hb _ _ _ =>
    refine ⟨_, _, rfl, ?_⟩
    rw [hb] at ht
    cases b <;> trivial
  | sigil _ _ _ => exact ⟨_, _, rfl, trivial⟩
  | annotated _ _ _ _ => exact ⟨_, _, rfl, trivial⟩
  | discard hd _ _ =>
    rw [hd] at ht
    exact ht.elim

/-- The lone form that such a token begins stands first. -/
lemma lone_begins {t : Token} {ts us : List Token} {k : ℕ} {n : Node} {stop : ℕ}
    (ht : t.lexeme.Begins) (h : Reads (t :: ts) (lone k n stop) us) : k = 0 ∧ n.IsPlain := by
  cases k with
  | zero =>
    obtain ⟨m, stop', he, hm⟩ := reads_begins ht h
    cases he
    exact ⟨rfl, hm⟩
  | succ k =>
    obtain ⟨m, stop', he, -⟩ := reads_begins ht h
    cases he

/-- An item that is no conditional has a form to offer. -/
lemma yield_isForm {n : Node} (hn : n.IsPlain) {y : Yield} (h : n.yield = .ok y) :
    ∃ f, y = .form f := by
  cases n with
  | atom start a =>
    obtain ⟨f, -, rfl⟩ := map_eq_ok h
    exact ⟨f, rfl⟩
  | bracket start b items =>
    rw [Node.yield] at h
    obtain ⟨fs, -, h⟩ := bind_eq_ok h
    cases b with
    | map =>
      simp only [Bracket.yield] at h
      split at h <;> cases h
      exact ⟨_, rfl⟩
    | choice => exact hn.elim
    | splice => exact hn.elim
    | _ => exact ⟨_, (Except.ok.inj h).symm⟩
  | sigil start s inner =>
    rw [Node.yield] at h
    obtain ⟨f, -, rfl⟩ := map_eq_ok h
    exact ⟨_, rfl⟩
  | annotated start m target =>
    rw [Node.yield] at h
    obtain ⟨f, -, h⟩ := bind_eq_ok h
    obtain ⟨g, -, rfl⟩ := map_eq_ok h
    exact ⟨_, rfl⟩

/-- The one form of an item that is no conditional is what it has to offer. -/
lemma yield_of_single {n : Node} (hn : n.IsPlain) {f : Form} (h : n.single n.yield = .ok f) :
    n.yield = .ok (.form f) := by
  rw [Node.single] at h
  split at h
  · cases h
  · obtain ⟨y, hy, hf⟩ := bind_eq_ok h
    obtain ⟨g, rfl⟩ := yield_isForm hn hy
    rw [hy, Except.ok.inj hf]

/-- The first of the forms that items contribute is that of the first item, if this is no
conditional. -/
lemma forms_cons_inv {n : Node} (hn : n.IsPlain) {ns : List Node} {fs : List Form}
    (h : Node.forms (n :: ns) = .ok fs) :
    ∃ f gs, fs = f :: gs ∧ n.yield = .ok (.form f) ∧ Node.forms ns = .ok gs := by
  rw [Node.forms] at h
  obtain ⟨hs, hhs, h⟩ := bind_eq_ok h
  obtain ⟨gs, hgs, rfl⟩ := map_eq_ok h
  obtain ⟨y, hy, hhs⟩ := bind_eq_ok hhs
  obtain ⟨f, rfl⟩ := yield_isForm hn hy
  cases hhs
  exact ⟨f, gs, rfl, hy, hgs⟩

/-! ### How texts of forms begin -/

/-- In front of a rest that ends words, the first token of the text begins a form. -/
def StartsForm (f : Form) : Prop :=
  ∀ rest, Delimited rest → ∀ pos, ∃ t ts,
    (lex pos (f.chars ++ rest)).tokens = t :: ts ∧ t.lexeme.Begins

lemma IsLiteral.startsForm {f : Form} (h : IsLiteral f) : StartsForm f := by
  intro rest hrest pos
  obtain ⟨a, hcut, -⟩ := h rest hrest pos
  exact ⟨_, _, hcut.tokens_eq, trivial⟩

/-- No conditional is a form between brackets. -/
lemma Encloses.begins {f : Form} {b : Bracket} {fs : List Form} (h : Encloses f b fs) :
    (Lexeme.opener b).Begins := by
  have hyield := (h.yield 0 fs).mpr rfl
  cases b with
  | choice =>
    obtain ⟨_, _, h⟩ := map_eq_ok hyield
    cases h
  | splice =>
    obtain ⟨_, _, h⟩ := map_eq_ok hyield
    cases h
  | _ => trivial

lemma Encloses.startsForm {f : Form} {b : Bracket} {fs : List Form} (h : Encloses f b fs) :
    StartsForm f := by
  intro rest _ pos
  obtain ⟨cs, hf, -⟩ := h.chars
  rw [hf, List.append_assoc]
  exact ⟨_, _, (cuts_opening b _ pos).tokens_eq, h.begins⟩

lemma Marked.startsForm {f g : Form} {s : Sigil} (h : Marked f s g) : StartsForm f := by
  intro rest _ pos
  obtain ⟨opening, hf, hopen⟩ := h.chars
  obtain ⟨stop, hcut⟩ := hopen rest pos
  rw [hf, List.append_assoc]
  exact ⟨_, _, hcut.tokens_eq, trivial⟩

/-- Texts of forms begin with a token that begins a form, whatever the keys in them are. -/
lemma startsForm {exempt : Form → Prop} {f : Form} (h : f.WellFormedUpTo exempt) :
    StartsForm f := by
  cases h with
  | nil => exact isLiteral_nil.startsForm
  | bool b => exact (isLiteral_bool b).startsForm
  | int hlow hhigh => exact (isLiteral_int hlow hhigh).startsForm
  | float x => exact (isLiteral_float x).startsForm
  | str s => exact (isLiteral_str s).startsForm
  | char c => exact (isLiteral_char c).startsForm
  | keyword h => exact (isLiteral_keyword h).startsForm
  | symbol h => exact (isLiteral_symbol h).startsForm
  | regex h => exact (isLiteral_regex h).startsForm
  | list _ => exact (encloses_list _).startsForm
  | vector _ => exact (encloses_vector _).startsForm
  | map _ _ => exact (encloses_map _).startsForm
  | set _ => exact (encloses_set _).startsForm
  | anonFn _ => exact (encloses_anonFn _).startsForm
  | annotated _ _ =>
    intro rest _ pos
    rw [chars_annotated, List.append_assoc]
    exact ⟨_, _, (cuts_single (l := .metadata) rfl _ pos).tokens_eq, trivial⟩
  | tagged h _ => exact (marked_tagged h _).startsForm
  | resolved htag h _ => exact (marked_resolved htag h).startsForm

/-! ### Texts that are read as their form -/

/-- In front of any rest that ends words: if the text is read as one item, and the form is
the value of the item, then the form is well-formed. -/
def Faithful (f : Form) : Prop :=
  ∀ rest, Delimited rest → ∀ pos n stop us,
    Reads (lex pos (f.chars ++ rest)).tokens [.datum n stop] us → n.yield = .ok (.form f) →
      f.WellFormed

/-- A key that a qualifier has made is well-formed when the grammar has it. -/
lemma Requalified.wellFormed {key : Form} (hkey : Requalified key) {exempt : Form → Prop}
    (h : key.WellFormedUpTo exempt) : key.WellFormed := by
  obtain ⟨qualifier, text, -, -, ⟨-, -, rfl⟩ | ⟨-, rfl⟩⟩ := hkey
  · cases h with
    | keyword h => exact .keyword h
  · cases h with
    | symbol h => exact .symbol h

lemma faithful_of_wellFormed {f : Form} (h : f.WellFormed) : Faithful f :=
  fun _ _ _ _ _ _ _ _ => h

/-- The tokens behind the text of a well-formed form that is read as one item. -/
lemma tokens_behind {f : Form} (h : f.WellFormed) {rest : List Char} (hrest : Delimited rest)
    {pos : ℕ} {n : Node} {stop : ℕ} {us : List Token}
    (hread : Reads (lex pos (f.chars ++ rest)).tokens [.datum n stop] us) :
    us = (lex (pos + f.chars.length) rest).tokens := by
  -- the text is read in one way only
  obtain ⟨ts, n', hcut, hagain, -⟩ := readsBack h rest hrest pos
  rw [hcut.tokens_eq] at hread
  exact (reads_one_unique (hagain _) hread).2.symm

/-- A lone form that is read from the text of a faithful form, and has it as its value:
it stands first, and the form is well-formed. -/
lemma lone_wellFormed {f : Form} (hstart : StartsForm f) (hf : Faithful f) {rest : List Char}
    (hrest : Delimited rest) {pos k : ℕ} {n : Node} {stop : ℕ} {us : List Token}
    (hread : Reads (lex pos (f.chars ++ rest)).tokens (lone k n stop) us)
    (hn : n.single n.yield = .ok f) :
    f.WellFormed ∧ us = (lex (pos + f.chars.length) rest).tokens := by
  obtain ⟨t, ts, htokens, ht⟩ := hstart rest hrest pos
  obtain ⟨rfl, hplain⟩ : k = 0 ∧ n.IsPlain := by
    rw [htokens] at hread
    exact lone_begins ht hread
  have hwell := hf rest hrest pos n stop us hread (yield_of_single hplain hn)
  exact ⟨hwell, tokens_behind hwell hrest hread⟩

/-- The first form of a text of forms, when the items of the text have the forms as their
values: it is well-formed, and what follows its text is read as the other items. -/
lemma first_of_reads {f : Form} (hstart : StartsForm f) (hf : Faithful f) {fs : List Form}
    {rest : List Char} (hrest : Delimited rest) {pos : ℕ} {items : List Item} {us : List Token}
    (hread : Reads (lex pos (f.chars ++ rest)).tokens items us)
    (hforms : Node.forms (nodes items) = .ok (f :: fs)) :
    f.WellFormed ∧ ∃ items', Reads (lex (pos + f.chars.length) rest).tokens items' us ∧
      Node.forms (nodes items') = .ok fs := by
  obtain ⟨t, ts, htokens, ht⟩ := hstart rest hrest pos
  cases items with
  | nil => cases hforms
  | cons i items =>
    obtain ⟨n, stop, rfl, hplain⟩ : ∃ n stop, i = .datum n stop ∧ n.IsPlain := by
      rw [htokens] at hread
      exact reads_begins ht hread
    obtain ⟨g, gs, hg, hn, hgs⟩ := forms_cons_inv hplain hforms
    cases hg
    obtain ⟨vs, hfirst, hothers⟩ := reads_split [.datum n stop] hread
    have hwell := hf rest hrest pos n stop vs hfirst hn
    rw [tokens_behind hwell hrest hfirst] at hothers
    exact ⟨hwell, items, hothers, hgs⟩

/-- All forms of a text are well-formed when the items of the text have them as their
values. -/
lemma spaced_wellFormed {cs : List Char} {fs : List Form} (h : Spaced cs fs)
    (hfs : ∀ f ∈ fs, StartsForm f ∧ Faithful f) {rest : List Char} (hrest : Delimited rest)
    {pos : ℕ} {items : List Item} {us : List Token}
    (hread : Reads (lex pos (cs ++ rest)).tokens items us)
    (hforms : Node.forms (nodes items) = .ok fs) : ∀ f ∈ fs, f.WellFormed := by
  induction h generalizing pos items with
  | nil => simp
  | one f =>
    obtain ⟨hstart, hf⟩ := hfs f (by simp)
    rw [List.forall_mem_singleton]
    exact (first_of_reads hstart hf hrest hread hforms).1
  | @cons f gap cs fs hne hgap _ ih =>
    have hgap' : Delimited (gap ++ (cs ++ rest)) := by
      cases gap with
      | nil => exact absurd rfl hne
      | cons c gap => exact delimited_cons (by simp [isWord, hgap c])
    rw [List.forall_mem_cons] at hfs ⊢
    rw [List.append_assoc, List.append_assoc] at hread
    obtain ⟨hwell, items', hread', hforms'⟩ :=
      first_of_reads hfs.1.1 hfs.1.2 hgap' hread hforms
    rw [(cuts_gap hgap (cs ++ rest) _).tokens_eq] at hread'
    exact ⟨hwell, ih hfs.2 hread' hforms'⟩

/-- What is read from the text of forms between brackets as the form itself. -/
lemma Encloses.inner {f : Form} {b : Bracket} {fs : List Form} (h : Encloses f b fs)
    {rest : List Char} {pos : ℕ} {n : Node} {stop : ℕ} {us : List Token}
    (hread : Reads (lex pos (f.chars ++ rest)).tokens [.datum n stop] us)
    (hn : n.yield = .ok (.form f)) :
    ∃ cs items vs, Spaced cs fs ∧
      Reads (lex (pos + b.opening.length) (cs ++ ([b.closer.text] ++ rest))).tokens items vs ∧
      Node.forms (nodes items) = .ok fs := by
  obtain ⟨cs, hf, hspaced⟩ := h.chars
  rw [hf, List.append_assoc, (cuts_opening b _ pos).tokens_eq, List.append_assoc] at hread
  obtain ⟨items, u, vs, he, hin⟩ := reads_opener rfl hread
  cases he
  rw [Node.yield] at hn
  obtain ⟨gs, hforms, hgs⟩ := bind_eq_ok hn
  rw [(h.yield pos gs).mp hgs] at hforms
  exact ⟨cs, items, _, hspaced, hin, hforms⟩

/-- Forms between brackets: all of them are well-formed when they are faithful. -/
lemma Encloses.wellFormed {f : Form} {b : Bracket} {fs : List Form} (h : Encloses f b fs)
    (hfs : ∀ g ∈ fs, StartsForm g ∧ Faithful g) {rest : List Char} {pos : ℕ} {n : Node}
    {stop : ℕ} {us : List Token}
    (hread : Reads (lex pos (f.chars ++ rest)).tokens [.datum n stop] us)
    (hn : n.yield = .ok (.form f)) : ∀ g ∈ fs, g.WellFormed := by
  obtain ⟨cs, items, vs, hspaced, hin, hforms⟩ := h.inner hread hn
  exact spaced_wellFormed hspaced hfs (delimited_closing b.closer rest) hin hforms

/-- Forms between brackets are what the grammar has for them where they are read, their
keys included. -/
lemma Encloses.wellFormedUpTo {f : Form} {b : Bracket} {fs : List Form} (h : Encloses f b fs)
    {rest : List Char} {pos : ℕ} {n : Node} {stop : ℕ} {us : List Token}
    (hread : Reads (lex pos (f.chars ++ rest)).tokens [.datum n stop] us)
    (hn : n.yield = .ok (.form f)) : ∀ g ∈ fs, g.WellFormedUpTo Requalified := by
  obtain ⟨cs, items, vs, -, hin, hforms⟩ := h.inner hread hn
  have hproper := (reads_proper hin (lex_proper _ _)).1
  exact forms_wellFormed (fun n hn => yield_wellFormed (hproper n hn)) hforms

/-- A mark and a faithful form: the form is well-formed. -/
lemma Marked.wellFormed {f g : Form} {s : Sigil} (h : Marked f s g) (hstart : StartsForm g)
    (hg : Faithful g) {rest : List Char} (hrest : Delimited rest) {pos : ℕ} {n : Node}
    {stop : ℕ} {us : List Token}
    (hread : Reads (lex pos (f.chars ++ rest)).tokens [.datum n stop] us)
    (hn : n.yield = .ok (.form f)) : g.WellFormed := by
  obtain ⟨opening, hf, hopen⟩ := h.chars
  obtain ⟨stop', hcut⟩ := hopen rest pos
  rw [hf, List.append_assoc, hcut.tokens_eq] at hread
  obtain ⟨k, m, stop'', vs, he, hin⟩ := reads_sigil rfl hread
  cases he
  rw [Node.yield] at hn
  obtain ⟨g', hg', he⟩ := map_eq_ok hn
  cases (h.form g').mp (Yield.form.inj he)
  exact (lone_wellFormed hstart hg hrest hin hg').1

/-- Metadata and a form, both of them faithful: they are well-formed. -/
lemma annotated_wellFormed {m target : Form} (hm : StartsForm m ∧ Faithful m)
    (ht : StartsForm target ∧ Faithful target) {rest : List Char} (hrest : Delimited rest)
    {pos : ℕ} {n : Node} {stop : ℕ} {us : List Token}
    (hread : Reads (lex pos ((Form.annotated m target).chars ++ rest)).tokens [.datum n stop] us)
    (hn : n.yield = .ok (.form (.annotated m target))) : m.WellFormed ∧ target.WellFormed := by
  have hgap : Delimited ([' '] ++ (target.chars ++ rest)) := delimited_cons rfl
  rw [chars_annotated, List.append_assoc,
    (cuts_single (l := .metadata) rfl _ pos).tokens_eq, List.append_assoc, List.append_assoc]
    at hread
  obtain ⟨k, l, m', n', _, _, vs, ws, he, hreadm, hreadn⟩ := reads_metadata rfl hread
  cases he
  rw [Node.yield] at hn
  obtain ⟨f, hf, hn⟩ := bind_eq_ok hn
  obtain ⟨g, hg, he⟩ := map_eq_ok hn
  cases he
  obtain ⟨hwell, rfl⟩ := lone_wellFormed hm.1 hm.2 hgap hreadm hf
  rw [(cuts_gap (by simp [isGap]) (target.chars ++ rest) _).tokens_eq] at hreadn
  exact ⟨hwell, (lone_wellFormed ht.1 ht.2 hrest hreadn hg).1⟩

/-- Where the text of a form that was read is read as the form again, the form is
well-formed: its keys are read again too. -/
lemma faithful {f : Form} (h : f.WellFormedUpTo Requalified) : Faithful f := by
  induction h with
  | nil => exact faithful_of_wellFormed .nil
  | bool b => exact faithful_of_wellFormed (.bool b)
  | int hlow hhigh => exact faithful_of_wellFormed (.int hlow hhigh)
  | float x => exact faithful_of_wellFormed (.float x)
  | str s => exact faithful_of_wellFormed (.str s)
  | char c => exact faithful_of_wellFormed (.char c)
  | keyword h => exact faithful_of_wellFormed (.keyword h)
  | symbol h => exact faithful_of_wellFormed (.symbol h)
  | regex h => exact faithful_of_wellFormed (.regex h)
  | list h ih =>
    intro rest _ pos n stop us hread hn
    exact .list ((encloses_list _).wellFormed (fun g hg => ⟨startsForm (h g hg), ih g hg⟩)
      hread hn)
  | vector h ih =>
    intro rest _ pos n stop us hread hn
    exact .vector ((encloses_vector _).wellFormed (fun g hg => ⟨startsForm (h g hg), ih g hg⟩)
      hread hn)
  | set h ih =>
    intro rest _ pos n stop us hread hn
    exact .set ((encloses_set _).wellFormed (fun g hg => ⟨startsForm (h g hg), ih g hg⟩)
      hread hn)
  | anonFn h ih =>
    intro rest _ pos n stop us hread hn
    exact .anonFn ((encloses_anonFn _).wellFormed (fun g hg => ⟨startsForm (h g hg), ih g hg⟩)
      hread hn)
  | @map entries _ hvalue ihkey ihvalue =>
    intro rest _ pos n stop us hread hn
    -- the keys stand in the text like any other forms, so they are what the grammar has
    have hall := (encloses_map entries).wellFormedUpTo hread hn
    have hkey (e : Form × Form) (he : e ∈ entries) : StartsForm e.1 ∧ Faithful e.1 := by
      have hwell := hall e.1 (mem_flatten.mpr ⟨e, he, .inl rfl⟩)
      refine ⟨startsForm hwell, ?_⟩
      by_cases hexempt : Requalified e.1
      · exact faithful_of_wellFormed (hexempt.wellFormed hwell)
      · exact ihkey e he hexempt
    have hwell := (encloses_map entries).wellFormed (fun g hg => by
      obtain ⟨e, he, rfl | rfl⟩ := mem_flatten.mp hg
      · exact hkey e he
      · exact ⟨startsForm (hvalue e he), ihvalue e he⟩) hread hn
    exact .map (fun e he _ => hwell e.1 (mem_flatten.mpr ⟨e, he, .inl rfl⟩))
      fun e he => hwell e.2 (mem_flatten.mpr ⟨e, he, .inr rfl⟩)
  | annotated hm ht ihm iht =>
    intro rest hrest pos n stop us hread hn
    obtain ⟨hm', ht'⟩ :=
      annotated_wellFormed ⟨startsForm hm, ihm⟩ ⟨startsForm ht, iht⟩ hrest hread hn
    exact .annotated hm' ht'
  | tagged h hf ih =>
    intro rest hrest pos n stop us hread hn
    exact .tagged h ((marked_tagged h _).wellFormed (startsForm hf) ih hrest hread hn)
  | resolved htag h hf ih =>
    intro rest hrest pos n stop us hread hn
    exact .resolved htag h ((marked_resolved htag h).wellFormed (startsForm hf) ih hrest hread hn)

/-! ### Texts that look empty -/

/-- Symbols that consist of white space. -/
def IsWhiteSymbol (f : Form) : Prop :=
  ∃ s, f = .symbol s ∧ ∀ c ∈ s.text.toList, Text.isWhite c = true

lemma isBlank_cons {c : Char} (hwhite : Text.isWhite c = false) (hcomma : c ≠ ',')
    (hcomment : c ≠ ';') (cs : List Char) : isBlank Text.isWhite false (c :: cs) = false := by
  simp [isBlank, hwhite, hcomma, hcomment]

lemma isWhite_of_isDigit {c : Char} (h : c.isDigit = true) : Text.isWhite c = false := by
  simp only [Char.isDigit, Bool.and_eq_true, decide_eq_true_eq, UInt32.le_iff_toNat_le] at h
  obtain ⟨hlow, hhigh⟩ := h
  have hlow' : 48 ≤ c.toNat := hlow
  have hhigh' : c.toNat ≤ 57 := hhigh
  simp only [Text.isWhite, Text.whiteRanges, List.any_cons, List.any_nil, Bool.or_false,
    Bool.or_eq_false_iff, Bool.and_eq_false_iff, decide_eq_false_iff_not]
  omega

lemma isBlank_number (negative : Bool) {c : Char} (hc : c.isDigit = true) (cs : List Char) :
    isBlank Text.isWhite false (Numeral.sign negative ++ c :: cs) = false := by
  cases negative with
  | true => exact isBlank_cons (by decide) (by decide) (by decide) _
  | false =>
    refine isBlank_cons (isWhite_of_isDigit hc) ?_ ?_ cs
    · rintro rfl
      exact absurd hc (by decide)
    · rintro rfl
      exact absurd hc (by decide)

/-- A word looks empty when it consists of white space. -/
lemma isBlank_word {w : List Char} (hw : ∀ c ∈ w, isWord c = true) :
    isBlank Text.isWhite false w = w.all Text.isWhite := by
  induction w with
  | nil => rfl
  | cons c w ih =>
    rw [List.forall_mem_cons] at hw
    have hcomma : c ≠ ',' := by
      rintro rfl
      exact absurd hw.1 (by decide)
    have hcomment : c ≠ ';' := (isGap_of_isWord hw.1).2
    simp [isBlank, hcomma, hcomment, ih hw.2]

lemma isBlank_int (n : ℤ) : isBlank Text.isWhite false (Form.int n).chars = false := by
  have hchars : (Form.int n).chars = Numeral.sign (n < 0) ++ Nat.toDigits 10 n.natAbs := by
    simp [Form.chars, Form.intText, Numeral.sign]
  cases hd : Nat.toDigits 10 n.natAbs with
  | nil => exact absurd hd Nat.toDigits_ne_nil
  | cons c cs =>
    rw [hchars, hd]
    exact isBlank_number _ (Binary64.isDigits_toDigits n.natAbs c (by simp [hd])) cs

lemma isBlank_float (x : Binary64) : isBlank Text.isWhite false (Form.float x).chars = false := by
  cases x with
  | nan => decide
  | infinite negative => cases negative <;> decide
  | finite negative m e h =>
    obtain ⟨whole, fraction, htext, hne, hwhole, -, -⟩ := Binary64.decimalText_reads negative h
    cases whole with
    | nil => exact absurd rfl hne
    | cons c cs =>
      rw [Form.chars, Form.floatText, htext]
      exact isBlank_number negative (hwhole c List.mem_cons_self) _

/-- The only texts of forms that look empty are those of symbols of white space. -/
lemma isBlank_chars {exempt : Form → Prop} {f : Form} (h : f.WellFormedUpTo exempt) :
    isBlank Text.isWhite false f.chars = true ↔ IsWhiteSymbol f := by
  have solid {g : Form} (hg : isBlank Text.isWhite false g.chars = false)
      (hsymbol : ∀ s, g ≠ .symbol s) : isBlank Text.isWhite false g.chars = true ↔
        IsWhiteSymbol g := by
    rw [hg]
    refine ⟨by simp, ?_⟩
    rintro ⟨s, rfl, -⟩
    exact absurd rfl (hsymbol s)
  cases h with
  | int hlow hhigh => exact solid (isBlank_int _) (by simp)
  | float x => exact solid (isBlank_float x) (by simp)
  | bool b => cases b <;> exact solid (by decide) (by simp)
  | nil => exact solid (by decide) (by simp)
  | char c =>
    refine solid ?_ (by simp)
    obtain ⟨body, hbody, -⟩ := charText_reads c delimited_nil
    rw [Form.chars, hbody]
    exact isBlank_cons (by decide) (by decide) (by decide) _
  | symbol h =>
    obtain ⟨-, hw, -⟩ := isNameText_iff.mp (Bool.and_eq_true_iff.mp h).1
    rw [Form.chars, isBlank_word hw, List.all_eq_true]
    refine ⟨fun hall => ⟨_, rfl, hall⟩, ?_⟩
    rintro ⟨s, he, hall⟩
    cases he
    exact hall
  | _ => exact solid (isBlank_cons (by decide) (by decide) (by decide) _) (by simp)

/-! ### A second reading -/

/-- The text of a well-formed form is read as the form, unless it looks empty. -/
lemma first_chars {f : Form} (h : f.WellFormed)
    (hblank : isBlank Text.isWhite false f.chars = false) :
    ∃ start stop, first f.chars = .ok (f, start, stop) := by
  obtain ⟨ts, n, hcut, hread, hn⟩ := readsBack h [] delimited_nil 0
  have hlex := hcut.lex_eq
  have htokens := hread []
  rw [List.append_nil] at htokens
  have houtline := outline_of_reads (by rw [hlex]; exact htokens)
  refine ⟨n.start, 0 + f.chars.length, ?_⟩
  simp [first, hblank, houtline, firstForm, Node.topForms_eq hn, Except.bind]

/-- A form whose text is read as the form is well-formed. -/
lemma wellFormed_of_first {f : Form} (h : f.WellFormedUpTo Requalified) {start stop : ℕ}
    (hfirst : first f.chars = .ok (f, start, stop)) : f.WellFormed := by
  obtain ⟨-, hfirst⟩ := first_eq_ok hfirst
  obtain ⟨us, hread⟩ := outline_reads f.chars
  obtain ⟨t, ts, htokens, ht⟩ := startsForm h [] delimited_nil 0
  rw [List.append_nil] at htokens
  cases hitems : (outline f.chars).items with
  | nil =>
    rw [hitems] at hfirst
    cases hfirst
  | cons i items =>
    rw [hitems] at hfirst hread
    obtain ⟨n, stop', rfl, hplain⟩ : ∃ n stop, i = .datum n stop ∧ n.IsPlain := by
      rw [htokens] at hread
      exact reads_begins ht hread
    rw [firstForm] at hfirst
    obtain ⟨fs, hfs, hfirst⟩ := bind_eq_ok hfirst
    rw [Node.topForms] at hfs
    split at hfs
    · cases hfs
    · obtain ⟨y, hy, hfs⟩ := bind_eq_ok hfs
      obtain ⟨g, rfl⟩ := yield_isForm hplain hy
      cases hfs
      cases hfirst
      obtain ⟨vs, hread, -⟩ := reads_split [.datum n stop] hread
      rw [← List.append_nil f.chars] at hread
      exact faithful h [] delimited_nil 0 n stop vs hread hy

end Reader

open Reader

/-- The keys that a qualifier has made are the only parts of a form that is read which the
grammar may not have. The text of the form is read as the same form exactly when the
grammar has these too and the form is no symbol of white space alone. -/
theorem readForm_print_iff {text : String} {f : Form} (h : readForm text = .ok f) :
    f.WellFormedUpTo Requalified ∧
      (readForm f.print = .ok f ↔ f.WellFormed ∧ ¬IsWhiteSymbol f) := by
  have hupto := readForm_wellFormed h
  have hchars : f.print.toList = f.chars := String.toList_ofList
  refine ⟨hupto, ?_⟩
  rw [readForm_eq_ok, hchars]
  constructor
  · rintro ⟨start, stop, hfirst⟩
    refine ⟨wellFormed_of_first hupto hfirst, fun hwhite => ?_⟩
    rw [← isBlank_chars hupto, (first_eq_ok hfirst).1] at hwhite
    cases hwhite
  · rintro ⟨hwell, hwhite⟩
    rw [← isBlank_chars hupto, Bool.not_eq_true] at hwhite
    exact first_chars hwell hwhite

/-- A map with a key under the qualifier and one that is kept bare is read again. -/
theorem readForm_print_optOut :
    (Form.map [(.keyword "a/b", .int 1), (.keyword "c", .int 2)]).print =
        "\x7b:a/b 1, :c 2\x7d" ∧
      readForm "\x7b:a/b 1, :c 2\x7d" =
        .ok (.map [(.keyword "a/b", .int 1), (.keyword "c", .int 2)]) := by
  have htext : "#:a\x7b:b 1 :_/c 2\x7d".toList =
      ['#', ':', 'a', '\x7b', ':', 'b', ' ', '1', ' ', ':', '_', '/', 'c', ' ', '2', '\x7d'] := by
    decide
  have hread : readForm "#:a\x7b:b 1 :_/c 2\x7d" =
      .ok (.map [(.keyword "a/b", .int 1), (.keyword "c", .int 2)]) := by
    rw [readForm_eq_ok, htext]
    refine ⟨0, 16, ?_⟩
    rw [first, outline, lex_found (l := .sigil (.qualifier ['a'])) rfl rfl,
      lex_found (l := .opener .map) rfl rfl, lex_found (l := .atom (.keyword ['b'])) rfl rfl,
      lex_found (l := .atom (.number ['1'])) rfl rfl,
      lex_found (l := .atom (.keyword ['_', '/', 'c'])) rfl rfl,
      lex_found (l := .atom (.number ['2'])) rfl rfl, lex_found (l := .closer .curly) rfl rfl,
      lex_nil rfl]
    rfl
  have hprint : (Form.map [(.keyword "a/b", .int 1), (.keyword "c", .int 2)]).print =
      "\x7b:a/b 1, :c 2\x7d" := by decide +kernel
  refine ⟨hprint, ?_⟩
  rw [← hprint]
  refine (readForm_print_iff hread).2.mpr ⟨.map ?_ ?_, ?_⟩
  · simp only [List.mem_cons, List.not_mem_nil, or_false]
    rintro e (rfl | rfl) -
    · exact .keyword (by decide)
    · exact .keyword (by decide)
  · simp only [List.mem_cons, List.not_mem_nil, or_false]
    rintro e (rfl | rfl)
    · exact .int (by decide) (by decide)
    · exact .int (by decide) (by decide)
  · rintro ⟨s, he, -⟩
    cases he

/-- A keyword that the opt-out leaves without a text is printed as a colon, which is no
form: the map is not read again. -/
theorem readForm_print_bareColon :
    readForm "#:a\x7b:_/ 1\x7d" = .ok (.map [(.keyword "", .int 1)]) ∧
      (Form.map [(.keyword "", .int 1)]).print = "\x7b: 1\x7d" ∧
      ∃ e, readForm "\x7b: 1\x7d" = .error e := by
  have htext : "#:a\x7b:_/ 1\x7d".toList =
      ['#', ':', 'a', '\x7b', ':', '_', '/', ' ', '1', '\x7d'] := by decide
  have htext' : "\x7b: 1\x7d".toList = ['\x7b', ':', ' ', '1', '\x7d'] := by decide
  refine ⟨?_, by decide +kernel, ?_⟩
  · rw [readForm_eq_ok, htext]
    refine ⟨0, 10, ?_⟩
    rw [first, outline, lex_found (l := .sigil (.qualifier ['a'])) rfl rfl,
      lex_found (l := .opener .map) rfl rfl,
      lex_found (l := .atom (.keyword ['_', '/'])) rfl rfl,
      lex_found (l := .atom (.number ['1'])) rfl rfl, lex_found (l := .closer .curly) rfl rfl,
      lex_nil rfl]
    rfl
  · rw [readForm, htext', first, outline, lex_found (l := .opener .map) rfl rfl,
      lex_stuck (c := ':') rfl rfl]
    exact ⟨_, rfl⟩

end Listener
