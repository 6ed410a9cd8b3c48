/-
Printing and reading again.

* `ReadsBack`: the text of a form is read as one item, and the form is the value of the
  item.
* `Spaced`: a text of forms with blanks between them; `reads_spaced` reads it form by
  form.
* `reads_bracket`: items between an opening and its closing are read as one form.
* `Encloses`, `Marked`: how the text of a form consists of those of its parts;
  `Encloses.readsBack`, `Marked.readsBack` and `readsBack_annotated` say that forms whose
  parts are read back are read back.
* `readsBack`: every well-formed form is read back.
* `readAll_join`: so are any number of them, with blanks between their texts.
-/
import Listener.Proofs.Reader.Literals
import Listener.Proofs.Reader.Nesting
import Listener.Reader

namespace Listener

namespace Reader

/-! ### Values of items -/

namespace Node

variable {n : Node} {f : Form}

/-- A conditional for several forms has no form of its own. -/
lemma isSplice_eq_false (h : n.yield = .ok (.form f)) : n.isSplice = false := by
  unfold isSplice
  split
  · rename_i start items
    simp only [yield] at h
    cases hi : Node.forms items with
    | error e => simp [hi, Except.bind] at h
    | ok fs =>
      simp only [hi, Except.bind, Bracket.yield] at h
      cases hs : selectBranch fs <;> simp [hs, Except.map, Except.mapError] at h
  · rfl

lemma single_eq (h : n.yield = .ok (.form f)) : n.single n.yield = .ok f := by
  simp [single, isSplice_eq_false h, h, Yield.asForm, Except.bind]

lemma forms_cons (h : n.yield = .ok (.form f)) {ns : List Node} {fs : List Form}
    (hs : Node.forms ns = .ok fs) : Node.forms (n :: ns) = .ok (f :: fs) := by
  simp [Node.forms, h, hs, Yield.asItems, Except.bind, Except.map]

lemma topForms_eq (h : n.yield = .ok (.form f)) : n.topForms = .ok [f] := by
  simp [topForms, isSplice_eq_false h, h, Yield.asItems, Except.bind]

end Node

/-! ### One form -/

/-- In front of a rest that ends words, the text of the form is read as one item, and the
form is the value of the item. -/
def ReadsBack (f : Form) : Prop :=
  ∀ rest, Delimited rest → ∀ pos, ∃ ts n,
    Cuts f.chars rest pos ts ∧
      (∀ us, Reads (ts ++ us) [.datum n (pos + f.chars.length)] us) ∧ n.yield = .ok (.form f)

lemma IsLiteral.readsBack {f : Form} (h : IsLiteral f) : ReadsBack f := by
  intro rest hrest pos
  obtain ⟨a, hcut, ha⟩ := h rest hrest pos
  refine ⟨_, .atom pos a, hcut, fun us => .atom rfl (.nil us), ?_⟩
  simp [Node.yield, ha, Except.map, Except.mapError]

/-! ### Several forms -/

/-- A text of forms with blanks between each two of them. -/
inductive Spaced : List Char → List Form → Prop
  | nil : Spaced [] []
  | one (f : Form) : Spaced f.chars [f]
  | cons (f : Form) (gap : List Char) {cs : List Char} {fs : List Form} (hne : gap ≠ [])
      (hgap : ∀ c ∈ gap, isGap c = true) (h : Spaced cs fs) :
      Spaced (f.chars ++ (gap ++ cs)) (f :: fs)

lemma spaced_charsList (fs : List Form) : Spaced (Form.charsList fs) fs := by
  induction fs with
  | nil => exact .nil
  | cons f fs ih =>
    cases fs with
    | nil => exact .one f
    | cons g fs => exact .cons f [' '] (by simp) (by simp [isGap]) ih

/-- The keys and values of a map in order. -/
def flatten (entries : List (Form × Form)) : List Form :=
  entries.flatMap fun e => [e.1, e.2]

/-- The keys and values of a map are divided by blanks. -/
lemma spaced_charsEntries (entries : List (Form × Form)) :
    Spaced (Form.charsEntries entries) (flatten entries) := by
  induction entries with
  | nil => exact .nil
  | cons e entries ih =>
    obtain ⟨k, v⟩ := e
    cases entries with
    | nil => exact .cons k [' '] (by simp) (by simp [isGap]) (.one v)
    | cons e entries =>
      have h := Spaced.cons v [',', ' '] (by simp) (by simp [isGap]) ih
      have h' := Spaced.cons k [' '] (by simp) (by simp [isGap]) h
      simpa [Form.charsEntries, flatten] using h'

/-- The keys and values of a map are put together again. -/
lemma pairUp_flatten (entries : List (Form × Form)) :
    pairUp (flatten entries) = some entries := by
  induction entries with
  | nil => rfl
  | cons e entries ih =>
    simp only [flatten, List.flatMap_cons, List.cons_append, List.nil_append, pairUp] at ih ⊢
    rw [ih]
    rfl

/-- What can be paired up are the keys and values of the pairs. -/
lemma flatten_of_pairUp {fs : List Form} {entries : List (Form × Form)}
    (h : pairUp fs = some entries) : flatten entries = fs := by
  fun_induction pairUp fs generalizing entries with
  | case1 =>
    cases h
    rfl
  | case2 => cases h
  | case3 a b rest ih =>
    obtain ⟨es, hes, rfl⟩ := Option.map_eq_some_iff.mp h
    simp only [flatten, List.flatMap_cons, List.cons_append, List.nil_append] at ih ⊢
    rw [ih hes]

lemma mem_flatten {entries : List (Form × Form)} {f : Form} :
    f ∈ flatten entries ↔ ∃ e ∈ entries, f = e.1 ∨ f = e.2 := by
  simp [flatten]

/-- Forms that are read back are read one after the other, whatever blanks divide
them. -/
lemma reads_spaced {cs : List Char} {fs : List Form} (h : Spaced cs fs)
    (hfs : ∀ f ∈ fs, ReadsBack f) {rest : List Char} (hrest : Delimited rest) (pos : ℕ) :
    ∃ ts items, Cuts cs rest pos ts ∧ (∀ us, Reads (ts ++ us) items us) ∧
      Node.forms (nodes items) = .ok fs ∧ itemForms items = .ok fs := by
  induction h generalizing pos with
  | nil => exact ⟨[], [], .nil rest pos, .nil, rfl, rfl⟩
  | one f =>
    obtain ⟨ts, n, hcut, hread, hn⟩ := hfs f (by simp) rest hrest pos
    refine ⟨ts, _, hcut, hread, Node.forms_cons hn rfl, ?_⟩
    simp [itemForms, Item.forms, Node.topForms_eq hn, Except.bind, Except.map]
  | @cons f gap cs fs hne hgap h ih =>
    have hgap' : Delimited (gap ++ cs ++ rest) := by
      cases gap with
      | nil => exact absurd rfl hne
      | cons c gap => exact delimited_cons (by simp [isWord, hgap c])
    obtain ⟨ts, n, hcut, hread, hn⟩ := hfs f (by simp) _ hgap' pos
    obtain ⟨us, items, hcut', hread', hforms, hitems⟩ :=
      ih (fun g hg => hfs g (List.mem_cons_of_mem f hg)) (pos + f.chars.length + gap.length)
    refine ⟨ts ++ us, .datum n (pos + f.chars.length) :: items, ?_, fun vs => ?_, ?_, ?_⟩
    · exact hcut.append ((cuts_gap hgap _ _).append hcut')
    · rw [List.append_assoc]
      exact reads_append (hread _) (hread' vs)
    · exact Node.forms_cons hn hforms
    · simp [itemForms, Item.forms, Node.topForms_eq hn, hitems, Except.bind, Except.map]

/-! ### Forms with parts -/

def Bracket.opening : Bracket → List Char
  | .list => ['(']
  | .vector => ['[']
  | .map => ['\x7b']
  | .set => ['#', '\x7b']
  | .anonFn => ['#', '(']
  | .choice => ['#', '?', '(']
  | .splice => ['#', '?', '@', '(']

def Closer.text : Closer → Char
  | .round => ')'
  | .square => ']'
  | .curly => '\x7d'

lemma cuts_opening (b : Bracket) (rest : List Char) (pos : ℕ) :
    Cuts b.opening rest pos [⟨.opener b, pos, pos + b.opening.length⟩] := by
  cases b with
  | list => exact cuts_single rfl rest pos
  | vector => exact cuts_single rfl rest pos
  | map => exact cuts_single rfl rest pos
  | set => exact cuts_hash rfl pos
  | anonFn => exact cuts_hash rfl pos
  | choice => exact cuts_hash rfl pos
  | splice => exact cuts_hash rfl pos

lemma cuts_closing (c : Closer) (rest : List Char) (pos : ℕ) :
    Cuts [c.text] rest pos [⟨.closer c, pos, pos + 1⟩] := by
  cases c <;> exact cuts_single rfl rest pos

lemma delimited_closing (c : Closer) (rest : List Char) : Delimited ([c.text] ++ rest) := by
  cases c <;> exact delimited_cons rfl

/-- Items between an opening and its closing are read as one form. -/
lemma reads_bracket (b : Bracket) {cs rest : List Char} {pos : ℕ} {ts : List Token}
    {items : List Item} (hcut : Cuts cs ([b.closer.text] ++ rest) (pos + b.opening.length) ts)
    (hread : ∀ us, Reads (ts ++ us) items us) :
    ∃ us, Cuts (b.opening ++ (cs ++ [b.closer.text])) rest pos us ∧
      ∀ vs, Reads (us ++ vs) [.datum (.bracket pos b (nodes items))
        (pos + (b.opening ++ (cs ++ [b.closer.text])).length)] vs := by
  have hlen : pos + (b.opening ++ (cs ++ [b.closer.text])).length =
      pos + b.opening.length + cs.length + 1 := by
    rw [List.length_append, List.length_append, List.length_singleton]
    omega
  refine ⟨_, (cuts_opening b _ pos).append (hcut.append (cuts_closing b.closer rest _)),
    fun vs => ?_⟩
  rw [hlen, List.append_assoc, List.append_assoc]
  exact .bracket rfl rfl (hread _) (.nil vs)

/-- The form consists of the forms `fs` between brackets. -/
structure Encloses (f : Form) (b : Bracket) (fs : List Form) : Prop where
  /-- The text has the texts of the forms between the brackets. -/
  chars : ∃ cs, f.chars = b.opening ++ (cs ++ [b.closer.text]) ∧ Spaced cs fs
  /-- No other forms between the brackets have the same value. -/
  yield : ∀ pos gs, b.yield pos gs = .ok (.form f) ↔ gs = fs

lemma encloses_list (items : List Form) : Encloses (.list items) .list items :=
  ⟨⟨_, rfl, spaced_charsList items⟩, by simp [Bracket.yield]⟩

lemma encloses_vector (items : List Form) : Encloses (.vector items) .vector items :=
  ⟨⟨_, rfl, spaced_charsList items⟩, by simp [Bracket.yield]⟩

lemma encloses_set (items : List Form) : Encloses (.set items) .set items :=
  ⟨⟨_, rfl, spaced_charsList items⟩, by simp [Bracket.yield]⟩

lemma encloses_anonFn (items : List Form) : Encloses (.anonFn items) .anonFn items :=
  ⟨⟨_, rfl, spaced_charsList items⟩, by simp [Bracket.yield]⟩

lemma encloses_map (entries : List (Form × Form)) :
    Encloses (.map entries) .map (flatten entries) := by
  refine ⟨⟨_, rfl, spaced_charsEntries entries⟩, fun pos gs => ?_⟩
  simp only [Bracket.yield]
  constructor
  · intro h
    split at h <;> cases h
    rename_i hp
    exact (flatten_of_pairUp hp).symm
  · rintro rfl
    rw [pairUp_flatten]

/-- The form consists of a mark and the form `g`. -/
structure Marked (f : Form) (s : Sigil) (g : Form) : Prop where
  /-- The text has a text for the mark in front of that of the other form. -/
  chars : ∃ opening, f.chars = opening ++ g.chars ∧
    ∀ rest pos, ∃ stop, Cuts opening (g.chars ++ rest) pos [⟨.sigil s, pos, stop⟩]
  /-- No other form behind the mark has the same value. -/
  form : ∀ h, s.form h = f ↔ h = g

lemma marked_tagged {tag : String} (h : isTagText tag.toList = true) (f : Form) :
    Marked (.tagged tag f) (.tag tag.toList) f := by
  have hcolon : tag.toList.head? ≠ some ':' := by
    obtain ⟨⟨c, cs, hcs, hc⟩, -⟩ := isTagText_iff.mp h
    rw [hcs]
    rintro ⟨⟩
    exact absurd hc (by decide)
  refine ⟨⟨'#' :: tag.toList ++ [' '], ?_, fun rest pos => ?_⟩, fun g => ?_⟩
  · simp [Form.chars, hcolon]
  · refine ⟨_, (cuts_hash (scanHash_tag h ?_) pos).append (cuts_gap (by simp [isGap]) _ _)⟩
    exact delimited_cons rfl
  · simp [Sigil.form]

lemma marked_resolved {tag : String} {qualifier : List Char} {entries : List (Form × Form)}
    (htag : tag.toList = ':' :: ':' :: qualifier) (h : ∀ c ∈ qualifier, isWord c = true) :
    Marked (.tagged tag (.map entries)) (.qualifier (':' :: qualifier)) (.map entries) := by
  have hword : ∀ c ∈ ':' :: qualifier, isWord c = true := List.forall_mem_cons.mpr ⟨rfl, h⟩
  refine ⟨⟨'#' :: tag.toList, ?_, fun rest pos => ⟨_, cuts_hash ?_ pos⟩⟩, fun g => ?_⟩
  · simp [Form.chars, htag]
  · rw [htag]
    simp only [Form.chars, List.cons_append]
    exact scanHash_qualifier (List.cons_ne_nil _ _) hword _
  · simp [Sigil.form, ← htag]

lemma chars_annotated (m target : Form) :
    (Form.annotated m target).chars = ['^'] ++ (m.chars ++ ([' '] ++ target.chars)) := by
  simp [Form.chars]

/-! ### Forms with parts are read back -/

lemma Encloses.readsBack {f : Form} {b : Bracket} {fs : List Form} (h : Encloses f b fs)
    (hfs : ∀ g ∈ fs, ReadsBack g) : ReadsBack f := by
  intro rest _ pos
  obtain ⟨cs, hf, hspaced⟩ := h.chars
  obtain ⟨ts, items, hcut, hread, hforms, -⟩ :=
    reads_spaced hspaced hfs (delimited_closing b.closer rest) (pos + b.opening.length)
  obtain ⟨us, htext, hitem⟩ := reads_bracket b hcut hread
  rw [← hf] at htext hitem
  refine ⟨us, .bracket pos b (nodes items), htext, hitem, ?_⟩
  rw [Node.yield, hforms]
  exact (h.yield pos fs).mpr rfl

lemma Marked.readsBack {f g : Form} {s : Sigil} (h : Marked f s g) (hg : ReadsBack g) :
    ReadsBack f := by
  intro rest hrest pos
  obtain ⟨opening, hf, hopen⟩ := h.chars
  obtain ⟨stop, hcut⟩ := hopen rest pos
  obtain ⟨ts, n, hcut', hread, hn⟩ := hg rest hrest (pos + opening.length)
  have htext := hcut.append hcut'
  rw [← hf] at htext
  have hlen : pos + f.chars.length = pos + opening.length + g.chars.length := by
    rw [hf, List.length_append]
    omega
  refine ⟨_, .sigil pos s n, htext, fun us => ?_, ?_⟩
  · rw [hlen]
    exact .sigil (k := 0) rfl (hread us) (.nil us)
  · rw [Node.yield, Node.single_eq hn]
    exact congrArg (Except.ok ∘ Yield.form) ((h.form g).mpr rfl)

lemma readsBack_annotated {m target : Form} (hm : ReadsBack m) (ht : ReadsBack target) :
    ReadsBack (.annotated m target) := by
  intro rest hrest pos
  have hgap : Delimited ([' '] ++ target.chars ++ rest) := delimited_cons rfl
  obtain ⟨ts, n, hcut, hread, hn⟩ := hm _ hgap (pos + 1)
  obtain ⟨us, n', hcut', hread', hn'⟩ := ht rest hrest (pos + 1 + m.chars.length + 1)
  have hblank : ∀ c ∈ [' '], isGap c = true := by simp [isGap]
  have htext := (cuts_single (c := '^') rfl _ pos).append
    (hcut.append ((cuts_gap hblank _ _).append hcut'))
  rw [← chars_annotated] at htext
  have hlen : pos + (Form.annotated m target).chars.length =
      pos + 1 + m.chars.length + 1 + target.chars.length := by
    rw [chars_annotated]
    simp only [List.length_append, List.length_singleton]
    omega
  refine ⟨_, .annotated pos n n', htext, fun vs => ?_, ?_⟩
  · rw [hlen, List.append_assoc, List.append_assoc]
    exact .annotated (k := 0) (l := 0) rfl (hread _) (hread' vs) (.nil vs)
  · rw [Node.yield, Node.single_eq hn, Node.single_eq hn']
    rfl

/-- Every well-formed form is read back. -/
theorem readsBack {f : Form} (h : f.WellFormed) : ReadsBack f := by
  induction h with
  | nil => exact isLiteral_nil.readsBack
  | bool b => exact (isLiteral_bool b).readsBack
  | int hlow hhigh => exact (isLiteral_int hlow hhigh).readsBack
  | float x => exact (isLiteral_float x).readsBack
  | str s => exact (isLiteral_str s).readsBack
  | char c => exact (isLiteral_char c).readsBack
  | keyword h => exact (isLiteral_keyword h).readsBack
  | symbol h => exact (isLiteral_symbol h).readsBack
  | regex h => exact (isLiteral_regex h).readsBack
  | list _ ih => exact (encloses_list _).readsBack ih
  | vector _ ih => exact (encloses_vector _).readsBack ih
  | set _ ih => exact (encloses_set _).readsBack ih
  | anonFn _ ih => exact (encloses_anonFn _).readsBack ih
  | map _ _ ihkey ihvalue =>
    refine (encloses_map _).readsBack fun g hg => ?_
    obtain ⟨e, he, rfl | rfl⟩ := mem_flatten.mp hg
    · exact ihkey e he id
    · exact ihvalue e he
  | annotated _ _ ihm iht => exact readsBack_annotated ihm iht
  | tagged h _ ih => exact (marked_tagged h _).readsBack ih
  | resolved htag h _ ih => exact (marked_resolved htag h).readsBack ih

/-! ### Texts of forms -/

lemma outline_spaced {cs : List Char} {fs : List Form} (h : Spaced cs fs)
    (hfs : ∀ f ∈ fs, ReadsBack f) :
    ∃ items, outline cs = ⟨items, cs.length, true⟩ ∧ itemForms items = .ok fs := by
  obtain ⟨ts, items, hcut, hread, -, hitems⟩ := reads_spaced h hfs delimited_nil 0
  have hlex := hcut.lex_eq
  have htokens := hread []
  rw [List.append_nil] at htokens
  refine ⟨items, ?_, hitems⟩
  rw [outline_of_reads (by rw [hlex]; exact htokens), hlex, Nat.zero_add]

/-- The texts of forms with single blanks between them. -/
lemma toList_join (fs : List Form) :
    (" ".intercalate (fs.map Form.print)).toList = Form.charsList fs := by
  induction fs with
  | nil => rfl
  | cons f fs ih =>
    cases fs with
    | nil => simp [Form.print, Form.charsList]
    | cons g fs =>
      rw [List.map_cons, List.map_cons, String.intercalate_cons_cons, ← List.map_cons,
        String.toList_append, String.toList_append, ih, Form.charsList]
      simp [Form.print]

end Reader

open Reader

/-- Well-formed forms are read back from their texts, whatever their number, when single
blanks divide the texts. -/
theorem readAll_join {fs : List Form} (h : ∀ f ∈ fs, f.WellFormed) :
    readAll (" ".intercalate (fs.map Form.print)) = .ok fs := by
  obtain ⟨items, houtline, hitems⟩ :=
    outline_spaced (spaced_charsList fs) fun f hf => readsBack (h f hf)
  rw [readAll, toList_join, forms, houtline]
  simp only [if_true]
  rw [hitems]
  rfl

/-- Forms that look alike at their starts: a character like the start of a code, a sign that
is a symbol, a tag and an auto-resolved qualifier, metadata and a pattern. -/
def mixedForms : List Form :=
  [.char 'u', .symbol ⟨"-"⟩, .int (-7), .tagged "inst" (.str "\"\\"),
    .tagged "::n" (.map [(.keyword ":k", .char ' '), (.nil, .float .nan)]),
    .annotated (.map []) (.anonFn [.set [.regex "\\d+"]])]

/-- The mixed forms are read back. -/
theorem readAll_mixedForms :
    " ".intercalate (mixedForms.map Form.print) =
        "\\u - -7 #inst \"\\\"\\\\\" #::n\x7b::k \\space, nil ##NaN\x7d ^\x7b\x7d #(#\x7b#\"\\d+\"\x7d)" ∧
      readAll (" ".intercalate (mixedForms.map Form.print)) = .ok mixedForms := by
  refine ⟨by decide +kernel, readAll_join fun f hf => ?_⟩
  simp only [mixedForms, List.mem_cons, List.not_mem_nil, or_false] at hf
  rcases hf with rfl | rfl | rfl | rfl | rfl | rfl
  · exact .char 'u'
  · exact .symbol (by decide)
  · exact .int (by decide) (by decide)
  · exact .tagged (by decide) (.str _)
  · refine .resolved (by decide : _ = [':', ':', 'n']) (List.all_eq_true.mp rfl) (.map ?_ ?_)
    · simp only [List.mem_cons, List.not_mem_nil, or_false]
      rintro e (rfl | rfl) -
      · exact .keyword (by decide)
      · exact .nil
    · simp only [List.mem_cons, List.not_mem_nil, or_false]
      rintro e (rfl | rfl)
      · exact .char ' '
      · exact .float .nan
  · refine .annotated (.map (by simp) (by simp)) (.anonFn ?_)
    simp only [List.mem_cons, List.not_mem_nil, or_false]
    rintro f rfl
    refine .set ?_
    simp only [List.mem_cons, List.not_mem_nil, or_false]
    rintro f rfl
    exact .regex (by decide)

end Listener
