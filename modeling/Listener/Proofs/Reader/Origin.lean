/-
What the forms that are read consist of.

* `Proper`: the tokens of a text are what the grammar has for them, and a qualifier stands
  in front of a map; `lex_proper` says that this holds of every text.
* `Node.Proper`, `reads_proper`: so are the items that the tokens are read as.
* `Requalified`: the keys that a qualifier has made.
* `yield_wellFormed`: forms of such items are well-formed up to these keys.
* `readForm_wellFormed`: so is every form that is read.
-/
import Listener.Proofs.Reader.Lexing
import Listener.Proofs.Reader.Nesting
import Listener.Reader
import Mathlib.Tactic.Lemma

namespace Listener

namespace Reader

/-! ### Tokens -/

/-- The texts of a form without parts are those that the grammar has for it. -/
def Atom.Proper : Atom → Prop
  | .regex raw => isQuotable raw = true
  | .keyword text => isKeywordText text = true
  | .symbol text => isNameText text = true
  | _ => True

/-- A text in front of the keys of a map. -/
def IsQualifier (text : List Char) : Prop :=
  text ≠ [] ∧ ∀ c ∈ text, isWord c = true

/-- The texts of a token are those that the grammar has for it, and a qualifier stands in
front of a map. -/
def Lexeme.Proper (l : Lexeme) (next : List Lexeme) : Prop :=
  match l with
  | .atom a => a.Proper
  | .sigil (.tag text) => isTagText text = true
  | .sigil (.qualifier text) => IsQualifier text ∧ next.head? = some (.opener .map)
  | _ => True

/-- Each of the tokens is proper in front of the following ones. -/
def Proper : List Token → Prop
  | [] => True
  | t :: ts => t.lexeme.Proper (ts.map Token.lexeme) ∧ Proper ts

lemma isWord_of_mem_word {cs : List Char} : ∀ c ∈ word cs, isWord c = true :=
  List.all_eq_true.mp List.all_takeWhile

lemma wordAtom?_proper {w : List Char} {a : Atom} (hw : ∀ c ∈ w, isWord c = true)
    (hstart : ∀ c, w.head? = some c → c ≠ '#' ∧ c ≠ '\'') (h : wordAtom? w = some a) :
    a.Proper := by
  unfold wordAtom? at h
  split at h
  · cases h
  · cases h
  · cases h
  · rename_i text hone htwo
    cases h
    refine isKeywordText_iff.mpr ⟨fun c hc => hw c (List.mem_cons_of_mem _ hc), ?_, ?_⟩
    · rintro rfl
      exact hone rfl
    · rintro rfl
      exact htwo rfl
  · rename_i c cs _ _ hcolon
    split at h
    · cases h
      trivial
    · rename_i hnum
      split at h
      · cases h
      · rename_i hdigit
        cases h
        obtain ⟨hhash, hquote⟩ := hstart c rfl
        have hc : c ≠ ':' := by
          rintro rfl
          exact hcolon rfl
        refine isNameText_iff.mpr ⟨⟨c, cs, rfl, ?_⟩, hw, by simpa using hnum⟩
        simp [isSymbolStart, hw c, hdigit, hc, hhash, hquote]

lemma scanHash_proper {cs rest : List Char} {l : Lexeme} (h : scanHash cs = .found l rest)
    (pos : Nat) : l.Proper ((lex pos rest).tokens.map Token.lexeme) := by
  unfold scanHash at h
  split at h
  · cases h
    trivial
  · cases h
    trivial
  · cases h
    trivial
  · cases h
    trivial
  · split at h
    · rename_i hq
      cases h
      exact (isQuotable_of_quoted? hq).1
    · cases h
  · cases h
    trivial
  · cases h
    trivial
  · cases h
    trivial
  · split at h
    · cases h
      trivial
    · cases h
  · split at h
    · cases h
      trivial
    · cases h
  · dsimp only at h
    split at h
    · cases h
    · rename_i hne
      split at h
      · rename_i ds hs
        cases h
        -- the brace in sight of the qualifier is the next token
        rw [lex_found (l := .opener .map) hs rfl]
        exact ⟨⟨hne, isWord_of_mem_word⟩, rfl⟩
      · cases h
  · split at h
    · rename_i c ds _
      split at h
      · rename_i hc
        cases h
        refine isTagText_iff.mpr ⟨⟨c, word ds, ?_, hc⟩, isWord_of_mem_word⟩
        simp [word, isWord_of_isAlpha hc]
      · cases h
    · cases h

/-- A token that is found is proper in front of the tokens that follow. -/
lemma scan_proper {c : Char} {cs rest : List Char} {l : Lexeme} (h : scan c cs = .found l rest)
    (pos : Nat) : l.Proper ((lex pos rest).tokens.map Token.lexeme) := by
  unfold scan at h
  split at h
  · rename_i hsingle
    cases h
    unfold single? at hsingle
    split at hsingle <;> cases hsingle <;> trivial
  rename_i hsingle
  split at h
  · split at h <;> cases h <;> trivial
  split at h
  · split at h <;> cases h
    trivial
  split at h
  · split at h <;> cases h
    trivial
  split at h
  · exact scanHash_proper h pos
  rename_i hhash
  split at h
  · rename_i a ha
    cases h
    refine wordAtom?_proper isWord_of_mem_word (fun d hd => ?_) ha
    rw [word, List.takeWhile_cons] at hd
    split at hd
    · cases hd
      refine ⟨hhash, ?_⟩
      rintro rfl
      cases hsingle
    · cases hd
  · cases h

/-- The tokens of every text are proper. -/
theorem lex_proper (pos : Nat) (cs : List Char) : Proper (lex pos cs).tokens := by
  fun_induction lex pos cs with
  | case1 => trivial
  | case2 => trivial
  | case3 pos cs c ds hs l rest hf _ stop lexed ih => exact ⟨scan_proper hf stop, ih⟩

/-! ### Items -/

/-- A mark in front of any form, with a tag as the grammar has it. -/
def Sigil.IsMark : Sigil → Prop
  | .tag text => isTagText text = true
  | .qualifier _ => False
  | _ => True

/-- The texts of an item are those that the grammar has for them, and all qualifiers stand
in front of maps. -/
inductive Node.Proper : Node → Prop
  | atom (start : Nat) {a : Atom} (ha : a.Proper) : Node.Proper (.atom start a)
  | bracket (start : Nat) (b : Bracket) {items : List Node} (h : ∀ n ∈ items, n.Proper) :
      Node.Proper (.bracket start b items)
  | mark (start : Nat) {s : Sigil} {n : Node} (hs : s.IsMark) (hn : n.Proper) :
      Node.Proper (.sigil start s n)
  | qualified (start start' : Nat) {text : List Char} {items : List Node}
      (htext : IsQualifier text) (h : ∀ n ∈ items, n.Proper) :
      Node.Proper (.sigil start (.qualifier text) (.bracket start' .map items))
  | annotated (start : Nat) {m n : Node} (hm : m.Proper) (hn : n.Proper) :
      Node.Proper (.annotated start m n)

@[simp] lemma nodes_lone (k : Nat) (n : Node) (stop : Nat) : nodes (lone k n stop) = [n] := by
  induction k with
  | zero => rfl
  | succ k ih => exact ih

/-- What begins with an opening is the form up to its closing. -/
lemma eq_bracket_of_lone {t : Token} {b : Bracket} {ts us : List Token} {k : Nat} {n : Node}
    {stop : Nat} (ht : t.lexeme = .opener b) (h : Reads (t :: ts) (lone k n stop) us) :
    ∃ items, n = .bracket t.start b items := by
  cases k with
  | zero =>
    obtain ⟨inner, u, vs, he, -⟩ := reads_opener ht h
    cases he
    exact ⟨_, rfl⟩
  | succ k =>
    obtain ⟨inner, u, vs, he, -⟩ := reads_opener ht h
    cases he

/-- Proper tokens are read as proper items. -/
theorem reads_proper {ts us : List Token} {items : List Item} (h : Reads ts items us)
    (hts : Proper ts) : (∀ n ∈ nodes items, n.Proper) ∧ Proper us := by
  induction h with
  | nil => exact ⟨by simp, hts⟩
  | @atom t a _ _ _ ht _ ih =>
    obtain ⟨hnodes, hus⟩ := ih hts.2
    refine ⟨?_, hus⟩
    rw [nodes_datum, List.forall_mem_cons]
    have ha := hts.1
    rw [ht] at ha
    exact ⟨.atom t.start ha, hnodes⟩
  | @bracket t _ b _ _ _ _ _ _ _ _ _ ihin ih =>
    obtain ⟨hinner, hts'⟩ := ihin hts.2
    obtain ⟨hnodes, hvs⟩ := ih hts'.2
    refine ⟨?_, hvs⟩
    rw [nodes_datum, List.forall_mem_cons]
    exact ⟨.bracket t.start b hinner, hnodes⟩
  | @sigil t s k n _ ts' _ _ _ ht hin _ ihin ih =>
    obtain ⟨hinner, hus⟩ := ihin hts.2
    obtain ⟨hnodes, hvs⟩ := ih hus
    refine ⟨?_, hvs⟩
    rw [nodes_datum, List.forall_mem_cons]
    refine ⟨?_, hnodes⟩
    have hn : n.Proper := hinner n (by simp)
    have hs := hts.1
    rw [ht] at hs
    cases s with
    | tag text => exact .mark t.start hs hn
    | qualifier text =>
      obtain ⟨hq, hnext⟩ := hs
      cases ts' with
      | nil => cases hnext
      | cons u us' =>
        -- the next token opens a map, so nothing is discarded between the two
        obtain ⟨items, rfl⟩ := eq_bracket_of_lone (Option.some.inj hnext) hin
        cases hn with
        | bracket _ _ h => exact .qualified t.start u.start hq h
    | _ => exact .mark t.start trivial hn
  | @annotated t _ _ m n _ _ _ _ _ _ _ _ _ _ _ ihm ihn ih =>
    obtain ⟨hm, hus⟩ := ihm hts.2
    obtain ⟨hn, hvs⟩ := ihn hus
    obtain ⟨hnodes, hws⟩ := ih hvs
    refine ⟨?_, hws⟩
    rw [nodes_datum, List.forall_mem_cons]
    exact ⟨.annotated t.start (hm m (by simp)) (hn n (by simp)), hnodes⟩
  | discard _ _ _ ihin ih =>
    obtain ⟨-, hus⟩ := ihin hts.2
    exact ih hus

/-! ### Values of forms without parts -/

variable {exempt : Form → Prop}

/-- An integer of at most 63 bits with a sign is well-formed. -/
lemma signed_wellFormed (negative : Bool) {n : Nat} (h : n ≤ 9223372036854775807) :
    (Numeral.signed negative n).WellFormedUpTo exempt := by
  cases negative with
  | false => exact .int (by simp; omega) (by simp; omega)
  | true => exact .int (by simp; omega) (by simp)

/-- The values of numerals are integers of at most 63 bits or floating-point numbers. -/
lemma numeral_wellFormed {n : Numeral} {f : Form} (h : n.form = .ok f) :
    f.WellFormedUpTo exempt := by
  have hmax : Numeral.maxInt = 9223372036854775807 := by decide
  have hsafe : Numeral.maxSafeInteger ≤ 9223372036854775807 := by decide
  rw [Numeral.form] at h
  split at h
  · split at h
    · split at h
      · rename_i hv
        cases h
        exact signed_wellFormed _ (hmax ▸ hv.2.2)
      · cases h
    · cases h
  · simp only [Numeral.ratioForm] at h
    split at h
    · cases h
    · split at h
      · rename_i hv
        cases h
        simp only [Bool.and_eq_true, decide_eq_true_eq] at hv
        exact signed_wellFormed _ (Nat.le_trans hv.2 hsafe)
      · cases h
        exact .float _
  · dsimp only at h
    split at h
    · rename_i hv
      cases h
      exact signed_wellFormed _ (hmax ▸ hv)
    · cases h
      exact .float _
  · cases h
    exact .float _

/-- The text of a symbol stands for a symbol or for one of the other words. -/
lemma symbolForm_wellFormed {text : List Char} (h : isNameText text = true) :
    (symbolForm text).WellFormedUpTo exempt := by
  rw [symbolForm]
  split
  · exact .nil
  · exact .bool true
  · exact .bool false
  · rename_i hnil htrue hfalse
    refine .symbol ?_
    simp only [isSymbolText, String.toList_ofList, h, Bool.true_and, Bool.not_eq_true']
    simp only [reservedWords, List.contains_eq_mem, decide_eq_false_iff_not, List.mem_cons,
      List.not_mem_nil, or_false, not_or]
    exact ⟨hnil, htrue, hfalse⟩

/-- The values of proper forms without parts are well-formed. -/
lemma Atom.form_wellFormed {a : Atom} {f : Form} (ha : a.Proper) (h : a.form = .ok f) :
    f.WellFormedUpTo exempt := by
  cases a with
  | number text =>
    simp only [Atom.form, numberForm] at h
    split at h <;> cases h
    rename_i hn
    obtain ⟨n, -, hn⟩ := Option.map_eq_some_iff.mp hn
    exact numeral_wellFormed hn
  | symbolic x =>
    cases h
    exact .float x
  | string raw =>
    simp only [Atom.form] at h
    cases hd : decode raw with
    | error e => simp [hd, Except.map] at h
    | ok cs =>
      simp only [hd, Except.map] at h
      cases h
      exact .str _
  | regex raw =>
    cases h
    exact .regex (by rw [String.toList_ofList]; exact ha)
  | character body =>
    simp only [Atom.form] at h
    cases hc : characterForm body with
    | error e => simp [hc, Except.map] at h
    | ok c =>
      simp only [hc, Except.map] at h
      cases h
      exact .char c
  | keyword text =>
    cases h
    exact .keyword (by rw [String.toList_ofList]; exact ha)
  | symbol text =>
    cases h
    exact symbolForm_wellFormed ha

/-! ### Keys under a qualifier -/

/-- The keys that a qualifier makes of keywords and symbols. -/
def Requalified (key : Form) : Prop :=
  ∃ qualifier text, IsQualifier qualifier ∧ qualifier.head? ≠ some ':' ∧
    ((isKeywordText text = true ∧ text.head? ≠ some ':' ∧
        key = .keyword (String.ofList (qualify qualifier text))) ∨
      (isSymbolText text = true ∧ key = .symbol ⟨String.ofList (qualify qualifier text)⟩))

/-- A key under a qualifier is one of these, or as it was. -/
lemma qualifyKey_wellFormed {qualifier : List Char} (hq : IsQualifier qualifier)
    (hcolon : qualifier.head? ≠ some ':') {key : Form} (h : key.WellFormedUpTo Requalified)
    (hnot : ¬Requalified (qualifyKey qualifier key)) :
    (qualifyKey qualifier key).WellFormedUpTo Requalified := by
  unfold qualifyKey at hnot ⊢
  split at hnot
  · rename_i k
    split at hnot
    · rename_i hk
      rw [if_pos hk]
      exact h
    · rename_i hk
      cases h with
      | keyword htext => exact absurd ⟨qualifier, _, hq, hcolon, .inl ⟨htext, hk, rfl⟩⟩ hnot
  · cases h with
    | symbol htext => exact absurd ⟨qualifier, _, hq, hcolon, .inr ⟨htext, rfl⟩⟩ hnot
  · exact h

/-! ### Values of items -/

/-- The form that an item has to offer is well-formed, up to the keys that a qualifier has
made. -/
def Yield.WellFormed : Yield → Prop
  | .form f => f.WellFormedUpTo Requalified
  | .choice _ branch => ∀ f ∈ branch, f.WellFormedUpTo Requalified
  | .splice _ branch => ∀ f ∈ branch, f.WellFormedUpTo Requalified

/-- A successful computation goes through both of its steps. -/
lemma bind_eq_ok {ε α β : Type} {x : Except ε α} {g : α → Except ε β} {b : β}
    (h : x.bind g = .ok b) : ∃ a, x = .ok a ∧ g a = .ok b := by
  cases x with
  | error e => cases h
  | ok a => exact ⟨a, rfl, h⟩

lemma map_eq_ok {ε α β : Type} {x : Except ε α} {g : α → β} {b : β} (h : x.map g = .ok b) :
    ∃ a, x = .ok a ∧ g a = b := by
  cases x with
  | error e => cases h
  | ok a => exact ⟨a, rfl, Except.ok.inj h⟩

lemma mapError_eq_ok {ε δ α : Type} {x : Except ε α} {g : ε → δ} {a : α}
    (h : x.mapError g = .ok a) : x = .ok a := by
  cases x with
  | error e => cases h
  | ok b => exact congrArg Except.ok (Except.ok.inj h)

lemma asItems_wellFormed {y : Yield} {fs : List Form} (hy : y.WellFormed)
    (h : y.asItems = .ok fs) : ∀ f ∈ fs, f.WellFormedUpTo Requalified := by
  unfold Yield.asItems at h
  split at h <;> cases h
  · rw [List.forall_mem_singleton]
    exact hy
  · exact fun f hf => hy f (Option.mem_toList.mp hf)
  · simp
  · cases hy _ rfl with
    | list h => exact h
  · cases hy _ rfl with
    | vector h => exact h

lemma asForm_wellFormed {y : Yield} {f : Form} (hy : y.WellFormed) (h : y.asForm = .ok f) :
    f.WellFormedUpTo Requalified := by
  unfold Yield.asForm at h
  split at h <;> cases h
  · exact hy
  · exact hy f rfl

/-- The items of a collection contribute well-formed forms when each of them does. -/
lemma forms_wellFormed {ns : List Node}
    (hns : ∀ n ∈ ns, ∀ y, n.yield = .ok y → y.WellFormed) {fs : List Form}
    (h : Node.forms ns = .ok fs) : ∀ f ∈ fs, f.WellFormedUpTo Requalified := by
  induction ns generalizing fs with
  | nil =>
    cases h
    simp
  | cons n ns ih =>
    rw [Node.forms] at h
    obtain ⟨gs, hn, h⟩ := bind_eq_ok h
    obtain ⟨y, hy, hgs⟩ := bind_eq_ok hn
    obtain ⟨hs, hns', rfl⟩ := map_eq_ok h
    rw [List.forall_mem_cons] at hns
    intro f hf
    rcases List.mem_append.mp hf with hf | hf
    · exact asItems_wellFormed (hns.1 y hy) hgs f hf
    · exact ih hns.2 hns' f hf

/-- The elements of pairs are those that were paired up. -/
lemma mem_of_pairUp {α : Type} {xs : List α} {ps : List (α × α)} (h : pairUp xs = some ps) :
    ∀ p ∈ ps, p.1 ∈ xs ∧ p.2 ∈ xs := by
  fun_induction pairUp xs generalizing ps with
  | case1 =>
    cases h
    simp
  | case2 => cases h
  | case3 a b rest ih =>
    obtain ⟨qs, hqs, rfl⟩ := Option.map_eq_some_iff.mp h
    rw [List.forall_mem_cons]
    refine ⟨by simp, fun p hp => ?_⟩
    have := ih hqs p hp
    simp [this]

lemma selectBranch_mem {forms : List Form} {branch : Option Form}
    (h : selectBranch forms = .ok branch) : ∀ f ∈ branch, f ∈ forms := by
  rw [selectBranch] at h
  split at h
  · rename_i clauses hclauses
    have hmem := mem_of_pairUp hclauses
    clear hclauses
    fun_induction firstBranch clauses with
    | case1 =>
      cases h
      simp
    | case2 k f clauses hk =>
      cases h
      rw [List.forall_mem_cons] at hmem
      rintro _ ⟨⟩
      exact hmem.1.2
    | case3 k f clauses hk ih =>
      rw [List.forall_mem_cons] at hmem
      exact ih h hmem.2
    | case4 => cases h
  · cases h

/-- What well-formed forms between two brackets are together. -/
lemma bracket_wellFormed {b : Bracket} {start : Nat} {forms : List Form} {y : Yield}
    (hforms : ∀ f ∈ forms, f.WellFormedUpTo Requalified) (h : b.yield start forms = .ok y) :
    y.WellFormed := by
  cases b with
  | list =>
    cases h
    exact .list hforms
  | vector =>
    cases h
    exact .vector hforms
  | set =>
    cases h
    exact .set hforms
  | anonFn =>
    cases h
    exact .anonFn hforms
  | map =>
    simp only [Bracket.yield] at h
    split at h <;> cases h
    rename_i hentries
    have hmem := mem_of_pairUp hentries
    exact .map (fun e he _ => hforms _ (hmem e he).1) fun e he => hforms _ (hmem e he).2
  | choice =>
    simp only [Bracket.yield] at h
    obtain ⟨branch, hbranch, rfl⟩ := map_eq_ok h
    exact fun f hf => hforms f (selectBranch_mem (mapError_eq_ok hbranch) f hf)
  | splice =>
    simp only [Bracket.yield] at h
    obtain ⟨branch, hbranch, rfl⟩ := map_eq_ok h
    exact fun f hf => hforms f (selectBranch_mem (mapError_eq_ok hbranch) f hf)

lemma wrap_wellFormed {head : String} (hhead : isSymbolText head.toList = true) {f : Form}
    (hf : f.WellFormedUpTo exempt) : (wrap head f).WellFormedUpTo exempt := by
  refine .list ?_
  simp only [List.mem_cons, List.not_mem_nil, or_false]
  rintro g (rfl | rfl)
  · exact .symbol hhead
  · exact hf

lemma mark_wellFormed {s : Sigil} (hs : s.IsMark) {f : Form} (hf : f.WellFormedUpTo exempt) :
    (s.form f).WellFormedUpTo exempt := by
  cases s with
  | tag text => exact .tagged (by rw [String.toList_ofList]; exact hs) hf
  | qualifier text => exact hs.elim
  | _ => exact wrap_wellFormed (by decide) hf

/-- The map behind a qualifier, when its keys and values are well-formed. -/
lemma qualified_wellFormed {text : List Char} (htext : IsQualifier text)
    {entries : List (Form × Form)}
    (hentries : ∀ e ∈ entries, e.1.WellFormedUpTo Requalified ∧ e.2.WellFormedUpTo Requalified) :
    ((Sigil.qualifier text).form (.map entries)).WellFormedUpTo Requalified := by
  simp only [Sigil.form]
  split
  · rename_i hcolon
    obtain ⟨rest, rfl⟩ : ∃ rest, text = ':' :: rest := by
      cases text with
      | nil => cases hcolon
      | cons c rest => exact ⟨rest, by rw [Option.some.inj hcolon]⟩
    refine .resolved String.toList_ofList (fun c hc => htext.2 c (List.mem_cons_of_mem _ hc)) ?_
    exact .map (fun e he _ => (hentries e he).1) fun e he => (hentries e he).2
  · rename_i hcolon
    refine .map ?_ ?_
    · intro e he hnot
      obtain ⟨⟨k, v⟩, hkv, rfl⟩ := List.mem_map.mp he
      exact qualifyKey_wellFormed htext hcolon (hentries _ hkv).1 hnot
    · intro e he
      obtain ⟨⟨k, v⟩, hkv, rfl⟩ := List.mem_map.mp he
      exact (hentries _ hkv).2

lemma single_wellFormed {n : Node} (hn : ∀ y, n.yield = .ok y → y.WellFormed) {f : Form}
    (h : n.single n.yield = .ok f) : f.WellFormedUpTo Requalified := by
  rw [Node.single] at h
  split at h
  · cases h
  · obtain ⟨y, hy, hf⟩ := bind_eq_ok h
    exact asForm_wellFormed (hn y hy) hf

/-- What a proper item has to offer is well-formed, up to the keys that a qualifier has
made. -/
theorem yield_wellFormed {n : Node} (hn : n.Proper) : ∀ y, n.yield = .ok y → y.WellFormed := by
  induction hn with
  | atom start ha =>
    intro y h
    rw [Node.yield] at h
    obtain ⟨f, hf, rfl⟩ := map_eq_ok h
    exact Atom.form_wellFormed ha (mapError_eq_ok hf)
  | bracket start b _ ih =>
    intro y h
    rw [Node.yield] at h
    obtain ⟨forms, hforms, h⟩ := bind_eq_ok h
    exact bracket_wellFormed (forms_wellFormed ih hforms) h
  | mark start hs _ ih =>
    intro y h
    rw [Node.yield] at h
    obtain ⟨f, hf, rfl⟩ := map_eq_ok h
    exact mark_wellFormed hs (single_wellFormed ih hf)
  | qualified start start' htext _ ih =>
    intro y h
    rw [Node.yield] at h
    obtain ⟨f, hf, rfl⟩ := map_eq_ok h
    simp only [Node.single, Node.isSplice, Bool.false_eq_true, if_false, Node.yield] at hf
    obtain ⟨y, hy, hf⟩ := bind_eq_ok hf
    obtain ⟨forms, hforms, hy⟩ := bind_eq_ok hy
    simp only [Bracket.yield] at hy
    split at hy <;> cases hy
    rename_i hentries
    cases hf
    have hall := forms_wellFormed ih hforms
    have hmem := mem_of_pairUp hentries
    exact qualified_wellFormed htext fun e he => ⟨hall _ (hmem e he).1, hall _ (hmem e he).2⟩
  | annotated start _ _ ihm ihn =>
    intro y h
    rw [Node.yield] at h
    obtain ⟨m, hm, h⟩ := bind_eq_ok h
    obtain ⟨f, hf, rfl⟩ := map_eq_ok h
    exact .annotated (single_wellFormed ihm hm) (single_wellFormed ihn hf)

/-! ### Texts -/

lemma topForms_wellFormed {n : Node} (hn : n.Proper) {fs : List Form}
    (h : n.topForms = .ok fs) : ∀ f ∈ fs, f.WellFormedUpTo Requalified := by
  rw [Node.topForms] at h
  split at h
  · cases h
  · obtain ⟨y, hy, hfs⟩ := bind_eq_ok h
    exact asItems_wellFormed (yield_wellFormed hn y hy) hfs

/-- The first form that items contribute is contributed by one of them. -/
lemma firstForm_mem {items : List Item} {f : Form} {start stop : Nat}
    (h : firstForm items = .ok (some (f, start, stop))) :
    ∃ n ∈ nodes items, ∃ fs, n.topForms = .ok fs ∧ f ∈ fs := by
  induction items with
  | nil => cases h
  | cons i items ih =>
    cases i with
    | discarded => exact ih h
    | datum n stop' =>
      rw [firstForm] at h
      obtain ⟨fs, hfs, h⟩ := bind_eq_ok h
      cases fs with
      | nil =>
        obtain ⟨m, hm, gs, hgs, hf⟩ := ih h
        exact ⟨m, List.mem_cons_of_mem n hm, gs, hgs, hf⟩
      | cons g gs =>
        cases h
        exact ⟨n, List.mem_cons_self, _, hfs, List.mem_cons_self⟩

/-- What is found at the start of a text stands in its outline. -/
lemma first_eq_ok {cs : List Char} {f : Form} {start stop : Nat}
    (h : first cs = .ok (f, start, stop)) :
    isBlank Text.isWhite false cs = false ∧
      firstForm (outline cs).items = .ok (some (f, start, stop)) := by
  rw [first] at h
  split at h
  · cases h
  · rename_i hblank
    dsimp only at h
    split at h
    · cases h
    · obtain ⟨found, hfound, h⟩ := bind_eq_ok h
      cases found with
      | none => cases h
      | some found =>
        cases h
        exact ⟨by simpa using hblank, hfound⟩

/-- In a text that does not look empty, what stands first in its outline is found. -/
lemma first_of_firstForm {cs : List Char} {found : Form × Nat × Nat}
    (hblank : isBlank Text.isWhite false cs = false)
    (h : firstForm (outline cs).items = .ok (some found)) : first cs = .ok found := by
  have hne : (outline cs).items.isEmpty = false := by
    cases hitems : (outline cs).items with
    | nil =>
      rw [hitems] at h
      cases h
    | cons i items => rfl
  simp only [first, hblank, Bool.false_eq_true, if_false, hne, h, Except.bind]

/-- What is found at the start of a text is well-formed, up to the keys that a qualifier
has made. -/
lemma first_wellFormed {cs : List Char} {f : Form} {start stop : Nat}
    (h : first cs = .ok (f, start, stop)) : f.WellFormedUpTo Requalified := by
  obtain ⟨n, hn, fs, hfs, hf⟩ := firstForm_mem (first_eq_ok h).2
  obtain ⟨us, hreads⟩ := outline_reads cs
  exact topForms_wellFormed ((reads_proper hreads (lex_proper 0 cs)).1 n hn) hfs f hf

/-- A form is read when it is found at the start of the text. -/
lemma readForm_eq_ok {text : String} {f : Form} :
    readForm text = .ok f ↔ ∃ start stop, first text.toList = .ok (f, start, stop) := by
  constructor
  · intro h
    obtain ⟨⟨g, start, stop⟩, hfirst, rfl⟩ := map_eq_ok (mapError_eq_ok h)
    exact ⟨start, stop, hfirst⟩
  · rintro ⟨start, stop, hfirst⟩
    rw [readForm, hfirst]
    rfl

/-- Every form that is read is well-formed, up to the keys that a qualifier has made. -/
theorem readForm_wellFormed {text : String} {f : Form} (h : readForm text = .ok f) :
    f.WellFormedUpTo Requalified := by
  obtain ⟨start, stop, hfirst⟩ := readForm_eq_ok.mp h
  exact first_wellFormed hfirst

end Reader

end Listener
