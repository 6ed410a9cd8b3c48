/-
Conditionals: the first branch that is taken stands in their place.

* `Contains xs fs`: whatever follows it, the text `xs` has the forms `fs`.
* `Clause`: a keyword and the text of a branch; `Clause.taken?` is the form of the first branch
  that is taken.
* `yield_choice`, `yield_splice`: what a conditional with such clauses has to offer.
* `ReadsVector`: how a vector is read; `readsVector_choice`, `readsVector_splice`: one with a
  conditional between two other texts.
* `read_conditional`: conditionals of both kinds in a vector, and outside of all brackets.
-/
import Listener.Proofs.Reader.SelfContained

namespace Listener

namespace Reader

/-! ### Forms whatever follows -/

/-- Wherever it stands and whatever follows it, the text has these forms. -/
def Contains (xs : List Char) (fs : List Form) : Prop :=
  SelfContained xs fun _ items => itemForms items = .ok fs

lemma contains_gap {xs : List Char} (h : ∀ c ∈ xs, isGap c = true) : Contains xs [] := by
  refine (selfContained_gap h).imp ?_
  rintro _ _ rfl
  rfl

/-- A keyword with a blank behind it has the form of the keyword. -/
lemma contains_keyword {k : String} (h : isKeywordText k.toList = true) :
    Contains (':' :: k.toList ++ [' ']) [.keyword k] := by
  intro rest pos
  have hgap : ∀ c ∈ [' '], isGap c = true := List.forall_mem_singleton.mpr rfl
  have hword : Delimited ([' '] ++ rest) := delimited_cons rfl
  refine ⟨_, _, (cuts_keyword h hword pos).append (cuts_gap hgap rest _),
    fun us => .atom rfl (.nil us), ?_⟩
  simp [itemForms, Item.forms, Node.topForms, Node.isSplice, Node.yield, Atom.form, Yield.asItems,
    Except.map, Except.mapError, Except.bind]

lemma Contains.append {xs ys : List Char} {fs gs : List Form} (h : Contains xs fs)
    (h' : Contains ys gs) : Contains (xs ++ ys) (fs ++ gs) := by
  refine (SelfContained.append h h').imp ?_
  rintro _ _ ⟨is, js, rfl, his, hjs⟩
  exact itemForms_append his hjs

/-! ### Clauses -/

/-- A clause of a conditional: a keyword, and the text of a branch with its only form. -/
structure Clause where
  /-- The text of the keyword, without its first colon. -/
  keyword : String
  /-- The text of the branch. -/
  branch : String
  /-- The form of the branch. -/
  form : Form
  /-- The grammar has the keyword. -/
  isKeyword : isKeywordText keyword.toList = true
  /-- The text of the branch has this form and no other. -/
  reads : readAll branch = .ok [form]

namespace Clause

/-- The text of a clause, with a line end behind it. -/
def text (c : Clause) : String :=
  ":" ++ c.keyword ++ " " ++ c.branch ++ "\n"

/-- The text of clauses. -/
def texts : List Clause → String
  | [] => ""
  | c :: cs => c.text ++ texts cs

/-- Whether the branch is taken. -/
def isTaken (c : Clause) : Bool :=
  c.keyword == "cljs" || c.keyword == "default"

/-- The form of the first branch that is taken. -/
def taken? (cs : List Clause) : Option Form :=
  (cs.find? isTaken).map form

/-- The keywords and the forms of clauses. -/
def entries (cs : List Clause) : List (Form × Form) :=
  cs.map fun c => (.keyword c.keyword, c.form)

lemma contains_text (c : Clause) : Contains c.text.toList [.keyword c.keyword, c.form] := by
  have htext : c.text.toList = ':' :: c.keyword.toList ++ [' '] ++ (c.branch.toList ++ ['\n']) := by
    simp [text]
  rw [htext]
  exact (contains_keyword c.isKeyword).append (selfContained_line (mapError_eq_ok c.reads))

/-- Clauses have their keywords and their forms, in turn. -/
lemma contains_texts (cs : List Clause) : Contains (texts cs).toList (flatten (entries cs)) := by
  induction cs with
  | nil => exact contains_gap (List.forall_mem_nil _)
  | cons c cs ih =>
    have htext : (texts (c :: cs)).toList = c.text.toList ++ (texts cs).toList := by simp [texts]
    rw [htext]
    exact c.contains_text.append ih

lemma isTaken_iff (c : Clause) : c.isTaken = true ↔ c.keyword ∈ features := by
  simp [isTaken, features]

/-- Of clauses the first one that is taken is selected. -/
lemma selectBranch_entries (cs : List Clause) :
    selectBranch (flatten (entries cs)) = .ok (taken? cs) := by
  rw [selectBranch, pairUp_flatten]
  induction cs with
  | nil => rfl
  | cons c cs ih =>
    simp only [entries, List.map_cons, firstBranch, taken?, List.find?_cons]
    cases hc : c.isTaken with
    | true =>
      rw [if_pos (c.isTaken_iff.mp hc)]
      rfl
    | false =>
      rw [if_neg fun h => by simp [c.isTaken_iff.mpr h] at hc]
      exact ih

end Clause

/-! ### Conditionals -/

section

variable {inner : List Item} {cs : List Clause}

/-- A conditional offers the form of the first branch that is taken. -/
theorem yield_choice (h : itemForms inner = .ok (flatten (Clause.entries cs))) (pos : Nat) :
    (Node.bracket pos .choice (nodes inner)).yield = .ok (.choice pos (Clause.taken? cs)) := by
  rw [Node.yield, nodeForms_of_itemForms h, Except.bind, Bracket.yield,
    Clause.selectBranch_entries]
  rfl

/-- A conditional for several forms offers the form of the first branch that is taken. -/
theorem yield_splice (h : itemForms inner = .ok (flatten (Clause.entries cs))) (pos : Nat) :
    (Node.bracket pos .splice (nodes inner)).yield = .ok (.splice pos (Clause.taken? cs)) := by
  rw [Node.yield, nodeForms_of_itemForms h, Except.bind, Bracket.yield,
    Clause.selectBranch_entries]
  rfl

end

/-! ### Vectors -/

/-- Items one behind the other contribute their forms in this order, if the first ones contribute
any. -/
lemma nodeForms_append {ms : List Node} {fs : List Form} (h : Node.forms ms = .ok fs)
    (ns : List Node) : Node.forms (ms ++ ns) = (Node.forms ns).map (fs ++ ·) := by
  induction ms generalizing fs with
  | nil =>
    cases h
    cases hns : Node.forms ns <;> simp [hns, Except.map]
  | cons m ms ih =>
    rw [Node.forms] at h
    obtain ⟨gs, hm, h⟩ := bind_eq_ok h
    obtain ⟨hs, hms, rfl⟩ := map_eq_ok h
    rw [List.cons_append, Node.forms, hm, ih hms]
    cases Node.forms ns <;> simp [Except.bind, Except.map]

/-- Around an item between brackets stand the forms of the items in front of it and behind it. -/
lemma nodeForms_around {is js : List Item} {n : Node} {stop : Nat} {ps qs : List Form}
    (his : itemForms is = .ok ps) (hjs : itemForms js = .ok qs) :
    Node.forms (nodes (is ++ ([.datum n stop] ++ js))) =
      (n.yield.bind Yield.asItems).map fun fs => ps ++ fs ++ qs := by
  have hnodes : nodes (is ++ ([.datum n stop] ++ js)) = nodes is ++ n :: nodes js := by
    rw [nodes, List.filterMap_append]
    rfl
  rw [hnodes, nodeForms_append (nodeForms_of_itemForms his), Node.forms, nodeForms_of_itemForms hjs]
  cases n.yield.bind Yield.asItems <;> simp [Except.bind, Except.map]

/-- Both readers find the vector of some forms in the text, and no more than that, or else what
keeps these forms from being read. -/
structure ReadsVector (cs : List Char) (contents : Except ReadError (List Form)) : Prop where
  /-- It is the only form. -/
  all : forms cs = contents.map fun fs => [.vector fs]
  /-- It is the first form. -/
  first : (first cs).map (·.1) = contents.map .vector

/-- Between the brackets of a vector a self-contained text is read as its items. -/
lemma readsVector_of_selfContained {xs : List Char} {P : Nat → List Item → Prop}
    (h : SelfContained xs P) :
    ∃ items, P 1 items ∧ ReadsVector ('[' :: (xs ++ [']'])) (Node.forms (nodes items)) := by
  obtain ⟨_, houtline, items, stop, rfl, hitems⟩ := (h.bracket .vector).outline_eq
  have htop : (Node.bracket 0 .vector (nodes items)).topForms =
      (Node.forms (nodes items)).map fun fs => [.vector fs] := by
    have hsplice : (Node.bracket 0 .vector (nodes items)).isSplice = false := rfl
    rw [Node.topForms, hsplice, Node.yield]
    cases Node.forms (nodes items) <;> rfl
  have hblank : isBlank Text.isWhite false ('[' :: (xs ++ [']'])) = false :=
    isBlank_opening .vector _
  change outline ('[' :: (xs ++ [']'])) = _ at houtline
  refine ⟨items, hitems, ?_, ?_⟩
  · simp only [forms, houtline, itemForms, Item.forms, htop]
    cases Node.forms (nodes items) <;> rfl
  · simp only [Reader.first, hblank, houtline, firstForm, htop]
    cases Node.forms (nodes items) <;> rfl

namespace ReadsVector

variable {text : String} {contents : Except ReadError (List Form)}

lemma readsAs {fs : List Form} (h : ReadsVector text.toList contents) (hfs : contents = .ok fs) :
    ReadsAs text (.vector fs) := by
  subst hfs
  exact ⟨by rw [readForm, h.first]; rfl, by rw [readAll, h.all]; rfl⟩

/-- A vector one of whose forms cannot be read is refused for that one. -/
lemma refused {e : ReadError} (h : ReadsVector text.toList contents) (he : contents = .error e) :
    Refused text (e.toError text.toList) := by
  subst he
  have hfirst := h.first
  refine refused_of_error ?_ h.all
  cases hfound : Reader.first text.toList with
  | error e' =>
    rw [hfound] at hfirst
    exact congrArg _ (Except.error.inj hfirst)
  | ok found =>
    rw [hfound] at hfirst
    cases hfirst

end ReadsVector

/-! ### Conditionals between other texts -/

/-- The text of a conditional. -/
def conditional (b : Bracket) (cs : List Clause) : List Char :=
  b.opening ++ ((Clause.texts cs).toList ++ [b.closer.text])

/-- A conditional is read as one form, with the keywords and forms of its clauses in it. -/
lemma selfContained_conditional (b : Bracket) (cs : List Clause) :
    SelfContained (conditional b cs) fun pos items => ∃ inner stop,
      items = [.datum (.bracket pos b (nodes inner)) stop] ∧
        itemForms inner = .ok (flatten (Clause.entries cs)) :=
  (Clause.contains_texts cs).bracket b

/-- A text between two others, with line ends around them. -/
def between (front xs behind : List Char) : List Char :=
  front ++ ['\n'] ++ (xs ++ (['\n'] ++ (behind ++ ['\n'])))

/-- In a vector with a conditional between two texts, both readers find the forms of the text in
front, what the conditional contributes, and the forms of the text behind. -/
lemma readsVector_between {front behind : List Char} {ps qs : List Form}
    (hfront : forms front = .ok ps) (hbehind : forms behind = .ok qs) (b : Bracket)
    (cs : List Clause) :
    ∃ inner, itemForms inner = .ok (flatten (Clause.entries cs)) ∧
      ReadsVector ('[' :: (between front (conditional b cs) behind ++ [']']))
        (((Node.bracket (front.length + 2) b (nodes inner)).yield.bind Yield.asItems).map
          fun fs => ps ++ fs ++ qs) := by
  have hgap : ∀ c ∈ ['\n'], isGap c = true := List.forall_mem_singleton.mpr rfl
  have hlast : Contains (['\n'] ++ (behind ++ ['\n'])) qs :=
    (contains_gap hgap).append (selfContained_line hbehind)
  obtain ⟨items, hitems, hvector⟩ := readsVector_of_selfContained
    ((selfContained_line hfront).append ((selfContained_conditional b cs).append hlast))
  obtain ⟨is, _, rfl, his, _, js, rfl, ⟨inner, stop, rfl, hinner⟩, hjs⟩ := hitems
  have hplace : 1 + (front ++ ['\n']).length = front.length + 2 := by
    rw [List.length_append, List.length_singleton]
    omega
  rw [hplace, nodeForms_around his hjs] at hvector
  exact ⟨inner, hinner, hvector⟩

/-- Between two texts in a vector, a conditional stands for the form of the first branch that is
taken. -/
theorem readsVector_choice {front behind : List Char} {ps qs : List Form}
    (hfront : forms front = .ok ps) (hbehind : forms behind = .ok qs) (cs : List Clause) :
    ReadsVector ('[' :: (between front (conditional .choice cs) behind ++ [']']))
      (.ok (ps ++ (Clause.taken? cs).toList ++ qs)) := by
  obtain ⟨inner, hinner, hvector⟩ := readsVector_between hfront hbehind .choice cs
  rw [yield_choice hinner] at hvector
  exact hvector

/-- Between two texts in a vector, a conditional for several forms stands for the elements of that
form, if it has elements. -/
theorem readsVector_splice {front behind : List Char} {ps qs : List Form}
    (hfront : forms front = .ok ps) (hbehind : forms behind = .ok qs) (cs : List Clause) :
    ReadsVector ('[' :: (between front (conditional .splice cs) behind ++ [']']))
      ((Yield.splice (front.length + 2) (Clause.taken? cs)).asItems.map
        fun fs => ps ++ fs ++ qs) := by
  obtain ⟨inner, hinner, hvector⟩ := readsVector_between hfront hbehind .splice cs
  rw [yield_splice hinner] at hvector
  exact hvector

/-- Between brackets a conditional for several forms contributes nothing that is neither a list nor
a vector. -/
lemma asItems_splice {f : Form} (hf : ∀ items, f ≠ .list items ∧ f ≠ .vector items) (pos : Nat) :
    (Yield.splice pos (some f)).asItems = .error ⟨.spliceShape, pos⟩ := by
  cases f with
  | list items => exact absurd rfl (hf items).1
  | vector items => exact absurd rfl (hf items).2
  | _ => rfl

/-! ### Conditionals outside of all brackets -/

/-- Outside of all brackets a conditional for several forms is refused, wherever it stands. -/
lemma itemForms_splice {is : List Item} {ps : List Form} (his : itemForms is = .ok ps)
    (pos : Nat) (ns : List Node) (stop : Nat) (js : List Item) :
    itemForms (is ++ [.datum (.bracket pos .splice ns) stop] ++ js) =
      .error ⟨.spliceAtTop, pos⟩ := by
  induction is generalizing ps with
  | nil => rfl
  | cons i is ih =>
    rw [itemForms] at his
    obtain ⟨fs, hi, h⟩ := bind_eq_ok his
    obtain ⟨gs, his, -⟩ := map_eq_ok h
    rw [List.cons_append, List.cons_append, itemForms, hi, ih his]
    rfl

/-- Whatever stands behind it, a conditional for several forms keeps the forms of a text from being
read outside of all brackets. -/
lemma forms_splice {front : List Char} {ps : List Form} (hfront : Contains front ps)
    (cs : List Clause) (rest : List Char) :
    ∃ e, forms (front ++ conditional .splice cs ++ rest) = .error e := by
  obtain ⟨_, ⟨js, hjs⟩, is, _, rfl, his, inner, stop, rfl, -⟩ :=
    (SelfContained.append hfront (selfContained_conditional .splice cs)).items_first rest
  simp only [forms]
  split
  · rw [← hjs]
    exact ⟨_, itemForms_splice his _ _ _ _⟩
  · exact ⟨_, rfl⟩

/-- On its own, a conditional for several forms is refused at its start. -/
lemma refused_splice (cs : List Clause) {text : String}
    (htext : text.toList = conditional .splice cs) :
    Refused text
      (.reader "Reader conditional splicing not allowed at the top level." text (some 0)) := by
  obtain ⟨_, houtline, inner, stop, rfl, -⟩ := (selfContained_conditional .splice cs).outline_eq
  have hblank : isBlank Text.isWhite false (conditional .splice cs) = false :=
    isBlank_opening .splice _
  have hfirst : first text.toList = .error ⟨.spliceAtTop, 0⟩ := by
    simp only [first, htext, hblank, houtline]
    rfl
  have hforms : forms text.toList = .error ⟨.spliceAtTop, 0⟩ := by
    simp only [forms, htext, houtline]
    rfl
  have hrefused := refused_of_error hfirst hforms
  rw [ReadError.toError, String.ofList_toList] at hrefused
  exact hrefused

end Reader

open Reader

/-- A conditional stands for the form of the first branch that is taken, `:cljs` or `:default`,
whatever the branches and the texts around it are, and for nothing if no branch is taken. A
conditional for several forms stands for the elements of that form if it is a list or a vector, and
is refused if it is anything else; outside of all brackets it is always refused. -/
theorem read_conditional {pre post : String} {ps qs : List Form} (hpre : readAll pre = .ok ps)
    (hpost : readAll post = .ok qs) (clauses : List Clause) :
    let body := Clause.texts clauses
    let choice := "[" ++ pre ++ "\n#?(" ++ body ++ ")\n" ++ post ++ "\n]"
    let splice := "[" ++ pre ++ "\n#?@(" ++ body ++ ")\n" ++ post ++ "\n]"
    let taken := Clause.taken? clauses
    ReadsAs choice (.vector (ps ++ taken.toList ++ qs)) ∧
      (taken = none → ReadsAs splice (.vector (ps ++ qs))) ∧
      (∀ items, taken = some (.list items) ∨ taken = some (.vector items) →
        ReadsAs splice (.vector (ps ++ items ++ qs))) ∧
      (∀ f, taken = some f → (∀ items, f ≠ .list items ∧ f ≠ .vector items) →
        Refused splice (.reader
          "Spliced form list in read-cond-splicing must implement ISequential" splice
          (some (Text.byteLength ("[" ++ pre ++ "\n").toList)))) ∧
      Refused ("#?@(" ++ body ++ ")") (.reader
        "Reader conditional splicing not allowed at the top level." ("#?@(" ++ body ++ ")")
        (some 0)) ∧
      ∀ rest, ∃ e, readAll (pre ++ "\n#?@(" ++ body ++ ")" ++ rest) = .error e := by
  intro body choice splice taken
  have hfront := mapError_eq_ok hpre
  have hbehind := mapError_eq_ok hpost
  have hchoice : ReadsVector choice.toList (.ok (ps ++ taken.toList ++ qs)) := by
    have hvector := readsVector_choice hfront hbehind clauses
    simpa [choice, body, between, conditional, Bracket.opening, Bracket.closer, Closer.text]
      using hvector
  have hsplice : ReadsVector splice.toList
      ((Yield.splice (pre.toList.length + 2) taken).asItems.map fun fs => ps ++ fs ++ qs) := by
    have hvector := readsVector_splice hfront hbehind clauses
    simpa [splice, body, between, conditional, Bracket.opening, Bracket.closer, Closer.text]
      using hvector
  -- from here on it does not matter how the branch was found
  clear_value taken
  refine ⟨hchoice.readsAs rfl, ?_, ?_, ?_, ?_, fun rest => ?_⟩
  · rintro rfl
    have hreads : ReadsAs splice (.vector (ps ++ [] ++ qs)) := hsplice.readsAs rfl
    rwa [List.append_nil] at hreads
  · rintro items (rfl | rfl)
    · exact hsplice.readsAs rfl
    · exact hsplice.readsAs rfl
  · rintro f rfl hf
    rw [asItems_splice hf] at hsplice
    have hrefused := hsplice.refused rfl
    -- the conditional is refused where it begins
    have hplace : offsetAt splice.toList (pre.toList.length + 2) =
        Text.byteLength ("[" ++ pre ++ "\n").toList := by
      have hsplit : splice.toList = ("[" ++ pre ++ "\n").toList ++
          ("#?@(" ++ body ++ ")\n" ++ post ++ "\n]").toList := by
        simp [splice]
      rw [offsetAt, hsplit, List.take_left' (by simp)]
    rw [ReadError.toError, String.ofList_toList, hplace] at hrefused
    exact hrefused
  · refine refused_splice clauses ?_
    simp [body, conditional, Bracket.opening, Bracket.closer, Closer.text]
  · obtain ⟨e, he⟩ := forms_splice (selfContained_line hfront) clauses rest.toList
    have htext : (pre ++ "\n#?@(" ++ body ++ ")" ++ rest).toList =
        pre.toList ++ ['\n'] ++ conditional .splice clauses ++ rest.toList := by
      simp [body, conditional, Bracket.opening, Bracket.closer, Closer.text]
    exact ⟨_, by rw [readAll, htext, he]; rfl⟩

/-- Behind a branch that is not taken, with a conditional in it that stands for nothing, `:default`
is taken before `:cljs`. Its form is a vector, so that the text can be read with conditionals of
both kinds. -/
theorem read_conditional_default :
    ReadsAs "[a ; (\n#?(:clj #?(:clj x) y\n:default #_x [b]\n:cljs c\n)\n#_d\n]"
        (.vector [.ofName "a", .vector [.ofName "b"]]) ∧
      ReadsAs "[a ; (\n#?@(:clj #?(:clj x) y\n:default #_x [b]\n:cljs c\n)\n#_d\n]"
        (.vector [.ofName "a", .ofName "b"]) := by
  have hpre : readAll "a ; (" = .ok [.ofName "a"] := by cbv
  have hpost : readAll "#_d" = .ok [] := by cbv
  have hpassed : readAll "#?(:clj x) y" = .ok [.ofName "y"] := by cbv
  have htaken : readAll "#_x [b]" = .ok [.vector [.ofName "b"]] := by cbv
  have hlast : readAll "c" = .ok [.ofName "c"] := by cbv
  obtain ⟨hchoice, -, hsplice, -⟩ := read_conditional hpre hpost
    [⟨"clj", "#?(:clj x) y", _, by decide, hpassed⟩,
      ⟨"default", "#_x [b]", _, by decide, htaken⟩, ⟨"cljs", "c", _, by decide, hlast⟩]
  exact ⟨hchoice, hsplice [.ofName "b"] (.inr rfl)⟩

end Listener
