/-
From outlines to forms.

* `Yield`: what an item has to offer: a form, the branch of a conditional, or
  the branch of a conditional for several forms. How it is taken depends on
  where the item stands: `Yield.asForm` where one form is needed,
  `Yield.asItems` among the forms of a collection.
* `Node.yield`: the value of an item; the items of a collection are read in
  order and the first error wins.
* `qualifyKeys`: the keys of a map that is written with a qualifier.
-/
import Listener.Reader.Literal
import Listener.Reader.Outline

namespace Listener

namespace Reader

/-- What an item has to offer. -/
inductive Yield where
  | form (f : Form)
  /-- The branch that the conditional at `start` selects, if any. -/
  | choice (start : Nat) (branch : Option Form)
  /-- The branch that the conditional for several forms at `start` selects, if any. -/
  | splice (start : Nat) (branch : Option Form)

namespace Yield

/-- The one form that an item is where one is needed. -/
def asForm : Yield → Except ReadError Form
  | .form f => .ok f
  | .choice _ (some f) => .ok f
  | .choice start none => .error ⟨.noBranch, start⟩
  | .splice start _ => .error ⟨.spliceHere, start⟩

/-- The forms that an item contributes to a collection. -/
def asItems : Yield → Except ReadError (List Form)
  | .form f => .ok [f]
  | .choice _ branch => .ok branch.toList
  | .splice _ none => .ok []
  | .splice _ (some (.list items)) => .ok items
  | .splice _ (some (.vector items)) => .ok items
  | .splice start (some _) => .error ⟨.spliceShape, start⟩

end Yield

/-! ### Conditionals and maps -/

/-- The keywords of the branches that are taken. -/
def features : List String := ["cljs", "default"]

/-- The elements two by two, if their number is even. -/
def pairUp {α : Type} : List α → Option (List (α × α))
  | [] => some []
  | [_] => none
  | a :: b :: rest => (pairUp rest).map ((a, b) :: ·)

/-- The form after the first feature that is taken. Up to there every feature
must be a keyword. -/
def firstBranch : List (Form × Form) → Except Fault (Option Form)
  | [] => .ok none
  | (.keyword k, branch) :: clauses =>
    if k ∈ features then .ok (some branch) else firstBranch clauses
  | _ :: _ => .error .featureNotKeyword

/-- The branch that the clauses of a conditional select. -/
def selectBranch (clauses : List Form) : Except Fault (Option Form) :=
  match pairUp clauses with
  | some clauses => firstBranch clauses
  | none => .error .oddChoice

/-- What the forms between two brackets are together. -/
def Bracket.yield (b : Bracket) (start : Nat) (forms : List Form) : Except ReadError Yield :=
  match b with
  | .list => .ok (.form (.list forms))
  | .vector => .ok (.form (.vector forms))
  | .set => .ok (.form (.set forms))
  | .anonFn => .ok (.form (.anonFn forms))
  | .map =>
    match pairUp forms with
    | some entries => .ok (.form (.map entries))
    | none => .error ⟨.oddMap, start⟩
  | .choice => ((selectBranch forms).mapError (⟨·, start⟩)).map (.choice start)
  | .splice => ((selectBranch forms).mapError (⟨·, start⟩)).map (.splice start)

/-! ### Marks in front of a form -/

/-- The text of a key under a qualifier. An underscore as the key's own
qualifier keeps the key bare. -/
def qualify (qualifier text : List Char) : List Char :=
  match Text.splitFirst '/' text with
  | some (['_'], bare) => bare
  | some _ => text
  | none => qualifier ++ '/' :: text

/-- A key under a qualifier. An auto-resolved keyword is left alone, and so is
every key that is neither keyword nor symbol. -/
def qualifyKey (qualifier : List Char) : Form → Form
  | .keyword k =>
    if k.toList.head? = some ':' then .keyword k
    else .keyword (String.ofList (qualify qualifier k.toList))
  | .symbol s => .symbol ⟨String.ofList (qualify qualifier s.text.toList)⟩
  | key => key

/-- A map with its keys under a qualifier. -/
def qualifyKeys (qualifier : List Char) : Form → Form
  | .map entries => .map (entries.map fun (k, v) => (qualifyKey qualifier k, v))
  | form => form

/-- A list of a symbol and a form. -/
def wrap (head : String) (f : Form) : Form :=
  .list [.ofName head, f]

/-- The form of a mark and the form behind it. An auto-resolved qualifier is
kept as a tag, since only a namespace can resolve it. -/
def Sigil.form (s : Sigil) (f : Form) : Form :=
  match s with
  | .quote => wrap "quote" f
  | .syntaxQuote => wrap "syntax-quote" f
  | .unquote => wrap "clojure.core/unquote" f
  | .unquoteSplicing => wrap "clojure.core/unquote-splicing" f
  | .deref => wrap "deref" f
  | .var => wrap "var" f
  | .tag text => .tagged (String.ofList text) f
  | .qualifier text =>
    if text.head? = some ':' then .tagged (String.ofList (':' :: text)) f
    else qualifyKeys text f

/-! ### Items -/

/-- Whether an item is a conditional for several forms. -/
def Node.isSplice : Node → Bool
  | .bracket _ .splice _ => true
  | _ => false

/-- The one form of an item where one is needed. A conditional for several
forms is refused unread. -/
def Node.single (n : Node) (y : Except ReadError Yield) : Except ReadError Form :=
  if n.isSplice then .error ⟨.spliceHere, n.start⟩ else y.bind Yield.asForm

mutual

/-- What an item has to offer. -/
def Node.yield : Node → Except ReadError Yield
  | .atom start a => (a.form.mapError (⟨·, start⟩)).map .form
  | .bracket start b items => (Node.forms items).bind (b.yield start)
  | .sigil _ s inner => (inner.single inner.yield).map fun f => .form (s.form f)
  | .annotated _ metadata target =>
    (metadata.single metadata.yield).bind fun m =>
      (target.single target.yield).map fun t => .form (.annotated m t)

/-- The forms that items contribute to a collection. -/
def Node.forms : List Node → Except ReadError (List Form)
  | [] => .ok []
  | n :: ns => (n.yield.bind Yield.asItems).bind fun fs => (Node.forms ns).map (fs ++ ·)

end

/-- The forms that an item contributes outside of all brackets. A conditional
for several forms is refused there. -/
def Node.topForms (n : Node) : Except ReadError (List Form) :=
  if n.isSplice then .error ⟨.spliceAtTop, n.start⟩ else n.yield.bind Yield.asItems

/-- The forms that an item of a text contributes. -/
def Item.forms : Item → Except ReadError (List Form)
  | .datum n _ => n.topForms
  | .discarded => .ok []

/-- The forms of all items, or the first error. -/
def itemForms : List Item → Except ReadError (List Form)
  | [] => .ok []
  | item :: items => item.forms.bind fun fs => (itemForms items).map (fs ++ ·)

/-- The first form that items contribute, with the places where its item starts
and ends. -/
def firstForm : List Item → Except ReadError (Option (Form × Nat × Nat))
  | [] => .ok none
  | .discarded :: items => firstForm items
  | .datum n stop :: items =>
    n.topForms.bind fun
      | f :: _ => .ok (some (f, n.start, stop))
      | [] => firstForm items

end Reader

end Listener
