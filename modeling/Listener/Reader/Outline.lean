/-
The outline of a text: how its tokens nest, before any of them is given a value.

* `Node`: a form in outline, with the place where it starts.
* `State.push`: the effect of one token; a form that is complete goes to the
  frame that waits for it, and a discarded form goes nowhere.
* `outline`: the items of a text that are complete, and whether the text ends
  after them. `run_append` lets the tokens be taken in two parts.
-/
import Listener.Reader.Token

namespace Listener

namespace Reader

/-- A form in outline. -/
inductive Node where
  /-- A form without parts. -/
  | atom (start : Nat) (a : Atom)
  /-- The forms between two brackets. -/
  | bracket (start : Nat) (b : Bracket) (items : List Node)
  /-- A form with a mark in front. -/
  | sigil (start : Nat) (s : Sigil) (inner : Node)
  /-- A form with its metadata. -/
  | annotated (start : Nat) (metadata target : Node)

/-- The number of characters before a form. -/
def Node.start : Node → Nat
  | .atom start _ => start
  | .bracket start _ _ => start
  | .sigil start _ _ => start
  | .annotated start _ _ => start

/-- What has begun and waits for its end. -/
inductive Frame where
  /-- A bracket with the forms since. -/
  | bracket (start : Nat) (b : Bracket) (items : List Node)
  /-- A mark that waits for its form. -/
  | sigil (start : Nat) (s : Sigil)
  /-- `^`, waiting for the metadata. -/
  | metadata (start : Nat)
  /-- Metadata that waits for the form that carries it. -/
  | target (start : Nat) (metadata : Node)
  /-- `#_`, waiting for the form to leave out. -/
  | discard

/-- An item of a text: a form with the place where it ends, or one left out. -/
inductive Item where
  /-- A form. -/
  | datum (node : Node) (stop : Nat)
  /-- A form that is left out. -/
  | discarded

/-- The items that are complete and the frames that are open, innermost first. -/
structure State where
  /-- What has begun. -/
  frames : List Frame
  /-- What is complete. -/
  items : List Item

namespace State

/-- Nothing has begun and nothing is complete. -/
def start : State := ⟨[], []⟩

/-- A form was left out. Only outside of all frames does this leave a trace. -/
def leaveOut : List Frame → List Item → State
  | [], items => ⟨[], items ++ [.discarded]⟩
  | frames, items => ⟨frames, items⟩

/-- A form is complete that ends at `stop`. -/
def place (n : Node) (stop : Nat) : List Frame → List Item → State
  | [], items => ⟨[], items ++ [.datum n stop]⟩
  | .bracket start b nodes :: frames, items => ⟨.bracket start b (nodes ++ [n]) :: frames, items⟩
  | .sigil start s :: frames, items => place (.sigil start s n) stop frames items
  | .metadata start :: frames, items => ⟨.target start n :: frames, items⟩
  | .target start m :: frames, items => place (.annotated start m n) stop frames items
  | .discard :: frames, items => leaveOut frames items

/-- The state after one more token. A closing is refused unless it belongs to
the innermost frame. -/
def push (st : State) (t : Token) : Option State :=
  match t.lexeme with
  | .opener b => some ⟨.bracket t.start b [] :: st.frames, st.items⟩
  | .sigil s => some ⟨.sigil t.start s :: st.frames, st.items⟩
  | .metadata => some ⟨.metadata t.start :: st.frames, st.items⟩
  | .discard => some ⟨.discard :: st.frames, st.items⟩
  | .atom a => some (place (.atom t.start a) t.stop st.frames st.items)
  | .closer c =>
    match st.frames with
    | .bracket start b nodes :: frames =>
      if b.closer = c then some (place (.bracket start b nodes) t.stop frames st.items) else none
    | _ => none

/-- The state after all tokens, or the state before the first refused one and
where that one starts. -/
def run (st : State) : List Token → State × Option Nat
  | [] => (st, none)
  | t :: ts =>
    match st.push t with
    | some st' => st'.run ts
    | none => (st, some t.start)

/-- Tokens may be taken in two parts. -/
theorem run_append {st st' : State} {ts : List Token} (h : st.run ts = (st', none))
    (us : List Token) : st.run (ts ++ us) = st'.run us := by
  induction ts generalizing st with
  | nil =>
    cases h
    rfl
  | cons t ts ih =>
    simp only [run, List.cons_append] at h ⊢
    split at h
    · rename_i st₁ hp
      exact ih h
    · simp at h

end State

/-- The outline of a text. -/
structure Outline where
  /-- The items that are complete, in order. -/
  items : List Item
  /-- Where the text ends, or where no item could be continued. -/
  stop : Nat
  /-- Whether the items make up the whole text. -/
  complete : Bool

/-- The outline of a text. -/
def outline (cs : List Char) : Outline :=
  let lexed := lex 0 cs
  match State.start.run lexed.tokens with
  | (st, some refused) => ⟨st.items, refused, false⟩
  | (st, none) => ⟨st.items, lexed.stop, lexed.complete && st.frames.isEmpty⟩

end Reader

end Listener
