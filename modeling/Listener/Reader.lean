/-
Reading texts of forms.

* `readForm`: the first form of a text, whatever follows it.
* `readText`: the text of the first form, exactly as it stands; it fails when
  and as `readForm` fails (`readText_error_iff`).
* `readAll`: all forms of a text.
-/
import Listener.Error
import Listener.Reader.Yield

namespace Listener

namespace Reader

/-- The error that a caller sees: it holds the text and counts bytes. -/
def ReadError.toError (cs : List Char) (e : ReadError) : Error :=
  let offset := offsetAt cs e.position
  .reader (e.fault.message offset) (String.ofList cs) (some offset)

/-- All forms of a text. -/
def forms (cs : List Char) : Except ReadError (List Form) :=
  let o := outline cs
  if o.complete then itemForms o.items else .error (refusal cs o.stop)

/-- The first form of a text and the places where its item starts and ends. The
text need not be readable past the items in front of it. -/
def first (cs : List Char) : Except ReadError (Form × Nat × Nat) :=
  if isBlank Text.isWhite false cs then .error ⟨.endOfText, cs.length⟩
  else
    let o := outline cs
    if o.items.isEmpty then .error (refusal cs o.stop)
    else (firstForm o.items).bind fun
      | some found => .ok found
      | none => .error ⟨.endOfText, cs.length⟩

end Reader

/-- The first form of a text. -/
def readForm (text : String) : Except Error Form :=
  ((Reader.first text.toList).map (·.1)).mapError (·.toError text.toList)

/-- The text of the first form of a text, exactly as it stands. -/
def readText (text : String) : Except Error String :=
  ((Reader.first text.toList).map fun (_, start, stop) =>
    String.ofList ((text.toList.take stop).drop start)).mapError (·.toError text.toList)

/-- All forms of a text. -/
def readAll (text : String) : Except Error (List Form) :=
  (Reader.forms text.toList).mapError (·.toError text.toList)

/-- The text of the first form fails to be found just as the form itself does. -/
theorem readText_error_iff (text : String) (e : Error) :
    readText text = .error e ↔ readForm text = .error e := by
  simp only [readText, readForm]
  cases Reader.first text.toList with
  | error _ =>
    constructor <;> intro h <;> cases h <;> rfl
  | ok _ => exact ⟨nofun, nofun⟩

end Listener
