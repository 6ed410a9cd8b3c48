/-
Warnings of the compiler.

* `Warning.render`: the text of a warning with as much of its place as is known.
* `WarningSlot`: keeps the text of the latest warning of a request until it is
  taken.
-/
namespace Listener

/-- A warning of the compiler. -/
structure Warning where
  /-- The kind of the warning. -/
  kind : String
  /-- What it says. -/
  message : String
  /-- The line it is about. -/
  line : Option Nat := none
  /-- The file it is about. -/
  file : Option String := none

/-- The text of a warning with the line and the file, where they are known. -/
def Warning.render (w : Warning) : String :=
  w.message ++
    (match w.line with
      | some n => " at line " ++ toString n
      | none => "") ++
    (match w.file with
      | some file => " " ++ file
      | none => "")

/-- The place where the latest warning of a request waits. -/
structure WarningSlot where
  /-- The text of the latest warning. -/
  pending : Option String := none

namespace WarningSlot

def warn (_ : WarningSlot) (w : Warning) : WarningSlot :=
  ⟨some w.render⟩

/-- The pending warning, and the empty slot. -/
def take (slot : WarningSlot) : Option String × WarningSlot :=
  (slot.pending, {})

end WarningSlot

end Listener
