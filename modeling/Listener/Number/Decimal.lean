/-
Floating-point numbers in decimal notation, both ways.

* `ofDecimal`: the number nearest to `± d · 10 ^ s`.
* `shortest`: the fewest decimal places at which a neighbour of the number on
  the decimal grid reads back as the number. Of two such neighbours the nearer
  is taken, and the greater one on a tie.
* `decimalText`: an integer in all its digits with `.0` behind it, any other
  number in its shortest digits, never with an exponent.
-/
import Listener.Number.Binary64

namespace Listener

namespace Binary64

/-! ### Reading -/

def digitCount (n : Nat) : Nat :=
  (Nat.toDigits 10 n).length

/-- The number nearest to `± d · 10 ^ s`. Far outside of the range of finite
numbers the power of ten is not computed. -/
def ofDecimal (negative : Bool) (d : Nat) (s : Int) : Binary64 :=
  if d = 0 then zero negative
  else if 400 < s then .infinite negative
  else if s + digitCount d < -400 then zero negative
  else ofRatio negative (d * Nat.pow 10 s.toNat) (Nat.pow 10 (-s).toNat)

/-- The number nearest to an integer. -/
def ofInt (n : Int) : Binary64 :=
  ofDecimal (n < 0) n.natAbs 0

/-! ### Writing -/

/-- The multiple of `10 ^ -places` next to the number `± n / d` that reads back
as `x`, if one does. -/
def neighbour (x : Binary64) (negative : Bool) (n d places : Nat) : Option Nat :=
  let low := n * Nat.pow 10 places / d
  let rest := n * Nat.pow 10 places % d
  let down := ofDecimal negative low (-places) == x
  let up := ofDecimal negative (low + 1) (-places) == x
  if up && (!down || d ≤ 2 * rest) then some (low + 1)
  else if down then some low
  else none

/-- What is found reads back as the number. -/
theorem ofDecimal_of_neighbour {x : Binary64} {negative : Bool} {n d places digits : Nat}
    (h : neighbour x negative n d places = some digits) :
    ofDecimal negative digits (-places) = x := by
  simp only [neighbour] at h
  split at h
  case isTrue hup =>
    cases h
    exact eq_of_beq (Bool.and_eq_true_iff.mp hup).1
  case isFalse _ =>
    split at h
    case isTrue hdown =>
      cases h
      exact eq_of_beq hdown
    case isFalse _ => cases h

/-- The digits of the number and how many of them are decimal places: the first
grid of at least one place that has a neighbour reading back. -/
def shortest (x : Binary64) (negative : Bool) (n d : Nat) : Nat × Nat :=
  let found := (List.range 1075).findSome? fun k =>
    (neighbour x negative n d (k + 1)).map fun digits => (digits, k + 1)
  found.getD (n * Nat.pow 10 1074 / d, 1074)

/-- The digits of `n`, filled up with zeros in front to at least `width`. -/
def paddedDigits (width n : Nat) : List Char :=
  let digits := Nat.toDigits 10 n
  List.replicate (width - digits.length) '0' ++ digits

/-- The text of a finite number; the others have none here. -/
def decimalText (x : Binary64) : List Char :=
  match x with
  | .finite negative m e _ =>
    let sign := if negative then ['-'] else []
    if x.isIntegral then sign ++ Nat.toDigits 10 x.integralPart ++ ['.', '0']
    else
      let (n, d) := ratio m e
      let (digits, places) := shortest x negative n d
      sign ++ Nat.toDigits 10 (digits / Nat.pow 10 places) ++ ['.'] ++
        paddedDigits places (digits % Nat.pow 10 places)
  | _ => []

end Binary64

end Listener
