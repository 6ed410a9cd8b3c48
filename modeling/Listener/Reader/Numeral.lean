/-
Numerals: the words that are read as numbers, and the numbers they stand for.

* `Numeral.ofWord?`: the numeral that a whole word is, if it is one. A sign may
  stand in front of a hexadecimal number, a number in another radix, a ratio or
  a decimal number.
* `Numeral.form`: the number. Integers are exact up to `maxInt`; a decimal
  integer past it is a floating-point number, and a number in another radix
  past it has no value.
-/
import Listener.Form.Basic
import Listener.Number.Decimal
import Listener.Reader.Alphabet

namespace Listener

namespace Reader

/-- What a numeral without its sign looks like. -/
inductive Magnitude where
  /-- Digits in a radix. -/
  | based (radix : Nat) (digits : List Char)
  /-- Two integers with a slash between them. -/
  | ratio (numerator denominator : List Char)
  /-- An integer in decimal digits. -/
  | whole (digits : List Char)
  /-- Decimal digits, then those behind the point, then the exponent. -/
  | decimal (digits fraction : List Char) (exponent : Int)

/-- A word that is read as a number. -/
structure Numeral where
  /-- Whether the sign is a minus. -/
  negative : Bool
  /-- The part after the sign. -/
  magnitude : Magnitude

namespace Numeral

/-! ### The grammar of numerals -/

/-- Hexadecimal digits after `0x`; the letter `N` may follow. -/
def hex? : List Char → Option Magnitude
  | '0' :: x :: cs =>
    let digits := cs.takeWhile isHexDigit
    let rest := cs.dropWhile isHexDigit
    if (x = 'x' ∨ x = 'X') ∧ digits ≠ [] ∧ (rest = [] ∨ rest = ['N']) then
      some (.based 16 digits)
    else none
  | _ => none

/-- Letters and digits after a radix of one or two digits and the letter `r`. -/
def radix? (cs : List Char) : Option Magnitude :=
  let radix := cs.takeWhile Char.isDigit
  match cs.dropWhile Char.isDigit with
  | r :: digits =>
    if (r = 'r' ∨ r = 'R') ∧ (radix.length = 1 ∨ radix.length = 2) ∧ digits ≠ [] ∧
        digits.all Char.isAlphanum then
      some (.based (Nat.ofDigitChars 10 radix 0) digits)
    else none
  | [] => none

/-- Digits on both sides of a slash. -/
def ratio? (cs : List Char) : Option Magnitude :=
  let numerator := cs.takeWhile Char.isDigit
  match cs.dropWhile Char.isDigit with
  | '/' :: denominator =>
    if numerator ≠ [] ∧ denominator ≠ [] ∧ denominator.all Char.isDigit then
      some (.ratio numerator denominator)
    else none
  | _ => none

/-- The end of a decimal number: nothing, or one of the letters for numbers of
any size, which are read as plain numbers. -/
def isDecimalEnd (cs : List Char) : Bool :=
  cs == [] || cs == ['N'] || cs == ['M']

/-- The exponent that a text starts with, and what follows it. -/
def exponent? : List Char → Option (Int × List Char)
  | e :: cs =>
    if e = 'e' ∨ e = 'E' then
      let (negative, cs) := match cs with
        | '-' :: cs => (true, cs)
        | '+' :: cs => (false, cs)
        | cs => (false, cs)
      let digits := cs.takeWhile Char.isDigit
      if digits = [] then none
      else
        let n : Int := Nat.ofDigitChars 10 digits 0
        some (if negative then -n else n, cs.dropWhile Char.isDigit)
    else none
  | [] => none

/-- Digits, then a point with further digits and an exponent as the case may be. -/
def decimal? (cs : List Char) : Option Magnitude :=
  let digits := cs.takeWhile Char.isDigit
  let (point, fraction, rest) := match cs.dropWhile Char.isDigit with
    | '.' :: rest => (true, rest.takeWhile Char.isDigit, rest.dropWhile Char.isDigit)
    | rest => (false, [], rest)
  if digits = [] then none
  else match exponent? rest with
    | some (exponent, rest) =>
      if isDecimalEnd rest then some (.decimal digits fraction exponent) else none
    | none =>
      if !isDecimalEnd rest then none
      else if point then some (.decimal digits fraction 0)
      else some (.whole digits)

/-- The part of a numeral after its sign. No word is a magnitude of two kinds. -/
def magnitude? (cs : List Char) : Option Magnitude :=
  (hex? cs).or ((radix? cs).or ((ratio? cs).or (decimal? cs)))

/-- The numeral that a word is. -/
def ofWord? : List Char → Option Numeral
  | '-' :: cs => (magnitude? cs).map (⟨true, ·⟩)
  | '+' :: cs => (magnitude? cs).map (⟨false, ·⟩)
  | cs => (magnitude? cs).map (⟨false, ·⟩)

/-! ### The value of a numeral -/

/-- The greatest integer that is kept exactly. -/
def maxInt : Nat := Nat.pow 2 63 - 1

/-- The greatest integer up to which every integer is a floating-point number. -/
def maxSafeInteger : Nat := Nat.pow 2 53 - 1

/-- The value of a letter or digit, without regard to case. -/
def digitValue (c : Char) : Nat :=
  if c.isDigit then c.toNat - '0'.toNat else c.toLower.toNat - 'a'.toNat + 10

/-- The value of digits in a radix, when each of them is below it. -/
def basedValue? (radix : Nat) (digits : List Char) : Option Nat :=
  if digits.all fun c => digitValue c < radix then
    some (digits.foldl (fun n c => n * radix + digitValue c) 0)
  else none

/-- Why a numeral has no value. -/
inductive Flaw where
  /-- The digits do not fit the radix or the number is too large. -/
  | invalid
  | zeroDenominator
  deriving DecidableEq

/-- An integer with a sign. -/
def signed (negative : Bool) (n : Nat) : Form :=
  .int (if negative then -(n : Int) else n)

/-- The quotient of two integers, each rounded before and the quotient after
the division. An integral quotient of moderate size is an integer. -/
def ratioForm (negative : Bool) (numerator denominator : Nat) : Except Flaw Form :=
  let num := Binary64.ofDecimal negative numerator 0
  let den := Binary64.ofDecimal false denominator 0
  if den.isZero then .error .zeroDenominator
  else
    let value := num.div den
    if value.isIntegral && value.integralPart ≤ maxSafeInteger then
      .ok (signed value.isNegative value.integralPart)
    else .ok (.float value)

/-- The number that a numeral stands for. -/
def form (n : Numeral) : Except Flaw Form :=
  match n.magnitude with
  | .based radix digits =>
    match basedValue? radix digits with
    | some v =>
      if 2 ≤ radix ∧ radix ≤ 36 ∧ v ≤ maxInt then .ok (signed n.negative v) else .error .invalid
    | none => .error .invalid
  | .ratio numerator denominator =>
    ratioForm n.negative (Nat.ofDigitChars 10 numerator 0) (Nat.ofDigitChars 10 denominator 0)
  | .whole digits =>
    let v := Nat.ofDigitChars 10 digits 0
    if v ≤ maxInt then .ok (signed n.negative v)
    else .ok (.float (Binary64.ofDecimal n.negative v 0))
  | .decimal digits fraction exponent =>
    .ok (.float (Binary64.ofDecimal n.negative (Nat.ofDigitChars 10 (digits ++ fraction) 0)
      (exponent - fraction.length)))

end Numeral

end Reader

end Listener
