/-
Floating-point numbers of 64 bits, as exact data.

A finite number is `± m · 2 ^ e` in its one canonical form, so equality of
data is equality of numbers (the two zeros apart).

* `ofRatio`: the number nearest to a quotient, a tie going to the even
  significand.
* `div`: the quotient of two numbers, rounded once.
* `isIntegral`, `integralPart`: the integers among the finite numbers.
-/
namespace Listener

/-- The pairs `(m, e)` that stand for a finite number: 53 bits of significand,
all of them in use unless the exponent is the least one. -/
def CanonicalFloat (m : Nat) (e : Int) : Prop :=
  m < Nat.pow 2 53 ∧ -1074 ≤ e ∧ e ≤ 971 ∧ (Nat.pow 2 52 ≤ m ∨ e = -1074)

instance (m : Nat) (e : Int) : Decidable (CanonicalFloat m e) :=
  inferInstanceAs (Decidable (_ ∧ _ ∧ _ ∧ _))

/-- A floating-point number of 64 bits. -/
inductive Binary64 where
  /-- No number. -/
  | nan
  /-- An infinity with its sign. -/
  | infinite (negative : Bool)
  /-- The number `± significand · 2 ^ exponent`. -/
  | finite (negative : Bool) (significand : Nat) (exponent : Int)
      (canonical : CanonicalFloat significand exponent)
  deriving DecidableEq

namespace Binary64

def zero (negative : Bool) : Binary64 :=
  .finite negative 0 (-1074) (by decide)

/-! ### Rounding -/

/-- The quotient rounded to the nearest natural number, a tie to the even one. -/
def roundHalfEven (n d : Nat) : Nat :=
  let q := n / d
  let r := n % d
  if 2 * r < d ∨ (2 * r = d ∧ q % 2 = 0) then q else q + 1

/-- The greatest `k` with `2 ^ k ≤ n / d`, for positive `n` and `d`. -/
def ratioLog (n d : Nat) : Int :=
  let k : Int := (Nat.log2 n : Int) - Nat.log2 d
  if n * Nat.pow 2 (-k).toNat < d * Nat.pow 2 k.toNat then k - 1 else k

/-- The number `± m · 2 ^ e`, where `m` may have reached `2 ^ 53` by rounding
up, and an infinity where that is too large. -/
def ofScaled (negative : Bool) (m : Nat) (e : Int) : Binary64 :=
  if h : CanonicalFloat m e then .finite negative m e h
  else if h : CanonicalFloat (m / 2) (e + 1) then .finite negative (m / 2) (e + 1) h
  else .infinite negative

/-- A canonical pair is taken as it is. -/
theorem ofScaled_of_canonical (negative : Bool) {m : Nat} {e : Int} (h : CanonicalFloat m e) :
    ofScaled negative m e = .finite negative m e h := by
  simp [ofScaled, h]

/-- The number nearest to `± n / d`. -/
def ofRatio (negative : Bool) (n d : Nat) : Binary64 :=
  if n = 0 then zero negative
  else
    let e := max (ratioLog n d - 52) (-1074)
    ofScaled negative
      (roundHalfEven (n * Nat.pow 2 (-e).toNat) (d * Nat.pow 2 e.toNat)) e

/-! ### Quotients and integers -/

/-- The size of a finite number as a quotient of natural numbers. -/
def ratio (significand : Nat) (exponent : Int) : Nat × Nat :=
  (significand * Nat.pow 2 exponent.toNat, Nat.pow 2 (-exponent).toNat)

/-- The quotient of two numbers, rounded once. -/
def div : Binary64 → Binary64 → Binary64
  | .nan, _ => .nan
  | _, .nan => .nan
  | .infinite _, .infinite _ => .nan
  | .infinite s, .finite t _ _ _ => .infinite (s ^^ t)
  | .finite s _ _ _, .infinite t => zero (s ^^ t)
  | .finite s m e _, .finite t k f _ =>
    if k = 0 then (if m = 0 then .nan else .infinite (s ^^ t))
    else
      let (n₁, d₁) := ratio m e
      let (n₂, d₂) := ratio k f
      ofRatio (s ^^ t) (n₁ * d₂) (d₁ * n₂)

def isIntegral : Binary64 → Bool
  | .finite _ m e _ => (ratio m e).1 % (ratio m e).2 == 0
  | _ => false

/-- The size of a finite number, cut down to an integer. -/
def integralPart : Binary64 → Nat
  | .finite _ m e _ => (ratio m e).1 / (ratio m e).2
  | _ => 0

def isNegative : Binary64 → Bool
  | .nan => false
  | .infinite s => s
  | .finite s _ _ _ => s

def isZero : Binary64 → Bool
  | .finite _ m _ _ => m == 0
  | _ => false

end Binary64

end Listener
