/-
The shortest decimal that reads back as a given double.

Every real number in a certain interval around a double rounds to it.  For one digit, two digits
and so on the two neighbours of the double on the grid of decimals of that length are tested
against the interval, and the first grid with a hit gives the answer.
-/
import ClipScript.Decimal.Double

namespace ClipScript
namespace Decimal

structure Scaled where
  coefficient : Nat
  exponent : Int
deriving DecidableEq, Repr

namespace Parts

/-- The interval of a double in units of a quarter of its last place: the double itself, and the
ends of what rounds to it. -/
def centre (p : Parts) : Nat := 4 * p.mantissa

def low (p : Parts) : Nat := if p.halved then 4 * p.mantissa - 1 else 4 * p.mantissa - 2

def high (p : Parts) : Nat := 4 * p.mantissa + 2

/-- Factors `(s, t)` such that `x` quarter units compare to `c * 10 ^ e` as `x * s` to `c * t`. -/
def factors (p : Parts) (e : Int) : Nat × Nat :=
  (power 2 (p.exponent - 2) * power 10 (-e), power 10 e * power 2 (2 - p.exponent))

/-- The decimal `c * 10 ^ e` rounds to the double.  The ends of the interval belong to it exactly
if the mantissa is even, because a half goes to the even neighbour. -/
def contains (p : Parts) (e : Int) (c : Nat) : Bool :=
  let (s, t) := p.factors e
  if p.mantissa % 2 = 0 then p.low * s ≤ c * t && c * t ≤ p.high * s
  else p.low * s < c * t && c * t < p.high * s

/-- The power of ten of the leading digit.  Doubles are far larger than `10 ^ -400`, so at that
scale the whole part shows all digits before the one looked for. -/
def leadingPlace (p : Parts) : Int :=
  let (s, t) := p.factors (-400)
  ((toString (p.centre * s / t)).length : Int) - 401

/-- The hit on the grid of multiples of `10 ^ e`, the nearer one if there are two, and the upper
one of two that are equally near. -/
def hit? (p : Parts) (e : Int) : Option Scaled :=
  let (s, t) := p.factors e
  let c := p.centre * s / t
  match p.contains e c, p.contains e (c + 1) with
  | true, true => some ⟨if 2 * (p.centre * s - c * t) < t then c else c + 1, e⟩
  | true, false => some ⟨c, e⟩
  | false, true => some ⟨c + 1, e⟩
  | false, false => none

/-- The shortest decimal.  Seventeen digits always suffice.  Only a hit of one digit can end in
zero, when nine was rounded up. -/
def shortest (p : Parts) : Scaled :=
  let place := p.leadingPlace
  match (List.range 17).findSome? fun (i : Nat) => p.hit? (place - i) with
  | some ⟨10, e⟩ => ⟨1, e + 1⟩
  | some d => d
  | none => ⟨p.mantissa, p.exponent⟩

end Parts
end Decimal
end ClipScript
