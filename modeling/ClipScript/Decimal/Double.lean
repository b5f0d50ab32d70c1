/-
Double-precision numbers as integers times powers of two.

`parts` takes a finite number apart and `nearest` puts a ratio of naturals back together, rounding
to the closest double.  Both work on exact integers, so what they compute does not depend on the
arithmetic of the machine.
-/
namespace ClipScript
namespace Decimal

/-- A power of a whole base.  It is one if the exponent is not positive, so that a ratio scaled by
`base ^ e` is scaled by `power base e` above and by `power base (-e)` below. -/
def power (base : Nat) (exponent : Int) : Nat := base.pow exponent.toNat

def fractionEnd : Nat := power 2 52

def leastExponent : Int := -1074

/-- The magnitude of a finite double, `mantissa * 2 ^ exponent`.  `halved` says that the next
double below is only half as far away as the next one above. -/
structure Parts where
  mantissa : Nat
  exponent : Int
  halved : Bool
deriving DecidableEq, Repr

def parts (x : Float) : Parts :=
  let bits := x.toBits.toNat
  let fraction : Nat := bits % fractionEnd
  let biased : Nat := bits / fractionEnd % 2048
  if biased = 0 then ⟨fraction, leastExponent, false⟩
  else ⟨fractionEnd + fraction, (biased : Int) - 1075, fraction = 0 && biased ≠ 1⟩

def isNegative (x : Float) : Bool := x.toBits.toNat / (2048 * fractionEnd) = 1

/-- The whole number nearest to `a / b`; a half goes to the even neighbour. -/
def roundDiv (a b : Nat) : Nat :=
  let q := a / b
  let r := 2 * (a % b)
  if r < b then q else if r = b then q + q % 2 else q + 1

def inUnits (a b : Nat) (k : Int) : Nat × Nat := (a * power 2 (-k), b * power 2 k)

/-- The double nearest to `a / b`, for `b` not zero.

The unit is chosen so that the mantissa has 53 bits, or fewer where the exponent cannot go lower.
The mantissa is added to the exponent field rather than put beside it: a mantissa that rounds up
to the next power of two then carries into the exponent by itself. -/
def nearest (a b : Nat) : Float :=
  if a = 0 then 0 else
    let guess : Int := (a.log2 : Int) - b.log2 - 53
    let (n, d) := inUnits a b guess
    let k := max (if n / d < 2 * fractionEnd then guess else guess + 1) leastExponent
    let (n, d) := inUnits a b k
    let bits := (k - leastExponent).toNat * fractionEnd + roundDiv n d
    Float.ofBits (min bits (2047 * fractionEnd)).toUInt64

end Decimal
end ClipScript
