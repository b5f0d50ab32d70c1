/-
Layouts of decimals: how the digits of a number are set out.

Two layouts are in use.  `plain` never writes an exponent; `marked` shows that a number is one
that can have a fraction and keeps very large and very small numbers short.
-/
import ClipScript.Decimal.Shortest

namespace ClipScript
namespace Decimal

structure Layout where
  positional : Int → Bool
  wholeEnding : String

/-- No exponent at all: `14`, `2.5`, `0.0000001`. -/
def plain : Layout := ⟨fun _ => true, ""⟩

/-- A fraction or an exponent always: `1.0`, `1e17`, `1e-5`. -/
def marked : Layout := ⟨fun place => -4 ≤ place && place < 16, ".0"⟩

def zeros (n : Nat) : List Char := List.replicate n '0'

def setPoint (digits : List Char) (exponent : Int) (wholeEnding : String) : String :=
  let size := digits.length
  if 0 ≤ exponent then String.ofList (digits ++ zeros exponent.toNat) ++ wholeEnding
  else
    let places := (-exponent).toNat
    if places < size then
      String.ofList (digits.take (size - places) ++ '.' :: digits.drop (size - places))
    else String.ofList ('0' :: '.' :: (zeros (places - size) ++ digits))

def setExponent (digits : List Char) (place : Int) : String :=
  let head := match digits with
    | d :: e :: rest => d :: '.' :: e :: rest
    | short => short
  String.ofList head ++ "e" ++ toString place

def Layout.render (layout : Layout) (x : Float) : String :=
  if x.isNaN then "NaN" else
    let sign := if isNegative x then "-" else ""
    if x.isInf then sign ++ "inf" else
      let p := parts x
      if p.mantissa = 0 then sign ++ "0" ++ layout.wholeEnding else
        let d := p.shortest
        let digits := (toString d.coefficient).toList
        let place := d.exponent + digits.length - 1
        if layout.positional place then sign ++ setPoint digits d.exponent layout.wholeEnding
        else sign ++ setExponent digits place

end Decimal
end ClipScript
