/-
Reading numbers: from the text of a numeral to the nearest double.

A numeral has an optional sign and then digits with an optional point and an optional exponent, or
one of the words for infinity and not-a-number in any case.  Blanks, underscores and other bases
are not part of it.
-/
import ClipScript.Decimal.Shortest

namespace ClipScript
namespace Decimal

def digitValue (c : Char) : Nat := c.toNat - '0'.toNat

def natOfDigits (digits : List Char) : Nat := digits.foldl (fun n c => 10 * n + digitValue c) 0

def exponent? (text : List Char) : Option Int :=
  let (negative, digits) := match text with
    | '-' :: rest => (true, rest)
    | '+' :: rest => (false, rest)
    | rest => (false, rest)
  if digits.isEmpty || !digits.all Char.isDigit then none
  else some (if negative then -(natOfDigits digits : Int) else natOfDigits digits)

def scaled? (text : List Char) : Option Scaled :=
  let whole := text.takeWhile Char.isDigit
  let afterWhole := text.dropWhile Char.isDigit
  let (fraction, rest) := match afterWhole with
    | '.' :: rest => (rest.takeWhile Char.isDigit, rest.dropWhile Char.isDigit)
    | rest => ([], rest)
  if whole.isEmpty && fraction.isEmpty then none
  else
    let coefficient := natOfDigits (whole ++ fraction)
    let shift : Int := -(fraction.length : Int)
    match rest with
    | [] => some ⟨coefficient, shift⟩
    | mark :: rest =>
      if mark == 'e' || mark == 'E' then (exponent? rest).map fun e => ⟨coefficient, e + shift⟩
      else none

/-- The double nearest to a decimal.  Decimals that are out of reach by their magnitude alone are
decided first, so that no power of ten grows with the text. -/
def Scaled.toFloat (d : Scaled) : Float :=
  let place := d.exponent + (toString d.coefficient).length
  if d.coefficient = 0 || place < -330 then 0
  else if 310 < place then 1.0 / 0.0
  else nearest (d.coefficient * power 10 d.exponent) (power 10 (-d.exponent))

def magnitude? (text : List Char) : Option Float :=
  let word := String.ofList (text.map Char.toLower)
  if word == "inf" || word == "infinity" then some (1.0 / 0.0)
  else if word == "nan" then some (0.0 / 0.0)
  else (scaled? text).map Scaled.toFloat

def read? (text : String) : Option Float :=
  match text.toList with
  | '-' :: rest => (magnitude? rest).map fun x => -x
  | '+' :: rest => magnitude? rest
  | rest => magnitude? rest

end Decimal
end ClipScript
