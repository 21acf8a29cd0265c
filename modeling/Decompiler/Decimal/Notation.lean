import Decompiler.Decimal.Shortest

/-!
The text of a floating-point constant: the shortest digits in the constant's own width, positional for
middle magnitudes and scientific beyond them.
-/

namespace Decompiler.Decimal

/-- The shape of a floating-point format: the widths of its fraction and exponent fields. -/
structure Format where
  fractionBits : Nat
  exponentBits : Nat

def single : Format := ⟨23, 8⟩

def double : Format := ⟨52, 11⟩

/-- What a bit pattern stands for. -/
inductive Value where
  | nan
  | infinite (negative : Bool)
  | zero (negative : Bool)
  | finite (negative : Bool) (magnitude : Binary)

def Format.decode (format : Format) (bits : Nat) : Value :=
  let fraction := bits % Nat.pow 2 format.fractionBits
  let exponent := bits / Nat.pow 2 format.fractionBits % Nat.pow 2 format.exponentBits
  let negative := bits / Nat.pow 2 (format.fractionBits + format.exponentBits) % 2 = 1
  let bias : Int := Nat.pow 2 (format.exponentBits - 1) - 1 + format.fractionBits
  if exponent = Nat.pow 2 format.exponentBits - 1 then
    if fraction = 0 then .infinite negative else .nan
  else if exponent = 0 then
    if fraction = 0 then .zero negative else .finite negative ⟨fraction, 1 - bias, false⟩
  else
    .finite negative ⟨Nat.pow 2 format.fractionBits + fraction, exponent - bias, fraction = 0 && exponent != 1⟩

def zeros (count : Nat) : String := String.ofList (List.replicate count '0')

/-- Digits with the point after the first `places` of them; zeros fill up on either side and at least
one digit follows the point. -/
def positional (digits : String) (places : Int) : String :=
  if places ≤ 0 then "0." ++ zeros (-places).toNat ++ digits
  else
    let whole := places.toNat
    if digits.length ≤ whole then digits ++ zeros (whole - digits.length) ++ ".0"
    else String.ofList (digits.toList.take whole) ++ "." ++ String.ofList (digits.toList.drop whole)

/-- One digit, the point and the other digits if there are any, then the exponent. -/
def scientific (digits : String) (exponent : Int) : String :=
  let rest := digits.toList.drop 1
  String.ofList (digits.toList.take 1) ++ (if rest.isEmpty then "" else "." ++ String.ofList rest)
    ++ "e" ++ toString exponent

/-- Magnitudes from `10 ^ -4` up to but not including `10 ^ 16` are positional. -/
def text (point : Decimal) : String :=
  let digits := toString point.digits
  let lead : Int := point.exponent + digits.length - 1
  if -4 ≤ lead ∧ lead < 16 then positional digits (lead + 1) else scientific digits lead

def sign (negative : Bool) : String := if negative then "-" else ""

def Value.text : Value → String
  | .nan => "NaN"
  | .infinite negative => sign negative ++ "inf"
  | .zero negative => sign negative ++ "0.0"
  | .finite negative magnitude => sign negative ++ magnitude.shortest.text

def textOfFloat (x : Float) : String := (double.decode x.toBits.toNat).text

def textOfFloat32 (x : Float32) : String := (single.decode x.toBits.toNat).text

end Decompiler.Decimal
