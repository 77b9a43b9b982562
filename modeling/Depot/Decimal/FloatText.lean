import Depot.Decimal.Shortest
/-!
# The text of floating point numbers

A `FloatStyle` decides how the shortest digits of a number are laid out: which numbers have the
point in its place and which an exponent, and what marks a whole number.
-/

namespace Depot

structure FloatStyle where
  /-- Whether numbers whose first digit stands for this power of ten are written without an
  exponent. -/
  positional : Int → Bool
  /-- What follows the last digit of a whole number. -/
  whole : String

namespace FloatStyle

/-- Numbers in messages about data: an exponent for very large and very small numbers only. -/
def message : FloatStyle := ⟨fun e => -5 ≤ e && e < 16, ".0"⟩

def plain : FloatStyle := ⟨fun _ => true, ""⟩

def pointed : FloatStyle := ⟨fun _ => true, ".0"⟩

private def zeros (n : Nat) : String := String.ofList (List.replicate n '0')

/-- Digits with the point in its place; `e` is the power of ten of the first digit. -/
def placed (style : FloatStyle) (digits : List Char) (e : Int) : String :=
  if e < 0 then "0." ++ zeros (-e - 1).toNat ++ String.ofList digits
  else
    let n := e.toNat + 1
    if digits.length ≤ n then
      String.ofList digits ++ zeros (n - digits.length) ++ style.whole
    else String.ofList (digits.take n) ++ "." ++ String.ofList (digits.drop n)

/-- Digits with the point after the first one and the power of ten of that digit. -/
def scaled (digits : List Char) (e : Int) : String :=
  let mantissa := match digits with
    | [d] => String.singleton d
    | d :: rest => String.ofList (d :: '.' :: rest)
    | [] => ""
  mantissa ++ "e" ++ (if e < 0 then "-" else "+") ++ toString e.natAbs

def render (style : FloatStyle) (d : Decimal) : String :=
  let digits := Nat.toDigits 10 d.digits
  let e := d.exponent + digits.length - 1
  if style.positional e then style.placed digits e else scaled digits e

def text (style : FloatStyle) (x : Float) : String :=
  let sign (negative : Bool) := if negative then "-" else ""
  match Decimal.Parts.ofBits x.toBits with
  | .notANumber => "NaN"
  | .infinite negative => sign negative ++ "inf"
  | .zero negative => sign negative ++ "0" ++ style.whole
  | .finite negative d => sign negative ++ style.render d

example : message.render ⟨15, -1⟩ = "1.5" := by decide
example : message.render ⟨1, 15⟩ = "1000000000000000.0" := by decide
example : message.render ⟨18446744073709552, 3⟩ = "1.8446744073709552e+19" := by decide
example : message.render ⟨25, -7⟩ = "2.5e-6" := by decide
example : message.render ⟨25, -6⟩ = "0.000025" := by decide

end FloatStyle

end Depot
