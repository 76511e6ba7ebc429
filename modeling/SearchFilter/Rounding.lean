namespace SearchFilter

/-- The whole number nearest to a quotient; a tie goes to the even neighbour. -/
def roundHalfEven (num : Int) (den : Nat) : Int :=
  let low := num / den
  let twice := 2 * (num % den)
  if twice < den ∨ (twice = den ∧ low % 2 = 0) then low else low + 1

/-- How many binary places are left to a quotient below `2 ^ 53` that has 53 significant bits in
all. Below one it keeps 52 places, which change its floor no more than further ones would. -/
def binaryPlaces (num : Int) (den : Nat) : Nat := 52 - Nat.log2 (num.natAbs / den)

/-- The floor of a quotient once it is rounded to 53 significant bits. -/
def roundedFloor (num : Int) (den : Nat) : Int :=
  let scale := 1 <<< binaryPlaces num den
  roundHalfEven (num * (scale : Nat)) den / (scale : Nat)

/-- How many binary places a number may have in front of its point and behind it. -/
def placesInFront : Nat := 1024

def placesBehind : Nat := 1074

/-- How many steps between the least binary numbers make one. -/
def stepsInOne : Nat := 1 <<< placesBehind

/-- A quotient as a binary number, in least steps. It has 53 significant bits at most. -/
def binarySteps (num : Int) (den : Nat) : Int :=
  let steps := num * (stepsInOne : Nat)
  let scale := 1 <<< (Nat.log2 (steps.natAbs / den) - 52)
  roundHalfEven steps (den * scale) * (scale : Nat)

/-- What a decimal comes to as a binary number. -/
inductive BinaryDecimal where
  | whole (value : Int)
  | fractional
  | infinite
  deriving DecidableEq

/-- The decimal `mantissa * 10 ^ exponent` as a binary number. One that is far too large or too
small for that is not counted out. -/
def BinaryDecimal.ofDecimal (mantissa exponent : Int) : BinaryDecimal :=
  let point := (Nat.toDigits 10 mantissa.natAbs).length + exponent
  if mantissa = 0 ∨ point < -323 then whole 0
  else if 309 < point then infinite
  else
    let steps := binarySteps (mantissa * (Nat.pow 10 exponent.toNat : Nat))
      (Nat.pow 10 (-exponent).toNat)
    if (1 <<< placesInFront) * stepsInOne ≤ steps.natAbs then infinite
    else if steps % (stepsInOne : Nat) = 0 then whole (steps / (stepsInOne : Nat))
    else fractional

end SearchFilter
