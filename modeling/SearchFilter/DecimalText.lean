namespace SearchFilter

/-- The decimal digits of a number, with zeros in front up to a least width. -/
def zeroPadded (width n : Nat) : List Char :=
  List.replicate (width - (Nat.toDigits 10 n).length) '0' ++ Nat.toDigits 10 n

/-- A number and how often ten divides it, given at least as many steps as it has digits. -/
def stripZeros : (steps : Nat) → Nat → Nat × Nat
  | 0, n => (n, 0)
  | steps + 1, n =>
    if n % 10 = 0 then let (rest, count) := stripZeros steps (n / 10); (rest, count + 1) else (n, 0)

/-- How decimals are laid out: the least power of ten of a first digit that is still written
positionally, and the fewest digits of an exponent. -/
structure DecimalLayout where
  leastPower : Int
  exponentWidth : Nat

/-- A decimal with no needless zeros; positional if its first digit stands for less than `1e16` and
for no less than the layout says, else with an exponent. -/
def DecimalLayout.write (layout : DecimalLayout) (mantissa exponent : Int) : String :=
  let (core, zeros) := stripZeros (toString mantissa).length mantissa.natAbs
  let digits := toString core
  let point := digits.length + (exponent + zeros)
  let sign := if mantissa < 0 then "-" else ""
  if layout.leastPower < point ∧ point ≤ 0 then
    sign ++ "0." ++ "".pushn '0' (-point).toNat ++ digits
  else if 0 < point ∧ point < digits.length then
    sign ++ (digits.take point.toNat).toString ++ "." ++ (digits.drop point.toNat).toString
  else if 0 < point ∧ point ≤ 16 then
    sign ++ digits ++ "".pushn '0' (point.toNat - digits.length) ++ ".0"
  else
    let power := point - 1
    sign ++ (digits.take 1).toString ++
      (if digits.length = 1 then "" else "." ++ (digits.drop 1).toString) ++
      (if power < 0 then "e-" else "e+") ++
      String.ofList (zeroPadded layout.exponentWidth power.natAbs)

end SearchFilter
