import PuzzleKit.Text.Binary64

/-! The shortest decimal that reads back as a double-precision number, and the written form of
such a number.

A positive number `m * 2 ^ e` is what every real strictly between the midpoints to its two
neighbours reads as, and the midpoints too when `m` is even. For one significant digit, then
two, and so on, the two multiples of the power of ten that spaces that many digits, just below
and just above the number, are tried: the first spacing with one of them inside the interval
gives the digits, the nearer one where both are inside and the even one at a tie. Seventeen
digits always suffice. All of it is exact arithmetic on naturals. -/

namespace PuzzleKit.Text

/-- How numbers are written: where positional notation ends, what marks a whole number and
an exponent, and the words for the infinities and not-a-number. A number is written with its
point among its digits when the point stands after more than `lowestPoint` and at most
`highestPoint` places, counting from the first significant digit. -/
structure FloatStyle where
  lowestPoint : Int
  highestPoint : Int
  wholeMark : String
  exponentMark : String
  exponentDigits : Nat
  infinity : String
  nan : String

namespace Binary64

/-- The left side of the comparison of `g * 10 ^ k` with `x * 2 ^ u`, both scaled to
naturals. -/
def gridSide (g : Nat) (k u : Int) : Nat := g * Nat.pow 10 k.toNat * Nat.pow 2 (-u).toNat

/-- The right side of the comparison of `g * 10 ^ k` with `x * 2 ^ u`, both scaled to
naturals. -/
def binarySide (x : Nat) (k u : Int) : Nat := x * Nat.pow 2 u.toNat * Nat.pow 10 (-k).toNat

/-- Whether `10 ^ k` is at most `m * 2 ^ e`. -/
def tenPowLe (m : Nat) (e k : Int) : Bool := gridSide 1 k e ≤ binarySide m k e

/-- The power of ten at or just below `m * 2 ^ e`, from an estimate by binary digits and a
few steps of correction. -/
def decimalExponent (m : Nat) (e : Int) : Int :=
  let estimate : Int := ((bitLength m : Int) - 1 + e) * 30103 / 100000
  let rec settle : Nat → Int → Int
    | 0, k => k
    | fuel + 1, k =>
      if !tenPowLe m e k then settle fuel (k - 1)
      else if tenPowLe m e (k + 1) then settle fuel (k + 1)
      else k
  settle 4 estimate

/-- The multiple of `10 ^ k` next to the positive number `m * 2 ^ e` that reads back as it,
if one does; the nearer of two, and the even one at a tie. -/
def gridPoint? (m : Nat) (e k : Int) : Option Nat :=
  let u := e - 2
  let v := 4 * m
  let lo := if m = Nat.pow 2 (precision - 1) && minExponent < e then v - 1 else v - 2
  let hi := v + 2
  let closed := m % 2 == 0
  let below := binarySide v k u / gridSide 1 k u
  let above := below + 1
  let lowOk : Bool :=
    if closed then binarySide lo k u ≤ gridSide below k u else binarySide lo k u < gridSide below k u
  let highOk : Bool :=
    if closed then gridSide above k u ≤ binarySide hi k u else gridSide above k u < binarySide hi k u
  match 0 < below && lowOk, highOk with
  | true, true =>
    let twice := binarySide (2 * v) k u
    let middle := gridSide (2 * below + 1) k u
    if twice < middle then some below
    else if middle < twice then some above
    else some (if below % 2 == 0 then below else above)
  | true, false => some below
  | false, true => some above
  | false, false => none

/-- The first spacing from `10 ^ k` downwards with a point that reads back, as the digits and
the power of ten of the last one. -/
def shortestFrom (m : Nat) (e : Int) : Nat → Int → Nat × Int
  | 0, k => (binarySide (4 * m) k (e - 2) / gridSide 1 k (e - 2), k)
  | fuel + 1, k =>
    match gridPoint? m e k with
    | some g => (g, k)
    | none => shortestFrom m e fuel (k - 1)

/-- Digits without their trailing zeros, the power of ten moved to match. -/
def dropZeros (g : Nat) (k : Int) : Nat → Nat × Int
  | 0 => (g, k)
  | fuel + 1 => if g != 0 && g % 10 == 0 then dropZeros (g / 10) (k + 1) fuel else (g, k)

/-- The shortest decimal `g * 10 ^ k` that reads back as the positive number `m * 2 ^ e`. -/
def shortest (m : Nat) (e : Int) : Nat × Int :=
  let (g, k) := shortestFrom m e 17 (decimalExponent m e)
  dropZeros g k 18

/-- An exponent with its sign and at least the given number of digits. -/
def exponentText (width : Nat) (e : Int) : String :=
  let ds := toString e.natAbs
  (if e < 0 then "-" else "+") ++ String.ofList (List.replicate (width - ds.length) '0') ++ ds

/-- The written form of digits `ds` whose point stands after `point` places. -/
def placeDigits (style : FloatStyle) (ds : List Char) (point : Int) : String :=
  let n := ds.length
  if style.lowestPoint < point && point ≤ style.highestPoint then
    if point ≤ 0 then "0." ++ String.ofList (List.replicate point.natAbs '0' ++ ds)
    else if n ≤ point.toNat then
      String.ofList (ds ++ List.replicate (point.toNat - n) '0') ++ style.wholeMark
    else String.ofList (ds.take point.toNat) ++ "." ++ String.ofList (ds.drop point.toNat)
  else
    let body := match ds with
      | c :: d :: more => String.ofList (c :: '.' :: d :: more)
      | ds => String.ofList ds
    body ++ style.exponentMark ++ exponentText style.exponentDigits (point - 1)

/-- The written form of a number in a style: the shortest digits that read back. -/
def written (style : FloatStyle) : Binary64 → String
  | .nan => style.nan
  | .infinity negative => (if negative then "-" else "") ++ style.infinity
  | .finite negative m e =>
    let sign := if negative then "-" else ""
    if m = 0 then sign ++ "0" ++ style.wholeMark
    else
      let (g, k) := shortest m e
      let ds := (toString g).toList
      sign ++ placeDigits style ds (k + ds.length)

/-- The written form of a number: positional from `1e-4` up to below `1e16`, a whole number
with `.0` after it, and otherwise one digit before the point and an exponent `e` with its sign
and at least two digits; the infinities are `inf` and `-inf`. -/
def text (x : Binary64) : String :=
  x.written ⟨-4, 16, ".0", "e", 2, "inf", "nan"⟩

end Binary64

end PuzzleKit.Text
