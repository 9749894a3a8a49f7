import PuzzleKit.Text.Decimal

/-! Binary floating-point numbers of double precision. A finite number is a sign and the value
`mantissa * 2 ^ exponent`, with a mantissa below `2 ^ 53` and an exponent from `-1074` to `971`;
it is kept in one form only, the mantissa being at least `2 ^ 52` unless the exponent is
`-1074`, and zero having the exponent `-1074`. Beyond the finite numbers stand the two
infinities and the one not-a-number.

A decimal is read as the nearest finite number, a tie going to the even mantissa, or as an
infinity when it is at least as far out as the first power of two beyond the largest. Numbers
compare by value: the two zeros are equal, and not-a-number equals nothing. -/

namespace PuzzleKit.Text

/-- A double-precision number. -/
inductive Binary64 where
  | finite (negative : Bool) (mantissa : Nat) (exponent : Int)
  | infinity (negative : Bool)
  | nan
  deriving DecidableEq, Repr, Inhabited

namespace Binary64

/-- The number of binary digits of the mantissa. -/
def precision : Nat := 53

/-- The exponent of the smallest numbers, those below `2 ^ -1022`. -/
def minExponent : Int := -1074

def maxExponent : Int := 971

/-- The quotient `n / d` rounded to the nearest natural, a tie going to the even one. -/
def roundHalfEven (n d : Nat) : Nat :=
  let q := n / d
  let r := n % d
  if d < 2 * r || (2 * r == d && q % 2 == 1) then q + 1 else q

/-- The number of binary digits of a natural; zero has none. -/
def bitLength (n : Nat) : Nat := if n = 0 then 0 else n.log2 + 1

/-- The fraction `num / den` scaled by `2 ^ -e`. -/
def scaledBy (num den : Nat) (e : Int) (round : Nat → Nat → Nat) : Nat :=
  if 0 ≤ e then round num (den * Nat.pow 2 e.toNat) else round (num * Nat.pow 2 (-e).toNat) den

/-- The number nearest to the fraction `num / den`, with the given sign. -/
def ofFraction (negative : Bool) (num den : Nat) : Binary64 :=
  if num = 0 then .finite negative 0 minExponent
  else
    -- at this exponent the quotient lies in [2^51, 2^53)
    let e0 : Int := (bitLength num : Int) - bitLength den - (precision - 1 : Nat)
    let e1 := if scaledBy num den e0 (· / ·) < Nat.pow 2 (precision - 1) then e0 - 1 else e0
    let e := max e1 minExponent
    let m := scaledBy num den e roundHalfEven
    let (m, e) := if m = Nat.pow 2 precision then (Nat.pow 2 (precision - 1), e + 1) else (m, e)
    if maxExponent < e then .infinity negative else .finite negative m e

/-- The number nearest to a decimal. A decimal of more than 310 places before its point is an
infinity, and one below `10 ^ -325` a zero, so no large power is formed. -/
def ofDecimal (d : Decimal) : Binary64 :=
  let places : Int := (toString d.digits).length + d.exponent
  if d.digits = 0 || places < -325 then .finite d.negative 0 minExponent
  else if 310 < places then .infinity d.negative
  else if 0 ≤ d.exponent then ofFraction d.negative (d.digits * Nat.pow 10 d.exponent.toNat) 1
  else ofFraction d.negative d.digits (Nat.pow 10 (-d.exponent).toNat)

/-- Reads a number as JSON text gives it, the words `Infinity`, `-Infinity` and `NaN`
included. -/
def read? (s : String) : Option Binary64 :=
  if s = "Infinity" then some (.infinity false)
  else if s = "-Infinity" then some (.infinity true)
  else if s = "NaN" then some .nan
  else (Decimal.read? s).map ofDecimal

/-- Whether the number is a zero of either sign. -/
def isZero : Binary64 → Bool
  | .finite _ m _ => m == 0
  | _ => false

def equal : Binary64 → Binary64 → Bool
  | .finite s m e, .finite t n f => (m == 0 && n == 0) || (s == t && m == n && e == f)
  | .infinity s, .infinity t => s == t
  | _, _ => false

/-- The integer the number equals, if it is finite and whole. -/
def toInt? : Binary64 → Option Int
  | .finite s m e =>
    let sign : Int := if s then -1 else 1
    if 0 ≤ e then some (sign * (m * Nat.pow 2 e.toNat : Nat))
    else
      let p := Nat.pow 2 (-e).toNat
      if m % p = 0 then some (sign * (m / p : Nat)) else none
  | _ => none

def equalsInt (x : Binary64) (i : Int) : Bool := x.toInt? == some i

/-- How the number compares with an integer, exactly; not-a-number compares with nothing. -/
def compareInt : Binary64 → Int → Option Ordering
  | .nan, _ => none
  | .infinity negative, _ => some (if negative then .lt else .gt)
  | .finite s m e, i =>
    let signed : Int := if s then -(m : Int) else m
    if 0 ≤ e then some (compare (signed * (Nat.pow 2 e.toNat : Nat)) i)
    else some (compare signed (i * (Nat.pow 2 (-e).toNat : Nat)))

theorem equal_comm (x y : Binary64) : x.equal y = y.equal x := by
  cases x <;> cases y <;> simp [equal, Bool.beq_comm, Bool.and_comm, Bool.or_comm]

theorem roundHalfEven_le (n d : Nat) : roundHalfEven n d ≤ n / d + 1 := by
  simp only [roundHalfEven]
  split <;> omega

theorem le_roundHalfEven (n d : Nat) : n / d ≤ roundHalfEven n d := by
  simp only [roundHalfEven]
  split <;> omega

end Binary64

end PuzzleKit.Text
