import PuzzleKit.Text.Digit

/-! Decimal numbers as JSON writes them: an optional minus, digits, an optional fraction and
an optional exponent. A number is read exactly, as a sign, a natural and a power of ten. -/

namespace PuzzleKit.Text

/-- A decimal number: negative or not, and the value `digits * 10 ^ exponent`. -/
structure Decimal where
  negative : Bool
  digits : Nat
  exponent : Int
  deriving Repr, DecidableEq

namespace Decimal

def asciiValue (cs : List Char) : Nat := cs.foldl (fun n c => 10 * n + (c.toNat - 48)) 0

/-- Whether characters are ASCII digits, at least one. -/
def allAscii (cs : List Char) : Bool := !cs.isEmpty && cs.all fun c => '0' ≤ c && c ≤ '9'

/-- Reads the exponent part `e`, `E`, a sign and digits. -/
def readExponent : List Char → Option Int
  | [] => some 0
  | e :: rest =>
    if e != 'e' && e != 'E' then none
    else match rest with
      | '-' :: ds => if allAscii ds then some (-(asciiValue ds : Int)) else none
      | '+' :: ds => if allAscii ds then some (asciiValue ds) else none
      | ds => if allAscii ds then some (asciiValue ds) else none

/-- Reads a number in JSON form. -/
def read? (s : String) : Option Decimal :=
  let (negative, cs) := match s.toList with
    | '-' :: rest => (true, rest)
    | cs => (false, cs)
  let whole := cs.takeWhile fun c => '0' ≤ c && c ≤ '9'
  let rest := cs.drop whole.length
  let (frac, rest) := match rest with
    | '.' :: more =>
      let f := more.takeWhile fun c => '0' ≤ c && c ≤ '9'
      (some f, more.drop f.length)
    | _ => (none, rest)
  if whole.isEmpty then none
  else match frac, readExponent rest with
    | some [], _ => none
    | _, none => none
    | f, some e =>
      let fd := f.getD []
      some ⟨negative, asciiValue (whole ++ fd), e - fd.length⟩

def isZero (d : Decimal) : Bool := d.digits == 0

end Decimal

end PuzzleKit.Text
