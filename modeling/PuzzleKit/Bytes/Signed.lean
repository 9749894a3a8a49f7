/-! Integers as atoms: big-endian two's complement in the fewest bytes, zero as no bytes.
`ofInt` writes, `toInt` reads, and a byte string is canonical when writing what it reads
gives it back. -/

namespace PuzzleKit.Bytes

/-- The `w` little-endian bytes of `n`; bits above `8 * w` are dropped. -/
def toLE : Nat → Nat → List UInt8
  | 0, _ => []
  | w + 1, n => UInt8.ofNat (n % 256) :: toLE w (n / 256)

/-- The natural with the given big-endian bytes. -/
def ofBE (b : List UInt8) : Nat :=
  b.foldl (fun acc x => acc * 256 + x.toNat) 0

/-- Number of binary digits of `n`; zero has none. -/
def bitLength (n : Nat) : Nat :=
  if n = 0 then 0 else n.log2 + 1

/-- `i` in `w` bytes of two's complement, most significant first; bits above `8 * w` are
dropped. -/
def toSigned (w : Nat) (i : Int) : List UInt8 :=
  (toLE w (i % (Nat.pow 2 (8 * w) : Nat)).toNat).reverse

/-- Drops the first byte while it only extends the sign of the next one. -/
def stripSign : List UInt8 → List UInt8
  | x :: y :: r =>
    if (x = 0x00 ∧ y < 0x80) ∨ (x = 0xff ∧ 0x80 ≤ y) then stripSign (y :: r) else x :: y :: r
  | b => b

/-- The two's complement bytes of `i`, none for zero: first in one byte more than the binary
digits of its magnitude fill, then without the leading bytes that only extend the sign. -/
def ofInt (i : Int) : List UInt8 :=
  if i = 0 then [] else stripSign (toSigned ((bitLength i.natAbs + 8) / 8) i)

/-- The integer that big-endian two's complement bytes denote; no bytes denote zero. -/
def toInt (b : List UInt8) : Int :=
  match b with
  | [] => 0
  | x :: _ =>
    if x.toNat ≥ 128 then (ofBE b : Int) - (Nat.pow 2 (8 * b.length) : Nat) else (ofBE b : Int)

/-- A byte string is canonical when it is the minimal form of the integer it denotes. -/
def isCanonical (b : List UInt8) : Bool :=
  ofInt (toInt b) == b

end PuzzleKit.Bytes
