/-! Hexadecimal text of byte strings. Writing uses two lowercase digits a byte. Reading takes
pairs of digits of either case, with ASCII blanks allowed between pairs; it fails at the index
of the first character that breaks this, and text holding a non-ASCII character fails at the
first such character. -/

namespace PuzzleKit.Bytes

/-- The lowercase digit of a value below sixteen. -/
def hexDigit (n : Nat) : Char :=
  if n < 10 then Char.ofNat (48 + n) else Char.ofNat (87 + n)

/-- Two lowercase digits a byte, high digit first. -/
def toHex (b : List UInt8) : String :=
  String.ofList (b.flatMap fun x => [hexDigit (x.toNat / 16), hexDigit (x.toNat % 16)])

/-- The value of a hexadecimal digit of either case. -/
def digitValue? (c : Char) : Option Nat :=
  if '0' ≤ c ∧ c ≤ '9' then some (c.toNat - 48)
  else if 'a' ≤ c ∧ c ≤ 'f' then some (c.toNat - 87)
  else if 'A' ≤ c ∧ c ≤ 'F' then some (c.toNat - 55)
  else none

/-- The ASCII blanks that may stand between two digit pairs. -/
def isAsciiBlank (c : Char) : Bool :=
  c = ' ' || c = '\t' || c = '\n' || c = '\r' || c = '\x0b' || c = '\x0c'

/-- Reads digit pairs from position `i` on; the error is the index of the offending character. -/
def readPairs : List Char → Nat → Except Nat (List UInt8)
  | [], _ => .ok []
  | c :: rest, i =>
    if isAsciiBlank c then readPairs rest (i + 1)
    else match digitValue? c with
      | none => .error i
      | some hi => match rest with
        | [] => .error (i + 1)
        | d :: rest' => match digitValue? d with
          | none => .error (i + 1)
          | some lo => (readPairs rest' (i + 2)).map (UInt8.ofNat (hi * 16 + lo) :: ·)

/-- Bytes of hexadecimal text, or the index where reading stops. -/
def ofHex (s : String) : Except Nat (List UInt8) :=
  let cs := s.toList
  match cs.findIdx? (fun c => c.toNat > 127) with
  | some i => .error i
  | none => readPairs cs 0

end PuzzleKit.Bytes
