/-! Strict UTF-8 decoding (RFC 3629). A character is one to four bytes: a start byte below
`0x80` alone, `C2`–`DF` with one continuation byte, `E0`–`EF` with two and `F0`–`F4` with
three, where the second byte after `E0` is at least `A0`, after `ED` below `A0`, after `F0` at
least `90` and after `F4` below `90`, and continuation bytes are `80`–`BF`.

Decoding stops at the first malformed character and reports the bytes it spans: a bad start
byte alone, the bytes before a bad continuation byte, or the bytes up to the end when the
text stops inside a character. -/

namespace PuzzleKit.Text

/-- What is wrong with a malformed character. -/
inductive Utf8Fault where
  | invalidStart
  | invalidContinuation
  | truncated
  deriving DecidableEq, Repr

/-- A malformed character: the bytes from `start` to `stop` (exclusive) and the first of them. -/
structure Utf8Error where
  start : Nat
  stop : Nat
  first : UInt8
  fault : Utf8Fault
  deriving Repr

/-- Whether a byte continues a character. -/
def isContinuation (b : UInt8) : Bool := 0x80 ≤ b && b ≤ 0xbf

/-- Whether `b` may follow the start byte `s` as second byte. -/
def secondOk (s b : UInt8) : Bool :=
  isContinuation b &&
    (if s = 0xe0 then 0xa0 ≤ b else if s = 0xed then b < 0xa0
     else if s = 0xf0 then 0x90 ≤ b else if s = 0xf4 then b < 0x90 else true)

/-- The number of bytes of a character with start byte `s`, none for a bad start byte. -/
def charWidth (s : UInt8) : Option Nat :=
  if s < 0x80 then some 1
  else if s < 0xc2 then none
  else if s < 0xe0 then some 2
  else if s < 0xf0 then some 3
  else if s < 0xf5 then some 4
  else none

/-- The value of a character from its start byte and continuation bytes. -/
def charValue (s : UInt8) (cont : List UInt8) : Nat :=
  let lead := match cont.length with
    | 0 => s.toNat
    | 1 => s.toNat &&& 0x1f
    | 2 => s.toNat &&& 0x0f
    | _ => s.toNat &&& 0x07
  cont.foldl (fun acc b => acc * 64 + (b.toNat &&& 0x3f)) lead

/-- How many bytes after the start byte are good continuation bytes, up to `n`. -/
def goodPrefix (s : UInt8) : Nat → List UInt8 → Nat
  | 0, _ => 0
  | _, [] => 0
  | n + 1, b :: bs =>
    let ok := if n + 1 = (charWidth s).getD 1 - 1 then secondOk s b else isContinuation b
    if ok then goodPrefix s n bs + 1 else 0

/-- Decodes bytes from position `i` on. -/
def decodeFrom : List UInt8 → Nat → Except Utf8Error (List Char)
  | [], _ => .ok []
  | s :: rest, i =>
    match charWidth s with
    | none => .error ⟨i, i + 1, s, .invalidStart⟩
    | some w =>
      let need := w - 1
      let good := goodPrefix s need rest
      if good = need then
        (decodeFrom (rest.drop need) (i + w)).map (Char.ofNat (charValue s (rest.take need)) :: ·)
      else if good = rest.length then .error ⟨i, i + 1 + good, s, .truncated⟩
      else .error ⟨i, i + 1 + good, s, .invalidContinuation⟩
termination_by bs => bs.length
decreasing_by simp only [List.length_drop, List.length_cons]; omega

/-- The text that UTF-8 bytes encode, or the first malformed character. -/
def decodeUtf8 (b : List UInt8) : Except Utf8Error String :=
  (decodeFrom b 0).map String.ofList

/-- The report of a malformed character. -/
def Utf8Error.message (e : Utf8Error) : String :=
  let reason := match e.fault with
    | .invalidStart => "invalid start byte"
    | .invalidContinuation => "invalid continuation byte"
    | .truncated => "unexpected end of data"
  let hex2 := fun (n : Nat) =>
    let d := fun k => if k < 10 then Char.ofNat (48 + k) else Char.ofNat (87 + k)
    String.ofList [d (n / 16), d (n % 16)]
  if e.stop - e.start = 1 then
    "'utf-8' codec can't decode byte 0x" ++ hex2 e.first.toNat ++ " in position " ++
      toString e.start ++ ": " ++ reason
  else
    "'utf-8' codec can't decode bytes in position " ++ toString e.start ++ "-" ++
      toString (e.stop - 1) ++ ": " ++ reason

end PuzzleKit.Text
