import PuzzleKit.Text.Pos
import PuzzleKit.SExpr.Token
import PuzzleKit.Tree.Binary
import PuzzleKit.Bytes.Hex
import PuzzleKit.Text.Utf8

/-! Failures that reach a caller. Each has a kind, which tells what went wrong in general,
and a text. Failures of compiling source text (reading characters, reading structure,
checking meaning, generating code) also carry a place, and a failed check carries every
issue it found. -/

namespace PuzzleKit

/-- What kind of thing went wrong. -/
inductive FailureKind where
  | lexical
  | syntactic
  | semantic
  | generation
  | badValue
  | missingKey
  | wrongType
  | outOfRange
  | proofMismatch
  | missingFile
  | noAttribute
  | undecodable
  deriving DecidableEq, Repr, Inhabited

/-- A failure: its kind, its text, its place, and for a failed check the issues it found. -/
structure Failure where
  kind : FailureKind
  text : String
  pos : Option Pos := none
  issues : List (String × Option Pos) := []
  deriving Repr, Inhabited

namespace Failure

def value (text : String) : Failure := ⟨.badValue, text, none, []⟩

def key (text : String) : Failure := ⟨.missingKey, text, none, []⟩

/-- A failure of a value of the wrong type. -/
def type (text : String) : Failure := ⟨.wrongType, text, none, []⟩

/-- A failure of a position past the end of a sequence. -/
def outOfRange : Failure := ⟨.outOfRange, "list index out of range", none, []⟩

def generation (text : String) : Failure := ⟨.generation, text, none, []⟩

/-- The word a compile failure of this kind is announced with. -/
def compileWord : FailureKind → Option String
  | .lexical => some "lex error"
  | .syntactic => some "parse error"
  | .semantic => some "semantic error"
  | .generation => some "generation error"
  | _ => none

/-- The text of one compile fault, with its kind and place in front. -/
def located (word text : String) : Option Pos → String
  | some p => word ++ " at " ++ toString p ++ ": " ++ text
  | none => word ++ ": " ++ text

/-- The full text of a failure: compile faults are announced with their kind and place, and a
failed check lists every issue on a line of its own. -/
def message (f : Failure) : String :=
  match f.kind, compileWord f.kind with
  | .semantic, _ =>
    "\n".intercalate (f.issues.map fun (t, p) => located "semantic error" t p)
  | _, some w => located w f.text f.pos
  | _, none => f.text

/-- Whether the failure is a compile fault. -/
def isCompile (f : Failure) : Bool := (compileWord f.kind).isSome

/-- A reading failure of S-expression text. -/
def ofRead (e : SExpr.ReadError) : Failure :=
  ⟨if e.isLexical then .lexical else .syntactic, e.message, some e.pos, []⟩

def ofDecode (e : DecodeError) : Failure := value e.message

/-- The failure of bytes that are not UTF-8 text. -/
def undecodable (e : Text.Utf8Error) : Failure := ⟨.undecodable, e.message, none, []⟩

/-- The failure of reading hex text that stops at index `i`. -/
def badHex (i : Nat) : Failure :=
  value ("non-hexadecimal number found in fromhex() arg at position " ++ toString i)

end Failure

/-- The text of UTF-8 bytes, failing on bytes that are not UTF-8 text. -/
def utf8Text (b : List UInt8) : Except Failure String :=
  (Text.decodeUtf8 b).mapError Failure.undecodable

/-- Bytes of hex text, failing as hex reading does. -/
def hexBytes (s : String) : Except Failure (List UInt8) :=
  (Bytes.ofHex s).mapError Failure.badHex

/-- The 32 bytes of a hash written in hex, with or without `0x` in front. -/
def hashOfHex (s : String) : Except Failure (List UInt8) := do
  let b ← hexBytes (if s.startsWith "0x" then (s.drop 2).toString else s)
  if b.length != 32 then
    throw (.value ("expected a 32 byte hash, got " ++ toString b.length ++ " bytes"))
  return b

end PuzzleKit
