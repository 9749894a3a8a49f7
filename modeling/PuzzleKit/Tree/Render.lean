import PuzzleKit.Tree.Basic
import PuzzleKit.Bytes.Hex
import PuzzleKit.Text.Digit
import PuzzleKit.Text.Utf8

/-! The compact text of a tree, on one line. An atom is written by its hint: the empty atom
as `()`, a canonical integer in decimal, a symbol that reads back as a symbol bare, a symbol
or string of printable text in double quotes, and anything else as `0x` and hex digits. A
list is written in parentheses with a ` . ` before a tail that is not the empty atom. -/

namespace PuzzleKit

namespace Text

/-- The escape letter of a character that quoted text escapes. -/
def escapeLetter? : Char → Option Char
  | '\n' => some 'n'
  | '\t' => some 't'
  | '\r' => some 'r'
  | '\\' => some '\\'
  | '"' => some '"'
  | _ => none

/-- Text in double quotes, with newline, tab, return, backslash and quote escaped. -/
def quote (s : String) : String :=
  let body := s.toList.flatMap fun c => match escapeLetter? c with
    | some e => ['\\', e]
    | none => [c]
  String.ofList ('"' :: body ++ ['"'])

/-- The text that a pattern anchored at its end sees: a single final newline may stand after
the end. -/
def beforeFinalNewline (s : String) : List Char :=
  match s.toList.reverse with
  | '\n' :: rest => rest.reverse
  | _ => s.toList

/-- Characters that make up a bare symbol. -/
def isSymbolChar (c : Char) : Bool :=
  c.isAlphanum || "_<>=~&|^+*/%!?$@:.-".toList.contains c

/-- Text of an optional minus and one or more decimal digits, up to a final newline. -/
def looksDecimal (s : String) : Bool :=
  match beforeFinalNewline s with
  | '-' :: ds => !ds.isEmpty && ds.all isDigit
  | ds => !ds.isEmpty && ds.all isDigit

/-- A symbol is written bare when it is made of symbol characters (up to a final newline), is
neither `nil` nor `.`, and does not read back as an integer or as hex. -/
def isBareSymbol (s : String) : Bool :=
  let cs := beforeFinalNewline s
  !cs.isEmpty && cs.all isSymbolChar && s != "nil" && s != "." && !looksDecimal s &&
    !s.startsWith "0x"

/-- Text that quoting can write: printable ASCII once newlines, tabs and returns are left out. -/
def isQuotable (s : String) : Bool :=
  s.toList.all fun c => c = '\n' || c = '\t' || c = '\r' || (0x20 ≤ c.toNat && c.toNat ≤ 0x7e)

end Text

/-- Decodes UTF-8 bytes, refusing malformed input. -/
def decodeUtf8? (b : List UInt8) : Option String :=
  (Text.decodeUtf8 b).toOption

/-- `0x` and the hex digits of the bytes. -/
def hexLiteral (b : List UInt8) : String := "0x" ++ Bytes.toHex b

/-- The text of an atom, following its hint. -/
def renderAtom (b : List UInt8) (h : Hint) : String :=
  if b.isEmpty then "()"
  else if h = .int && Bytes.isCanonical b then toString (Bytes.toInt b)
  else if h = .symbol || h = .string then
    match decodeUtf8? b with
    | none => hexLiteral b
    | some s =>
      if h = .symbol && Text.isBareSymbol s then s
      else if Text.isQuotable s then Text.quote s
      else hexLiteral b
  else hexLiteral b

namespace Tree

mutual

/-- Compact text where `head` writes an atom that stands first in a list. -/
def renderWith (head : List UInt8 → Hint → String) : Tree → String
  | .atom b h => renderAtom b h
  | .cons (.atom b h) r => "(" ++ head b h ++ renderTail head r ++ ")"
  | .cons f r => "(" ++ renderWith head f ++ renderTail head r ++ ")"

/-- The text of the rest of a list after its first element. -/
def renderTail (head : List UInt8 → Hint → String) : Tree → String
  | .cons f r => " " ++ renderWith head f ++ renderTail head r
  | .atom b h => if b.isEmpty then "" else " . " ++ renderAtom b h

end

mutual

/-- The compact text of a tree written after `acc`; it builds the text left to right, so
deep trees take time in proportion to their size. -/
def renderOnto (head : List UInt8 → Hint → String) : Tree → String → String
  | .atom b h, acc => acc ++ renderAtom b h
  | .cons (.atom b h) r, acc => renderTailOnto head r (acc ++ "(" ++ head b h) ++ ")"
  | .cons f r, acc => renderTailOnto head r (renderOnto head f (acc ++ "(")) ++ ")"

/-- The rest of a list after its first element, written after `acc`. -/
def renderTailOnto (head : List UInt8 → Hint → String) : Tree → String → String
  | .cons f r, acc => renderTailOnto head r (renderOnto head f (acc ++ " "))
  | .atom b h, acc => if b.isEmpty then acc else acc ++ " . " ++ renderAtom b h

end

mutual

theorem renderOnto_eq (head : List UInt8 → Hint → String) :
    ∀ (t : Tree) (acc : String), renderOnto head t acc = acc ++ renderWith head t
  | .atom b h, acc => by simp [renderOnto, renderWith]
  | .cons (.atom b h) r, acc => by
    simp [renderOnto, renderWith, renderTailOnto_eq head r, String.append_assoc]
  | .cons (.cons f₁ f₂) r, acc => by
    simp [renderOnto, renderWith, renderTailOnto_eq head r, renderOnto_eq head (.cons f₁ f₂),
      String.append_assoc]

theorem renderTailOnto_eq (head : List UInt8 → Hint → String) :
    ∀ (t : Tree) (acc : String), renderTailOnto head t acc = acc ++ renderTail head t
  | .cons f r, acc => by
    simp [renderTailOnto, renderTail, renderTailOnto_eq head r, renderOnto_eq head f,
      String.append_assoc]
  | .atom b h, acc => by
    by_cases hb : b.isEmpty <;> simp [renderTailOnto, renderTail, hb, String.append_assoc]

end

/-- The compact text of a tree. -/
def render (t : Tree) : String := renderOnto renderAtom t ""

end Tree

end PuzzleKit
