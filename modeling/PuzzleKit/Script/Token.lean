import PuzzleKit.Failure
import PuzzleKit.Value

/-! Tokens of CoinScript source. A scan tries, at each place, blanks, line and block comments,
hex literals `0x…`, decimal numbers, quoted strings, names and operators, in that order, and
takes the first that matches. Names split into keywords, type names and plain identifiers;
two-character operators win over their one-character prefixes. -/

namespace PuzzleKit.Script

/-- What a token is, with its value. -/
inductive Lexeme where
  | keyword (word : String)
  | type (name : String)
  | ident (name : String)
  | number (n : Nat)
  | hex (bytes : List UInt8)
  | string (text : String)
  | op (sym : String)
  | eof
  deriving DecidableEq, Repr, Inhabited

/-- A token and where it starts. -/
structure Token where
  lexeme : Lexeme
  pos : Pos
  deriving Repr, Inhabited

namespace Lexeme

/-- The name of the class of a token. -/
def kind : Lexeme → String
  | .keyword _ => "keyword"
  | .type _ => "type"
  | .ident _ => "ident"
  | .number _ => "number"
  | .hex _ => "hex"
  | .string _ => "string"
  | .op _ => "op"
  | .eof => "eof"

/-- The value of a token as a host value; the end of input has none. -/
def value : Lexeme → Value
  | .keyword s | .type s | .ident s | .string s | .op s => .str s
  | .number n => .int n
  | .hex b => .bytes b
  | .eof => .none

/-- How a token is named in a fault: its class and written value. -/
def describe : Lexeme → String
  | .eof => "end of input"
  | l => l.kind ++ " " ++ l.value.repr

end Lexeme

def keywords : List String :=
  ["coin", "storage", "state", "const", "action", "event", "require", "send", "emit", "if",
    "else", "return", "include", "function", "inline", "true", "false", "exception"]

/-- The type names: integers of every width from 8 to 256 bits in steps of 8, signed and
unsigned, and the other field types. -/
def typeNames : List String :=
  ((List.range 32).flatMap fun i => ["uint" ++ toString (8 * (i + 1)), "int" ++ toString (8 * (i + 1))])
    ++ ["address", "bool", "bytes", "bytes32", "string", "mapping"]

def pairOps : List String := ["=>", "->", "==", "!=", "<=", ">=", "&&", "||", "+=", "-="]

def singleOps : List Char := "-+*/%<>=!(){}[];,.@:".toList

/-- Whether a character is an ASCII decimal digit. -/
def isDigitChar (c : Char) : Bool := '0' ≤ c && c ≤ '9'

/-- Whether a character is an ASCII hex digit. -/
def isHexChar (c : Char) : Bool := isDigitChar c || ('a' ≤ c && c ≤ 'f') || ('A' ≤ c && c ≤ 'F')

/-- Whether a character may start a name. -/
def isNameStart (c : Char) : Bool := ('a' ≤ c && c ≤ 'z') || ('A' ≤ c && c ≤ 'Z') || c = '_'

/-- Whether a character may go on in a name. -/
def isNameChar (c : Char) : Bool := isNameStart c || isDigitChar c

/-- Whether a character is a blank between tokens. -/
def isGap (c : Char) : Bool := c = ' ' || c = '\t' || c = '\r' || c = '\n'

/-- The text up to the first `*/` and the text after it, if the comment ends. -/
def blockEnd : List Char → Option (List Char × List Char)
  | '*' :: '/' :: rest => some (['*', '/'], rest)
  | c :: rest => (blockEnd rest).map fun (body, after) => (c :: body, after)
  | [] => none

/-- The body of a quoted string up to its closing quote `q`, and the text after it: a
backslash keeps the character after it, whatever it is, and a bare newline ends the string
without closing it. -/
def quoted (q : Char) : List Char → Option (List Char × List Char)
  | '\\' :: c :: rest => (quoted q rest).map fun (body, after) => ('\\' :: c :: body, after)
  | c :: rest =>
    if c = q then some ([], rest)
    else if c = '\\' || c = '\n' then none
    else (quoted q rest).map fun (body, after) => (c :: body, after)
  | [] => none

/-- The character an escape letter stands for. -/
def escapeOf? : Char → Option Char
  | 'n' => some '\n'
  | 't' => some '\t'
  | 'r' => some '\r'
  | '\\' => some '\\'
  | '"' => some '"'
  | '\'' => some '\''
  | '0' => some (Char.ofNat 0)
  | _ => none

/-- The text a string body stands for, with its escapes replaced. -/
def unescape (pos : Pos) : List Char → Except Failure (List Char)
  | '\\' :: c :: rest =>
    match escapeOf? c with
    | some e => (e :: ·) <$> unescape pos rest
    | none => .error ⟨.lexical, "invalid escape \\" ++ String.singleton c, some pos, []⟩
  | c :: rest => (c :: ·) <$> unescape pos rest
  | [] => .ok []

def digitsValue (ds : List Char) : Nat := ds.foldl (fun n c => 10 * n + (c.toNat - 48)) 0

/-- The bytes of a run of hex digits, with a zero in front when the run is odd. -/
def hexValue (ds : List Char) : List UInt8 :=
  let ds := if ds.length % 2 = 1 then '0' :: ds else ds
  let v := fun (c : Char) => (Bytes.digitValue? c).getD 0
  let rec pairs : List Char → List UInt8
    | a :: b :: rest => (v a * 16 + v b).toUInt8 :: pairs rest
    | _ => []
  pairs ds

def nameLexeme (s : String) : Lexeme :=
  if keywords.contains s then .keyword s
  else if typeNames.contains s then .type s
  else .ident s

def lexFault (text : String) (pos : Pos) : Failure := ⟨.lexical, text, some pos, []⟩

/-- One step of the scan at a place: the token found, if the text there is not blank or a
comment, and the characters it takes; at least one character is always taken. -/
def next (cs : List Char) (pos : Pos) : Except Failure (Option Lexeme × List Char × List Char) :=
  match cs with
  | [] => .ok (none, [], [])
  | c :: rest =>
    if isGap c then
      let run := rest.takeWhile isGap
      .ok (none, c :: run, rest.drop run.length)
    else if c = '/' && rest.head? = some '/' then
      let run := cs.takeWhile (· ≠ '\n')
      .ok (none, run, cs.drop run.length)
    else if c = '/' && rest.head? = some '*' then
      match blockEnd (rest.drop 1) with
      | some (body, after) => .ok (none, '/' :: '*' :: body, after)
      | none => .error (lexFault "unterminated block comment" pos)
    else if c = '0' && rest.head? = some 'x' then
      let ds := (rest.drop 1).takeWhile isHexChar
      if ds.isEmpty then .error (lexFault "hex literal without digits" pos)
      else .ok (some (.hex (hexValue ds)), '0' :: 'x' :: ds, (rest.drop 1).drop ds.length)
    else if isDigitChar c then
      let ds := rest.takeWhile isDigitChar
      .ok (some (.number (digitsValue (c :: ds))), c :: ds, rest.drop ds.length)
    else if c = '"' || c = '\'' then
      match quoted c rest with
      | some (body, after) => do
        let text ← unescape pos body
        .ok (some (.string (String.ofList text)), c :: body ++ [c], after)
      | none => .error (lexFault "unterminated string" pos)
    else if isNameStart c then
      let run := rest.takeWhile isNameChar
      .ok (some (nameLexeme (String.ofList (c :: run))), c :: run, rest.drop run.length)
    else
      match rest with
      | d :: more =>
        if pairOps.contains (String.ofList [c, d]) then .ok (some (.op (String.ofList [c, d])), [c, d], more)
        else if singleOps.contains c then .ok (some (.op (String.singleton c)), [c], rest)
        else .error (lexFault ("unexpected character " ++ Value.reprStr (String.singleton c)) pos)
      | [] =>
        if singleOps.contains c then .ok (some (.op (String.singleton c)), [c], rest)
        else .error (lexFault ("unexpected character " ++ Value.reprStr (String.singleton c)) pos)

/-- The tokens of the rest of the text from a place, ending with the end of input; `fuel`
bounds the number of steps, and each step takes at least one character. -/
def scanFrom : Nat → List Char → Pos → Except Failure (List Token)
  | 0, _, pos => .ok [⟨.eof, pos⟩]
  | fuel + 1, cs, pos =>
    if cs.isEmpty then .ok [⟨.eof, pos⟩]
    else do
      let (tok, taken, rest) ← next cs pos
      let more ← scanFrom fuel rest (pos.advanceAll taken)
      match tok with
      | some l => return ⟨l, pos⟩ :: more
      | none => return more

/-- The tokens of CoinScript source, ending with the end of input. -/
def tokenize (source : String) : Except Failure (List Token) :=
  scanFrom (source.length + 1) source.toList Pos.start

end PuzzleKit.Script
