import PuzzleKit.Text.Pos
import PuzzleKit.Text.Blank

/-! Tokens of S-expression text. A token is a run of blanks, a `;` remark up to the end of
its line, an opening or closing parenthesis, a tick `'`, a double-quoted string on one line
(a backslash takes the next character with it), or an atom: a run of characters that are
none of these and no control character. A string that does not close on its line, and a
control character that is not blank, stop the scan.

The scan reads one character at a time and returns the tokens before the first failure
together with that failure, so that a reader can report an earlier fault of its own first. -/

namespace PuzzleKit.SExpr

/-- The class of a token. -/
inductive Group where
  | blank
  | remark
  | opening
  | closing
  | tick
  | string
  | atom
  deriving DecidableEq, Repr, Inhabited

/-- The name of a token class in listings. -/
def Group.name : Group → String
  | .blank => "ws"
  | .remark => "comment"
  | .opening => "open"
  | .closing => "close"
  | .tick => "tick"
  | .string => "string"
  | .atom => "atom"

/-- A token, its text and where it starts. -/
structure Token where
  group : Group
  text : String
  pos : Pos
  deriving Repr, Inhabited

/-- Why S-expression text cannot be read. -/
inductive ReadError where
  | unexpectedChar (c : Char) (pos : Pos)
  | unterminatedString (pos : Pos)
  | invalidEscape (after : String) (pos : Pos)
  | invalidHex (text : String) (pos : Pos)
  | extraAfterDot (pos : Pos)
  | unexpectedClose (pos : Pos)
  | missingAfterDot (pos : Pos)
  | unexpectedDot (pos : Pos)
  | nothingBeforeDot (pos : Pos)
  | danglingTick (pos : Pos)
  | missingClose (pos : Pos)
  | emptyInput
  | severalEntries
  deriving Repr, Inhabited

namespace ReadError

/-- A control character as a quoted escape, `'\x07'`. -/
def showControl (c : Char) : String :=
  let n := c.toNat
  let d := fun k => if k < 10 then Char.ofNat (48 + k) else Char.ofNat (87 + k)
  String.ofList ['\'', '\\', 'x', d (n / 16 % 16), d (n % 16), '\'']

def message : ReadError → String
  | .unexpectedChar c _ => "unexpected character " ++ showControl c
  | .unterminatedString _ => "unterminated string"
  | .invalidEscape a _ => "invalid escape \\" ++ a
  | .invalidHex t _ => "invalid hex literal " ++ t
  | .extraAfterDot _ => "cannot have multiple elements after . in list"
  | .unexpectedClose _ => "unexpected )"
  | .missingAfterDot _ => "missing element after ."
  | .unexpectedDot _ => "unexpected ."
  | .nothingBeforeDot _ => "must have one or more elements before . in list"
  | .danglingTick _ => "tick without following element"
  | .missingClose _ => "missing )"
  | .emptyInput => "empty input"
  | .severalEntries => "multiple unbracketed entries"

/-- Where the fault is; faults of the whole text are at its start. -/
def pos : ReadError → Pos
  | .unexpectedChar _ p | .unterminatedString p | .invalidEscape _ p | .invalidHex _ p
  | .extraAfterDot p | .unexpectedClose p | .missingAfterDot p | .unexpectedDot p
  | .nothingBeforeDot p | .danglingTick p | .missingClose p => p
  | .emptyInput | .severalEntries => Pos.start

/-- Faults of single characters, as opposed to faults of structure. -/
def isLexical : ReadError → Bool
  | .unexpectedChar _ _ | .unterminatedString _ | .invalidEscape _ _ => true
  | _ => false

end ReadError

def isAtomChar (c : Char) : Bool :=
  !Text.isBlank c && c.toNat ≥ 0x20 && c.toNat ≠ 0x7f &&
    c ≠ '(' && c ≠ ')' && c ≠ '"' && c ≠ ';' && c ≠ '\''

/-- The token being read: its class, start and characters so far (last first). -/
inductive Partial where
  | idle
  | run (g : Group) (start : Pos) (acc : List Char)
  | string (start : Pos) (acc : List Char) (escaped : Bool)

/-- The token a finished run makes. -/
def Partial.finish : Partial → List Token
  | .idle => []
  | .run g p acc => [⟨g, String.ofList acc.reverse, p⟩]
  | .string p acc _ => [⟨.string, String.ofList acc.reverse, p⟩]

/-- Starts a token at character `c`. -/
def begin (c : Char) (p : Pos) : Except ReadError (List Token × Partial) :=
  if Text.isBlank c then .ok ([], .run .blank p [c])
  else if c = ';' then .ok ([], .run .remark p [c])
  else if c = '(' then .ok ([⟨.opening, "(", p⟩], .idle)
  else if c = ')' then .ok ([⟨.closing, ")", p⟩], .idle)
  else if c = '\'' then .ok ([⟨.tick, "'", p⟩], .idle)
  else if c = '"' then .ok ([], .string p [c] false)
  else if isAtomChar c then .ok ([], .run .atom p [c])
  else .error (.unexpectedChar c p)

/-- Whether a run of class `g` goes on with `c`. -/
def continues (g : Group) (c : Char) : Bool :=
  match g with
  | .blank => Text.isBlank c
  | .remark => c ≠ '\n'
  | .atom => isAtomChar c
  | _ => false

/-- Reads character `c` at `p`: the tokens it completes, and the token now being read or the
failure at `c`. A run that `c` ends is complete even when `c` itself fails. -/
def step (st : Partial) (c : Char) (p : Pos) : List Token × Except ReadError Partial :=
  let start := fun (done : List Token) => match begin c p with
    | .ok (ts, st') => (done ++ ts, .ok st')
    | .error e => (done, .error e)
  match st with
  | .idle => start []
  | .run g first acc =>
    if continues g c then ([], .ok (.run g first (c :: acc)))
    else start st.finish
  | .string first acc escaped =>
    if c = '\n' then ([], .error (.unterminatedString first))
    else if escaped then ([], .ok (.string first (c :: acc) false))
    else if c = '"' then ([⟨.string, String.ofList (c :: acc).reverse, first⟩], .ok .idle)
    else ([], .ok (.string first (c :: acc) (c = '\\')))

/-- Tokens of the rest of the text, given the token being read and the place of the next
character; the tokens before a failure come with it. -/
def scanFrom : List Char → Partial → Pos → List Token × Option ReadError
  | [], .string start _ _, _ => ([], some (.unterminatedString start))
  | [], st, _ => (st.finish, none)
  | c :: cs, st, p =>
    match step st c p with
    | (ts, .error e) => (ts, some e)
    | (ts, .ok st') => let (rest, e) := scanFrom cs st' (p.advance c); (ts ++ rest, e)

/-- The tokens of a text, and the failure that stops the scan if there is one. -/
def scan (s : String) : List Token × Option ReadError :=
  scanFrom s.toList .idle Pos.start

/-- All tokens of a text, or the failure that stops the scan. -/
def tokens (s : String) : Except ReadError (List Token) :=
  match scan s with
  | (ts, none) => .ok ts
  | (_, some e) => .error e

end PuzzleKit.SExpr
