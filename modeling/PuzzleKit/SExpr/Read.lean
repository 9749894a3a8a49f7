import PuzzleKit.SExpr.Token
import PuzzleKit.Tree.Noted
import PuzzleKit.Tree.Render
import PuzzleKit.Bytes.Hex

/-! Reading S-expression text into trees, keeping its remarks.

An atom token is the empty atom when it is `nil`, an integer when it is decimal (digits of
any script, an optional minus), hex bytes when it starts with `0x` (an odd digit count gets a
leading zero), and a symbol otherwise. A string token is a string atom after its escapes
`\n \t \r \\ \" \'` are replaced. A tick `'x` reads as the pair `(q . x)`. A list may end with
`. tail`. `()` is the shared empty list, which also ends every list without a tail.

A remark belongs to the next part that is completed: an atom, a list (remarks before its
opening parenthesis, then those before its closing one), or a ticked part (remarks before the
tick). Remarks after the last part are trailing. The first fault in reading order wins, a
fault of structure before a later fault of characters. -/

namespace PuzzleKit.SExpr

/-- A list being read: its parts so far (last first), the count of parts before its dot, where
it opened, the remarks that came before it, and whether it is a tick waiting for its part. -/
structure Frame where
  items : List Noted
  dot : Option Nat
  pos : Pos
  notes : List String
  tick : Bool

/-- The reader between tokens: the outermost level, the open lists (innermost first), remarks
not yet attached, and the remarks of the shared empty list. -/
structure Reader where
  top : Frame
  inner : List Frame
  pending : List String
  remarks : Remarks

namespace Reader

/-- The innermost list being read. -/
def current (r : Reader) : Frame :=
  match r.inner with
  | f :: _ => f
  | [] => r.top

/-- Replaces the innermost list being read. -/
def setCurrent (r : Reader) (f : Frame) : Reader :=
  match r.inner with
  | _ :: fs => { r with inner := f :: fs }
  | [] => { r with top := f }

/-- Attaches the pending remarks to a completed part. -/
def attach (r : Reader) (el : Noted) : Reader × Noted :=
  let (el, rm) := el.attach r.remarks r.pending
  ({ r with pending := [], remarks := rm }, el)

/-- The pair `(q . x)` that a tick before `x` reads as, with the remarks before the tick. -/
def quoted (x : Noted) (notes : List String) : Noted :=
  .cons (.atom "q".toUTF8.toList .symbol (.own [])) x (.own notes)

/-- Closes every tick whose part is complete, innermost first. -/
def closeTicks : List Frame → Frame → List Frame × Frame
  | [], top => ([], top)
  | [f], top =>
    match f.tick, f.items with
    | true, x :: _ => ([], { top with items := quoted x f.notes :: top.items })
    | _, _ => ([f], top)
  | f :: g :: gs, top =>
    match f.tick, f.items with
    | true, x :: _ => closeTicks ({ g with items := quoted x f.notes :: g.items } :: gs) top
    | _, _ => (f :: g :: gs, top)
termination_by fs => fs.length

/-- Adds a completed part to the innermost list; `p` is where the current token starts. -/
def add (r : Reader) (el : Noted) (p : Pos) : Except ReadError Reader :=
  let (r, el) := r.attach el
  let f := r.current
  match f.dot with
  | some d =>
    if f.items.length > d then .error (.extraAfterDot p)
    else
      let r := r.setCurrent { f with items := el :: f.items }
      let (o, t) := closeTicks r.inner r.top
      .ok { r with inner := o, top := t }
  | none =>
    let r := r.setCurrent { f with items := el :: f.items }
    let (o, t) := closeTicks r.inner r.top
    .ok { r with inner := o, top := t }

end Reader

/-- The text of a string token between its quotes, escapes replaced. -/
def unescape (p : Pos) : List Char → Except ReadError (List Char)
  | [] => .ok []
  | '\\' :: c :: rest =>
    let e := match c with
      | 'n' => some '\n'
      | 't' => some '\t'
      | 'r' => some '\r'
      | '\\' => some '\\'
      | '"' => some '"'
      | '\'' => some '\''
      | _ => none
    match e with
    | some x => (unescape p rest).map (x :: ·)
    | none => .error (.invalidEscape (String.singleton c) p)
  | ['\\'] => .error (.invalidEscape "None" p)
  | c :: rest => (unescape p rest).map (c :: ·)

/-- Whether text is an optional minus and decimal digits of any script. -/
def isDecimalText (cs : List Char) : Bool :=
  match cs with
  | '-' :: ds => !ds.isEmpty && ds.all Text.isDigit
  | ds => !ds.isEmpty && ds.all Text.isDigit

def decimalValue (cs : List Char) : Int :=
  match cs with
  | '-' :: ds => -((Text.digitsValue? ds).getD 0 : Int)
  | ds => ((Text.digitsValue? ds).getD 0 : Int)

def atomOf (text : String) (p : Pos) : Except ReadError Noted :=
  let cs := text.toList
  if text = "nil" then .ok (.atom [] .bytes (.own []))
  else if isDecimalText cs then .ok (.atom (Bytes.ofInt (decimalValue cs)) .int (.own []))
  else if text.startsWith "0x" then
    let digits := cs.drop 2
    if !digits.isEmpty && digits.all (fun c => (Bytes.digitValue? c).isSome) then
      let padded := if digits.length % 2 = 1 then '0' :: digits else digits
      match Bytes.ofHex (String.ofList padded) with
      | .ok b => .ok (.atom b .bytes (.own []))
      | .error _ => .error (.invalidHex text p)
    else .error (.invalidHex text p)
  else .ok (.atom text.toUTF8.toList .symbol (.own []))

/-- What a reading produced: the parts at the outermost level, the remarks of the shared empty
list, and the trailing remarks. -/
structure Reading where
  items : List Noted
  remarks : Remarks
  trailing : List String
  deriving Inhabited

def Reader.feed (r : Reader) (t : Token) : Except ReadError Reader :=
  match t.group with
  | .blank => .ok r
  | .remark => .ok { r with pending := r.pending ++ [Text.trim (String.ofList (t.text.toList.drop 1))] }
  | .opening => .ok { r with inner := ⟨[], none, t.pos, r.pending, false⟩ :: r.inner, pending := [] }
  | .tick => .ok { r with inner := ⟨[], none, t.pos, r.pending, true⟩ :: r.inner, pending := [] }
  | .closing =>
    match r.inner with
    | [] => .error (.unexpectedClose t.pos)
    | f :: fs =>
      if f.tick then .error (.unexpectedClose t.pos)
      else
        let parts := f.items.reverse
        let built : Except ReadError Noted :=
          match f.dot with
          | some d =>
            if parts.length = d then .error (.missingAfterDot t.pos)
            else
              match f.items with
              | tail :: before => .ok (Noted.ofList before.reverse tail)
              | [] => .ok Noted.nil
          | none => .ok (Noted.ofList parts)
        built.bind fun el =>
          Reader.add { r with inner := fs, pending := f.notes ++ r.pending } el t.pos
  | .string =>
    let body := (t.text.toList.drop 1).dropLast
    (unescape t.pos body).bind fun cs =>
      r.add (.atom (String.ofList cs).toUTF8.toList .string (.own [])) t.pos
  | .atom =>
    if t.text = "." then
      let f := r.current
      if r.inner.isEmpty || f.tick then .error (.unexpectedDot t.pos)
      else if f.items.isEmpty || f.dot.isSome then .error (.nothingBeforeDot t.pos)
      else .ok (r.setCurrent { f with dot := some f.items.length })
    else (atomOf t.text t.pos).bind fun el => r.add el t.pos

/-- Reads tokens in order; the first fault stops. -/
def Reader.feedAll (r : Reader) : List Token → Except ReadError Reader
  | [] => .ok r
  | t :: ts => (r.feed t).bind fun r' => r'.feedAll ts

/-- Reads every part of a text, with its remarks. -/
def readAll (s : String) : Except ReadError Reading :=
  let (toks, lexFault) := scan s
  let start : Reader := ⟨⟨[], none, Pos.start, [], false⟩, [], [], {}⟩
  (start.feedAll toks).bind fun r =>
    match lexFault with
    | some e => .error e
    | none =>
      let f := r.current
      if f.tick then .error (.danglingTick f.pos)
      else if !r.inner.isEmpty then .error (.missingClose f.pos)
      else .ok ⟨r.top.items.reverse, r.remarks, r.pending⟩

/-- Reads a text that holds exactly one part. -/
def readOne (s : String) : Except ReadError (Noted × Reading) :=
  (readAll s).bind fun rd =>
    match rd.items with
    | [] => .error .emptyInput
    | [x] => .ok (x, rd)
    | _ => .error .severalEntries

/-- The tree of a text that holds exactly one part. -/
def parse (s : String) : Except ReadError Tree :=
  (readOne s).map fun (x, _) => x.tree

/-- The trees of every part of a text. -/
def parseMany (s : String) : Except ReadError (List Tree) :=
  (readAll s).map fun rd => rd.items.map Noted.tree

end PuzzleKit.SExpr
