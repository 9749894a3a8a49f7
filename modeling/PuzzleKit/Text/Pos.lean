/-! Positions in source text: a line and a column, both counted from one, where a column
counts characters since the last newline. -/

namespace PuzzleKit

/-- A place in source text. -/
structure Pos where
  line : Nat
  col : Nat
  deriving DecidableEq, Repr, Inhabited

namespace Pos

def start : Pos := ⟨1, 1⟩

/-- The place after a character: a newline starts the next line. -/
def advance (p : Pos) (c : Char) : Pos :=
  if c = '\n' then ⟨p.line + 1, 1⟩ else ⟨p.line, p.col + 1⟩

/-- The place after some text. -/
def advanceAll (p : Pos) (cs : List Char) : Pos := cs.foldl advance p

instance : ToString Pos := ⟨fun p => toString p.line ++ ":" ++ toString p.col⟩

end Pos

end PuzzleKit
