import PuzzleKit.Tree.Noted
import PuzzleKit.Opcode
import PuzzleKit.Failure
import PuzzleKit.Bound

/-! Indented layout of trees, keeping their remarks.

A part is written on one line when no part inside it carries a remark, the line fits the
width, and its lists nest no deeper than the flat depth. Otherwise a list opens a line with
its head and, for the heads of definitions and conditionals, the first arguments that fit;
every other element follows on a line of its own, indented one step further, and the closing
parenthesis ends the last line. A remark stands on its own line, `; ` and its text, before
the part it belongs to. Layout fails when parts nest deeper than the depth limit. -/

namespace PuzzleKit

/-- The decisions of a layout. -/
structure Style where
  indented : Bool := false
  width : Bound := .whole 80
  keywords : Bool := false
  flatDepth : Bound := .whole 3
  maxDepth : Bound := .whole 500

def indentStep : String := "  "

/-- How many arguments stay on the line of these heads. -/
def headArgs (name : String) : Nat :=
  match name with
  | "mod" => 1
  | "defun" => 2
  | "defun-inline" => 2
  | "defmacro" => 2
  | "defconstant" => 2
  | "lambda" => 1
  | "include" => 1
  | "if" => 1
  | "i" => 1
  | _ => 0

namespace Noted

/-- The deepest nesting of lists in a part; an atom has none. -/
def listDepth : Noted → Nat
  | .cons f r _ => max (f.listDepth + 1) (chainDepth r)
  | .atom _ _ _ => 0
where
  chainDepth : Noted → Nat
    | .cons f r _ => max (f.listDepth + 1) (chainDepth r)
    | .atom _ _ _ => 0

/-- Whether a part or anything inside it carries a remark. -/
def hasNotes (rm : Remarks) : Noted → Bool
  | .atom b h t => !((Noted.atom b h t).notesIn rm).isEmpty
  | .cons f r t => !((Noted.cons f r t).notesIn rm).isEmpty || f.hasNotes rm || r.hasNotes rm

/-- Whether an element of a chain, or the tail that ends it when that is not an empty atom,
carries a remark; the pairs of the chain and an empty end do not count. -/
def chainHasNotes (rm : Remarks) : Noted → Bool
  | .cons f r _ => f.hasNotes rm || chainHasNotes rm r
  | t => !t.isNil && t.hasNotes rm

end Noted

namespace Style

/-- The one-line text of a part. -/
def flat (st : Style) (n : Noted) : String :=
  if st.keywords then n.tree.renderKeywords else n.tree.render

/-- The name of a head atom, which decides how many arguments stay on its line. -/
def headName (st : Style) (b : List UInt8) (h : Hint) : String :=
  if st.keywords then keywordAtom b h else renderAtom b h

/-- How many leading elements of a chain fit on the head line, up to `k`. -/
def onHeadLine (st : Style) (rm : Remarks) (indent : String) :
    Nat → Noted → Except Failure Nat
  | 0, _ => .ok 0
  | k + 1, .cons f r _ =>
    if f.hasNotes rm then .ok 0
    else do
      if ← st.width.exceededBy (indent.length + (st.flat f).length) then return 0
      return (← onHeadLine st rm indent k r) + 1
  | _ + 1, _ => .ok 0

/-- The chain after its first `k` elements. -/
def dropItems : Nat → Noted → Noted
  | 0, n => n
  | k + 1, .cons _ r _ => dropItems k r
  | _ + 1, n => n

/-- The first `k` elements of a chain. -/
def takeItems : Nat → Noted → List Noted
  | 0, _ => []
  | k + 1, .cons f r _ => f :: takeItems k r
  | _ + 1, _ => []

/-- The lines with a closing parenthesis after the last one. -/
def closeLast (lines : List String) : List String :=
  match lines.reverse with
  | last :: before => ((last ++ ")") :: before).reverse
  | [] => [")"]

/-- The fault of nesting deeper than the limit. -/
def tooDeep (st : Style) : Failure :=
  .generation ("expression nests deeper than " ++ st.maxDepth.text ++ " levels")

def noteLines (sn : Remarks) (n : Noted) (indent : String) : List String :=
  (n.notesIn sn).map fun c => indent ++ "; " ++ c

/-- The lines of a part that is written on one line. -/
def leaf (st : Style) (sn : Remarks) (n : Noted) (indent : String) (depth : Nat) :
    Except Failure (List String) := do
  if ← st.maxDepth.exceededBy depth then throw st.tooDeep
  return noteLines sn n indent ++ [indent ++ st.flat n]

/-- The atom at the head of a list that may open its line: one without remarks. -/
def headAtom? (sn : Remarks) : Noted → Option (List UInt8 × Hint)
  | .atom b h t => if ((Noted.atom b h t).notesIn sn).isEmpty then some (b, h) else none
  | _ => none

mutual

/-- Whether a list goes on one line: nothing inside it carries a remark, the line fits the
width, and its lists nest no deeper than the flat depth, each limit read only when the tests
before it pass. -/
def fitsFlat (st : Style) (sn : Remarks) (n : Noted) (indent : String) : Except Failure Bool := do
  if n.chainHasNotes sn then return false
  if !(← st.width.admits (indent.length + (st.flat n).length)) then return false
  return !(← st.flatDepth.exceededBy n.listDepth)

/-- The lines of a part at the given indentation and depth. -/
def block (st : Style) (sn : Remarks) (n : Noted) (indent : String) (depth : Nat) :
    Except Failure (List String) :=
  match n with
  | .cons f r _ => do
    if ← st.maxDepth.exceededBy depth then throw st.tooDeep
    let notes := noteLines sn n indent
    if ← st.fitsFlat sn n indent then return notes ++ [indent ++ st.flat n]
    let child := indent ++ indentStep
    match headAtom? sn f with
    | some (b, h) =>
      let name := st.headName b h
      let k ← st.onHeadLine sn child (headArgs name) r
      let first := " ".intercalate (name :: (takeItems k r).map st.flat)
      let rest ← chain st sn r child (depth + 1) k
      return closeLast (notes ++ [indent ++ "(" ++ first] ++ rest)
    | none =>
      let a ← block st sn f child (depth + 1)
      let b ← chain st sn r child (depth + 1) 0
      return closeLast (notes ++ [indent ++ "("] ++ a ++ b)
  | _ => leaf st sn n indent depth

/-- The lines of the elements of a chain after the first `skip`, and of its tail. -/
def chain (st : Style) (sn : Remarks) (n : Noted) (indent : String) (depth skip : Nat) :
    Except Failure (List String) :=
  match n, skip with
  | .cons _ r _, k + 1 => chain st sn r indent depth k
  | .cons f r _, 0 => do
    let a ← block st sn f indent depth
    let b ← chain st sn r indent depth 0
    .ok (a ++ b)
  | t, _ =>
    if t.isNil then .ok []
    else (leaf st sn t indent depth).map fun ls => (indent ++ ".") :: ls

end

/-- The text of a part: one line, or indented lines followed by the trailing remarks. -/
def write (st : Style) (sn : Remarks) (trailing : List String) (n : Noted) : Except Failure String :=
  if !st.indented then .ok (st.flat n)
  else (block st sn n "" 0).map fun ls => "\n".intercalate (ls ++ trailing.map ("; " ++ ·))

/-- The text of a tree without remarks. -/
def writeTree (st : Style) (t : Tree) : Except Failure String :=
  st.write {} [] (Noted.ofTree t)

end Style

end PuzzleKit
