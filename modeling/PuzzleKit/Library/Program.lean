import PuzzleKit.SExpr.Read
import PuzzleKit.Tree.Hash
import PuzzleKit.Naming

/-! Reference programs: programs of the form `(mod PARAMS BODY…)` looked up by name. The
parameters split into the curried ones, the leading names written in capitals, and the
solution ones after them; a parameter list that ends in a symbol instead of `()` binds the
rest of the solution to it. -/

namespace PuzzleKit

/-- The text of a symbol atom, or the compact text of anything else; a symbol whose bytes
are not UTF-8 text has none. -/
def paramName : Tree → Except Failure String
  | .atom b .symbol => utf8Text b
  | t => .ok t.render

/-- The parameter names of a parameter list and the symbol that takes the rest, if any; names
are read first to last, then the rest. -/
def paramList : Tree → Except Failure (List String × Option String)
  | .cons p r => do
    let n ← paramName p
    let (ns, rest) ← paramList r
    return (n :: ns, rest)
  | .atom b h =>
    if !b.isEmpty && h = .symbol then do return ([], some (← utf8Text b))
    else .ok ([], none)

/-- The curried parameters, the solution parameters and the rest parameter of a program; a
tree that is not a `mod` form has none. -/
def programParams (t : Tree) : Except Failure (List String × List String × Option String) :=
  match t.toList? with
  | some (.atom m _ :: params :: _) =>
    if m = "mod".toUTF8.toList then do
      let (names, rest) ← paramList params
      let curried := names.takeWhile isCurryName
      return (curried, names.drop curried.length, rest)
    else .ok ([], [], none)
  | _ => .ok ([], [], none)

/-- A reference program with its parsed tree and parameters. -/
structure ReferenceProgram where
  name : String
  source : String
  tree : Tree
  curried : List String
  solution : List String
  rest : Option String

def ReferenceProgram.modHash (p : ReferenceProgram) : List UInt8 := p.tree.hash

/-- Reads a reference program: the first part of its source. -/
def ReferenceProgram.parse (name source : String) : Except Failure ReferenceProgram := do
  let ts ← (SExpr.parseMany source).mapError Failure.ofRead
  match ts with
  | [] => throw (.value ("reference program " ++ name ++ " is empty"))
  | t :: _ =>
    let (c, s, r) ← programParams t
    return ⟨name, source, t, c, s, r⟩

/-- Reference programs by name: the source a name stands for, if any. -/
structure ProgramLibrary where
  find : String → Option String

namespace ProgramLibrary

/-- A library over fixed name and source pairs; the first pair of a name counts. -/
def ofList (sources : List (String × String)) : ProgramLibrary :=
  ⟨fun n => (sources.find? (·.1 == n)).map (·.2)⟩

/-- The endings tried, in order, after a name in a directory. -/
def suffixes : List String := ["", ".clsp", ".clvm", ".clib", ".clinc", ".cl"]

/-- A library over the files of a directory: a name is the first file of that name with one
of the endings. -/
def ofFiles (files : String → Option String) (dir : String) : ProgramLibrary :=
  ⟨fun n => suffixes.findSome? fun s => files (dir ++ "/" ++ n ++ s)⟩

/-- The reference program of a name. -/
def load (lib : ProgramLibrary) (name : String) : Except Failure ReferenceProgram :=
  match lib.find name with
  | none => .error (.key ("unknown reference program " ++ name))
  | some src => ReferenceProgram.parse name src

/-- Whether the library has a program of a name; faults other than a missing name pass. -/
def contains (lib : ProgramLibrary) (name : String) : Except Failure Bool :=
  match lib.load name with
  | .ok _ => .ok true
  | .error f => if f.kind = .missingKey then .ok false else .error f

def modHash (lib : ProgramLibrary) (name : String) : Except Failure (List UInt8) :=
  (lib.load name).map (·.modHash)

end ProgramLibrary

end PuzzleKit
