import PuzzleKit.Build.Node
import PuzzleKit.Tree.Layout
import PuzzleKit.Tree.Hash
import PuzzleKit.Curry
import PuzzleKit.Build.Signature
import PuzzleKit.Value.Bytes

/-! Building a puzzle program `(mod PARAMS (include …)… CONSTANTS… FUNCTIONS… BODY)` step by
step. Parameters are curried ones, then solution ones, and an optional rest parameter. The
body is a chain of steps read from last to first: a condition is consed before what follows,
a requirement wraps what follows in `(if c … (x msg))`, a branch runs both arms into what
follows, and a return or failure ends the chain with its value. No step may follow a return or
failure.

Names of parameters, includes and declarations are host values as the caller gives them; they
are checked only where the program text needs them, so a name that is not text is kept until
the parameter list is written. A requirement's message likewise becomes text only when the body
is built, and building fails then if it is not text.

Remarks written before a step belong to the code that step builds, each time the body is
built; a return or failure keeps one value for every build, so its remarks are kept under the
key of the builder's tail and grow with each build. The code that both arms of a branch go on
with is one object: remarks an arm puts on it show in both arms. A failed call keeps what it
did before it failed. -/

namespace PuzzleKit.Build

mutual

/-- A step of a body. -/
inductive Step where
  | cond (c : Noted)
  | require (c : Noted) (msg : Value)
  | branch (c : Noted) (yes : Body) (no : Option Body)
  | stop

/-- A body: its steps, in order, each with the remarks written before it, and the value that
ends it, if a return or failure set one. -/
inductive Body where
  | mk (steps : List (List String × Step)) (tail : Option Noted)

end

/-- Building code from steps: the remarks change as code is built, and they stay changed when
building fails part way. -/
abbrev Building := EStateM Failure Remarks

namespace Building

/-- A result that may fail, inside a building. -/
def lift {α : Type} : Except Failure α → Building α
  | .ok a => pure a
  | .error e => throw e

def attach (n : Noted) (ns : List String) : Building Noted :=
  modifyGet fun rm => n.attach rm ns

/-- Makes a part one object that may stand in several places. -/
def share (n : Noted) : Building Noted :=
  modifyGet fun rm => n.share rm

end Building

mutual

/-- The code of a body that goes on with `next`. -/
def Body.build : Body → Noted → Building Noted
  | .mk steps tail, next => buildSteps steps (tail.getD next)

/-- The code of steps that go on with `next`; the last step is built first. -/
def buildSteps : List (List String × Step) → Noted → Building Noted
  | [], next => pure next
  | (notes, s) :: rest, next => do
    let r ← buildSteps rest next
    let r ← s.build r
    Building.attach r notes

/-- The code of one step that goes on with `next`; both arms of a branch go on with the same
object. -/
def Step.build : Step → Noted → Building Noted
  | .cond c, next => pure (consCondition c next)
  | .require c msg, next => do
    let f ← Building.lift (failNodeOf msg)
    pure (ifNode c next f)
  | .branch c yes no, next => do
    let next ← Building.share next
    let t ← yes.build next
    let e ← buildArm no next
    pure (ifNode c t e)
  | .stop, next => pure next

/-- The code of an optional arm; a missing arm goes on with `next` alone. -/
def buildArm : Option Body → Noted → Building Noted
  | some b, next => b.build next
  | none, next => pure next

end

/-- A puzzle being built. -/
structure Puzzle where
  name : Option String := none
  curried : List (Value × Option Noted) := []
  solution : List Value := []
  rest : Value := .none
  includes : List Value := []
  constants : List Noted := []
  functions : List Noted := []
  steps : List (List String × Step) := []
  tail : Option Noted := none
  pending : List String := []
  path : List Nat := []
  branches : Nat := 0
  remarks : Remarks := {}

/-- Building calls: they change the puzzle and may fail, keeping what they did before. -/
abbrev PuzzleM := EStateM Failure Puzzle

namespace Puzzle

/-- The body built so far. -/
def body (p : Puzzle) : Body := .mk p.steps p.tail

def curriedNames (p : Puzzle) : List Value := p.curried.map (·.1)

/-- A call that may fail, inside a building call. -/
def lift {α : Type} : Except Failure α → PuzzleM α
  | .ok a => pure a
  | .error e => throw e

/-- Adds a curried parameter, with or without a value; a name equal to one already there,
compared directly, is refused. -/
def curriedParam (name : Value) (value : Option Value) : PuzzleM Unit := do
  let p ← get
  if p.curriedNames.any (Value.equal · name) then
    throw (.generation ("duplicate curried parameter " ++ name.text))
  let v ← match value with
    | some v => (lift (asElement v)).map some
    | none => pure none
  set { p with curried := p.curried ++ [(name, v)] }

/-- Adds curried parameters without values, one by one. -/
def curriedParams (names : List Value) : PuzzleM Unit :=
  names.forM fun n => curriedParam n none

/-- Adds solution parameters, one by one; a name that matches one already there as a member
is refused. -/
def solutionParams (names : List Value) : PuzzleM Unit :=
  names.forM fun n => do
    let p ← get
    if p.solution.any (Value.itemEq n) then
      throw (.generation ("duplicate solution parameter " ++ n.text))
    set { p with solution := p.solution ++ [n] }

/-- Sets the parameter that takes the rest of the solution; nothing sets none. -/
def restParam (name : Value) : PuzzleM Unit :=
  modify fun p => { p with rest := name }

/-- Adds an include file unless a matching one is there. -/
def addInclude (path : Value) : PuzzleM Unit :=
  modify fun p =>
    if p.includes.any (Value.itemEq path) then p else { p with includes := p.includes ++ [path] }

/-- Takes the pending remarks onto a declaration. -/
def noted (el : Noted) : PuzzleM Noted := do
  let p ← get
  let (el, rm) := el.attach p.remarks p.pending
  set { p with pending := [], remarks := rm }
  return el

/-- Adds a constant `(defconstant NAME VALUE)`; the value is read before the name. -/
def defconstant (name : Value) (value : Value) : PuzzleM Unit := do
  let v ← lift (asElement value)
  let n ← lift (asElement name)
  let el ← noted (call "defconstant" [n, v])
  modify fun p => { p with constants := p.constants ++ [el] }

/-- Adds a function `(defun NAME (PARAMS…) BODY)`, inline or not: the name and each of the
parameters walked from `params` must be text, and the body is read last. -/
def defun (name : Value) (params : Value) (body : Value) (inline : Bool) : PuzzleM Unit := do
  let kw := if inline then "defun-inline" else "defun"
  let n ← lift (symOf name)
  let ps ← lift (do (← params.iterate).mapM symOf)
  let b ← lift (asElement body)
  let el ← noted (Noted.ofList [sym kw, n, Noted.ofList ps, b])
  modify fun p => { p with functions := p.functions ++ [el] }

/-- Writes a remark before what comes next: the text of a host value. -/
def comment (text : Value) : PuzzleM Unit :=
  modify fun p => { p with pending := p.pending ++ [text.text] }

/-- The fault of a step after a return or failure. -/
def afterEnd : Failure := .generation "no statements may follow a return or failure"

/-- Appends a step with the pending remarks. -/
def step (s : Step) : PuzzleM Unit := do
  let p ← get
  if p.tail.isSome then throw afterEnd
  set { p with steps := p.steps ++ [(p.pending, s)], pending := [] }

def addCondition (c : Noted) : PuzzleM Unit := step (.cond c)

/-- Appends the condition `NAME` with host arguments. -/
def condition (name : String) (args : List Value) : PuzzleM Unit := do
  if (conditionCode? name).isNone then throw (unknownCondition name)
  let xs ← lift (asElements args)
  let c ← lift (Build.condition name xs)
  addCondition c

/-- Appends the condition named by a host value with host arguments. -/
def conditionOf (name : Value) (args : List Value) : PuzzleM Unit := do
  let _ ← lift (conditionCodeOf name)
  condition name.text args

/-- Appends `CREATE_COIN` of a puzzle hash and an amount, with the list of the memos walked
from `memos` unless it is nothing; the memos are read first. -/
def createCoin (ph amount : Value) (memos : Value) : PuzzleM Unit := do
  let extra ← match memos with
    | .none => pure []
    | ms => do
      let xs ← lift (do asElements (← ms.iterate))
      pure [Value.tree (call "list" xs)]
  condition "CREATE_COIN" ([ph, amount] ++ extra)

/-- Appends `AGG_SIG_ME` of a key and a message; for nothing the message is the hash of the
solution. -/
def requireSignature (pk : Value) (msg : Value) : PuzzleM Unit :=
  let m := match msg with
    | .none => .tree (call "sha256tree" [sym "@"])
    | m => m
  condition "AGG_SIG_ME" [pk, m]

/-- Appends an announcement of a message, made by the coin or, when `puzzle`, by its puzzle. -/
def createAnnouncement (msg : Value) (puzzle : Bool) : PuzzleM Unit :=
  condition (if puzzle then "CREATE_PUZZLE_ANNOUNCEMENT" else "CREATE_COIN_ANNOUNCEMENT") [msg]

/-- Appends an assertion of an announcement, made by a coin or, when `puzzle`, by a puzzle. -/
def assertAnnouncement (id : Value) (puzzle : Bool) : PuzzleM Unit :=
  condition (if puzzle then "ASSERT_PUZZLE_ANNOUNCEMENT" else "ASSERT_COIN_ANNOUNCEMENT") [id]

/-- The steps named for the condition they append, with the condition and the parameters of
the step. -/
def conditionSteps : List (String × String × List String) :=
  [("reserve_fee", "RESERVE_FEE", ["amount"]),
   ("require_signature_unsafe", "AGG_SIG_UNSAFE", ["pubkey", "message"]),
   ("remark", "REMARK", []),
   ("assert_my_amount", "ASSERT_MY_AMOUNT", ["amount"]),
   ("assert_my_puzzle_hash", "ASSERT_MY_PUZZLEHASH", ["h"]),
   ("assert_my_coin_id", "ASSERT_MY_COIN_ID", ["coin_id"]),
   ("assert_my_parent_id", "ASSERT_MY_PARENT_ID", ["parent_id"]),
   ("assert_seconds_relative", "ASSERT_SECONDS_RELATIVE", ["s"]),
   ("assert_seconds_absolute", "ASSERT_SECONDS_ABSOLUTE", ["s"]),
   ("assert_height_relative", "ASSERT_HEIGHT_RELATIVE", ["h"]),
   ("assert_height_absolute", "ASSERT_HEIGHT_ABSOLUTE", ["h"]),
   ("assert_before_seconds_relative", "ASSERT_BEFORE_SECONDS_RELATIVE", ["s"]),
   ("assert_before_seconds_absolute", "ASSERT_BEFORE_SECONDS_ABSOLUTE", ["s"]),
   ("assert_before_height_relative", "ASSERT_BEFORE_HEIGHT_RELATIVE", ["h"]),
   ("assert_before_height_absolute", "ASSERT_BEFORE_HEIGHT_ABSOLUTE", ["h"])]

/-- The fault of a step name that is no building method. -/
def noMethod (step : String) : Failure :=
  ⟨.noAttribute, "'PuzzleBuilder' object has no attribute '" ++ step ++ "'", none, []⟩

/-- Appends the condition a named step stands for. -/
def conditionStep (step : String) (args : List Value) : PuzzleM Unit :=
  match conditionSteps.lookup step with
  | some (cond, _) => condition cond args
  | none => throw (noMethod step)

/-- The parameters of the building method a step hands all its arguments to, the builder
itself first; the method takes one more argument for each listed parameter up to the optional
ones, and the remark step takes any number. Steps that pick their arguments by position have
none. -/
def stepSignature? (step : String) : Option Signature :=
  let sig := fun (method : String) (params : List String) (required : Nat) (variadic : Bool) =>
    some (⟨"PuzzleBuilder." ++ method, "self" :: params, required + 1, variadic⟩ : Signature)
  match step with
  | "curried_params" => sig "with_curried_params" [] 0 true
  | "solution_params" => sig "with_solution_params" [] 0 true
  | "add_condition" => sig step ["cond"] 1 false
  | _ =>
    match conditionSteps.lookup step with
    | some (_, []) => sig step [] 0 true
    | some (_, ps) => sig step ps ps.length false
    | none => none

/-- The fault of calling a step with `given` arguments, if its method refuses that many. -/
def stepRefusal? (step : String) (given : Nat) : Option Failure :=
  match stepSignature? step with
  | some s => if s.admits (given + 1) then none else some (s.refusal (given + 1))
  | none => none

/-- Appends a requirement: the rest runs only when `c` holds, else it fails with `msg`, which
becomes text when the body is built. -/
def require (c : Value) (msg : Value) : PuzzleM Unit := do
  let c ← lift (asElement c)
  step (.require c msg)

/-- An arm of a branch about to be appended: a builder of its own that shares the remarks. Its
path names the branch by how many were begun before it, appended or not, so the arms of a
branch that failed keep their remarks to themselves. -/
def arm (p : Puzzle) (side : Nat) : Puzzle :=
  { path := p.path ++ [p.branches, side], remarks := p.remarks }

/-- Appends a branch on `c` with the arms built by `yes` and `no`; the branch counts as begun
even when `c` is refused. -/
def branch (c : Value) (yes : Puzzle) (no : Option Puzzle) : PuzzleM Unit := do
  modify fun p => { p with remarks := (no.getD yes).remarks, branches := p.branches + 1 }
  let c ← lift (asElement c)
  step (.branch c yes.body (no.map body))

/-- A branch whose arms the callables `yes` and `no` build, each on an arm of its own, the
second from the remarks the first left; then the branch is appended. An arm that fails fails
the call, which keeps the remarks the arms made and counts the branch as begun. -/
def ifThen {α β : Type} (c : Value) (yes : PuzzleM α) (no : Option (PuzzleM β)) :
    PuzzleM (α × Option β) := do
  let p ← get
  match yes.run (p.arm 0) with
  | .error e y =>
    set { p with remarks := y.remarks, branches := p.branches + 1 }
    throw e
  | .ok a y =>
    match no with
    | none =>
      branch c y none
      return (a, none)
    | some no =>
      match no.run { p.arm 1 with remarks := y.remarks } with
      | .error e n =>
        set { p with remarks := n.remarks, branches := p.branches + 1 }
        throw e
      | .ok b n =>
        branch c y (some n)
        return (a, some b)

/-- Ends the body with a value, kept under the key of this builder unless it is already a
shared part; remarks it already carries move to that key. -/
def endWith (p : Puzzle) (v : Noted) : Puzzle :=
  match v.tag with
  | .shared _ => { p with tail := some v }
  | .own ns =>
    { p with tail := some (v.withTag (.shared (.tail p.path))),
             remarks := p.remarks.attach (.tail p.path) ns }

/-- Ends the body with a failure, with a message unless it is nothing. The step counts before
the message is read, so a message that is not text leaves the body open after the step. -/
def fail (msg : Value) : PuzzleM Unit := do
  step .stop
  let node ← lift (failNodeOf msg)
  modify fun p => p.endWith node

/-- Ends the body with a value. -/
def returns (v : Value) : PuzzleM Unit := do
  step .stop
  let v ← lift (asElement v)
  modify fun p => p.endWith v

/-- The code of the body, going on with `next` (by default the empty list); the remarks it
attached stay attached when it fails. -/
def buildBody (next : Noted := Noted.nil) : PuzzleM Noted := do
  let p ← get
  match (p.body.build next).run p.remarks with
  | .ok r rm => set { p with remarks := rm }; return r
  | .error e rm => set { p with remarks := rm }; throw e

/-- The name a declaration `(KIND NAME …)` declares, as text: an atom's bytes read as UTF-8.
A name that is a list has no text; every declaration the builder makes has a name part. -/
def declName : Noted → Except Failure String
  | .cons _ (.cons (.atom b _ _) _ _) _ => utf8Text b
  | .cons _ (.cons (.cons _ _ _) _ _) _ =>
    .error ⟨.noAttribute, "'Cons' object has no attribute 'as_str'", none, []⟩
  | _ => .ok ""

/-- Every name the program declares itself: the parameters, each of which must be able to be
a dictionary key, then the names of the constants and functions. -/
def declared (p : Puzzle) : Except Failure (List Value) := do
  let cur ← p.curriedNames.mapM Value.asKey
  let sol ← p.solution.mapM Value.asKey
  let rest ← match p.rest with
    | .none => pure []
    | r => r.asKey.map ([·])
  let decls ← (p.constants ++ p.functions).mapM declName
  return cur ++ sol ++ rest ++ decls.map .str

/-- The declared names that are text; only these can hide a library name. -/
def declaredTexts (names : List Value) : List String :=
  names.filterMap fun v => match v with
    | .str s => some s
    | _ => none

/-- The include files: those added, then those the code needs that are not among them. -/
def includesFor (p : Puzzle) (body : Noted) : Except Failure (List Value) := do
  let names ← p.declared
  let needed ← autoIncludes (p.constants ++ p.functions ++ [body]) (declaredTexts names)
  return needed.foldl (fun acc x =>
    if acc.any (Value.itemEq (.str x)) then acc else acc ++ [.str x]) p.includes

/-- The include files of the program as it stands. -/
def includeList : PuzzleM (List Value) := do
  let body ← buildBody
  lift ((← get).includesFor body)

/-- The parameter list: the rest parameter is read first, then the curried and solution
names, each of which must be text. -/
def paramsElement (p : Puzzle) : Except Failure Noted := do
  let tail ← match p.rest with
    | .none => pure Noted.nil
    | r => symOf r
  let names ← (p.curriedNames ++ p.solution).mapM symOf
  return Noted.ofList names tail

/-- Whether an include path may be used: a known file or a library file by its ending. -/
def includeAllowed (path : String) : Bool :=
  isKnownInclude path || path.endsWith ".clib" || path.endsWith ".clinc" || path.endsWith ".clsp"

/-- Refuses an include path that may not be used; a path that is not text is looked up among
the known files, which needs a key, and then has no ending to check. -/
def checkInclude : Value → Except Failure String
  | .str s => if includeAllowed s then .ok s else .error (.generation ("unknown include " ++ s))
  | v => do
    let _ ← v.asKey
    throw ⟨.noAttribute, "'" ++ v.typeName ++ "' object has no attribute 'endswith'", none, []⟩

/-- The whole program: the includes are checked before the parameter list is written. -/
def build : PuzzleM Noted := do
  let body ← buildBody
  let p ← get
  let incs ← lift (do (← p.includesFor body).mapM checkInclude)
  let params ← lift p.paramsElement
  return Noted.ofList ([sym "mod", params] ++ incs.map (fun i => call "include" [sym i]) ++
    p.constants ++ p.functions ++ [body])

/-- The program text in a layout, with the remarks. -/
def serialize (indented : Bool) (width : Bound) : PuzzleM String := do
  let el ← build
  let p ← get
  lift ((({ indented, width } : Style)).write p.remarks [] el)

def modHash : PuzzleM (List UInt8) := do
  return (← build).tree.hash

/-- The values to curry: those given, which must match the curried parameters, or else the
values the parameters were declared with. -/
def curryValues (values : List Value) : PuzzleM (List Noted) := do
  let p ← get
  if !values.isEmpty then
    if values.length != p.curried.length then
      throw (.generation ("expected " ++ toString p.curried.length ++ " curried values, got " ++
        toString values.length))
    lift (asElements values)
  else
    let missing := p.curried.filterMap fun (n, v) => if v.isNone then some n else none
    if !missing.isEmpty then
      throw (.generation ("no value for curried parameter(s) " ++ (← lift (Value.joinTexts missing))))
    return p.curried.filterMap (·.2)

def curriedProgram (values : List Value) : PuzzleM Tree := do
  let m ← build
  let vs ← curryValues values
  return curry m.tree (vs.map Noted.tree)

def puzzleHash (values : List Value) : PuzzleM (List UInt8) := do
  let vs ← curryValues values
  let h ← modHash
  return curriedHash h (vs.map fun v => v.tree.hash)

end Puzzle

end PuzzleKit.Build
