import PuzzleKit.Text.Pos
import PuzzleKit.Value

/-! The syntax of CoinScript. A coin declares storage (values fixed when the coin is made),
state (values each spend carries forward), constants, events, functions and actions; actions
are the ways the coin may be spent. Every node keeps the place it starts at. -/

namespace PuzzleKit.Script

/-- A written type: a plain type name, or a mapping from keys of one type to values of
another. -/
inductive TypeRef where
  | named (name : String)
  | mapping (key value : TypeRef)
  deriving DecidableEq, Repr, Inhabited

namespace TypeRef

def name : TypeRef → String
  | .named n => n
  | .mapping _ _ => "mapping"

/-- The written form, `mapping(K => V)` for mappings. -/
def text : TypeRef → String
  | .named n => n
  | .mapping k v => "mapping(" ++ k.text ++ " => " ++ v.text ++ ")"

def isMapping (t : TypeRef) : Bool := t.name == "mapping"

end TypeRef

/-- A literal value. -/
inductive Literal where
  | int (n : Int)
  | bool (b : Bool)
  | hex (bytes : List UInt8)
  | string (text : String)
  deriving DecidableEq, Repr, Inhabited

/-- The name of the class of a literal. -/
def Literal.kind : Literal → String
  | .int _ => "int"
  | .bool _ => "bool"
  | .hex _ => "hex"
  | .string _ => "string"

/-- An expression. -/
inductive Expr where
  | lit (value : Literal) (pos : Pos)
  | ident (name : String) (pos : Pos)
  | binary (op : String) (left right : Expr) (pos : Pos)
  | unary (op : String) (operand : Expr) (pos : Pos)
  | call (callee : String) (args : List Expr) (pos : Pos)
  | member (obj : Expr) (prop : String) (pos : Pos)
  | index (obj key : Expr) (pos : Pos)
  deriving Repr, Inhabited

/-- Where an expression starts. -/
def Expr.pos : Expr → Pos
  | .lit _ p | .ident _ p | .binary _ _ _ p | .unary _ _ p | .call _ _ p | .member _ _ p
  | .index _ _ p => p

/-- A statement. -/
inductive Stmt where
  | require (cond : Expr) (message : Option String) (pos : Pos)
  | send (recipient amount : Expr) (memo : Option Expr) (pos : Pos)
  | emit (event : String) (args : List Expr) (pos : Pos)
  | branch (cond : Expr) (yes : List Stmt) (no : Option (List Stmt)) (pos : Pos)
  | assign (target : Expr) (op : String) (value : Expr) (pos : Pos) (declType : Option TypeRef)
  | eval (e : Expr) (pos : Pos)
  | ret (value : Option Expr) (pos : Pos)
  | fail (message : Option String) (pos : Pos)
  deriving Repr, Inhabited

/-- Where a statement starts. -/
def Stmt.pos : Stmt → Pos
  | .require _ _ p | .send _ _ _ p | .emit _ _ p | .branch _ _ _ p | .assign _ _ _ p _
  | .eval _ p | .ret _ p | .fail _ p => p

mutual

/-- How many conditional statements a statement holds, itself included. -/
def Stmt.branches : Stmt → Nat
  | .branch _ yes no _ => 1 + Stmt.branchCount yes + Stmt.optionBranchCount no
  | _ => 0

/-- How many conditional statements a list of statements holds, nested ones included. -/
def Stmt.branchCount : List Stmt → Nat
  | [] => 0
  | s :: ss => s.branches + Stmt.branchCount ss

/-- How many conditional statements an optional list of statements holds. -/
def Stmt.optionBranchCount : Option (List Stmt) → Nat
  | some ss => Stmt.branchCount ss
  | none => 0

end

/-- Whether a statement ends its block: a return or a failure. -/
def Stmt.ends : Stmt → Bool
  | .ret _ _ | .fail _ _ => true
  | _ => false

/-- A decorator `@name(args)`. -/
structure Decorator where
  name : String
  args : List Expr
  pos : Pos
  deriving Repr, Inhabited

/-- A parameter. -/
structure Param where
  name : String
  type : TypeRef
  pos : Pos
  deriving Repr, Inhabited

/-- A storage or state variable, with its initial value if it has one. -/
structure VarDecl where
  name : String
  type : TypeRef
  init : Option Expr
  pos : Pos
  deriving Repr, Inhabited

/-- A constant. -/
structure ConstDecl where
  name : String
  value : Expr
  pos : Pos
  deriving Repr, Inhabited

/-- An event. -/
structure EventDecl where
  name : String
  params : List Param
  pos : Pos
  deriving Repr, Inhabited

/-- A function, inline or not, with its return type if it returns a value. -/
structure FunctionDecl where
  name : String
  params : List Param
  returns : Option TypeRef
  body : List Stmt
  inline : Bool
  pos : Pos
  deriving Repr, Inhabited

/-- An action: a way to spend the coin. -/
structure Action where
  name : String
  params : List Param
  body : List Stmt
  decorators : List Decorator
  pos : Pos
  deriving Repr, Inhabited

/-- The first decorator of a name on an action. -/
def Action.decorator? (a : Action) (name : String) : Option Decorator :=
  a.decorators.find? (·.name == name)

/-- A coin: the whole of a CoinScript program. -/
structure CoinDecl where
  name : String
  storageVars : List VarDecl
  stateVars : List VarDecl
  consts : List ConstDecl
  functions : List FunctionDecl
  actions : List Action
  events : List EventDecl
  decorators : List Decorator
  includes : List String
  pos : Pos
  deriving Repr, Inhabited

/-! Descriptions: every node as a record with its class name under `node` and its fields,
lists for sequences and `[line, col]` for places. -/

/-- A record of a node of a class with its fields. -/
def record (cls : String) (fields : List (String × Value)) : Value :=
  .dict ((("node", .str cls) :: fields).map fun (k, v) => (.str k, v))

/-- A place as a pair of numbers. -/
def describePos (p : Pos) : Value := .list [.int p.line, .int p.col]

def TypeRef.describe : TypeRef → Value
  | .named n => record "TypeRef" [("name", .str n), ("key", .none), ("value", .none)]
  | .mapping k v => record "TypeRef" [("name", .str "mapping"), ("key", k.describe), ("value", v.describe)]

/-- A description of a literal's value. -/
def Literal.value : Literal → Value
  | .int n => .int n
  | .bool b => .bool b
  | .hex b => .bytes b
  | .string s => .str s

def describeOpt {α : Type} (f : α → Value) : Option α → Value
  | some a => f a
  | none => .none

def Expr.describe : Expr → Value
  | .lit v p => record "Literal" [("value", v.value), ("kind", .str v.kind), ("pos", describePos p)]
  | .ident n p => record "Identifier" [("name", .str n), ("pos", describePos p)]
  | .binary op l r p => record "BinaryOp"
      [("op", .str op), ("left", l.describe), ("right", r.describe), ("pos", describePos p)]
  | .unary op e p => record "UnaryOp" [("op", .str op), ("operand", e.describe), ("pos", describePos p)]
  | .call f args p => record "Call"
      [("callee", .str f), ("args", .list (args.map Expr.describe)), ("pos", describePos p)]
  | .member o prop p => record "MemberAccess"
      [("obj", o.describe), ("prop", .str prop), ("pos", describePos p)]
  | .index o k p => record "Index" [("obj", o.describe), ("key", k.describe), ("pos", describePos p)]

def Stmt.describe : Stmt → Value
  | .require c m p => record "Require"
      [("cond", c.describe), ("message", describeOpt Value.str m), ("pos", describePos p)]
  | .send r a m p => record "Send" [("recipient", r.describe), ("amount", a.describe),
      ("memo", describeOpt Expr.describe m), ("pos", describePos p)]
  | .emit e args p => record "Emit"
      [("event", .str e), ("args", .list (args.map Expr.describe)), ("pos", describePos p)]
  | .branch c yes no p => record "If" [("cond", c.describe),
      ("then", .list (yes.map Stmt.describe)),
      ("otherwise", match no with
        | some ss => .list (ss.map Stmt.describe)
        | none => .none), ("pos", describePos p)]
  | .assign t op v p d => record "Assign" [("target", t.describe), ("op", .str op),
      ("value", v.describe), ("pos", describePos p), ("decl_type", describeOpt TypeRef.describe d)]
  | .eval e p => record "ExprStmt" [("expr", e.describe), ("pos", describePos p)]
  | .ret v p => record "Return" [("value", describeOpt Expr.describe v), ("pos", describePos p)]
  | .fail m p => record "Fail" [("message", describeOpt Value.str m), ("pos", describePos p)]

def Decorator.describe (d : Decorator) : Value :=
  record "Decorator" [("name", .str d.name), ("args", .list (d.args.map Expr.describe)),
    ("pos", describePos d.pos)]

def Param.describe (p : Param) : Value :=
  record "Param" [("name", .str p.name), ("type", p.type.describe), ("pos", describePos p.pos)]

def CoinDecl.describe (c : CoinDecl) : Value :=
  let params := fun (ps : List Param) => Value.list (ps.map Param.describe)
  let body := fun (ss : List Stmt) => Value.list (ss.map Stmt.describe)
  let var := fun (v : VarDecl) => record "VarDecl" [("name", .str v.name), ("type", v.type.describe),
    ("init", describeOpt Expr.describe v.init), ("pos", describePos v.pos)]
  record "CoinDecl" [("name", .str c.name),
    ("storage_vars", .list (c.storageVars.map var)),
    ("state_vars", .list (c.stateVars.map var)),
    ("consts", .list (c.consts.map fun k => record "ConstDecl"
      [("name", .str k.name), ("value", k.value.describe), ("pos", describePos k.pos)])),
    ("functions", .list (c.functions.map fun f => record "FunctionDecl"
      [("name", .str f.name), ("params", params f.params),
        ("returns", describeOpt TypeRef.describe f.returns), ("body", body f.body),
        ("inline", .bool f.inline), ("pos", describePos f.pos)])),
    ("actions", .list (c.actions.map fun a => record "Action"
      [("name", .str a.name), ("params", params a.params), ("body", body a.body),
        ("decorators", .list (a.decorators.map Decorator.describe)), ("pos", describePos a.pos)])),
    ("events", .list (c.events.map fun e => record "EventDecl"
      [("name", .str e.name), ("params", params e.params), ("pos", describePos e.pos)])),
    ("decorators", .list (c.decorators.map Decorator.describe)),
    ("includes", .list (c.includes.map Value.str)),
    ("pos", describePos c.pos)]

end PuzzleKit.Script
