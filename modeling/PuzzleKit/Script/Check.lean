import PuzzleKit.Script.Syntax
import PuzzleKit.Naming
import PuzzleKit.Address
import PuzzleKit.Library.Include

/-! Checking a coin before code is generated for it. The check declares the coin's names,
gives every expression a type class, and collects every fault it finds rather than stopping
at the first, so that one run reports them all in the order they were found.

Type classes are compared, not written types: every integer type is `int`, addresses and
32-byte hashes are `bytes32`, and `any` stands for an unknown type, which agrees with every
other. Where `bytes` is wanted, `bytes32` and `string` values are accepted too. -/

namespace PuzzleKit.Script

/-- What a name stands for. -/
inductive SymbolKind where
  | storage
  | state
  | parameter
  | constant
  | event
  | function
  | «local»
  deriving DecidableEq, Repr, Inhabited

def SymbolKind.word : SymbolKind → String
  | .storage => "storage"
  | .state => "state"
  | .parameter => "parameter"
  | .constant => "constant"
  | .event => "event"
  | .function => "function"
  | .local => "local"

/-- How a value reaches the generated program: curried into it, carried from spend to spend,
or passed in a spend. -/
inductive Binding where
  | curried
  | threaded
  | solution
  deriving DecidableEq, Repr, Inhabited

def Binding.word : Binding → String
  | .curried => "curried"
  | .threaded => "threaded"
  | .solution => "solution"

/-- The type of a name: a written type, a type class found for a constant, or none. -/
inductive SymbolType where
  | written (t : TypeRef)
  | found (cls : String)
  | untyped
  deriving DecidableEq, Repr, Inhabited

/-- The declaration a name comes from, where its checks need it. -/
inductive Origin where
  | var (v : VarDecl)
  | const (c : ConstDecl)
  | event (e : EventDecl)
  | function (f : FunctionDecl)
  | other
  deriving Repr, Inhabited

/-- A declared name. -/
structure Symbol where
  name : String
  kind : SymbolKind
  type : SymbolType
  scope : String
  vmName : String
  binding : Option Binding
  pos : Pos
  origin : Origin := .other
  deriving Repr, Inhabited

def intClass : String := "int"
def boolClass : String := "bool"
def hashClass : String := "bytes32"
def bytesClass : String := "bytes"
def stringClass : String := "string"
def anyClass : String := "any"

/-- The class of a type, given by its written form; no type is `any`. -/
def classOf : Option String → String
  | some s => typeClassOf s
  | none => anyClass

/-- The written form of a name's type. -/
def SymbolType.text : SymbolType → Option String
  | .written t => some t.text
  | .found c => some c
  | .untyped => none

/-- The class of a name's type. -/
def SymbolType.cls (t : SymbolType) : String := classOf t.text

/-- The written type of a name, for state fields and the like. -/
def SymbolType.ref? : SymbolType → Option TypeRef
  | .written t => some t
  | _ => none

/-- Whether a value of class `actual` may stand where `expected` is wanted. -/
def compatible (expected actual : String) : Bool :=
  expected == anyClass || actual == anyClass || expected == actual ||
    (expected == bytesClass && (actual == hashClass || actual == stringClass))

/-- The calls that stand as statements and add a spend condition: the condition, the
classes of the arguments, and how many are required. -/
def statementCalls : List (String × String × List String × Nat) :=
  [("requireSignature", "AGG_SIG_ME", [bytesClass, anyClass], 1),
   ("requireSignatureUnsafe", "AGG_SIG_UNSAFE", [bytesClass, anyClass], 2),
   ("reserveFee", "RESERVE_FEE", [intClass], 1),
   ("createAnnouncement", "CREATE_COIN_ANNOUNCEMENT", [anyClass], 1),
   ("assertAnnouncement", "ASSERT_COIN_ANNOUNCEMENT", [hashClass], 1),
   ("createPuzzleAnnouncement", "CREATE_PUZZLE_ANNOUNCEMENT", [anyClass], 1),
   ("assertPuzzleAnnouncement", "ASSERT_PUZZLE_ANNOUNCEMENT", [hashClass], 1),
   ("assertMyAmount", "ASSERT_MY_AMOUNT", [intClass], 1),
   ("assertMyPuzzleHash", "ASSERT_MY_PUZZLEHASH", [hashClass], 1),
   ("assertMyCoinId", "ASSERT_MY_COIN_ID", [hashClass], 1),
   ("assertMyParentId", "ASSERT_MY_PARENT_ID", [hashClass], 1),
   ("assertSecondsRelative", "ASSERT_SECONDS_RELATIVE", [intClass], 1),
   ("assertSecondsAbsolute", "ASSERT_SECONDS_ABSOLUTE", [intClass], 1),
   ("assertHeightRelative", "ASSERT_HEIGHT_RELATIVE", [intClass], 1),
   ("assertHeightAbsolute", "ASSERT_HEIGHT_ABSOLUTE", [intClass], 1),
   ("assertBeforeSecondsRelative", "ASSERT_BEFORE_SECONDS_RELATIVE", [intClass], 1),
   ("assertBeforeSecondsAbsolute", "ASSERT_BEFORE_SECONDS_ABSOLUTE", [intClass], 1),
   ("assertBeforeHeightRelative", "ASSERT_BEFORE_HEIGHT_RELATIVE", [intClass], 1),
   ("assertBeforeHeightAbsolute", "ASSERT_BEFORE_HEIGHT_ABSOLUTE", [intClass], 1),
   ("remark", "REMARK", [anyClass], 0)]

/-- The statement call of a name: its condition, argument classes and required count. -/
def statementCall? (name : String) : Option (String × List String × Nat) :=
  (statementCalls.find? (·.1 == name)).map (·.2)

/-- The built-in functions: the operator, the class of every argument, the class of the
result, and the fixed number of arguments if there is one. -/
def builtins : List (String × String × String × String × Option Nat) :=
  [("sha256", "sha256", anyClass, hashClass, none),
   ("concat", "concat", anyClass, bytesClass, none),
   ("strlen", "strlen", anyClass, intClass, some 1),
   ("coinid", "coinid", anyClass, hashClass, some 3)]

def builtin? (name : String) : Option (String × String × String × Option Nat) :=
  (builtins.find? (·.1 == name)).map (·.2)

/-- A scope: its name and its names in the order first declared; declaring a name again
replaces it in place. -/
structure Frame where
  name : String
  symbols : List Symbol := []
  deriving Repr, Inhabited

namespace Frame

def find? (f : Frame) (n : String) : Option Symbol := f.symbols.find? (·.name == n)

/-- Declares a name in a frame. -/
def define (f : Frame) (s : Symbol) : Frame :=
  if f.symbols.any (·.name == s.name) then
    { f with symbols := f.symbols.map fun t => if t.name == s.name then s else t }
  else { f with symbols := f.symbols ++ [s] }

end Frame

/-- What the check learns about an action. -/
structure ActionInfo where
  action : Action
  params : List Symbol
  stateful : Bool := false
  access : List Expr := []
  usesAmount : Bool := false
  deriving Repr, Inhabited

/-- Whether a spend of the action names its signer: when more than one address may sign. -/
def ActionInfo.usesSigner (i : ActionInfo) : Bool := i.access.length > 1

/-- The state of a check. -/
structure Checker where
  coin : CoinDecl
  codec : AddressCodec
  faults : List (String × Option Pos) := []
  globals : Frame := { name := "coin" }
  vmOwners : List (String × String) := []
  nameMap : List (String × String) := []
  actions : List ActionInfo := []
  functions : List (String × List Symbol) := []
  senderChecks : List Pos := []
  libraryCalls : List (Pos × String × String) := []
  includes : List String := []
  launcherId : Option Expr := none
  merkle : Bool := false
  amountUsed : Bool := false

/-- Checking: a state that collects faults and findings. -/
abbrev CheckM := StateM Checker

/-- Where a check looks: the scopes around it, innermost first, and whether it is in an
action (stateful or not) or in a function. -/
structure Ctx where
  frames : List Frame := []
  inAction : Bool := false
  stateful : Bool := false
  function : Option FunctionDecl := none

/-- The context of a block inside another: a new innermost scope of the same name. -/
def Ctx.inner (ctx : Ctx) : Ctx :=
  { ctx with frames := { name := (ctx.frames.head?.map (·.name)).getD "coin" } :: ctx.frames }

/-- Sets the value of a key in a list of pairs, keeping the place of a key already there. -/
def setKey {α : Type} (kvs : List (String × α)) (k : String) (v : α) : List (String × α) :=
  if kvs.any (·.1 == k) then kvs.map fun (k', w) => if k' == k then (k', v) else (k', w)
  else kvs ++ [(k, v)]

def isName (n : String) : Expr → Bool
  | .ident m _ => m == n
  | _ => false

/-- Whether an expression is `msg.prop`. -/
def isMsg (prop : String) : Expr → Bool
  | .member o p _ => isName "msg" o && p == prop
  | _ => false

/-- The value a `require(msg.sender == X)` compares the sender with, on either side. -/
def senderTarget? : Expr → Option Expr
  | .binary "==" l r _ => if isMsg "sender" l then some r else if isMsg "sender" r then some l else none
  | _ => none

mutual

/-- Whether a statement ends every path when it is the last of its block: a return, a failure,
or an `if` with an else arm of which both arms end. -/
def endsAsLast : Stmt → Bool
  | .ret _ _ | .fail _ _ => true
  | .branch _ yes (some no) _ => alwaysEnds yes && alwaysEnds no
  | _ => false

/-- Whether a block ends on every path: its last statement does. -/
def alwaysEnds : List Stmt → Bool
  | [] => false
  | [s] => endsAsLast s
  | _ :: rest => alwaysEnds rest

end

namespace Check

def fault (text : String) (pos : Pos) : CheckM Unit :=
  modify fun c => { c with faults := c.faults ++ [(text, some pos)] }

/-- Looks a name up in the scopes of a context, then among the coin's names. -/
def lookup (ctx : Ctx) (n : String) : CheckM (Option Symbol) := do
  match ctx.frames.findSome? (·.find? n) with
  | some s => return some s
  | none => return (← get).globals.find? n

/-- Looks a name up among the coin's names. -/
def global? (n : String) : CheckM (Option Symbol) := return (← get).globals.find? n

/-- Claims a generated name for a declared one; two declared names may not share one. -/
def mapName (author vm : String) (pos : Pos) : CheckM String := do
  let c ← get
  match c.vmOwners.lookup vm with
  | some owner =>
    if owner != author then
      fault (author ++ " and " ++ owner ++ " both map to " ++ vm) pos
      return vm
  | none => pure ()
  modify fun c => { c with vmOwners := setKey c.vmOwners vm author, nameMap := setKey c.nameMap author vm }
  return vm

/-- Declares a name of the coin, unless it is declared already. -/
def declare (s : Symbol) : CheckM Bool := do
  match ← global? s.name with
  | some prev =>
    if (prev.kind == .storage && s.kind == .state) || (prev.kind == .state && s.kind == .storage) then
      fault (s.name ++ " is declared as both storage and state") s.pos
    else fault ("duplicate declaration of " ++ s.name) s.pos
    return false
  | none =>
    modify fun c => { c with globals := c.globals.define s }
    return true

/-- Why a text that looks like an address is not one, where an address is wanted. -/
def addressFault? (codec : AddressCodec) (e : Expr) (want : String) : Option String :=
  match e with
  | .lit (.string s) _ =>
    if want == hashClass && codec.isAddress s then
      match codec.decode s with
      | .error f => some f.text
      | .ok _ => none
    else none
  | _ => none

/-- The class of a literal: a text that is an address is a hash. -/
def literalClass (codec : AddressCodec) : Literal → String
  | .int _ => intClass
  | .bool _ => boolClass
  | .hex b => if b.length == 32 then hashClass else bytesClass
  | .string s => if (codec.tryDecode s).isSome then hashClass else stringClass

/-- The class of a state field read or written as `state.prop`. -/
def stateField (prop : String) (pos : Pos) : CheckM (Option String) := do
  match ← global? prop with
  | some s =>
    if s.kind == .state then return some s.type.cls
    fault ("unknown state field " ++ prop) pos
    return none
  | none =>
    fault ("unknown state field " ++ prop) pos
    return none

/-- Records a fault when a class is not the one wanted. -/
def mismatch (e : Expr) (ty want what : String) : CheckM Unit := do
  if !compatible want ty then
    fault ((addressFault? (← get).codec e want).getD (what ++ " must be " ++ want ++ ", not " ++ ty))
      e.pos

/-- The key and value classes of a state mapping `state.field`, or none after a fault. -/
def mappingOf (o : Expr) (pos : Pos) : CheckM (Option (String × String)) := do
  match o with
  | .member (.ident "state" _) prop _ =>
    match ← global? prop with
    | some s =>
      if s.kind != .state then
        fault ("unknown state field " ++ prop) pos
        return none
      match s.type.ref? with
      | some (.mapping kt vt) => return some (classOf (some kt.text), classOf (some vt.text))
      | _ =>
        fault ("state field " ++ prop ++ " is not a mapping") pos
        return none
    | none =>
      fault ("unknown state field " ++ prop) pos
      return none
  | _ =>
    fault "only state mappings can be indexed" pos
    return none

/-- The class of a name used as a value. -/
def identifier (ctx : Ctx) (n : String) (pos : Pos) : CheckM String := do
  if n == "msg" then
    fault "msg can only be used as msg.sender or msg.value" pos
    return anyClass
  match ← lookup ctx n with
  | none =>
    fault ("undeclared identifier " ++ n) pos
    return anyClass
  | some s =>
    match s.kind with
    | .state =>
      fault ("state field " ++ n ++ " is read as state." ++ n) pos
      return s.type.cls
    | .event | .function =>
      fault (s.kind.word ++ " " ++ n ++ " is not a value") pos
      return anyClass
    | .storage =>
      if ctx.function.isSome then
        fault ("functions cannot reference storage variable " ++ n ++ "; pass it as an argument") pos
      return s.type.cls
    | _ => return s.type.cls

/-- The class of a member access `msg.sender`, `msg.value` or `state.field`. -/
def memberClass (ctx : Ctx) (o : Expr) (prop : String) (pos : Pos) : CheckM String := do
  if isName "msg" o then
    if prop == "sender" then
      fault "msg.sender can only be used as require(msg.sender == address)" pos
      return hashClass
    if prop == "value" then
      if ctx.inAction then modify fun c => { c with amountUsed := true }
      else fault "msg.value is only available in actions" pos
      return intClass
    fault ("unknown member msg." ++ prop) pos
    return anyClass
  if isName "state" o then
    if ctx.function.isSome || !ctx.stateful then
      fault "reading state requires a @stateful action" pos
    return (← stateField prop pos).getD anyClass
  fault "member access is only supported on msg and state" pos
  return anyClass

/-- The function a call names, if the coin declares one. -/
def functionOf? (f : String) : CheckM (Option FunctionDecl) := do
  match ← global? f with
  | some s =>
    match s.kind, s.origin with
    | .function, .function fn => return some fn
    | _, _ => return none
  | none => return none

def libraryCall (f vm path : String) (pos : Pos) : CheckM Unit :=
  modify fun c => { c with
    libraryCalls := if c.libraryCalls.any (·.1 == pos) then c.libraryCalls
      else c.libraryCalls ++ [(pos, vm, path)],
    nameMap := setKey c.nameMap f vm }

/-- Records a wrong number of arguments. -/
def arity (f : String) (want got : Nat) (pos : Pos) : CheckM Unit := do
  if want != got then
    fault (f ++ " takes " ++ toString want ++ " argument(s), got " ++ toString got) pos

mutual

/-- The class of an expression, recording faults and findings on the way. -/
def expr (ctx : Ctx) : Expr → CheckM String
  | .lit l _ => return literalClass (← get).codec l
  | .ident n pos => identifier ctx n pos
  | .binary op l r pos => do
    if isMsg "sender" l || isMsg "sender" r then
      fault "msg.sender can only be used as require(msg.sender == address)" pos
      return boolClass
    let arith := ["+", "-", "*", "/", "%"].contains op
    let order := ["<", ">", "<=", ">="].contains op
    let logic := op == "&&" || op == "||"
    if arith || order || logic then
      let want := if logic then boolClass else intClass
      let lt ← expr ctx l
      mismatch l lt want ("left operand of " ++ op)
      let rt ← expr ctx r
      mismatch r rt want ("right operand of " ++ op)
      return if arith then intClass else boolClass
    if op == "==" || op == "!=" then
      let lt ← expr ctx l
      let rt ← expr ctx r
      if !(compatible lt rt || compatible rt lt) then
        fault ("cannot compare " ++ lt ++ " with " ++ rt) pos
      if lt.startsWith "mapping" || rt.startsWith "mapping" then
        fault "mappings cannot be compared" pos
      return boolClass
    fault ("unknown operator " ++ op) pos
    return anyClass
  | .unary op e _ => do
    let want := if op == "!" then boolClass else intClass
    let ty ← expr ctx e
    mismatch e ty want ("operand of " ++ op)
    return want
  | .member o prop pos => memberClass ctx o prop pos
  | .index o k pos => do
    if ctx.function.isSome || !ctx.stateful then
      fault "reading state requires a @stateful action" pos
      return anyClass
    match ← mappingOf o pos with
    | some (kc, vc) =>
      let kt ← expr ctx k
      mismatch k kt kc "mapping key"
      return vc
    | none => return anyClass
  | .call f args pos => do
    if (statementCall? f).isSome then
      fault (f ++ " is a statement, not a value") pos
      return anyClass
    match ← functionOf? f with
    | some fn =>
      arity f fn.params.length args.length pos
      paramArgs ctx f fn.params args
      return classOf (fn.returns.map TypeRef.text)
    | none =>
      match builtin? f with
      | some (_, argCls, result, n) =>
        match n with
        | some n => arity f n args.length pos
        | none => pure ()
        argsOfClass ctx argCls ("argument of " ++ f) args
        return result
      | none =>
        match libraryFunction f with
        | some (vm, path) =>
          libraryCall f vm path pos
          exprs ctx args
          return if vm == "sha256tree" then hashClass else anyClass
        | none =>
          fault ("unknown function " ++ f) pos
          exprs ctx args
          return anyClass

/-- Checks expressions whose classes do not matter. -/
def exprs (ctx : Ctx) : List Expr → CheckM Unit
  | [] => pure ()
  | e :: es => do
    let _ ← expr ctx e
    exprs ctx es

/-- Checks arguments that must all be of one class. -/
def argsOfClass (ctx : Ctx) (cls what : String) : List Expr → CheckM Unit
  | [] => pure ()
  | e :: es => do
    let ty ← expr ctx e
    mismatch e ty cls what
    argsOfClass ctx cls what es

/-- Checks arguments against the parameters of a function or event `f`; arguments beyond
the parameters are checked with no class wanted. -/
def paramArgs (ctx : Ctx) (f : String) : List Param → List Expr → CheckM Unit
  | p :: ps, a :: as => do
    let ty ← expr ctx a
    mismatch a ty (classOf (some p.type.text)) ("argument " ++ p.name ++ " of " ++ f)
    paramArgs ctx f ps as
  | [], a :: as => do
    let _ ← expr ctx a
    paramArgs ctx f [] as
  | _, [] => pure ()

end

/-- The class of an expression, with a fault when it is not the class wanted. -/
def expectClass (ctx : Ctx) (e : Expr) (want what : String) : CheckM String := do
  let ty ← expr ctx e
  mismatch e ty want what
  return ty

/-- The class of an entry `state.field[key]` of a state mapping. -/
def index (ctx : Ctx) (o k : Expr) (pos : Pos) : CheckM (Option String) := do
  match ← mappingOf o pos with
  | some (kc, vc) =>
    let _ ← expectClass ctx k kc "mapping key"
    return some vc
  | none => return none

/-- The class of a literal checked among the coin's names; other expressions have none. -/
def literalType : Expr → CheckM (Option String)
  | e@(.lit _ _) => some <$> expr {} e
  | _ => return none

/-- Checks the initial value of a storage or state variable. -/
def initializer (v : VarDecl) : CheckM Unit := do
  match v.init with
  | none => pure ()
  | some e =>
    match ← literalType e with
    | none => fault ("initial value of " ++ v.name ++ " must be a literal") v.pos
    | some ty =>
      let want := classOf (some v.type.text)
      if !compatible want ty then
        fault ((addressFault? (← get).codec e want).getD
          (v.name ++ " is " ++ v.type.text ++ " but is initialized with " ++ ty)) v.pos

/-- Declares the coin's names: storage, state, constants, events and functions. -/
def declareGlobals : CheckM Unit := do
  let coin := (← get).coin
  for v in coin.storageVars do
    if v.type.isMapping then fault ("storage variable " ++ v.name ++ " cannot be a mapping") v.pos
    let vm ← mapName v.name (vmSafe (upperSnake v.name)) v.pos
    if ← declare ⟨v.name, .storage, .written v.type, "coin", vm, some .curried, v.pos, .var v⟩ then
      initializer v
  for v in coin.stateVars do
    if ← declare ⟨v.name, .state, .written v.type, "coin", snakeCase v.name, some .threaded, v.pos, .var v⟩ then
      initializer v
  for k in coin.consts do
    let ty ← literalType k.value
    if ty.isNone then fault ("constant " ++ k.name ++ " must be a literal") k.pos
    let vm ← mapName k.name (vmSafe (upperSnake k.name)) k.pos
    let _ ← declare ⟨k.name, .constant, .found (ty.getD anyClass), "coin", vm, none, k.pos, .const k⟩
  for e in coin.events do
    let _ ← declare ⟨e.name, .event, .untyped, "coin", e.name, none, e.pos, .event e⟩
  for f in coin.functions do
    let vm ← mapName f.name (vmSafe (snakeCase f.name)) f.pos
    let ty := match f.returns with
      | some t => SymbolType.written t
      | none => .untyped
    let _ ← declare ⟨f.name, .function, ty, "coin", vm, none, f.pos, .function f⟩

/-- Checks `@singleton`: its launcher id is a 32-byte literal, constant or storage value, or
else the coin stores a `bytes32 launcherId`. -/
def singleton (d : Decorator) : CheckM Unit := do
  match d.args with
  | [arg] =>
    let ty ← expr {} arg
    let s ← match arg with
      | .ident n _ => global? n
      | _ => pure none
    let ok := (match arg with
      | .lit (.hex b) _ => b.length == 32
      | _ => false) ||
      (match s with
        | some s => ty == hashClass && (s.kind == .constant || s.kind == .storage)
        | none => false)
    if !ok then fault "@singleton launcher id must be a 32 byte literal, constant or storage value" d.pos
    modify fun c => { c with launcherId := some arg }
  | [] =>
    match ← global? "launcherId" with
    | some s =>
      if s.kind == .storage && s.type.cls == hashClass then
        modify fun c => { c with launcherId := some (.ident "launcherId" d.pos) }
      else fault "@singleton needs a launcher id argument or a bytes32 launcherId storage variable" d.pos
    | none => fault "@singleton needs a launcher id argument or a bytes32 launcherId storage variable" d.pos
  | _ => fault "@singleton takes at most one launcher id" d.pos

def coinDecorators : CheckM Unit := do
  for d in (← get).coin.decorators do
    if d.name == "onlyAddress" || d.name == "stateful" then
      fault ("@" ++ d.name ++ " applies to actions, not coins") d.pos
    else if d.name == "merkle" then
      if !d.args.isEmpty then fault "@merkle takes no arguments" d.pos
      modify fun c => { c with merkle := true }
    else if d.name == "singleton" then singleton d
    else fault ("unknown decorator @" ++ d.name) d.pos

/-- Checks that the coin can be spent, and that no action is declared twice. -/
def spendPath : CheckM Unit := do
  let coin := (← get).coin
  if coin.actions.isEmpty then
    fault ("coin " ++ coin.name ++
      " has no spend path: declare a spend action, a default action or named actions") coin.pos
  let _ ← coin.actions.foldlM (fun (seen : List String) a => do
    if seen.contains a.name then fault ("duplicate action " ++ a.name) a.pos
    return seen ++ [a.name]) []

/-- Declares parameters in a new scope of a name, with faults for repeated names, mappings
and generated names that clash. -/
def declareParams (scope : String) (ps : List Param) : CheckM Frame := do
  let mut frame : Frame := { name := scope }
  let mut seen : List String := []
  for p in ps do
    if seen.contains p.name then fault ("duplicate parameter " ++ p.name) p.pos
    seen := seen ++ [p.name]
    if p.type.isMapping then fault ("parameter " ++ p.name ++ " cannot be a mapping") p.pos
    frame := frame.define ⟨p.name, .parameter, .written p.type, scope, vmSafe (snakeCase p.name),
      some .solution, p.pos, .other⟩
  let mut vms : List (String × String) := []
  for s in frame.symbols do
    match vms.lookup s.vmName with
    | some other => fault ("parameters " ++ s.name ++ " and " ++ other ++ " both map to " ++ s.vmName) s.pos
    | none => pure ()
    vms := setKey vms s.vmName s.name
  return frame

/-- Checks an assignment target: the class it holds, or none after a fault. -/
def target (ctx : Ctx) (t : Expr) : CheckM (Option String) := do
  match t with
  | .ident n pos =>
    match ← lookup ctx n with
    | none =>
      fault ("undeclared identifier " ++ n) pos
      return none
    | some s =>
      match s.kind with
      | .local => return some s.type.cls
      | .storage => fault ("storage variable " ++ n ++ " is immutable") pos
      | .state => fault ("state field " ++ n ++ " is written as state." ++ n) pos
      | k => fault ("cannot assign to " ++ k.word ++ " " ++ n) pos
      return none
  | .member o prop pos =>
    if isName "state" o then
      if ctx.function.isSome || !ctx.stateful then
        fault "only @stateful actions can modify state" pos
        return none
      stateField prop pos
    else
      fault "invalid assignment target" pos
      return none
  | .index o k pos =>
    if ctx.function.isSome || !ctx.stateful then
      fault "only @stateful actions can modify state" pos
      return none
    index ctx o k pos
  | e =>
    fault "invalid assignment target" e.pos
    return none

/-- Checks an assignment; a declaration adds a local name to the innermost scope. -/
def assign (ctx : Ctx) (t : Expr) (op : String) (v : Expr) (pos : Pos) :
    Option TypeRef → CheckM Ctx
  | some ty => do
    let n := match t with
      | .ident n _ => n
      | _ => ""
    if (← lookup ctx n).isSome then fault (n ++ " is already declared") pos
    let vt ← expr ctx v
    if !compatible (classOf (some ty.text)) vt then
      fault ("cannot assign " ++ vt ++ " to " ++ n ++ " of type " ++ ty.text) pos
    let frames := match ctx.frames with
      | f :: fs => f.define ⟨n, .local, .written ty, f.name, vmSafe (snakeCase n), none, pos, .other⟩ :: fs
      | [] => []
    return { ctx with frames }
  | none => do
    match ← target ctx t with
    | none =>
      let _ ← expr ctx v
      return ctx
    | some tt =>
      let arith := op == "+=" || op == "-="
      if arith && tt != intClass && tt != anyClass then fault (op ++ " needs an integer target") pos
      let vt ← expr ctx v
      if !compatible (if arith then intClass else tt) vt then
        fault ("cannot assign " ++ vt ++ " to a " ++ tt ++ " target") pos
      return ctx

/-- The event a name declares, if any. -/
def eventOf? (n : String) : CheckM (Option EventDecl) := do
  match ← global? n with
  | some s =>
    match s.kind, s.origin with
    | .event, .event e => return some e
    | _, _ => return none
  | none => return none

def statementCall (ctx : Ctx) (e : Expr) (pos : Pos) : CheckM Unit := do
  match e with
  | .call f args _ =>
    match statementCall? f with
    | some (_, argCls, required) =>
      if ctx.function.isSome then fault (f ++ " is only allowed in actions") pos
      let n := args.length
      if !((required ≤ n && n ≤ argCls.length) || (required == 0 && argCls == [anyClass])) then
        fault (f ++ " takes " ++ toString required ++ " to " ++ toString argCls.length ++
          " argument(s)") pos
      let _ ← args.foldlM (fun i a => do
        let _ ← expectClass ctx a ((argCls[i]?).getD anyClass) ("argument " ++ toString (i + 1) ++ " of " ++ f)
        return i + 1) 0
    | none =>
      let _ ← expr ctx e
      fault "expression result is unused" pos
  | _ =>
    let _ ← expr ctx e
    fault "expression result is unused" pos

mutual

/-- Checks a statement, giving the context for the statements after it. -/
def stmt (ctx : Ctx) : Stmt → CheckM Ctx
  | .require c _ pos => do
    match senderTarget? c with
    | some t =>
      if ctx.function.isSome then fault "msg.sender can only be checked in actions" pos
      let ty ← expr ctx t
      if ty != hashClass && ty != anyClass then fault "msg.sender must be compared with an address" pos
      modify fun c => { c with senderChecks := c.senderChecks ++ [pos] }
    | none => let _ ← expectClass ctx c boolClass "require condition"
    return ctx
  | .send r a m pos => do
    if ctx.function.isSome then fault "send is only allowed in actions" pos
    let _ ← expectClass ctx r hashClass "send recipient"
    let _ ← expectClass ctx a intClass "send amount"
    match m with
    | some m => let _ ← expr ctx m
    | none => pure ()
    return ctx
  | .emit ev args pos => do
    if ctx.function.isSome then fault "emit is only allowed in actions" pos
    match ← eventOf? ev with
    | some e =>
      if e.params.length != args.length then
        fault ("event " ++ ev ++ " takes " ++ toString e.params.length ++ " argument(s), got " ++
          toString args.length) pos
      paramArgs ctx ev e.params args
    | none =>
      fault ("undeclared event " ++ ev) pos
      exprs ctx args
    return ctx
  | .branch c yes no _ => do
    let _ ← expectClass ctx c boolClass "if condition"
    stmts (ctx.inner) yes
    match no with
    | some ss => stmts (ctx.inner) ss
    | none => pure ()
    return ctx
  | .assign t op v pos d => assign ctx t op v pos d
  | .eval e pos => do
    statementCall ctx e pos
    return ctx
  | .ret v pos => do
    match ctx.function with
    | some f =>
      if f.returns.isSome && v.isNone then fault ("function " ++ f.name ++ " must return a value") pos
      match v with
      | some v =>
        let ty ← expr ctx v
        if !compatible (classOf (f.returns.map TypeRef.text)) ty then
          fault ("function " ++ f.name ++ " returns " ++ ((f.returns.map TypeRef.text).getD "None") ++
            ", not " ++ ty) pos
      | none => pure ()
    | none => if v.isSome then fault "actions cannot return a value" pos
    return ctx
  | .fail _ _ => return ctx

/-- Checks the statements of a block in order. -/
def stmts (ctx : Ctx) : List Stmt → CheckM Unit
  | [] => pure ()
  | s :: rest => do
    let ctx ← stmt ctx s
    match s.ends, rest with
    | true, r :: _ => fault "unreachable statement" r.pos
    | _, _ => stmts ctx rest

end

/-- Checks a block in a new innermost scope. -/
def block (ctx : Ctx) (ss : List Stmt) : CheckM Unit := stmts ctx.inner ss

/-- Checks a function, recording its parameters. -/
def function (f : FunctionDecl) : CheckM Unit := do
  let frame ← declareParams ("function " ++ f.name) f.params
  modify fun c => { c with functions := setKey c.functions f.name frame.symbols }
  block { frames := [frame], function := some f } f.body
  if f.returns.isSome && !alwaysEnds f.body then
    fault ("function " ++ f.name ++ " does not return on every path") f.pos

/-- Checks the addresses of `@onlyAddress`: storage or constant addresses, or literals. -/
def access (d : Decorator) : CheckM (List Expr) := do
  if d.args.isEmpty then fault "@onlyAddress needs at least one address" d.pos
  for arg in d.args do
    let ty ← expr {} arg
    let ok ← match arg with
      | .ident n _ => do
        match ← global? n with
        | some s => pure ((s.kind == .storage || s.kind == .constant) && ty == hashClass)
        | none => pure false
      | .lit _ _ => pure (ty == hashClass)
      | _ => pure false
    if !ok then fault "@onlyAddress expects storage or constant addresses, or address literals" arg.pos
  return d.args

/-- Records what is known of an action under its name. -/
def putAction (info : ActionInfo) : CheckM Unit := do
  let c ← get
  let n := info.action.name
  let actions := if c.actions.any (fun i => i.action.name == n) then
      c.actions.map fun i => if i.action.name == n then info else i
    else c.actions ++ [info]
  set { c with actions }

/-- Checks an action: its parameters, decorators and body. -/
def action (a : Action) : CheckM Unit := do
  let frame ← declareParams ("action " ++ a.name) a.params
  let mut info : ActionInfo := { action := a, params := frame.symbols }
  putAction info
  let hasState := !(← get).coin.stateVars.isEmpty
  for d in a.decorators do
    if d.name == "stateful" then
      if !d.args.isEmpty then fault "@stateful takes no arguments" d.pos
      if !hasState then fault ("@stateful action " ++ a.name ++ " needs the coin to declare state") d.pos
      info := { info with stateful := true }
    else if d.name == "onlyAddress" then
      info := { info with access := ← access d }
    else if d.name == "singleton" || d.name == "merkle" then
      fault ("@" ++ d.name ++ " applies to coins, not actions") d.pos
    else fault ("unknown decorator @" ++ d.name) d.pos
  modify fun c => { c with amountUsed := false }
  block { frames := [frame], inAction := true, stateful := info.stateful } a.body
  putAction { info with usesAmount := (← get).amountUsed }

/-- Adds the include files the coin names and those its library calls need. -/
def resolveIncludes : CheckM Unit := do
  let coin := (← get).coin
  for p in coin.includes do
    if !(isKnownInclude p || p.endsWith ".clib" || p.endsWith ".clinc" || p.endsWith ".clsp") then
      fault ("unknown include " ++ p) coin.pos
    modify fun c => { c with includes := if c.includes.contains p then c.includes else c.includes ++ [p] }
  for (_, _, p) in (← get).libraryCalls do
    modify fun c => { c with includes := if c.includes.contains p then c.includes else c.includes ++ [p] }

end Check

/-- What the check of a coin found. -/
structure Analysis where
  coin : CoinDecl
  globals : List Symbol
  actions : List ActionInfo
  functions : List (String × List Symbol)
  senderChecks : List Pos
  libraryCalls : List (Pos × String × String)
  includes : List String
  nameMap : List (String × String)
  launcherId : Option Expr
  merkle : Bool
  deriving Repr, Inhabited

namespace Analysis

def hasState (a : Analysis) : Bool := !a.coin.stateVars.isEmpty

def symbol? (a : Analysis) (n : String) : Option Symbol := a.globals.find? (·.name == n)

def storage (a : Analysis) : List Symbol := a.coin.storageVars.filterMap fun v => a.symbol? v.name

def action? (a : Analysis) (n : String) : Option ActionInfo := a.actions.find? (·.action.name == n)

def vmName (a : Analysis) (n : String) : String := (a.nameMap.lookup n).getD n

end Analysis

/-- A description of a name: its name, kind, written type, generated name, binding and
scope. -/
def Symbol.describe (s : Symbol) : Value :=
  .dict [(.str "name", .str s.name), (.str "kind", .str s.kind.word),
    (.str "type", describeOpt Value.str s.type.text), (.str "vm_name", .str s.vmName),
    (.str "binding", describeOpt (fun b => Value.str b.word) s.binding), (.str "scope", .str s.scope)]

def sortTexts (xs : List String) : List String := (xs.toArray.qsort (· < ·)).toList

/-- A description of what the check found. The library functions called are named once each,
in order, however many calls name them. -/
def Analysis.describe (a : Analysis) : Value :=
  let syms := fun (ss : List Symbol) => Value.list (ss.map Symbol.describe)
  .dict [(.str "globals", syms a.globals),
    (.str "actions", .dict (a.actions.map fun i => (.str i.action.name, .dict [
      (.str "stateful", .bool i.stateful), (.str "access", .int i.access.length),
      (.str "uses_amount", .bool i.usesAmount), (.str "uses_signer", .bool i.usesSigner),
      (.str "params", syms i.params)]))),
    (.str "functions", .dict (a.functions.map fun (n, ss) => (.str n, syms ss))),
    (.str "includes", .list (a.includes.map Value.str)),
    (.str "name_map", .list ((a.nameMap.toArray.qsort (fun x y => x.1 < y.1)).toList.map fun (k, v) =>
      .list [.str k, .str v])),
    (.str "merkle", .bool a.merkle), (.str "has_state", .bool a.hasState),
    (.str "launcher_id", describeOpt Expr.describe a.launcherId),
    (.str "sender_checks", .int a.senderChecks.length),
    (.str "library_calls", .list ((sortTexts (a.libraryCalls.map (·.2.1)).eraseDups).map Value.str))]

/-- Checks a coin, returning what was found or every fault. -/
def analyze (coin : CoinDecl) (codec : AddressCodec := {}) : Except Failure Analysis :=
  let run : CheckM Unit := do
    Check.declareGlobals
    Check.coinDecorators
    Check.spendPath
    for f in coin.functions do Check.function f
    for a in coin.actions do Check.action a
    Check.resolveIncludes
  let c := (run.run { coin, codec }).2
  if c.faults.isEmpty then
    .ok ⟨coin, c.globals.symbols, c.actions, c.functions, c.senderChecks, c.libraryCalls, c.includes,
      c.nameMap, c.launcherId, c.merkle⟩
  else .error ⟨.semantic, toString c.faults.length ++ " error(s)", none, c.faults⟩

end PuzzleKit.Script
