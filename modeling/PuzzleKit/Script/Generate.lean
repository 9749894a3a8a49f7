import PuzzleKit.Script.Check
import PuzzleKit.Build.Puzzle
import PuzzleKit.Build.Expr

/-! Generating program code from a checked coin. A program runs to a list of spend
conditions, so each block of statements becomes a chain: a condition is consed onto the
conditions after it, a `require` becomes an `if` whose else arm fails, and an `if` whose
arms only add conditions becomes a call of `merge_list` on the conditions of the arm taken
and those after it. An arm that may end the spend or rebind a value carries the statements
after its `if` along with it instead.

A coin compiles in one of three modes. With one action, the program is that action (direct
mode). With several, the solution names the action and a chain of `if`s dispatches on it
(dispatch mode), the action `default` also taking an empty name. In merkle mode every action
is a program of its own, and the main program runs an action program the solution brings
when a merkle proof ties it to the root curried into the main program.

A coin with state curries its own module hash, so that a spend can recreate the coin with
the new state: the new coin's puzzle hash is that of the module curried with the same
values, and its memo is the hash of the new state. -/

namespace PuzzleKit.Script

open Build

/-- How the actions of a coin are laid out. -/
inductive Mode where
  | direct
  | dispatch
  | merkle
  deriving DecidableEq, Repr, Inhabited

def Mode.word : Mode → String
  | .direct => "direct"
  | .dispatch => "dispatch"
  | .merkle => "merkle"

/-- What a spend of one action carries, in solution order: its parameters, then the signer,
the coin's amount and its state when the action needs them. -/
structure Signature where
  name : String
  params : List String
  signer : Bool := false
  amount : Bool := false
  stateful : Bool := false
  deriving Repr, Inhabited

/-- The names of what a spend of the action carries, in order. -/
def Signature.template (s : Signature) : List String :=
  s.params ++ (if s.signer then ["signer"] else []) ++ (if s.amount then ["my_amount"] else []) ++
    (if s.stateful then ["state"] else [])

def ActionInfo.signature (i : ActionInfo) : Signature :=
  { name := i.action.name
    params := i.action.params.map (·.name)
    signer := i.usesSigner
    amount := i.usesAmount || i.stateful
    stateful := i.stateful }

def bytesAtom (b : List UInt8) : Noted := .atom b .bytes (.own [])

/-- The code of a literal: a text that is an address stands for the hash it holds. -/
def literalCode (codec : AddressCodec) : Literal → Noted
  | .int n => int n
  | .bool b => if b then Noted.one else Noted.nil
  | .hex b => bytesAtom b
  | .string s =>
    match codec.tryDecode s with
    | some h => bytesAtom h
    | none => str s

/-- The code of item `i` of a list: `(f (r … (r base)))`. -/
def nth (base : Noted) (i : Nat) : Noted :=
  call "f" [(List.replicate i ()).foldl (fun el _ => call "r" [el]) base]

/-- How many lists deep a tree is: a list is one deeper than its deepest item, and the cells
of one list are all at the same depth. -/
def nestingDepth : Tree → Nat
  | .atom _ _ => 0
  | .cons f r => max (nestingDepth f + 1) (nestingDepth r)

/-- The helper `mapping_get`: the value of key `k` in the association list `m`. -/
def mappingGet : Noted :=
  Noted.ofList [sym "if", sym "m",
    ifNode (call "=" [call "f" [call "f" [sym "m"]], sym "k"]) (call "r" [call "f" [sym "m"]])
      (call "mapping_get" [call "r" [sym "m"], sym "k"]),
    Noted.nil]

/-- The helper `mapping_set`: the association list `m` with key `k` set to `v`. -/
def mappingSet : Noted :=
  Noted.ofList [sym "if", sym "m",
    ifNode (call "=" [call "f" [call "f" [sym "m"]], sym "k"])
      (call "c" [call "c" [sym "k", sym "v"], call "r" [sym "m"]])
      (call "c" [call "f" [sym "m"], call "mapping_set" [call "r" [sym "m"], sym "k", sym "v"]]),
    call "list" [call "c" [sym "k", sym "v"]]]

/-- The helper `merge_list`: the list `a` followed by `b`. -/
def mergeList : Noted :=
  Noted.ofList [sym "if", sym "a", call "c" [call "f" [sym "a"], call "merge_list" [call "r" [sym "a"], sym "b"]],
    sym "b"]

/-- The helper `merkle_root_from_proof`: the root a proof leads to from `cur`, hashing each
pair with the smaller hash first. -/
def proofWalk : Noted :=
  Noted.ofList [sym "if", sym "proof",
    call "merkle_root_from_proof" [
      ifNode (call ">s" [sym "cur", call "f" [sym "proof"]])
        (call "sha256" [call "f" [sym "proof"], sym "cur"])
        (call "sha256" [sym "cur", call "f" [sym "proof"]]),
      call "r" [sym "proof"]],
    sym "cur"]

/-- The leaf of the action a merkle spend runs: the tree hash of the pair of the action's
name and the tree hash of its program, written out. -/
def merkleLeaf : Noted :=
  call "sha256" [int 2, call "sha256" [int 1, sym "action_name"],
    call "sha256" [int 1, call "sha256tree" [sym "action_puzzle"]]]

/-- The test of a merkle spend: the proof leads from the action's leaf to the curried root. -/
def merkleCheck : Noted :=
  call "=" [call "merkle_root_from_proof" [merkleLeaf, sym "proof"], sym "ACTION_MERKLE_ROOT"]

def binaryOp? : String → Option ExprOp
  | "+" => some .add
  | "-" => some .sub
  | "*" => some .mul
  | "/" => some .div
  | "%" => some .rem
  | ">" => some .gt
  | "<" => some .lt
  | ">=" => some .ge
  | "<=" => some .le
  | "==" => some .eq
  | "!=" => some .ne
  | "&&" => some .all
  | "||" => some .any
  | _ => none

mutual

/-- Whether a block may end the spend or rebind a value, anywhere in it. -/
def needsRest : List Stmt → Bool
  | [] => false
  | s :: rest => stmtNeedsRest s || needsRest rest

/-- Whether a statement may end the spend or rebind a value, anywhere in it. -/
def stmtNeedsRest : Stmt → Bool
  | .ret _ _ | .fail _ _ => true
  | .assign _ _ _ _ none => true
  | .branch _ yes no _ =>
    needsRest yes || (match no with
      | some ss => needsRest ss
      | none => false)
  | _ => false

end

/-- Names given as text, as host values. -/
def texts (ns : List String) : List Value := ns.map Value.str

/-- The state of generation: the checked coin, the shared remarks, and which helpers the
program being generated uses. -/
structure Gen where
  analysis : Analysis
  codec : AddressCodec
  maxDepth : Bound
  remarks : Remarks := {}
  usesMappings : Bool := false
  usesMerge : Bool := false

/-- Generating: a state, or the first fault. -/
abbrev GenM := StateT Gen (Except Failure)

/-- Values by name: parameters, locals, `msg.value` and `state.field`. -/
abbrev Env := List (String × Noted)

/-- An environment with a name bound to a value. -/
def Env.bind (env : Env) (k : String) (v : Noted) : Env := (k, v) :: env.filter (·.1 != k)

/-- Where code is generated: in a function or an action, with the action's signature, the
code of the coin's own puzzle hash, of its amount, the state fields and the signed message. -/
structure Lowering where
  function : Bool := false
  stateful : Bool := false
  selfHash : Noted := Noted.nil
  amount : Noted := Noted.nil
  stateFields : List String := []
  message : Noted := Noted.nil

/-- A step of a block, applied to the code that follows it. -/
inductive Piece where
  | cons (c : Noted)
  | merge (n : Noted)
  | require (c : Noted) (message : Option String)

/-- The code of a step followed by `rest`. -/
def Piece.apply (rest : Noted) : Piece → Noted
  | .cons c => consCondition c rest
  | .merge n => call "merge_list" [n, rest]
  | .require c m => ifNode c rest (failNode m)

namespace Generate

def fault {α : Type} (text : String) (pos : Option Pos) : GenM α :=
  throw ⟨.generation, text, pos, []⟩

/-- Runs a call that may fail. -/
def lift {α : Type} (r : Except Failure α) : GenM α :=
  match r with
  | .ok a => pure a
  | .error e => throw e

/-- The value of a key of the environment. -/
def lookup (env : Env) (key : String) (pos : Pos) : GenM Noted :=
  match env.lookup key with
  | some v => pure v
  | none => fault ("unresolved symbol " ++ key) (some pos)

def fieldOf : Expr → String
  | .member _ p _ => p
  | _ => ""

mutual

def expr (env : Env) : Expr → GenM Noted
  | .lit l _ => return literalCode (← get).codec l
  | .ident n pos => do
    match env.lookup n with
    | some v => return v
    | none =>
      match (← get).analysis.symbol? n with
      | some s =>
        if s.kind == .storage || s.kind == .constant then return sym s.vmName
        fault ("unresolved symbol " ++ n) (some pos)
      | none => fault ("unresolved symbol " ++ n) (some pos)
  | .binary op l r pos => do
    let a ← expr env l
    let b ← expr env r
    match binaryOp? op with
    | some o => return o.build a [b]
    | none => fault ("unknown operator " ++ op) (some pos)
  | .unary op e _ => do
    let x ← expr env e
    return if op == "!" then call "not" [x] else call "-" [int 0, x]
  | .member o prop pos => do
    if isName "msg" o && prop == "value" then lookup env "msg.value" pos
    else if isName "state" o then lookup env ("state." ++ prop) pos
    else fault ("cannot generate member " ++ prop) (some pos)
  | .index o k pos => do
    modify fun g => { g with usesMappings := true }
    let m ← lookup env ("state." ++ fieldOf o) pos
    let key ← expr env k
    return call "mapping_get" [m, key]
  | .call f args pos => do
    let xs ← exprs env args
    let a := (← get).analysis
    match a.symbol? f with
    | some { kind := .function, vmName, .. } => return call vmName xs
    | _ =>
      match builtin? f with
      | some (op, _, _, _) => return call op xs
      | none =>
        match libraryFunction f with
        | some (vm, _) => return call vm xs
        | none => fault ("unresolved function " ++ f) (some pos)

def exprs (env : Env) : List Expr → GenM (List Noted)
  | [] => return []
  | e :: es => do
    let x ← expr env e
    return x :: (← exprs env es)

end

/-- The condition a statement call adds; a signature requirement with no message signs the
action's arguments. -/
def conditionCall (env : Env) (ctx : Lowering) (e : Expr) : GenM Noted := do
  match e with
  | .call f args _ =>
    match statementCall? f with
    | some (name, _, _) =>
      let xs ← exprs env args
      let xs := if name == "AGG_SIG_ME" && xs.length == 1 then xs ++ [ctx.message] else xs
      lift (condition name xs)
    | none => fault "expression statements must produce a condition" (some e.pos)
  | _ => fault "expression statements must produce a condition" (some e.pos)

/-- The environment after an assignment; `+=` and `-=` add to or take from the old value. -/
def assign (env : Env) (t : Expr) (op : String) (v : Expr) (pos : Pos) : GenM Env := do
  let update := fun (old value : Noted) => if op == "=" then value else call (op.take 1).toString [old, value]
  match t with
  | .index o k ipos =>
    let m := "state." ++ fieldOf o
    let cur ← lookup env m ipos
    let key ← expr env k
    let value ← expr env v
    let value := if op == "=" then value else update (call "mapping_get" [cur, key]) value
    modify fun g => { g with usesMappings := true }
    return env.bind m (call "mapping_set" [cur, key, value])
  | _ =>
    let key ← match t with
      | .ident n _ => pure n
      | .member o p _ => if isName "state" o then pure ("state." ++ p) else fault "invalid assignment target" (some pos)
      | _ => fault "invalid assignment target" (some pos)
    let value ← expr env v
    if op == "=" then return env.bind key value
    return env.bind key (update (← lookup env key pos) value)

/-- The conditions an action ends with when it runs off its end or returns: for a stateful
action, the coin recreated with its new state. -/
def exit (env : Env) (ctx : Lowering) : GenM Noted := do
  if ctx.function || !ctx.stateful then return Noted.nil
  let fields ← ctx.stateFields.mapM fun f =>
    match env.lookup ("state." ++ f) with
    | some v => pure v
    | none => fault ("unresolved symbol state." ++ f) none
  let memo := call "list" [call "sha256tree" [call "list" fields]]
  let c ← lift (condition "CREATE_COIN" [ctx.selfHash, ctx.amount, memo])
  return consCondition c Noted.nil

/-- Walks the statements of a block, gathering its steps; it stops at a statement that ends
the block, giving the code the block ends with, or else gives the environment at its end.
`lower` generates a nested block, with what follows it when it runs off its end. -/
def walk (lower : List Stmt → Env → Option Noted → GenM Noted) (ctx : Lowering)
    (stop : Option Noted) : List Stmt → Env → List Piece → GenM (List Piece × Option Noted × Env)
  | [], env, steps => return (steps, none, env)
  | s :: rest, env, steps => do
    match s with
    | .require c m _ =>
      match senderTarget? c with
      | some t =>
        let who ← expr env t
        let c ← lift (condition "AGG_SIG_ME" [who, ctx.message])
        walk lower ctx stop rest env (steps ++ [.cons c])
      | none =>
        let c ← expr env c
        walk lower ctx stop rest env (steps ++ [.require c m])
    | .send r a m _ =>
      let rc ← expr env r
      let ac ← expr env a
      let mc ← match m with
        | some m => do pure [call "list" [← expr env m]]
        | none => pure []
      let c ← lift (condition "CREATE_COIN" ([rc, ac] ++ mc))
      walk lower ctx stop rest env (steps ++ [.cons c])
    | .emit ev args _ =>
      let xs ← exprs env args
      let payload := call "list" (str ev :: xs)
      let c ← lift (condition "CREATE_COIN_ANNOUNCEMENT" [call "sha256tree" [payload]])
      walk lower ctx stop rest env (steps ++ [.cons c])
    | .eval e _ =>
      let c ← conditionCall env ctx e
      walk lower ctx stop rest env (steps ++ [.cons c])
    | .assign t op v pos _ =>
      let env ← assign env t op v pos
      walk lower ctx stop rest env steps
    | .branch c yes no _ =>
      let cond ← expr env c
      let other := no.getD []
      if ctx.function || needsRest yes || needsRest other then
        let t ← lower (yes ++ rest) env stop
        let o ← lower (other ++ rest) env stop
        return (steps, some (ifNode cond t o), env)
      else
        let t ← lower yes env (some Noted.nil)
        let o ← lower other env (some Noted.nil)
        if t.isNil && o.isNil then walk lower ctx stop rest env steps
        else
          modify fun g => { g with usesMerge := true }
          walk lower ctx stop rest env (steps ++ [.merge (ifNode cond t o)])
    | .ret v _ =>
      if ctx.function then
        match v with
        | some v => return (steps, some (← expr env v), env)
        | none => return (steps, some Noted.nil, env)
      else return (steps, some (← exit env ctx), env)
    | .fail m _ => return (steps, some (failNode m), env)

/-- The code of a block, going on with `stop` when it runs off its end (or, with none, ending
the action). The budget counts the `if` levels still allowed. -/
def block : Nat → Lowering → Option Noted → List Stmt → Env → GenM Noted
  | 0, _, _, _, _ => do
    fault ("if statements nest more than " ++ (← get).maxDepth.text ++ " deep") none
  | fuel + 1, ctx, stop, ss, env => do
    let (steps, ended, env) ← walk (fun ss env stop => block fuel ctx stop ss env) ctx stop ss env []
    let tail ← match ended, stop with
      | some t, _ => pure t
      | none, some e => pure e
      | none, none => exit env ctx
    return steps.foldr (fun p t => p.apply t) tail

/-- The code of a block at the top of an action or function. -/
def body (ctx : Lowering) (ss : List Stmt) (env : Env) : GenM Noted := do
  let budget ← (← get).maxDepth.levelsBelow (Stmt.branchCount ss + 1)
  block budget ctx none ss env

/-- The check of who may run an action, around its code `out`: nothing without addresses,
the signature of the one address, or else a signature by the signer, who must be one of the
addresses. -/
def signerCheck (access : List Expr) (signer message out : Noted) : GenM Noted := do
  let addrs ← access.mapM (expr [])
  match addrs with
  | [] => return out
  | [who] => return consCondition (← lift (condition "AGG_SIG_ME" [who, message])) out
  | _ =>
    let allowed := call "any" (addrs.map fun x => call "=" [signer, x])
    let signed := consCondition (← lift (condition "AGG_SIG_ME" [signer, message])) out
    return ifNode allowed signed (failNode (some "unauthorized"))

/-- Where the body of an action is generated: the context, the environment that binds its
parameters, `msg.value` and the state fields, and the code of the amount and of the signer when
the spend carries them. -/
structure ActionScope where
  ctx : Lowering
  env : Env
  amount : Option Noted
  signer : Option Noted

/-- The scope of an action's body, from the code of what its spend carries in signature order
and the names of the coin's state fields. -/
def ActionScope.of (info : ActionInfo) (sig : Signature) (slots : List Noted) (selfHash : Noted)
    (fields : List String) : ActionScope :=
  let a := info.action
  let n := a.params.length
  let env : Env := (a.params.zip slots).reverse.map fun (p, v) => (p.name, v)
  let extra := (sig.template.drop n).zip (slots.drop n)
  let amount := extra.lookup "my_amount"
  let env := match amount with
    | some v => env.bind "msg.value" v
    | none => env
  let env := match sig.stateful, extra.lookup "state" with
    | true, some st => (fields.zipIdx.foldl (fun e (f, i) => e.bind ("state." ++ f) (nth st i)) env)
    | _, _ => env
  { ctx := {
      stateful := sig.stateful
      selfHash := selfHash
      amount := amount.getD Noted.nil
      stateFields := if sig.stateful then fields else []
      message := call "sha256tree" [if n == 0 then Noted.nil else call "list" (slots.take n)] }
    env := env
    amount := amount
    signer := extra.lookup "signer" }

/-- The code of an action's body, given the code of what its spend carries in signature
order: the access check and the amount assertion come first. -/
def actionBody (info : ActionInfo) (sig : Signature) (slots : List Noted) (selfHash : Noted) :
    GenM Noted := do
  let sc := ActionScope.of info sig slots selfHash ((← get).analysis.coin.stateVars.map (·.name))
  let mut out ← body sc.ctx info.action.body sc.env
  if let some v := sc.amount then
    out := consCondition (← lift (condition "ASSERT_MY_AMOUNT" [v])) out
  signerCheck info.access (sc.signer.getD Noted.nil) sc.ctx.message out

/-- Runs builder calls on a builder. -/
def onPuzzle {α : Type} (p : Puzzle) (m : PuzzleM α) : GenM (α × Puzzle) :=
  match m.run p with
  | .ok a p => pure (a, p)
  | .error e _ => throw e

/-- A builder of the coin's programs: the shared remarks, the curried parameters, the
coin's include files and its constants. -/
def newBuilder (name : String) (path : List Nat) (curried : List String) : GenM Puzzle := do
  let g ← get
  let a := g.analysis
  let (_, p) ← onPuzzle { name := some name, path, remarks := g.remarks } do
    Puzzle.curriedParams (texts curried)
    for i in a.includes do Puzzle.addInclude (.str i)
    for k in a.coin.consts do
      let v := match k.value with
        | .lit l _ => literalCode g.codec l
        | _ => Noted.nil
      Puzzle.defconstant (.str (a.vmName k.name)) (.tree v)
  return p

/-- Adds the coin's functions to a builder, and the helpers the program uses. -/
def addFunctions (p : Puzzle) : GenM Puzzle := do
  let a := (← get).analysis
  let mut q := p
  for f in a.coin.functions do
    let syms := (a.functions.lookup f.name).getD []
    let vm := fun (n : String) => ((syms.find? (·.name == n)).map (·.vmName)).getD n
    let env : Env := f.params.reverse.map fun q => (q.name, sym (vm q.name))
    let code ← body { function := true } f.body env
    let (_, q') ← onPuzzle q do
      Puzzle.comment (.str ("function " ++ f.name))
      Puzzle.defun (.str (a.vmName f.name)) (.list (texts (f.params.map (vm ·.name)))) (.tree code) f.inline
    q := q'
  let g ← get
  let (_, p) ← onPuzzle q do
    if g.usesMappings then
      Puzzle.defun (.str "mapping_get") (.list (texts ["m", "k"])) (.tree mappingGet) false
      Puzzle.defun (.str "mapping_set") (.list (texts ["m", "k", "v"])) (.tree mappingSet) false
    if g.usesMerge then Puzzle.defun (.str "merge_list") (.list (texts ["a", "b"])) (.tree mergeList) false
  return p

/-- The code of the coin's own puzzle hash: its module hash curried with the hashes of the
curried values, which are the curried parameters themselves. -/
def selfPuzzleHash (curried : List String) : Noted :=
  call "puzzle-hash-of-curried-function"
    (sym "MOD_HASH" :: curried.reverse.map fun n => call "sha256" [int 1, sym n])

def storageNames : GenM (List String) := do
  return (← get).analysis.storage.map (·.vmName)

/-- The solution names of a direct action: its parameters, then the extras its signature
carries. -/
def directNames (info : ActionInfo) (sig : Signature) : List String :=
  let names := info.action.params.map fun p =>
    ((info.params.find? (·.name == p.name)).map (·.vmName)).getD p.name
  names ++ sig.template.drop names.length

/-- Records a remark on a part of the code. -/
def remark (n : Noted) (text : String) : GenM Noted := do
  let g ← get
  let (n, rm) := n.attach g.remarks [text]
  set { g with remarks := rm }
  return n

/-- The dispatch on the action name: each action under `(= action "name")`, the default
action first and also for an empty name, and a failure for any other name. -/
def dispatchChain (sigs : List Signature) (selfHash : Noted) : GenM Noted := do
  let a := (← get).analysis
  let mut chain := failNode (some "unknown action")
  let mut default := none
  for act in a.coin.actions.reverse do
    match a.action? act.name, sigs.find? (·.name == act.name) with
    | some info, some sig =>
      let args := (List.range sig.template.length).map (nth (sym "args"))
      let code ← actionBody info sig args selfHash
      let code ← remark code ("action " ++ act.name)
      if act.name == "default" then default := some code
      else chain := ifNode (call "=" [sym "action", str act.name]) code chain
    | _, _ => pure ()
  match default with
  | some d =>
    let sel := call "any" [call "not" [sym "action"], call "=" [sym "action", str "default"]]
    return ifNode sel d chain
  | none => return chain

/-- Hands the shared remarks from a builder back to generation. -/
def keepRemarks (p : Puzzle) : GenM Unit := modify fun g => { g with remarks := p.remarks }

/-- The program of a coin in direct or dispatch mode. -/
def single (mode : Mode) (sigs : List Signature) : GenM Puzzle := do
  let a := (← get).analysis
  let curried := (if a.hasState then ["MOD_HASH"] else []) ++ (← storageNames)
  let p ← newBuilder a.coin.name [] curried
  keepRemarks p
  let selfHash := selfPuzzleHash curried
  let (p, code) ← match mode, a.actions, sigs with
    | .direct, info :: _, sig :: _ =>
      let names := directNames info sig
      let (_, p) ← onPuzzle p (Puzzle.solutionParams (texts names))
      pure (p, ← actionBody info sig (names.map sym) selfHash)
    | _, _, _ =>
      let (_, p) ← onPuzzle p do
        Puzzle.solutionParams (texts ["action"])
        Puzzle.restParam (.str "args")
      pure (p, ← dispatchChain sigs selfHash)
  let p := { p with remarks := (← get).remarks }
  let p ← addFunctions p
  let (_, p) ← onPuzzle p (Puzzle.returns (.tree code))
  keepRemarks p
  return p

/-- The action programs and the main program of a coin in merkle mode. -/
def merkle (sigs : List Signature) : GenM (Puzzle × List (String × Puzzle)) := do
  let a := (← get).analysis
  let mut mods : List (String × Puzzle) := []
  for (info, k) in a.actions.zipIdx do
    modify fun g => { g with usesMappings := false, usesMerge := false }
    match sigs.find? (·.name == info.action.name) with
    | some sig =>
      let p ← newBuilder (a.coin.name ++ "." ++ info.action.name) [k + 1] (← storageNames)
      keepRemarks p
      let names := (if a.hasState then ["self_puzzle_hash"] else []) ++ directNames info sig
      let (_, p) ← onPuzzle p (Puzzle.solutionParams (texts names))
      let slots := (if a.hasState then names.drop 1 else names).map sym
      let code ← actionBody info sig slots (if a.hasState then sym "self_puzzle_hash" else Noted.nil)
      let p := { p with remarks := (← get).remarks }
      let p ← addFunctions p
      let (_, p) ← onPuzzle p (Puzzle.returns (.tree code))
      keepRemarks p
      mods := mods ++ [(info.action.name, p)]
    | none => pure ()
  let curried := (if a.hasState then ["MOD_HASH"] else []) ++ ["ACTION_MERKLE_ROOT"]
  let solution := if a.hasState then call "c" [selfPuzzleHash curried, sym "action_solution"]
    else sym "action_solution"
  let code := ifNode merkleCheck
    (call "a" [sym "action_puzzle", solution]) (failNode (some "invalid action proof"))
  let start : Puzzle := { name := some a.coin.name, remarks := (← get).remarks }
  let (_, main) ← onPuzzle start do
    Puzzle.curriedParams (texts curried)
    Puzzle.solutionParams (texts ["action_name", "action_puzzle", "action_solution", "proof"])
    Puzzle.defun (.str "merkle_root_from_proof") (.list (texts ["cur", "proof"])) (.tree proofWalk) false
    Puzzle.returns (.tree code)
  keepRemarks main
  return (main, mods)

end Generate

/-- The programs generated for a coin: the main one, and in merkle mode one per action, with
the signatures of the actions and the remarks the programs share. -/
structure Generated where
  mode : Mode
  main : Puzzle
  signatures : List Signature
  actionMods : List (String × Puzzle)
  remarks : Remarks

/-- The mode a request names, with `auto` picking merkle mode for a `@merkle` coin, direct
mode for a coin of one action and dispatch mode otherwise. -/
def pickMode (a : Analysis) (request : String) : Except Failure Mode := do
  let n := a.coin.actions.length
  let fault := fun (t : String) => (Except.error ⟨.generation, t, none, []⟩ : Except Failure Mode)
  match request with
  | "auto" => return if a.merkle then .merkle else if n == 1 then .direct else .dispatch
  | "direct" =>
    if n != 1 then fault ("direct mode needs exactly one action, " ++ a.coin.name ++ " has " ++ toString n)
    else return .direct
  | "dispatch" => return .dispatch
  | "merkle" => return .merkle
  | m => fault ("unknown dispatch mode " ++ m)

/-- Generates the programs of a checked coin, refusing any that nests deeper than the limit. -/
def generate (a : Analysis) (request : String) (codec : AddressCodec) (maxDepth : Bound) :
    Except Failure Generated := do
  let mode ← pickMode a request
  let sigs := a.actions.map ActionInfo.signature
  let run : GenM Generated := do
    if mode == .merkle then
      let (main, mods) ← Generate.merkle sigs
      return ⟨mode, main, sigs, mods, (← get).remarks⟩
    else
      let main ← Generate.single mode sigs
      return ⟨mode, main, sigs, [], (← get).remarks⟩
  let (g, _) ← run.run { analysis := a, codec, maxDepth }
  for p in g.main :: g.actionMods.map (·.2) do
    match (Puzzle.build.run { p with remarks := g.remarks }) with
    | .ok el _ =>
      let d := nestingDepth el.tree
      if ← maxDepth.exceededBy d then
        throw ⟨.generation, "generated program nests " ++ toString d ++ " deep, more than " ++
          maxDepth.text, none, []⟩
    | .error e _ => throw e
  return g

end PuzzleKit.Script
