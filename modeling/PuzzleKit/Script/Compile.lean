import PuzzleKit.Script.Parse
import PuzzleKit.Script.Generate
import PuzzleKit.Action.Merkle
import PuzzleKit.Build.Solution
import PuzzleKit.Curry
import PuzzleKit.Library.Program

/-! Compiling CoinScript source into a curried program: reading, checking and generating,
then fixing the values of the storage variables, which are curried into the program. In
merkle mode the curried value is instead the root of the tree of the action programs, each
curried with the storage values. A coin with state also curries its own module hash.

A compiled coin can make the solutions that spend it, and, when the library holds the
singleton programs, the puzzle hash of the coin wrapped as a singleton. -/

namespace PuzzleKit.Script

open Build

/-- The reference program that wraps a singleton, and the one that launches it. -/
def singletonModName : String := "singleton_top_layer_v1_1"
def singletonLauncherName : String := "singleton_launcher"

/-- What a compilation is asked for. -/
structure CompileOptions where
  dispatch : String := "auto"
  indent : Bool := true
  width : Bound := .whole 80
  storage : List (String × Value) := []
  library : Option ProgramLibrary := none
  codec : AddressCodec := {}
  maxDepth : Bound := .whole 500

/-- The code of a value given for a storage variable: a text that is an address stands for
its hash and one in `0x` for its bytes (a zero goes in front of an odd number of digits). -/
def storageElement (codec : AddressCodec) : Value → Except Failure Noted
  | .tree t => .ok t
  | .none => .ok Noted.nil
  | .bool b => .ok (if b then Noted.one else Noted.nil)
  | .int i => .ok (int i)
  | .bytes b => .ok (bytesAtom b)
  | .str s =>
    match codec.tryDecode s with
    | some h => .ok (bytesAtom h)
    | none =>
      if s.startsWith "0x" then
        let h := (s.drop 2).toString
        let h := if h.length % 2 == 0 then h else "0" ++ h
        bytesAtom <$> hexBytes h
      else .ok (str s)
  | v => .error (.type ("cannot curry a " ++ v.typeName))

/-- A compiled coin. -/
structure Compiled where
  name : String
  mode : Mode
  mod : Tree
  source : String
  curried : List (String × Noted)
  signatures : List Signature
  stateSchema : List (String × String)
  includes : List String
  actionMods : List (String × Tree)
  actionSources : List (String × String)
  actionTree : Option ActionTree
  storage : List (String × Noted)
  launcherId : Option (List UInt8)
  library : Option ProgramLibrary
  codec : AddressCodec

namespace Compiled

/-- The hash of the program before currying. -/
def modHash (c : Compiled) : List UInt8 := c.mod.hash

def puzzle (c : Compiled) : Tree := curry c.mod (c.curried.map (·.2.tree))

/-- The puzzle hash, from the module hash and the hashes of the curried values. -/
def puzzleHash (c : Compiled) : List UInt8 :=
  curriedHash c.modHash (c.curried.map (·.2.tree.hash))

/-- The names a solution of the program holds. -/
def solutionParams (c : Compiled) : List String :=
  match c.mode with
  | .direct => (c.signatures.head?.map Signature.template).getD []
  | .dispatch => ["action", "args"]
  | .merkle => ["action_name", "action_puzzle", "action_solution", "proof"]

/-- The signature of an action; no name means the only action in direct mode and the
default action otherwise. -/
def signature (c : Compiled) (name : Option String) : Except Failure Signature :=
  match name, c.mode, c.signatures with
  | none, .direct, s :: _ => .ok s
  | _, _, _ =>
    let n := name.getD "default"
    match c.signatures.find? (·.name == n) with
    | some s => .ok s
    | none => .error (.key (c.name ++ " has no action " ++ n))

/-- The action a host value names: nothing names none, text names its action, and other
values name no action of the coin, or cannot be looked up at all when they cannot be a
dictionary key. -/
def actionName (c : Compiled) : Value → Except Failure (Option String)
  | .none => .ok none
  | .str s => .ok (some s)
  | v =>
    if v.hashable then .error (.key (c.name ++ " has no action " ++ v.text))
    else .error v.unhashable

/-- The program of a merkle action, curried with the storage values. -/
def actionPuzzle (c : Compiled) (name : String) : Except Failure Tree :=
  match c.actionMods.lookup name with
  | some m => .ok (curry m (c.storage.map (·.2.tree)))
  | none => .error (.key (c.name ++ " has no merkle action " ++ name))

def actionPuzzleHash (c : Compiled) (name : String) : Option (List UInt8) :=
  (c.actionMods.lookup name).map fun m => curriedHash m.hash (c.storage.map (·.2.tree.hash))

/-- A value of a spend: a text that is an address stands for its hash. -/
def spendValue (c : Compiled) : Value → Value
  | .str s =>
    match c.codec.tryDecode s with
    | some h => .tree (bytesAtom h)
    | none => .str s
  | v => v

/-- The solution the program of the action with signature `sig` is run on: the arguments,
then the signer and amount when the action needs them, then the state; in dispatch mode the
action name comes first. -/
def actionSolution (c : Compiled) (sig : Signature) (action : Option String) (args : List Value)
    (signer amount : Option Value) (state : Option Value) : Except Failure Solution := do
  if args.length != sig.params.length then
    throw (.value ("action " ++ sig.name ++ " takes " ++ toString sig.params.length ++
      " argument(s), got " ++ toString args.length))
  let mut values := args.map c.spendValue
  for (wanted, v, what) in [(sig.signer, signer, "signer"), (sig.amount, amount, "amount")] do
    if wanted then
      match v with
      | some v => values := values ++ [c.spendValue v]
      | none => throw (.value ("action " ++ sig.name ++ " needs a " ++ what))
  let inner : SolutionM Unit := do
    if c.mode == .dispatch then Solution.addAction (action.map fun _ => sig.name) values
    else Solution.add values
  let mut sol ← match inner.run {} with
    | .ok _ s => pure s
    | .error e _ => throw e
  if sig.stateful then
    match state with
    | none => throw (.value ("action " ++ sig.name ++ " needs the current state"))
    | some st =>
      let schema ← StateSchema.make (c.stateSchema.map fun (n, t) => (.str n, t))
      let st ← FieldType.entries st
      sol ← match (Solution.addState schema st).run sol with
        | .ok _ s => pure s
        | .error e _ => throw e
  return sol

/-- The solution of a spend of an action with its arguments, signer, amount and state: the
action's own solution, with the action's name, its program and its merkle proof around it in
merkle mode. -/
def solution (c : Compiled) (action : Option String) (args : List Value)
    (signer amount : Option Value) (state : Option Value) : Except Failure Noted := do
  let sig ← c.signature action
  let sol ← c.actionSolution sig action args signer amount state
  if c.mode != .merkle then return sol.build
  let prog ← c.actionPuzzle sig.name
  let proof ← match c.actionTree with
    | some t => t.proof (.str sig.name)
    | none => pure []
  let outer : SolutionM Unit := do
    Solution.add [.str sig.name, .tree (Noted.ofTree prog), .tree sol.build]
    Solution.addMerkleProof proof
  match outer.run {} with
  | .ok _ s => return s.build
  | .error e _ => throw e

/-- The puzzle hash of the coin as a singleton, when there is a launcher id and the library
holds both singleton programs. -/
def singletonHash (c : Compiled) (library : Option ProgramLibrary) : Except Failure (Option (List UInt8)) := do
  match library.orElse (fun _ => c.library), c.launcherId with
  | some lib, some launcher =>
    if !(← lib.contains singletonModName) then return none
    if !(← lib.contains singletonLauncherName) then return none
    let modHash ← lib.modHash singletonModName
    let launcherHash ← lib.modHash singletonLauncherName
    let struct := Tree.cons (.atom modHash .bytes) (.cons (.atom launcher .bytes) (.atom launcherHash .bytes))
    return some (curriedHash modHash [struct.hash, c.puzzleHash])
  | _, _ => return none

end Compiled

/-- The values curried for the storage variables: a value given, else the initial value,
else zero with a warning; a `bytes32` or `address` variable needs 32 bytes. Values given for
names the coin does not store are warned about. -/
def storageValues (a : Analysis) (opts : CompileOptions) : Logged (List (String × Noted)) := do
  let mut rest := opts.storage
  let mut out := []
  for s in a.storage do
    let el ← match rest.lookup s.name with
      | some v =>
        rest := rest.filter (·.1 != s.name)
        Logged.lift (storageElement opts.codec v)
      | none =>
        match s.origin with
        | .var { init := some (.lit l _), .. } => pure (literalCode opts.codec l)
        | _ =>
          Logged.warn ("no value for storage variable " ++ s.name ++ ", using zero")
          pure (if s.type.cls == hashClass then bytesAtom (List.replicate 32 0) else Noted.nil)
    if s.type.cls == hashClass then
      match el with
      | .atom b _ _ =>
        if b.length != 32 then
          throw ⟨.generation, "storage variable " ++ s.name ++ " needs a 32 byte value", some s.pos, []⟩
      | _ => throw ⟨.generation, "storage variable " ++ s.name ++ " needs a 32 byte value", some s.pos, []⟩
    out := out ++ [(s.vmName, el)]
  for (n, _) in rest do
    Logged.warn ("ignoring value for unknown storage variable " ++ n)
  return out

/-- The launcher id of a singleton coin: a literal, a constant's value or a storage value. -/
def launcherOf (a : Analysis) (storage : List (String × Noted)) (codec : AddressCodec) :
    Option (List UInt8) :=
  let bytesOf := fun (n : Noted) => match n with
    | .atom b _ _ => b
    | _ => []
  match a.launcherId with
  | none => none
  | some (.lit l _) => some (bytesOf (literalCode codec l))
  | some (.ident n _) =>
    match a.symbol? n with
    | some s =>
      match s.kind, s.origin with
      | .constant, .const { value := .lit l _, .. } => some (bytesOf (literalCode codec l))
      | _, _ => (storage.lookup s.vmName).map bytesOf
    | none => none
  | some _ => none

/-- Lifts a faulting call into a logged one. -/
def Logged.ofExcept {α : Type} (r : Except Failure α) : Logged α := Logged.lift r

/-- Runs a builder call for its result alone. -/
def runBuilder {α : Type} (p : Puzzle) (m : PuzzleM α) : Except Failure α :=
  match m.run p with
  | .ok a _ => .ok a
  | .error e _ => .error e

/-- Compiles CoinScript source, logging warnings. -/
def compileSource (source : String) (opts : CompileOptions := {}) : Logged Compiled := do
  let coin ← Logged.ofExcept (parse source)
  let a ← Logged.ofExcept (analyze coin opts.codec)
  let g ← Logged.ofExcept (generate a opts.dispatch opts.codec opts.maxDepth)
  let storage ← storageValues a opts
  let shared := fun (p : Puzzle) => { p with remarks := g.remarks }
  let render := fun (p : Puzzle) => runBuilder (shared p) (Puzzle.serialize opts.indent opts.width)
  let mod ← Logged.ofExcept ((runBuilder (shared g.main) Puzzle.build).map Noted.tree)
  let mut mods : List (String × Tree) := []
  let mut sources : List (String × String) := []
  let mut tree : Option ActionTree := none
  let mut curried := storage
  if g.mode == .merkle then
    let mut t : ActionTree := { leaves := [] }
    for (n, p) in g.actionMods do
      let m ← Logged.ofExcept ((runBuilder (shared p) Puzzle.build).map Noted.tree)
      mods := mods ++ [(n, m)]
      sources := sources ++ [(n, ← Logged.ofExcept (render p))]
      t ← Logged.ofExcept (t.add n (curriedHash m.hash (storage.map (·.2.tree.hash))))
    tree := some t
    curried := [("ACTION_MERKLE_ROOT", bytesAtom t.root)]
  if a.hasState then curried := ("MOD_HASH", bytesAtom mod.hash) :: curried
  let src ← Logged.ofExcept (render g.main)
  let includes ← Logged.ofExcept ((runBuilder (shared g.main) Puzzle.includeList).map (·.map Value.text))
  return {
    name := coin.name
    mode := g.mode
    mod := mod
    source := src
    curried := curried
    signatures := g.signatures
    stateSchema := coin.stateVars.map fun v => (v.name, v.type.text)
    includes := includes
    actionMods := mods
    actionSources := sources
    actionTree := tree
    storage := storage
    launcherId := launcherOf a storage opts.codec
    library := opts.library
    codec := opts.codec }

end PuzzleKit.Script
