import PuzzleKit.Build.Node
import PuzzleKit.Action.State
import PuzzleKit.Tree.Binary
import PuzzleKit.Build.Signature

/-! Spend solutions: the list of values a puzzle is run on. Host values become spend-time
values as follows: a tree stays itself, nothing and false are `()`, true is `1`, an integer
is its minimal atom, bytes are their atom, text starting with `0x` is hex bytes (an odd digit
count gets a leading zero), other text is its UTF-8 string, and a list or tuple is the list
of its items. Condition lists in solutions use numeric condition codes. -/

namespace PuzzleKit.Build

/-- The spend-time value of a host value. -/
def coerce : Value → Except Failure Noted
  | .tree t => .ok t
  | .none => .ok Noted.nil
  | .bool b => .ok (if b then Noted.one else Noted.nil)
  | .int i => .ok (int i)
  | .bytes b => .ok (.atom b .bytes (.own []))
  | .str s =>
    if s.startsWith "0x" then
      let h := s.toList.drop 2
      let h := if h.length % 2 = 0 then h else '0' :: h
      (hexBytes (String.ofList h)).map fun b => .atom b .bytes (.own [])
    else .ok (str s)
  | .list xs => coerceList xs
  | .tuple xs => coerceList xs
  | v => .error (.type ("cannot use " ++ v.typeName ++ " in a solution"))
where
  coerceList : List Value → Except Failure Noted
    | [] => .ok Noted.nil
    | x :: xs => do
      let a ← coerce x
      let b ← coerceList xs
      return .cons a b (.own [])

/-- A solution being built: its items so far. -/
structure Solution where
  items : List Noted := []

/-- Solution calls: they add items and may fail, keeping the items added before. -/
abbrev SolutionM := EStateM Failure Solution

namespace Solution

def push (el : Noted) : SolutionM Unit := modify fun s => ⟨s.items ++ [el]⟩

/-- A call that may fail, inside a solution call. -/
def lift {α : Type} : Except Failure α → SolutionM α
  | .ok a => pure a
  | .error e => throw e

/-- Appends host values one by one. -/
def add (vs : List Value) : SolutionM Unit := vs.forM fun v => do push (← lift (coerce v))

/-- Appends the empty list. -/
def addNil : SolutionM Unit := push Noted.nil

/-- Appends the list of the items of a host value. -/
def addList (v : Value) : SolutionM Unit := do
  let vs ← lift v.iterate
  let els ← lift (vs.mapM coerce)
  push (Noted.ofList els)

/-- Appends an action selector, the empty list for the default action, then arguments. -/
def addAction (name : Option String) (args : List Value) : SolutionM Unit := do
  push (match name with
    | some n => str n
    | none => Noted.nil)
  add args

/-- Appends an action selector named by a host value, which must be text or nothing, then
arguments. -/
def addActionOf (name : Value) (args : List Value) : SolutionM Unit := do
  match name with
  | .none => addAction none args
  | n => addAction (some (← lift n.utf8Text)) args

/-- Appends the code of a state; its warnings are dropped. -/
def addState (schema : StateSchema) (values : List (Value × Value)) : SolutionM Unit := do
  match (schema.encode values).run [] with
  | .ok el _ => push el
  | .error e _ => throw e

/-- Appends a merkle proof: the list of its hashes. -/
def addMerkleProof (proof : List (List UInt8)) : SolutionM Unit :=
  push (Noted.ofList (proof.map fun h => .atom h .bytes (.own [])))

def build (s : Solution) : Noted := Noted.ofList s.items

/-- Appends the list a callable builds on a solution of its own, as adding a list given a
callable in place of values does. When the callable fails, nothing is appended. -/
def addListBuilt {α : Type} (fn : SolutionM α) : SolutionM α :=
  match fn.run {} with
  | .ok a sub => do push sub.build; pure a
  | .error e _ => throw e

end Solution

/-- A condition `(CODE args…)` with the numeric code of a condition name. -/
def numericCondition (name : String) (args : List Value) : Except Failure Noted := do
  let code ← (conditionCode? name).elim (.error (unknownCondition name)) .ok
  let xs ← args.mapM coerce
  return Noted.ofList (int code :: xs)

/-- A condition with the numeric code of a condition named by a host value: a name that is
not text is unknown if it can be a dictionary key, and cannot be looked up otherwise. -/
def numericConditionOf (name : Value) (args : List Value) : Except Failure Noted := do
  let code ← conditionCodeOf name
  let xs ← args.mapM coerce
  return Noted.ofList (int code :: xs)

/-- The parameters of the methods that add to a condition list, the list itself first. -/
def conditionMethod? (kind : String) : Option Signature :=
  let sig := fun (params : List String) (required : Nat) (variadic : Bool) =>
    some (⟨"ConditionListBuilder." ++ kind, "self" :: params, required + 1, variadic⟩ : Signature)
  match kind with
  | "add" => sig ["name"] 1 true
  | "create_coin" => sig ["puzzle_hash", "amount", "memos"] 2 false
  | "reserve_fee" => sig ["amount"] 1 false
  | "agg_sig_me" => sig ["pubkey", "message"] 2 false
  | "create_announcement" => sig ["message"] 1 false
  | "assert_announcement" => sig ["announcement_id"] 1 false
  | _ => none

/-- The coin a condition list creates: a puzzle hash, an amount and, unless nothing is given,
the list of the items of the memos. -/
def createCoinCondition (ph amount memos : Value) : Except Failure Noted :=
  match memos with
  | .none => numericCondition "CREATE_COIN" [ph, amount]
  | ms => do numericCondition "CREATE_COIN" [ph, amount, .list (← ms.iterate)]

/-- The condition a condition-list step adds. A coin creation takes its puzzle hash, amount
and memos by position, the first two required and anything after the memos unread; the other
steps hand all their arguments to their method: `add` names its condition, and the others
add the condition they are named for. -/
def listCondition (kind : String) (args : List Value) : Except Failure Noted :=
  match conditionMethod? kind with
  | none => .error ⟨.noAttribute, "'ConditionListBuilder' object has no attribute '" ++ kind ++ "'",
      none, []⟩
  | some s =>
    if kind = "create_coin" then
      match args with
      | ph :: amount :: rest => createCoinCondition ph amount (rest.headD .none)
      | _ => .error Failure.outOfRange
    else if !s.admits (args.length + 1) then .error (s.refusal (args.length + 1))
    else match kind, args with
      | "add", name :: rest => numericConditionOf name rest
      | "reserve_fee", xs => numericCondition "RESERVE_FEE" xs
      | "agg_sig_me", xs => numericCondition "AGG_SIG_ME" xs
      | "create_announcement", xs => numericCondition "CREATE_COIN_ANNOUNCEMENT" xs
      | _, xs => numericCondition "ASSERT_COIN_ANNOUNCEMENT" xs

/-- A condition list being built, as a solution passes it: its conditions so far. -/
structure ConditionList where
  conds : List Noted := []

/-- Condition-list calls: each adds one condition or fails, keeping the ones added before. -/
abbrev ConditionListM := EStateM Failure ConditionList

/-- A call of a condition-list method, appending the condition it makes. -/
def ConditionList.call (kind : String) (args : List Value) : ConditionListM Unit :=
  match listCondition kind args with
  | .ok c => modify fun l => ⟨l.conds ++ [c]⟩
  | .error e => throw e

/-- Appends the list of the conditions a callable makes on a condition list of its own; when
the callable fails, nothing is appended. -/
def Solution.addConditions {α : Type} (fn : ConditionListM α) : SolutionM α :=
  match fn.run {} with
  | .ok a l => do Solution.push (Noted.ofList l.conds); pure a
  | .error e _ => throw e

/-- The parameters of the solution method a step calls, the builder itself first; steps
the builder does not take directly have none. -/
def solutionStep? (step : String) : Option Signature :=
  let sig := fun (params : List String) (required : Nat) (variadic : Bool) =>
    some (⟨"SolutionBuilder." ++ step, "self" :: params, required + 1, variadic⟩ : Signature)
  match step with
  | "add" => sig [] 0 true
  | "add_nil" => sig [] 0 false
  | "add_list" => sig ["values"] 1 false
  | "add_action" => sig ["name"] 1 true
  | "add_merkle_proof" => sig ["proof"] 1 false
  | _ => none

/-- The fault of calling a solution step with `given` arguments, if its method refuses that
many. -/
def solutionRefusal? (step : String) (given : Nat) : Option Failure :=
  match solutionStep? step with
  | some s => if s.admits (given + 1) then none else some (s.refusal (given + 1))
  | none => none

/-- The fault of a step name that is no solution method. -/
def noSolutionMethod (step : String) : Failure :=
  ⟨.noAttribute, "'SolutionBuilder' object has no attribute '" ++ step ++ "'", none, []⟩

end PuzzleKit.Build
