import PuzzleKit.Build.Solution

/-! The lineage of one stateful coin: its current state values, a version that each spend
raises, and how many states it has had. A spend's solution carries the action selector (when
the puzzle dispatches on actions), the arguments, extra values and the current state; after a
spend the new state is recorded and the fields that changed are reported. -/

namespace PuzzleKit

/-- A coin lineage. -/
structure CoinLineage where
  schema : StateSchema
  dispatch : Bool := true
  values : List (Value × Value)
  version : Nat := 0
  history : Nat := 1

/-- Lineage calls: they log warnings and may fail, keeping what they did before. -/
abbrev LineageM := EStateM Failure (CoinLineage × List String)

namespace CoinLineage

/-- Runs a logged call on the log of a lineage call. -/
def logged {α : Type} (m : Logged α) : LineageM α := do
  let (c, log) ← get
  match m.run log with
  | .ok a log => set (c, log); return a
  | .error e log => set (c, log); throw e

/-- A new lineage from a schema and initial values, completed. -/
def start (schema : StateSchema) (initial : List (Value × Value)) (dispatch : Bool) :
    Except Failure (CoinLineage × List String) := do
  match (schema.complete initial).run [] with
  | .ok vs log => return (⟨schema, dispatch, vs, 0, 1⟩, log)
  | .error e _ => throw e

/-- The code of the current state. -/
def payload : LineageM Noted := do
  let (c, _) ← get
  logged (c.schema.encode c.values)

/-- The solution of a spend of an action with arguments and extra values; the action is
read only when the puzzle dispatches on it. -/
def prepare (action : Value) (args extra : List Value) : LineageM Noted := do
  let (c, _) ← get
  let build : Build.SolutionM Unit := do
    if c.dispatch then Build.Solution.addActionOf action args else Build.Solution.add args
    Build.Solution.add extra
  match build.run {} with
  | .ok _ sol =>
    let st ← logged (c.schema.encode c.values)
    return Noted.ofList (sol.items ++ [st])
  | .error e _ => throw e

/-- The changes of a spend given as a dictionary of host values, whose keys name fields and
so must be text. -/
def changesOf (kvs : List (Value × Value)) : Except Failure (List (String × Value)) :=
  kvs.mapM fun (k, v) => match k with
    | .str n => .ok (n, v)
    | _ => .error (.type "keywords must be strings")

/-- Records the state a spend produced and reports the fields that changed. -/
def advance (changes : List (String × Value)) : LineageM (List (Value × Value × Value)) := do
  let (c, _) ← get
  let next := changes.foldl (fun acc (n, v) => Value.dictSet acc (.str n) v) c.values
  let changed ← logged (c.schema.diff c.values next)
  modify fun (_, log) =>
    ({ c with values := next, version := c.version + 1, history := c.history + 1 }, log)
  return changed

end CoinLineage

end PuzzleKit
