import PuzzleKit.Build.Solution
import PuzzleKit.Build.Signature
import PuzzleKit.Value.Bytes

/-! The node constructors called by name with a list of host values, as a host call passes
them: the arguments fill the positional parameters in order, and a call with too few or too
many fails before the constructor runs. Names must be strings where the constructor makes a
symbol or a string atom of them; a condition name is looked up as a dictionary key, so any
value that can be a key is merely unknown, and lists and dictionaries cannot be looked up at
all. -/

namespace PuzzleKit.Build

/-- The node constructors that can be called by name. -/
inductive Constructor where
  | call
  | ifNode
  | failNode
  | condition
  | consCondition
  | asElement
  | coerce
  deriving DecidableEq, Repr

namespace Constructor

def ofName? : String → Option Constructor
  | "call" => some .call
  | "if_node" => some .ifNode
  | "fail_node" => some .failNode
  | "condition" => some .condition
  | "cons_condition" => some .consCondition
  | "as_element" => some .asElement
  | "coerce" => some .coerce
  | _ => none

def signature : Constructor → Signature
  | .call => ⟨"call", ["op"], 1, true⟩
  | .ifNode => ⟨"if_node", ["cond", "then", "otherwise"], 3, false⟩
  | .failNode => ⟨"fail_node", ["message"], 0, false⟩
  | .condition => ⟨"condition", ["name"], 1, true⟩
  | .consCondition => ⟨"cons_condition", ["cond", "rest"], 2, false⟩
  | .asElement => ⟨"as_element", ["v"], 1, false⟩
  | .coerce => ⟨"coerce", ["v"], 1, false⟩

/-- A symbol named by a host value, which must be a string. -/
def symbolOf (v : Value) : Except Failure Noted := do
  return sym (← v.utf8Text)

/-- The spend condition named by a host value: the name is looked up first, then the
arguments become code. -/
def conditionOf (name : Value) (args : List Value) : Except Failure Noted := do
  let _ ← conditionCodeOf name
  return Noted.ofList (sym "list" :: sym name.text :: (← Build.asElements args))

/-- The node a constructor makes of its arguments; a count the signature refuses fails. -/
def make : Constructor → List Value → Except Failure Noted
  | .call, op :: args => do
    let head ← symbolOf op
    return Noted.ofList (head :: (← Build.asElements args))
  | .ifNode, [c, t, e] => do
    let c ← Build.asElement c
    let t ← Build.asElement t
    return Build.ifNode c t (← Build.asElement e)
  | .failNode, [] | .failNode, [.none] => .ok (Build.failNode none)
  | .failNode, [m] => do return Noted.ofList [sym "x", str (← m.utf8Text)]
  | .condition, name :: args => conditionOf name args
  | .consCondition, [c, r] => do
    let c ← Build.asElement c
    return Build.consCondition c (← Build.asElement r)
  | .asElement, [v] => Build.asElement v
  | .coerce, [v] => Build.coerce v
  | k, args => .error (k.signature.refusal args.length)

/-- Calls a constructor with arguments as a host call does: the count is checked first. -/
def apply (k : Constructor) (args : List Value) : Except Failure Noted :=
  if k.signature.admits args.length then k.make args
  else .error (k.signature.refusal args.length)

end Constructor

end PuzzleKit.Build
