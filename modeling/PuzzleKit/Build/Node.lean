import PuzzleKit.Value.Bytes
import PuzzleKit.Opcode
import PuzzleKit.Library.Include
import PuzzleKit.Failure

/-! The pieces of program code: symbols, calls `(op args…)`, conditionals `(if c t e)`,
failures `(x msg)`, spend conditions `(list NAME args…)` and the cons `(c cond rest)` that
prepends a condition to the conditions that follow. Host values become code as follows: a
tree stays itself, true and false are `1` and `()`, nothing is `()`, an integer is its atom,
bytes are their atom and a string names a variable. -/

namespace PuzzleKit.Build

def sym (name : String) : Noted := .atom name.toUTF8.toList .symbol (.own [])

def str (s : String) : Noted := .atom s.toUTF8.toList .string (.own [])

def int (i : Int) : Noted := .atom (Bytes.ofInt i) .int (.own [])

/-- The code a host value stands for. -/
def asElement : Value → Except Failure Noted
  | .tree t => .ok t
  | .bool b => .ok (if b then Noted.one else Noted.nil)
  | .none => .ok Noted.nil
  | .int i => .ok (int i)
  | .bytes b => .ok (.atom b .bytes (.own []))
  | .str s => .ok (sym s)
  | v => .error (.type ("cannot use " ++ v.typeName ++ " in a program"))

/-- The code of several host values, failing at the first that has none. -/
def asElements (vs : List Value) : Except Failure (List Noted) := vs.mapM asElement

def call (op : String) (args : List Noted) : Noted := Noted.ofList (sym op :: args)

/-- The conditional `(if c t e)`. -/
def ifNode (c t e : Noted) : Noted := call "if" [c, t, e]

/-- The failure `(x)`, or `(x "message")`. -/
def failNode : Option String → Noted
  | some m => Noted.ofList [sym "x", str m]
  | none => call "x" []

/-- A fresh symbol named by a host value; only text names one. -/
def symOf (name : Value) : Except Failure Noted := do
  return sym (← name.utf8Text)

/-- The failure with a message given as a host value: nothing gives `(x)`, text gives
`(x "message")`, and other values have no text to put there. -/
def failNodeOf : Value → Except Failure Noted
  | .none => .ok (failNode none)
  | m => do return failNode (some (← m.utf8Text))

/-- The fault of a condition name that the table does not hold. -/
def unknownCondition (name : String) : Failure := .key ("unknown condition " ++ name)

/-- The code of a condition named by a host value: a name that is not text is unknown, or
cannot be looked up at all when it cannot be a dictionary key. -/
def conditionCodeOf (name : Value) : Except Failure Nat :=
  match name with
  | .str s => (conditionCode? s).elim (.error (unknownCondition s)) .ok
  | v => if v.hashable then .error (unknownCondition v.text) else .error v.unhashable

/-- The name of the condition whose code a host value equals as a number; other values that
can be a dictionary key name none. -/
def conditionNameOf (code : Value) : Except Failure (Option String) :=
  match code.asNumber? with
  | some n => .ok (conditionName? n)
  | none => if code.hashable then .ok none else .error code.unhashable

/-- The spend condition `(list NAME args…)`, for a name of the condition table. -/
def condition (name : String) (args : List Noted) : Except Failure Noted :=
  match conditionCode? name with
  | some _ => .ok (Noted.ofList (sym "list" :: sym name :: args))
  | none => .error (unknownCondition name)

def consCondition (cond rest : Noted) : Noted := call "c" [cond, rest]

/-- The text of a symbol atom, none for other trees; a symbol whose bytes are not UTF-8 text
cannot be read. -/
def symbolText : Noted → Except Failure (Option String)
  | .atom b .symbol _ => some <$> utf8Text b
  | _ => .ok none

def headSymbol : Noted → Except Failure (Option String)
  | .cons f _ _ => symbolText f
  | _ => .ok none

/-- The include files that code needs, in the order their first use is met: a file that
defines the head symbol of a list (the opcode constants excepted), and the condition-code file
for a condition name used anywhere; names the program declares itself need none. Trees are
read first part first, a list's head before its parts. -/
def autoIncludes (trees : List Noted) (declared : List String) : Except Failure (List String) :=
  let add := fun (found : List String) (p : String) => if found.contains p then found else found ++ [p]
  let rec visit (found : List String) : Noted → Except Failure (List String)
    | .atom b h t => do
      match ← symbolText (.atom b h t) with
      | some name =>
        if includeFor name == some "condition_codes.clib" && !declared.contains name then
          return add found "condition_codes.clib"
        else return found
      | none => return found
    | .cons f r t => do
      let found := match ← headSymbol (.cons f r t) with
        | some h =>
          if declared.contains h then found
          else match includeFor h with
            | some p => if p == "opcodes.clib" then found else add found p
            | none => found
        | none => found
      visit (← visit found f) r
  trees.foldlM visit []

end PuzzleKit.Build
