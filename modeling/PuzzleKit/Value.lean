import PuzzleKit.Tree.Noted
import PuzzleKit.Tree.Render
import PuzzleKit.Text.Printable
import PuzzleKit.Text.Shortest

/-! Host values: what callers hand to the builders and the state codec, and what decoding
gives back. A value is nothing, a truth value, an integer, a double-precision number, a string, a byte string, a list, a tuple, a dictionary in insertion order, or a
program tree.

Values compare as the host language compares them: truth values are the integers zero and
one, a list never equals a tuple, dictionaries compare by their entries in any order, and
trees compare as programs. The host reads every not-a-number as one and the same object, and
a container checks for the same object before it compares: so not-a-number equals nothing when
two values are compared directly, but it matches itself as an item of a list, tuple or
dictionary, as a key and as a member. Each value has a type name and a written form, which
error reports quote. -/

namespace PuzzleKit

/-- A host value. -/
inductive Value where
  | none
  | bool (b : Bool)
  | int (i : Int)
  | float (x : Text.Binary64)
  | str (s : String)
  | bytes (b : List UInt8)
  | list (xs : List Value)
  | tuple (xs : List Value)
  | dict (kvs : List (Value × Value))
  | tree (t : Noted)
  deriving Inhabited

namespace Value

def typeName : Value → String
  | .none => "NoneType"
  | .bool _ => "bool"
  | .int _ => "int"
  | .float _ => "float"
  | .str _ => "str"
  | .bytes _ => "bytes"
  | .list _ => "list"
  | .tuple _ => "tuple"
  | .dict _ => "dict"
  | .tree (.atom _ _ _) => "Atom"
  | .tree (.cons _ _ _) => "Cons"

/-- Whether a value counts as true: nothing, false, zero and empty containers do not, and a
tree always does. -/
def truthy : Value → Bool
  | .none => false
  | .bool b => b
  | .int i => i != 0
  | .float x => !x.isZero
  | .str s => !s.isEmpty
  | .bytes b => !b.isEmpty
  | .list xs => !xs.isEmpty
  | .tuple xs => !xs.isEmpty
  | .dict kvs => !kvs.isEmpty
  | .tree _ => true

/-- The integer a value is as a number, for truth values and integers. -/
def asInt? : Value → Option Int
  | .bool b => some (if b then 1 else 0)
  | .int i => some i
  | _ => Option.none

def hex2 (n : Nat) : String :=
  let d := fun k => if k < 10 then Char.ofNat (48 + k) else Char.ofNat (87 + k)
  String.ofList [d (n / 16 % 16), d (n % 16)]

/-- The escape of one character in a quoted string or byte string written with `q`. -/
def escapeChar (q : Char) (c : Char) : String :=
  if c = q || c = '\\' then String.ofList ['\\', c]
  else if c = '\t' then "\\t"
  else if c = '\n' then "\\n"
  else if c = '\r' then "\\r"
  else if c.toNat < 0x20 || c.toNat = 0x7f then "\\x" ++ hex2 c.toNat
  else if Text.isPrintable c then String.singleton c
  else Text.codeEscape c

/-- The quote a written string uses: a double quote when the text holds a single quote and no
double quote. -/
def quoteFor (cs : List Char) : Char :=
  if cs.contains '\'' && !cs.contains '"' then '"' else '\''

def reprStr (s : String) : String :=
  let q := quoteFor s.toList
  String.singleton q ++ String.join (s.toList.map (escapeChar q)) ++ String.singleton q

/-- The written form of a byte string. -/
def reprBytes (b : List UInt8) : String :=
  let cs := b.map fun x => Char.ofNat x.toNat
  let q := quoteFor cs
  let body := b.map fun x =>
    let c := Char.ofNat x.toNat
    if x.toNat ≥ 0x7f then "\\x" ++ hex2 x.toNat else escapeChar q c
  "b" ++ String.singleton q ++ String.join body ++ String.singleton q

mutual

/-- The written form of a value. -/
def repr : Value → String
  | .none => "None"
  | .bool b => if b then "True" else "False"
  | .int i => toString i
  | .float x => x.text
  | .str s => reprStr s
  | .bytes b => reprBytes b
  | .list xs => "[" ++ reprItems xs ++ "]"
  | .tuple [x] => "(" ++ repr x ++ ",)"
  | .tuple xs => "(" ++ reprItems xs ++ ")"
  | .dict kvs => "\x7b" ++ reprEntries kvs ++ "\x7d"
  | .tree t => "El<" ++ t.tree.render ++ ">"

/-- The written forms of values, separated by commas. -/
def reprItems : List Value → String
  | [] => ""
  | [x] => repr x
  | x :: xs => repr x ++ ", " ++ reprItems xs

/-- The written forms of dictionary entries, separated by commas. -/
def reprEntries : List (Value × Value) → String
  | [] => ""
  | [(k, v)] => repr k ++ ": " ++ repr v
  | (k, v) :: kvs => repr k ++ ": " ++ repr v ++ ", " ++ reprEntries kvs

end

/-- The text of a value as the host's string conversion gives it: a string is itself, a tree
is its compact text, and anything else is its written form. -/
def text : Value → String
  | .str s => s
  | .tree t => t.tree.render
  | v => v.repr

/-- The integer a value equals as a number: truth values, integers, and floating-point
numbers of integer value. -/
def asNumber? : Value → Option Int
  | .float x => x.toInt?
  | v => v.asInt?

mutual

/-- Whether a value can be a dictionary key: lists and dictionaries cannot, nor a tuple that
holds one. -/
def hashable : Value → Bool
  | .list _ | .dict _ => false
  | .tuple xs => hashableItems xs
  | _ => true

def hashableItems : List Value → Bool
  | [] => true
  | x :: xs => hashable x && hashableItems xs

end

mutual

/-- The type named when hashing a value fails: a list's or a dictionary's own, and for a tuple
that of the first item whose hash fails; none for a value that can be a key. -/
def failingType : Value → Option String
  | .list _ => some "list"
  | .dict _ => some "dict"
  | .tuple xs => failingTypeItems xs
  | _ => Option.none

def failingTypeItems : List Value → Option String
  | [] => Option.none
  | x :: xs => (failingType x).or (failingTypeItems xs)

end

/-- Whether a value equals the integer `n` as a number; a floating-point number does when
its value is that integer. -/
def isNumber (n : Int) (v : Value) : Bool :=
  match v with
  | .float x => x.equalsInt n
  | v =>
    match v.asInt? with
    | some m => m == n
    | Option.none => false

/-- Whether a value is the not-a-number. -/
def isNaN : Value → Bool
  | .float .nan => true
  | _ => false

mutual

/-- Equality of values compared directly, as the host language decides it. -/
def equal : Value → Value → Bool
  | .none, .none => true
  | .bool a, v => isNumber (if a then 1 else 0) v
  | .int a, v => isNumber a v
  | .float a, .float b => a.equal b
  | .float a, .bool b => isNumber (if b then 1 else 0) (.float a)
  | .float a, .int b => isNumber b (.float a)
  | .str a, .str b => a == b
  | .bytes a, .bytes b => a == b
  | .list xs, .list ys => equalItems xs ys
  | .tuple xs, .tuple ys => equalItems xs ys
  | .dict xs, .dict ys => xs.length == ys.length && entriesWithin xs ys
  | .tree a, .tree b => a.tree.same b.tree
  | _, _ => false
termination_by a => (sizeOf a, 0)

/-- Whether two values match as items, keys or members: both are the not-a-number, or they
are equal. -/
def itemEq (a b : Value) : Bool := (a.isNaN && b.isNaN) || equal a b
termination_by (sizeOf a, 1)

def equalItems : List Value → List Value → Bool
  | [], [] => true
  | x :: xs, y :: ys => itemEq x y && equalItems xs ys
  | _, _ => false
termination_by xs => (sizeOf xs, 0)

/-- The value under a key among dictionary entries. -/
def lookupIn (k : Value) : List (Value × Value) → Option Value
  | [] => Option.none
  | (k', v) :: rest => if itemEq k k' then some v else lookupIn k rest
termination_by rest => (sizeOf k, rest.length + 2)

/-- Whether every entry of the first dictionary is in the second with a matching value. -/
def entriesWithin : List (Value × Value) → List (Value × Value) → Bool
  | [], _ => true
  | (k, v) :: rest, ys =>
    (match lookupIn k ys with
     | some v' => itemEq v v'
     | Option.none => false) && entriesWithin rest ys
termination_by xs => (sizeOf xs, 0)

end

theorem itemEq_of_equal {a b : Value} (h : equal a b = true) : itemEq a b = true := by
  rw [itemEq]
  simp [h]

theorem itemEq_nan : itemEq (.float .nan) (.float .nan) = true := by
  rw [itemEq]
  rfl

/-- The dictionary with a key set: a matching key keeps its place and takes the new value. -/
def dictSet (kvs : List (Value × Value)) (k v : Value) : List (Value × Value) :=
  if kvs.any (fun (k', _) => itemEq k k') then
    kvs.map fun (k', v') => if itemEq k k' then (k', v) else (k', v')
  else kvs ++ [(k, v)]

/-- The dictionary of a list of entries, later entries winning. -/
def dictOf (kvs : List (Value × Value)) : List (Value × Value) :=
  kvs.foldl (fun acc (k, v) => dictSet acc k v) []

end Value

end PuzzleKit
