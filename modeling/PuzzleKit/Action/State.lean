import PuzzleKit.Value.Bytes
import PuzzleKit.Text.Letter
import PuzzleKit.Text.Blank
import PuzzleKit.Text.Utf8
import PuzzleKit.Tree.Hash

/-! Typed coin state. A state schema lists named fields with types: unsigned and signed
integers of any width in steps of eight bits (all held as integers), truth values, 32-byte
addresses and hashes, byte strings, text, and mappings from one type to another. A state is
encoded as the list of its field values in schema order: integers as their atoms, truth as
`1` or `()`, bytes and text as their atoms, and a mapping as a list of `(key . value)` pairs.

Values given for a state are completed: unknown fields are ignored and missing ones take
their zero, each with a warning; a strict schema refuses both instead. -/

namespace PuzzleKit

/-- The type of a state field. -/
inductive FieldType where
  | uint
  | int
  | bool
  | address
  | bytes32
  | bytes
  | string
  | mapping (key value : FieldType)
  deriving DecidableEq, Repr, Inhabited

namespace FieldType

/-- The name of a field type's kind. -/
def kind : FieldType → String
  | .uint => "uint"
  | .int => "int"
  | .bool => "bool"
  | .address => "address"
  | .bytes32 => "bytes32"
  | .bytes => "bytes"
  | .string => "string"
  | .mapping _ _ => "mapping"

/-- The integer type names: `uint` and `int`, bare or with a width of 8 to 256 bits in steps
of eight. -/
def isIntName (t : String) : Bool :=
  let width := fun (s : String) => match s.toNat? with
    | some n => 8 ≤ n && n ≤ 256 && n % 8 == 0 && s.toList.all Char.isDigit && !s.startsWith "0"
    | none => false
  t == "uint" || t == "int" ||
    (t.startsWith "uint" && width (String.ofList (t.toList.drop 4))) ||
    (t.startsWith "int" && width (String.ofList (t.toList.drop 3)))

/-- The key and value type names of `mapping(K => V)`, blanks allowed around each part. -/
def mappingParts? (t : String) : Option (String × String) :=
  let skip := fun (cs : List Char) => cs.dropWhile Text.isBlank
  let word := fun (cs : List Char) => (cs.takeWhile Text.isWordChar, cs.dropWhile Text.isWordChar)
  match t.toList with
  | 'm' :: 'a' :: 'p' :: 'p' :: 'i' :: 'n' :: 'g' :: rest =>
    match skip rest with
    | '(' :: rest =>
      let (k, rest) := word (skip rest)
      match skip rest with
      | '=' :: '>' :: rest =>
        let (v, rest) := word (skip rest)
        match skip rest with
        | [')'] => if k.isEmpty || v.isEmpty then none else some (String.ofList k, String.ofList v)
        | _ => none
      | _ => none
    | _ => none
  | _ => none

/-- The type a name gives when it is no mapping. -/
def ofSimpleName? (t : String) : Option FieldType :=
  if isIntName t then some (if t.startsWith "u" then .uint else .int)
  else match t with
    | "bool" => some .bool
    | "address" => some .address
    | "bytes32" => some .bytes32
    | "bytes" => some .bytes
    | "string" => some .string
    | _ => none

/-- The fault of a type name that is not supported. -/
def unsupported (t : String) : Failure := .value ("unsupported state type " ++ t)

/-- The type a type name denotes, after trimming. The parts of a mapping are single words. -/
def parse (text : String) : Except Failure FieldType :=
  let t := Text.trim text
  match mappingParts? t with
  | some (k, v) => do
    let kt ← (ofSimpleName? k).elim (.error (unsupported k)) .ok
    let vt ← (ofSimpleName? v).elim (.error (unsupported v)) .ok
    return .mapping kt vt
  | none => (ofSimpleName? t).elim (.error (unsupported t)) .ok

def zero : FieldType → Value
  | .uint | .int => .int 0
  | .bool => .bool false
  | .address | .bytes32 => .bytes (List.replicate 32 0)
  | .bytes => .bytes []
  | .string => .str ""
  | .mapping _ _ => .dict []

/-- The fault of a hash-sized value of the wrong length. -/
def wrongSize (t : FieldType) : Failure := .value (t.kind ++ " values are 32 bytes")

/-- The entries of a value taken as a dictionary: a dictionary's own, or those of a sequence
of pairs whose keys can be dictionary keys, later keys winning. -/
def entries (v : Value) : Except Failure (List (Value × Value)) :=
  let pair := fun (x : Value) (i : Nat) => (match x.items? with
    | some [k, w] => do return (← k.asKey, w)
    | some xs => .error (.value ("dictionary update sequence element #" ++ toString i ++
        " has length " ++ toString xs.length ++ "; 2 is required"))
    | none => .error (.type ("cannot convert dictionary update sequence element #" ++
        toString i ++ " to a sequence")) : Except Failure (Value × Value))
  match v with
  | .dict kvs => .ok kvs
  | v => do
    let xs ← v.iterate
    (xs.zipIdx.mapM fun (x, i) => pair x i).map Value.dictOf

/-- The code of an integer field value; an unsigned field refuses a negative one. -/
def encodeInt (unsigned : Bool) : Value → Except Failure Noted
  | .int i =>
    if unsigned && i < 0 then .error (.value ("negative value " ++ toString i ++ " for unsigned field"))
    else .ok (.atom (Bytes.ofInt i) .int (.own []))
  | v => .error (.value ("expected an integer, got " ++ v.repr))

/-- The code of a 32-byte field value; text is read as hex, with or without `0x`. -/
def encodeHash (t : FieldType) (v : Value) : Except Failure Noted := do
  let v ← match v with
    | .str s =>
      let h := if s.startsWith "0x" then String.ofList (s.toList.drop 2) else s
      (hexBytes h).map Value.bytes
    | v => pure v
  let n ← v.length
  if n != 32 then throw (wrongSize t)
  return .atom (← v.toByteString) .bytes (.own [])

/-- The code of a field value. -/
def encode : FieldType → Value → Except Failure Noted
  | .uint, v => encodeInt true v
  | .int, v => encodeInt false v
  | .bool, v => .ok (if v.truthy then Noted.one else Noted.nil)
  | .address, v => encodeHash .address v
  | .bytes32, v => encodeHash .bytes32 v
  | .bytes, v => do return .atom (← v.toByteString) .bytes (.own [])
  | .string, v => do return .atom (← v.utf8Text).toUTF8.toList .string (.own [])
  | .mapping kt vt, v => do
    let kvs ← entries v
    let pairs ← kvs.mapM fun (k, w) => do
      let ke ← encode kt k
      let we ← encode vt w
      return Noted.cons ke we (.own [])
    return Noted.ofList pairs

/-- The value of a field's code. -/
def decode : FieldType → Tree → Except Failure Value
  | .mapping kt vt, t => do
    let pairs ← (t.toList?).elim (.error (.value "mapping payload is not a list")) .ok
    let kvs ← pairs.mapM fun p => match p with
      | .cons k w => do
        let v ← decode vt w
        return (← decode kt k, v)
      | .atom _ _ => .error (.value "mapping entries are (key . value) pairs")
    return .dict (Value.dictOf kvs)
  | ft, .cons _ _ => .error (.value ("expected an atom for " ++ ft.kind))
  | .uint, .atom b _ | .int, .atom b _ => .ok (.int (Bytes.toInt b))
  | .bool, .atom b _ => .ok (.bool !b.isEmpty)
  | .address, .atom b _ => if b.length = 32 then .ok (.bytes b) else .error (wrongSize .address)
  | .bytes32, .atom b _ => if b.length = 32 then .ok (.bytes b) else .error (wrongSize .bytes32)
  | .bytes, .atom b _ => .ok (.bytes b)
  | .string, .atom b _ => (utf8Text b).map .str

end FieldType

/-- Calls that log warnings and may fail, keeping the warnings logged before a failure. -/
abbrev Logged := EStateM Failure (List String)

/-- A call that may fail, inside a logged call. -/
def Logged.lift {α : Type} : Except Failure α → Logged α
  | .ok a => pure a
  | .error e => throw e

def Logged.warn (w : String) : Logged Unit := modify (· ++ [w])

/-- A state schema: its fields with their names and declared type names, and the type of
each field, in order, and whether it refuses incomplete values. Field names are host values
that can be dictionary keys; two names that match as keys are one field. -/
structure StateSchema where
  fields : List (Value × String)
  types : List (Value × FieldType)
  strict : Bool := false

namespace StateSchema

/-- The schema of named type names: each type is read and each name taken as a key, field by
field, and no two names may match as keys. -/
def make (fields : List (Value × String)) (strict : Bool := false) : Except Failure StateSchema := do
  let types ← fields.mapM fun (n, t) => do
    let ft ← FieldType.parse t
    return (← n.asKey, ft)
  let distinct := types.foldl (fun acc (n, _) =>
    if acc.any (Value.itemEq n) then acc else acc ++ [n]) []
  if distinct.length != fields.length then throw (.value "duplicate state field")
  return ⟨fields, types, strict⟩

/-- A field of a schema given as a host value: the two items it yields when walked, a name
and a type, the type taken as its text. -/
def fieldOf (v : Value) : Except Failure (Value × String) := do
  match ← v.iterate with
  | [n, t] => return (n, t.text)
  | xs =>
    if xs.length < 2 then
      throw (.value ("not enough values to unpack (expected 2, got " ++ toString xs.length ++ ")"))
    else throw (.value "too many values to unpack (expected 2)")

/-- The fields of a schema given as a host value: the pairs it yields when walked. -/
def fieldsOf (schema : Value) : Except Failure (List (Value × String)) := do
  (← schema.iterate).mapM fieldOf

def names (s : StateSchema) : List Value := s.fields.map (·.1)

def typeOf (s : StateSchema) (n : Value) : FieldType :=
  ((s.types.find? (Value.itemEq n ·.1)).map (·.2)).getD .int

/-- Whether a key names a field. -/
def isField (s : StateSchema) (k : Value) : Bool := s.names.any (Value.itemEq k)

def defaults (s : StateSchema) : List (Value × Value) :=
  s.types.map fun (n, t) => (n, t.zero)

/-- The written form of a list of names. -/
def reprNames (ns : List Value) : String :=
  "[" ++ ", ".intercalate (ns.map Value.repr) ++ "]"

/-- Values completed to every field, in schema order and under the schema's names: unknown
keys are dropped and missing fields take their zero, each with a warning naming them, or a
strict schema refuses both. -/
def complete (s : StateSchema) (values : List (Value × Value)) : Logged (List (Value × Value)) := do
  let unknown := (values.filter fun (k, _) => !s.isField k).map (·.1)
  let missing := s.names.filter fun n => !(values.any fun (k, _) => Value.itemEq k n)
  if s.strict && (!unknown.isEmpty || !missing.isEmpty) then
    throw (.key ("state fields missing " ++ reprNames missing ++ " unknown " ++
      reprNames unknown))
  if !unknown.isEmpty then
    Logged.warn ("ignoring unknown state fields " ++ (← Logged.lift (Value.joinTexts unknown)))
  if !missing.isEmpty then
    Logged.warn ("defaulting state fields " ++ (← Logged.lift (Value.joinTexts missing)) ++ " to zero")
  return s.defaults.map fun (n, z) =>
    match values.reverse.find? (fun (k, _) => Value.itemEq k n) with
    | some (_, v) => (n, v)
    | none => (n, z)

/-- The code of a state: its field values in schema order. -/
def encode (s : StateSchema) (values : List (Value × Value)) : Logged Noted := do
  let full ← s.complete values
  let els ← Logged.lift (full.mapM fun (n, v) => (s.typeOf n).encode v)
  return Noted.ofList els

/-- The values of a state's code. -/
def decode (s : StateSchema) (payload : Tree) : Except Failure (List (Value × Value)) :=
  match payload.toList? with
  | some items =>
    if items.length != s.fields.length then .error (payloadSize s)
    else (s.types.zip items).mapM fun ((n, t), el) => do return (n, ← t.decode el)
  | none => .error (payloadSize s)
where
  payloadSize (s : StateSchema) : Failure :=
    .value ("state payload must be a list of " ++ toString s.fields.length ++ " fields")

/-- The fields whose values differ between two completed states, with both values; the
values are compared directly, so a field that is not-a-number in both differs. -/
def changes (o n : List (Value × Value)) : List (Value × Value × Value) :=
  (o.zip n).filterMap fun ((name, a), (_, b)) =>
    if Value.equal a b then none else some (name, a, b)

/-- The fields whose values differ between two states, with both values. -/
def diff (s : StateSchema) (old new : List (Value × Value)) :
    Logged (List (Value × Value × Value)) := do
  let o ← s.complete old
  let n ← s.complete new
  return changes o n

/-- The fields whose values differ between two states given as host values, each taken as a
dictionary when it is completed: the old state is completed before the new one is read. -/
def diffOf (s : StateSchema) (old new : Value) : Logged (List (Value × Value × Value)) := do
  let o ← s.complete (← Logged.lift (FieldType.entries old))
  let n ← s.complete (← Logged.lift (FieldType.entries new))
  return changes o n

/-- The hash of a state's code. -/
def hash (s : StateSchema) (values : List (Value × Value)) : Logged (List UInt8) := do
  return (← s.encode values).tree.hash

end StateSchema

end PuzzleKit
