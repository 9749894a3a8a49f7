import PuzzleKit.Value
import PuzzleKit.Failure

/-! Byte strings from host values, as the host's byte-string constructor makes them: bytes
stay themselves, a count `n` gives `n` zero bytes, a list or tuple of integers below 256 gives
those bytes, a dictionary gives its keys, and anything else is refused. Also the length of a
value that has one, and the items a value yields when walked. -/

namespace PuzzleKit.Value

def byteOf (v : Value) : Except Failure UInt8 :=
  match v.asInt? with
  | some i =>
    if 0 ≤ i && i < 256 then .ok (UInt8.ofNat i.toNat)
    else .error (.value "bytes must be in range(0, 256)")
  | Option.none => .error (.type ("'" ++ v.typeName ++ "' object cannot be interpreted as an integer"))

/-- The bytes the host's byte-string constructor makes of a value. -/
def toByteString (v : Value) : Except Failure (List UInt8) :=
  match v with
  | .bytes b => .ok b
  | .bool b => .ok (if b then [0] else [])
  | .int n => if n < 0 then .error (.value "negative count") else .ok (List.replicate n.toNat 0)
  | .str _ => .error (.type "string argument without an encoding")
  | .list xs => xs.mapM byteOf
  | .tuple xs => xs.mapM byteOf
  | .dict kvs => kvs.mapM (byteOf ·.1)
  | v => .error (.type ("cannot convert '" ++ v.typeName ++ "' object to bytes"))

def length (v : Value) : Except Failure Nat :=
  match v with
  | .str s => .ok s.length
  | .bytes b => .ok b.length
  | .list xs => .ok xs.length
  | .tuple xs => .ok xs.length
  | .dict kvs => .ok kvs.length
  | v => .error (.type ("object of type '" ++ v.typeName ++ "' has no len()"))

/-- The text of a string value, as the host encodes text; other values have no such method. -/
def utf8Text (v : Value) : Except Failure String :=
  match v with
  | .str s => .ok s
  | v => .error ⟨.noAttribute, "'" ++ v.typeName ++ "' object has no attribute 'encode'", Option.none, []⟩

/-- The items a host value yields when walked: a dictionary its keys, a string its
characters, bytes their values. -/
def items? : Value → Option (List Value)
  | .list xs | .tuple xs => some xs
  | .dict kvs => some (kvs.map (·.1))
  | .str s => some (s.toList.map fun c => .str (String.singleton c))
  | .bytes b => some (b.map fun x => .int x.toNat)
  | _ => Option.none

/-- The items of a host value, failing for a value that cannot be walked. -/
def iterate (v : Value) : Except Failure (List Value) :=
  match v.items? with
  | some xs => .ok xs
  | Option.none => .error (.type ("'" ++ v.typeName ++ "' object is not iterable"))

/-- The fault of using a value that cannot be a dictionary key as one. -/
def unhashable (v : Value) : Failure :=
  .type ("unhashable type: '" ++ v.failingType.getD v.typeName ++ "'")

/-- A value used as a dictionary key, failing when it cannot be one. -/
def asKey (v : Value) : Except Failure Value :=
  if v.hashable then .ok v else .error (unhashable v)

/-- Names joined with commas; each must be text. -/
def joinTexts (ns : List Value) : Except Failure String := do
  let texts ← ns.zipIdx.mapM fun (v, i) => match v with
    | .str s => .ok s
    | v => .error (.type ("sequence item " ++ toString i ++ ": expected str instance, " ++
        v.typeName ++ " found"))
  return ", ".intercalate texts

end PuzzleKit.Value
