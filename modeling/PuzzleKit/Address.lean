import PuzzleKit.Text.Case
import PuzzleKit.Failure

/-! Addresses: a 32-byte puzzle hash written in bech32m (BIP 350) under a human-readable
prefix. The data part is the hash regrouped into 5-bit digits of the bech32 alphabet, followed
by a six-digit checksum over the prefix and the digits. -/

namespace PuzzleKit.Bech32

def charset : List Char := "qpzry9x8gf2tvdw0s3jn54khce6mua7l".toList

def bech32mConst : Nat := 0x2bc830a3

/-- The checksum polynomial over 5-bit values. -/
def polymod (values : List Nat) : Nat :=
  let gen : List Nat := [0x3b6a57b2, 0x26508e6d, 0x1ea119fa, 0x3d4233dd, 0x2a1462b3]
  values.foldl (fun chk v =>
    let b := chk >>> 25
    let chk := ((chk &&& 0x1ffffff) <<< 5) ^^^ v
    (List.range 5).foldl (fun c i => if (b >>> i) &&& 1 = 1 then c ^^^ gen.getD i 0 else c) chk) 1

/-- The prefix spread into 5-bit values for the checksum. -/
def expandPrefix (hrp : String) : List Nat :=
  hrp.toList.map (·.toNat >>> 5) ++ [0] ++ hrp.toList.map (·.toNat &&& 31)

/-- The two checksum variants. -/
inductive Variant where
  | bech32
  | bech32m
  deriving DecidableEq, Repr

/-- The six checksum digits of bech32m. -/
def checksum (hrp : String) (data : List Nat) : List Nat :=
  let pm := polymod (expandPrefix hrp ++ data ++ [0, 0, 0, 0, 0, 0]) ^^^ bech32mConst
  (List.range 6).map fun i => (pm >>> (5 * (5 - i))) &&& 31

/-- A bech32m string of a prefix and 5-bit digits. -/
def encode (hrp : String) (data : List Nat) : String :=
  hrp ++ "1" ++ String.ofList ((data ++ checksum hrp data).map fun d => charset.getD d 'q')

/-- The variant, prefix and digits of a bech32 string with a valid checksum. -/
def decode (s : String) : Option (Variant × String × List Nat) :=
  let cs := s.toList
  if cs.any (fun c => c.toNat < 33 || c.toNat > 126) then none
  else if Text.toLower s != s && Text.toUpper s != s then none
  else
    let cs := (Text.toLower s).toList
    match cs.reverse.findIdx? (· = '1') with
    | none => none
    | some k =>
      let pos := cs.length - 1 - k
      if pos < 1 || pos + 7 > cs.length || cs.length > 90 then none
      else
        let rest := cs.drop (pos + 1)
        if !rest.all (charset.contains ·) then none
        else
          let hrp := String.ofList (cs.take pos)
          let data := rest.map fun c => charset.idxOf c
          let c := polymod (expandPrefix hrp ++ data)
          let v := if c = 1 then some Variant.bech32 else if c = bech32mConst then some .bech32m else none
          v.map fun v => (v, hrp, data.take (data.length - 6))

/-- Regroups digits of `fromBits` bits into digits of `toBits` bits; with `pad` a last partial
digit is filled with zeros, without it leftover bits must be zero and fewer than `fromBits`. -/
def convertBits (data : List Nat) (fromBits toBits : Nat) (pad : Bool) : Option (List Nat) :=
  let maxv := (1 <<< toBits) - 1
  let maxAcc := (1 <<< (fromBits + toBits - 1)) - 1
  let step := fun (st : Option (Nat × Nat × List Nat)) (value : Nat) =>
    st.bind fun (acc, bits, out) =>
      if value >>> fromBits ≠ 0 then none
      else
        let acc := ((acc <<< fromBits) ||| value) &&& maxAcc
        let bits := bits + fromBits
        let n := bits / toBits
        let outs := (List.range n).map fun i => (acc >>> (bits - toBits * (i + 1))) &&& maxv
        some (acc, bits - toBits * n, out ++ outs)
  (data.foldl step (some (0, 0, []))).bind fun (acc, bits, out) =>
    if pad then
      some (if bits > 0 then out ++ [(acc <<< (toBits - bits)) &&& maxv] else out)
    else if bits ≥ fromBits || (acc <<< (toBits - bits)) &&& maxv ≠ 0 then none
    else some out

end Bech32

/-- The bech32 operations an address codec calls: writing a prefix and 5-bit digits with the
bech32m checksum, reading a string to its checksum variant, prefix and digits, and regrouping
digits between widths. -/
structure Bech32Layer where
  encode : String → List Nat → String
  decode : String → Option (Bech32.Variant × String × List Nat)
  convertBits : List Nat → Nat → Nat → Bool → Option (List Nat)

/-- The reference implementation of BIP 350, which the tool runs with. -/
def Bech32.reference : Bech32Layer := ⟨Bech32.encode, Bech32.decode, Bech32.convertBits⟩

/-- Encodes and decodes addresses under one prefix, over a bech32 layer. -/
structure AddressCodec where
  pre : String := "xch"
  bech32 : Bech32Layer := Bech32.reference

namespace AddressCodec

/-- Whether a text looks like an address of this prefix. -/
def isAddress (c : AddressCodec) (s : String) : Bool :=
  (Text.toLower s).startsWith (c.pre ++ "1")

/-- The puzzle hash that an address holds. -/
def decode (c : AddressCodec) (a : String) : Except Failure (List UInt8) :=
  match c.bech32.decode a with
  | none => .error (.value ("invalid address " ++ a))
  | some (v, hrp, data) =>
    if v ≠ .bech32m then .error (.value ("address " ++ a ++ " is not bech32m"))
    else if hrp ≠ c.pre then .error (.value ("address prefix " ++ hrp ++ " is not " ++ c.pre))
    else match c.bech32.convertBits data 5 8 false with
      | some bs =>
        if bs.length = 32 then .ok (bs.map UInt8.ofNat)
        else .error (.value ("address " ++ a ++ " does not hold a 32 byte puzzle hash"))
      | none => .error (.value ("address " ++ a ++ " does not hold a 32 byte puzzle hash"))

/-- The puzzle hash of a text that is a valid address of this prefix, and none otherwise. -/
def tryDecode (c : AddressCodec) (s : String) : Option (List UInt8) :=
  if c.isAddress s then (c.decode s).toOption else none

/-- The address of a puzzle hash. -/
def encode (c : AddressCodec) (ph : List UInt8) : Except Failure String :=
  if ph.length ≠ 32 then .error (.value "puzzle hashes are 32 bytes")
  else match c.bech32.convertBits (ph.map (·.toNat)) 8 5 true with
    | some data => .ok (c.bech32.encode c.pre data)
    | none => .error (.value "puzzle hashes are 32 bytes")

end AddressCodec

end PuzzleKit
