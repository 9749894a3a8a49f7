import PuzzleKit.Tree.Basic

/-! The canonical binary encoding of trees. A pair is the byte `0xff` and its two parts; the
empty atom is `0x80`; a one-byte atom below `0x80` is that byte; any other atom is its length
in a size prefix of one to five bytes and then its bytes. The prefix of width `w` sets the top
`w` bits of its first byte and holds the length in the remaining bits.

Decoding reads exactly one tree and refuses trailing bytes, a truncated input and a prefix of
more than five bytes; decoded atoms get the guessed hint. -/

namespace PuzzleKit

/-- The size prefix of an atom of `n` bytes, for `n` of at least one byte and below `2 ^ 34`. -/
def sizePrefix (n : Nat) : List UInt8 :=
  if n < 0x40 then [UInt8.ofNat (0x80 ||| n)]
  else if n < 0x2000 then (Bytes.toLE 2 (0xc000 ||| n)).reverse
  else if n < 0x100000 then (Bytes.toLE 3 (0xe00000 ||| n)).reverse
  else if n < 0x8000000 then (Bytes.toLE 4 (0xf0000000 ||| n)).reverse
  else (Bytes.toLE 5 (0xf800000000 ||| n)).reverse

def encodeAtom (b : List UInt8) : List UInt8 :=
  match b with
  | [] => [0x80]
  | [x] => if x.toNat ≤ 0x7f then [x] else sizePrefix 1 ++ b
  | _ => sizePrefix b.length ++ b

/-- Atoms from this length on have no size prefix. -/
def atomSizeLimit : Nat := 0x400000000

namespace Tree

/-- The canonical encoding of a tree followed by `rest`; each byte is produced once, so deep
trees take time in proportion to their size. -/
def serializeOnto : Tree → List UInt8 → List UInt8
  | .atom b _, rest => encodeAtom b ++ rest
  | .cons f r, rest => 0xff :: f.serializeOnto (r.serializeOnto rest)

/-- The canonical encoding of a tree, whose atoms are shorter than `atomSizeLimit`. -/
def serialize (t : Tree) : List UInt8 := t.serializeOnto []

theorem serializeOnto_append (t : Tree) (xs ys : List UInt8) :
    t.serializeOnto (xs ++ ys) = t.serializeOnto xs ++ ys := by
  induction t generalizing xs with
  | atom b h => simp [serializeOnto]
  | cons f r ihf ihr => simp [serializeOnto, ihr, ihf]

theorem serializeOnto_eq (t : Tree) (rest : List UInt8) :
    t.serializeOnto rest = t.serialize ++ rest := by
  have h := serializeOnto_append t [] rest
  rw [List.nil_append] at h
  exact h

/-- A pair is `0xff` and the encodings of its two parts. -/
theorem serialize_cons (f r : Tree) : (Tree.cons f r).serialize = 0xff :: f.serialize ++ r.serialize := by
  show 0xff :: f.serializeOnto (r.serializeOnto []) = _
  rw [serializeOnto_eq f]
  rfl

/-- An atom is its own encoding. -/
theorem serialize_atom (b : List UInt8) (h : Hint) : (Tree.atom b h).serialize = encodeAtom b := by
  simp [serialize, serializeOnto]

def longestAtom : Tree → Nat
  | .atom b _ => b.length
  | .cons f r => max f.longestAtom r.longestAtom

end Tree

/-- Why bytes are not the encoding of a tree. -/
inductive DecodeError where
  | truncated (at_ : Nat)
  | trailing (consumed total : Nat)
  | badPrefix
  deriving Repr, Inhabited

/-- The text of a decoding fault. -/
def DecodeError.message : DecodeError → String
  | .truncated i => "truncated encoding at byte " ++ toString i
  | .trailing i n => "incomplete deserialization " ++ toString i ++ " != " ++ toString n
  | .badPrefix => "bad atom size prefix"

/-- `n` bytes from position `i`: the bytes and the rest. -/
def takeBytes (bs : List UInt8) (i n : Nat) : Except DecodeError (List UInt8 × List UInt8) :=
  if n ≤ bs.length then .ok (bs.take n, bs.drop n) else .error (.truncated i)

/-- The number of leading one bits of a byte, and the byte without them. -/
def prefixWidth (code : Nat) : Nat × Nat :=
  (List.range 8).foldl (fun (w, c) k =>
    let mask := 0x80 >>> k
    if w = k && c &&& mask ≠ 0 then (w + 1, c ^^^ mask) else (w, c)) (0, code)

/-- Reads an atom whose first byte `code` is at position `i - 1`; `bs` follows it. -/
def readAtom (code : UInt8) (bs : List UInt8) (i : Nat) :
    Except DecodeError (Tree × List UInt8 × Nat) :=
  if code = 0x80 then .ok (.atom [] .bytes, bs, i)
  else if code.toNat ≤ 0x7f then .ok (Tree.guess [code], bs, i)
  else
    let (width, low) := prefixWidth code.toNat
    if width > 5 then .error .badPrefix
    else do
      let (more, bs) ← takeBytes bs i (width - 1)
      let i := i + (width - 1)
      let size := Bytes.ofBE (UInt8.ofNat low :: more)
      let (body, bs) ← takeBytes bs i size
      .ok (Tree.guess body, bs, i + size)

/-- Reads one tree from `bs`, which starts at position `i`; `fuel` bounds the pairs read. -/
def readTree : Nat → List UInt8 → Nat → Except DecodeError (Tree × List UInt8 × Nat)
  | 0, _, i => .error (.truncated i)
  | _ + 1, [], i => .error (.truncated i)
  | n + 1, c :: bs, i =>
    if c = 0xff then do
      let (f, bs, i) ← readTree n bs (i + 1)
      let (r, bs, i) ← readTree n bs i
      .ok (.cons f r, bs, i)
    else readAtom c bs (i + 1)

/-- The tree that bytes encode, when they encode exactly one. -/
def Tree.deserialize (bs : List UInt8) : Except DecodeError Tree := do
  let (t, _, i) ← readTree (bs.length + 1) bs 0
  if i = bs.length then .ok t else .error (.trailing i bs.length)

end PuzzleKit
