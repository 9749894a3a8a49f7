import PuzzleKit.Bytes.Signed

/-! Program trees: an atom is a byte string, a pair joins two trees. An atom also carries a
display hint (integer, raw bytes, text string, symbol, or any other label) that decides how
it is written and never what it is: hashing and the binary encoding read the bytes alone.
The empty atom is the empty list, and a list is a chain of pairs that ends in it. -/

namespace PuzzleKit

/-- How an atom prefers to be written. -/
inductive Hint where
  | int
  | bytes
  | string
  | symbol
  | other (label : String)
  deriving DecidableEq, Repr, Inhabited

namespace Hint

def ofLabel : String → Hint
  | "int" => .int
  | "bytes" => .bytes
  | "string" => .string
  | "symbol" => .symbol
  | s => .other s

def label : Hint → String
  | .int => "int"
  | .bytes => "bytes"
  | .string => "string"
  | .symbol => "symbol"
  | .other s => s

end Hint

/-- A program tree. -/
inductive Tree where
  | atom (bytes : List UInt8) (hint : Hint)
  | cons (first rest : Tree)
  deriving DecidableEq, Repr, Inhabited

namespace Tree

/-- The empty atom, which is also the empty list. -/
def nil : Tree := .atom [] .bytes

def one : Tree := .atom [1] .int

/-- The atom of an integer, in minimal two's complement. -/
def ofInt (i : Int) : Tree := .atom (Bytes.ofInt i) .int

/-- The atom of a text string, as UTF-8. -/
def string (s : String) : Tree := .atom s.toUTF8.toList .string

/-- The atom of a symbol name, as UTF-8. -/
def symbol (s : String) : Tree := .atom s.toUTF8.toList .symbol

/-- The atom of some bytes, with the integer hint when they are at most four bytes in
canonical integer form and the bytes hint otherwise. -/
def guess (b : List UInt8) : Tree :=
  if b.length ≤ 4 && Bytes.isCanonical b then .atom b .int else .atom b .bytes

def isAtom : Tree → Bool
  | .atom _ _ => true
  | .cons _ _ => false

/-- Whether a tree is the empty atom. -/
def isNil : Tree → Bool
  | .atom b _ => b.isEmpty
  | .cons _ _ => false

/-- The bytes of an atom, and none for a pair. -/
def bytes? : Tree → Option (List UInt8)
  | .atom b _ => some b
  | .cons _ _ => none

/-- The list of `items` ending in `tail`. -/
def ofList (items : List Tree) (tail : Tree) : Tree :=
  items.foldr .cons tail

/-- The elements of a list up to its first non-pair. -/
def spine : Tree → List Tree
  | .atom _ _ => []
  | .cons h t => h :: spine t

/-- The first non-pair at the end of a chain of pairs. -/
def last : Tree → Tree
  | .atom b h => .atom b h
  | .cons _ t => last t

/-- The elements of a list that ends in the empty atom, and none otherwise. -/
def toList? (t : Tree) : Option (List Tree) :=
  if t.last.isNil then some t.spine else none

/-- Two trees are the same program when they agree on every byte and every pair, whatever
their hints. -/
def same : Tree → Tree → Bool
  | .atom a _, .atom b _ => a == b
  | .cons a b, .cons c d => same a c && same b d
  | _, _ => false

def toInt : Tree → Option Int
  | .atom b _ => some (Bytes.toInt b)
  | .cons _ _ => none

theorem ofList_spine_last (t : Tree) : ofList t.spine t.last = t := by
  induction t with
  | atom b h => rfl
  | cons h r _ ih => simp only [spine, last, ofList, List.foldr_cons] at ih ⊢; rw [ih]

end Tree

end PuzzleKit
