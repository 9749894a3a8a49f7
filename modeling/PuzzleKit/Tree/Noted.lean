import PuzzleKit.Tree.Basic

/-! Trees with remarks. Source text and program builders may put remarks before the parts of
a program; a remark belongs to the part it precedes. Most parts keep their remarks with them.
Some parts are one object that stands in many places (the empty list that also ends every
list, the atom one, the value a builder returns, the code both arms of a branch go on with);
such a part carries a key instead, and its remarks are kept once, under that key, for every
place where it stands. -/

namespace PuzzleKit

/-- The keys of parts that stand in many places. -/
inductive Key where
  | nil
  | one
  | tail (path : List Nat)
  | joint (n : Nat)
  deriving DecidableEq, Repr, Inhabited

/-- Where the remarks of a part are kept. -/
inductive Tag where
  | own (notes : List String)
  | shared (k : Key)
  deriving Repr, Inhabited

/-- A tree whose parts carry remarks. -/
inductive Noted where
  | atom (bytes : List UInt8) (hint : Hint) (tag : Tag)
  | cons (first rest : Noted) (tag : Tag)
  deriving Repr, Inhabited

/-- The remarks of shared parts, by key, and how many joint keys have been handed out. -/
structure Remarks where
  entries : List (Key × List String) := []
  joints : Nat := 0
  deriving Repr, Inhabited

namespace Remarks

/-- The remarks under a key. -/
def get (r : Remarks) (k : Key) : List String :=
  ((r.entries.find? (·.1 == k)).map (·.2)).getD []

/-- Adds remarks under a key, after those already there. -/
def attach (r : Remarks) (k : Key) (ns : List String) : Remarks :=
  if ns.isEmpty then r
  else if r.entries.any (·.1 == k) then
    { r with entries := r.entries.map fun (k', ns') => if k' == k then (k', ns' ++ ns) else (k', ns') }
  else { r with entries := r.entries ++ [(k, ns)] }

/-- How many remarks are kept. -/
def count (r : Remarks) : Nat := (r.entries.map (·.2.length)).foldr (· + ·) 0

end Remarks

namespace Noted

/-- The shared empty list. -/
def nil : Noted := .atom [] .bytes (.shared .nil)

def one : Noted := .atom [1] .int (.shared .one)

def tree : Noted → Tree
  | .atom b h _ => .atom b h
  | .cons f r _ => .cons f.tree r.tree

/-- A tree with no remarks on any part; it shares no part with other trees. -/
def ofTree : Tree → Noted
  | .atom b h => .atom b h (.own [])
  | .cons f r => .cons (ofTree f) (ofTree r) (.own [])

def tag : Noted → Tag
  | .atom _ _ t => t
  | .cons _ _ t => t

def withTag (t : Tag) : Noted → Noted
  | .atom b h _ => .atom b h t
  | .cons f r _ => .cons f r t

def notesIn (rm : Remarks) (n : Noted) : List String :=
  match n.tag with
  | .own ns => ns
  | .shared k => rm.get k

/-- Attaches remarks to a part: kept with it, or under its key. -/
def attach (rm : Remarks) (n : Noted) (ns : List String) : Noted × Remarks :=
  match n.tag with
  | .own ns' => (n.withTag (.own (ns' ++ ns)), rm)
  | .shared k => (n, rm.attach k ns)

/-- The part made one object that may stand in several places: a part that keeps its remarks
with it gets a fresh joint key, under which its remarks are kept from then on. -/
def share (rm : Remarks) (n : Noted) : Noted × Remarks :=
  match n.tag with
  | .own ns =>
    let k := Key.joint rm.joints
    (n.withTag (.shared k), ({ rm with joints := rm.joints + 1 }).attach k ns)
  | .shared _ => (n, rm)

def isAtom : Noted → Bool
  | .atom _ _ _ => true
  | .cons _ _ _ => false

/-- Whether a part is an empty atom. -/
def isNil : Noted → Bool
  | .atom b _ _ => b.isEmpty
  | .cons _ _ _ => false

/-- The list of `items` ending in `tail`, with fresh pairs. -/
def ofList (items : List Noted) (tail : Noted := nil) : Noted :=
  items.foldr (fun x acc => .cons x acc (.own [])) tail

/-- The remarks kept with the parts themselves. -/
def ownCount : Noted → Nat
  | .atom _ _ (.own ns) => ns.length
  | .cons f r t => (match t with | .own ns => ns.length | .shared _ => 0) + f.ownCount + r.ownCount
  | _ => 0

theorem tree_ofTree (t : Tree) : (ofTree t).tree = t := by
  induction t with
  | atom b h => rfl
  | cons f r ihf ihr => simp only [ofTree, tree, ihf, ihr]

end Noted

end PuzzleKit
