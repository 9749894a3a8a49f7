import PuzzleKit.Action.Merkle

/-! Action trees that keep their levels once built. The levels are built from the leaves when
the root or a proof is asked for and none are kept, and kept until an action is added; an
addition that is refused keeps them, together with whatever the tree recorded before refusing.

A session makes calls on one tree: additions, the root, proofs, checks of proofs and lookups.
A call that fails does not end the session. -/

namespace PuzzleKit

/-- An action tree with the levels last built from it, if no action was added since. -/
structure MemoTree where
  tree : ActionTree := {}
  levels? : Option (List (List (List UInt8))) := none

/-- Calls on a memoised action tree that may fail, keeping what they did before. -/
abbrev MemoM := EStateM Failure MemoTree

/-- A call on an action tree. -/
inductive TreeCall where
  | add (name : Value) (programHash : List UInt8)
  | root
  | proof (name : Value)
  | verify (name : Value) (proof : List (List UInt8)) (root : List UInt8)
  | verifyOwn (name other : Value)
  | check (name : Value) (proof : List (List UInt8)) (root : List UInt8)
  | names
  | count
  | contains (name : Value)
  | leaf (name : Value)
  | programHash (name : Value)

/-- What a call answers. -/
inductive TreeAnswer where
  | done
  | hash (h : List UInt8)
  | hashes (hs : List (List UInt8))
  | truth (b : Bool)
  | names (ns : List String)
  | count (n : Nat)

namespace MemoTree

/-- A call on the tree alone, which changes nothing. -/
def read {α : Type} (f : ActionTree → Except Failure α) : MemoM α := do
  match f (← get).tree with
  | .ok a => pure a
  | .error e => throw e

/-- Adds an action to the tree. An addition forgets the kept levels; a refusal keeps them, and
keeps what the tree recorded before refusing. -/
def add (name : Value) (programHash : List UInt8) : MemoM Unit := do
  let m ← get
  match (ActionTree.insert name programHash).run m.tree with
  | .ok _ t => set ({ tree := t, levels? := none } : MemoTree)
  | .error e t =>
    set { m with tree := t }
    throw e

/-- The kept levels, or the levels built from the leaves, which are then kept. -/
def build : MemoM (List (List (List UInt8))) := do
  let m ← get
  match m.levels? with
  | some ls => return ls
  | none =>
    let ls := m.tree.levels
    set { m with levels? := some ls }
    return ls

/-- The root; no actions give 32 zero bytes, and then nothing is built. -/
def root : MemoM (List UInt8) := do
  if (← get).tree.leaves.isEmpty then return List.replicate 32 0
  return (((← build).getLast?.bind (·.head?))).getD []

/-- The proof of an action: the siblings of its position in the levels. -/
def proof (name : Value) : MemoM (List (List UInt8)) := do
  let i ← read (·.lookup name)
  return proofPath (← build) i

def call : TreeCall → MemoM TreeAnswer
  | .add name h => do add name h; return .done
  | .root => return .hash (← root)
  | .proof name => return .hashes (← proof name)
  | .verify name p r => return .truth (← read (·.verify name p r))
  | .verifyOwn name other => do
    let p ← proof other
    let r ← root
    return .truth (← read (·.verify name p r))
  | .check name p r => do read (·.check name p r); return .done
  | .names => return .names (← get).tree.names
  | .count => return .count (← get).tree.leaves.length
  | .contains name => return .truth (← read (·.contains name))
  | .leaf name => return .hash (← read (·.leaf name))
  | .programHash name => return .hash (← read (·.programHash name))

end MemoTree

end PuzzleKit
