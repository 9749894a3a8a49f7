import PuzzleKit.Tree.Hash
import PuzzleKit.Value.Bytes

/-! Merkle trees of named actions. A leaf is the tree hash of the pair of an action's name and
its program hash. A level pairs neighbours from the left, hashing the smaller of two hashes
first; an odd last node moves up unchanged. The root of no actions is 32 zero bytes. A proof
lists the siblings from the leaf up, and checking it folds them in with the same pairing.

Actions are looked up by name in an index of positions. Adding an action records its
position before its leaf is made, so a name that is not text, whose leaf cannot be made,
stays in the index at a position no leaf holds. -/

namespace PuzzleKit

/-- The leaf of an action: the hash of the pair of its name and its program hash. -/
def actionLeaf (name : String) (programHash : List UInt8) : List UInt8 :=
  pairHash (atomHash name.toUTF8.toList) (atomHash programHash)

/-- Byte strings in lexicographic order, a prefix first. -/
def bytesLe : List UInt8 → List UInt8 → Bool
  | [], _ => true
  | _ :: _, [] => false
  | a :: as, b :: bs => if a < b then true else if b < a then false else bytesLe as bs

/-- The parent of two nodes: the hash of the smaller followed by the larger. -/
def merkleParent (a b : List UInt8) : List UInt8 :=
  if bytesLe b a && a != b then Sha256.hash (b ++ a) else Sha256.hash (a ++ b)

/-- Refuses a hash that is not 32 bytes long. -/
def checkHash (h : List UInt8) (what : String) : Except Failure Unit :=
  if h.length = 32 then .ok () else .error (.value (what ++ " must be a 32 byte hash"))

/-- Whether a proof leads from a leaf to a root. -/
def verifyProof (leaf : List UInt8) (proof : List (List UInt8)) (root : List UInt8) :
    Except Failure Bool := do
  checkHash leaf "leaf"
  checkHash root "root"
  let top ← proof.foldlM (fun cur sib => do
    checkHash sib "proof element"
    return merkleParent cur sib) leaf
  return top == root

/-- One level up: neighbours paired from the left, an odd last node kept. -/
def levelUp : List (List UInt8) → List (List UInt8)
  | a :: b :: rest => merkleParent a b :: levelUp rest
  | rest => rest

/-- The levels from the leaves to the root; `fuel` bounds their number. -/
def levelsFrom : Nat → List (List UInt8) → List (List (List UInt8))
  | 0, level => [level]
  | n + 1, level =>
    match level with
    | [] | [_] => [level]
    | _ => level :: levelsFrom n (levelUp level)

/-- The siblings of the node at `idx`, level by level. -/
def proofPath : List (List (List UInt8)) → Nat → List (List UInt8)
  | [], _ => []
  | [_], _ => []
  | level :: rest, idx =>
    let sib := idx ^^^ 1
    (if h : sib < level.length then [level[sib]] else []) ++ proofPath rest (idx / 2)

/-- A tree of named actions: the leaves in the order they were added, and the position of
each name. -/
structure ActionTree where
  leaves : List (String × List UInt8 × List UInt8) := []
  index : List (Value × Nat) := []

/-- Changes to an action tree that may fail, keeping what they did before. -/
abbrev ActionTreeM := EStateM Failure ActionTree

namespace ActionTree

def names (t : ActionTree) : List String := t.leaves.map (·.1)

/-- The position recorded for a name, if any; a name that cannot be a key cannot be looked
up. -/
def position? (t : ActionTree) (name : Value) : Except Failure (Option Nat) := do
  let k ← name.asKey
  return (t.index.find? (Value.itemEq k ·.1)).map (·.2)

/-- Whether an action is in the index. -/
def contains (t : ActionTree) (name : Value) : Except Failure Bool := do
  return (← t.position? name).isSome

/-- The fault of an action that is not in the tree. -/
def unknown (name : Value) : Failure := .key ("unknown action " ++ name.text)

/-- Adds an action: its name must be new and its program hash 32 bytes. The position is
recorded before the leaf is made from the name's text. -/
def insert (name : Value) (programHash : List UInt8) : ActionTreeM Unit := do
  let t ← get
  if (← liftExcept (t.position? name)).isSome then
    throw (.value ("duplicate action " ++ name.text))
  liftExcept (checkHash programHash "program hash")
  set { t with index := t.index ++ [(name, t.leaves.length)] }
  let text ← liftExcept name.utf8Text
  modify fun t => { t with leaves := t.leaves ++ [(text, programHash, actionLeaf text programHash)] }
where
  liftExcept {α : Type} : Except Failure α → ActionTreeM α
    | .ok a => pure a
    | .error e => throw e

/-- The tree with an action named by text added. -/
def add (t : ActionTree) (name : String) (programHash : List UInt8) : Except Failure ActionTree :=
  match (insert (.str name) programHash).run t with
  | .ok _ t => .ok t
  | .error e _ => .error e

def lookup (t : ActionTree) (name : Value) : Except Failure Nat := do
  match ← t.position? name with
  | some i => return i
  | none => throw (unknown name)

/-- The leaf entry at an action's position. -/
def entry (t : ActionTree) (name : Value) : Except Failure (String × List UInt8 × List UInt8) := do
  let i ← t.lookup name
  match t.leaves[i]? with
  | some e => return e
  | none => throw Failure.outOfRange

def programHash (t : ActionTree) (name : Value) : Except Failure (List UInt8) := do
  return (← t.entry name).2.1

def leaf (t : ActionTree) (name : Value) : Except Failure (List UInt8) := do
  return (← t.entry name).2.2

def levels (t : ActionTree) : List (List (List UInt8)) :=
  levelsFrom t.leaves.length (t.leaves.map (·.2.2))

/-- The root; no actions give 32 zero bytes. -/
def root (t : ActionTree) : List UInt8 :=
  if t.leaves.isEmpty then List.replicate 32 0
  else ((t.levels.getLast?.bind (·.head?))).getD []

/-- The proof of an action: the siblings of its position, level by level. -/
def proof (t : ActionTree) (name : Value) : Except Failure (List (List UInt8)) := do
  let i ← t.lookup name
  return proofPath t.levels i

/-- Whether a proof leads from an action's leaf to a root; an unknown action has none. -/
def verify (t : ActionTree) (name : Value) (proof : List (List UInt8)) (root : List UInt8) :
    Except Failure Bool := do
  if !(← t.contains name) then return false
  verifyProof (← t.leaf name) proof root

/-- Refuses a proof that does not lead to the root. -/
def check (t : ActionTree) (name : Value) (proof : List (List UInt8)) (root : List UInt8) :
    Except Failure Unit := do
  if !(← t.verify name proof root) then
    throw ⟨.proofMismatch, "proof for action " ++ name.text ++ " does not match root 0x" ++
      Bytes.toHex root, none, []⟩

end ActionTree

end PuzzleKit
