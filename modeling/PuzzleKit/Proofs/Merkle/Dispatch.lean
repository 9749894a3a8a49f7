import PuzzleKit.Proofs.Meaning
import PuzzleKit.Proofs.Merkle.Complete
import PuzzleKit.Script.Generate

/-!
# The merkle check of a main program

In merkle mode the main program of a coin is given an action's name, its program and a proof.
It hashes the action's leaf, walks the proof up with its function `merkle_root_from_proof`
and compares the top with the curried root. Evaluated, the walk is the fold of `merkleParent`
that `verifyProof` makes, from every start and along every list of siblings
(`evaluates_proofWalk`), because `>s` orders atoms as `bytesLe` does (`lt_iff_bytesLe`). The
leaf expression is `actionLeaf` of the name and of the program's tree hash, so the check is
true exactly when the proof leads from that leaf to the root (`evaluates_merkleCheck`).
-/

namespace PuzzleKit

open Build Meaning

theorem lt_iff_bytesLe : ∀ (a b : List UInt8), b < a ↔ (bytesLe b a && a != b) = true
  | [], [] => by simp [bytesLe]
  | _ :: _, [] => by simp [bytesLe, List.nil_lt_cons]
  | [], _ :: _ => by simp [bytesLe, List.not_lt_nil]
  | x :: xs, y :: ys => by
    rw [List.cons_lt_cons_iff]
    by_cases h1 : y < x
    · have hne : x ≠ y := fun h => absurd h1 (h ▸ UInt8.lt_irrefl x)
      simp [bytesLe, h1, hne]
    · by_cases h2 : x < y
      · have hne : y ≠ x := fun h => absurd h2 (h ▸ UInt8.lt_irrefl y)
        simp [bytesLe, h1, h2, hne]
      · -- neither is smaller: the heads agree and the tails decide
        have hxy : x = y := UInt8.le_antisymm (UInt8.not_lt.mp h1) (UInt8.not_lt.mp h2)
        subst hxy
        simp [bytesLe, h1, lt_iff_bytesLe xs ys]

theorem merkleParent_eq_ite (a b : List UInt8) :
    merkleParent a b = if b < a then Sha256.hash (b ++ a) else Sha256.hash (a ++ b) := by
  by_cases h : b < a
  · rw [if_pos h, merkleParent, if_pos ((lt_iff_bytesLe a b).mp h)]
  · rw [if_neg h, merkleParent, if_neg (mt (lt_iff_bytesLe a b).mpr h)]

/-- The function the main program of a merkle coin defines. -/
def merkleWalk : Defun := ⟨"merkle_root_from_proof", ["cur", "proof"], Script.proofWalk.tree⟩

/-- A list of hashes, as a solution holds a proof. -/
def hashList (hs : List (List UInt8)) : Tree :=
  Tree.ofList (hs.map fun h => .atom h .bytes) (.atom [] .bytes)

section Operators

variable {env : Env}

theorem evaluates_first {x : Noted} {a b : Tree}
    (h : Evaluates [merkleWalk] env x.tree (.cons a b)) :
    Evaluates [merkleWalk] env (call "f" [x]).tree a :=
  evaluates_call_op (by decide) rfl (.cons h .nil) rfl

theorem evaluates_rest {x : Noted} {a b : Tree}
    (h : Evaluates [merkleWalk] env x.tree (.cons a b)) :
    Evaluates [merkleWalk] env (call "r" [x]).tree b :=
  evaluates_call_op (by decide) rfl (.cons h .nil) rfl

theorem evaluates_sha256 (bs : List (List UInt8)) {args : List Noted} {vs : List Tree}
    (h : List.Forall₂ (fun a v => Evaluates [merkleWalk] env a.tree v) args vs)
    (hb : vs.mapM Tree.bytes? = some bs) :
    Evaluates [merkleWalk] env (call "sha256" args).tree (.atom (Sha256.hash bs.flatten) .bytes) :=
  evaluates_call_op (by decide) rfl h (by simp [applyOp, hb])

end Operators

/-- The walk folds the siblings into the start with `merkleParent`, as `verifyProof` does. -/
theorem evaluates_proofWalk : ∀ (p : List (List UInt8)) (cur : List UInt8),
    Evaluates [merkleWalk] [("cur", .atom cur .bytes), ("proof", hashList p)] Script.proofWalk.tree
      (.atom (p.foldl merkleParent cur) .bytes)
  | [], _ => evaluates_ifNode (evaluates_sym rfl) (evaluates_sym rfl)
  | s :: p, cur => by
    have hproof : Evaluates [merkleWalk] [("cur", .atom cur .bytes), ("proof", hashList (s :: p))]
        (sym "proof").tree (.cons (.atom s .bytes) (hashList p)) := evaluates_sym rfl
    have hcur : Evaluates [merkleWalk] [("cur", .atom cur .bytes), ("proof", hashList (s :: p))]
        (sym "cur").tree (.atom cur .bytes) := evaluates_sym rfl
    have hsib := evaluates_first hproof
    have hparent : Evaluates [merkleWalk] [("cur", .atom cur .bytes), ("proof", hashList (s :: p))]
        (ifNode (call ">s" [sym "cur", call "f" [sym "proof"]])
          (call "sha256" [call "f" [sym "proof"], sym "cur"])
          (call "sha256" [sym "cur", call "f" [sym "proof"]])).tree
        (.atom (merkleParent cur s) .bytes) := by
      refine evaluates_ifNode (evaluates_call_op (by decide) rfl (.cons hcur (.cons hsib .nil)) rfl) ?_
      rw [merkleParent_eq_ite]
      by_cases h : s < cur
      · simpa [truth, h, Tree.isNil] using evaluates_sha256 [s, cur] (.cons hsib (.cons hcur .nil)) rfl
      · simpa [truth, h, Tree.isNil] using evaluates_sha256 [cur, s] (.cons hcur (.cons hsib .nil)) rfl
    exact evaluates_ifNode hproof (evaluates_call_defun (by decide) rfl
      (.cons hparent (.cons (evaluates_rest hproof) .nil)) rfl (evaluates_proofWalk p _))

section Spend

variable {env : Env} {name : List UInt8} {h : Hint} {puzzle : Tree}

theorem evaluates_merkleLeaf (hn : List.lookup "action_name" env = some (.atom name h))
    (hp : List.lookup "action_puzzle" env = some puzzle) :
    Evaluates [merkleWalk] env Script.merkleLeaf.tree
      (.atom (pairHash (atomHash name) (atomHash puzzle.hash)) .bytes) := by
  have hname : Evaluates [merkleWalk] env (call "sha256" [int 1, sym "action_name"]).tree
      (.atom (atomHash name) .bytes) := by
    simpa [atomHash] using
      evaluates_sha256 [[1], name] (.cons (evaluates_int 1) (.cons (evaluates_sym hn) .nil)) rfl
  have htree : Evaluates [merkleWalk] env (call "sha256tree" [sym "action_puzzle"]).tree
      (.atom puzzle.hash .bytes) :=
    evaluates_call_op (by decide) rfl (.cons (evaluates_sym hp) .nil) rfl
  have hprogram : Evaluates [merkleWalk] env
      (call "sha256" [int 1, call "sha256tree" [sym "action_puzzle"]]).tree
      (.atom (atomHash puzzle.hash) .bytes) := by
    simpa [atomHash] using
      evaluates_sha256 [[1], puzzle.hash] (.cons (evaluates_int 1) (.cons htree .nil)) rfl
  rw [Script.merkleLeaf]
  simpa [pairHash] using evaluates_sha256 [[2], atomHash name, atomHash puzzle.hash]
    (.cons (evaluates_int 2) (.cons hname (.cons hprogram .nil))) rfl

/-- The check is true exactly when the walk from the action's leaf reaches the curried root. -/
theorem evaluates_merkleCheck {p : List (List UInt8)} {root : List UInt8} {hr : Hint}
    (hn : List.lookup "action_name" env = some (.atom name h))
    (hp : List.lookup "action_puzzle" env = some puzzle)
    (hproof : List.lookup "proof" env = some (hashList p))
    (hroot : List.lookup "ACTION_MERKLE_ROOT" env = some (.atom root hr)) :
    Evaluates [merkleWalk] env Script.merkleCheck.tree
      (truth (p.foldl merkleParent (pairHash (atomHash name) (atomHash puzzle.hash)) == root)) := by
  have hwalk : Evaluates [merkleWalk] env
      (call "merkle_root_from_proof" [Script.merkleLeaf, sym "proof"]).tree
      (.atom (p.foldl merkleParent (pairHash (atomHash name) (atomHash puzzle.hash))) .bytes) :=
    evaluates_call_defun (by decide) rfl
      (.cons (evaluates_merkleLeaf hn hp) (.cons (evaluates_sym hproof) .nil)) rfl
      (evaluates_proofWalk p _)
  rw [Script.merkleCheck]
  exact evaluates_call_op (by decide) rfl (.cons hwalk (.cons (evaluates_sym hroot) .nil)) rfl

end Spend

end PuzzleKit
