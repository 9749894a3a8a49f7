import PuzzleKit.Tree.Basic
import PuzzleKit.Hash.Sha256

/-! The tree hash: an atom hashes as SHA-256 of the byte 1 and its bytes, a pair as SHA-256 of
the byte 2 and the hashes of its two parts. Hints take no part, so two trees that are the same
program have the same hash. -/

namespace PuzzleKit

def atomHash (b : List UInt8) : List UInt8 := Sha256.hash (1 :: b)

def pairHash (first rest : List UInt8) : List UInt8 := Sha256.hash (2 :: first ++ rest)

namespace Tree

def hash : Tree → List UInt8
  | .atom b _ => atomHash b
  | .cons f r => pairHash f.hash r.hash

theorem hash_eq_of_same : ∀ {s t : Tree}, s.same t = true → s.hash = t.hash
  | .atom a _, .atom b _, h => by
    simp only [same, beq_iff_eq] at h; simp only [hash, h]
  | .cons a b, .cons c d, h => by
    simp only [same, Bool.and_eq_true] at h
    simp only [hash, hash_eq_of_same h.1, hash_eq_of_same h.2]
  | .atom _ _, .cons _ _, h => by simp [same] at h
  | .cons _ _, .atom _ _, h => by simp [same] at h

end Tree

end PuzzleKit
