import PuzzleKit.Text.Shortest
import PuzzleKit.Failure

/-! Numeric limits as callers give them: a truth value (counting as zero or one), an integer,
a double-precision number, or a value of another type. A limit is compared with a count
exactly; a count neither exceeds nor stays within a limit that is not-a-number, and comparing
a count with a value that is no number at all fails. A limit is quoted in messages in its own
written form. -/

namespace PuzzleKit

/-- A numeric limit, or a value of another type named by its type. -/
inductive Bound where
  | flag (b : Bool)
  | whole (i : Int)
  | real (x : Text.Binary64)
  | other (typeName : String)
  deriving Repr, Inhabited

namespace Bound

/-- How a numeric limit compares with an integer, if it is a number. -/
def compareInt : Bound → Int → Option Ordering
  | .flag b, i => some (compare (if b then 1 else 0) i)
  | .whole j, i => some (compare j i)
  | .real x, i => x.compareInt i
  | .other _, _ => none

/-- The fault of comparing a count with a limit of another type by `op`. -/
def incomparable (op typeName : String) : Failure :=
  .type ("'" ++ op ++ "' not supported between instances of 'int' and '" ++ typeName ++ "'")

/-- Whether a count is greater than the limit. -/
def exceededBy (b : Bound) (n : Int) : Except Failure Bool :=
  match b with
  | .other t => .error (incomparable ">" t)
  | b => .ok (b.compareInt n == some .lt)

/-- Whether a count is at most the limit. -/
def admits (b : Bound) (n : Int) : Except Failure Bool :=
  match b with
  | .other t => .error (incomparable "<=" t)
  | b => .ok (match b.compareInt n with
    | some .lt => false
    | some _ => true
    | none => false)

/-- How many levels from zero up, fewer than `cap`, do not exceed the limit. -/
def levelsBelow (b : Bound) (cap : Nat) : Except Failure Nat :=
  match b with
  | .other t => .error (incomparable ">" t)
  | b => .ok ((List.range cap).takeWhile fun (d : Nat) => b.compareInt d != some .lt).length

/-- The written form of the limit. -/
def text : Bound → String
  | .flag b => if b then "True" else "False"
  | .whole i => toString i
  | .real x => x.text
  | .other t => t

theorem admits_whole (i n : Int) : (Bound.whole i).admits n = .ok (decide (n ≤ i)) := by
  simp only [admits, compareInt]
  cases h : compare i n
  · have := Int.compare_eq_lt.mp h; simp; omega
  · have := Int.compare_eq_eq.mp h; simp; omega
  · have := Int.compare_eq_gt.mp h; simp; omega

theorem exceededBy_whole (i n : Int) : (Bound.whole i).exceededBy n = .ok (decide (i < n)) := by
  simp only [exceededBy, compareInt]
  cases h : compare i n
  · have := Int.compare_eq_lt.mp h; simp; omega
  · have := Int.compare_eq_eq.mp h; simp; omega
  · have := Int.compare_eq_gt.mp h; simp; omega

end Bound

end PuzzleKit
