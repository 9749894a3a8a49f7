/-! Sets of code points given as sorted lists of closed ranges, the form in which the
character tables of this library are written. -/

namespace PuzzleKit.Text

/-- Whether a code point lies in one of the ranges. -/
def inRanges (rs : List (Nat × Nat)) (n : Nat) : Bool :=
  rs.any fun (lo, hi) => lo ≤ n && n ≤ hi

theorem inRanges_iff (rs : List (Nat × Nat)) (n : Nat) :
    inRanges rs n = true ↔ ∃ r ∈ rs, r.1 ≤ n ∧ n ≤ r.2 := by
  simp [inRanges]

/-- A code point below the start of every range lies in none of them. -/
theorem inRanges_of_lt (rs : List (Nat × Nat)) (n : Nat) (h : ∀ r ∈ rs, n < r.1) :
    inRanges rs n = false := by
  cases hr : inRanges rs n with
  | false => rfl
  | true =>
    obtain ⟨r, hm, hlo, _⟩ := (inRanges_iff rs n).1 hr
    exact absurd (h r hm) (Nat.not_lt.2 hlo)

end PuzzleKit.Text
