/-! Blank characters in the Unicode sense: the characters with the White_Space property
together with the four information separators `U+001C` to `U+001F`. Trimming and splitting
on blanks use this class. -/

namespace PuzzleKit.Text

/-- The blank characters, as code point ranges. -/
def blankRanges : List (Nat × Nat) :=
  [(0x09, 0x0d), (0x1c, 0x20), (0x85, 0x85), (0xa0, 0xa0), (0x1680, 0x1680),
   (0x2000, 0x200a), (0x2028, 0x2029), (0x202f, 0x202f), (0x205f, 0x205f), (0x3000, 0x3000)]

def isBlank (c : Char) : Bool :=
  blankRanges.any fun (lo, hi) => lo ≤ c.toNat && c.toNat ≤ hi

theorem isBlank_of_isWhitespace (c : Char) (h : c.isWhitespace = true) : isBlank c = true := by
  simp only [Char.isWhitespace, Bool.or_eq_true, decide_eq_true_eq] at h
  rcases h with ((h | h) | h) | h <;> subst h <;> decide

/-- The text without blanks at either end. -/
def trim (s : String) : String :=
  String.ofList ((s.toList.dropWhile isBlank).reverse.dropWhile isBlank).reverse

/-- The text without blanks at its start. -/
def trimLeft (s : String) : String :=
  String.ofList (s.toList.dropWhile isBlank)

/-- Maximal runs of non-blank characters. -/
def words (s : String) : List String :=
  let step := fun (c : Char) (acc : List (List Char)) =>
    if isBlank c then
      match acc with
      | [] :: _ => acc
      | _ => [] :: acc
    else
      match acc with
      | w :: rest => (c :: w) :: rest
      | [] => [[c]]
  ((s.toList.foldr step [[]]).filter (· ≠ [])).map String.ofList

end PuzzleKit.Text
