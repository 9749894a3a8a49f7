import PuzzleKit.SExpr.Read
import PuzzleKit.Tree.Layout

/-! Reformatting program text: every part is read with its remarks and written again in the
given style, one after another, and the trailing remarks close the text. -/

namespace PuzzleKit.SExpr

/-- The text reformatted: each part in the style, then each trailing remark as `; ` and its
text, all on lines of their own. -/
def formatSource (text : String) (indented : Bool := true) (width : Bound := .whole 80) :
    Except Failure String := do
  let rd ← (readAll text).mapError Failure.ofRead
  let st : Style := { indented, width }
  let parts ← rd.items.mapM fun n => st.write rd.remarks [] n
  return "\n".intercalate (parts ++ rd.trailing.map ("; " ++ ·))

end PuzzleKit.SExpr
