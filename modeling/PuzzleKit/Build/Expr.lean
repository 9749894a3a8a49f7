import PuzzleKit.Build.Node
import PuzzleKit.Build.Signature

/-! Expression helpers: each builds the code of an operation on an expression and further
operands. Comparisons are built from `>` and `=`: `a < b` is `(> b a)`, `a ≥ b` is
`(not (> b a))`, `a ≤ b` is `(not (> a b))` and `a ≠ b` is `(not (= a b))`; the remainder is
the rest of `divmod`.

The helpers are methods of an expression object: each takes one operand, none, or any
number, and a call with another count fails as a method call does. A name that is no method
fails as a missing attribute. -/

namespace PuzzleKit.Build

/-- An operation on an expression with further operands. -/
inductive ExprOp where
  | add | sub | mul | div | rem | gt | lt | ge | le | gtBytes | eq | ne
  | all | any | not | first | rest | isCons | sha256 | treeHash | concat
  deriving DecidableEq, Repr

namespace ExprOp

/-- The operation of a method name; `and`, `or` and `not` stand for the methods `and_`, `or_`
and `not_`, and the operator methods for their operations. -/
def ofName? : String → Option ExprOp
  | "and_" => some .all
  | "or_" => some .any
  | "not_" => some .not
  | "__add__" => some .add
  | "__sub__" => some .sub
  | "__mul__" => some .mul
  | "__truediv__" => some .div
  | "__mod__" => some .rem
  | "add" => some .add
  | "sub" => some .sub
  | "mul" => some .mul
  | "div" => some .div
  | "mod" => some .rem
  | "gt" => some .gt
  | "lt" => some .lt
  | "gte" => some .ge
  | "lte" => some .le
  | "gts" => some .gtBytes
  | "eq" => some .eq
  | "ne" => some .ne
  | "and" => some .all
  | "or" => some .any
  | "not" => some .not
  | "first" => some .first
  | "rest" => some .rest
  | "is_cons" => some .isCons
  | "sha256" => some .sha256
  | "tree_hash" => some .treeHash
  | "concat" => some .concat
  | _ => none

def methodName : ExprOp → String
  | .add => "add"
  | .sub => "sub"
  | .mul => "mul"
  | .div => "div"
  | .rem => "mod"
  | .gt => "gt"
  | .lt => "lt"
  | .ge => "gte"
  | .le => "lte"
  | .gtBytes => "gts"
  | .eq => "eq"
  | .ne => "ne"
  | .all => "and_"
  | .any => "or_"
  | .not => "not_"
  | .first => "first"
  | .rest => "rest"
  | .isCons => "is_cons"
  | .sha256 => "sha256"
  | .treeHash => "tree_hash"
  | .concat => "concat"

/-- The parameters of the method, the expression itself first. -/
def signature (op : ExprOp) : Signature :=
  let name := "Expr." ++ op.methodName
  match op with
  | .all | .any | .sha256 | .concat => ⟨name, ["self"], 1, true⟩
  | .not | .first | .rest | .isCons | .treeHash => ⟨name, ["self"], 1, false⟩
  | _ => ⟨name, ["self", "other"], 2, false⟩

/-- The code of the operation on `e` with the operands `os`; an operation of one operand uses
the first. -/
def build (op : ExprOp) (e : Noted) (os : List Noted) : Noted :=
  let o := os.headD Noted.nil
  match op with
  | .add => call "+" (e :: os)
  | .sub => call "-" (e :: os)
  | .mul => call "*" (e :: os)
  | .div => call "/" (e :: os)
  | .rem => call "r" [call "divmod" [e, o]]
  | .gt => call ">" (e :: os)
  | .lt => call ">" [o, e]
  | .ge => call "not" [call ">" [o, e]]
  | .le => call "not" [call ">" [e, o]]
  | .gtBytes => call ">s" (e :: os)
  | .eq => call "=" (e :: os)
  | .ne => call "not" [call "=" [e, o]]
  | .all => call "all" (e :: os)
  | .any => call "any" (e :: os)
  | .not => call "not" [e]
  | .first => call "f" [e]
  | .rest => call "r" [e]
  | .isCons => call "l" [e]
  | .sha256 => call "sha256" (e :: os)
  | .treeHash => call "sha256tree" [e]
  | .concat => call "concat" (e :: os)

/-- Calls the method on `e` with host operands: the count is checked first, then the operands
become code. -/
def apply (op : ExprOp) (e : Noted) (os : List Value) : Except Failure Noted :=
  if op.signature.admits (os.length + 1) then do return op.build e (← asElements os)
  else .error (op.signature.refusal (os.length + 1))

end ExprOp

/-- The fault of a method name that an expression does not have. -/
def noMethod (name : String) : Failure :=
  ⟨.noAttribute, "'Expr' object has no attribute '" ++ name ++ "'", none, []⟩

/-- The fault of calling a name of an expression `e` that is no method: its code, under the
name `el`, is a tree and cannot be called, and any other name is no attribute at all. -/
def callFault (e : Noted) (name : String) : Failure :=
  if name = "el" then .type ("'" ++ (if e.isAtom then "Atom" else "Cons") ++ "' object is not callable")
  else noMethod name

end PuzzleKit.Build
