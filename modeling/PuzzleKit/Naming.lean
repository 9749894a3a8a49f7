import PuzzleKit.Library.Include
import PuzzleKit.Opcode
import PuzzleKit.Text.Letter

/-! How script names become program names. A camel-case name is split before each capital
that follows a lower-case letter or digit (`ownerKey` is `owner_key`); a name in capitals is
a curried parameter; a name the generated program uses itself gets a trailing underscore. -/

namespace PuzzleKit

/-- Whether a character is an ASCII lower-case letter or digit. -/
def isLowerOrDigit (c : Char) : Bool := c.isLower || c.isDigit

/-- The name with an underscore before each capital that follows a lower-case letter or a
digit, all lower-cased. -/
def snakeCase (name : String) : String :=
  let rec go : Option Char → List Char → List Char
    | _, [] => []
    | prev, c :: cs =>
      let split := c.isUpper && (prev.map isLowerOrDigit).getD false
      (if split then ['_', c] else [c]) ++ go (some c) cs
  Text.toLower (String.ofList (go none name.toList))

/-- The snake-case name in capitals. -/
def upperSnake (name : String) : String := Text.toUpper (snakeCase name)

/-- Whether a name is written in capitals and holds a letter: such names are curried. -/
def isCurryName (name : String) : Bool :=
  name.toList.any Text.isLetter && name == Text.toUpper name

/-- Names that generated programs use themselves: operators, the forms of the program
language, the generated helpers and every name an include file defines. -/
def reservedNames : List String :=
  operators.map (·.2) ++
  ["mod", "defun", "defun-inline", "defmacro", "defconstant", "include", "if", "list", "qq",
   "unquote", "assign", "lambda", "@", "sha256tree", "action", "args", "state", "signer",
   "my_amount", "self_puzzle_hash", "action_name", "action_puzzle", "action_solution", "proof",
   "mapping_get", "mapping_set", "merkle_root_from_proof", "merge_list", "MOD_HASH",
   "ACTION_MERKLE_ROOT"] ++
  includeFiles.flatMap fun f => f.constants ++ f.functions ++ f.macros

/-- A name that cannot clash with a reserved one. -/
def vmSafe (name : String) : String :=
  if reservedNames.contains name then name ++ "_" else name

/-- The class a declared type is compared by: every integer type is `int`, addresses and
32-byte hashes are `bytes32`, mappings and other types stand for themselves. -/
def typeClassOf (s : String) : String :=
  if s.startsWith "mapping" then s
  else if s.startsWith "uint" || s.startsWith "int" then "int"
  else if s == "address" || s == "bytes32" then "bytes32"
  else s

end PuzzleKit
