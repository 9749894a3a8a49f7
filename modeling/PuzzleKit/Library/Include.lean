import PuzzleKit.Text.Case
import PuzzleKit.Failure

/-! The include files that programs may pull in, and what each provides: constants, functions
and macros. A library function can be called from scripts by its own name or by its camel-case
alias. -/

namespace PuzzleKit

/-- An include file and the names it defines. -/
structure IncludeFile where
  path : String
  constants : List String := []
  functions : List String := []
  macros : List String := []

/-- Whether an include file defines a name. -/
def IncludeFile.provides (f : IncludeFile) (name : String) : Bool :=
  f.constants.contains name || f.functions.contains name || f.macros.contains name

def includeFiles : List IncludeFile :=
  [ { path := "condition_codes.clib"
      constants := ["REMARK", "AGG_SIG_PARENT", "AGG_SIG_PUZZLE", "AGG_SIG_AMOUNT",
        "AGG_SIG_PUZZLE_AMOUNT", "AGG_SIG_PARENT_AMOUNT", "AGG_SIG_PARENT_PUZZLE",
        "AGG_SIG_UNSAFE", "AGG_SIG_ME", "CREATE_COIN", "RESERVE_FEE",
        "CREATE_COIN_ANNOUNCEMENT", "ASSERT_COIN_ANNOUNCEMENT", "CREATE_PUZZLE_ANNOUNCEMENT",
        "ASSERT_PUZZLE_ANNOUNCEMENT", "ASSERT_CONCURRENT_SPEND", "ASSERT_CONCURRENT_PUZZLE",
        "SEND_MESSAGE", "RECEIVE_MESSAGE", "ASSERT_MY_COIN_ID", "ASSERT_MY_PARENT_ID",
        "ASSERT_MY_PUZZLEHASH", "ASSERT_MY_AMOUNT", "ASSERT_MY_BIRTH_SECONDS",
        "ASSERT_MY_BIRTH_HEIGHT", "ASSERT_EPHEMERAL", "ASSERT_SECONDS_RELATIVE",
        "ASSERT_SECONDS_ABSOLUTE", "ASSERT_HEIGHT_RELATIVE", "ASSERT_HEIGHT_ABSOLUTE",
        "ASSERT_BEFORE_SECONDS_RELATIVE", "ASSERT_BEFORE_SECONDS_ABSOLUTE",
        "ASSERT_BEFORE_HEIGHT_RELATIVE", "ASSERT_BEFORE_HEIGHT_ABSOLUTE", "SOFTFORK"] },
    { path := "sha256tree.clib", functions := ["sha256tree"] },
    { path := "curry-and-treehash.clinc"
      constants := ["ONE", "TWO", "A_KW", "Q_KW", "C_KW"]
      functions := ["update-hash-for-parameter-hash", "build-curry-list",
        "tree-hash-of-apply", "puzzle-hash-of-curried-function"] },
    { path := "utility_macros.clib", macros := ["assert", "or", "and"] },
    { path := "singleton_truths.clib"
      functions := ["truth_data_to_truth_struct", "my_id_truth", "my_full_puzzle_hash_truth",
        "my_inner_puzzle_hash_truth", "my_amount_truth", "my_lineage_proof_truth",
        "singleton_struct_truth", "singleton_mod_hash_truth", "singleton_launcher_id_truth",
        "singleton_launcher_puzzle_hash_truth", "parent_info_for_lineage_proof",
        "puzzle_hash_for_lineage_proof", "amount_for_lineage_proof", "is_not_eve_proof",
        "parent_info_for_eve_proof", "amount_for_eve_proof"] },
    { path := "cat_truths.clib"
      functions := ["cat_truth_data_to_truth_struct", "my_inner_puzzle_hash_cat_truth",
        "cat_struct_truth", "my_id_cat_truth", "my_coin_info_truth", "my_amount_cat_truth",
        "my_full_puzzle_hash_cat_truth", "my_parent_cat_truth", "cat_mod_hash_truth",
        "cat_mod_hash_hash_truth", "cat_tail_program_hash_truth"] },
    { path := "opcodes.clib"
      constants := ["QUOTE", "APPLY", "IF", "CONS", "FIRST", "REST", "LISTP", "RAISE", "EQ",
        "ADD", "SUBTRACT", "MULTIPLY", "DIVIDE", "DIVMOD", "GT", "GTS", "ASH", "LSH", "LOGAND",
        "LOGIOR", "LOGXOR", "LOGNOT", "SHA256", "SUBSTR", "STRLEN", "CONCAT", "NOT", "ANY",
        "ALL"] } ]

/-- Whether a path names a known include file. -/
def isKnownInclude (path : String) : Bool :=
  includeFiles.any (·.path == path)

/-- The first include file that defines a name. -/
def includeFor (name : String) : Option String :=
  (includeFiles.find? (·.provides name)).map (·.path)

/-- The pieces of a name between dashes and underscores, empty pieces left out. -/
def namePieces (name : String) : List String :=
  ((name.toList.splitOn '-').flatMap (·.splitOn '_')).filter (· ≠ []) |>.map String.ofList

/-- The camel-case form of a name: its first piece, then every other piece with its first
character upper-cased. A name without pieces has none. -/
def camelCase (name : String) : Except Failure String :=
  match namePieces name with
  | [] => .error ⟨.outOfRange, "list index out of range", none, []⟩
  | p :: ps => .ok (p ++ String.join (ps.map fun q =>
      match q.toList with
      | c :: cs => Text.toUpper (String.singleton c) ++ String.ofList cs
      | [] => ""))

/-- Every library function and macro, by its own name and its camel-case alias, with the name
it has in programs and the file that defines it. -/
def libraryFunctions : List (String × String × String) :=
  includeFiles.flatMap fun f => (f.functions ++ f.macros).flatMap fun n =>
    [(n, n, f.path)] ++ match camelCase n with
      | .ok c => [(c, n, f.path)]
      | .error _ => []

/-- The program name and include file of a library function called by `name`. -/
def libraryFunction (name : String) : Option (String × String) :=
  (libraryFunctions.find? (·.1 == name)).map (·.2)

end PuzzleKit
