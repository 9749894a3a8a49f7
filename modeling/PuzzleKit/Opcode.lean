import PuzzleKit.Tree.Render

/-! The operator table of the virtual machine and the table of spend conditions. An operator is
a one-byte atom in the first place of a list; a condition is a list whose first element is
its numeric code. Both tables are one-to-one. -/

namespace PuzzleKit

def operators : List (Nat × String) :=
  [(0x01, "q"), (0x02, "a"), (0x03, "i"), (0x04, "c"), (0x05, "f"), (0x06, "r"), (0x07, "l"),
   (0x08, "x"), (0x09, "="), (0x0a, ">s"), (0x0b, "sha256"), (0x0c, "substr"),
   (0x0d, "strlen"), (0x0e, "concat"), (0x10, "+"), (0x11, "-"), (0x12, "*"), (0x13, "/"),
   (0x14, "divmod"), (0x15, ">"), (0x16, "ash"), (0x17, "lsh"), (0x18, "logand"),
   (0x19, "logior"), (0x1a, "logxor"), (0x1b, "lognot"), (0x1d, "point_add"),
   (0x1e, "pubkey_for_exp"), (0x20, "not"), (0x21, "any"), (0x22, "all"), (0x24, "softfork"),
   (0x30, "coinid")]

/-- Spend condition codes and their names. -/
def conditions : List (Nat × String) :=
  [(1, "REMARK"), (43, "AGG_SIG_PARENT"), (44, "AGG_SIG_PUZZLE"), (45, "AGG_SIG_AMOUNT"),
   (46, "AGG_SIG_PUZZLE_AMOUNT"), (47, "AGG_SIG_PARENT_AMOUNT"), (48, "AGG_SIG_PARENT_PUZZLE"),
   (49, "AGG_SIG_UNSAFE"), (50, "AGG_SIG_ME"), (51, "CREATE_COIN"), (52, "RESERVE_FEE"),
   (60, "CREATE_COIN_ANNOUNCEMENT"), (61, "ASSERT_COIN_ANNOUNCEMENT"),
   (62, "CREATE_PUZZLE_ANNOUNCEMENT"), (63, "ASSERT_PUZZLE_ANNOUNCEMENT"),
   (64, "ASSERT_CONCURRENT_SPEND"), (65, "ASSERT_CONCURRENT_PUZZLE"), (66, "SEND_MESSAGE"),
   (67, "RECEIVE_MESSAGE"), (70, "ASSERT_MY_COIN_ID"), (71, "ASSERT_MY_PARENT_ID"),
   (72, "ASSERT_MY_PUZZLEHASH"), (73, "ASSERT_MY_AMOUNT"), (74, "ASSERT_MY_BIRTH_SECONDS"),
   (75, "ASSERT_MY_BIRTH_HEIGHT"), (76, "ASSERT_EPHEMERAL"), (80, "ASSERT_SECONDS_RELATIVE"),
   (81, "ASSERT_SECONDS_ABSOLUTE"), (82, "ASSERT_HEIGHT_RELATIVE"),
   (83, "ASSERT_HEIGHT_ABSOLUTE"), (84, "ASSERT_BEFORE_SECONDS_RELATIVE"),
   (85, "ASSERT_BEFORE_SECONDS_ABSOLUTE"), (86, "ASSERT_BEFORE_HEIGHT_RELATIVE"),
   (87, "ASSERT_BEFORE_HEIGHT_ABSOLUTE"), (90, "SOFTFORK")]

def operatorName? (code : Nat) : Option String :=
  (operators.find? (·.1 = code)).map (·.2)

def conditionCode? (name : String) : Option Nat :=
  (conditions.find? (·.2 = name)).map (·.1)

def conditionName? (code : Int) : Option String :=
  (conditions.find? (fun c => (c.1 : Int) = code)).map (·.2)

/-- An atom in operator place: a one-byte operator code by its name, anything else as usual. -/
def keywordAtom (b : List UInt8) (h : Hint) : String :=
  match b with
  | [x] => (operatorName? x.toNat).getD (renderAtom b h)
  | _ => renderAtom b h

/-- Compact text with operators written by name. -/
def Tree.renderKeywords (t : Tree) : String := t.renderOnto keywordAtom ""

end PuzzleKit
