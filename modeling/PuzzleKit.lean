import PuzzleKit.Action.Coin
import PuzzleKit.Action.Merkle
import PuzzleKit.Action.State
import PuzzleKit.Address
import PuzzleKit.Bound
import PuzzleKit.Build.Constructor
import PuzzleKit.Build.Expr
import PuzzleKit.Build.Node
import PuzzleKit.Build.Puzzle
import PuzzleKit.Build.Signature
import PuzzleKit.Build.Solution
import PuzzleKit.Bytes.Hex
import PuzzleKit.Bytes.Signed
import PuzzleKit.Curry
import PuzzleKit.Failure
import PuzzleKit.Hash.Sha256
import PuzzleKit.Library.Include
import PuzzleKit.Library.Program
import PuzzleKit.Main
import PuzzleKit.Naming
import PuzzleKit.Opcode
import PuzzleKit.Proofs.CurriedHash
import PuzzleKit.Proofs.Utf8
import PuzzleKit.Proofs.AtomText
import PuzzleKit.Proofs.Tokens
import PuzzleKit.Proofs.Reading
import PuzzleKit.Proofs.RenderParse
import PuzzleKit.Proofs.Resolved
import PuzzleKit.Proofs.Checked
import PuzzleKit.Proofs.Readable
import PuzzleKit.Proofs.Lowered
import PuzzleKit.Proofs.Merkle.Complete
import PuzzleKit.SExpr.Format
import PuzzleKit.SExpr.Read
import PuzzleKit.SExpr.Token
import PuzzleKit.Script.Check
import PuzzleKit.Script.Compile
import PuzzleKit.Script.Generate
import PuzzleKit.Script.Parse
import PuzzleKit.Script.Syntax
import PuzzleKit.Script.Token
import PuzzleKit.Shell.Args
import PuzzleKit.Shell.Files
import PuzzleKit.Shell.Session
import PuzzleKit.Text.Binary64
import PuzzleKit.Text.Blank
import PuzzleKit.Text.Case
import PuzzleKit.Text.Cased
import PuzzleKit.Text.Decimal
import PuzzleKit.Text.Digit
import PuzzleKit.Text.Letter
import PuzzleKit.Text.Pos
import PuzzleKit.Text.Printable
import PuzzleKit.Text.Ranges
import PuzzleKit.Text.Shortest
import PuzzleKit.Text.Utf8
import PuzzleKit.Tree.Basic
import PuzzleKit.Tree.Binary
import PuzzleKit.Tree.Hash
import PuzzleKit.Tree.Layout
import PuzzleKit.Tree.Noted
import PuzzleKit.Tree.Render
import PuzzleKit.Tree.Store
import PuzzleKit.Value
import PuzzleKit.Value.Bytes
import PuzzleKit.Proofs.Built
import PuzzleKit.Proofs.Generated
import PuzzleKit.Proofs.Merkle.Sound
import PuzzleKit.Proofs.Serialization
import PuzzleKit.Proofs.Meaning
import PuzzleKit.Proofs.Merkle.Dispatch
import PuzzleKit.Proofs.ActionNames
import PuzzleKit.Proofs.Merkle.Spend
import PuzzleKit.Proofs.Statements.Run
import PuzzleKit.Proofs.Uncurry
import PuzzleKit.Proofs.Declared
import PuzzleKit.Proofs.SelfHash
import PuzzleKit.Proofs.Generation
import PuzzleKit.Proofs.Interface
import PuzzleKit.Action.Memo
import PuzzleKit.Proofs.SignedBytes
import PuzzleKit.Proofs.FieldCodec
import PuzzleKit.Proofs.StateCodec
import PuzzleKit.Proofs.Merkle.Memo
import PuzzleKit.Proofs.ReaderShape
import PuzzleKit.Proofs.Grammar
import PuzzleKit.Proofs.TokenKinds
import PuzzleKit.Proofs.Layout
import PuzzleKit.Proofs.Statements.Lowering
import PuzzleKit.Proofs.Decoding
import PuzzleKit.Proofs.FailedCalls
import PuzzleKit.Proofs.RemarkView
import PuzzleKit.Proofs.BuildView
import PuzzleKit.Proofs.Queries
import PuzzleKit.Proofs.Statements.Action
import PuzzleKit.Proofs.Statements.Written
import PuzzleKit.Proofs.Statements.Accepted
import PuzzleKit.Proofs.Statements.Call
import PuzzleKit.Proofs.NestingCap
import PuzzleKit.Proofs.ReadText
import PuzzleKit.Proofs.Reformat
import PuzzleKit.Proofs.Statements.Function
import PuzzleKit.Proofs.StoreHash
import PuzzleKit.Proofs.Positions
import PuzzleKit.Proofs.Bech32
import PuzzleKit.Proofs.AddressRoundTrip
import PuzzleKit.Proofs.ExprGrammar
import PuzzleKit.Proofs.MappingHelpers
import PuzzleKit.Proofs.Ready
import PuzzleKit.Proofs.Programs
import PuzzleKit.Proofs.Compiles
import PuzzleKit.Proofs.Binders
import PuzzleKit.Proofs.ProgramNames
import PuzzleKit.Proofs.SolutionSlots
