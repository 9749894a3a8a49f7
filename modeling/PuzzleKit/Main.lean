import PuzzleKit.Shell.Session
import PuzzleKit.Shell.Args
import PuzzleKit.Text.Utf8

/-! The `coinscript` command. With words after the options it runs them as one shell command
and exits; with none it reads commands from standard input, one a line, until the input ends
or a command ends the session, prompting with `>>> ` when the input is a terminal. Files are
read from the file system, with `~` standing for the home directory. -/

namespace PuzzleKit.Shell

/-- The fault of a file that cannot be read, worded as the system words it. -/
def ioFault (path : String) : IO.Error → String
  | .noFileOrDirectory .. => noSuchFile path
  | .inappropriateType _ 21 _ => isDirectory path
  | .inappropriateType _ 20 _ => notDirectory path
  | .permissionDenied .. => "[Errno 13] Permission denied: " ++ Value.reprStr path
  | e => toString e

/-- A path with a leading `~` replaced by the home directory. -/
def expandHome (path : String) : IO String := do
  if path == "~" || path.startsWith "~/" then
    match ← IO.getEnv "HOME" with
    | some home => return home ++ (path.drop 1).toString
    | none => return path
  else return path

/-- Access to the files of the system, read as UTF-8 text. -/
def systemFiles : FileAccess IO where
  read path := do
    let path ← expandHome path
    try
      let bytes ← IO.FS.readBinFile path
      return (Text.decodeUtf8 bytes.toList).mapError Text.Utf8Error.message
    catch e => return .error (ioFault path e)

/-- Runs the lines of the input until it ends or a command ends the session; the end of the
input runs `EOF`. -/
partial def readLoop (stdin stdout : IO.FS.Stream) (s : Session) : IO Unit := do
  stdout.putStr s.prompt
  stdout.flush
  let line ← stdin.getLine
  let line := if line.isEmpty then "EOF" else (line.dropSuffix "\n").toString
  let o ← s.run systemFiles line
  stdout.putStr o.output
  stdout.flush
  if !o.stop then readLoop stdin stdout o.session

end PuzzleKit.Shell

open PuzzleKit.Shell in
/-- Reads the command line and runs the shell; a command line that cannot be read exits
with status 2. -/
def main (args : List String) : IO UInt32 := do
  let stdout ← IO.getStdout
  match parseArgs args with
  | .help =>
    stdout.putStr helpText
    return 0
  | .refused =>
    (← IO.getStderr).putStr (usageText ++ "coinscript: error: unrecognized arguments\n")
    return 2
  | .run _ [] =>
    let stdin ← IO.getStdin
    let prompt := if ← stdin.isTty then ">>> " else ""
    readLoop stdin stdout { prompt }
    return 0
  | .run _ words =>
    let o ← ({} : Session).run systemFiles (" ".intercalate words)
    stdout.putStr o.output
    return 0
