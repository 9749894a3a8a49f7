import PuzzleKit.Shell.Files
import PuzzleKit.Shell.Args
import PuzzleKit.Script.Compile
import PuzzleKit.SExpr.Format
import PuzzleKit.Text.Blank
import PuzzleKit.Text.Digit

/-! The interactive shell. Each line is a command word and its argument; the commands set
storage values for later compiles, compile a source file and print the program with its
hashes, hash or curry S-expressions, reformat program text, convert addresses, and make
spend solutions for the coin compiled last. A command that fails prints what went wrong and
leaves the session as it was; faults of other kinds print nothing. A line that starts with
`;` is a remark, an empty line does nothing, and an unknown command is reported. -/

namespace PuzzleKit.Shell

open Script

/-- The state of a session. -/
structure Session where
  storage : List (String × Value) := []
  libraryDir : Option String := none
  codec : AddressCodec := {}
  flat : Bool := false
  last : Option Compiled := none
  prompt : String := ""

/-- What a line did: the text it printed, the session after it, and whether the session
ends. -/
structure Outcome where
  output : String
  session : Session
  stop : Bool := false

/-- The text a failed command prints, for the faults it reports: compile faults with their
kind and place, a missing key quoted, and other value, proof and file faults as they are.
Faults of other kinds are not reported. -/
def Failure.shown (f : Failure) : Option String :=
  match f.kind with
  | .missingKey => some (Value.reprStr f.text)
  | .wrongType | .outOfRange | .noAttribute => none
  | _ => some f.message

def commandNames : List String :=
  ["EOF", "address", "compile", "curry", "exit", "flat", "format", "hash", "help", "library", "set",
    "solution", "unset"]

def commandHelp : List (String × String) :=
  [("help", "List available commands with \"help\" or detailed help with \"help cmd\"."),
   ("library", "library DIR: reference programs for singleton hashes"),
   ("set", "set NAME VALUE: storage value used by later compiles"),
   ("solution", "solution ACTION ARGS...: spend solution for the last compiled coin")]

/-- Words in columns that fit a width, filled down the columns, with the fewest rows that
fit; columns are two spaces apart and every word is padded to its column's width. When no
fewer rows fit, each word stands on a line of its own. -/
def columnize (words : List String) (width : Nat) : String :=
  match words with
  | [] => "<empty>\n"
  | [w] => w ++ "\n"
  | _ =>
    let size := words.length
    let widths := fun (rows : Nat) =>
      let cols := (size + rows - 1) / rows
      (List.range cols).map fun c => ((words.drop (c * rows)).take rows).foldl (fun m w => max m w.length) 0
    let fits := fun (rows : Nat) => (widths rows).foldl (fun t w => t + w + 2) 0 ≤ width + 2
    let rows := ((List.range (size - 1)).map (· + 1)).find? fits |>.getD size
    let ws := if rows == size then [0] else widths rows
    let cols := (size + rows - 1) / rows
    String.join ((List.range rows).map fun r =>
      let texts := (List.range cols).filterMap fun c => words[r + c * rows]?
      let padded := texts.zipIdx.map fun (t, c) => t.pushn ' ' ((ws[c]?.getD 0) - t.length)
      "  ".intercalate padded ++ "\n")

/-- A list of commands under a header ruled with `=`. -/
def topics (header : String) (words : List String) : String :=
  if words.isEmpty then ""
  else header ++ "\n" ++ "".pushn '=' header.length ++ "\n" ++ columnize words 79 ++ "\n"

/-- The help of a command, or the list of commands. -/
def helpOf (arg : String) : String :=
  if arg.isEmpty then
    let documented := commandNames.filter fun n => (commandHelp.lookup n).isSome
    let plain := commandNames.filter fun n => (commandHelp.lookup n).isNone
    "\n" ++ topics "Documented commands (type help <topic>):" documented ++
      topics "Undocumented commands:" plain
  else match commandHelp.lookup arg with
    | some h => h ++ "\n"
    | none => "*** No help on " ++ arg ++ "\n"

/-- Whether a character may be part of a command word. -/
def isCommandChar (c : Char) : Bool := c.isAlphanum || c = '_'

/-- The first word of a text and the rest after the blanks that follow it, when there is a
rest. -/
def splitFirst (s : String) : Option (String × String) :=
  let cs := (Text.trimLeft s).toList
  let name := cs.takeWhile (!Text.isBlank ·)
  let rest := (cs.drop name.length).dropWhile Text.isBlank
  if name.isEmpty || rest.isEmpty then none else some (String.ofList name, String.ofList rest)

/-- Whether a text is digits only, with at least one; digits that are not decimal count. -/
def allDigits (s : String) : Bool := !s.isEmpty && s.toList.all Text.isDigitLike

/-- An integer written in decimal digits with at most one leading minus, or the fault of a
text that is not one. -/
def readInt (s : String) : Except Failure Int :=
  let fault : Except Failure Int :=
    .error (.value ("invalid literal for int() with base 10: " ++ Value.reprStr s))
  match s.toList with
  | '-' :: ds => match Text.digitsValue? ds with
    | some n => .ok (-(n : Int))
    | none => fault
  | ds => match Text.digitsValue? ds with
    | some n => .ok n
    | none => fault

/-- A value typed in a command: an integer when it is digits after leading minus signs,
else the text. Digits that do not make a decimal number, or more than one minus, are a
fault. -/
def typedValue (s : String) : Except Failure Value :=
  if allDigits (String.ofList (s.toList.dropWhile (· == '-'))) then .int <$> readInt s
  else .ok (.str s)

def flatText (t : Tree) : Except Failure String := ({} : Style).writeTree t

def hexHash (h : List UInt8) : String := "0x" ++ Bytes.toHex h

/-- The reference programs a directory holds for the singleton programs: for each name, the
first file of that name with one of the endings tried. -/
def libraryIn {m : Type → Type} [Monad m] (fs : FileAccess m) (dir : String) : m ProgramLibrary := do
  let mut found : List (String × String) := []
  for n in [singletonModName, singletonLauncherName] do
    let mut hit : Option String := none
    for s in ProgramLibrary.suffixes do
      if hit.isNone then
        match ← fs.read (joinPath dir (n ++ s)) with
        | .ok text => hit := some (textMode text)
        | .error _ => pure ()
    if let some text := hit then found := found ++ [(n, text)]
  return ProgramLibrary.ofList found

/-- Prints the lines of a compiled coin: the program, each action program, the hashes, the
curried values, the solution parameters, the action root and the singleton puzzle hash,
stopping with the fault of a step that fails. -/
def compiledText (c : Compiled) (library : Option ProgramLibrary) : String :=
  let lines := [c.source] ++ c.actionSources.flatMap (fun (n, s) => ["; action " ++ n, s]) ++
    ["; mod hash    " ++ hexHash c.modHash, "; puzzle hash " ++ hexHash c.puzzleHash] ++
    c.curried.map (fun (n, v) => ";   " ++ n ++ " = " ++ v.tree.render) ++
    ["; solution    (" ++ " ".intercalate c.solutionParams ++ ")"] ++
    (match c.actionTree with
      | some t => ["; action root " ++ hexHash t.root]
      | none => [])
  let head := String.join (lines.map (· ++ "\n"))
  match c.singletonHash library with
  | .ok (some h) => head ++ "; singleton   " ++ hexHash h ++ "\n"
  | .ok none => head
  | .error f => head ++ ((Failure.shown f).map (· ++ "\n")).getD ""

/-- The text of a command whose fault is reported: its output, or the fault's text. -/
def reported (r : Except Failure String) : String :=
  match r with
  | .ok s => s
  | .error f => ((Failure.shown f).map (· ++ "\n")).getD ""

/-- Runs a command word with its argument. -/
def command {m : Type → Type} [Monad m] (fs : FileAccess m) (s : Session) (cmd arg : String) :
    m Outcome := do
  let done := fun (out : String) => (pure { output := out, session := s } : m Outcome)
  match cmd with
  | "exit" => return { output := "", session := s, stop := true }
  | "EOF" => return { output := if s.prompt.isEmpty then "" else "\n", session := s, stop := true }
  | "help" => done (helpOf arg)
  | "set" =>
    match splitFirst arg with
    | none => done "Expected storage variable name and value\n"
    | some (name, value) =>
      match typedValue value with
      | .ok v =>
        let storage := if s.storage.any (·.1 == name) then
            s.storage.map fun (k, w) => if k == name then (k, v) else (k, w)
          else s.storage ++ [(name, v)]
        return { output := "", session := { s with storage } }
      | .error f => done (reported (.error f))
  | "unset" =>
    let names := Text.words arg
    return { output := "", session := { s with storage := s.storage.filter fun (k, _) => !names.contains k } }
  | "flat" =>
    let a := Text.trim arg
    return { output := "", session := { s with flat := !(a == "off" || a == "0" || a == "no") } }
  | "library" => return { output := "", session := { s with libraryDir := some (Text.trim arg) } }
  | "compile" =>
    match ← fs.read (Text.trim arg) with
    | .error e => done (e ++ "\n")
    | .ok text =>
      let source := textMode text
      let library ← match s.libraryDir with
        | some d => some <$> libraryIn fs d
        | none => pure none
      let opts : CompileOptions := {
        indent := !s.flat
        storage := s.storage
        library := library
        codec := s.codec }
      match (compileSource source opts).run [] with
      | .error f _ => done (reported (.error f))
      | .ok c _ => return { output := compiledText c none, session := { s with last := some c } }
  | "hash" => done (reported do
      let t ← (SExpr.parse arg).mapError Failure.ofRead
      return hexHash t.hash ++ "\n")
  | "curry" => done (reported do
      let ts ← (SExpr.parseMany arg).mapError Failure.ofRead
      match ts with
      | [] => return "Expected a program and its arguments\n"
      | prog :: args =>
        let t := curry prog args
        let text ← ({ keywords := true } : Style).writeTree t
        return text ++ "\n" ++ hexHash t.hash ++ "\n")
  | "format" => done (reported do return (← SExpr.formatSource arg) ++ "\n")
  | "address" => done (reported do
      let a := Text.trim arg
      if s.codec.isAddress a then return hexHash (← s.codec.decode a) ++ "\n"
      let h ← hexBytes (if a.startsWith "0x" then (a.drop 2).toString else a)
      return (← s.codec.encode h) ++ "\n")
  | "solution" => done (reported do
      let sol ← match s.last with
        | none =>
          let ts ← (SExpr.parseMany arg).mapError Failure.ofRead
          pure (Noted.ofList (ts.map Noted.ofTree))
        | some c =>
          let parts := Text.words arg
          let action := match parts.head? with
            | some "-" | none => none
            | some a => some a
          let args ← (parts.drop 1).mapM typedValue
          c.solution action args none none none
      return (← flatText sol.tree) ++ "\n" ++ Bytes.toHex sol.tree.serialize ++ "\n")
  | _ => done ("*** Unknown syntax: " ++ cmd ++ (if arg.isEmpty then "" else " " ++ arg) ++ "\n")

def Session.run {m : Type → Type} [Monad m] (fs : FileAccess m) (s : Session) (line : String) :
    m Outcome := do
  let line := Text.trim line
  if line.isEmpty then return { output := "", session := s }
  let line := if line.startsWith "?" then "help " ++ (line.drop 1).toString else line
  let unknown := fun (l : String) => (pure {
    output := if (Text.trim l).startsWith ";" then "" else "*** Unknown syntax: " ++ l ++ "\n"
    session := s } : m Outcome)
  if line.startsWith "!" then return ← unknown line
  let cmd := String.ofList (line.toList.takeWhile isCommandChar)
  let arg := Text.trim (line.drop cmd.length).toString
  if cmd.isEmpty || !commandNames.contains cmd then unknown line
  else command fs s cmd arg

/-- Runs lines in turn until one ends the session, collecting what each printed. -/
def Session.runAll {m : Type → Type} [Monad m] (fs : FileAccess m) (s : Session) :
    List String → m (List String)
  | [] => return []
  | l :: ls => do
    let o ← s.run fs l
    if o.stop then return [o.output]
    return o.output :: (← o.session.runAll fs ls)

/-- What a session prints over the lines of an input and the input's end, which runs `EOF`. -/
def Session.transcript {m : Type → Type} [Monad m] (fs : FileAccess m) (s : Session)
    (lines : List String) : m String :=
  String.join <$> s.runAll fs (lines ++ ["EOF"])

/-- The exit status and output of a command line over an input: the help, a refusal with
status 2 and no output, the output of the one command its words make, or, with no words, a
session over the input. -/
def commandLine {m : Type → Type} [Monad m] (fs : FileAccess m) (argv input : List String) :
    m (Nat × String) :=
  match parseArgs argv with
  | .help => pure (0, helpText)
  | .refused => pure (2, "")
  | .run _ [] => (0, ·) <$> ({} : Session).transcript fs input
  | .run _ words => (fun o => (0, o.output)) <$> ({} : Session).run fs (" ".intercalate words)

end PuzzleKit.Shell
