import PuzzleKit.Text.Digit

/-! The command line of `coinscript`: options `-h`/`--help` and `-v`/`--verbose` (which may
be repeated, as in `-vv`), and the words of one command to run. Long options may be
shortened to any prefix that names only one of them, and `--` makes every word after it part
of the command. Options may come before, between or after the command's words, but the
command is taken as the first run of words only: words after an option that follows the
command are refused. A word that looks like a negative number is a word, not an option. -/

namespace PuzzleKit.Shell

/-- The options. -/
inductive Opt where
  | help
  | verbose
  deriving DecidableEq, Repr

def optionStrings : List (String × Opt) :=
  [("-h", .help), ("--help", .help), ("-v", .verbose), ("--verbose", .verbose)]

/-- How a word of the command line reads: part of the command, the `--` marker, an option
with the string it matched and any text glued to it, or an unknown option. -/
inductive Word where
  | plain (s : String)
  | marker
  | option (o : Opt) (name : String) (glued : Option String)
  | unknown (s : String)
  deriving Repr

/-- Whether a word looks like a negative number, `-5` or `-.5` or `-1.5`. -/
def looksNegative (s : String) : Bool :=
  match s.toList with
  | '-' :: rest =>
    let (ds, more) := rest.span Text.isDigit
    match more with
    | [] => !ds.isEmpty
    | '.' :: frac => !frac.isEmpty && frac.all Text.isDigit
    | _ => false
  | _ => false

/-- The options a word may stand for by prefix: a long word matches the long options it is a
prefix of (up to an `=`), a short word `-xREST` the option `-x` with `REST` glued on, or the
options it is a prefix of. -/
def candidates (s : String) : List (Opt × String × Option String) :=
  match s.toList with
  | '-' :: '-' :: _ =>
    let (pre, glued) := match s.splitOn "=" with
      | p :: rest@(_ :: _) => (p, some ("=".intercalate rest))
      | _ => (s, none)
    optionStrings.filterMap fun (n, o) => if n.startsWith pre then some (o, n, glued) else none
  | '-' :: c :: rest =>
    optionStrings.filterMap fun (n, o) =>
      if n == String.ofList ['-', c] then some (o, n, some (String.ofList rest))
      else if n.startsWith s then some (o, n, none)
      else none
  | _ => []

/-- How a word reads, or none when it is ambiguous. -/
def classify (s : String) : Option Word :=
  if s.isEmpty || !s.startsWith "-" then some (.plain s)
  else match optionStrings.lookup s with
    | some o => some (.option o s none)
    | none =>
      if s.length == 1 then some (.plain s)
      else
        let direct := match s.splitOn "=" with
          | p :: rest@(_ :: _) => (optionStrings.lookup p).map fun o => Word.option o p (some ("=".intercalate rest))
          | _ => none
        match direct with
        | some w => some w
        | none =>
          match candidates s with
          | [(o, n, g)] => some (.option o n g)
          | _ :: _ :: _ => none
          | [] =>
            if looksNegative s then some (.plain s)
            else if s.contains ' ' then some (.plain s)
            else some (.unknown s)

/-- What a command line asks for. -/
inductive Invocation where
  | help
  | refused
  | run (verbosity : Nat) (command : List String)
  deriving DecidableEq, Repr

/-- The options a word with glued text stands for, one letter at a time (`-vv` is `-v -v`),
or none when a letter is no option or the option takes no glued text. -/
def expand (o : Opt) (name : String) : Option String → Option (List Opt)
  | none => some [o]
  | some g =>
    if name.startsWith "--" || g.isEmpty then none
    else
      let rec letters (acc : List Opt) : List Char → Option (List Opt)
        | [] => some acc
        | c :: cs =>
          match optionStrings.lookup (String.ofList ['-', c]) with
          | some o' => letters (acc ++ [o']) cs
          | none => none
      letters [o] g.toList

/-- The words of the command line after the first, with `--` ending the options. -/
def classifyAll : List String → Option (List Word)
  | [] => some []
  | "--" :: rest => some (.marker :: rest.map Word.plain)
  | w :: rest => do
    let c ← classify w
    return c :: (← classifyAll rest)

/-- The command words of a run of plain words, with the first `--` dropped. -/
def commandWords (ws : List Word) : List String :=
  let strs := ws.filterMap fun
    | .plain s => some s
    | .marker => some "--"
    | _ => none
  let (before, after) := strs.span (· != "--")
  before ++ after.drop 1

/-- Where a reading of the command line stands: the command's words so far and whether
they may still go on, whether words were refused, and how verbose the run is. -/
structure ArgState where
  taken : Option (List Word) := none
  running : Bool := false
  extra : Bool := false
  verbosity : Nat := 0

/-- Reads the words of a command line. The command is the first run of plain words; an option
ends that run, counts its options and stops the reading at help; words that are neither
part of the command nor options are refused. -/
def readWords : ArgState → List Word → Invocation
  | st, [] =>
    if st.extra then .refused else .run st.verbosity (commandWords (st.taken.getD []))
  | st, w :: rest =>
    match w with
    | .option o n g =>
      match expand o n g with
      | none => .refused
      | some os =>
        if os.contains .help then .help
        else readWords { st with running := false, verbosity := st.verbosity + os.length } rest
    | .unknown _ => readWords { st with running := false, extra := true } rest
    | _ =>
      match st.taken with
      | none => readWords { st with taken := some [w], running := true } rest
      | some ws =>
        if st.running then readWords { st with taken := some (ws ++ [w]) } rest
        else readWords { st with extra := true } rest

/-- Reads a command line. -/
def parseArgs (argv : List String) : Invocation :=
  match classifyAll argv with
  | none => .refused
  | some ws => readWords {} ws

def helpText : String :=
  "usage: coinscript [-h] [-v] [command ...]\n\nCoinScript to Chialisp\n\n" ++
  "positional arguments:\n  command        run one command and exit\n\n" ++
  "options:\n  -h, --help     show this help message and exit\n  -v, --verbose\n"

/-- The usage line shown with a refusal. -/
def usageText : String := "usage: coinscript [-h] [-v] [command ...]\n"

end PuzzleKit.Shell
