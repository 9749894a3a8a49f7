import PuzzleKit.Value

/-! Reading files by path. The shell reads source files and reference programs through a
`FileAccess`, which gives a file's text or the fault the system reports for its path. A
fixed table of files under one working directory gives such an access without a file
system: a path is resolved a component at a time, where `.` stays put, `..` goes up from a
directory, and every proper prefix of a file's path is a directory. The directories above
the working directory exist but hold no file the table knows. -/

namespace PuzzleKit.Shell

/-- Access to files in a monad: the text of a file, or the fault reading it meets. -/
structure FileAccess (m : Type → Type) where
  read : String → m (Except String String)

/-- Line ends as a file read as text gives them: each `\r\n` and each other `\r` is a
`\n`. -/
def textLines : List Char → List Char
  | '\r' :: '\n' :: rest => '\n' :: textLines rest
  | '\r' :: rest => '\n' :: textLines rest
  | c :: rest => c :: textLines rest
  | [] => []

/-- The text of a file as reading it as text gives it. -/
def textMode (s : String) : String := String.ofList (textLines s.toList)

theorem textLines_of_no_return (cs : List Char) (h : '\r' ∉ cs) : textLines cs = cs := by
  induction cs with
  | nil => rfl
  | cons c rest ih =>
    have hc : c ≠ '\r' := fun e => h (e ▸ List.mem_cons_self)
    have hr : '\r' ∉ rest := fun m => h (List.mem_cons_of_mem c m)
    cases rest with
    | nil => simp [textLines]
    | cons d more =>
      rw [← ih hr]
      cases c
      simp_all [textLines]

/-- The fault of a path that names nothing. -/
def noSuchFile (path : String) : String :=
  "[Errno 2] No such file or directory: " ++ Value.reprStr path

/-- The fault of a path that names a directory where a file is wanted. -/
def isDirectory (path : String) : String := "[Errno 21] Is a directory: " ++ Value.reprStr path

/-- The fault of a path that goes through a file as if it were a directory. -/
def notDirectory (path : String) : String := "[Errno 20] Not a directory: " ++ Value.reprStr path

/-- A table of files by path relative to the working directory. -/
structure FileTable where
  files : List (String × String)

namespace FileTable

/-- The components of a path, without empty ones and `.`. -/
def parts (path : String) : List String :=
  (path.splitOn "/").filter fun c => c != "" && c != "."

/-- Whether the components name a file of the table. -/
def isFile (t : FileTable) (cs : List String) : Bool :=
  t.files.any fun (p, _) => parts p == cs

/-- Whether the components name a directory: the working directory or a proper prefix of a
file's path. -/
def isDir (t : FileTable) (cs : List String) : Bool :=
  cs.isEmpty || t.files.any fun (p, _) => let ps := parts p; cs.length < ps.length && ps.take cs.length == cs

/-- Where a path leads: a place named by components under the working directory, or a
directory outside it (above it, or the root), which exists but holds nothing the table
knows. -/
inductive Place where
  | inside (cs : List String)
  | outside

/-- Resolves components from a place: the place reached, or a fault. `.` stays and `..` goes
up, both only from a directory; going up from the working directory leaves the table. -/
def resolve (t : FileTable) (path : String) : Place → List String → Except String Place
  | p, [] => .ok p
  | .outside, c :: rest =>
    if c == "." || c == ".." then t.resolve path .outside rest else .error (noSuchFile path)
  | .inside here, c :: rest =>
    if !t.isDir here then
      .error (if t.isFile here then notDirectory path else noSuchFile path)
    else if c == "." then t.resolve path (.inside here) rest
    else if c == ".." then
      if here.isEmpty then t.resolve path .outside rest else t.resolve path (.inside here.dropLast) rest
    else t.resolve path (.inside (here ++ [c])) rest

/-- The text of a file, or the fault of its path. A path from the root starts outside the
table. -/
def read (t : FileTable) (path : String) : Except String String := do
  if path.isEmpty then throw (noSuchFile path)
  let cs := (path.splitOn "/").filter (· != "")
  let start := if path.startsWith "/" then Place.outside else .inside []
  match ← t.resolve path start cs with
  | .outside => throw (isDirectory path)
  | .inside here =>
    if path.endsWith "/" && t.isFile here then throw (notDirectory path)
    match t.files.find? fun (p, _) => parts p == here with
    | some (_, text) => return text
    | none => if t.isDir here then throw (isDirectory path) else throw (noSuchFile path)

def access (t : FileTable) : FileAccess Id := ⟨fun p => pure (t.read p)⟩

end FileTable

/-- A path joined to a directory: the directory and the name with one separator between,
or the name alone under the empty directory. -/
def joinPath (dir name : String) : String :=
  if dir.isEmpty || dir.endsWith "/" then dir ++ name else dir ++ "/" ++ name

end PuzzleKit.Shell
