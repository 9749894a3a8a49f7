import PuzzleKit.Failure

/-! Positional parameters of a host function and the faults of calling it with the wrong
number of arguments, worded as the host words them. A method counts the object it is called
on as its first parameter, so its counts include it. -/

namespace PuzzleKit.Build

/-- A function's positional parameters: its name, the names of its parameters, how many
of them must be given, and whether it takes any number of further arguments. -/
structure Signature where
  name : String
  params : List String
  required : Nat
  variadic : Bool

namespace Signature

/-- The quoted names of missing parameters, as the host lists them: `'a'`, `'a' and 'b'`, or
`'a', 'b', and 'c'`. -/
def quoteNames (ns : List String) : String :=
  let q := fun (n : String) => "'" ++ n ++ "'"
  match ns.reverse with
  | [] => ""
  | [a] => q a
  | [b, a] => q a ++ " and " ++ q b
  | last :: firsts => ", ".intercalate (firsts.reverse.map q) ++ ", and " ++ q last

/-- Whether the signature admits a call with `given` arguments. -/
def admits (s : Signature) (given : Nat) : Bool :=
  s.required ≤ given && (s.variadic || given ≤ s.params.length)

/-- The fault of a call with `given` arguments that the signature does not admit: too few
name the missing parameters, too many count what the signature takes. -/
def refusal (s : Signature) (given : Nat) : Failure :=
  let n := s.params.length
  if given < s.required then
    let missing := (s.params.take s.required).drop given
    .type (s.name ++ "() missing " ++ toString missing.length ++
      " required positional argument" ++ (if missing.length == 1 then "" else "s") ++ ": " ++
      quoteNames missing)
  else
    let takes := if s.required == n then toString n
      else "from " ++ toString s.required ++ " to " ++ toString n
    let plural := s.required != n || n != 1
    .type (s.name ++ "() takes " ++ takes ++ " positional argument" ++
      (if plural then "s" else "") ++ " but " ++ toString given ++
      (if given == 1 then " was" else " were") ++ " given")

theorem admits_of_within (s : Signature) (given : Nat) (hlo : s.required ≤ given)
    (hhi : given ≤ s.params.length) : s.admits given = true := by
  simp [admits, hlo, hhi]

end Signature

end PuzzleKit.Build
