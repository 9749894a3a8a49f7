import PuzzleKit.Tree.Hash

/-! Currying binds leading arguments of a program. The curried form of a program `m` over
values `v₁ … vₙ` is `(a (q . m) (c (q . v₁) (c (q . v₂) … 1)))`: applied to a solution `s`,
it runs `m` on `(v₁ v₂ … . s)`. Its hash follows from the hashes of `m` and of the values
alone, so it can be computed without the trees. -/

namespace PuzzleKit

/-- The operator atoms of the curried form: apply, quote and cons. -/
def opApply : Tree := .ofInt 2
def opQuote : Tree := .ofInt 1
def opCons : Tree := .ofInt 4

/-- The environment that binds `args` before the solution. -/
def curryEnv (args : List Tree) : Tree :=
  args.foldr (fun a env => .ofList [opCons, .cons opQuote a, env] .nil) Tree.one

/-- The curried form of a program over argument values. -/
def curry (m : Tree) (args : List Tree) : Tree :=
  .ofList [opApply, .cons opQuote m, curryEnv args] .nil

/-- The arguments of an environment built by `curryEnv`, or none. -/
def uncurryEnv : Tree → Option (List Tree)
  | .cons c (.cons (.cons q a) (.cons env rest)) =>
    if c.same opCons && q.same opQuote && rest.isNil then (uncurryEnv env).map (a :: ·)
    else none
  | t => if t.same Tree.one then some [] else none

/-- The program and arguments of a curried form, or none when a tree is not one. -/
def uncurry : Tree → Option (Tree × List Tree)
  | .cons a (.cons (.cons q m) (.cons env rest)) =>
    if a.same opApply && q.same opQuote && rest.isNil then
      (uncurryEnv env).map fun args => (m, args)
    else none
  | _ => none

/-- The hash of the environment that binds values with the given hashes. -/
def curriedValuesHash (argHashes : List (List UInt8)) : List UInt8 :=
  argHashes.foldr (fun h env =>
    pairHash (atomHash [4]) (pairHash (pairHash (atomHash [1]) h) (pairHash env (atomHash []))))
    (atomHash [1])

/-- The hash of a curried program, from the hash of the program and those of the values. -/
def curriedHash (modHash : List UInt8) (argHashes : List (List UInt8)) : List UInt8 :=
  pairHash (atomHash [2])
    (pairHash (pairHash (atomHash [1]) modHash) (pairHash (curriedValuesHash argHashes) (atomHash [])))

end PuzzleKit
