import PuzzleKit.Script.Compile
import Mathlib

/-!
# The hash of a curried program

`curriedHash` computes the hash of `(a (q . m) (c (q . v₁) (c (q . v₂) … 1)))` from the hash of
`m` and the hashes of the values, nesting pair and atom hashes by hand, the empty list that ends
each three-element list included. It is the tree hash of the curried form itself, for every
program and every list of values, whatever their number. The hash is never opened: the
equations hold for any hash of the concatenated bytes.

So the puzzle hash a builder reports is the hash of the curried program it builds, and the
puzzle hash of a compiled coin, or of one of its merkle actions, is the hash of its curried
program.
-/

namespace PuzzleKit

theorem hash_ofList (items : List Tree) (tail : Tree) :
    (Tree.ofList items tail).hash = items.foldr (fun t h => pairHash t.hash h) tail.hash := by
  induction items with
  | nil => rfl
  | cons t ts ih =>
    simp only [Tree.ofList, List.foldr_cons] at ih ⊢
    rw [Tree.hash, ih]

theorem hash_curryEnv_cons (a : Tree) (args : List Tree) :
    (curryEnv (a :: args)).hash =
      pairHash (atomHash [4]) (pairHash (pairHash (atomHash [1]) a.hash)
        (pairHash (curryEnv args).hash (atomHash []))) := by
  simp only [curryEnv, List.foldr_cons]
  rw [hash_ofList]
  rfl

theorem curriedValuesHash_map_hash (args : List Tree) :
    curriedValuesHash (args.map Tree.hash) = (curryEnv args).hash := by
  induction args with
  | nil => rfl
  | cons a as ih =>
    rw [hash_curryEnv_cons, ← ih]
    rfl

theorem curriedHash_map_hash (m : Tree) (args : List Tree) :
    curriedHash m.hash (args.map Tree.hash) = (curry m args).hash := by
  rw [curry, hash_ofList, curriedHash, curriedValuesHash_map_hash]
  rfl

namespace Build.Puzzle

/-- The puzzle a building call ends in, whether it succeeds or fails. -/
def endState {α : Type} : EStateM.Result Failure Puzzle α → Puzzle
  | .ok _ q => q
  | .error _ q => q

/-- A building call that leaves the puzzle as it found it, whatever it returns. -/
def Keeps {α : Type} (x : PuzzleM α) : Prop := ∀ q, endState (x.run q) = q

theorem keeps_pure {α : Type} (a : α) : Keeps (pure a : PuzzleM α) := fun _ => rfl

theorem keeps_lift {α : Type} (r : Except Failure α) : Keeps (lift r) := by
  intro q
  cases r <;> rfl

theorem endState_bind {α β : Type} (x : PuzzleM α) {f : α → PuzzleM β} (hf : ∀ a, Keeps (f a))
    (p : Puzzle) : endState ((x >>= f).run p) = endState (x.run p) := by
  rw [EStateM.run_bind]
  cases x.run p with
  | ok a q => exact hf a q
  | error e q => rfl

theorem keeps_bind {α β : Type} {x : PuzzleM α} {f : α → PuzzleM β} (hx : Keeps x)
    (hf : ∀ a, Keeps (f a)) : Keeps (x >>= f) := by
  intro q
  rw [endState_bind x hf, hx]

theorem keeps_get_bind {α : Type} {f : Puzzle → PuzzleM α} (hf : ∀ p, Keeps (f p)) :
    Keeps (get >>= f) := keeps_bind (fun _ => rfl) hf

theorem buildBody_curried (p : Puzzle) (next : Noted) :
    (endState ((buildBody next).run p)).curried = p.curried := by
  simp only [buildBody, EStateM.run_bind, EStateM.run_get]
  split <;> rfl

theorem build_curried (p : Puzzle) : (endState (build.run p)).curried = p.curried := by
  have hrest : ∀ body, Keeps (do
      let p ← get
      let incs ← lift (do (← p.includesFor body).mapM checkInclude)
      let params ← lift p.paramsElement
      return Noted.ofList ([sym "mod", params] ++ incs.map (fun i => call "include" [sym i]) ++
        p.constants ++ p.functions ++ [body])) := fun body =>
    keeps_get_bind fun _ => keeps_bind (keeps_lift _) fun _ =>
      keeps_bind (keeps_lift _) fun _ => keeps_pure _
  rw [build, endState_bind _ hrest]
  exact buildBody_curried p Noted.nil

theorem curryValues_endState (values : List Value) (p : Puzzle) :
    endState ((curryValues values).run p) = p := by
  simp only [curryValues, EStateM.run_bind, EStateM.run_get]
  split_ifs
  · rfl
  · cases asElements values <;> rfl
  · cases Value.joinTexts _ <;> rfl
  · rfl

theorem curryValues_run'_congr (values : List Value) {p q : Puzzle} (h : q.curried = p.curried) :
    (curryValues values).run' q = (curryValues values).run' p := by
  simp only [EStateM.run', curryValues, EStateM.run_bind, EStateM.run_get, h]
  split_ifs
  · rfl
  · cases asElements values <;> rfl
  · cases Value.joinTexts _ <;> rfl
  · rfl

theorem puzzleHash_eq_curriedProgram_hash (values : List Value) (p : Puzzle) :
    (puzzleHash values).run' p = ((curriedProgram values).run' p).map Tree.hash := by
  have hk := curryValues_endState values p
  simp only [puzzleHash, curriedProgram, modHash, EStateM.run', EStateM.run_bind]
  cases hb : build.run p with
  | error e q =>
    cases hv : (curryValues values).run p with
    | error e' s => rfl
    | ok vs s =>
      have hs : s = p := by simpa [hv, endState] using hk
      subst hs
      simp [hb]
  | ok m q =>
    have hq : q.curried = p.curried := by simpa [hb, endState] using build_curried p
    have hc := curryValues_run'_congr values hq
    simp only [EStateM.run'] at hc
    cases hv : (curryValues values).run p with
    | error e s => cases hw : (curryValues values).run q <;> simp_all
    | ok vs s =>
      have hs : s = p := by simpa [hv, endState] using hk
      subst hs
      cases hw : (curryValues values).run q with
      | error e r => simp_all
      | ok ws r =>
        simp only [hv, hw, Option.some.injEq] at hc
        subst hc
        simp [hb, hw, ← curriedHash_map_hash, List.map_map, Function.comp_def]

end Build.Puzzle

namespace Script.Compiled

theorem puzzleHash_eq_hash_puzzle (c : Compiled) : c.puzzleHash = c.puzzle.hash := by
  rw [puzzleHash, puzzle, modHash, ← curriedHash_map_hash, List.map_map]
  rfl

theorem actionPuzzleHash_eq_hash_actionPuzzle (c : Compiled) (name : String) :
    c.actionPuzzleHash name = (c.actionPuzzle name).toOption.map Tree.hash := by
  unfold actionPuzzleHash actionPuzzle
  cases c.actionMods.lookup name with
  | none => rfl
  | some m => simp [Except.toOption, ← curriedHash_map_hash, Function.comp_def]

end Script.Compiled

/-- Hashing commutes with currying: the hash of a curried program follows from the hashes of
the program and of its values, for any number of values; and every puzzle hash reported by a
builder, a compiled coin or one of its merkle actions is the hash of the curried program it
stands for. -/
theorem hash_commutes_with_curry (m : Tree) (args : List Tree) (p : Build.Puzzle)
    (values : List Value) (c : Script.Compiled) (name : String) :
    curriedHash m.hash (args.map Tree.hash) = (curry m args).hash ∧
    (Build.Puzzle.puzzleHash values).run' p =
      ((Build.Puzzle.curriedProgram values).run' p).map Tree.hash ∧
    c.puzzleHash = c.puzzle.hash ∧
    c.actionPuzzleHash name = (c.actionPuzzle name).toOption.map Tree.hash :=
  ⟨curriedHash_map_hash m args, Build.Puzzle.puzzleHash_eq_curriedProgram_hash values p,
    c.puzzleHash_eq_hash_puzzle, c.actionPuzzleHash_eq_hash_actionPuzzle name⟩

end PuzzleKit
