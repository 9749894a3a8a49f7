import PuzzleKit.Curry
import PuzzleKit.Proofs.Reading

/-!
# Uncurrying inverts currying

`uncurry` reads a tree as `(a (q . m) (c (q . v₁) (c (q . v₂) … 1)))`, walking the environment
one link at a time and comparing each operator atom, and the `1` that ends the environment, by
its bytes alone. It is a partial inverse of `curry`: every curried form is read back as its
program and its values, in their order (`uncurry_curry`), and every tree that is read back is,
up to the hints of its atoms, the curried form of what was read (`curry_same_of_uncurry`), so it
has the same tree hash.
-/

namespace PuzzleKit

namespace Tree

theorem same_comm : ∀ s t : Tree, s.same t = t.same s
  | .atom a _, .atom b _ => by
    simp only [same]
    exact Bool.eq_iff_iff.mpr ⟨fun h => beq_iff_eq.mpr (beq_iff_eq.mp h).symm,
      fun h => beq_iff_eq.mpr (beq_iff_eq.mp h).symm⟩
  | .cons a b, .cons c d => by simp only [same, same_comm a c, same_comm b d]
  | .atom _ _, .cons _ _ | .cons _ _, .atom _ _ => rfl

theorem nil_same_of_isNil {t : Tree} (h : t.isNil = true) : Tree.nil.same t = true := by
  cases t with
  | atom b _ => simpa [isNil, nil, same, List.isEmpty_iff] using h
  | cons => simp [isNil] at h

end Tree

theorem curryEnv_cons (a : Tree) (args : List Tree) :
    curryEnv (a :: args) = .cons opCons (.cons (.cons opQuote a) (.cons (curryEnv args) Tree.nil)) :=
  rfl

theorem uncurryEnv_curryEnv (args : List Tree) : uncurryEnv (curryEnv args) = some args := by
  induction args with
  | nil => rfl
  | cons a as ih =>
    rw [curryEnv_cons, uncurryEnv, Tree.same_refl, Tree.same_refl]
    simp [Tree.nil, Tree.isNil, ih]

theorem curryEnv_same_of_uncurryEnv {env : Tree} {xs : List Tree} (h : uncurryEnv env = some xs) :
    (curryEnv xs).same env = true := by
  fun_induction uncurryEnv env generalizing xs with
  | case1 c q a env rest hc ih =>
    simp only [Bool.and_eq_true] at hc
    obtain ⟨⟨hcons, hquote⟩, hrest⟩ := hc
    obtain ⟨ys, hys, rfl⟩ := Option.map_eq_some_iff.mp h
    rw [curryEnv_cons]
    simp only [Tree.same, Bool.and_eq_true]
    exact ⟨(Tree.same_comm _ _).trans hcons, ⟨(Tree.same_comm _ _).trans hquote, Tree.same_refl a⟩,
      ih hys, Tree.nil_same_of_isNil hrest⟩
  | case2 => cases h
  | case3 t _ hone =>
    cases h
    exact (Tree.same_comm _ _).trans hone
  | case4 => cases h

/-- Every curried form is read back as its program and its values, as many as there are and in
their order. -/
theorem uncurry_curry (m : Tree) (args : List Tree) : uncurry (curry m args) = some (m, args) := by
  rw [curry, Tree.ofList, List.foldr_cons, List.foldr_cons, List.foldr_cons, List.foldr_nil,
    uncurry, Tree.same_refl, Tree.same_refl, uncurryEnv_curryEnv]
  simp [Tree.nil, Tree.isNil]

/-- A tree that is read back is, up to hints, the curried form of its program and values. -/
theorem curry_same_of_uncurry {el m : Tree} {xs : List Tree} (h : uncurry el = some (m, xs)) :
    (curry m xs).same el = true := by
  unfold uncurry at h
  split at h
  · rename_i a q m' env rest
    split at h
    · rename_i hc
      simp only [Bool.and_eq_true] at hc
      obtain ⟨⟨happly, hquote⟩, hrest⟩ := hc
      obtain ⟨ys, hys, hm⟩ := Option.map_eq_some_iff.mp h
      cases hm
      rw [curry, Tree.ofList, List.foldr_cons, List.foldr_cons, List.foldr_cons, List.foldr_nil]
      simp only [Tree.same, Bool.and_eq_true]
      exact ⟨(Tree.same_comm _ _).trans happly, ⟨(Tree.same_comm _ _).trans hquote, Tree.same_refl _⟩,
        curryEnv_same_of_uncurryEnv hys, Tree.nil_same_of_isNil hrest⟩
    · cases h
  · cases h

/-- `uncurry` is a partial inverse of `curry`: it reads every curried form back as its program
and its values, with their number and order, and every tree it reads is the curried form of what
it read, atom for atom and pair for pair, so with the same tree hash. -/
theorem uncurry_inverts_curry (m : Tree) (args : List Tree) :
    uncurry (curry m args) = some (m, args) ∧
    ∀ (el m' : Tree) (xs : List Tree), uncurry el = some (m', xs) →
      (curry m' xs).same el = true ∧ (curry m' xs).hash = el.hash :=
  ⟨uncurry_curry m args, fun _ _ _ h =>
    ⟨curry_same_of_uncurry h, Tree.hash_eq_of_same (curry_same_of_uncurry h)⟩⟩

end PuzzleKit
