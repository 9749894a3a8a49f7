import PuzzleKit.Proofs.Readable

/-!
# What generated code computes

The code generator writes programs in a small part of the language: symbols, constants, the
conditional `(if c a b)`, operators on atoms and pairs, and calls of the program's own
functions. `eval` gives that part its meaning: it evaluates code under bindings of names to
values, one level of nesting for each unit of fuel, and fails where an operator raises, a name
is unbound or the fuel runs out. More fuel keeps an answer (`eval_mono`), so code `Evaluates`
to at most one value (`Evaluates.unique`); the lemmas after that evaluate each form of code
from the values of its parts.
-/

namespace PuzzleKit.Meaning

open Build

/-- A function of a program: its name, parameters and body. -/
structure Defun where
  name : String
  params : List String
  body : Tree

/-- Values bound to names; the first binding of a name is the one seen. -/
abbrev Env := List (String × Tree)

/-- The truth values of operators: `1` for true and the empty atom for false. -/
def truth (b : Bool) : Tree := if b then .atom [1] .int else .atom [] .bytes

/-- The operators on values: the two parts of a pair and a new pair, byte equality of atoms
and their lexicographic order as unsigned bytes, SHA-256 of the bytes of atoms one after the
other, the tree hash (the library function `sha256tree`), a list, and negation and
disjunction with the empty atom as false. None where the operator raises: a part of an atom,
an atom operator given a pair, a wrong number of arguments, an operator not listed. -/
def applyOp : String → List Tree → Option Tree
  | "f", [.cons a _] => some a
  | "r", [.cons _ b] => some b
  | "c", [a, b] => some (.cons a b)
  | "=", [.atom a _, .atom b _] => some (truth (a == b))
  | ">s", [.atom a _, .atom b _] => some (truth (decide (b < a)))
  | "sha256", vs => (vs.mapM Tree.bytes?).map fun bs => .atom (Sha256.hash bs.flatten) .bytes
  | "sha256tree", [v] => some (.atom v.hash .bytes)
  | "list", vs => some (Tree.ofList vs (.atom [] .bytes))
  | "not", [v] => some (truth v.isNil)
  | "any", vs => some (truth (vs.any fun v => !v.isNil))
  | _, _ => none

/-- One level of evaluation, with `ev` for the parts: a symbol is its binding and any other
atom itself; `(if c a b)` evaluates `c` and then one arm; another call evaluates its arguments,
then runs the program's function of that name on them, or the operator where there is none. -/
def evalWith (defs : List Defun) (ev : Env → Tree → Option Tree) (env : Env) :
    Tree → Option Tree
  | .atom b .symbol => (utf8Text b).toOption.bind (List.lookup · env)
  | .atom b h => some (.atom b h)
  | .cons (.atom op .symbol) rest => do
    let name ← (utf8Text op).toOption
    let args ← rest.toList?
    match name, args with
    | "if", [c, a, b] =>
      let v ← ev env c
      ev env (if v.isNil then b else a)
    | _, _ =>
      let vs ← args.mapM (ev env)
      match defs.find? (·.name == name) with
      | some d => if d.params.length = vs.length then ev (d.params.zip vs) d.body else none
      | none => applyOp name vs
  | .cons _ _ => none

/-- Evaluation with `fuel` levels of nesting. -/
def eval (defs : List Defun) : Nat → Env → Tree → Option Tree
  | 0, _, _ => none
  | n + 1, env, e => evalWith defs (eval defs n) env e

/-- Code evaluates to a value when some fuel is enough for it. -/
def Evaluates (defs : List Defun) (env : Env) (e v : Tree) : Prop :=
  ∃ n, eval defs n env e = some v


/-! ### More fuel keeps an answer -/

/-- An evaluator that gives every answer another one gives. -/
def Extends (ev ev' : Env → Tree → Option Tree) : Prop :=
  ∀ env e v, ev env e = some v → ev' env e = some v

variable {defs : List Defun} {ev ev' : Env → Tree → Option Tree}

theorem mapM_of_extends (h : Extends ev ev') (env : Env) :
    ∀ {args vs : List Tree}, args.mapM (ev env) = some vs → args.mapM (ev' env) = some vs
  | [], _, hv => hv
  | a :: args, vs, hv => by
    simp only [List.mapM_cons, Option.bind_eq_bind, Option.pure_def, Option.bind_eq_some_iff,
      Option.some.injEq] at hv ⊢
    obtain ⟨v, hv1, vs', hvs, rfl⟩ := hv
    exact ⟨v, h _ _ _ hv1, vs', mapM_of_extends h env hvs, rfl⟩

theorem evalWith_extends (h : Extends ev ev') : Extends (evalWith defs ev) (evalWith defs ev') := by
  intro env e v he
  match e with
  | .atom b .symbol | .atom b .int | .atom b .bytes | .atom b .string | .atom b (.other _)
  | .cons (.cons _ _) _ | .cons (.atom _ .int) _ | .cons (.atom _ .bytes) _
  | .cons (.atom _ .string) _ | .cons (.atom _ (.other _)) _ => exact he
  | .cons (.atom op .symbol) rest =>
    simp only [evalWith, Option.bind_eq_bind, Option.bind_eq_some_iff] at he ⊢
    obtain ⟨name, hname, args, hargs, he⟩ := he
    refine ⟨name, hname, args, hargs, ?_⟩
    split at he <;> rw [Option.bind_eq_some_iff] at he ⊢
    · obtain ⟨vc, hvc, he⟩ := he
      exact ⟨vc, h _ _ _ hvc, h _ _ _ he⟩
    · obtain ⟨vs, hvs, he⟩ := he
      refine ⟨vs, mapM_of_extends h env hvs, ?_⟩
      split at he
      · split at he
        · rw [if_pos ‹_›]; exact h _ _ _ he
        · cases he
      · exact he

theorem eval_extends_succ : ∀ n, Extends (eval defs n) (eval defs (n + 1))
  | 0 => fun _ _ _ he => by cases he
  | n + 1 => evalWith_extends (eval_extends_succ n)

/-- More fuel keeps an answer. -/
theorem eval_mono {n m : Nat} {env : Env} {e v : Tree} (he : eval defs n env e = some v)
    (hnm : n ≤ m) : eval defs m env e = some v := by
  induction hnm with
  | refl => exact he
  | step _ ih => exact eval_extends_succ _ _ _ _ ih

/-- Code evaluates to one value at most. -/
theorem Evaluates.unique {env : Env} {e v w : Tree} (hv : Evaluates defs env e v)
    (hw : Evaluates defs env e w) : v = w := by
  obtain ⟨n, hn⟩ := hv
  obtain ⟨m, hm⟩ := hw
  have h1 := eval_mono hn (Nat.le_max_left n m)
  have h2 := eval_mono hm (Nat.le_max_right n m)
  exact Option.some.inj (h1.symm.trans h2)


/-! ### Each form from its parts -/

variable {env : Env}

theorem evaluates_sym {s : String} {v : Tree} (h : List.lookup s env = some v) :
    Evaluates defs env (sym s).tree v :=
  ⟨1, by simp only [eval, evalWith, sym, Noted.tree, utf8Text_toUTF8]; exact h⟩

theorem evaluates_atom {b : List UInt8} {h : Hint} (hh : h ≠ .symbol) :
    Evaluates defs env (.atom b h) (.atom b h) :=
  ⟨1, by cases h <;> simp_all [eval, evalWith]⟩

theorem evaluates_int (i : Int) : Evaluates defs env (int i).tree (.atom (Bytes.ofInt i) .int) :=
  evaluates_atom (by decide)

theorem mapM_eval_of_forall₂ {args : List Noted} {vs : List Tree}
    (h : List.Forall₂ (fun a v => Evaluates defs env a.tree v) args vs) :
    ∃ n, ∀ m, n ≤ m → (args.map Noted.tree).mapM (eval defs m env) = some vs := by
  induction h with
  | nil => exact ⟨0, fun _ _ => rfl⟩
  | cons ha _ ih =>
    obtain ⟨n, hn⟩ := ha
    obtain ⟨k, hk⟩ := ih
    refine ⟨max n k, fun m hm => ?_⟩
    simp [List.mapM_cons, eval_mono hn ((Nat.max_le.mp hm).1), hk m ((Nat.max_le.mp hm).2)]

theorem tree_call (op : String) (args : List Noted) :
    (call op args).tree = .cons (.atom op.toUTF8.toList .symbol) (Tree.ofList (args.map Noted.tree) (.atom [] .bytes)) := by
  rw [call, Noted.tree_ofList]
  rfl

@[simp] theorem spine_ofList (xs : List Tree) (t : Tree) : (Tree.ofList xs t).spine = xs ++ t.spine := by
  induction xs with
  | nil => rfl
  | cons x xs ih => simp only [Tree.ofList, List.foldr_cons, Tree.spine, List.cons_append] at ih ⊢; rw [ih]

@[simp] theorem last_ofList (xs : List Tree) (t : Tree) : (Tree.ofList xs t).last = t.last := by
  induction xs with
  | nil => rfl
  | cons x xs ih => simp only [Tree.ofList, List.foldr_cons, Tree.last] at ih ⊢; rw [ih]

@[simp] theorem toList?_ofList_nil (xs : List Tree) : (Tree.ofList xs (.atom [] .bytes)).toList? = some xs := by
  simp [Tree.toList?, Tree.last, Tree.isNil, Tree.spine]


theorem evaluates_ifNode {c a b : Noted} {vc v : Tree} (hc : Evaluates defs env c.tree vc)
    (hv : Evaluates defs env (if vc.isNil then b.tree else a.tree) v) :
    Evaluates defs env (ifNode c a b).tree v := by
  obtain ⟨n, hn⟩ := hc
  obtain ⟨k, hk⟩ := hv
  refine ⟨max n k + 1, ?_⟩
  rw [ifNode, tree_call, eval, evalWith, utf8Text_toUTF8]
  simp only [Except.toOption, toList?_ofList_nil, List.map_cons, List.map_nil, Option.bind_eq_bind,
    Option.bind_some, eval_mono hn (Nat.le_max_left n k)]
  exact eval_mono hk (Nat.le_max_right n k)

/-- A call of an operator that the program defines no function for evaluates the arguments and
applies the operator to their values. -/
theorem evaluates_call_op {op : String} {args : List Noted} {vs : List Tree} {v : Tree}
    (hif : op ≠ "if") (hd : defs.find? (·.name == op) = none)
    (hargs : List.Forall₂ (fun a v => Evaluates defs env a.tree v) args vs)
    (hv : applyOp op vs = some v) : Evaluates defs env (call op args).tree v := by
  obtain ⟨n, hn⟩ := mapM_eval_of_forall₂ hargs
  refine ⟨n + 1, ?_⟩
  rw [tree_call, eval, evalWith, utf8Text_toUTF8]
  simp only [Except.toOption, toList?_ofList_nil, Option.bind_eq_bind, Option.bind_some]
  split
  · exact absurd rfl hif
  · rw [hn n (Nat.le_refl n), Option.bind_some, hd]
    exact hv

/-- A call of a function of the program evaluates the arguments and then the body with the
parameters bound to their values. -/
theorem evaluates_call_defun {op : String} {args : List Noted} {vs : List Tree} {d : Defun}
    {v : Tree} (hif : op ≠ "if") (hd : defs.find? (·.name == op) = some d)
    (hargs : List.Forall₂ (fun a v => Evaluates defs env a.tree v) args vs)
    (hlen : d.params.length = vs.length) (hbody : Evaluates defs (d.params.zip vs) d.body v) :
    Evaluates defs env (call op args).tree v := by
  obtain ⟨n, hn⟩ := mapM_eval_of_forall₂ hargs
  obtain ⟨k, hk⟩ := hbody
  refine ⟨max n k + 1, ?_⟩
  rw [tree_call, eval, evalWith, utf8Text_toUTF8]
  simp only [Except.toOption, toList?_ofList_nil, Option.bind_eq_bind, Option.bind_some]
  split
  · exact absurd rfl hif
  · rw [hn _ (Nat.le_max_left n k), Option.bind_some, hd]
    dsimp only
    rw [if_pos hlen]
    exact eval_mono hk (Nat.le_max_right n k)

/-! ### Each form back to its parts -/

theorem forall₂_of_mapM {α β : Type} {f : α → Option β} :
    ∀ {xs : List α} {ys : List β}, xs.mapM f = some ys → List.Forall₂ (fun x y => f x = some y) xs ys
  | [], ys, h => by
    cases Option.some.inj h
    exact .nil
  | x :: xs, ys, h => by
    simp only [List.mapM_cons, Option.bind_eq_bind, Option.pure_def, Option.bind_eq_some_iff,
      Option.some.injEq] at h
    obtain ⟨y, hy, ys', hys', rfl⟩ := h
    exact .cons hy (forall₂_of_mapM hys')

/-- A call that evaluates evaluated its arguments, and then either the program's function of
that name on their values or the operator. -/
theorem evaluates_call_inv {op : String} {args : List Noted} {v : Tree} (hif : op ≠ "if")
    (h : Evaluates defs env (call op args).tree v) :
    ∃ vs, List.Forall₂ (fun a w => Evaluates defs env a.tree w) args vs ∧
      match defs.find? (·.name == op) with
      | some d => d.params.length = vs.length ∧ Evaluates defs (d.params.zip vs) d.body v
      | none => applyOp op vs = some v := by
  obtain ⟨n, hn⟩ := h
  cases n with
  | zero => cases hn
  | succ n =>
    rw [tree_call, eval, evalWith, utf8Text_toUTF8] at hn
    simp only [Except.toOption, toList?_ofList_nil, Option.bind_eq_bind, Option.bind_some] at hn
    split at hn
    · exact absurd rfl hif
    · obtain ⟨vs, hvs, hn⟩ := Option.bind_eq_some_iff.mp hn
      refine ⟨vs, List.forall₂_map_left_iff.mp ((forall₂_of_mapM hvs).imp fun _ _ h => ⟨n, h⟩), ?_⟩
      split at hn
      · split at hn
        · exact ⟨‹_›, n, hn⟩
        · cases hn
      · exact hn

theorem evaluates_ifNode_inv {c a b : Noted} {v : Tree} (h : Evaluates defs env (ifNode c a b).tree v) :
    ∃ vc, Evaluates defs env c.tree vc ∧ Evaluates defs env (if vc.isNil then b.tree else a.tree) v := by
  obtain ⟨n, hn⟩ := h
  cases n with
  | zero => cases hn
  | succ n =>
    rw [ifNode, tree_call, eval, evalWith, utf8Text_toUTF8] at hn
    simp only [Except.toOption, toList?_ofList_nil, List.map_cons, List.map_nil, Option.bind_eq_bind,
      Option.bind_some] at hn
    obtain ⟨vc, hvc, hn⟩ := Option.bind_eq_some_iff.mp hn
    exact ⟨vc, ⟨n, hvc⟩, ⟨n, hn⟩⟩

theorem evaluates_ifNode_iff {c a b : Noted} {vc v : Tree} (hc : Evaluates defs env c.tree vc) :
    Evaluates defs env (ifNode c a b).tree v ↔
      Evaluates defs env (if vc.isNil then b.tree else a.tree) v := by
  refine ⟨fun h => ?_, evaluates_ifNode hc⟩
  obtain ⟨vc', hc', hv⟩ := evaluates_ifNode_inv h
  rwa [hc'.unique hc] at hv

theorem evaluates_sym_inv {s : String} {v : Tree} (h : Evaluates defs env (sym s).tree v) :
    List.lookup s env = some v := by
  obtain ⟨n, hn⟩ := h
  cases n with
  | zero => cases hn
  | succ n =>
    simp only [eval, evalWith, sym, Noted.tree, utf8Text_toUTF8] at hn
    exact hn

theorem evaluates_of_mem_call {op : String} {args : List Noted} {v : Tree} (hif : op ≠ "if")
    (h : Evaluates defs env (call op args).tree v) {a : Noted} (ha : a ∈ args) :
    ∃ w, Evaluates defs env a.tree w := by
  obtain ⟨vs, hargs, -⟩ := evaluates_call_inv hif h
  clear h
  induction hargs with
  | nil => cases ha
  | cons hw _ ih =>
    rcases List.mem_cons.mp ha with rfl | ha
    · exact ⟨_, hw⟩
    · exact ih ha

end PuzzleKit.Meaning
