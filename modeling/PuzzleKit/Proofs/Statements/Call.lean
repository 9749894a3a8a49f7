import PuzzleKit.Proofs.Statements.Action
import PuzzleKit.Proofs.Interface

/-!
# The code of a function yields its value

The code generated for a function, read as a tree of tests with each test `C` taken to be
`V C`, yields what calling the function under `V` yields (`callBlock`): nothing when a `require`
is false or a failure is reached, the code of the value the `return` reached gives, and nil when
the statements run off their end.

In a function every `if` carries the statements after it into both of its arms, so generation
and the call go on from the same environment. The proof runs them side by side (`Mirrors`), by
induction on the budget of `if` levels (`block_yields`) over the walk of one level
(`walk_yields`), with the value returned read as a tree of tests too (`Return.read`).
-/

namespace PuzzleKit

open Build

namespace Noted

/-- What code yields read as a tree of tests, each test `c` taken as `V c`: `(if C A B)` goes on
with `A` or `B`, a failure `(x …)` yields nothing, and any other code is the value it yields. -/
def yields (V : Noted → Bool) : Noted → Option Noted
  | .cons (.atom op .symbol h) r t =>
    if op = "if".toUTF8.toList then
      match r with
      | .cons c (.cons a (.cons e (.atom [] _ _) _) _) _ => if V c then yields V a else yields V e
      | _ => some (.cons (.atom op .symbol h) r t)
    else if op = "x".toUTF8.toList then none
    else some (.cons (.atom op .symbol h) r t)
  | n => some n

/-- Code that reading as a tree of tests takes as it is, whatever the tests. -/
def IsValue (n : Noted) : Prop := ∀ V : Noted → Bool, n.yields V = some n

variable {V : Noted → Bool}

@[simp] theorem yields_nil : Noted.nil.yields V = some Noted.nil := rfl

@[simp] theorem yields_ifNode (c t e : Noted) :
    (ifNode c t e).yields V = if V c then t.yields V else e.yields V := if_pos rfl

@[simp] theorem yields_failNode (m : Option String) : (failNode m).yields V = none := by
  cases m <;> exact (if_neg (by decide +kernel)).trans (if_pos rfl)

theorem isValue_atom (b : List UInt8) (h : Hint) (t : Tag) : (Noted.atom b h t).IsValue :=
  fun _ => rfl

theorem isValue_call {op : String} (hif : op ≠ "if") (hx : op ≠ "x") (args : List Noted) :
    (call op args).IsValue := by
  have hif' : op.toUTF8.toList ≠ "if".toUTF8.toList :=
    fun h => hif (Script.Generate.toUTF8_toList_inj h)
  have hx' : op.toUTF8.toList ≠ "x".toUTF8.toList :=
    fun h => hx (Script.Generate.toUTF8_toList_inj h)
  intro V
  show yields V (.cons (sym op) (Noted.ofList args) (.own [])) = _
  rw [sym, yields.eq_def]
  dsimp only
  rw [if_neg hif', if_neg hx']
  rfl

end Noted

namespace Script

mutual

/-- Whether a statement may stand in a function: no `send`, no `emit`, no statement call and no
check of the sender, in the arms of an `if` neither. -/
def Stmt.inFunction : Stmt → Bool
  | .require c _ _ => (senderTarget? c).isNone
  | .send .. | .emit .. | .eval .. => false
  | .branch _ yes no _ => Stmt.blockInFunction yes && Stmt.optionInFunction no
  | _ => true

/-- Whether every statement of a block may stand in a function. -/
def Stmt.blockInFunction : List Stmt → Bool
  | [] => true
  | s :: ss => s.inFunction && Stmt.blockInFunction ss

/-- Whether every statement of an optional block may stand in a function. -/
def Stmt.optionInFunction : Option (List Stmt) → Bool
  | some ss => Stmt.blockInFunction ss
  | none => true

end

theorem Stmt.blockInFunction_append {xs ys : List Stmt} :
    Stmt.blockInFunction (xs ++ ys) = (Stmt.blockInFunction xs && Stmt.blockInFunction ys) := by
  induction xs with
  | nil => simp [Stmt.blockInFunction]
  | cons s xs ih => simp [Stmt.blockInFunction, ih, Bool.and_assoc]

theorem Stmt.optionInFunction_getD (no : Option (List Stmt)) :
    Stmt.optionInFunction no = Stmt.blockInFunction (no.getD []) := by
  cases no <;> rfl

namespace Generate

/-- How the statements of a function end under a valuation: the call fails, returns the code of
a value, or runs off the end in an environment. -/
inductive Return where
  | failed
  | value (v : Noted)
  | ran (env : Env)

/-- What a call that ends so yields: nothing after a failure, the value returned, and nil off the
end. -/
def Return.result : Return → Option Noted
  | .failed => none
  | .value v => some v
  | .ran _ => some Noted.nil

/-- What a call that ends so yields, with the value returned read as a tree of tests. -/
def Return.read (V : Noted → Bool) : Return → Option Noted
  | .failed => none
  | .value v => v.yields V
  | .ran _ => some Noted.nil

/-- Goes on with `k` from the environment statements leave when they run off their end. -/
def Return.continue (k : Env → GenM Return) : Return → GenM Return
  | .ran env => k env
  | r => pure r

mutual

/-- Calls the statements of a function one after another, each in the environment the ones
before it leave, with each test `c` taken as `V c`. -/
def callBlock (V : Noted → Bool) : List Stmt → Env → GenM Return
  | [], env => pure (.ran env)
  | s :: rest, env => callStmt V s env >>= Return.continue fun env' => callBlock V rest env'

/-- Calls one statement of a function: a `require` whose test is false fails the call, an `if`
runs the arm its test picks and a `return` gives the code of its value. -/
def callStmt (V : Noted → Bool) : Stmt → Env → GenM Return
  | .assign t op v pos _, env => .ran <$> assign env t op v pos
  | .branch c yes no _, env => do
    if V (← expr env c) then callBlock V yes env
    else
      match no with
      | some ss => callBlock V ss env
      | none => pure (.ran env)
  | .require c _ _, env => do
    return if V (← expr env c) then .ran env else .failed
  | .ret (some v) _, env => .value <$> expr env v
  | .ret none _, _ => pure (.value Noted.nil)
  | .fail _ _, _ => pure .failed
  | _, env => pure (.ran env)

end

variable (V : Noted → Bool)

theorem callBlock_nil (env : Env) : callBlock V [] env = pure (.ran env) := by
  simp only [callBlock]

theorem callBlock_cons (s : Stmt) (rest : List Stmt) (env : Env) :
    callBlock V (s :: rest) env =
      callStmt V s env >>= Return.continue fun env' => callBlock V rest env' := by
  simp only [callBlock]

theorem Return.continue_bind (k₁ k₂ : Env → GenM Return) (r : Return) :
    r.continue (fun env => k₁ env >>= Return.continue k₂) = r.continue k₁ >>= Return.continue k₂ := by
  cases r <;> simp [Return.continue]

theorem callBlock_append (xs ys : List Stmt) (env : Env) :
    callBlock V (xs ++ ys) env = callBlock V xs env >>= Return.continue (callBlock V ys) := by
  induction xs generalizing env with
  | nil => simp [callBlock_nil, Return.continue]
  | cons s xs ih =>
    simp only [List.cons_append, callBlock_cons, bind_assoc]
    congr 1
    funext r
    rw [← Return.continue_bind]
    congr 1
    funext env'
    exact ih env'

theorem callStmt_branch (c : Expr) (yes : List Stmt) (no : Option (List Stmt)) (p : Pos)
    (env : Env) :
    callStmt V (.branch c yes no p) env =
      expr env c >>= fun cond => callBlock V (if V cond then yes else no.getD []) env := by
  cases no with
  | some ss =>
    rw [callStmt.eq_2]
    congr 1
    funext cond
    split <;> rfl
  | none =>
    rw [callStmt.eq_3]
    congr 1
    funext cond
    split
    · rfl
    · exact (callBlock_nil V env).symm

theorem callBlock_branch_cons (c : Expr) (yes : List Stmt) (no : Option (List Stmt)) (p : Pos)
    (rest : List Stmt) (env : Env) :
    callBlock V (.branch c yes no p :: rest) env =
      expr env c >>= fun cond =>
        if V cond then callBlock V (yes ++ rest) env else callBlock V (no.getD [] ++ rest) env := by
  rw [callBlock_cons, callStmt_branch, bind_assoc]
  congr 1
  funext cond
  split <;> rw [callBlock_append]

theorem callBlock_require_cons (c : Expr) (m : Option String) (p : Pos) (rest : List Stmt)
    (env : Env) :
    callBlock V (.require c m p :: rest) env =
      expr env c >>= fun cond => if V cond then callBlock V rest env else pure .failed := by
  rw [callBlock_cons]
  simp only [callStmt, bind_assoc, pure_bind]
  congr 1
  funext cond
  split <;> rfl

/-! ### Walking the block of a function -/

/-- What a step of a function adds before the outcome `o` of the code after it: a `require`
whose test is false fails. -/
def Piece.pass : Piece → Option Noted → Option Noted
  | .require c _, o => if V c then o else none
  | _, o => o

theorem yields_foldr_apply {acc : List Piece} (hacc : ∀ p ∈ acc, ∃ c m, p = .require c m)
    (tail : Noted) :
    (acc.foldr (fun p t => p.apply t) tail).yields V = acc.foldr (Piece.pass V) (tail.yields V) := by
  induction acc with
  | nil => rfl
  | cons p ps ih =>
    obtain ⟨c, m, rfl⟩ := hacc p List.mem_cons_self
    rw [List.foldr_cons, List.foldr_cons, ← ih fun q hq => hacc q (List.mem_cons_of_mem _ hq)]
    simp [Piece.apply, Piece.pass]

section Walk

variable {lower : List Stmt → Env → Option Noted → GenM Noted} {ctx : Lowering}
  {stop : Option Noted} {rest : List Stmt} {env : Env} {steps : List Piece}

omit V

theorem exit_function (hfn : ctx.function = true) (env : Env) : exit env ctx = pure Noted.nil := by
  simp [exit, hfn]

theorem walk_require {c : Expr} (ht : senderTarget? c = none) (m : Option String) (p : Pos) :
    walk lower ctx stop (.require c m p :: rest) env steps =
      expr env c >>= fun cond => walk lower ctx stop rest env (steps ++ [.require cond m]) := by
  simp [walk, ht]

theorem walk_branch_function (hfn : ctx.function = true) (c : Expr) (yes : List Stmt)
    (no : Option (List Stmt)) (p : Pos) :
    walk lower ctx stop (.branch c yes no p :: rest) env steps = (do
      let cond ← expr env c
      let t ← lower (yes ++ rest) env stop
      let o ← lower (no.getD [] ++ rest) env stop
      pure (steps, some (ifNode cond t o), env)) := by
  simp [walk, hfn]

theorem walk_ret_function (hfn : ctx.function = true) (v : Option Expr) (p : Pos) :
    walk lower ctx stop (.ret v p :: rest) env steps =
      (fun x => (steps, some x, env)) <$> (match v with
        | some v => expr env v
        | none => pure Noted.nil) := by
  cases v <;> simp [walk, hfn]

end Walk

/-- `lower` generates the code of a block of a function so that it yields what calling the block
yields. -/
def CallLowers (lower : List Stmt → Env → Option Noted → GenM Noted) : Prop :=
  ∀ (L : List Stmt) (env : Env), Stmt.blockInFunction L = true →
    Mirrors (fun code r => code.yields V = r.read V) (lower L env none) (callBlock V L env)

/-- Walking a block of a function, with its arms generated by a `lower` that keeps their meaning,
gives code that yields, once the tests `acc` it started with pass, what calling the block yields.
The walk goes statement by statement, generation and the call in the same environment. -/
theorem walk_yields {ctx : Lowering} (hfn : ctx.function = true)
    {lower : List Stmt → Env → Option Noted → GenM Noted} (hlower : CallLowers V lower) :
    ∀ (L : List Stmt) (env : Env) (acc : List Piece), (∀ p ∈ acc, ∃ c m, p = .require c m) →
      Stmt.blockInFunction L = true →
      Mirrors (fun code r => code.yields V = acc.foldr (Piece.pass V) (r.read V))
        (walk lower ctx none L env acc >>= finish ctx none) (callBlock V L env)
  | [], env, acc, hacc, _ => by
    simp only [walk, callBlock_nil, pure_bind, finish, exit_function hfn, map_pure]
    exact mirrors_pure (by simp [yields_foldr_apply V hacc, Return.read])
  | s :: rest, env, acc, hacc, hL => by
    simp only [Stmt.blockInFunction, Bool.and_eq_true] at hL
    obtain ⟨hs, hrest⟩ := hL
    cases s with
    | require c m p =>
      have ht : senderTarget? c = none := by simpa [Stmt.inFunction] using hs
      rw [walk_require ht, callBlock_require_cons, bind_assoc]
      refine mirrors_bind (expr_mirrors c fun _ _ => rfl) fun cond _ h => ?_
      subst h
      have hacc' : ∀ p ∈ acc ++ [Piece.require cond m], ∃ c m, p = .require c m := by
        intro p hp
        rcases List.mem_append.mp hp with hp | hp
        · exact hacc p hp
        · exact ⟨cond, m, List.mem_singleton.mp hp⟩
      have ih := walk_yields hfn hlower rest env _ hacc' hrest
      by_cases hV : V cond = true
      · rw [if_pos hV]
        exact ih.mono fun code r h => by simp [h, List.foldr_append, Piece.pass, hV]
      · rw [if_neg hV]
        exact ih.to_pure fun code r h => by simp [h, List.foldr_append, Piece.pass, hV, Return.read]
    | assign t op v pos d =>
      rw [walk_assign, callBlock_cons]
      simp only [callStmt, bind_assoc, bind_map_left]
      refine mirrors_bind (assign_mirrors t op v pos d fun _ _ => rfl) fun e₁ e₂ he => ?_
      obtain ⟨x, rfl, rfl⟩ := he
      exact walk_yields hfn hlower rest _ acc hacc hrest
    | branch c yes no p =>
      simp only [Stmt.inFunction, Bool.and_eq_true] at hs
      rw [walk_branch_function hfn, callBlock_branch_cons]
      simp only [bind_assoc, pure_bind]
      refine mirrors_bind (expr_mirrors c fun _ _ => rfl) fun cond _ h => ?_
      subst h
      have harm : ∀ arm, Stmt.blockInFunction arm = true →
          Mirrors (fun code r => code.yields V = r.read V) (lower (arm ++ rest) env none)
            (callBlock V (arm ++ rest) env) :=
        fun arm harm => hlower _ env (by simp [Stmt.blockInFunction_append, harm, hrest])
      have hpick : (if V cond then callBlock V (yes ++ rest) env
          else callBlock V (no.getD [] ++ rest) env) =
          (if V cond then callBlock V (yes ++ rest) env
            else callBlock V (no.getD [] ++ rest) env) >>= pure := by
        rw [bind_pure]
      rw [hpick]
      refine mirrors_arms (V cond) (harm yes hs.1) (harm _ ((Stmt.optionInFunction_getD no) ▸ hs.2))
        fun t o r hr => mirrors_pure ?_
      show (acc.foldr (fun p t => p.apply t) (ifNode cond t o)).yields V = _
      rw [yields_foldr_apply V hacc, Noted.yields_ifNode]
      split at hr <;> simp_all
    | ret v p =>
      rw [walk_ret_function hfn, callBlock_cons]
      cases v with
      | some v =>
        simp only [callStmt, bind_map_left, Return.continue, bind_pure_comp]
        rw [map_eq_pure_bind]
        refine mirrors_bind (expr_mirrors v fun _ _ => rfl) fun x _ h => ?_
        subst h
        exact mirrors_pure (by simp [yields_foldr_apply V hacc, Return.read])
      | none =>
        simp only [callStmt, map_pure, pure_bind, Return.continue]
        exact mirrors_pure (by simp [yields_foldr_apply V hacc, Return.read])
    | fail m p =>
      rw [walk_fail, callBlock_cons]
      simp only [callStmt, pure_bind, Return.continue]
      exact mirrors_pure (by simp [yields_foldr_apply V hacc, Return.read])
    | send | emit | eval => simp [Stmt.inFunction] at hs

/-- Lowering a block of a function with any budget keeps what it yields: a budget of zero never
gives code, and one more level is a walk whose arms are lowered with the budget below. -/
theorem block_yields {ctx : Lowering} (hfn : ctx.function = true) :
    ∀ fuel, CallLowers V (fun ss env stop => block fuel ctx stop ss env)
  | 0 => fun L env _ => by
    simp only [block]
    exact mirrors_bind_left get_reads fun _ => mirrors_fault _ _
  | fuel + 1 => fun L env hL => by
    dsimp only
    rw [block_succ]
    exact (walk_yields V hfn (block_yields hfn fuel) L env [] (by simp) hL).mono
      fun code r h => by simpa using h

theorem body_yields {ctx : Lowering} (hfn : ctx.function = true) (L : List Stmt) (env : Env)
    (hL : Stmt.blockInFunction L = true) :
    Mirrors (fun code r => code.yields V = r.read V) (body ctx L env) (callBlock V L env) := by
  unfold body
  refine mirrors_bind_left get_reads fun g => ?_
  refine mirrors_bind_left (lift_reads _) fun fuel => ?_
  exact block_yields V hfn fuel L env hL

end Generate

end Script

end PuzzleKit
