import PuzzleKit.Proofs.Statements.Call
import PuzzleKit.Proofs.Statements.Accepted

/-!
# The code of a function yields what a call returns

For a function of a coin the check accepts, the code generated for its body, read as a tree of
tests under a valuation `V`, yields what calling its statements under `V` gives
(`function_code_yields`): nothing when the call fails at a `require` or a failure, the code of
the value the `return` it reaches gives, and nil when the call runs off the end of the body,
which never happens when the function declares a return type.

Three facts carry it beyond `body_yields`. The check passes a function only when its statements
may stand in a function and, if it declares a return type, its body ends on every path
(`analyze_callable`). No code of a value is an `if` or a failure, since no name the coin calls
is `if` or `x` (`expr_isValue`), so reading it as a tree of tests takes it as it is
(`callBlock_valued`). And a body that ends on every path never runs off its end
(`callBlock_ended`).
-/

namespace PuzzleKit

open Build

theorem vmSafe_ne_of_reserved {y : String} (hy : y ∈ reservedNames)
    (hend : y.toList.getLast? ≠ some '_') (x : String) : vmSafe x ≠ y := by
  unfold vmSafe
  split
  · intro h
    have hlast := congrArg (fun s => s.toList.getLast?) h
    simp only [String.toList_append, List.getLast?_append] at hlast
    exact hend (by simpa using hlast.symm)
  · rename_i hx
    rintro rfl
    simp only [List.elem_eq_mem, decide_eq_true_eq] at hx
    exact hx hy

theorem Build.ExprOp.isValue_build (o : ExprOp) (e : Noted) (os : List Noted) :
    (o.build e os).IsValue := by
  cases o <;> exact Noted.isValue_call (by decide) (by decide) _

theorem libraryFunction_plain {f vm path : String} (h : libraryFunction f = some (vm, path)) :
    vm ≠ "if" ∧ vm ≠ "x" := by
  obtain ⟨e, he, heq⟩ := Option.map_eq_some_iff.mp h
  have hmem := List.mem_of_find?_eq_some he
  simp only [libraryFunctions, List.mem_flatMap] at hmem
  obtain ⟨file, hfile, n, hn, hen⟩ := hmem
  have hname : e.2.1 = n := by
    split at hen <;> simp only [List.mem_append, List.mem_cons, List.not_mem_nil, or_false] at hen <;>
      rcases hen with rfl | rfl <;> rfl
  have hnames : ∀ file ∈ includeFiles, ∀ n ∈ file.functions ++ file.macros, n ≠ "if" ∧ n ≠ "x" := by
    decide
  have hvm : vm = e.2.1 := by rw [heq]
  rw [hvm, hname]
  exact hnames file hfile n hn

namespace Script

theorem isValue_literalCode (codec : AddressCodec) (l : Literal) :
    (literalCode codec l).IsValue := by
  cases l with
  | int n => exact Noted.isValue_atom _ _ _
  | bool b => cases b <;> exact Noted.isValue_atom _ _ _
  | hex b => exact Noted.isValue_atom _ _ _
  | string s =>
    simp only [literalCode]
    split <;> exact Noted.isValue_atom _ _ _

theorem builtin_plain {f op : String} {rest : String × String × Option Nat}
    (h : builtin? f = some (op, rest)) : op ≠ "if" ∧ op ≠ "x" := by
  obtain ⟨e, he, heq⟩ := Option.map_eq_some_iff.mp h
  have hops : ∀ e ∈ builtins, e.2.1 ≠ "if" ∧ e.2.1 ≠ "x" := by decide
  have hop : op = e.2.1 := by rw [heq]
  rw [hop]
  exact hops e (List.mem_of_find?_eq_some he)

/-- The functions of a checked coin are called in the code by names that are neither `if` nor
`x`. -/
def Analysis.CallsPlain (A : Analysis) : Prop :=
  ∀ s ∈ A.globals, s.kind = .function → s.vmName ≠ "if" ∧ s.vmName ≠ "x"

theorem analyze_callsPlain {coin : CoinDecl} {codec : AddressCodec} {A : Analysis}
    (h : analyze coin codec = .ok A) : A.CallsPlain := by
  intro s hs hk
  have he : s.entry ∈ coin.entries := (analyze_declared h).1 ▸ List.mem_map_of_mem hs
  simp only [CoinDecl.entries, List.mem_append, List.mem_map, Symbol.entry, Prod.mk.injEq] at he
  rcases he with ((((⟨_, _, _, hkind, _⟩ | ⟨_, _, _, hkind, _⟩) | ⟨_, _, _, hkind, _⟩) |
    ⟨_, _, _, hkind, _⟩) | ⟨f, _, _, _, hvm⟩)
  iterate 4 exact absurd (hkind.trans hk) (by decide)
  rw [← hvm]
  exact ⟨vmSafe_ne_of_reserved (by simp [reservedNames]) (by decide) _,
    vmSafe_ne_of_reserved (by simp [reservedNames, operators]) (by decide) _⟩

theorem Stmt.written_assign_op {t : Expr} {op : String} {v : Expr} {p : Pos} {d : Option TypeRef}
    (h : (Stmt.assign t op v p d).written = true) : op = "=" ∨ op = "+=" ∨ op = "-=" := by
  cases d with
  | none =>
    rw [Stmt.written_assign_none] at h
    simpa [or_assoc] using h
  | some ty =>
    cases t <;> simp only [Stmt.written, Bool.and_eq_true, beq_iff_eq, Bool.false_eq_true] at h
    exact .inl h.1

/-! ### What the check shows of a function -/

/-- What a clean check of a function shows of its body: its statements may stand in a function,
and it ends on every path when the function declares a return type. -/
def FunctionDecl.Callable (f : FunctionDecl) : Prop :=
  Stmt.blockInFunction f.body = true ∧ (f.returns.isSome = true → alwaysEnds f.body = true)

namespace Check

theorem stmt_function (ctx : Ctx) (s : Stmt) (c : Checker) :
    ((stmt ctx s).run c).1.function = ctx.function := by
  cases s
  case assign t op v p d =>
    cases d with
    | none => rw [stmt_returns ctx _ (fun _ _ _ _ _ h => by cases h) c]
    | some ty =>
      unfold stmt assign
      dsimp only
      rw [(returns_bind fun _ => returns_guard _ _ _ fun _ =>
        returns_bind fun _ => returns_guard _ _ _ fun _ => returns_pure) c]
  all_goals rw [stmt_returns ctx _ (fun _ _ _ _ _ h => by cases h) c]

theorem statementCall_not_clean {ctx : Ctx} (hfn : ctx.function.isSome = true) (e : Expr)
    (pos : Pos) (c : Checker) : ¬Clean (statementCall ctx e pos) c := by
  intro h
  unfold statementCall at h
  split at h
  · split at h
    · dsimp only at h
      have hno := Clean.guard (fun _ => steady_guard _ _ _ fun _ =>
        steady_bind (steady_foldlM _ (fun _ _ => steady_bind (steady_expectClass _ _ _ _)
          fun _ => steady_pure _) _ _) fun _ => steady_pure _) h
      simp [hfn] at hno
    · exact not_clean_then_fault (steady_expr _ _) h
  · exact not_clean_then_fault (steady_expr _ _) h

mutual

theorem stmt_inFunction {ctx : Ctx} (hfn : ctx.function.isSome = true) :
    ∀ (s : Stmt) (c : Checker), Clean (stmt ctx s) c → s.inFunction = true
  | .require cnd m p, c, h => by
    unfold stmt at h
    dsimp only at h
    split at h
    · have hno := Clean.guard (fun _ => steady_bind (steady_expr _ _) fun _ =>
        steady_guard _ _ _ fun _ => steady_bind (steady_senderCheck p) fun _ => steady_pure _) h
      simp [hfn] at hno
    · rename_i ht
      simp [Stmt.inFunction, ht]
  | .send r a (some m) p, c, h => by
    unfold stmt at h
    have hno := Clean.guard (fun _ => steady_bind (steady_expectClass _ _ _ _) fun _ =>
      steady_bind (steady_expectClass _ _ _ _) fun _ => steady_bind (steady_expr _ _) fun _ =>
        steady_pure _) h
    simp [hfn] at hno
  | .send r a none p, c, h => by
    unfold stmt at h
    have hno := Clean.guard (fun _ => steady_bind (steady_expectClass _ _ _ _) fun _ =>
      steady_bind (steady_expectClass _ _ _ _) fun _ => steady_pure _) h
    simp [hfn] at hno
  | .emit ev args p, c, h => by
    unfold stmt at h
    dsimp only at h
    have hno := Clean.guard (fun _ => steady_bind (steady_eventOf? _) fun l => by
      split
      · exact steady_guard _ _ _ fun _ => steady_bind (steady_paramArgs _ _ _ _) fun _ =>
          steady_pure _
      · exact steady_bind (steady_fault _ _) fun _ => steady_bind (steady_exprs _ _) fun _ =>
          steady_pure _) h
    simp [hfn] at hno
  | .eval e p, c, h => by
    unfold stmt at h
    exact absurd (Clean.bind (steady_statementCall _ _ _) (fun _ => steady_pure _) h).1
      (statementCall_not_clean hfn e p c)
  | .branch cnd yes (some no) p, c, h => by
    unfold stmt at h
    obtain ⟨-, h1⟩ := Clean.bind (steady_expectClass _ _ _ _) (fun _ =>
      steady_bind (steady_stmts _ _) fun _ => steady_bind (steady_stmts _ _) fun _ =>
        steady_pure _) h
    obtain ⟨hyes, h2⟩ := Clean.bind (steady_stmts _ _) (fun _ =>
      steady_bind (steady_stmts _ _) fun _ => steady_pure _) h1
    have hno := (Clean.bind (steady_stmts _ _) (fun _ => steady_pure _) h2).1
    have hfn' : ctx.inner.function.isSome = true := hfn
    simp only [Stmt.inFunction, Stmt.optionInFunction, stmts_inFunction hfn' yes _ hyes,
      stmts_inFunction hfn' no _ hno, Bool.and_self]
  | .branch cnd yes none p, c, h => by
    unfold stmt at h
    obtain ⟨-, h1⟩ := Clean.bind (steady_expectClass _ _ _ _) (fun _ =>
      steady_bind (steady_stmts _ _) fun _ => steady_pure _) h
    have hyes := (Clean.bind (steady_stmts _ _) (fun _ => steady_pure _) h1).1
    have hfn' : ctx.inner.function.isSome = true := hfn
    simp only [Stmt.inFunction, Stmt.optionInFunction, stmts_inFunction hfn' yes _ hyes,
      Bool.and_self]
  | .assign .., _, _ => rfl
  | .ret .., _, _ => rfl
  | .fail .., _, _ => rfl

theorem stmts_inFunction {ctx : Ctx} (hfn : ctx.function.isSome = true) :
    ∀ (ss : List Stmt) (c : Checker), Clean (stmts ctx ss) c → Stmt.blockInFunction ss = true
  | [], _, _ => rfl
  | s :: rest, c, h => by
    unfold stmts at h
    obtain ⟨hs, h1⟩ := Clean.bind (steady_stmt ctx s) (fun ctx' => by
      cases s.ends
      · exact steady_stmts ctx' rest
      · cases rest with
        | nil => exact steady_pure _
        | cons r tail => exact steady_fault _ _) h
    have hfn' : (((stmt ctx s).run c).1).function.isSome = true := by
      rw [stmt_function]
      exact hfn
    simp only [Stmt.blockInFunction, stmt_inFunction hfn s c hs, Bool.true_and]
    -- nothing follows a statement that ends its block, so the rest is checked after it
    cases hend : s.ends
    · rw [hend] at h1
      exact stmts_inFunction hfn' rest _ h1
    · cases rest with
      | nil => rfl
      | cons r tail =>
        rw [hend] at h1
        exact absurd h1 not_clean_fault

end

theorem function_ensures_callable (f : FunctionDecl) :
    Ensures (fun _ => True) (fun _ _ => f.Callable) (function f) := by
  unfold function
  refine ensures_bind (ensures_of_grows (Q := fun _ _ => True) (steady_declareParams _ _).grows
    fun _ _ _ => trivial) fun frame => ?_
  refine ensures_bind (ensures_of_grows (Q := fun _ _ => True) (fun _ => Nat.le_refl _)
    fun _ _ _ => trivial) fun _ => ?_
  refine ensures_bind (ensures_of_grows (Q := fun _ _ => Stmt.blockInFunction f.body = true)
    (steady_stmts _ _).grows fun c _ hclean => stmts_inFunction rfl _ c hclean) fun _ => ?_
  refine ensures_of_grows (fun c => ?_) fun c hbody hclean => ⟨hbody, fun hret => ?_⟩
  · split
    · exact (steady_fault _ _ c).faults
    · exact Nat.le_refl _
  · split at hclean
    · exact absurd hclean not_clean_fault
    · rename_i hok
      simpa [hret] using hok

end Check

theorem function_round_callable (pre : List FunctionDecl) (f : FunctionDecl) :
    Check.Ensures (fun _ => ∀ g ∈ pre, g.Callable) (fun _ _ => ∀ g ∈ pre ++ [f], g.Callable)
      (Check.function f) := by
  refine ⟨(Check.function_ensures_callable f).1, fun c hpre hclean g hg => ?_⟩
  rcases List.mem_append.mp hg with hg | hg
  · exact hpre g hg
  · rw [List.mem_singleton.mp hg]
    exact (Check.function_ensures_callable f).2 c trivial hclean

/-- Every function of a coin the check accepts is callable. -/
theorem analyze_callable {coin : CoinDecl} {codec : AddressCodec} {A : Analysis}
    (h : analyze coin codec = .ok A) : ∀ f ∈ coin.functions, f.Callable := by
  unfold analyze at h
  dsimp only at h
  split at h
  · rename_i hclean
    have hrun := List.length_eq_zero_iff.mpr (List.isEmpty_iff.mp hclean)
    -- that a function is callable is a fact of the function alone, which later steps keep
    have hkeep : ∀ {α : Type} {x : CheckM α} (Φ : Prop), Check.Grows x →
        Check.Ensures (fun _ => Φ) (fun _ _ => Φ) x :=
      fun Φ hx => Check.ensures_of_grows hx fun _ hΦ _ => hΦ
    refine (?_ : Check.Ensures (fun _ => True) (fun _ _ => ∀ f ∈ coin.functions, f.Callable)
      _).2 _ trivial hrun
    refine Check.ensures_bind (hkeep True (Check.declareGlobals_ensures coin).1) fun _ => ?_
    refine Check.ensures_bind (hkeep True Check.steady_coinDecorators.grows) fun _ => ?_
    refine Check.ensures_bind (hkeep True Check.steady_spendPath.grows) fun _ => ?_
    refine Check.ensures_bind (((Check.ensures_forIn (fun pre _ => ∀ f ∈ pre, f.Callable)
      (fun pre f => Check.ensures_bind (function_round_callable pre f) fun _ =>
        (Check.ensures_pure _).mono fun _ _ hc => hc) coin.functions []).pre
      fun _ _ f hf => absurd hf List.not_mem_nil).mono fun _ _ hc => by simpa using hc) fun _ => ?_
    refine Check.ensures_bind (Check.ensures_forIn (fun _ _ => ∀ f ∈ coin.functions, f.Callable)
      (fun _ a => Check.ensures_bind (hkeep _ (Check.action_ensures_bodiesClean a).1) fun _ =>
        (Check.ensures_pure _).mono fun _ _ hc => hc) coin.actions []) fun _ => ?_
    exact hkeep _ Check.steady_resolveIncludes.grows
  · cases h

/-! ### The code of values -/

/-- An environment whose values are all code that reading as a tree of tests takes as it is. -/
def Env.Valued (env : Env) : Prop := ∀ kv ∈ env, kv.2.IsValue

theorem Env.Valued.lookup {env : Env} (h : env.Valued) {k : String} {v : Noted}
    (hv : env.lookup k = some v) : v.IsValue :=
  h _ (mem_of_lookup_eq_some hv)

theorem Env.Valued.bind {env : Env} (h : env.Valued) (k : String) {v : Noted} (hv : v.IsValue) :
    (env.bind k v).Valued := by
  intro kv hkv
  rcases List.mem_cons.mp hkv with rfl | hkv
  · exact hv
  · exact h kv (List.mem_filter.mp hkv).1

theorem Env.valued_params (ps : List Param) (vm : String → String) :
    Env.Valued (ps.reverse.map fun q => (q.name, sym (vm q.name))) := by
  intro kv hkv
  obtain ⟨q, -, rfl⟩ := List.mem_map.mp hkv
  exact Noted.isValue_atom _ _ _

namespace Generate

theorem update_head_plain {op : String} (hop : op = "+=" ∨ op = "-=") :
    (op.take 1).toString ≠ "if" ∧ (op.take 1).toString ≠ "x" := by
  rcases hop with rfl | rfl <;> decide

variable {A : Analysis} {env : Env}

/-- The code of an expression is a value, when the values it reads are. -/
theorem expr_isValue (hA : A.CallsPlain) (henv : env.Valued) :
    ∀ e : Expr, Ensures A Noted.IsValue (expr env e) := by
  intro e
  cases e with
  | lit l _ =>
    simp only [expr]
    exact ensures_bind ensures_get fun g _ => ensures_pure (isValue_literalCode _ _)
  | ident n pos =>
    simp only [expr]
    split
    · rename_i v hv
      exact ensures_pure (henv.lookup hv)
    · refine ensures_bind ensures_get fun g _ => ?_
      split
      · split
        · exact ensures_pure (Noted.isValue_atom _ _ _)
        · exact ensures_fault _ _
      · exact ensures_fault _ _
  | binary op l r pos =>
    simp only [expr]
    refine ensures_bind (expr_ensures env l) fun _ _ => ensures_bind (expr_ensures env r) fun _ _ => ?_
    split
    · exact ensures_pure (ExprOp.isValue_build _ _ _)
    · exact ensures_fault _ _
  | unary op e _ =>
    simp only [expr]
    refine ensures_bind (expr_ensures env e) fun _ _ => ensures_pure ?_
    split
    · exact Noted.isValue_call (by decide) (by decide) _
    · exact Noted.isValue_call (by decide) (by decide) _
  | member o prop pos =>
    simp only [expr]
    split
    · exact (lookup_ensures env _ pos).mono fun _ hv => henv.lookup hv
    · split
      · exact (lookup_ensures env _ pos).mono fun _ hv => henv.lookup hv
      · exact ensures_fault _ _
  | index o k pos =>
    simp only [expr]
    refine ensures_bind (ensures_modify fun _ => rfl) fun _ _ => ?_
    refine ensures_bind (lookup_ensures env _ pos) fun _ _ => ?_
    exact ensures_bind (expr_ensures env k) fun _ _ =>
      ensures_pure (Noted.isValue_call (by decide) (by decide) _)
  | call f args pos =>
    simp only [expr]
    refine ensures_bind (exprs_ensures env args) fun _ _ => ensures_bind ensures_get fun g hg => ?_
    split
    · rename_i hs
      have hmem := List.mem_of_find?_eq_some hs
      rw [hg] at hmem
      obtain ⟨hif, hx⟩ := hA _ hmem rfl
      exact ensures_pure (Noted.isValue_call hif hx _)
    · split
      · rename_i hb
        exact ensures_pure (Noted.isValue_call (builtin_plain hb).1 (builtin_plain hb).2 _)
      · split
        · rename_i hl
          exact ensures_pure (Noted.isValue_call (libraryFunction_plain hl).1
            (libraryFunction_plain hl).2 _)
        · exact ensures_fault _ _

theorem assign_valued (hA : A.CallsPlain) (henv : env.Valued) {op : String}
    (hop : op = "=" ∨ op = "+=" ∨ op = "-=") (t v : Expr) (pos : Pos) :
    Ensures A Env.Valued (assign env t op v pos) := by
  unfold assign
  dsimp only
  split
  · refine ensures_bind (lookup_ensures env _ _) fun _ _ => ?_
    refine ensures_bind (expr_ensures env _) fun _ _ => ensures_bind (expr_ensures env v) fun _ _ => ?_
    exact ensures_bind (ensures_modify fun _ => rfl) fun _ _ =>
      ensures_pure (henv.bind _ (Noted.isValue_call (by decide) (by decide) _))
  · -- the target names a local or a state field, or cannot be assigned
    have hvalue : ∀ key, Ensures A Env.Valued (do
        let value ← expr env v
        if (op == "=") = true then pure (env.bind key value)
        else do
          let old ← lookup env key pos
          pure (env.bind key (if (op == "=") = true then value
            else call (op.take 1).toString [old, value]))) := fun key => by
      refine ensures_bind (expr_isValue hA henv v) fun value hv => ?_
      split
      · exact ensures_pure (henv.bind key hv)
      · -- `+=` and `-=` call `+` or `-` on the old value and the new
        rename_i hne
        have hop' : op = "+=" ∨ op = "-=" := hop.resolve_left (by simpa using hne)
        exact ensures_bind (lookup_ensures env key pos) fun old _ => ensures_pure (henv.bind key
          (Noted.isValue_call (update_head_plain hop').1 (update_head_plain hop').2 _))
    have hkey : ∀ key : String, Ensures A (fun _ => True) (pure key : GenM String) :=
      fun _ => ensures_pure trivial
    split
    · exact ensures_bind (hkey _) fun key _ => hvalue key
    · split
      · exact ensures_bind (hkey _) fun key _ => hvalue key
      · exact ensures_bind (ensures_fault (Q := fun _ => True) _ _) fun key _ => hvalue key
    · exact ensures_bind (ensures_fault (Q := fun _ => True) _ _) fun key _ => hvalue key

/-- How a call ends, each value in it code that reading as a tree of tests takes as it is: the
value returned, or the environment left at the end. -/
def Return.Valued : Return → Prop
  | .failed => True
  | .value v => v.IsValue
  | .ran env => env.Valued

theorem Return.read_of_valued (V : Noted → Bool) {r : Return} (h : r.Valued) :
    r.read V = r.result := by
  cases r with
  | failed => rfl
  | value v => exact h V
  | ran env => rfl

variable (V : Noted → Bool)

mutual

theorem callStmt_valued (hA : A.CallsPlain) :
    ∀ (s : Stmt) (env : Env), s.written = true → env.Valued →
      Ensures A Return.Valued (callStmt V s env)
  | .assign t op v pos d, env, hw, henv => by
    simp only [callStmt, map_eq_pure_bind]
    exact ensures_bind (assign_valued hA henv (Stmt.written_assign_op hw) t v pos) fun _ h =>
      ensures_pure h
  | .branch c yes (some no) p, env, hw, henv => by
    simp only [Stmt.written, Stmt.optionWritten, Bool.and_eq_true] at hw
    rw [callStmt_branch]
    refine ensures_bind (expr_ensures env c) fun cond _ => ?_
    split
    · exact callBlock_valued hA yes env hw.1 henv
    · exact callBlock_valued hA no env hw.2 henv
  | .branch c yes none p, env, hw, henv => by
    simp only [Stmt.written, Stmt.optionWritten, Bool.and_eq_true] at hw
    rw [callStmt_branch]
    refine ensures_bind (expr_ensures env c) fun cond _ => ?_
    split
    · exact callBlock_valued hA yes env hw.1 henv
    · rw [Option.getD_none, callBlock_nil]
      exact ensures_pure henv
  | .require c m p, env, _, henv => by
    simp only [callStmt]
    refine ensures_bind (expr_ensures env c) fun cond _ => ensures_pure ?_
    split
    · exact henv
    · trivial
  | .ret (some v) p, env, _, henv => by
    simp only [callStmt, map_eq_pure_bind]
    exact ensures_bind (expr_isValue hA henv v) fun _ h => ensures_pure h
  | .ret none p, env, _, _ => by
    simp only [callStmt]
    exact ensures_pure fun _ => rfl
  | .fail m p, env, _, _ => by
    simp only [callStmt]
    exact ensures_pure trivial
  | .send .., env, _, henv => by
    simp only [callStmt]
    exact ensures_pure henv
  | .emit .., env, _, henv => by
    simp only [callStmt]
    exact ensures_pure henv
  | .eval .., env, _, henv => by
    simp only [callStmt]
    exact ensures_pure henv

/-- Calling statements of the coin's text from values ends with values. -/
theorem callBlock_valued (hA : A.CallsPlain) :
    ∀ (L : List Stmt) (env : Env), Stmt.blockWritten L = true → env.Valued →
      Ensures A Return.Valued (callBlock V L env)
  | [], env, _, henv => by
    rw [callBlock_nil]
    exact ensures_pure henv
  | s :: rest, env, hw, henv => by
    simp only [Stmt.blockWritten, Bool.and_eq_true] at hw
    rw [callBlock_cons]
    refine ensures_bind (callStmt_valued hA s env hw.1 henv) fun r hr => ?_
    cases r with
    | ran env' => exact callBlock_valued hA rest env' hw.2 hr
    | failed => exact ensures_pure hr
    | value v => exact ensures_pure hr

end

/-! ### Bodies that end on every path -/

/-- Whether a call ended at a `return` or a failure rather than running off its end. -/
def Return.ended : Return → Bool
  | .ran _ => false
  | _ => true

section Always

variable {α β : Type}

/-- Every run of `x` that succeeds gives a result satisfying `Q`. -/
def Always (Q : α → Prop) (x : GenM α) : Prop := ∀ g a g', x.run g = .ok (a, g') → Q a

theorem always_pure {Q : α → Prop} {a : α} (h : Q a) : Always Q (pure a) := by
  intro g b g' hrun
  cases hrun
  exact h

theorem always_bind {P : α → Prop} {Q : β → Prop} {x : GenM α} {f : α → GenM β}
    (hx : Always P x) (hf : ∀ a, P a → Always Q (f a)) : Always Q (x >>= f) := by
  intro g b g' hrun
  obtain ⟨a, g₁, h1, h2⟩ := stateT_bind_ok hrun
  exact hf a (hx g a g₁ h1) g₁ b g' h2

theorem always_true (x : GenM α) : Always (fun _ => True) x := fun _ _ _ _ => trivial

end Always

theorem always_continue_ended {x : GenM Return} (hx : Always (fun r => r.ended = true) x)
    (k : Env → GenM Return) : Always (fun r => r.ended = true) (x >>= Return.continue k) := by
  refine always_bind hx fun r hr => ?_
  cases r with
  | ran env => cases hr
  | failed => exact always_pure rfl
  | value v => exact always_pure rfl

theorem always_continue {x : GenM Return} {k : Env → GenM Return}
    (hk : ∀ env, Always (fun r => r.ended = true) (k env)) :
    Always (fun r => r.ended = true) (x >>= Return.continue k) := by
  refine always_bind (always_true x) fun r _ => ?_
  cases r with
  | ran env => exact hk env
  | failed => exact always_pure rfl
  | value v => exact always_pure rfl

mutual

theorem callStmt_ended : ∀ (s : Stmt), endsAsLast s = true → ∀ env : Env,
    Always (fun r => r.ended = true) (callStmt V s env)
  | .ret (some v) p, _, env => by
    simp only [callStmt, map_eq_pure_bind]
    exact always_bind (always_true _) fun _ _ => always_pure rfl
  | .ret none p, _, env => by
    simp only [callStmt]
    exact always_pure rfl
  | .fail m p, _, env => by
    simp only [callStmt]
    exact always_pure rfl
  | .branch c yes (some no) p, h, env => by
    simp only [endsAsLast, Bool.and_eq_true] at h
    rw [callStmt_branch]
    refine always_bind (always_true _) fun cond _ => ?_
    split
    · exact callBlock_ended yes h.1 env
    · exact callBlock_ended no h.2 env
  | .branch _ _ none _, h, _ | .assign .., h, _ | .send .., h, _ | .emit .., h, _
  | .eval .., h, _ | .require .., h, _ => by simp [endsAsLast] at h

/-- Calling statements that end on every path ends at a `return` or a failure. -/
theorem callBlock_ended : ∀ (L : List Stmt), alwaysEnds L = true → ∀ env : Env,
    Always (fun r => r.ended = true) (callBlock V L env)
  | [], h, _ => by simp [alwaysEnds] at h
  | [s], h, env => by
    rw [callBlock_cons]
    exact always_continue_ended (callStmt_ended s h env) _
  | s :: r :: rest, h, env => by
    simp only [alwaysEnds] at h
    rw [callBlock_cons]
    exact always_continue fun env' => callBlock_ended (r :: rest) h env'

end

/-! ### The code of a function -/

/-- The code generated for the body of a function of a coin the check accepts, in the
environment of its parameters, yields under any valuation `V` of its tests what calling its
statements under `V` gives: nothing when the call fails, the code of the value returned, nil
when it runs off the end, and it never runs off the end when the function declares a return
type. -/
theorem function_code_yields {coin : CoinDecl} {codec : AddressCodec} {A : Analysis}
    (hw : coin.written = true) (ha : analyze coin codec = .ok A) {f : FunctionDecl}
    (hf : f ∈ coin.functions) (V : Noted → Bool) (vm : String → String) {g : Gen}
    (hg : g.analysis = A) {code : Noted} {g' : Gen}
    (hgen : (body { function := true } f.body
      (f.params.reverse.map fun q => (q.name, sym (vm q.name)))).run g = .ok (code, g')) :
    ∃ r g'', (callBlock V f.body (f.params.reverse.map fun q => (q.name, sym (vm q.name)))).run g =
        .ok (r, g'') ∧ code.yields V = r.result ∧ (f.returns.isSome = true → r.ended = true) := by
  obtain ⟨hin, hends⟩ := analyze_callable ha f hf
  have hbody : Stmt.blockWritten f.body = true := by
    simp only [CoinDecl.written, Bool.and_eq_true, List.all_eq_true] at hw
    exact hw.1 f hf
  -- generation and the call run side by side, the call never running off a body that ends
  have hmir : Mirrors (fun code r => code.yields V = r.read V) (body { function := true } f.body
      (f.params.reverse.map fun q => (q.name, sym (vm q.name))))
      (callBlock V f.body (f.params.reverse.map fun q => (q.name, sym (vm q.name)))) :=
    body_yields V rfl f.body _ hin
  obtain ⟨-, hcall⟩ := (hmir.and_right (Q := fun r => f.returns.isSome = true → r.ended = true)
    fun h r h' hrun hret => callBlock_ended V f.body (hends hret) _ h r h' hrun) g code g' hgen
  obtain ⟨r, g'', hrun, -, hread, hend⟩ := hcall g rfl
  have hval := (callBlock_valued V (analyze_callsPlain ha) f.body _ hbody
    (Env.valued_params f.params vm) g r g'' hg hrun).1
  exact ⟨r, g'', hrun, hread.trans (Return.read_of_valued V hval), hend⟩

/-- A function that requires a positive argument, declares a local, may change it in an `if`
with statements after it, adds to it and returns from both arms of a last `if`. -/
def clampFunction : FunctionDecl where
  name := "clamp"
  params := [{ name := "x", type := .named "int", pos := ⟨2, 18⟩ },
    { name := "lo", type := .named "int", pos := ⟨2, 26⟩ }]
  returns := some (.named "int")
  body := [
    .require (.binary ">" (.ident "x" ⟨3, 13⟩) (.lit (.int 0) ⟨3, 17⟩) ⟨3, 15⟩) none ⟨3, 5⟩,
    .assign (.ident "y" ⟨4, 9⟩) "=" (.ident "x" ⟨4, 18⟩) ⟨4, 5⟩ (some (.named "int")),
    .branch (.binary "<" (.ident "x" ⟨5, 9⟩) (.ident "lo" ⟨5, 13⟩) ⟨5, 11⟩)
      [.assign (.ident "y" ⟨5, 19⟩) "=" (.ident "lo" ⟨5, 23⟩) ⟨5, 19⟩ none] none ⟨5, 5⟩,
    .assign (.ident "y" ⟨6, 5⟩) "+=" (.lit (.int 1) ⟨6, 10⟩) ⟨6, 5⟩ none,
    .branch (.binary ">" (.ident "y" ⟨7, 9⟩) (.lit (.int 10) ⟨7, 13⟩) ⟨7, 11⟩)
      [.ret (some (.lit (.int 10) ⟨7, 26⟩)) ⟨7, 19⟩]
      (some [.ret (some (.ident "y" ⟨7, 48⟩)) ⟨7, 41⟩]) ⟨7, 5⟩]
  inline := false
  pos := ⟨2, 3⟩

/-- A coin with the function `clampFunction` and an action that does nothing. -/
def clampCoin : CoinDecl where
  name := "Clamp"
  storageVars := []
  stateVars := []
  consts := []
  functions := [clampFunction]
  actions := [{ name := "spend", params := [], body := [], decorators := [], pos := ⟨9, 3⟩ }]
  events := []
  decorators := []
  includes := []
  pos := ⟨1, 1⟩

theorem function_code_yields_clamp : ∃ A code g', clampCoin.written = true ∧
    analyze clampCoin = .ok A ∧ clampFunction ∈ clampCoin.functions ∧
    (body { function := true } clampFunction.body (clampFunction.params.reverse.map fun q =>
      (q.name, sym (vmSafe (snakeCase q.name))))).run
      { analysis := A, codec := {}, maxDepth := .whole 500 } = .ok (code, g') ∧
    ∃ r g'', (callBlock (fun _ => true) clampFunction.body (clampFunction.params.reverse.map
      fun q => (q.name, sym (vmSafe (snakeCase q.name))))).run
      { analysis := A, codec := {}, maxDepth := .whole 500 } = .ok (r, g'') ∧
      code.yields (fun _ => true) = r.result ∧
      (clampFunction.returns.isSome = true → r.ended = true) := by
  have hw : clampCoin.written = true := by decide +kernel
  have hok : ((analyze clampCoin).toOption.bind fun A =>
      ((body { function := true } clampFunction.body (clampFunction.params.reverse.map fun q =>
        (q.name, sym (vmSafe (snakeCase q.name))))).run
        { analysis := A, codec := {}, maxDepth := .whole 500 }).toOption.map fun _ => ()) =
      some () := by
    decide +kernel
  cases ha : analyze clampCoin with
  | error e => rw [ha] at hok; cases hok
  | ok A =>
    rw [ha] at hok
    cases hgen : (body { function := true } clampFunction.body (clampFunction.params.reverse.map
        fun q => (q.name, sym (vmSafe (snakeCase q.name))))).run
        { analysis := A, codec := {}, maxDepth := .whole 500 } with
    | error e =>
      dsimp only [Except.toOption, Option.bind] at hok
      rw [hgen] at hok
      cases hok
    | ok p =>
      exact ⟨A, p.1, p.2, hw, rfl, List.mem_singleton_self _, hgen,
        function_code_yields hw ha (List.mem_singleton_self _) (fun _ => true)
          (fun n => vmSafe (snakeCase n)) rfl hgen⟩

end Generate

end Script

end PuzzleKit
