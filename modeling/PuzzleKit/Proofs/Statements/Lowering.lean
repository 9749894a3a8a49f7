import PuzzleKit.Proofs.Statements.Mirror

/-!
# Lowering keeps the meaning of an action

The code generated for the statements of an action, read as a tree of condition lists with each
test taken by a valuation `V`, emits what running the statements under `V` emits, and fails
exactly when the run fails. Generation walks a block statement by statement (`walk`); an `if`
either carries the statements after it into both arms or, when neither arm may end the spend or
rebind a value, merges its arms, generated with an empty end, into the code after it.

The proof runs generation and the reference run side by side (`Mirrors`). The environments of
the two may differ: a merged arm's declarations are lost to the code after its `if` but stay in
the reference run. They agree on every key the rest of the block reads, which is what a clean
block (`Block.Clean`) makes sure of.
-/

namespace PuzzleKit.Script

/-- Environments that agree on the keys `K`. -/
def Env.Agree (K : List String) (env₁ env₂ : Env) : Prop := ∀ k ∈ K, env₁.lookup k = env₂.lookup k

theorem Env.Agree.mono {K K' : List String} {env₁ env₂ : Env} (h : Env.Agree K env₁ env₂)
    (hK : ∀ k ∈ K', k ∈ K) : Env.Agree K' env₁ env₂ := fun k hk => h k (hK k hk)

/-- Whether a statement tests or adds a condition: a `require`, a `send`, an `emit` or a
statement call. -/
def Stmt.tests : Stmt → Bool
  | .require .. | .send .. | .emit .. | .eval .. => true
  | _ => false

theorem Stmt.reads_tests {s : Stmt} (hs : s.tests = true) (X A : List String) :
    Stmt.reads X s A = s.keys ++ A := by
  cases s <;> simp_all [Stmt.tests, Stmt.reads]

namespace Generate

open Build

/-! ### Closing a run -/

/-- What the code of a block emits once its statements have run: nothing after a failure, the
exit conditions after a return, and after the last statement what `stop` emits or, with none,
the exit conditions. -/
def Ending.close (V : Noted → Bool) (ctx : Lowering) (stop : Option Noted) :
    Ending → GenM (Option (List Noted))
  | .failed => pure none
  | .returned cs env => (fun xs => some (cs ++ xs)) <$> exitConditions env ctx
  | .ran cs env =>
    match stop with
    | some t => pure ((t.emits V).map (cs ++ ·))
    | none => (fun xs => some (cs ++ xs)) <$> exitConditions env ctx

theorem Ending.close_after (V : Noted → Bool) (ctx : Lowering) (stop : Option Noted)
    (cs : List Noted) (e : Ending) :
    (e.after cs).close V ctx stop = Option.map (cs ++ ·) <$> e.close V ctx stop := by
  cases e with
  | failed => simp [Ending.after, Ending.close]
  | returned ds env => simp [Ending.after, Ending.close]
  | ran ds env => cases stop <;> simp [Ending.after, Ending.close, Function.comp_def]

/-- The code a walk gives: its steps around the code it ended with, else around `stop`, else
around the exit. -/
def finish (ctx : Lowering) (stop : Option Noted) (r : List Piece × Option Noted × Env) :
    GenM Noted :=
  match r.2.1, stop with
  | some t, _ => pure (r.1.foldr (fun p t => p.apply t) t)
  | none, some e => pure (r.1.foldr (fun p t => p.apply t) e)
  | none, none => (fun t => r.1.foldr (fun p t => p.apply t) t) <$> exit r.2.2 ctx

theorem block_succ (fuel : Nat) (ctx : Lowering) (stop : Option Noted) (ss : List Stmt)
    (env : Env) :
    block (fuel + 1) ctx stop ss env =
      walk (fun ss env stop => block fuel ctx stop ss env) ctx stop ss env [] >>= finish ctx stop := by
  simp only [block]
  rfl

/-! ### One statement of a walk and of a run -/

section Walk

variable {lower : List Stmt → Env → Option Noted → GenM Noted} {ctx : Lowering}
  {stop : Option Noted} {rest : List Stmt} {env : Env} {steps : List Piece}

theorem walk_tests {s : Stmt} (hs : s.tests = true) :
    walk lower ctx stop (s :: rest) env steps =
      piece ctx env s >>= fun p => walk lower ctx stop rest env (steps ++ p.toList) := by
  cases s with
  | require c m p =>
    rcases ht : senderTarget? c with _ | t <;> simp [walk, piece, ht]
  | send r a m p => cases m <;> simp [walk, piece]
  | emit ev args p => simp [walk, piece]
  | eval e p => simp [walk, piece]
  | _ => simp [Stmt.tests] at hs

theorem walk_assign (t : Expr) (op : String) (v : Expr) (pos : Pos) (d : Option TypeRef) :
    walk lower ctx stop (.assign t op v pos d :: rest) env steps =
      assign env t op v pos >>= fun env' => walk lower ctx stop rest env' steps := by
  simp only [walk]

theorem walk_ret (hfn : ctx.function = false) (v : Option Expr) (p : Pos) :
    walk lower ctx stop (.ret v p :: rest) env steps =
      (fun t => (steps, some t, env)) <$> exit env ctx := by
  simp [walk, hfn]

theorem walk_fail (m : Option String) (p : Pos) :
    walk lower ctx stop (.fail m p :: rest) env steps = pure (steps, some (failNode m), env) := by
  simp only [walk]

theorem walk_branch (hfn : ctx.function = false) (c : Expr) (yes : List Stmt)
    (no : Option (List Stmt)) (p : Pos) :
    walk lower ctx stop (.branch c yes no p :: rest) env steps = (do
      let cond ← expr env c
      if (needsRest yes || needsRest (no.getD [])) = true then do
        let t ← lower (yes ++ rest) env stop
        let o ← lower (no.getD [] ++ rest) env stop
        pure (steps, some (ifNode cond t o), env)
      else do
        let t ← lower yes env (some Noted.nil)
        let o ← lower (no.getD []) env (some Noted.nil)
        if (t.isNil && o.isNil) = true then walk lower ctx stop rest env steps
        else do
          modify fun g => { g with usesMerge := true }
          walk lower ctx stop rest env (steps ++ [Piece.merge (ifNode cond t o)])) := by
  simp only [walk, hfn, Bool.false_or]

end Walk

/-- How the run of a statement that tests or adds a condition ends, from the step it makes. -/
def Piece.ending (V : Noted → Bool) (env : Env) : Option Piece → Ending
  | some (.require c _) => if V c then .ran [] env else .failed
  | some (.cons c) => .ran [c] env
  | _ => .ran [] env

theorem runStmt_tests (V : Noted → Bool) (ctx : Lowering) {s : Stmt} (hs : s.tests = true)
    (env : Env) : runStmt V ctx s env = Piece.ending V env <$> piece ctx env s := by
  rw [runStmt.eq_6 _ _ _ _ (by cases s <;> simp_all [Stmt.tests]) (by cases s <;> simp_all [Stmt.tests])
    (by cases s <;> simp_all [Stmt.tests]) (by cases s <;> simp_all [Stmt.tests]),
    ← bind_pure_comp]
  congr 1
  funext p
  rcases p with _ | (_ | _ | _) <;> rfl

theorem runStmt_branch (V : Noted → Bool) (ctx : Lowering) (c : Expr) (yes : List Stmt)
    (no : Option (List Stmt)) (p : Pos) (env : Env) :
    runStmt V ctx (.branch c yes no p) env =
      expr env c >>= fun cond => runBlock V ctx (if V cond then yes else no.getD []) env := by
  cases no with
  | some ss =>
    rw [runStmt.eq_2]
    congr 1
    funext cond
    split <;> rfl
  | none =>
    rw [runStmt.eq_3]
    congr 1
    funext cond
    split
    · rfl
    · exact (runBlock_nil V ctx env).symm

theorem runBlock_branch_cons (V : Noted → Bool) (ctx : Lowering) (c : Expr) (yes : List Stmt)
    (no : Option (List Stmt)) (p : Pos) (rest : List Stmt) (env : Env) :
    runBlock V ctx (.branch c yes no p :: rest) env =
      expr env c >>= fun cond =>
        if V cond then runBlock V ctx (yes ++ rest) env
        else runBlock V ctx (no.getD [] ++ rest) env := by
  rw [runBlock_cons, runStmt_branch, bind_assoc]
  congr 1
  funext cond
  split <;> rw [runBlock_append]

/-! ### Arms that are merged -/

/-- How a run that never returns ends: with a failure, or off its end in an environment that
differs from `env` only on the keys `D`. -/
def Ending.Quiet (D : List String) (env : Env) : Ending → Prop
  | .failed => True
  | .returned _ _ => False
  | .ran _ env' => ∀ k ∉ D, env'.lookup k = env.lookup k

theorem Ending.Quiet.mono {D D' : List String} {env : Env} {e : Ending} (h : e.Quiet D env)
    (hD : ∀ k ∈ D, k ∈ D') : e.Quiet D' env := by
  cases e with
  | failed => trivial
  | returned => exact h.elim
  | ran cs env' => exact fun k hk => h k fun hkD => hk (hD k hkD)

theorem assign_binds {env env' : Env} {t : Expr} {op : String} {v : Expr} {pos : Pos} {g g' : Gen}
    (h : (assign env t op v pos).run g = .ok (env', g')) :
    ∃ x, env' = env.bind (assignKey t) x := by
  obtain ⟨-, hy⟩ := @assign_mirrors env env t op v pos none (fun _ _ => rfl) g env' g' h
  obtain ⟨_, _, -, -, x, hx, -⟩ := hy g rfl
  exact ⟨x, hx⟩

theorem Piece.ending_quiet (V : Noted → Bool) (D : List String) (env : Env) (p : Option Piece) :
    (Piece.ending V env p).Quiet D env := by
  rcases p with _ | (c | n | ⟨c, m⟩)
  · exact fun _ _ => rfl
  · exact fun _ _ => rfl
  · exact fun _ _ => rfl
  · simp only [Piece.ending]
    split
    · exact fun _ _ => rfl
    · trivial

theorem runStmt_tests_quiet (V : Noted → Bool) (ctx : Lowering) {s : Stmt} (hs : s.tests = true)
    {env : Env} {D : List String} {g : Gen} {e : Ending} {g' : Gen}
    (hrun : (runStmt V ctx s env).run g = .ok (e, g')) : e.Quiet D env := by
  rw [runStmt_tests V ctx hs] at hrun
  obtain ⟨p, -, rfl⟩ := stateT_map_ok hrun
  exact Piece.ending_quiet V D env p

theorem stmtNeedsRest_branch (c : Expr) (yes : List Stmt) (no : Option (List Stmt)) (p : Pos) :
    stmtNeedsRest (.branch c yes no p) = (needsRest yes || needsRest (no.getD [])) := by
  cases no <;> rw [stmtNeedsRest] <;> rfl

mutual

theorem runBlock_quiet (V : Noted → Bool) (ctx : Lowering) :
    ∀ (ss : List Stmt) (env : Env) {g : Gen} {e : Ending} {g' : Gen}, needsRest ss = false →
      (runBlock V ctx ss env).run g = .ok (e, g') → e.Quiet (Block.declared ss) env
  | [], env, g, e, g', _, hrun => by
    rw [runBlock_nil] at hrun
    cases hrun
    exact fun _ _ => rfl
  | s :: rest, env, g, e, g', hq, hrun => by
    simp only [needsRest, Bool.or_eq_false_iff] at hq
    rw [runBlock_cons] at hrun
    obtain ⟨e₁, g₁, h1, h2⟩ := stateT_bind_ok hrun
    have hs := runStmt_quiet V ctx s env hq.1 h1
    cases e₁ with
    | failed =>
      cases h2
      trivial
    | returned => exact hs.elim
    | ran cs env₁ =>
      obtain ⟨e₂, h3, rfl⟩ := stateT_map_ok h2
      have hr := runBlock_quiet V ctx rest env₁ hq.2 h3
      cases e₂ with
      | failed => trivial
      | returned => exact hr.elim
      | ran ds env₂ =>
        intro k hk
        simp only [Block.declared, List.mem_append, not_or] at hk
        exact (hr k hk.2).trans (hs k hk.1)

theorem runStmt_quiet (V : Noted → Bool) (ctx : Lowering) :
    ∀ (s : Stmt) (env : Env) {g : Gen} {e : Ending} {g' : Gen}, stmtNeedsRest s = false →
      (runStmt V ctx s env).run g = .ok (e, g') → e.Quiet (Stmt.declared s) env
  | .assign t op v pos d, env, g, e, g', hq, hrun => by
    cases d with
    | none =>
      rw [stmtNeedsRest] at hq
      cases hq
    | some ty =>
      rw [runStmt.eq_1] at hrun
      obtain ⟨env', g₁, h1, h2⟩ := stateT_bind_ok hrun
      cases h2
      obtain ⟨x, rfl⟩ := assign_binds h1
      intro k hk
      rw [Env.lookup_bind, if_neg (fun h => hk (by simp [Stmt.declared, h]))]
  | .branch c yes no p, env, g, e, g', hq, hrun => by
    rw [stmtNeedsRest_branch, Bool.or_eq_false_iff] at hq
    rw [runStmt_branch] at hrun
    obtain ⟨cond, g₁, -, h2⟩ := stateT_bind_ok hrun
    -- the arm the test picks declares only what the `if` declares
    by_cases hc : V cond = true
    · rw [if_pos hc] at h2
      exact (runBlock_quiet V ctx yes env hq.1 h2).mono fun k hk => by
        simp [Stmt.declared, hk]
    · rw [if_neg hc] at h2
      cases no with
      | none =>
        rw [Option.getD_none, runBlock_nil] at h2
        cases h2
        exact fun _ _ => rfl
      | some ss =>
        exact (runBlock_quiet V ctx ss env hq.2 h2).mono fun k hk => by
          simp [Stmt.declared, Block.declaredOpt, hk]
  | .ret v p, env, g, e, g', hq, _ => by
    rw [stmtNeedsRest] at hq
    cases hq
  | .fail m p, env, g, e, g', hq, _ => by
    rw [stmtNeedsRest] at hq
    cases hq
  | .require c m p, env, g, e, g', _, hrun => runStmt_tests_quiet V ctx rfl hrun
  | .send r a m p, env, g, e, g', _, hrun => runStmt_tests_quiet V ctx rfl hrun
  | .emit ev args p, env, g, e, g', _, hrun => runStmt_tests_quiet V ctx rfl hrun
  | .eval x p, env, g, e, g', _, hrun => runStmt_tests_quiet V ctx rfl hrun

end

/-- What a run that never returns emits: nothing after a failure, its conditions otherwise. -/
def Ending.emitted : Ending → Option (List Noted)
  | .failed => none
  | .returned cs _ | .ran cs _ => some cs

theorem Mirrors.merged_arm {V : Noted → Bool} {ctx : Lowering} {x : GenM Noted} {y : GenM Ending}
    {D : List String} {env : Env}
    (hx : Mirrors (fun code o => code.emits V = o) x (y >>= Ending.close V ctx (some Noted.nil)))
    (hq : ∀ h e h', y.run h = .ok (e, h') → e.Quiet D env) :
    Mirrors (fun code e => code.emits V = e.emitted ∧ e.Quiet D env) x y := by
  intro g a g' hrun
  obtain ⟨hg, hy⟩ := hx g a g' hrun
  refine ⟨hg, fun h hh => ?_⟩
  obtain ⟨o, h', hrun', hh', hao⟩ := hy h hh
  obtain ⟨e, h₁, h1, h2⟩ := stateT_bind_ok hrun'
  have he := hq h e h₁ h1
  -- a quiet run is closed by `pure`, so the state after it is the state after the arm
  cases e with
  | failed =>
    cases h2
    exact ⟨.failed, h', h1, hh', hao, he⟩
  | returned => exact he.elim
  | ran cs env' =>
    cases h2
    exact ⟨.ran cs env', h', h1, hh', by simpa [Ending.emitted] using hao, he⟩

theorem Piece.ending_continue (V : Noted → Bool) (ctx : Lowering) (stop : Option Noted)
    (env : Env) (k : Env → GenM Ending) (p : Option Piece) :
    (Piece.ending V env p).continue k >>= Ending.close V ctx stop =
      match p with
      | some (.require c _) => if V c then k env >>= Ending.close V ctx stop else pure none
      | some (.cons c) => Option.map (c :: ·) <$> (k env >>= Ending.close V ctx stop)
      | _ => k env >>= Ending.close V ctx stop := by
  rcases p with _ | (c | n | ⟨c, m⟩)
  · simp [Piece.ending, Ending.continue]
  · simp [Piece.ending, Ending.continue, Ending.close_after, map_bind]
  · simp [Piece.ending, Ending.continue]
  · simp only [Piece.ending]
    split
    · simp [Ending.continue]
    · simp [Ending.continue, Ending.close]

/-! ### Generation mirrors the run -/

theorem merged_rest_mirrors (V : Noted → Bool) {ctx : Lowering} {stop : Option Noted}
    {lower : List Stmt → Env → Option Noted → GenM Noted} {rest : List Stmt} {env₁ env₂ : Env}
    {acc : List Piece} {D : List String}
    (hrest : ∀ (acc' : List Piece) (env' : Env),
      Env.Agree (Block.reads (exitKeys ctx) rest) env₁ env' →
      Mirrors (fun code o => code.emits V = acc'.foldr (Piece.follow V) o)
        (walk lower ctx stop rest env₁ acc' >>= finish ctx stop)
        (runBlock V ctx rest env' >>= Ending.close V ctx stop))
    (hD : ∀ k ∈ D, k ∉ Block.reads (exitKeys ctx) rest)
    (hag : Env.Agree (Block.reads (exitKeys ctx) rest) env₁ env₂)
    {cond t o : Noted} {e : Ending} (he : e.Quiet D env₂)
    (hm : (ifNode cond t o).emits V = e.emitted) :
    Mirrors (fun code o => code.emits V = acc.foldr (Piece.follow V) o)
      ((if (t.isNil && o.isNil) = true then walk lower ctx stop rest env₁ acc
        else do
          modify fun g => { g with usesMerge := true }
          walk lower ctx stop rest env₁ (acc ++ [Piece.merge (ifNode cond t o)])) >>=
        finish ctx stop)
      (e.continue (runBlock V ctx rest) >>= Ending.close V ctx stop) := by
  have hnil : (t.isNil && o.isNil) = true → (ifNode cond t o).emits V = some [] := by
    intro h
    simp only [Bool.and_eq_true] at h
    simp [Noted.emits_of_isNil h.1, Noted.emits_of_isNil h.2]
  cases e with
  | returned => exact he.elim
  | failed =>
    have hne : (t.isNil && o.isNil) = false :=
      Bool.eq_false_iff.mpr fun h => by simp [hnil h, Ending.emitted] at hm
    simp only [hne, Bool.false_eq_true, ↓reduceIte, bind_assoc, Ending.continue, pure_bind,
      Ending.close]
    refine mirrors_modify_left (fun _ => rfl) ((hrest _ env₁ fun _ _ => rfl).to_pure
      fun code o' h => ?_)
    simp [h, List.foldr_append, Piece.follow, hm, Ending.emitted]
  | ran cs env' =>
    -- the statements after the `if` read no name the arms declare
    have hag' : Env.Agree (Block.reads (exitKeys ctx) rest) env₁ env' :=
      fun k hk => (hag k hk).trans (he k fun hkD => hD k hkD hk).symm
    simp only [Ending.continue, bind_map_left, Ending.close_after, ← map_bind]
    split
    · rename_i h
      have hcs : cs = [] := by simpa [hnil h, Ending.emitted] using hm
      subst hcs
      exact (hrest acc env' hag').map_right fun code o' h => by simp [h]
    · rw [bind_assoc]
      refine mirrors_modify_left (fun _ => rfl) ((hrest _ env' hag').map_right
        fun code o' h => ?_)
      simp [h, List.foldr_append, Piece.follow, hm, Ending.emitted]

/-- `lower` generates the code of a clean block so that it emits what running the block emits,
closed with the `stop` it is given. -/
def Lowers (V : Noted → Bool) (ctx : Lowering)
    (lower : List Stmt → Env → Option Noted → GenM Noted) : Prop :=
  ∀ (stop : Option Noted) (L : List Stmt) (env₁ env₂ : Env), Block.Clean (exitKeys ctx) L →
    Env.Agree (Block.reads (exitKeys ctx) L) env₁ env₂ →
    Mirrors (fun code o => code.emits V = o) (lower L env₁ stop)
      (runBlock V ctx L env₂ >>= Ending.close V ctx stop)

/-- Walking a clean block of an action, with its arms generated by a `lower` that keeps their
meaning, gives code that emits, after the steps `acc` it started with, what running the block
emits. The walk goes statement by statement, the environments agreeing on what the rest of the
block reads. -/
theorem walk_mirrors (V : Noted → Bool) {ctx : Lowering} (hfn : ctx.function = false)
    {lower : List Stmt → Env → Option Noted → GenM Noted} (hlower : Lowers V ctx lower)
    (stop : Option Noted) :
    ∀ (L : List Stmt) (env₁ env₂ : Env) (acc : List Piece), Block.Clean (exitKeys ctx) L →
      Env.Agree (Block.reads (exitKeys ctx) L) env₁ env₂ →
      Mirrors (fun code o => code.emits V = acc.foldr (Piece.follow V) o)
        (walk lower ctx stop L env₁ acc >>= finish ctx stop)
        (runBlock V ctx L env₂ >>= Ending.close V ctx stop)
  | [], env₁, env₂, acc, _, hag => by
    simp only [walk, runBlock_nil, pure_bind]
    cases stop with
    | some t => exact mirrors_pure (by simp [emits_foldr_apply])
    | none =>
      simp only [finish, Ending.close]
      exact (exit_mirrors V ctx hag).map fun code xs h => by simp [emits_foldr_apply, h]
  | s :: rest, env₁, env₂, acc, hc, hag => by
    have htests : s.tests = true → Block.Clean (exitKeys ctx) rest →
        Mirrors (fun code o => code.emits V = acc.foldr (Piece.follow V) o)
          (walk lower ctx stop (s :: rest) env₁ acc >>= finish ctx stop)
          (runBlock V ctx (s :: rest) env₂ >>= Ending.close V ctx stop) := by
      intro hs hrest
      have hag' : Env.Agree (s.keys ++ Block.reads (exitKeys ctx) rest) env₁ env₂ := by
        simpa [Stmt.reads_tests hs] using hag
      rw [walk_tests hs, runBlock_cons, runStmt_tests V ctx hs, bind_assoc, bind_map_left,
        bind_assoc]
      refine mirrors_bind (piece_mirrors ctx s fun k hk => hag' k (List.mem_append_left _ hk))
        fun p q hpq => ?_
      obtain ⟨hpq, hp⟩ := hpq
      subst hpq
      rw [Piece.ending_continue V ctx stop env₂ _ p]
      have ih := walk_mirrors V hfn hlower stop rest env₁ env₂ (acc ++ p.toList) hrest
        (hag'.mono fun k hk => List.mem_append_right _ hk)
      rcases p with _ | (c | n | ⟨c, m⟩)
      · simpa using ih
      · exact ih.map_right fun code o h => by simp [h, Piece.follow]
      · exact absurd rfl (hp n)
      · dsimp only
        by_cases hV : V c = true
        · simpa [hV, Piece.follow] using ih
        · rw [if_neg hV]
          exact ih.to_pure fun code o h => by simp [h, Piece.follow, hV]
    cases s with
    | require c m p => cases hc with | step _ hrest => exact htests rfl hrest
    | send r a m p => cases hc with | step _ hrest => exact htests rfl hrest
    | emit ev args p => cases hc with | step _ hrest => exact htests rfl hrest
    | eval e p => cases hc with | step _ hrest => exact htests rfl hrest
    | assign t op v pos d =>
      cases hc with
      | step _ hrest =>
        rw [walk_assign, runBlock_cons, runStmt.eq_1]
        simp only [bind_assoc]
        refine mirrors_bind (assign_mirrors t op v pos d fun k hk => hag k ?_)
          fun e₁ e₂ he => ?_
        · simp [Stmt.reads, hk]
        · obtain ⟨x, he₁, he₂⟩ := he
          subst he₁ he₂
          simp only [pure_bind, Ending.continue, Ending.after_nil, id_map]
          refine walk_mirrors V hfn hlower stop rest _ _ acc hrest fun k hk => ?_
          rw [Env.lookup_bind, Env.lookup_bind]
          split
          · rfl
          · exact hag k (by simp [Stmt.reads, *])
    | ret v p =>
      rw [walk_ret hfn, runBlock_cons, runStmt.eq_4, pure_bind]
      simp only [Ending.continue, pure_bind, Ending.close, bind_map_left, finish, bind_pure_comp]
      exact (exit_mirrors V ctx (hag.mono fun k hk => by simpa [Stmt.reads] using hk)).map
        fun code xs h => by simp [emits_foldr_apply, h]
    | fail m p =>
      rw [walk_fail, runBlock_cons, runStmt.eq_5, pure_bind, pure_bind]
      exact mirrors_pure (by simp [emits_foldr_apply])
    | branch c yes no p =>
      cases hc with
      | step hs _ => exact absurd rfl (hs c yes no p)
      | branch hdecl hyes hno hyr hnr hrest =>
        have hag' : Env.Agree (c.keys ++ Block.reads (exitKeys ctx) yes ++
            Block.reads (exitKeys ctx) (no.getD []) ++ Block.reads (exitKeys ctx) rest) env₁ env₂ := by
          simpa [Stmt.reads, Block.readsOpt_eq] using hag
        have hagr : Env.Agree (Block.reads (exitKeys ctx) rest) env₁ env₂ :=
          hag'.mono fun k hk => by simp [hk]
        rw [walk_branch hfn, runBlock_branch_cons]
        simp only [bind_assoc]
        refine mirrors_bind (expr_mirrors c fun k hk => hag' k (by simp [hk])) fun cond _ h => ?_
        subst h
        by_cases hneed : (needsRest yes || needsRest (no.getD [])) = true
        · -- the arms carry the statements after the `if`
          rw [if_pos hneed]
          have harm : ∀ arm, Block.Clean (exitKeys ctx) (arm ++ rest) →
              (∀ k ∈ Block.reads (exitKeys ctx) arm, k ∈ Block.reads (exitKeys ctx)
                (.branch c yes no p :: rest)) →
              Mirrors (fun code o => code.emits V = o) (lower (arm ++ rest) env₁ stop)
                (runBlock V ctx (arm ++ rest) env₂ >>= Ending.close V ctx stop) :=
            fun arm harm hsub => hlower stop _ env₁ env₂ harm fun k hk =>
              (Block.mem_reads_append arm rest hk).elim (fun h => hag k (hsub k h))
                (fun h => hagr k h)
          have hpick : (if V cond then runBlock V ctx (yes ++ rest) env₂
              else runBlock V ctx (no.getD [] ++ rest) env₂) >>= Ending.close V ctx stop =
              (if V cond then runBlock V ctx (yes ++ rest) env₂ >>= Ending.close V ctx stop
                else runBlock V ctx (no.getD [] ++ rest) env₂ >>= Ending.close V ctx stop) >>=
                pure := by
            rw [bind_pure]
            split <;> rfl
          rw [hpick]
          simp only [bind_assoc, pure_bind]
          refine mirrors_arms (V cond)
            (harm yes hyr fun k hk => by simp [Stmt.reads, hk])
            (harm _ hnr fun k hk => by simp [Stmt.reads, Block.readsOpt_eq, hk])
            fun t o r hr => ?_
          simp only [finish]
          refine mirrors_pure ?_
          simp only [emits_foldr_apply, Noted.emits_ifNode]
          split at hr <;> simp_all
        · -- the arms are merged into the code after the `if`
          rw [if_neg hneed]
          simp only [Bool.or_eq_true, not_or, Bool.not_eq_true] at hneed
          have harm : ∀ arm, needsRest arm = false → Block.Clean (exitKeys ctx) arm →
              (∀ k ∈ Block.reads (exitKeys ctx) arm, k ∈ Block.reads (exitKeys ctx)
                (.branch c yes no p :: rest)) →
              (∀ k ∈ Block.declared arm, k ∈ Stmt.declared (.branch c yes no p)) →
              Mirrors (fun code e => code.emits V = e.emitted ∧
                  e.Quiet (Stmt.declared (.branch c yes no p)) env₂)
                (lower arm env₁ (some Noted.nil)) (runBlock V ctx arm env₂) :=
            fun arm hq harm hsub hdecl => ((hlower (some Noted.nil) arm env₁ env₂ harm
              fun k hk => hag k (hsub k hk)).merged_arm
                fun _ _ _ h => runBlock_quiet V ctx arm env₂ hq h).mono
                  fun _ _ h => ⟨h.1, h.2.mono hdecl⟩
          have hpick : (if V cond then runBlock V ctx (yes ++ rest) env₂
              else runBlock V ctx (no.getD [] ++ rest) env₂) >>= Ending.close V ctx stop =
              (if V cond then runBlock V ctx yes env₂ else runBlock V ctx (no.getD []) env₂) >>=
                fun e => e.continue (runBlock V ctx rest) >>= Ending.close V ctx stop := by
            split <;> rw [runBlock_append, bind_assoc]
          rw [hpick]
          simp only [bind_assoc]
          refine mirrors_arms (V cond)
            (harm yes hneed.1 hyes (fun k hk => by simp [Stmt.reads, hk])
              fun k hk => by simp [Stmt.declared, hk])
            (harm _ hneed.2 hno (fun k hk => by simp [Stmt.reads, Block.readsOpt_eq, hk])
              fun k hk => by simp [Stmt.declared, Block.declaredOpt_eq, hk])
            fun t o e he => ?_
          have he' : (ifNode cond t o).emits V = e.emitted ∧
              e.Quiet (Stmt.declared (.branch c yes no p)) env₂ := by
            rw [Noted.emits_ifNode]
            split at he <;> simp_all
          exact merged_rest_mirrors V
            (fun acc' env' hag'' => walk_mirrors V hfn hlower stop rest env₁ env' acc' hrest hag'')
            hdecl hagr he'.2 he'.1

end Generate

end PuzzleKit.Script
