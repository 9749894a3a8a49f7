import PuzzleKit.Proofs.Statements.Lowering

/-!
# The code of an action keeps its meaning

The code generated for an action, read as a tree of condition lists with each test taken by a
valuation `V`, emits what a spend of the action emits under `V` (`runAction`): the signature its
access rule asks for, the assertion of its amount, the conditions of its statements in the order
they run and the coin it recreates; and it fails exactly when that spend fails.

Each `if` level of generation is one unit of its budget, so the lowering of a block is shown to
keep the meaning of the block by induction on the budget (`block_lowers`), from the walk of one
level (`walk_mirrors`). The access check and the amount come around the code of the body in
generation but before it in the spend; neither reads what the body gives, so the two are run
side by side with those steps swapped (`mirrors_swap`).
-/

namespace PuzzleKit.Script

namespace Generate

open Build

variable {α β γ δ : Type}

/-- Steps of generation that only read the state may come before the code: what follows mirrors
`y` whatever they give. -/
theorem mirrors_bind_left {R : α → β → Prop} {x : GenM γ} {f : γ → GenM α} {y : GenM β}
    (hx : ∀ g c g', x.run g = .ok (c, g') → g' = g) (hf : ∀ c, Mirrors R (f c) y) :
    Mirrors R (x >>= f) y := by
  intro g a g' hrun
  obtain ⟨c, g₁, h1, h2⟩ := stateT_bind_ok hrun
  rw [hx g c g₁ h1] at h2
  exact hf c g a g' h2

theorem mirrors_bind_throw {R : α → β → Prop} {x : GenM γ} {f : γ → δ → GenM α} {y : GenM β}
    (e : Failure) : Mirrors R (x >>= fun c => throw e >>= f c) y := by
  intro g a g' hrun
  obtain ⟨c, g₁, -, h2⟩ := stateT_bind_ok hrun
  obtain ⟨_, _, h3, -⟩ := stateT_bind_ok h2
  cases h3

/-- A run from a state of generation that reads the state first: what follows the read mirrors
for that state, so the whole runs do. -/
theorem Mirrors.run_get {R : α → β → Prop} {f : Gen → GenM α} {k : Gen → GenM β} {g : Gen}
    (h : Mirrors R (f g) (k g)) {a : α} {g' : Gen} (hrun : (get >>= f).run g = .ok (a, g')) :
    ∃ b h', (get >>= k).run g = .ok (b, h') ∧ R a b := by
  obtain ⟨-, hy⟩ := h g a g' hrun
  obtain ⟨b, h', hk, -, hab⟩ := hy g rfl
  exact ⟨b, h', hk, hab⟩

theorem get_reads (g c g' : Gen) (h : (get : GenM Gen).run g = .ok (c, g')) : g' = g := by
  cases h
  rfl

theorem lift_reads (r : Except Failure γ) (g : Gen) (c : γ) (g' : Gen)
    (h : (StateT.lift r : GenM γ).run g = .ok (c, g')) : g' = g := by
  cases r with
  | error e => cases h
  | ok b => cases h; rfl

/-- Lowering a block with any budget keeps its meaning: a budget of zero never gives code, and
one more level is a walk whose arms are lowered with the budget below. -/
theorem block_lowers (V : Noted → Bool) {ctx : Lowering} (hfn : ctx.function = false) :
    ∀ fuel, Lowers V ctx (fun ss env stop => block fuel ctx stop ss env)
  | 0 => fun stop L env₁ env₂ _ _ => by
    simp only [block]
    exact mirrors_bind_left get_reads fun _ => mirrors_fault _ _
  | fuel + 1 => fun stop L env₁ env₂ hc hag => by
    dsimp only
    rw [block_succ]
    exact (walk_mirrors V hfn (block_lowers V hfn fuel) stop L env₁ env₂ [] hc hag).mono
      fun code o h => by simpa using h

theorem body_mirrors (V : Noted → Bool) {ctx : Lowering} (hfn : ctx.function = false)
    (L : List Stmt) (env₁ env₂ : Env) (hc : Block.Clean (exitKeys ctx) L)
    (hag : Env.Agree (Block.reads (exitKeys ctx) L) env₁ env₂) :
    Mirrors (fun code o => code.emits V = o) (body ctx L env₁)
      (runBlock V ctx L env₂ >>= Ending.close V ctx none) := by
  unfold body
  refine mirrors_bind_left get_reads fun g => ?_
  refine mirrors_bind_left (lift_reads _) fun fuel => ?_
  exact block_lowers V hfn fuel none L env₁ env₂ hc hag

theorem close_mirrors (V : Noted → Bool) (ctx : Lowering) (e : Ending) :
    Mirrors Eq (e.close V ctx none) (e.close V ctx none) := by
  cases e with
  | failed => exact mirrors_pure rfl
  | returned cs env => exact (exitConditions_mirrors ctx fun _ _ => rfl).map fun _ _ h => by rw [h]
  | ran cs env => exact (exitConditions_mirrors ctx fun _ _ => rfl).map fun _ _ h => by rw [h]

theorem guarded_body_mirrors (V : Noted → Bool) (access : List Expr) (signer message : Noted)
    {ctx : Lowering} (hfn : ctx.function = false) (L : List Stmt) (env : Env)
    (hc : Block.Clean (exitKeys ctx) L) (wrap : Noted → Noted) (pre₀ : List Noted)
    (hwrap : ∀ out, (wrap out).emits V = (out.emits V).map (pre₀ ++ ·))
    (k : Option (List Noted) → Ending → GenM (Option (List Noted)))
    (hnone : ∀ e, k none e = pure none) (hfailed : ∀ pre, k (some pre) .failed = pure none)
    (hran : ∀ pre cs env', k (some pre) (.ran cs env') =
      exitConditions env' ctx >>= fun xs => pure (some (pre ++ pre₀ ++ cs ++ xs)))
    (hret : ∀ pre cs env', k (some pre) (.returned cs env') =
      exitConditions env' ctx >>= fun xs => pure (some (pre ++ pre₀ ++ cs ++ xs))) :
    Mirrors (fun code o => code.emits V = o)
      (body ctx L env >>= fun out => signerCheck access signer message (wrap out))
      (signerGuard V access signer message >>= fun guard => runBlock V ctx L env >>= k guard) := by
  refine mirrors_swap (S := fun out c guard =>
    c.emits V = guard.bind fun pre => ((wrap out).emits V).map (pre ++ ·))
    (fun out => signerCheck_mirrors V access signer message (wrap out)) fun guard => ?_
  have hk : ∀ e, Mirrors (fun o d => d = guard.bind fun pre => o.map fun l => pre ++ (pre₀ ++ l))
      (e.close V ctx none) (k guard e) := by
    intro e
    cases guard with
    | none =>
      rw [hnone]
      exact (close_mirrors V ctx e).to_pure fun _ _ _ => rfl
    | some pre =>
      have hexit : ∀ cs env', Mirrors (fun o d => d = (some pre).bind fun pre => o.map
          fun l => pre ++ (pre₀ ++ l)) ((fun xs => some (cs ++ xs)) <$> exitConditions env' ctx)
          (exitConditions env' ctx >>= fun xs => pure (some (pre ++ pre₀ ++ cs ++ xs))) := by
        intro cs env'
        rw [bind_pure_comp]
        exact (exitConditions_mirrors ctx fun _ _ => rfl).map fun _ _ h => by simp [h]
      cases e with
      | failed => rw [hfailed]; exact mirrors_pure rfl
      | returned cs env' => rw [hret]; exact hexit cs env'
      | ran cs env' => rw [hran]; exact hexit cs env'
  refine ((body_mirrors V hfn L env env hc fun _ _ => rfl).bind_right hk).mono ?_
  rintro out d ⟨o, ho, hd⟩ c hcode
  rw [hcode, hd, hwrap, ho]
  cases guard <;> simp [Option.map_map, Function.comp_def]

/-- Generation of an action's body: when it gives code, the spend of the action run from the
same state succeeds too, and the code emits what the spend emits. The statements of the body
must be clean at the keys its exit reads. -/
theorem actionBody_emits (V : Noted → Bool) (info : ActionInfo) (sig : Signature)
    (slots : List Noted) (selfHash : Noted) {g : Gen}
    (hc : Block.Clean (exitKeys (ActionScope.of info sig slots selfHash
      (g.analysis.coin.stateVars.map (·.name))).ctx) info.action.body)
    {code : Noted} {g' : Gen} (hgen : (actionBody info sig slots selfHash).run g = .ok (code, g')) :
    ∃ o g'', (runAction V info sig slots selfHash).run g = .ok (o, g'') ∧ code.emits V = o := by
  unfold actionBody at hgen
  unfold runAction
  refine Mirrors.run_get (R := fun code o => code.emits V = o) ?_ hgen
  dsimp only
  have hfn : (ActionScope.of info sig slots selfHash
      (g.analysis.coin.stateVars.map (·.name))).ctx.function = false := rfl
  generalize ActionScope.of info sig slots selfHash (g.analysis.coin.stateVars.map (·.name)) = sc
    at hfn hc ⊢
  obtain ⟨ctx, env, amount, signer⟩ := sc
  dsimp only at hfn hc ⊢
  cases amount with
  | none =>
    simp only [pure_bind]
    refine guarded_body_mirrors V info.access (signer.getD Noted.nil) ctx.message hfn
      info.action.body env hc (fun out => out) [] (fun out => by simp) _ ?_ (fun _ => rfl)
      (fun _ _ _ => rfl) (fun _ _ _ => rfl)
    intro e
    cases e <;> rfl
  | some v =>
    -- the amount is asserted once its condition is made
    cases hcond : condition "ASSERT_MY_AMOUNT" [v] with
    | error e =>
      simp only [lift, hcond]
      exact mirrors_bind_throw e
    | ok c =>
      simp only [lift, hcond, pure_bind]
      refine guarded_body_mirrors V info.access (signer.getD Noted.nil) ctx.message hfn
        info.action.body env hc (consCondition c) [c] (fun out => by simp) _ ?_ (fun _ => rfl)
        (fun _ _ _ => rfl) (fun _ _ _ => rfl)
      intro e
      cases e <;> rfl

end Generate

end PuzzleKit.Script
