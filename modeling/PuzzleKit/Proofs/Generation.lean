import PuzzleKit.Proofs.Generated
import PuzzleKit.Proofs.ActionNames

/-!
# What a run of generation ensures

Generation reads the checked coin from its state and changes only the remarks and the flags of
the helpers a program uses. `Ensures A Q x` says that a run of `x` that starts on the coin `A`
and succeeds gives a result satisfying `Q` and ends on the same coin. Unlike `Tame` it asks
nothing of the coin and says nothing of the runs that fail, so it holds of every step of
generation: the lowering of expressions, statements and blocks, the body of an action and the
builders of a program. What a later step reads of the coin is then what the check found.
-/

namespace PuzzleKit.Script.Generate

open Build

section Ensures

variable {A : Analysis} {α β γ : Type}

/-- A run of `x` from the coin `A` that succeeds gives a result satisfying `Q` and ends on `A`. -/
def Ensures (A : Analysis) (Q : α → Prop) (x : GenM α) : Prop :=
  ∀ g r g', g.analysis = A → x.run g = .ok (r, g') → Q r ∧ g'.analysis = A

theorem ensures_pure {Q : α → Prop} {a : α} (h : Q a) : Ensures A Q (pure a) := by
  intro g r g' hA hrun
  cases hrun
  exact ⟨h, hA⟩

theorem ensures_bind {P : α → Prop} {Q : β → Prop} {x : GenM α} {f : α → GenM β}
    (hx : Ensures A P x) (hf : ∀ a, P a → Ensures A Q (f a)) : Ensures A Q (x >>= f) := by
  intro g r g' hA hrun
  obtain ⟨a, g₁, h1, h2⟩ := stateT_bind_ok hrun
  obtain ⟨ha, hA₁⟩ := hx g a g₁ hA h1
  exact hf a ha g₁ r g' hA₁ h2

theorem Ensures.mono {P Q : α → Prop} {x : GenM α} (h : Ensures A P x) (hPQ : ∀ a, P a → Q a) :
    Ensures A Q x := fun g r g' hA hrun => (h g r g' hA hrun).imp_left (hPQ r)

theorem ensures_get : Ensures A (fun g => g.analysis = A) get := by
  intro g r g' hA hrun
  cases hrun
  exact ⟨hA, hA⟩

theorem ensures_modify {f : Gen → Gen} (hf : ∀ g, (f g).analysis = g.analysis) :
    Ensures A (fun _ => True) (modify f) := by
  intro g r g' hA hrun
  cases hrun
  exact ⟨trivial, (hf g).trans hA⟩

theorem ensures_set {g : Gen} (hg : g.analysis = A) : Ensures A (fun _ => True) (set g) := by
  intro g₀ r g' _ hrun
  cases hrun
  exact ⟨trivial, hg⟩

theorem ensures_lift {Q : α → Prop} {r : Except Failure α} (h : ∀ a, r = .ok a → Q a) :
    Ensures A Q (lift r) := by
  intro g a g' hA hrun
  cases r with
  | ok b =>
    cases hrun
    exact ⟨h _ rfl, hA⟩
  | error e => cases hrun

theorem ensures_monadLift {Q : α → Prop} {r : Except Failure α} (h : ∀ a, r = .ok a → Q a) :
    Ensures A Q (monadLift r : GenM α) := by
  intro g a g' hA hrun
  cases r with
  | ok b =>
    cases hrun
    exact ⟨h _ rfl, hA⟩
  | error e => cases hrun

theorem ensures_throw {Q : α → Prop} (e : Failure) : Ensures A Q (throw e) := by
  intro g r g' _ hrun
  cases hrun

theorem ensures_fault {Q : α → Prop} (text : String) (pos : Option Pos) :
    Ensures A Q (fault text pos) :=
  ensures_throw _

/-- What a step gives is what some run of it from the coin gives. -/
theorem Ensures.run {x : GenM α} (hx : Ensures A (fun _ => True) x) :
    Ensures A (fun r => ∃ g g', g.analysis = A ∧ x.run g = .ok (r, g')) x :=
  fun g r g' hA hrun => ⟨⟨g, g', hA, hrun⟩, (hx g r g' hA hrun).2⟩

theorem ensures_mapM (P : β → Prop) (f : γ → GenM β) :
    ∀ (xs : List γ), (∀ x ∈ xs, Ensures A P (f x)) → Ensures A (fun ys => ∀ y ∈ ys, P y) (xs.mapM f)
  | [], _ => ensures_pure fun _ hy => absurd hy List.not_mem_nil
  | x :: xs, h => by
    rw [List.mapM_cons]
    refine ensures_bind (h x List.mem_cons_self) fun y hy => ?_
    refine ensures_bind (ensures_mapM P f xs fun z hz => h z (List.mem_cons_of_mem _ hz))
      fun ys hys => ensures_pure fun w hw => ?_
    rcases List.mem_cons.mp hw with rfl | hw
    · exact hy
    · exact hys w hw

theorem ensures_forIn (I : β → Prop) (body : γ → β → GenM (ForInStep β)) :
    ∀ (xs : List γ), (∀ x ∈ xs, ∀ b, I b → Ensures A (fun r => I r.value) (body x b)) →
      ∀ b, I b → Ensures A I (forIn xs b body)
  | [], _, b, hb => ensures_pure hb
  | x :: xs, h, b, hb => by
    rw [List.forIn_cons]
    refine ensures_bind (h x List.mem_cons_self b hb) fun r hr => ?_
    cases r with
    | done b' => exact ensures_pure hr
    | yield b' =>
      exact ensures_forIn I body xs (fun y hy => h y (List.mem_cons_of_mem _ hy)) b' hr

/-- A loop whose rounds go on and carry an invariant of the items seen so far keeps it over
all the items. -/
theorem ensures_forIn_seen (I : List γ → β → Prop) (body : γ → β → GenM (ForInStep β))
    (hstep : ∀ pre x b, I pre b → Ensures A (fun r => ∃ b', r = .yield b' ∧ I (pre ++ [x]) b') (body x b)) :
    ∀ (xs pre : List γ) (b : β), I pre b → Ensures A (I (pre ++ xs)) (forIn xs b body)
  | [], pre, b, hb => by
    rw [List.append_nil]
    exact ensures_pure hb
  | x :: xs, pre, b, hb => by
    rw [List.forIn_cons]
    refine ensures_bind (hstep pre x b hb) fun r ⟨b', hr, hb'⟩ => ?_
    subst hr
    have h := ensures_forIn_seen I body hstep xs (pre ++ [x]) b' hb'
    rwa [List.append_assoc, List.singleton_append] at h

end Ensures

variable {A : Analysis}

/-! ### Lowering keeps the coin -/

theorem lookup_ensures (env : Env) (k : String) (pos : Pos) :
    Ensures A (fun v => env.lookup k = some v) (lookup env k pos) := by
  unfold lookup
  split
  · rename_i v hv
    exact ensures_pure hv
  · exact ensures_fault _ _

mutual

theorem expr_ensures (env : Env) : ∀ e : Expr, Ensures A (fun _ => True) (expr env e)
  | .lit l _ => by
    simp only [expr]
    exact ensures_bind ensures_get fun _ _ => ensures_pure trivial
  | .ident n pos => by
    simp only [expr]
    split
    · exact ensures_pure trivial
    · refine ensures_bind ensures_get fun g _ => ?_
      split
      · split
        · exact ensures_pure trivial
        · exact ensures_fault _ _
      · exact ensures_fault _ _
  | .binary op l r pos => by
    simp only [expr]
    refine ensures_bind (expr_ensures env l) fun _ _ => ensures_bind (expr_ensures env r) fun _ _ => ?_
    split
    · exact ensures_pure trivial
    · exact ensures_fault _ _
  | .unary op e _ => by
    simp only [expr]
    exact ensures_bind (expr_ensures env e) fun _ _ => ensures_pure trivial
  | .member o prop pos => by
    simp only [expr]
    split
    · exact (lookup_ensures env _ pos).mono fun _ _ => trivial
    · split
      · exact (lookup_ensures env _ pos).mono fun _ _ => trivial
      · exact ensures_fault _ _
  | .index o k pos => by
    simp only [expr]
    refine ensures_bind (ensures_modify fun _ => rfl) fun _ _ => ?_
    refine ensures_bind (lookup_ensures env _ pos) fun _ _ => ?_
    exact ensures_bind (expr_ensures env k) fun _ _ => ensures_pure trivial
  | .call f args pos => by
    simp only [expr]
    refine ensures_bind (exprs_ensures env args) fun _ _ => ensures_bind ensures_get fun g _ => ?_
    -- a function of the coin, a built-in operator or a library function, or no such function
    split
    · exact ensures_pure trivial
    · split
      · exact ensures_pure trivial
      · split
        · exact ensures_pure trivial
        · exact ensures_fault _ _

theorem exprs_ensures (env : Env) : ∀ es : List Expr, Ensures A (fun _ => True) (exprs env es)
  | [] => by
    simp only [exprs]
    exact ensures_pure trivial
  | e :: es => by
    simp only [exprs]
    exact ensures_bind (expr_ensures env e) fun _ _ =>
      ensures_bind (exprs_ensures env es) fun _ _ => ensures_pure trivial

end

theorem conditionCall_ensures (env : Env) (ctx : Lowering) (e : Expr) :
    Ensures A (fun _ => True) (conditionCall env ctx e) := by
  unfold conditionCall
  split
  · split
    · exact ensures_bind (exprs_ensures env _) fun _ _ => ensures_lift fun _ _ => trivial
    · exact ensures_fault _ _
  · exact ensures_fault _ _

theorem assign_ensures (env : Env) (t : Expr) (op : String) (v : Expr) (pos : Pos) :
    Ensures A (fun _ => True) (assign env t op v pos) := by
  unfold assign
  dsimp only
  have hvalue : ∀ key (u : Noted → Noted → Noted), Ensures A (fun _ => True) (do
      let value ← expr env v
      if (op == "=") = true then pure (env.bind key value)
      else do
        let old ← lookup env key pos
        pure (env.bind key (u old value))) := fun key u => by
    refine ensures_bind (expr_ensures env v) fun _ _ => ?_
    split
    · exact ensures_pure trivial
    · exact ensures_bind (lookup_ensures env key pos) fun _ _ => ensures_pure trivial
  split
  · refine ensures_bind (lookup_ensures env _ _) fun _ _ => ?_
    refine ensures_bind (expr_ensures env _) fun _ _ => ensures_bind (expr_ensures env v) fun _ _ => ?_
    exact ensures_bind (ensures_modify fun _ => rfl) fun _ _ => ensures_pure trivial
  · -- the target names a local or a state field, or cannot be assigned
    have hkey : ∀ key : String, Ensures A (fun _ => True) (pure key : GenM String) :=
      fun _ => ensures_pure trivial
    split
    · exact ensures_bind (hkey _) fun key _ => hvalue key _
    · split
      · exact ensures_bind (hkey _) fun key _ => hvalue key _
      · exact ensures_bind (ensures_fault (Q := fun _ => True) _ _) fun key _ => hvalue key _
    · exact ensures_bind (ensures_fault (Q := fun _ => True) _ _) fun key _ => hvalue key _

theorem exit_ensures (env : Env) (ctx : Lowering) : Ensures A (fun _ => True) (exit env ctx) := by
  unfold exit
  split
  · exact ensures_pure trivial
  · refine ensures_bind (ensures_mapM (fun _ => True) _ _ fun f _ => ?_) fun _ _ => ?_
    · split
      · exact ensures_pure trivial
      · exact ensures_fault _ _
    · exact ensures_bind (ensures_lift fun _ _ => trivial) fun _ _ => ensures_pure trivial

theorem walk_ensures {lower : List Stmt → Env → Option Noted → GenM Noted} {ctx : Lowering}
    {stop : Option Noted} (hlower : ∀ ss env stop, Ensures A (fun _ => True) (lower ss env stop)) :
    ∀ (ss : List Stmt) (env : Env) (steps : List Piece),
      Ensures A (fun _ => True) (walk lower ctx stop ss env steps)
  | [], env, steps => by
    simp only [walk]
    exact ensures_pure trivial
  | s :: rest, env, steps => by
    have ih : ∀ env steps, Ensures A (fun _ => True) (walk lower ctx stop rest env steps) :=
      walk_ensures hlower rest
    simp only [walk]
    cases s with
    | require c m _ =>
      dsimp only
      split
      · exact ensures_bind (expr_ensures env _) fun _ _ =>
          ensures_bind (ensures_lift fun _ _ => trivial) fun _ _ => ih _ _
      · exact ensures_bind (expr_ensures env c) fun _ _ => ih _ _
    | send r a m _ =>
      dsimp only
      refine ensures_bind (expr_ensures env r) fun rc _ => ensures_bind (expr_ensures env a) fun ac _ => ?_
      have hrest : ∀ mc : List Noted, Ensures A (fun _ => True) (do
          let c ← lift (condition "CREATE_COIN" ([rc, ac] ++ mc))
          walk lower ctx stop rest env (steps ++ [Piece.cons c])) := fun mc =>
        ensures_bind (ensures_lift fun _ _ => trivial) fun _ _ => ih _ _
      split
      · exact ensures_bind (expr_ensures env _) fun _ _ =>
          ensures_bind (ensures_pure (Q := fun _ => True) trivial) fun mc _ => hrest mc
      · exact ensures_bind (ensures_pure (Q := fun _ => True) trivial) fun mc _ => hrest mc
    | emit ev args _ =>
      dsimp only
      exact ensures_bind (exprs_ensures env args) fun _ _ =>
        ensures_bind (ensures_lift fun _ _ => trivial) fun _ _ => ih _ _
    | eval e _ =>
      dsimp only
      exact ensures_bind (conditionCall_ensures env ctx e) fun _ _ => ih _ _
    | assign t op v pos _ =>
      dsimp only
      exact ensures_bind (assign_ensures env t op v pos) fun _ _ => ih _ _
    | branch c yes no _ =>
      dsimp only
      refine ensures_bind (expr_ensures env c) fun _ _ => ?_
      split
      · exact ensures_bind (hlower _ _ _) fun _ _ =>
          ensures_bind (hlower _ _ _) fun _ _ => ensures_pure trivial
      · refine ensures_bind (hlower _ _ _) fun _ _ => ensures_bind (hlower _ _ _) fun _ _ => ?_
        split
        · exact ih _ _
        · exact ensures_bind (ensures_modify fun _ => rfl) fun _ _ => ih _ _
    | ret v _ =>
      dsimp only
      split
      · cases v with
        | none => exact ensures_pure trivial
        | some x => exact ensures_bind (expr_ensures env x) fun _ _ => ensures_pure trivial
      · exact ensures_bind (exit_ensures env ctx) fun _ _ => ensures_pure trivial
    | fail m _ => exact ensures_pure trivial

theorem block_ensures (ctx : Lowering) :
    ∀ (fuel : Nat) (stop : Option Noted) (ss : List Stmt) (env : Env),
      Ensures A (fun _ => True) (block fuel ctx stop ss env)
  | 0, _, _, _ => by
    simp only [block]
    exact ensures_bind ensures_get fun _ _ => ensures_fault _ _
  | fuel + 1, stop, ss, env => by
    simp only [block]
    refine ensures_bind (walk_ensures (fun ss env stop => block_ensures ctx fuel stop ss env) ss env [])
      fun r _ => ?_
    obtain ⟨steps, ended, env'⟩ := r
    dsimp only
    have hend : ∀ tail : GenM Noted, Ensures A (fun _ => True) tail →
        Ensures A (fun _ => True) (tail >>= fun t => pure (steps.foldr (fun p t => p.apply t) t)) :=
      fun _ h => ensures_bind h fun _ _ => ensures_pure trivial
    split
    · exact hend _ (ensures_pure trivial)
    · exact hend _ (ensures_pure trivial)
    · exact hend _ (exit_ensures env' ctx)

theorem body_ensures (ctx : Lowering) (ss : List Stmt) (env : Env) :
    Ensures A (fun _ => True) (body ctx ss env) := by
  simp only [body]
  exact ensures_bind ensures_get fun _ _ =>
    ensures_bind (ensures_monadLift fun _ _ => trivial) fun n _ => block_ensures ctx n none ss env

theorem signerCheck_ensures (access : List Expr) (signer message out : Noted) :
    Ensures A (fun _ => True) (signerCheck access signer message out) := by
  unfold signerCheck
  refine ensures_bind (ensures_mapM (fun _ => True) _ _ fun e _ => expr_ensures [] e) fun addrs _ => ?_
  split
  · exact ensures_pure trivial
  · exact ensures_bind (ensures_lift fun _ _ => trivial) fun _ _ => ensures_pure trivial
  · exact ensures_bind (ensures_lift fun _ _ => trivial) fun _ _ => ensures_pure trivial

theorem actionBody_ensures (info : ActionInfo) (sig : Signature) (slots : List Noted)
    (selfHash : Noted) : Ensures A (fun _ => True) (actionBody info sig slots selfHash) := by
  unfold actionBody
  refine ensures_bind ensures_get fun g _ => ensures_bind (body_ensures _ _ _) fun out _ => ?_
  dsimp only
  split
  · exact ensures_bind (ensures_lift fun _ _ => trivial) fun _ _ => signerCheck_ensures _ _ _ _
  · exact signerCheck_ensures _ _ _ _

end PuzzleKit.Script.Generate
